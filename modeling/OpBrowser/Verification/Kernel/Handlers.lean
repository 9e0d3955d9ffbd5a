import OpBrowser.Verification.Kernel.NewUrl

/-! # The other handlers of the manager -/

namespace OpBrowser

open Kernel

/-- Between the two states only frames of this kind were written. -/
def Wrote (P : Sent → Prop) (s t : KState) : Prop := ∃ new, t.sent = s.sent ++ new ∧ ∀ f ∈ new, P f

/-- A copy of the frame that the kernel has read, and not one of its own making. -/
def Sent.Forwarded (f : Sent) : Prop := f.site = .handleMessage ∨ f.site = .handleEmbedFrame

instance (f : Sent) : Decidable f.Forwarded := inferInstanceAs (Decidable (_ ∨ _))

/-- A frame of the kernel's own making that neither carries a URL nor announces a web app. -/
structure KernelFrame (f : Sent) : Prop where
  src : f.msg.srcId = kernelId
  site : f.site ≠ .handleNewUrl
  type : f.msg.msgType ≠ msgNewWebapp
  own : ¬ f.Forwarded

namespace Wrote

variable {P P' : Sent → Prop} {s t u : KState}

theorem of_eq (h : t.sent = s.sent) : Wrote P s t := ⟨[], by simp [h], by simp⟩

theorem trans (h : Wrote P s t) (h' : Wrote P t u) : Wrote P s u := by
  obtain ⟨new, hn, hp⟩ := h
  obtain ⟨new', hn', hp'⟩ := h'
  refine ⟨new ++ new', by rw [hn', hn, List.append_assoc], ?_⟩
  intro f hf
  rcases List.mem_append.mp hf with hf | hf
  · exact hp f hf
  · exact hp' f hf

theorem mono (h : Wrote P s t) (hp : ∀ f, P f → P' f) : Wrote P' s t := by
  obtain ⟨new, hn, hnew⟩ := h
  exact ⟨new, hn, fun f hf => hp f (hnew f hf)⟩

theorem handed (h : Wrote KernelFrame s t) (f : Sent) : t.Handed f ↔ s.Handed f := by
  obtain ⟨new, hn, hp⟩ := h
  rw [KState.Handed, KState.Handed, hn, List.mem_append]
  constructor
  · rintro ⟨hf | hf, hsite, htype⟩
    · exact ⟨hf, hsite, htype⟩
    · exact absurd hsite (hp f hf).site
  · rintro ⟨hf, hrest⟩
    exact ⟨.inl hf, hrest⟩

end Wrote

variable {ph : Phase} {s : KState}

/-! ### The init message -/

/-- Whether the init message of this process is its first one. -/
def KState.InitOk (s : KState) (proc : Addr) : Prop :=
  ∀ (w : Addr) (r : WebAppProcess), s.cachedWebApp = some w → s.apps[w]? = some r →
    r.proc = some proc → r.client = 0

theorem handleInit_outcome (h : Inv .idle s) (proc : Addr) (msg : Message) :
    Outcome (handleInit proc msg) s
      (fun _ t => Inv .idle t ∧ (msg.msgType = msgNewWebapp → s.InitOk proc) ∧ t.sent = s.sent)
      fun e t => e = .clientAssert ∧ ¬ (msg.msgType = msgNewWebapp → s.InitOk proc) ∧ t = s := by
  rw [handleInit, Outcome.bind, Outcome.get, Outcome.ite]
  refine ⟨fun htype => ?_, fun htype => ⟨h, fun ht => absurd ht htype, rfl⟩⟩
  cases hw : s.cachedWebApp with
  | none =>
      refine ⟨h, fun _ w r hw' => ?_, rfl⟩
      rw [hw] at hw'
      cases hw'
  | some w =>
      obtain ⟨r, a, k, hr, hrp, ha, hk, hl, hp, hc⟩ := h.placement.spare w hw
      have hok : s.InitOk proc ↔ (a = proc → r.client = 0) := by
        constructor
        · rintro hall rfl
          exact hall w r hw hr hrp
        · intro hclient w' r' hw' hr' hrp'
          rw [hw] at hw'
          cases hw'
          rw [hr] at hr'
          cases hr'
          rw [hrp] at hrp'
          exact hclient (Option.some.inj hrp')
      dsimp only
      rw [Outcome.bind, derefApp_outcome hr, Outcome.ite, hrp]
      refine ⟨fun hproc => ?_, fun hproc => ⟨h, fun _ => hok.mpr fun he => ?_, rfl⟩⟩
      swap
      · exact absurd (by rw [he]) hproc
      obtain rfl := Option.some.inj hproc
      rw [Outcome.bind, Outcome.ensure]
      refine ⟨fun hzero => ?_, fun hne => ⟨rfl, fun hall => hne (hok.mp (hall htype) rfl), rfl⟩⟩
      obtain ⟨p, hp', -⟩ := Option.map_eq_some_iff.mp ha
      have hproc := h.writeProc (a := a) (f := fun p => { p with clientId := some msg.msgValue })
        (fun _ => rfl) (fun _ => rfl) (fun _ => rfl) (fun _ _ => by simp)
        (fun q hq g hg hd => h.labelled.label g hg a q hq hd)
      have happ := hproc.writeApp (w := w) (f := fun r => { r with client := msg.msgValue })
        (fun _ => rfl) <| by
          intro r' b hr' _ hb _
          have hab : b = a := Option.some.inj <| by
            rw [← hb, ← hrp, Option.some.inj (hr'.symm.trans hr)]
          simp [hab, KState.clientAt, KState.writeProc, hp']
      rw [Outcome.bind, updateApp_outcome hr, updateProc_outcome (p := p)]
      · exact ⟨happ, fun _ => hok.mpr fun _ => hzero, rfl⟩
      · exact hp'

/-! ### Tabs -/

theorem handleUpdateContainer_outcome (h : Inv .idle s) (containerId webAppId : I32) :
    Outcome (handleUpdateContainer containerId webAppId) s
      (fun _ t => Inv .idle t ∧ t.sent = s.sent) fun _ _ => False := by
  rw [handleUpdateContainer, Outcome.bind, Outcome.get]
  cases hl : s.webAppList[webAppId]? with
  | none => exact ⟨h, rfl⟩
  | some e =>
      obtain ⟨w, r, -, -, rfl, hr, -⟩ := h.listed_record hl
      dsimp only
      rw [Outcome.bind, Outcome.require_some, updateApp_outcome hr]
      exact ⟨h.setContainer w containerId, rfl⟩

/-- The test of `checkWebAppMsg`. -/
def KState.accepts (s : KState) (containerId webAppId : I32) : Bool :=
  ((s.webAppList[webAppId]?).join.bind fun w => s.apps[w]?).any fun r =>
    r.container = containerId || r.container = 0

/-- The records around a running web app. -/
structure Runs (s : KState) (k : I32) (w : Addr) (r : WebAppProcess) (a : Addr) (p : Process) :
    Prop where
  listed : s.webAppList[k]? = some (some w)
  app : s.apps[w]? = some r
  proc : r.proc = some a
  record : s.procs[a]? = some p
  id : p.objectId = k

theorem Inv.listed_runs (h : Inv ph s) {k : I32} {e : Option Addr}
    (hl : s.webAppList[k]? = some e) :
    ∃ w r a p, e = some w ∧ Runs s k w r a p := by
  obtain ⟨w, r, a, p, rfl, hr, hrp, hp, hid⟩ := h.listed_record hl
  exact ⟨w, r, a, p, rfl, hl, hr, hrp, hp, hid⟩

theorem Runs.accepts {k w r a p} (hr : Runs s k w r a p) (containerId : I32) :
    s.accepts containerId k = (r.container = containerId || r.container = 0) := by
  simp [KState.accepts, hr.listed, hr.app]

theorem Inv.accepted (h : Inv ph s) {containerId webAppId : I32}
    (hacc : s.accepts containerId webAppId = true) : ∃ w r a p, Runs s webAppId w r a p := by
  cases hl : s.webAppList[webAppId]? with
  | none => simp [KState.accepts, hl] at hacc
  | some e =>
      obtain ⟨w, r, a, p, -, hr⟩ := h.listed_runs hl
      exact ⟨w, r, a, p, hr⟩

theorem checkWebAppMsg_accepted {containerId webAppId w r a p} (hr : Runs s webAppId w r a p)
    (hacc : s.accepts containerId webAppId = true) {Q E} :
    Outcome (checkWebAppMsg containerId webAppId) s Q E ↔
      Q true (s.writeApp w fun r => { r with container := containerId }) := by
  rw [checkWebAppMsg, Outcome.bind, Outcome.get, hr.listed, Outcome.bind, Outcome.require_some,
    Outcome.bind, derefApp_outcome hr.app]
  by_cases hc : r.container = containerId
  · have hsame : (s.writeApp w fun r => { r with container := containerId }) = s := by
      rw [KState.writeApp, Heap.write_self hr.app (by rw [← hc])]
    rw [if_pos hc, Outcome.pure, hsame]
  · have hzero : r.container = 0 := by simpa [hr.accepts, hc] using hacc
    rw [if_neg hc, if_pos hzero, Outcome.bind, updateApp_outcome hr.app, Outcome.pure]

theorem checkWebAppMsg_refused (h : Inv ph s) {containerId webAppId : I32}
    (hacc : ¬ s.accepts containerId webAppId = true) {Q E} :
    Outcome (checkWebAppMsg containerId webAppId) s Q E ↔ Q false s := by
  rw [checkWebAppMsg, Outcome.bind, Outcome.get]
  cases hl : s.webAppList[webAppId]? with
  | none => exact Iff.rfl
  | some e =>
      obtain ⟨w, r, a, p, rfl, hr⟩ := h.listed_runs hl
      obtain ⟨hc, hzero⟩ : r.container ≠ containerId ∧ r.container ≠ 0 := by
        simpa [hr.accepts] using hacc
      dsimp only
      rw [Outcome.bind, Outcome.require_some, Outcome.bind, derefApp_outcome hr.app, if_neg hc,
        if_neg hzero, Outcome.pure]

/-! ### Closing a web app -/

/-- When `handleCloseWebApp` gets through: the cache can keep the process. -/
def KState.CloseOk (s : KState) (containerId webAppId : I32) : Prop :=
  s.accepts containerId webAppId = true → 0 < s.cache.size

instance (s : KState) (containerId webAppId : I32) : Decidable (s.CloseOk containerId webAppId) :=
  inferInstanceAs (Decidable (_ → _))

/-- A web app record stands in one place. -/
theorem Inv.app_unique (h : Inv ph s) {k : I32} {w : Addr} (hl : s.webAppList[k]? = some (some w)) :
    (∀ n : I32, s.webAppList[n]? = some (some w) → n = k) ∧ s.cachedWebApp ≠ some w := by
  obtain ⟨-, w', a, hww, hw, ha, -⟩ := h.placement.listed k _ hl
  cases hww
  constructor
  · intro n hn
    obtain ⟨-, w', b, hww, hw', hb, -⟩ := h.placement.listed n _ hn
    cases hww
    rw [hw] at hw'
    cases hw'
    exact Option.some.inj (hb.symm.trans ha)
  · intro hc
    obtain ⟨r, b, n, hr, hrp, hb, -, hln, -⟩ := h.placement.spare w hc
    rw [KState.appProc, hr, Option.bind_some, hrp] at hw
    cases hw
    have hnk : n = k := Option.some.inj (hb.symm.trans ha)
    rw [hnk, hl] at hln
    cases hln

/-- The frame that tells an evicted web app to close. -/
def closeFrame (s : KState) (p : Process) : Sent :=
  { site := .evict
    fd := p.inFd
    msg :=
      { srcId := kernelId, dstId := p.objectId, msgId := s.msgId, msgType := msgWebappMsg,
        msgValue := msgWebappClose } }

theorem closeFrame_kernel (s : KState) (p : Process) : KernelFrame (closeFrame s p) :=
  ⟨rfl, by rintro ⟨⟩, (by decide : msgWebappMsg ≠ msgNewWebapp), by rintro (⟨⟨⟩⟩ | ⟨⟨⟩⟩)⟩

/-- A process leaves the tables for the kill list. -/
def KState.bury (s : KState) (a : Addr) (p : Process) : KState :=
  { s with
    procMap := s.procMap.erase p.objectId
    procs := s.procs.free a
    killList := s.killList.insert p.pid (p.objectId, s.now) }

theorem evict_outcome {e : Addr} {rest : List Addr} {p : Process}
    (he : s.cache.entries = e :: rest) (hp : s.procs[e]? = some p)
    (hm : s.procMap[p.objectId]? = some e) (hk : s.killList[p.pid]? = none) {Q E} :
    Outcome evict s Q E ↔
      Q ⟨⟩ ((((s.setEntries rest).bumpMsgId).send (closeFrame s p)).bury e p) := by
  rw [evict, Outcome.bind, Outcome.get, Outcome.bind, he, List.head?_cons, Outcome.require_some,
    Outcome.bind, Outcome.modify, List.tail_cons, Outcome.bind,
    deref_outcome (s := s.setEntries rest) hp, Outcome.bind, nextMsgId_outcome, Outcome.bind,
    writeMessageKernel_outcome (AccessControl.checkWrite_of_kernel_src rfl)]
  generalize hf : Sent.mk _ _ _ = f
  have hf' : f = closeFrame s p := hf.symm
  rw [hf']
  have hp' : ((s.setEntries rest).bumpMsgId.send (closeFrame s p)).procs[e]? = some p := hp
  have hm' : ((s.setEntries rest).bumpMsgId.send (closeFrame s p)).procMap[p.objectId]? =
    some e := hm
  have hk' : ((s.setEntries rest).bumpMsgId.send (closeFrame s p)).killList[p.pid]? = none := hk
  generalize (s.setEntries rest).bumpMsgId.send (closeFrame s p) = t at hp' hm' hk' ⊢
  have hk'' : ¬ p.pid ∈ t.killList := by simpa using hk'
  simp [addToKillList, removeFromProcMap, deleteProc, deref, hp', hm', hk'', KState.bury,
    KState.freeProc]

/-- What an eviction needs to know about the oldest entry. -/
theorem Inv.oldest (h : Inv .idle s) {e : Addr} {rest : List Addr}
    (he : s.cache.entries = e :: rest) : ∃ p, s.procs[e]? = some p ∧
      s.procMap[p.objectId]? = some e ∧ s.killList[p.pid]? = none ∧
      webappFirstId ≤ p.objectId ∧ s.webAppList[p.objectId]? = none := by
  have hparked : s.Parked e := by simp [KState.Parked, he]
  obtain ⟨k, hk, hweb, hl, -⟩ := h.placement.parked e hparked
  obtain ⟨p, hp, rfl⟩ := Option.map_eq_some_iff.mp hk
  refine ⟨p, hp, (h.registry.keyed _ e).mpr hk, ?_, hweb, hl⟩
  by_contra hkill
  obtain ⟨v, hv⟩ := Option.ne_none_iff_exists'.mp hkill
  exact (h.registry.killed _ v hv).2 e p hp rfl

/-- The end of `handleCloseWebApp` when the cache has room. -/
theorem Inv.closed (h : Inv .idle s) {k : I32} {w a : Addr} {r : WebAppProcess} {p : Process}
    (hr : Runs s k w r a p) (hlt : s.cache.entries.length < s.cache.size) :
    Inv .idle (((s.setEntries (s.cache.entries ++ [a])).unlist k).freeApp w) := by
  obtain ⟨hone, hspare⟩ := h.app_unique hr.listed
  have happ : s.appProc w = some a := by rw [KState.appProc, hr.app, Option.bind_some, hr.proc]
  refine (h.park hr.listed happ hlt).freeApp ?_ hspare
  intro n hn
  rw [KState.unlist, KState.setEntries, OrdMap.getElem?_erase] at hn
  split at hn
  · cases hn
  · rename_i hne
    exact hne (hone n hn).symm

/-- The state in which the oldest entry has been evicted. -/
theorem Inv.evicted (h : Inv .idle s) {e : Addr} {rest : List Addr} {q : Process}
    (he : s.cache.entries = e :: rest) (hq : s.procs[e]? = some q) :
    Inv .idle (((s.setEntries rest).bumpMsgId.send (closeFrame s q)).bury e q) := by
  have he' : s.cache.entries = [] ++ e :: rest := he
  have htake : Inv (.floating e) (s.setEntries rest) := h.take he'
  have hsend := htake.bumpMsgId.send (f := closeFrame s q) (by rintro ⟨⟩)
  refine hsend.drop hq rfl _ ?_
  intro n v hn
  rw [OrdMap.getElem?_insert] at hn
  split at hn
  · rename_i hn'
    exact .inr hn'.symm
  · exact .inl (by rw [hn]; simp)

theorem store_outcome_room {a : Addr} (hlt : s.cache.entries.length < s.cache.size) {Q E} :
    Outcome (store a) s Q E ↔ Q ⟨⟩ (s.setEntries (s.cache.entries ++ [a])) := by
  have hle : ¬ (s.setEntries (s.cache.entries ++ [a])).cache.entries.length >
      (s.setEntries (s.cache.entries ++ [a])).cache.size := by
    change ¬ (s.cache.entries ++ [a]).length > s.cache.size
    rw [List.length_append, List.length_singleton]
    omega
  rw [store, Outcome.bind, Outcome.modify, Outcome.bind, Outcome.get, if_neg hle, Outcome.pure]

theorem store_outcome_full {a e : Addr} {rest : List Addr} {q : Process}
    (hle : s.cache.size ≤ s.cache.entries.length) (he : s.cache.entries ++ [a] = e :: rest)
    (hq : s.procs[e]? = some q) (hm : s.procMap[q.objectId]? = some e)
    (hk : s.killList[q.pid]? = none) {Q E} :
    Outcome (store a) s Q E ↔
      Q ⟨⟩ (((s.setEntries rest).bumpMsgId.send (closeFrame s q)).bury e q) := by
  have hgt : (s.setEntries (s.cache.entries ++ [a])).cache.entries.length >
      (s.setEntries (s.cache.entries ++ [a])).cache.size := by
    change (s.cache.entries ++ [a]).length > s.cache.size
    rw [List.length_append, List.length_singleton]
    omega
  rw [store, Outcome.bind, Outcome.modify, Outcome.bind, Outcome.get, if_pos hgt,
    evict_outcome (s := s.setEntries (s.cache.entries ++ [a])) he hq hm hk]
  rfl

/-- The end of `handleCloseWebApp`: the process is stored and its web app record goes. -/
def closeRunning (a w : Addr) : Op Unit := do
  store a
  removeFromWebAppList w
  deleteApp w

section CloseRunning

variable {k : I32} {w a : Addr} {r : WebAppProcess} {p : Process}

theorem closeRunning_room (hr : Runs s k w r a p)
    (hlt : s.cache.entries.length < s.cache.size) {Q : Unit → KState → Prop} {E} :
    Outcome (closeRunning a w) s Q E ↔
      Q ⟨⟩ (((s.setEntries (s.cache.entries ++ [a])).unlist k).freeApp w) := by
  have hlisted : s.webAppList[p.objectId]? = some (some w) := by rw [hr.id]; exact hr.listed
  rw [closeRunning, Outcome.bind, store_outcome_room hlt, Outcome.bind,
    removeFromWebAppList_outcome (s := s.setEntries (s.cache.entries ++ [a])) hr.app hr.proc
      hr.record hlisted,
    deleteApp_outcome (s := (s.setEntries (s.cache.entries ++ [a])).unlist p.objectId) hr.app,
    hr.id]

/-- Under a cache without room the new entry is the oldest one: its record is freed at
once, and then looked at. -/
theorem closeRunning_alone (h : Inv .idle s) (hr : Runs s k w r a p)
    (hle : s.cache.size ≤ s.cache.entries.length) (he : s.cache.entries = []) {Q}
    {E : Fault → KState → Prop} :
    Outcome (closeRunning a w) s Q E ↔
      E .useAfterFree (((s.setEntries []).bumpMsgId.send (closeFrame s p)).bury a p) := by
  have hobj : s.objectAt a = some p.objectId := by
    rw [KState.objectAt, hr.record, Option.map_some]
  have hkill : s.killList[p.pid]? = none := by
    by_contra hne
    obtain ⟨v, hv⟩ := Option.ne_none_iff_exists'.mp hne
    exact (h.registry.killed _ v hv).2 a p hr.record rfl
  have hgone : (((s.setEntries []).bumpMsgId.send (closeFrame s p)).bury a p).procs[a]? = none := by
    simp [KState.bury, KState.send, KState.bumpMsgId, KState.setEntries]
  rw [closeRunning, Outcome.bind, store_outcome_full hle (congrArg (· ++ [a]) he) hr.record
    ((h.registry.keyed _ a).mpr hobj) hkill, Outcome.bind, removeFromWebAppList, Outcome.bind,
    derefApp_outcome (s := ((s.setEntries []).bumpMsgId.send (closeFrame s p)).bury a p) hr.app,
    Outcome.bind, hr.proc, Outcome.require_some, Outcome.bind, deref, Outcome.bind, Outcome.get,
    hgone, Outcome.require_none]

/-- The records of a running web app outlive the eviction of another process. -/
theorem Runs.evicted (h : Inv .idle s) (hr : Runs s k w r a p) {e : Addr} {rest : List Addr}
    {q : Process} (he : s.cache.entries = e :: rest) :
    Runs (((s.setEntries rest).bumpMsgId.send (closeFrame s q)).bury e q) k w r a p := by
  have hne : e ≠ a := by
    rintro rfl
    obtain ⟨q', hq', -, -, -, hunl⟩ := h.oldest he
    rw [hr.record] at hq'
    cases hq'
    rw [hr.id, hr.listed] at hunl
    cases hunl
  refine ⟨hr.listed, hr.app, hr.proc, ?_, hr.id⟩
  simpa [KState.bury, KState.send, KState.bumpMsgId, KState.setEntries, hne] using hr.record

/-- A full cache makes room for the process. -/
theorem closeRunning_full (h : Inv .idle s) (hr : Runs s k w r a p)
    (hle : s.cache.size ≤ s.cache.entries.length) {e : Addr} {rest : List Addr} {q : Process}
    (he : s.cache.entries = e :: rest) (hq : s.procs[e]? = some q) {Q : Unit → KState → Prop} {E} :
    Outcome (closeRunning a w) s Q E ↔
      Q ⟨⟩ ((((((s.setEntries rest).bumpMsgId.send (closeFrame s q)).bury e q).setEntries
        (rest ++ [a])).unlist k).freeApp w) := by
  have hlisted : s.webAppList[p.objectId]? = some (some w) := by rw [hr.id]; exact hr.listed
  obtain ⟨q', hq', hm, hkill, -⟩ := h.oldest he
  rw [hq] at hq'
  cases hq'
  have hruns := hr.evicted h (q := q) he
  have hfull : s.cache.entries ++ [a] = e :: (rest ++ [a]) := by rw [he, List.cons_append]
  rw [closeRunning, Outcome.bind, store_outcome_full hle hfull hq hm hkill,
    Outcome.bind, removeFromWebAppList_outcome
      (s := ((s.setEntries (rest ++ [a])).bumpMsgId.send (closeFrame s q)).bury e q)
      hruns.app hr.proc hruns.record hlisted,
    deleteApp_outcome
      (s := (((s.setEntries (rest ++ [a])).bumpMsgId.send (closeFrame s q)).bury e q).unlist
        p.objectId) hruns.app, hr.id]
  exact Iff.rfl

theorem closeRunning_outcome (h : Inv .idle s) (hr : Runs s k w r a p) :
    Outcome (closeRunning a w) s
      (fun _ t => Inv .idle t ∧ 0 < s.cache.size ∧ Wrote KernelFrame s t)
      fun e t => e = .useAfterFree ∧ s.cache.size = 0 ∧ Wrote KernelFrame s t := by
  have hclose : ∀ (t : KState) (q : Process), t.sent = s.sent ++ [closeFrame s q] →
      Wrote KernelFrame s t :=
    fun t q hsent => ⟨[closeFrame s q], hsent, by simpa using closeFrame_kernel s q⟩
  by_cases hlt : s.cache.entries.length < s.cache.size
  · rw [closeRunning_room hr hlt]
    exact ⟨h.closed hr hlt, by omega, .of_eq rfl⟩
  · have hle := not_lt.mp hlt
    cases he : s.cache.entries with
    | nil =>
        have hzero : s.cache.size = 0 := by simpa [he] using hle
        rw [closeRunning_alone h hr hle he]
        exact ⟨rfl, hzero, hclose _ p rfl⟩
    | cons e rest =>
        obtain ⟨q, hq, -⟩ := h.oldest he
        have hroom : rest.length < s.cache.size := by
          have hsize := h.placement.size
          rw [he, List.length_cons] at hsize
          omega
        rw [closeRunning_full h hr hle he hq]
        exact ⟨(h.evicted he hq).closed (hr.evicted h he) hroom, by omega, hclose _ q rfl⟩

end CloseRunning

/-- The frame that tells a web app to hide its window. -/
def hideFrame (s : KState) (webAppId : I32) (p : Process) : Sent :=
  { site := .handleCloseWebApp
    fd := p.inFd
    msg :=
      { srcId := kernelId, dstId := webAppId, msgId := s.msgId, msgType := msgWebappMsg,
        msgValue := msgWebappHide } }

theorem hideFrame_kernel (s : KState) (webAppId : I32) (p : Process) :
    KernelFrame (hideFrame s webAppId p) :=
  ⟨rfl, by rintro ⟨⟩, (by decide : msgWebappMsg ≠ msgNewWebapp), by rintro (⟨⟨⟩⟩ | ⟨⟨⟩⟩)⟩

/-- A web app whose close was accepted is told to hide its window. -/
def KState.hide (s : KState) (containerId webAppId : I32) (w : Addr) (p : Process) : KState :=
  ((s.writeApp w fun r => { r with container := containerId }).bumpMsgId).send
    (hideFrame s webAppId p)

theorem Inv.hide (h : Inv .idle s) (containerId webAppId : I32) (w : Addr) (p : Process) :
    Inv .idle (s.hide containerId webAppId w p) :=
  (h.setContainer w containerId).bumpMsgId.send fun hsite =>
    absurd hsite (hideFrame_kernel s webAppId p).site

theorem Runs.setContainer {k w r a p} (hr : Runs s k w r a p) (container : I32) :
    Runs (s.writeApp w fun r => { r with container }) k w { r with container } a p :=
  ⟨hr.listed, by simp [KState.writeApp, hr.app], hr.proc, hr.record, hr.id⟩

theorem Runs.hide {k w r a p} (hr : Runs s k w r a p) (containerId : I32) :
    Runs (s.hide containerId k w p) k w { r with container := containerId } a p :=
  { hr.setContainer containerId with }

theorem handleCloseWebApp_accepted {containerId webAppId w r a p} (hr : Runs s webAppId w r a p)
    (hacc : s.accepts containerId webAppId = true) {Q E} :
    Outcome (handleCloseWebApp containerId webAppId) s Q E ↔
      Outcome (closeRunning a w) (s.hide containerId webAppId w p) Q E := by
  have ht : Runs (s.writeApp w fun r => { r with container := containerId }).bumpMsgId webAppId w
      { r with container := containerId } a p := { hr.setContainer containerId with }
  rw [handleCloseWebApp, Outcome.bind, checkWebAppMsg_accepted hr hacc, if_pos rfl, Outcome.bind,
    nextMsgId_outcome, Outcome.bind, webAppAt, Outcome.bind, Outcome.get, ht.listed,
      Option.join_some,
    Outcome.require_some, Outcome.bind, procOf_outcome ht.app ht.proc, Outcome.bind,
    deref_outcome ht.record, Outcome.bind,
    writeMessageKernel_outcome (AccessControl.checkWrite_of_kernel_src rfl)]
  exact Iff.rfl

theorem handleCloseWebApp_refused (h : Inv ph s) {containerId webAppId : I32}
    (hacc : ¬ s.accepts containerId webAppId = true) {Q E} :
    Outcome (handleCloseWebApp containerId webAppId) s Q E ↔ Q ⟨⟩ s := by
  rw [handleCloseWebApp, Outcome.bind, checkWebAppMsg_refused h hacc, if_neg Bool.false_ne_true,
      Outcome.pure]

theorem handleCloseWebApp_outcome (h : Inv .idle s) (containerId webAppId : I32) :
    Outcome (handleCloseWebApp containerId webAppId) s
      (fun _ t => Inv .idle t ∧ s.CloseOk containerId webAppId ∧ Wrote KernelFrame s t)
      fun e t => e = .useAfterFree ∧ ¬ s.CloseOk containerId webAppId ∧ Wrote KernelFrame s t := by
  by_cases hacc : s.accepts containerId webAppId = true
  · obtain ⟨w, r, a, p, hr⟩ := h.accepted hacc
    have hsent : Wrote KernelFrame s (s.hide containerId webAppId w p) :=
      ⟨[hideFrame s webAppId p], rfl, by simpa using hideFrame_kernel s webAppId p⟩
    rw [handleCloseWebApp_accepted hr hacc]
    refine (closeRunning_outcome (h.hide containerId webAppId w p) (hr.hide containerId)).mono ?_ ?_
    · intro _ t ht
      obtain ⟨hinv, hpos, hw⟩ := ht
      exact ⟨hinv, fun _ => hpos, hsent.trans hw⟩
    · intro e t ht
      obtain ⟨he, hzero, hw⟩ := ht
      exact ⟨he, fun hok => absurd (hok hacc) (Nat.not_lt.mpr (Nat.le_of_eq hzero)), hsent.trans hw⟩
  · rw [handleCloseWebApp_refused h hacc]
    exact ⟨h, fun h => absurd h hacc, .of_eq rfl⟩

/-! ### Replays -/

/-- Nothing is left of the spare web app that stands in for the replayed one. -/
theorem handleReplayWebApp_free (h : Inv .idle s) (hroom : s.Sparable) {webAppId : I32} {w : Addr}
    {r : WebAppProcess} {a : Addr} {p : Process} (hl : s.webAppList[webAppId]? = none)
    (hw : s.spared.cachedWebApp = some w) (hr : s.spared.apps[w]? = some r) (hrp : r.proc = some a)
    (hp : s.spared.procs[a]? = some p) {Q E} :
    Outcome (handleReplayWebApp webAppId) s Q E ↔
      Q ⟨⟩ (((s.spared.setSpare none).drop p.objectId a s.spared.killList).freeApp w) := by
  have hl' : s.spared.webAppList[webAppId]? = none := by rw [Quiet.spared.webAppList, hl]
  have hs := h.spared hroom
  rw [handleReplayWebApp, Outcome.bind, Outcome.get, Outcome.bind, Outcome.ensure]
  simp only [hl, not_true_eq_false, false_implies, and_true, forall_const]
  rw [Outcome.bind, spareWebApp, Outcome.bind, preCreateWebApp_outcome h]
  simp only [hroom, not_true_eq_false, false_implies, and_true, forall_const]
  rw [Outcome.bind, Outcome.get, hw, Outcome.require_some]
  generalize s.spared = u at hw hr hp hl' hs ⊢
  have hobj : u.objectAt a = some p.objectId := by rw [KState.objectAt, hp, Option.map_some]
  have hm : u.procMap[p.objectId]? = some a := (hs.registry.keyed _ a).mpr hobj
  have hl'' : ¬ webAppId ∈ u.webAppList := by simpa using hl'
  simp [procOf, deref, derefApp, updateProc, updateApp, addToWebAppList, webAppAt,
    removeFromWebAppList, deleteApp, removeFromProcMap, deleteProc, KState.writeProc,
    KState.writeApp, KState.list, KState.setSpare, KState.unlist, KState.freeApp, KState.freeProc,
    KState.drop, hr, hrp, hp, hl'', hm, OrdMap.erase_insert hl']

/-- A replay finds no spare web app and cannot make one. -/
theorem handleReplayWebApp_full (h : Inv .idle s) (hroom : ¬ s.Sparable) {webAppId : I32}
    (hl : s.webAppList[webAppId]? = none) {Q E} :
    Outcome (handleReplayWebApp webAppId) s Q E ↔ E .pipeAssert s := by
  rw [handleReplayWebApp, Outcome.bind, Outcome.get, Outcome.bind, Outcome.ensure]
  simp only [hl, not_true_eq_false, false_implies, and_true, forall_const]
  rw [Outcome.bind, spareWebApp, Outcome.bind, preCreateWebApp_outcome h]
  simp only [hroom, not_false_eq_true, false_implies, true_and, forall_const]

/-- When a replay gets through: the web app is not listed, and there is a spare one or
there are descriptors for it. -/
def KState.ReplayOk (s : KState) (webAppId : I32) : Prop :=
  s.webAppList[webAppId]? = none ∧ s.Sparable

theorem handleReplayWebApp_outcome (h : Inv .idle s) (webAppId : I32) :
    Outcome (handleReplayWebApp webAppId) s
      (fun _ t => Inv .idle t ∧ s.ReplayOk webAppId ∧ t.sent = s.sent)
      fun e t => (e = .pipeAssert ∨ s.webAppList[webAppId]? ≠ none) ∧ ¬ s.ReplayOk webAppId ∧
        t = s := by
  by_cases hl : s.webAppList[webAppId]? = none
  · by_cases hroom : s.Sparable
    · obtain ⟨w, r, a, p, hw, hr, hrp, hp, -⟩ := h.spare_records hroom
      have happ : s.spared.appProc w = some a := by rw [KState.appProc, hr, Option.bind_some, hrp]
      have hspared := h.spared hroom
      have hdrop := (hspared.takeSpare hw happ).drop hp rfl s.spared.killList fun n e he =>
        .inl (ne_of_eq_of_ne he (Option.some_ne_none e))
      rw [handleReplayWebApp_free h hroom hl hw hr hrp hp]
      exact ⟨hdrop.freeApp (fun k hk => (hspared.app_unique hk).2 hw) (by rintro ⟨⟩), ⟨hl, hroom⟩,
        Quiet.spared.sent⟩
    · rw [handleReplayWebApp_full h hroom hl]
      exact ⟨.inl rfl, fun hok => hroom hok.2, rfl⟩
  · rw [handleReplayWebApp, Outcome.bind, Outcome.get, Outcome.bind, Outcome.ensure]
    exact ⟨fun h => absurd h hl, fun _ => ⟨.inr hl, fun hok => hl hok.1, rfl⟩⟩

/-! ### Deaths and frames for the UI -/

/-- A web app whose death is reported brings the kernel down: unless it is listed a
null pointer is followed, and if it is, its record is read after it was freed. -/
theorem handleUnexpectedClose_outcome (h : Inv .idle s) (webAppId : I32) :
    Outcome (handleUnexpectedClose webAppId) s (fun _ _ => False)
      fun e t => e ∈ [.nullDeref, .useAfterFree] ∧ t.sent = s.sent := by
  rw [handleUnexpectedClose, Outcome.bind, webAppAt, Outcome.bind, Outcome.get]
  cases hl : s.webAppList[webAppId]? with
  | none => exact ⟨by simp, rfl⟩
  | some e =>
      obtain ⟨w, r, a, p, rfl, hr, hrp, hp, hid⟩ := h.listed_record hl
      have hobj : s.objectAt a = some p.objectId := by rw [KState.objectAt, hp, Option.map_some]
      have hm : s.procMap[p.objectId]? = some a := (h.registry.keyed _ a).mpr hobj
      simp [procOf, removeFromProcMap, deleteProc, removeFromWebAppList, deref, derefApp,
        KState.freeProc, hr, hrp, hp, hm]

theorem handleEmbedFrame_outcome (h : Inv .idle s) (msg : Message) :
    Outcome (handleEmbedFrame msg) s
      (fun _ t => Inv .idle t ∧
        Wrote (fun f => f = ⟨.handleEmbedFrame, s.uiFd, msg⟩) s t) fun _ _ => False := by
  rw [handleEmbedFrame, Outcome.bind, Outcome.get, writeMessageKernel, Outcome.modify]
  split
  · exact ⟨h.send (by rintro ⟨⟩), [_], rfl, by simp⟩
  · exact ⟨h, .of_eq rfl⟩

end OpBrowser
