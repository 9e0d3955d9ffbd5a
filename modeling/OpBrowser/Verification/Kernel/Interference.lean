import OpBrowser.Verification.Kernel.Changes
import OpBrowser.Verification.Kernel.Consistency
import OpBrowser.Verification.Kernel.Mediation

/-! # What a system call of one web app does to another

The container updates and the closes name their target in the data, and the kernel
does not ask who sent them. -/

namespace OpBrowser

open Kernel

/-- What the kernel keeps about a running web app: its tab, its window and its label. -/
structure WebAppView where
  container : I32
  client : I32
  label : DomainName
  deriving DecidableEq

def KState.view (s : KState) (k : I32) : Option WebAppView := do
  let app ← (s.webAppList[k]?).join
  let a ← s.apps[app]?
  let proc ← a.proc
  let p ← s.procs[proc]?
  return { container := a.container, client := a.client, label := p.label }

/-- The web app still runs as before, and nothing was written into its pipe. -/
structure Undisturbed (s t : KState) (k : I32) : Prop where
  listed : t.webAppList[k]? ≠ none
  view : t.view k = s.view k
  frames : Wrote (fun f => ¬ s.LeadsTo f.fd k) s t

variable {s t : KState}

theorem Runs.view {k w r a p} (h : Runs s k w r a p) :
    s.view k = some { container := r.container, client := r.client, label := p.label } := by
  simp [KState.view, h.listed, h.app, h.proc, h.record]

/-- The descriptor of a running web app is the one that leads to it. -/
theorem Inv.leadsTo_iff (h : Inv .idle s) {k w r a p} (hr : Runs s k w r a p) {fd : ℕ} :
    s.LeadsTo fd k ↔ fd = p.inFd := by
  have hobj : s.objectAt a = some k := by rw [KState.objectAt, hr.record, Option.map_some, hr.id]
  have hm : s.procMap[k]? = some a := (h.registry.keyed k a).mpr hobj
  constructor
  · intro hfd
    obtain ⟨b, q, hmb, hq, -, rfl, -⟩ := hfd
    obtain rfl := Option.some.inj (hm.symm.trans hmb)
    rw [Option.some.inj (hr.record.symm.trans hq)]
  · intro hfd
    exact hfd ▸ h.leadsTo hm hr.record

/-! ### Beside the changes -/

/-- A running web app whose records and whose pipe are left alone. -/
structure Beside (s : KState) (k : I32) (w : Addr) (r : WebAppProcess) (a : Addr) (p : Process)
    (t : KState) : Prop where
  runs : Runs t k w r a p
  slot : t.fds.slot p.inFd ≠ none
  others : ∀ (b : Addr) (q : Process), t.procs[b]? = some q → b ≠ a → q.inFd ≠ p.inFd
  ui : t.uiFd ≠ p.inFd
  frames : Wrote (fun f => f.fd ≠ p.inFd) s t

theorem Inv.beside (h : Inv .idle s) {k w r a p} (hr : Runs s k w r a p)
    (hweb : webappFirstId ≤ k) : Beside s k w r a p s := by
  have hdistinct : ∀ (b : Addr) (q : Process), s.procs[b]? = some q → b ≠ a → q.inFd ≠ p.inFd := by
    intro b q hq hb hfd
    have hslot := h.registry.inFds b q hq
    rw [hfd, h.registry.inFds a p hr.record] at hslot
    have hpid : p.pid = q.pid := by simpa [endOf] using hslot
    exact hb (h.registry.distinct a b p q hr.record hq hpid).symm
  refine ⟨hr, by simp [h.registry.inFds a p hr.record], hdistinct, ?_, .of_eq rfl⟩
  obtain ⟨b, q, hq, hid, hfd⟩ := h.ui (by simp)
  rw [hfd]
  refine hdistinct b q hq ?_
  rintro rfl
  obtain rfl := Option.some.inj (hr.record.symm.trans hq)
  rw [← hr.id, hid] at hweb
  exact absurd hweb (by decide)

section Change

variable {X : I32 → Prop} {L : Prop} {k : I32} {w a : Addr} {r : WebAppProcess} {p : Process}

theorem Beside.setUnread (h : Beside s k w r a p t) (pid : Pid) (frames : List Message) :
    Beside s k w r a p (t.setUnread pid frames) :=
  { h with runs := { h.runs with } }

theorem Beside.writeApp (h : Beside s k w r a p t) {v : Addr} (hv : v ≠ w)
    (f : WebAppProcess → WebAppProcess) : Beside s k w r a p (t.writeApp v f) := by
  have happ : (t.writeApp v f).apps[w]? = some r := by
    rw [KState.writeApp, Heap.getElem?_write, if_neg hv, h.runs.app]
  exact { h with runs := { h.runs with app := happ } }

theorem Beside.writeProc (h : Beside s k w r a p t) {b : Addr} (hb : b ≠ a)
    {f : Process → Process} (hf : ∀ q, (f q).inFd = q.inFd) :
    Beside s k w r a p (t.writeProc b f) := by
  have hrecord : (t.writeProc b f).procs[a]? = some p := by
    rw [KState.writeProc, Heap.getElem?_write, if_neg hb, h.runs.record]
  refine { h with runs := { h.runs with record := hrecord }, others := ?_ }
  intro c q hq hca
  rw [KState.writeProc, Heap.getElem?_write] at hq
  split at hq
  next =>
    obtain ⟨q', hq', rfl⟩ := Option.map_eq_some_iff.mp hq
    rw [hf]
    exact h.others c q' hq' hca
  next => exact h.others c q hq hca

theorem Beside.freeApp (h : Beside s k w r a p t) {v : Addr} (hv : v ≠ w) :
    Beside s k w r a p (t.freeApp v) := by
  have happ : (t.freeApp v).apps[w]? = some r := by
    rw [KState.freeApp, Heap.getElem?_free, if_neg hv, h.runs.app]
  exact { h with runs := { h.runs with app := happ } }

theorem Beside.drop (h : Beside s k w r a p t) {b : Addr} (hb : b ≠ a) (n : I32)
    (killList : OrdMap Pid (I32 × ℤ)) : Beside s k w r a p (t.drop n b killList) := by
  have hrecord : (t.drop n b killList).procs[a]? = some p :=
    (getElem?_drop a p).mpr ⟨hb.symm, h.runs.record⟩
  refine { h with runs := { h.runs with record := hrecord }, others := ?_ }
  intro c q hq hca
  exact h.others c q ((getElem?_drop c q).mp hq).2 hca

theorem Beside.fork (h : Beside s k w r a p t) (hroom : t.Room) :
    Beside s k w r a p t.withSpare := by
  obtain ⟨inRead, inWrite, outRead, outWrite, spec⟩ := spawn_spec (spawn_of_room hroom)
  have hnew : t.ends.inFd ≠ p.inFd := by
    rw [spec.inFd]
    rintro rfl
    exact h.slot spec.free.2.1
  obtain ⟨e, he⟩ := Option.ne_none_iff_exists'.mp h.slot
  have hrecord : t.withSpare.procs[a]? = some p := by
    simp [KState.withSpare, KState.forked, h.runs.record,
        (Heap.ne_next_of_getElem? h.runs.record).symm]
  have happ : t.withSpare.apps[w]? = some r := by
    simp [KState.withSpare, h.runs.app, (Heap.ne_next_of_getElem? h.runs.app).symm]
  refine { h with runs := { h.runs with record := hrecord, app := happ }, slot := ?_, others := ?_ }
  · change t.ends.parent.slot p.inFd ≠ none
    rw [slot_spawn_parent (spawn_of_room hroom) he]
    exact Option.some_ne_none e
  · intro b q hq hb
    cases getElem?_forked hq with
    | inl hq => exact hq.2.2.2 ▸ hnew
    | inr hq => exact h.others b q hq hb

theorem Beside.change {u : KState} (h : Beside s k w r a p t) (hX : ¬ X k) (hc : Change X L t u) :
    Beside s k w r a p u := by
  -- the records that are open to changes are others than these
  have hproc : ∀ {b : Addr} {q : Process}, t.procs[b]? = some q → X q.objectId → b ≠ a := by
    rintro b q hq hXq rfl
    rw [Option.some.inj (hq.symm.trans h.runs.record), h.runs.id] at hXq
    exact hX hXq
  have happ : ∀ {v b r' q}, Pair t v r' b q → X q.objectId → v ≠ w := by
    rintro v b r' q hpair hXq rfl
    obtain rfl := Option.some.inj (hpair.app.symm.trans h.runs.app)
    exact hproc hpair.record hXq (Option.some.inj (hpair.proc.symm.trans h.runs.proc))
  cases hc with
  | book hk =>
      refine ⟨⟨?_, ?_, h.runs.proc, ?_, h.runs.id⟩, ?_, ?_, ?_, ?_⟩
      · rw [hk.webAppList, h.runs.listed]
      · rw [hk.apps, h.runs.app]
      · rw [hk.procs, h.runs.record]
      · rw [hk.fds]
        exact h.slot
      · rw [hk.procs]
        exact h.others
      · rw [hk.uiFd]
        exact h.ui
      · exact h.frames.trans (.of_eq hk.sent)
  | @send f addressed =>
      have hfd : f.fd ≠ p.inFd := by
        cases addressed with
        | inl hui => exact hui ▸ h.ui
        | inr hto =>
            obtain ⟨b, q, hq, hfd, hXq⟩ := hto
            exact hfd ▸ h.others b q hq (hproc hq hXq)
      exact { h with
        runs := { h.runs with }, frames := h.frames.trans ⟨[f], rfl, by simpa using hfd⟩ }
  | hear pair touched =>
      refine Beside.writeProc ?_ (hproc pair.record touched) fun _ => rfl
      exact (h.setUnread _ _).writeApp (happ pair touched) _
  | mishear => exact h.setUnread _ _
  | fork _ room => exact h.fork room
  | unspare => exact { h with runs := { h.runs with } }
  | unpark =>
      have hnew : ∀ r', (t.apps.alloc r')[w]? = some r := by
        intro r'
        rw [Heap.getElem?_alloc, if_neg (Heap.ne_next_of_getElem? h.runs.app).symm, h.runs.app]
      exact { h with runs := { h.runs with app := hnew _ } }
  | @list v r' b q pair touched free =>
      have hne : q.objectId ≠ k := fun he => hX (he ▸ touched)
      have hlisted : (t.list q.objectId v).webAppList[k]? = some (some w) := by
        rw [KState.list, OrdMap.getElem?_insert, if_neg hne, h.runs.listed]
      exact { h with runs := { h.runs with listed := hlisted } }
  | tab pair touched => exact h.writeApp (happ pair touched) _
  | label record touched => exact h.writeProc (hproc record touched) fun _ => rfl
  | @park n v r' b q runs touched =>
      have hne : n ≠ k := fun he => hX (he ▸ touched)
      have hlisted : (t.unlist n).webAppList[k]? = some (some w) := by
        rw [KState.unlist, OrdMap.getElem?_erase, if_neg hne, h.runs.listed]
      have hunlisted : Beside s k w r a p ((t.setEntries (t.cache.entries ++ [b])).unlist n) :=
        { h with runs := { h.runs with listed := hlisted } }
      exact hunlisted.freeApp (happ ⟨runs.app, runs.proc, runs.record⟩ (runs.id ▸ touched))
  | forget => exact { h with runs := { h.runs with } }
  | drop _ record touched killList => exact h.drop (hproc record touched) _ killList
  | free record unlisted =>
      refine h.freeApp ?_
      rintro rfl
      exact unlisted k h.runs.listed

theorem Beside.changes {u : KState} (h : Beside s k w r a p t) (hX : ¬ X k)
    (hc : Changes X L t u) : Beside s k w r a p u := by
  induction hc with
  | refl => exact h
  | tail _ hstep ih => exact ih.change hX hstep

/-- Who is left alone is not disturbed. -/
theorem Beside.undisturbed (h : Beside s k w r a p t) (hinv : Inv .idle s)
    (hr : Runs s k w r a p) : Undisturbed s t k where
  listed := by
    rw [h.runs.listed]
    exact Option.some_ne_none _
  view := by rw [h.runs.view, hr.view]
  frames := h.frames.mono fun f hf hto => hf ((hinv.leadsTo_iff hr).mp hto)

end Change

/-! ### System calls -/

/-- A web app that is not named is not disturbed. -/
theorem Inv.undisturbed (h : Inv .idle s) {k n : I32} {a : Addr} {msg : Message}
    (hk : s.webAppList[k]? ≠ none) (hn : s.webAppList[n]? ≠ none) (ha : s.procMap[k]? = some a)
    (htarget : ¬ Targets s msg n) :
    Outcome (handleSyscall a msg) s (fun _ t => Undisturbed s t n) fun _ t =>
      Undisturbed s t n := by
  obtain ⟨e, he⟩ := Option.ne_none_iff_exists'.mp hn
  obtain ⟨w, r, b, p, rfl, hr⟩ := h.listed_runs he
  have hbeside : Beside s n w r b p s := h.beside hr (h.placement.listed n _ he).1
  have hX : ¬ (s.webAppList[n]? = none ∨ Targets s msg n) := not_or.mpr ⟨hn, htarget⟩
  have hspare : ¬ s.Spare a := by
    intro hs
    obtain ⟨m, hm, -, hfree, -⟩ := h.placement.spare_proc hs
    rw [Option.some.inj (((h.registry.keyed k a).mp ha).symm.trans hm)] at hk
    exact hk hfree
  have hch : Makes (fun j => s.webAppList[j]? = none ∨ Targets s msg j) True
      (handleSyscall a msg) s :=
    handleSyscall_changes h (fun _ => hspare) (fun _ => .inl) (fun _ => .inr) fun _ => trivial
  exact hch.mono (fun _ _ hc => (hbeside.changes hX hc).undisturbed h hr)
    fun _ _ hc => (hbeside.changes hX hc.changes).undisturbed h hr

/-- A web app that a container update names gets another tab. -/
theorem Inv.disturbed_update (h : Inv .idle s) {n : I32} {a : Addr} {msg : Message}
    (hn : s.webAppList[n]? ≠ none) (htype : msg.msgType = msgUpdataContainer)
    (hname : atoi msg.stringData = n) (htab : s.tabOf n ≠ some msg.msgValue) :
    Outcome (handleSyscall a msg) s (fun _ t => ¬ Undisturbed s t n) fun _ t =>
      ¬ Undisturbed s t n := by
  obtain ⟨e, he⟩ := Option.ne_none_iff_exists'.mp hn
  obtain ⟨w, r, b, p, rfl, hr⟩ := h.listed_runs he
  have hset := hr.setContainer msg.msgValue
  rw [handleSyscall, Outcome.bind, Outcome.get, if_neg (by rw [htype]; decide),
    if_neg (by rw [htype]; decide), if_pos htype, hname, handleUpdateContainer, Outcome.bind,
    Outcome.get, he, Outcome.bind, Outcome.require_some, updateApp_outcome hr.app]
  intro hsame
  have hview := hsame.view
  rw [hset.view, hr.view, Option.some.injEq, WebAppView.mk.injEq] at hview
  have hcontainer : msg.msgValue = r.container := hview.1
  exact htab (by simp [KState.tabOf, hr.listed, hr.app, hcontainer])

theorem Inv.not_undisturbed_update (h : Inv .idle s) {n : I32} {a : Addr} {msg : Message}
    (hn : s.webAppList[n]? ≠ none) (htype : msg.msgType = msgUpdataContainer)
    (hname : atoi msg.stringData = n) (htab : s.tabOf n ≠ some msg.msgValue) :
    ¬ Outcome (handleSyscall a msg) s (fun _ t => Undisturbed s t n) fun _ t => Undisturbed s t n :=
  fun hsame => hsame.elim (h.disturbed_update hn htype hname htab)

/-- A web app whose close is accepted is told to hide its window. -/
theorem Inv.disturbed_close (h : Inv .idle s) {n : I32} {a : Addr} {msg : Message}
    (htype : msg.msgType = msgWebappClose) (hname : atoi msg.stringData = n)
    (hacc : s.accepts msg.msgValue n = true) :
    Outcome (handleSyscall a msg) s (fun _ t => ¬ Undisturbed s t n) fun _ t =>
      ¬ Undisturbed s t n := by
  obtain ⟨w, r, b, p, hr⟩ := h.accepted hacc
  have hfrom : ∀ t, Wrote KernelFrame (s.hide msg.msgValue n w p) t → ¬ Undisturbed s t n := by
    intro t hw hsame
    obtain ⟨new, hnew, -⟩ := hw
    obtain ⟨new', hnew', hnot⟩ := hsame.frames
    have hcons : s.sent ++ (hideFrame s n p :: new) = s.sent ++ new' := by
      rw [← hnew', hnew]
      simp [KState.hide, KState.send, KState.bumpMsgId, KState.writeApp, hideFrame]
    have hmem : hideFrame s n p ∈ new' := by
      rw [← List.append_cancel_left hcons]
      exact List.mem_cons_self
    exact hnot _ hmem ((h.leadsTo_iff hr).mpr rfl)
  rw [handleSyscall, Outcome.bind, Outcome.get, if_neg (by rw [htype]; decide),
    if_neg (by rw [htype]; decide), if_neg (by rw [htype]; decide), if_pos htype, hname,
    handleCloseWebApp_accepted hr hacc]
  exact (closeRunning_outcome (h.hide msg.msgValue n w p) (hr.hide msg.msgValue)).mono
    (fun _ t ht => hfrom t ht.2.2) fun _ t ht => hfrom t ht.2.2

/-- In every state that the kernel reaches, a system call of one listed web app disturbs
another exactly when it sets that one's tab or closes it, whether the call returns or
stops the kernel. -/
theorem undisturbed_iff (isCrawler : Bool) (fdLimit : ℕ) (es : List Event)
    (hrun : ((boot isCrawler fdLimit).run es).fault = none) {k n : I32}
    (hk : ((boot isCrawler fdLimit).run es).state.webAppList[k]? ≠ none)
    (hn : ((boot isCrawler fdLimit).run es).state.webAppList[n]? ≠ none) {a : Addr}
    (ha : ((boot isCrawler fdLimit).run es).state.procMap[k]? = some a) (msg : Message) :
    Outcome (handleSyscall a msg) ((boot isCrawler fdLimit).run es).state
        (fun _ t => Undisturbed ((boot isCrawler fdLimit).run es).state t n)
        (fun _ t => Undisturbed ((boot isCrawler fdLimit).run es).state t n) ↔
      ¬ Targets ((boot isCrawler fdLimit).run es).state msg n := by
  have h : Inv .idle ((boot isCrawler fdLimit).run es).state := sound_run isCrawler fdLimit es hrun
  constructor
  · intro hsame htarget
    obtain ⟨hname, htarget⟩ := htarget
    cases htarget with
    | inl hupdate => exact hsame.elim (h.disturbed_update hn hupdate.1 hname hupdate.2)
    | inr hclose => exact hsame.elim (h.disturbed_close hclose.1 hname hclose.2)
  · exact h.undisturbed hk hn ha

/-- Two pages are opened in two tabs. -/
def twoTabs : List Event := [
  .write 5 { msgType := msgNewWebapp, msgValue := 77 },
  .write 4 { msgType := msgNewUrl, msgValue := 2, payload := .ofBytes (bytes "http://a.com/\x00") },
  .handle uiId,
  .write 6 { msgType := msgNewWebapp, msgValue := 78 },
  .write 4 { msgType := msgNewUrl, msgValue := 3, payload := .ofBytes (bytes "http://b.com/\x00") },
  .handle uiId]

/-- Both pages run, and the first one is the process at address 4. -/
theorem twoTabs_run :
    ((boot false 1024).run twoTabs).fault = none ∧
      ((boot false 1024).run twoTabs).state.webAppList[(1024 : I32)]? ≠ none ∧
      ((boot false 1024).run twoTabs).state.webAppList[(1025 : I32)]? ≠ none ∧
      ((boot false 1024).run twoTabs).state.procMap[(1024 : I32)]? = some 4 := by decide +kernel

/-- The first page opens a third one. -/
theorem undisturbed_iff_newUrl :
    let s := ((boot false 1024).run twoTabs).state
    let msg : Message :=
      { srcId := 1024, msgType := msgNewUrl, msgValue := 1
        payload := .ofBytes (bytes "http://c.com/\x00") }
    Outcome (handleSyscall 4 msg) s (fun _ t => Undisturbed s t 1025)
      (fun _ t => Undisturbed s t 1025) ↔ ¬ Targets s msg 1025 := by
  intro s msg
  obtain ⟨hrun, hk, hn, ha⟩ := twoTabs_run
  exact undisturbed_iff false 1024 twoTabs hrun hk hn ha msg

/-- The first page moves the second one to another tab. -/
theorem update_disturbs :
    let s := ((boot false 1024).run twoTabs).state
    let msg : Message :=
      { srcId := 1024, msgType := msgUpdataContainer, msgValue := 9
        payload := .ofBytes (bytes "1025\x00") }
    ((boot false 1024).run twoTabs).fault = none ∧ s.webAppList[(1024 : I32)]? ≠ none ∧
      s.webAppList[(1025 : I32)]? ≠ none ∧ s.procMap[(1024 : I32)]? = some 4 ∧
      ¬ Outcome (handleSyscall 4 msg) s (fun _ t => Undisturbed s t 1025)
        fun _ t => Undisturbed s t 1025 := by
  intro s msg
  obtain ⟨hrun, hk, hn, ha⟩ := twoTabs_run
  have hinv : Inv .idle s := sound_run false 1024 twoTabs hrun
  have hname : atoi msg.stringData = 1025 := by decide
  have htab : ((boot false 1024).run twoTabs).state.tabOf 1025 ≠ some 9 := by decide +kernel
  exact ⟨hrun, hk, hn, ha, hinv.not_undisturbed_update hn rfl hname htab⟩

end OpBrowser
