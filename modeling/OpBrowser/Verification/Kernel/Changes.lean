import Mathlib.Logic.Relation
import OpBrowser.Verification.Kernel.Runs

/-! # What a handler can do, step by step

Every handler is a chain of small changes. An invariant that each change keeps is an
invariant of the handlers. -/

namespace OpBrowser

open Kernel

/-- The record of a web app and the one of its process. -/
structure Pair (s : KState) (w : Addr) (r : WebAppProcess) (a : Addr) (p : Process) : Prop where
  app : s.apps[w]? = some r
  proc : r.proc = some a
  record : s.procs[a]? = some p

/-- The window id of a web app is noted in both of its records. -/
def KState.heard (s : KState) (w a : Addr) (client : I32) : KState :=
  (s.writeApp w fun r => { r with client }).writeProc a fun p => { p with clientId := some client }

/-- Only counters, the kill list and the world differ. -/
structure Kept (s t : KState) : Prop where
  procMap : t.procMap = s.procMap
  uiFd : t.uiFd = s.uiFd
  webAppIdOffset : t.webAppIdOffset = s.webAppIdOffset
  cachedWebApp : t.cachedWebApp = s.cachedWebApp
  cache : t.cache = s.cache
  webAppList : t.webAppList = s.webAppList
  procs : t.procs = s.procs
  apps : t.apps = s.apps
  fds : t.fds = s.fds
  nextPid : t.nextPid = s.nextPid
  unread : t.unread = s.unread
  sent : t.sent = s.sent

/-- The frame goes to the UI or to a process that is open to changes. -/
def Addressed (X : I32 → Prop) (s : KState) (f : Sent) : Prop :=
  f.fd = s.uiFd ∨ ∃ (a : Addr) (p : Process), s.procs[a]? = some p ∧ f.fd = p.inFd ∧ X p.objectId

/-- An announcement says what the records of its source say. -/
def Truthful (s : KState) (f : Sent) : Prop :=
  f.msg.msgType = msgNewWebapp → f.msg.dstId = uiId → ∃ w r a p, Pair s w r a p ∧
    webappFirstId ≤ p.objectId ∧ p.objectId = f.msg.srcId ∧ r.client = f.msg.msgValue ∧
      p.clientId ≠ none

/-- One change, to web apps that are open to changes. Processes are lost only if losses
are allowed. -/
inductive Change (X : I32 → Prop) (L : Prop) (s : KState) : KState → Prop where
  | book {t : KState} (h : Kept s t) : Change X L s t
  | send {f : Sent} (addressed : Addressed X s f) (truthful : Truthful s f) :
      Change X L s (s.send f)
  /-- The window id of a web app is read from its pipe. -/
  | hear {w r a p} {m : Message} {rest : List Message} (pair : Pair s w r a p)
      (touched : X p.objectId) (web : webappFirstId ≤ p.objectId) (unknown : r.client = 0)
      (unread : s.unread p.pid = m :: rest)
      (type : m.msgType = msgNewWebapp) :
      Change X L s ((s.setUnread p.pid rest).heard w a m.msgValue)
  /-- What is read instead of a window id is something else. -/
  | mishear {w r a p} {m : Message} {rest : List Message} (pair : Pair s w r a p)
      (web : webappFirstId ≤ p.objectId) (unknown : r.client = 0)
      (unread : s.unread p.pid = m :: rest) (type : m.msgType ≠ msgNewWebapp) :
      Change X L s (s.setUnread p.pid rest)
  | fork (missing : s.cachedWebApp = none) (room : s.Room) : Change X L s s.withSpare
  | unspare : Change X L s (s.setSpare none)
  | unpark {pre post : List Addr} {a : Addr} {p : Process} {client : I32}
      (entries : s.cache.entries = pre ++ a :: post) (record : s.procs[a]? = some p)
      (known : p.clientId = some client) :
      Change X L s ((s.setEntries (pre ++ post)).addApp { proc := some a, client })
  | list {w r a p} (pair : Pair s w r a p) (touched : X p.objectId)
      (free : s.webAppList[p.objectId]? = none) : Change X L s (s.list p.objectId w)
  | tab {w r a p} (pair : Pair s w r a p) (touched : X p.objectId) (container : I32) :
      Change X L s (s.writeApp w fun r => { r with container })
  | label {a p} (record : s.procs[a]? = some p) (touched : X p.objectId) (label : DomainName) :
      Change X L s (s.writeProc a fun p => { p with label })
  | park {k w r a p} (runs : Runs s k w r a p) (touched : X k) :
      Change X L s (((s.setEntries (s.cache.entries ++ [a])).unlist k).freeApp w)
  | forget {a : Addr} {rest : List Addr} (entries : s.cache.entries = a :: rest) :
      Change X L s (s.setEntries rest)
  | drop {a p} (lossy : L) (record : s.procs[a]? = some p) (touched : X p.objectId)
      (killList : OrdMap Pid (I32 × ℤ)) : Change X L s (s.drop p.objectId a killList)
  | free {w r} (record : s.apps[w]? = some r) (unlisted : ∀ k : I32,
      s.webAppList[k]? ≠ some (some w)) :
      Change X L s (s.freeApp w)

/-- Any number of changes. -/
abbrev Changes (X : I32 → Prop) (L : Prop) : KState → KState → Prop :=
  Relation.ReflTransGen (Change X L)

/-- A process whose window id is to be read has something else to say. -/
def Misheard (s : KState) : Prop :=
  ∃ w r a p m, Pair s w r a p ∧ webappFirstId ≤ p.objectId ∧ r.client = 0 ∧
    (s.unread p.pid).head? = some m ∧ m.msgType ≠ msgNewWebapp

/-- How a handler stops. -/
structure Stops (X : I32 → Prop) (L : Prop) (s : KState) (e : Fault) (t : KState) : Prop where
  changes : Changes X L s t
  client : e ≠ .clientAssert
  init : e = .initAssert → ∃ u, Changes X L s u ∧ Misheard u

/-- All that an operation does from a state is a chain of changes. -/
def Makes {α : Type} (X : I32 → Prop) (L : Prop) (x : Op α) (s : KState) : Prop :=
  Outcome x s (fun _ t => Changes X L s t) (Stops X L s)

variable {X : I32 → Prop} {L : Prop} {s t : KState}

theorem Stops.trans {e : Fault} {u : KState} (h : Changes X L s t) (h' : Stops X L t e u) :
    Stops X L s e u where
  changes := h.trans h'.changes
  client := h'.client
  init he := by
    obtain ⟨v, hv, hmis⟩ := h'.init he
    exact ⟨v, h.trans hv, hmis⟩

/-- What comes after some changes. -/
theorem Makes.after {α β : Type} {x : Op α} {y : α → Op β} {P : α → KState → Prop}
    (hx : Outcome x s (fun a t => Changes X L s t ∧ P a t) (Stops X L s))
    (hy : ∀ a t, P a t → Makes X L (y a) t) : Makes X L (x >>= y) s := by
  rw [Makes, Outcome.bind]
  refine hx.mono ?_ fun _ _ h => h
  intro a t ht
  exact (hy a t ht.2).mono (fun _ _ hu => ht.1.trans hu) fun _ _ hu => hu.trans ht.1

/-! ### Rules -/

theorem Kept.refl (s : KState) : Kept s s :=
    ⟨rfl, rfl, rfl, rfl, rfl, rfl, rfl, rfl, rfl, rfl, rfl, rfl⟩

theorem kept_bumpMsgId : Kept s s.bumpMsgId :=
  ⟨rfl, rfl, rfl, rfl, rfl, rfl, rfl, rfl, rfl, rfl, rfl, rfl⟩

theorem Pair.bumpMsgId {w r a p} (h : Pair s w r a p) : Pair s.bumpMsgId w r a p :=
  ⟨h.app, h.proc, h.record⟩

/-- A pointer that dangles is neither of the two assertions. -/
theorem Stops.of_ne {e : Fault} (h : Changes X L s t) (hclient : e ≠ .clientAssert)
    (hinit : e ≠ .initAssert) : Stops X L s e t :=
  ⟨h, hclient, fun he => absurd he hinit⟩

theorem changes_spared (hroom : s.Sparable) : Changes X L s s.spared := by
  unfold KState.spared
  split
  next hc => exact Relation.ReflTransGen.single (Change.fork hc (hroom hc))
  next => exact Relation.ReflTransGen.refl

/-- What stops for want of descriptors has changed nothing more. -/
theorem Stops.full (h : Changes X L s t) : Stops X L s .pipeAssert t :=
  .of_ne h (by decide) (by decide)

theorem preCreateWebApp_changes {ph : Phase} (h : Inv ph s) : Makes X L preCreateWebApp s :=
  (preCreateWebApp_outcome h).mpr
    ⟨changes_spared, fun _ => .full Relation.ReflTransGen.refl⟩

/-! ### New URLs -/

theorem takeProc_changes (h : Inv .idle s) (url : Bytes) : Makes X L (takeProc url) s := by
  rw [Makes, takeProc, Outcome.bind]
  refine (hit_outcome h url).mono ?_ fun _ _ h => h.elim
  intro o t ht
  cases hc : s.cached url with
  | some p =>
      rw [hc] at ht
      obtain ⟨pre, a, post, he, hp, -, rfl, rfl⟩ := ht
      have hparked : s.Parked a := by simp [KState.Parked, he]
      obtain ⟨k, -, -, -, hcl⟩ := h.placement.parked a hparked
      simp only [KState.clientAt, hp, Option.bind_some] at hcl
      obtain ⟨client, hcl⟩ := Option.ne_none_iff_exists'.mp hcl
      rw [Outcome.bind, deref_outcome (s := s.setEntries (pre ++ post)) hp, Outcome.bind, hcl,
        Outcome.require_some, newApp, Outcome.bind, Outcome.get, Outcome.bind, Outcome.set,
        Outcome.pure]
      exact Relation.ReflTransGen.single (Change.unpark he hp hcl)
  | none =>
      rw [hc] at ht
      obtain ⟨rfl, rfl⟩ := ht
      dsimp only
      rw [spareWebApp, Outcome.bind, Outcome.bind, preCreateWebApp_outcome h]
      refine ⟨fun hroom => ?_, fun _ => .full Relation.ReflTransGen.refl⟩
      obtain ⟨w, -, -, -, hw, -⟩ := h.spare_records hroom
      simp only [Outcome.bind, Outcome.get, hw, Outcome.require_some, Outcome.modify, Outcome.pure]
      exact (changes_spared hroom).tail Change.unspare

theorem prepNewProc_changes (h : Inv .idle s) (hX : ∀ k : I32, s.webAppList[k]? = none → X k)
    (containerId requester : I32) (url : Bytes) :
    Makes X L (prepNewProc containerId requester url) s := by
  have htake : Makes X L (takeProc url) s := takeProc_changes h url
  rw [Makes, prepNewProc, Outcome.bind]
  refine ((takeProc_outcome h url).and htake).mono ?_ fun _ _ h => h.2
  intro w t ht
  obtain ⟨⟨r, a, p, ht⟩, hch⟩ := ht
  have hobj : t.objectAt a = some p.objectId := by rw [KState.objectAt, ht.record, Option.map_some]
  obtain ⟨k, hk, -, hl, -⟩ := ht.inv.placement.floating a rfl
  obtain rfl : p.objectId = k := Option.some.inj (hobj.symm.trans hk)
  have htouched : X p.objectId := hX _ (by rw [← ht.quiet.webAppList, hl])
  have hlist : Changes X L s (t.list p.objectId w) :=
    hch.tail (Change.list ⟨ht.app, ht.proc, ht.record⟩ htouched hl)
  have hlisted : Pair (t.list p.objectId w) w r a p := ⟨ht.app, ht.proc, ht.record⟩
  have htab : Changes X L s ((t.list p.objectId w).writeApp w fun r =>
      { r with container := containerId }) :=
    hlist.tail (Change.tab hlisted htouched containerId)
  have hrecord : ((t.list p.objectId w).writeApp w fun r =>
      { r with container := containerId }).procs[a]? = some p := ht.record
  rw [Outcome.bind, addToWebAppList_outcome ht.app ht.proc ht.record hl, Outcome.bind,
    updateApp_outcome (s := t.list p.objectId w) ht.app, Outcome.bind, Outcome.get, Outcome.ite]
  refine ⟨fun _ => ?_, fun _ => htab⟩
  have happ : ((t.list p.objectId w).writeApp w fun r =>
      { r with container := containerId }).apps[w]? = some { r with container := containerId } := by
    simp [KState.writeApp, KState.list, ht.app]
  generalize (t.list p.objectId w).writeApp w _ = u at htab happ hrecord ⊢
  have hpair : Pair u w { r with container := containerId } a p := ⟨happ, ht.proc, hrecord⟩
  cases hreq : u.webAppList[requester]? with
  | none => exact htab
  | some e =>
      cases e with
      | none => exact Stops.of_ne htab (by decide) (by decide)
      | some v =>
          simp only [Outcome.bind, Outcome.require_some, derefApp, Outcome.get]
          cases hv : u.apps[v]? with
          | none => exact Stops.of_ne htab (by decide) (by decide)
          | some r' =>
              rw [Outcome.require_some, updateApp_outcome hpair.app, Outcome.pure]
              exact htab.tail (Change.tab hpair htouched r'.container)

theorem awaitClient_changes {w r a p} (h : Pair s w r a p) (htouched : X p.objectId)
    (hweb : webappFirstId ≤ p.objectId) (hzero : r.client = 0) :
    Outcome (awaitClient w a) s
      (fun _ t => Changes X L s t ∧ ∃ r' p', Pair t w r' a p' ∧ p'.clientId ≠ none ∧
        p'.objectId = p.objectId) (Stops X L s) := by
  rw [awaitClient, Outcome.bind, deref_outcome h.record, Outcome.bind, readMessageKernel,
    Outcome.bind, Outcome.get]
  cases hu : s.unread p.pid with
  | nil =>
      dsimp only
      rw [Outcome.throw']
      split
      · exact Stops.of_ne Relation.ReflTransGen.refl (by decide) (by decide)
      · exact Stops.of_ne Relation.ReflTransGen.refl (by decide) (by decide)
  | cons m rest =>
      simp only [Outcome.bind, Outcome.set, Outcome.pure, Outcome.ensure]
      constructor
      · intro htype
        rw [updateApp_outcome (r := r) (by exact h.app),
            updateProc_outcome (p := p) (by exact h.record)]
        refine ⟨Relation.ReflTransGen.single (Change.hear h htouched hweb hzero hu htype),
          { r with client := m.msgValue }, { p with clientId := some m.msgValue }, ⟨?_, h.proc, ?_⟩,
          Option.some_ne_none _, rfl⟩
        · simp [KState.writeApp, KState.writeProc, KState.setUnread, h.app]
        · simp [KState.writeApp, KState.writeProc, KState.setUnread, h.record]
      · intro htype
        refine ⟨Relation.ReflTransGen.single
            (Change.mishear h hweb hzero hu htype), by decide, fun _ => ?_⟩
        exact ⟨s, Relation.ReflTransGen.refl, w, r, a, p, m, h, hweb, hzero, by simp [hu], htype⟩

/-- The announcement says what the records say. -/
theorem tellUi_changes (h : Inv .idle s) {w r a p} (hpair : Pair s w r a p)
    (hweb : webappFirstId ≤ p.objectId) (hknown : p.clientId ≠ none) :
    Makes X L (tellUi w a) s := by
  rw [Makes, tellUi, Outcome.bind, derefApp_outcome hpair.app, Outcome.bind,
    deref_outcome hpair.record, Outcome.bind, nextMsgId_outcome, Outcome.bind, Outcome.get,
    Outcome.bind]
  generalize hg :
    ({ srcId := p.objectId, dstId := uiId, msgId := s.msgId, msgType := msgNewWebapp,
       msgValue := r.client, payload := .ofBytes (decimal r.container) } : Message) = msg
  have hcheck : s.bumpMsgId.accessControl.checkWrite msg = true := by
    rw [show s.bumpMsgId.accessControl = .create from h.registry.acc]
    exact AccessControl.checkWrite_notice (by rw [← hg]; exact hweb) (by rw [← hg])
      (by rw [← hg])
  have htruthful : Truthful s.bumpMsgId ⟨.handleNewUrl, s.bumpMsgId.uiFd, msg⟩ := fun _ _ =>
    ⟨w, r, a, p, hpair.bumpMsgId, hweb, by rw [← hg], by rw [← hg], hknown⟩
  have hsend : Changes X L s (s.bumpMsgId.send ⟨.handleNewUrl, s.bumpMsgId.uiFd, msg⟩) :=
    (Relation.ReflTransGen.single (Change.book kept_bumpMsgId)).tail
      (Change.send (Or.inl rfl) htruthful)
  have hinv := h.bumpMsgId.send (f := ⟨.handleNewUrl, s.bumpMsgId.uiFd, msg⟩) fun _ => by
    rw [← hg]
    exact (by decide : msgNewWebapp ≠ msgSetUrl)
  rw [writeMessageKernel_outcome hcheck, Outcome.ite]
  refine ⟨fun _ => ?_, fun _ => hsend⟩
  exact (preCreateWebApp_changes hinv).mono (fun _ _ hu => hsend.trans hu) fun _ _ hu =>
    hu.trans hsend

theorem announce_changes {w r a p} (h : Inv (.unnamed a) s) (hpair : Pair s w r a p)
    (htouched : X p.objectId) (hweb : webappFirstId ≤ p.objectId)
    (hc : r.client ≠ 0 → p.clientId ≠ none) : Makes X L (announce w a) s := by
  rw [Makes, announce, Outcome.bind, derefApp_outcome hpair.app]
  dsimp only
  rw [Outcome.ite]
  constructor
  · intro hzero
    refine Makes.after (P := fun _ t => Inv .idle t ∧ ∃ r' p', Pair t w r' a p' ∧
      p'.clientId ≠ none ∧ webappFirstId ≤ p'.objectId) ?_ ?_
    · refine ((awaitClient_outcome h hpair.app hpair.proc hpair.record).and
        (awaitClient_changes hpair htouched hweb hzero)).mono ?_ fun _ _ h => h.2
      intro _ t ht
      obtain ⟨⟨hinv, -⟩, hch, r', p', hpair', hknown, hid⟩ := ht
      exact ⟨hch, hinv, r', p', hpair', hknown, hid ▸ hweb⟩
    · intro _ t ht
      obtain ⟨hinv, r', p', hpair', hknown, hweb'⟩ := ht
      exact tellUi_changes hinv hpair' hweb' hknown
  · intro hne
    have hknown : s.clientAt a ≠ none := by
      rw [KState.clientAt, hpair.record, Option.bind_some]
      exact hc hne
    exact tellUi_changes (h.named hknown) hpair hweb (hc hne)

theorem handleNewUrl_changes (h : Inv .idle s) (hX : ∀ k : I32, s.webAppList[k]? = none → X k)
    (containerId requester : I32) (data : Payload) (urlId : I32) :
    Makes X L (handleNewUrl containerId requester data urlId) s := by
  rw [Makes, handleNewUrl, Outcome.ite]
  refine ⟨fun _ => ?_, fun _ => Relation.ReflTransGen.refl⟩
  rw [Outcome.bind, stringOfData_outcome]
  refine ⟨fun _ => ?_, fun _ => ?_⟩
  swap
  · refine Stops.of_ne Relation.ReflTransGen.refl ?_ ?_
    · split <;> decide
    · split <;> decide
  refine Makes.after (P := fun w t => ∃ r a p, Prepared s (cStr data.data) w t r a p) ?_ ?_
  · refine ((prepNewProc_outcome h containerId requester (cStr data.data)).and
      (prepNewProc_changes h hX containerId requester (cStr data.data))).mono ?_ fun _ _ h => h.2
    exact fun _ _ ht => ⟨ht.2, ht.1⟩
  intro w t ht
  obtain ⟨r, a, p, ht⟩ := ht
  have htouched : X p.objectId := hX _ ht.unlisted
  have hrecord : (t.writeProc a fun p => { p with label := .ofUrl (cStr data.data) }).procs[a]? =
      some { p with label := .ofUrl (cStr data.data) } := by
    simp [KState.writeProc, ht.record]
  rw [Makes, Outcome.bind, procOf_outcome ht.app ht.proc, Outcome.bind,
    updateProc_outcome ht.record, Outcome.bind, deref_outcome hrecord, Outcome.bind,
    nextMsgId_outcome, Outcome.bind,
    writeMessageKernel_outcome (AccessControl.checkWrite_of_kernel_src rfl)]
  generalize hf : Sent.mk _ _ _ = f
  have hinv := ht.handOver (f := f) (by rw [← hf]; rfl) (by rw [← hf])
  have hlabel : Changes X L t (t.writeProc a
      fun p => { p with label := .ofUrl (cStr data.data) }) :=
    Relation.ReflTransGen.single (Change.label ht.record htouched _)
  have hsend := (hlabel.tail (Change.book kept_bumpMsgId)).tail <|
    Change.send (f := f) (Or.inr ⟨a, _, hrecord, by rw [← hf], htouched⟩) fun htype => by
      rw [← hf] at htype
      exact absurd htype (by decide : msgSetUrl ≠ msgNewWebapp)
  have hannounce := announce_changes (X := X) (L := L) hinv ⟨ht.app, ht.proc, hrecord⟩ htouched
    ht.web ht.named
  exact hannounce.mono (fun _ _ hu => hsend.trans hu) fun _ _ hu => hu.trans hsend

/-! ### The other handlers -/

/-- Only the spare web app can introduce itself. -/
theorem handleInit_outcome_other (h : Inv .idle s) {a : Addr} (ha : ¬ s.Spare a) (msg : Message)
    {Q E} : Outcome (handleInit a msg) s Q E ↔ Q ⟨⟩ s := by
  rw [handleInit, Outcome.bind, Outcome.get, Outcome.ite]
  cases hw : s.cachedWebApp with
  | none => simp
  | some w =>
      obtain ⟨r, b, k, hr, hrp, -⟩ := h.placement.spare w hw
      have hne : r.proc ≠ some a := by
        intro hra
        exact ha ⟨w, hw, by rw [KState.appProc, hr, Option.bind_some, hra]⟩
      simp [derefApp_outcome hr, hne]

/-- The spare web app introduces itself, once. -/
theorem handleInit_outcome_spare {w a : Addr} {r : WebAppProcess} {p : Process} {msg : Message}
    (hw : s.cachedWebApp = some w) (hr : s.apps[w]? = some r) (hrp : r.proc = some a)
    (hp : s.procs[a]? = some p) (htype : msg.msgType = msgNewWebapp) {Q E} :
    Outcome (handleInit a msg) s Q E ↔
      (r.client = 0 → Q ⟨⟩ (s.heard w a msg.msgValue)) ∧ (r.client ≠ 0 → E .clientAssert s) := by
  have hp' : (s.writeApp w fun r => { r with client := msg.msgValue }).procs[a]? = some p := hp
  rw [handleInit, Outcome.bind, Outcome.get, if_pos htype, hw, Outcome.bind, derefApp_outcome hr,
    if_pos hrp, Outcome.bind, Outcome.ensure, Outcome.bind, updateApp_outcome hr,
    updateProc_outcome hp']
  rfl

/-- The tab of a web app that is open to changes is set. -/
theorem Inv.tab_changes (h : Inv .idle s) {k : I32} {w : Addr}
    (hl : s.webAppList[k]? = some (some w)) (htouched : X k) (c : I32) :
    Changes X L s (s.writeApp w fun r => { r with container := c }) := by
  obtain ⟨w', r, a, p, heq, hr, hrp, hp, hid⟩ := h.listed_record hl
  cases heq
  exact Relation.ReflTransGen.single (Change.tab ⟨hr, hrp, hp⟩ (hid ▸ htouched) c)

/-- The tab that a web app is in. -/
def KState.tabOf (s : KState) (k : I32) : Option I32 :=
  ((s.webAppList[k]?).join.bind fun w => s.apps[w]?).map WebAppProcess.container

theorem handleUpdateContainer_changes (h : Inv .idle s) {containerId webAppId : I32}
    (hX : s.tabOf webAppId ≠ some containerId → X webAppId) :
    Makes X L (handleUpdateContainer containerId webAppId) s := by
  rw [Makes, handleUpdateContainer, Outcome.bind, Outcome.get]
  cases hl : s.webAppList[webAppId]? with
  | none => exact Relation.ReflTransGen.refl
  | some e =>
      obtain ⟨w, r, a, p, rfl, hr, -⟩ := h.listed_record hl
      dsimp only
      rw [Outcome.bind, Outcome.require_some, updateApp_outcome hr]
      have htab : s.tabOf webAppId = some r.container := by simp [KState.tabOf, hl, hr]
      by_cases hc : r.container = containerId
      · have hsame : (s.writeApp w fun r => { r with container := containerId }) = s := by
          rw [KState.writeApp, Heap.write_self hr (by rw [← hc])]
        rw [hsame]
      · exact h.tab_changes hl (hX fun heq => hc (Option.some.inj (htab.symm.trans heq))) _

theorem closeRunning_changes (h : Inv .idle s) {k : I32} {w a : Addr} {r : WebAppProcess}
    {p : Process} (hr : Runs s k w r a p) (htouched : X k)
    (hX : ∀ k : I32, s.webAppList[k]? = none → X k)
    (hL : s.cache.size ≤ s.cache.entries.length → L) : Makes X L (closeRunning a w) s := by
  by_cases hlt : s.cache.entries.length < s.cache.size
  · rw [Makes, closeRunning_room hr hlt]
    exact Relation.ReflTransGen.single (Change.park hr htouched)
  have hle := not_lt.mp hlt
  have hframe {t : KState} {b : Addr} {q : Process} (hq : t.procs[b]? = some q)
      (hqX : X q.objectId) : Change X L t (t.send (closeFrame s q)) :=
    Change.send (Or.inr ⟨b, q, hq, rfl, hqX⟩) fun htype =>
      absurd htype (closeFrame_kernel s q).type
  have hbury {t : KState} {b : Addr} {q : Process} (hq : t.procs[b]? = some q)
      (hqX : X q.objectId) : Change X L t (t.bury b q) := Change.drop (hL hle) hq hqX _
  cases he : s.cache.entries with
  | nil =>
      have hkept : Kept s (s.setEntries []).bumpMsgId :=
        { Kept.refl s with cache := by rw [← he]; rfl }
      have hsend := (Relation.ReflTransGen.single (Change.book hkept)).tail
        (hframe hr.record (hr.id ▸ htouched))
      rw [Makes, closeRunning_alone h hr hle he]
      exact Stops.of_ne (hsend.tail (hbury hr.record (hr.id ▸ htouched))) (by decide) (by decide)
  | cons e rest =>
      obtain ⟨q, hq, -, -, -, hunl⟩ := h.oldest he
      have hsend := ((Relation.ReflTransGen.single (Change.forget he)).tail
        (Change.book kept_bumpMsgId)).tail (hframe hq (hX _ hunl))
      have hdrop := hsend.tail (hbury hq (hX _ hunl))
      rw [Makes, closeRunning_full h hr hle he hq]
      exact hdrop.tail (Change.park (hr.evicted h he) htouched)

theorem handleCloseWebApp_changes (h : Inv .idle s) {containerId webAppId : I32}
    (hX : ∀ k : I32, s.webAppList[k]? = none → X k)
    (htouched : s.accepts containerId webAppId = true → X webAppId)
    (hL : s.accepts containerId webAppId = true → s.cache.size ≤ s.cache.entries.length → L) :
    Makes X L (handleCloseWebApp containerId webAppId) s := by
  by_cases hacc : s.accepts containerId webAppId = true
  · obtain ⟨w, r, a, p, hr⟩ := h.accepted hacc
    have hhide : Changes X L s (s.hide containerId webAppId w p) :=
      ((h.tab_changes hr.listed (htouched hacc) containerId).tail (Change.book kept_bumpMsgId)).tail
        (Change.send (Or.inr ⟨a, p, hr.record, rfl, hr.id ▸ htouched hacc⟩) fun htype =>
          absurd htype (hideFrame_kernel s webAppId p).type)
    have hclose : Makes X L (closeRunning a w) (s.hide containerId webAppId w p) :=
      closeRunning_changes (h.hide containerId webAppId w p) (hr.hide containerId) (htouched hacc)
        hX (hL hacc)
    rw [Makes, handleCloseWebApp_accepted hr hacc]
    exact hclose.mono (fun _ _ hu => hhide.trans hu) fun _ _ hu => hu.trans hhide
  · exact (handleCloseWebApp_refused h hacc).mpr Relation.ReflTransGen.refl

theorem handleReplayWebApp_changes (h : Inv .idle s) (hX : ∀ k : I32, s.webAppList[k]? = none → X k)
    {webAppId : I32} (hL : s.webAppList[webAppId]? = none → L) :
    Makes X L (handleReplayWebApp webAppId) s := by
  by_cases hl : s.webAppList[webAppId]? = none
  · by_cases hroom : ¬ s.Sparable
    · exact (handleReplayWebApp_full h hroom hl).mpr (.full Relation.ReflTransGen.refl)
    have hroom := not_not.mp hroom
    have hspared := h.spared hroom
    obtain ⟨w, r, a, p, hw, hr, hrp, hp, -⟩ := h.spare_records hroom
    have hunl : s.webAppList[p.objectId]? = none := by
      obtain ⟨k, hk, -, hnone, -⟩ := hspared.placement.spare_proc
        ⟨w, hw, by rw [KState.appProc, hr, Option.bind_some, hrp]⟩
      rw [KState.objectAt, hp, Option.map_some] at hk
      rw [Option.some.inj hk, ← hnone, Quiet.spared.webAppList]
    have hdrop : Changes X L s ((s.spared.setSpare none).drop p.objectId a s.spared.killList) :=
      ((changes_spared hroom).tail Change.unspare).tail
        (Change.drop (s := s.spared.setSpare none) (hL hl) hp (hX _ hunl) _)
    rw [Makes, handleReplayWebApp_free h hroom hl hw hr hrp hp]
    exact hdrop.tail (Change.free hr fun k hk => (hspared.app_unique hk).2 hw)
  · rw [Makes, handleReplayWebApp, Outcome.bind, Outcome.get, Outcome.bind, Outcome.ensure]
    exact ⟨fun h => absurd h hl, fun _ => Stops.of_ne Relation.ReflTransGen.refl
        (by decide) (by decide)⟩

/-- An operation that writes at most one frame. -/
theorem writeMessageKernel_changes {site : Site} {fd : ℕ} {msg : Message}
    (haddressed : Addressed X s ⟨site, fd, msg⟩) (htruthful : Truthful s ⟨site, fd, msg⟩) :
    Makes X L (writeMessageKernel site fd msg) s := by
  rw [Makes, writeMessageKernel, Outcome.modify]
  split
  next => exact Relation.ReflTransGen.single (Change.send haddressed htruthful)
  next => exact Relation.ReflTransGen.refl

theorem handleSyscall_outcome_init {a : Addr} {msg : Message} (htype : msg.msgType = msgNewWebapp)
    {Q : Unit → KState → Prop} {E} :
    Outcome (handleSyscall a msg) s Q E ↔ Outcome (handleInit a msg) s Q E := by
  rw [handleSyscall, Outcome.bind, Outcome.get, if_neg (by rw [htype]; decide), if_pos htype]

/-- The system calls that end a process: a close under a full cache, and a replay unless
the web app is listed. -/
def Loses (s : KState) (msg : Message) : Prop :=
  msg.msgType = msgWebappClose ∧ s.accepts msg.msgValue (atoi msg.stringData) = true ∧
      s.cache.size ≤ s.cache.entries.length ∨
    msg.msgType = msgReplayWebapp ∧ s.webAppList[msg.msgValue]? = none

instance (s : KState) (msg : Message) : Decidable (Loses s msg) :=
  inferInstanceAs (Decidable (_ ∨ _))

/-- The web app that a system call names and changes: its tab is set, or it is closed. -/
def Targets (s : KState) (msg : Message) (k : I32) : Prop :=
  atoi msg.stringData = k ∧
    (msg.msgType = msgUpdataContainer ∧ s.tabOf k ≠ some msg.msgValue ∨
      msg.msgType = msgWebappClose ∧ s.accepts msg.msgValue k = true)

instance (s : KState) (msg : Message) (k : I32) : Decidable (Targets s msg k) :=
  inferInstanceAs (Decidable (_ ∧ _))

/-- Unless the spare web app introduces itself, a system call changes the web apps that
are not listed and the one that it names. -/
theorem handleSyscall_changes (h : Inv .idle s) {a : Addr} {msg : Message}
    (hinit : msg.msgType = msgNewWebapp → ¬ s.Spare a)
    (hX : ∀ k : I32, s.webAppList[k]? = none → X k) (htarget : ∀ k, Targets s msg k → X k)
    (hL : Loses s msg → L) : Makes X L (handleSyscall a msg) s := by
  rw [Makes, handleSyscall, Outcome.bind, Outcome.get]
  split
  next =>
    split
    next =>
      have hkept : Kept s { s with newUrlId := s.newUrlId + 1 } :=
        ⟨rfl, rfl, rfl, rfl, rfl, rfl, rfl, rfl, rfl, rfl, rfl, rfl⟩
      have hnew := handleNewUrl_changes (X := X) (L := L) (h.setNewUrlId (s.newUrlId + 1)) hX
        msg.msgValue msg.srcId msg.payload s.newUrlId
      have hbook : Changes X L s _ := Relation.ReflTransGen.single (Change.book hkept)
      rw [Outcome.bind, Outcome.modify]
      exact hnew.mono (fun _ _ hu => hbook.trans hu) fun _ _ hu => hu.trans hbook
    next => exact Relation.ReflTransGen.refl
  next =>
  split
  next htype => exact (handleInit_outcome_other h (hinit htype) msg).mpr Relation.ReflTransGen.refl
  next =>
  split
  next htype =>
    exact handleUpdateContainer_changes h fun hne => htarget _ ⟨rfl, Or.inl ⟨htype, hne⟩⟩
  next =>
  split
  next htype =>
    exact handleCloseWebApp_changes h hX (fun hacc => htarget _ ⟨rfl, Or.inr ⟨htype, hacc⟩⟩)
      fun hacc hle => hL (Or.inl ⟨htype, hacc, hle⟩)
  next =>
  split
  next htype =>
    refine Makes.after (P := fun _ _ => True) ?_ fun _ t _ => ?_
    · exact (handleReplayWebApp_changes h hX fun hl => hL (Or.inr ⟨htype, hl⟩)).mono
        (fun _ _ ht => ⟨ht, trivial⟩) fun _ _ ht => ht
    · have hkept : Kept t { t with replayMode := true } :=
        ⟨rfl, rfl, rfl, rfl, rfl, rfl, rfl, rfl, rfl, rfl, rfl, rfl⟩
      exact Relation.ReflTransGen.single (Change.book hkept)
  next =>
  split
  next => exact Relation.ReflTransGen.refl
  next =>
  split
  next htype =>
    refine writeMessageKernel_changes (Or.inl rfl) fun hnew => ?_
    exact absurd (htype.symm.trans hnew) (by decide)
  next => exact Stops.of_ne Relation.ReflTransGen.refl (by decide) (by decide)

/-! ### Children that end -/

theorem handleUnexpectedClose_changes (h : Inv .idle s) {k : I32} (htouched : X k)
    (hL : s.webAppList[k]? ≠ none → L) : Makes X L (handleUnexpectedClose k) s := by
  rw [Makes, handleUnexpectedClose, Outcome.bind, webAppAt, Outcome.bind, Outcome.get]
  cases hl : s.webAppList[k]? with
  | none => exact Stops.of_ne Relation.ReflTransGen.refl (by decide) (by decide)
  | some e =>
      obtain ⟨w, r, a, p, rfl, hr, hrp, hp, hid⟩ := h.listed_record hl
      have hobj : s.objectAt a = some p.objectId := by rw [KState.objectAt, hp, Option.map_some]
      have hm : s.procMap[p.objectId]? = some a := (h.registry.keyed _ a).mpr hobj
      have hdrop : Changes X L s (s.drop p.objectId a s.killList) :=
        Relation.ReflTransGen.single (Change.drop (hL (by rw [hl]; simp)) hp (hid ▸ htouched) _)
      have hstops := Stops.of_ne (e := .useAfterFree) hdrop (by decide) (by decide)
      simpa [procOf, removeFromProcMap, deleteProc, removeFromWebAppList, deref, derefApp,
        KState.freeProc, KState.drop, hr, hrp, hp, hm] using hstops

theorem kept_signals (signals : List (Pid × Signal)) : Kept s { s with signals } :=
  ⟨rfl, rfl, rfl, rfl, rfl, rfl, rfl, rfl, rfl, rfl, rfl, rfl⟩

theorem kept_killList (killList : OrdMap Pid (I32 × ℤ)) : Kept s { s with killList } :=
  ⟨rfl, rfl, rfl, rfl, rfl, rfl, rfl, rfl, rfl, rfl, rfl, rfl⟩

/-- The kernel ends its children, and its spare web app is not destroyed twice. -/
theorem changes_quit (signals : List (Pid × Signal)) :
    Changes X L s { s with signals, cachedWebApp := none } :=
  (Relation.ReflTransGen.single (Change.book (kept_signals signals))).tail Change.unspare

/-- A process with this number is in the tables, and it is a listed web app. -/
def Listed (s : KState) (pid : Pid) : Prop :=
  ∃ (a : Addr) (p : Process), s.procs[a]? = some p ∧ p.pid = pid ∧ s.webAppList[p.objectId]? ≠ none

/-- No process with this number is in the tables. -/
def Unknown (s : KState) (pid : Pid) : Prop :=
  ∀ (a : Addr) (p : Process), s.procs[a]? = some p → p.pid ≠ pid

/-- The first process in the tables whose death is reported is a listed web app. -/
def Bereaves (s : KState) (pids : List Pid) : Prop :=
  ∃ pre pid post, pids = pre ++ pid :: post ∧ (∀ n ∈ pre, Unknown s n) ∧ Listed s pid

theorem Inv.unknown_of_findByPid (h : Inv .idle s) {pid : Pid} (hf : findByPid s pid = none) :
    Unknown s pid := by
  intro a p hp hpid
  have hobj : s.objectAt a = some p.objectId := by rw [KState.objectAt, hp, Option.map_some]
  have hm := OrdMap.mem_toList.mpr ((h.registry.keyed _ a).mpr hobj)
  have hnot := List.find?_eq_none.mp (Option.map_eq_none_iff.mp hf) _ hm
  exact hnot (by simp [hp, hpid])

/-- A death that the kernel survives is that of no process in the tables. -/
theorem reap_changes (h : Inv .idle s) (hX : ∀ k, X k) {pid : Pid} (hL : Listed s pid → L) :
    Outcome (reap pid) s
      (fun _ t => Changes X L s t ∧ t.webAppList = s.webAppList ∧ Unknown s pid) (Stops X L s) := by
  cases hk : s.killList[pid]? with
  | some killed =>
      obtain ⟨a, ui, hm, hp⟩ := h.uiEntry
      rw [reap_killed hm hp hk]
      have hsend := (Relation.ReflTransGen.single
          (Change.book (X := X) (L := L) kept_bumpMsgId)).tail <|
        Change.send (f := exitFrame s ui killed.1) (Or.inr ⟨a, ui, hp, rfl, hX _⟩) fun htype =>
          absurd htype (kernelFrame_exitFrame s ui killed.1).type
      exact ⟨hsend.tail (Change.book (kept_killList _)), rfl, (h.registry.killed pid killed hk).2⟩
  | none =>
      rw [reap, Outcome.bind, Outcome.get, hk]
      dsimp only
      cases hf : findByPid s pid with
      | none => exact ⟨Relation.ReflTransGen.refl, rfl, h.unknown_of_findByPid hf⟩
      | some k =>
          obtain ⟨a, p, hm, hp, hpid⟩ := findByPid_eq_some hf
          obtain ⟨q, hq, rfl⟩ := h.registered hm
          obtain rfl : p = q := Option.some.inj (hp.symm.trans hq)
          dsimp only
          rw [Outcome.ite]
          refine ⟨fun _ => ?_, fun _ => ?_⟩
          · refine ((handleUnexpectedClose_outcome h p.objectId).and
              (handleUnexpectedClose_changes h (hX _) fun hl => hL ⟨a, p, hp, hpid, hl⟩)).mono
              (fun _ _ ht => ht.1.elim) fun _ _ ht => ht.2
          · rw [Outcome.bind, killProcs, Outcome.modify, Outcome.throw']
            exact Stops.of_ne (changes_quit _) (by decide) (by decide)

theorem reapAll_changes (hX : ∀ k, X k) (pids : List Pid) : ∀ {s : KState}, Inv .idle s →
    (Bereaves s pids → L) → Makes X L (reapAll pids) s := by
  induction pids with
  | nil => exact fun _ _ => Relation.ReflTransGen.refl
  | cons pid pids ih =>
      intro s h hL
      have hfirst : Listed s pid → L := fun hl => hL ⟨[], pid, pids, rfl, by simp, hl⟩
      refine Makes.after (P := fun _ t => Reaped s t ∧ t.webAppList = s.webAppList ∧ Unknown s pid)
        ?_ ?_
      · exact ((reap_outcome h pid).and (reap_changes h hX hfirst)).mono
          (fun _ _ ht => ⟨ht.2.1, ht.1, ht.2.2⟩) fun _ _ ht => ht.2
      · intro _ t ht
        obtain ⟨ht, hlist, hunknown⟩ := ht
        refine ih ht.inv fun hlost => hL ?_
        obtain ⟨pre, n, post, rfl, hpre, a, p, hp, hpid, hl⟩ := hlost
        refine ⟨pid :: pre, n, post, rfl, ?_, a, p, ht.procs ▸ hp, hpid, hlist ▸ hl⟩
        intro m hm
        cases hm with
        | head => exact hunknown
        | tail _ hm => exact fun b q hq => hpre m hm b q (ht.procs ▸ hq)

theorem sigchldHandler_changes (h : Inv .idle s) (hX : ∀ k, X k) (pids : List Pid)
    (hL : Bereaves s pids → L) : Makes X L (sigchldHandler pids) s := by
  refine Makes.after (P := fun _ _ => True) ?_ fun _ t _ => ?_
  · exact (reapAll_changes hX pids h hL).mono (fun _ _ ht => ⟨ht, trivial⟩) fun _ _ ht => ht
  · exact Relation.ReflTransGen.single (Change.book (kept_signals _))

end OpBrowser
