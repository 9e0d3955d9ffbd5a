import OpBrowser.Verification.Kernel.Invariant

/-! # Records, frames and the invariant

What the invariant says about one record, and one rule for each way in which the
handlers change a record or write a frame. -/

namespace OpBrowser

open Kernel

variable {ph : Phase} {s t : KState}

/-! ### Reading the invariant -/

theorem Registry.objectAt_inj (h : Registry s) {a b : Addr} {k : I32} (ha : s.objectAt a = some k)
    (hb : s.objectAt b = some k) : a = b :=
  Option.some.inj <| by rw [← (h.keyed k a).mpr ha, (h.keyed k b).mpr hb]

/-- Unless the phase says otherwise the window id of a listed web app is known. -/
theorem Placement.listed_known (h : Placement ph s) (hph : ∀ a, ph ≠ .unnamed a) {k : I32}
    {e : Option Addr} (he : s.webAppList[k]? = some e) :
    webappFirstId ≤ k ∧ ∃ app a, e = some app ∧ s.appProc app = some a ∧ s.objectAt a = some k ∧
      s.clientAt a ≠ none := by
  obtain ⟨hk, app, a, heq, happ, ha, hc⟩ := h.listed k e he
  exact ⟨hk, app, a, heq, happ, ha, hc.resolve_right (hph a)⟩

/-- Unless the phase says otherwise every web app has a home. -/
theorem Placement.placed_home (h : Placement ph s) (hph : ∀ a, ph ≠ .floating a) {a : Addr}
    {k : I32} (ha : s.objectAt a = some k) (hk : webappFirstId ≤ k) :
    s.webAppList[k]? ≠ none ∨ s.Parked a ∨ s.Spare a := by
  rcases h.placed a k ha hk with hl | hp | hs | hf
  · exact .inl hl
  · exact .inr (.inl hp)
  · exact .inr (.inr hs)
  · exact absurd hf (hph a)

/-- The spare process is registered, and is neither listed nor parked. -/
theorem Placement.spare_proc (h : Placement ph s) {a : Addr} (ha : s.Spare a) :
    ∃ k, s.objectAt a = some k ∧ webappFirstId ≤ k ∧ s.webAppList[k]? = none ∧ ¬ s.Parked a := by
  obtain ⟨w, hw, hwa⟩ := ha
  obtain ⟨r, b, k, hr, hrp, hb, hk, hl, hp, -⟩ := h.spare w hw
  rw [KState.appProc, hr, Option.bind_some, hrp] at hwa
  cases hwa
  exact ⟨k, hb, hk, hl, hp⟩

/-! ### Changes outside the tables -/

/-- The two states have the same tables and have handed out the same URLs. -/
structure SameTables (s t : KState) : Prop where
  procMap : t.procMap = s.procMap
  killList : t.killList = s.killList
  accessControl : t.accessControl = s.accessControl
  uiFd : t.uiFd = s.uiFd
  webAppIdOffset : t.webAppIdOffset = s.webAppIdOffset
  cachedWebApp : t.cachedWebApp = s.cachedWebApp
  cache : t.cache = s.cache
  webAppList : t.webAppList = s.webAppList
  procs : t.procs = s.procs
  apps : t.apps = s.apps
  fds : t.fds = s.fds
  nextPid : t.nextPid = s.nextPid
  handed : ∀ f, t.Handed f ↔ s.Handed f

theorem Inv.of_same (h : Inv ph s) (e : SameTables s t) : Inv ph t := by
  obtain ⟨⟩ := s
  obtain ⟨⟩ := t
  obtain ⟨rfl, rfl, rfl, rfl, rfl, rfl, rfl, rfl, rfl, rfl, rfl, rfl, hf⟩ := e
  refine ⟨{ h.registry with }, { h.placement with },
    { known := ?_, label := ?_, spare := ?_, pair := ?_ }, h.ui⟩
  · exact fun f hf' => h.labelled.known f ((hf f).mp hf')
  · exact fun f hf' => h.labelled.label f ((hf f).mp hf')
  · exact fun f hf' => h.labelled.spare f ((hf f).mp hf')
  · exact fun f g hf' hg' => h.labelled.pair f g ((hf f).mp hf') ((hf g).mp hg')

theorem Inv.bumpMsgId (h : Inv ph s) : Inv ph s.bumpMsgId :=
  h.of_same ⟨rfl, rfl, rfl, rfl, rfl, rfl, rfl, rfl, rfl, rfl, rfl, rfl, fun _ => Iff.rfl⟩

theorem Inv.setUnread (h : Inv ph s) (pid : Pid) (frames : List Message) :
    Inv ph (s.setUnread pid frames) :=
  h.of_same ⟨rfl, rfl, rfl, rfl, rfl, rfl, rfl, rfl, rfl, rfl, rfl, rfl, fun _ => Iff.rfl⟩

/-! ### Frames -/

/-- A frame without a URL. -/
theorem Inv.send (h : Inv ph s) {f : Sent} (hf : f.site = .handleNewUrl →
    f.msg.msgType ≠ msgSetUrl) :
    Inv ph (s.send f) := by
  refine h.of_same ⟨rfl, rfl, rfl, rfl, rfl, rfl, rfl, rfl, rfl, rfl, rfl, rfl, ?_⟩
  intro g
  simp only [KState.Handed, KState.send, List.mem_append, List.mem_singleton]
  constructor
  · rintro ⟨hg | rfl, hsite, htype⟩
    · exact ⟨hg, hsite, htype⟩
    · exact absurd htype (hf hsite)
  · rintro ⟨hg, hsite, htype⟩
    exact ⟨.inl hg, hsite, htype⟩

/-- A frame that was handed out after one more was written. -/
theorem handed_send {f g : Sent} (hg : (s.send f).Handed g) : s.Handed g ∨ g = f := by
  obtain ⟨hmem, hsite, htype⟩ := hg
  cases List.mem_append.mp hmem with
  | inl hmem => exact .inl ⟨hmem, hsite, htype⟩
  | inr hmem => exact .inr (List.mem_singleton.mp hmem)

/-- Two URLs for one process. One of them may be the new one, whose label it bears. -/
theorem Labelled.pair_send (h : Labelled s) {f : Sent} {a : Addr} {p : Process}
    (hp : s.procs[a]? = some p) (hlabel : p.label = .ofUrl f.url) (hd : f.msg.dstId = p.objectId)
    (g g' : Sent) (hg : (s.send f).Handed g) (hg' : (s.send f).Handed g')
    (heq : g.msg.dstId = g'.msg.dstId) : DomainName.equals (.ofUrl g.url) (.ofUrl g'.url) := by
  have hold : ∀ g, s.Handed g → g.msg.dstId = p.objectId →
      DomainName.equals (.ofUrl f.url) (.ofUrl g.url) := by
    intro g hg hgd
    exact hlabel ▸ h.label g hg a p hp hgd.symm
  cases handed_send hg with
  | inl hbefore =>
      cases handed_send hg' with
      | inl hbefore' => exact h.pair g g' hbefore hbefore' heq
      | inr hnew' =>
          subst hnew'
          exact DomainName.equals_symm (hold g hbefore (heq.trans hd))
  | inr hnew =>
      subst hnew
      cases handed_send hg' with
      | inl hbefore' => exact hold g' hbefore' (heq.symm.trans hd)
      | inr hnew' =>
          subst hnew'
          exact DomainName.equals_refl _

/-- A URL goes to a process that bears its label and is not the spare one. -/
theorem Inv.hand (h : Inv ph s) {f : Sent} {a : Addr} {p : Process} (hp : s.procs[a]? = some p)
    (hlabel : p.label = .ofUrl f.url) (hd : f.msg.dstId = p.objectId)
    (hweb : webappFirstId ≤ p.objectId) (hs : ¬ s.Spare a) :
    Inv ph (s.send f) := by
  have hobj : s.objectAt a = some p.objectId := by rw [KState.objectAt, hp, Option.map_some]
  refine ⟨{ h.registry with }, { h.placement with },
    { known := ?_, label := ?_, spare := ?_, pair := h.labelled.pair_send hp hlabel hd }, h.ui⟩
  · intro g hg
    cases handed_send hg with
    | inl hbefore => exact h.labelled.known g hbefore
    | inr hnew =>
        subst hnew
        refine ⟨hd ▸ hweb, ?_⟩
        cases h.registry.ids a _ hobj with
        | inl hcore => exact absurd hweb (not_le.mpr (lt_of_mem_coreIds _ hcore))
        | inr hk => exact hd ▸ hk.2
  · intro g hg b q hq hqd
    cases handed_send hg with
    | inl hbefore => exact h.labelled.label g hbefore b q hq hqd
    | inr hnew =>
        subst hnew
        have hq : s.procs[b]? = some q := hq
        have hqb : s.objectAt b = some p.objectId := by
          rw [KState.objectAt, hq, Option.map_some, hqd, hd]
        have hab : b = a := h.registry.objectAt_inj hqb hobj
        subst hab
        rw [hq] at hp
        cases hp
        rw [hlabel]
        exact DomainName.equals_refl _
  · intro g hg b hb hgd
    cases handed_send hg with
    | inl hbefore => exact h.labelled.spare g hbefore b hb hgd
    | inr hnew =>
        subst hnew
        rw [hd] at hgd
        exact hs (h.registry.objectAt_inj hgd hobj ▸ hb)

/-! ### Process records -/

section WriteProc

variable {a b : Addr} {f : Process → Process}

theorem getElem?_writeProc {q : Process} (h : (s.writeProc a f).procs[b]? = some q) :
    ∃ p, s.procs[b]? = some p ∧ q = if a = b then f p else p := by
  rw [KState.writeProc, Heap.getElem?_write] at h
  split at h
  · obtain ⟨p, hp, rfl⟩ := Option.map_eq_some_iff.mp h
    exact ⟨p, hp, by simp [*]⟩
  · exact ⟨q, h, by simp [*]⟩

theorem objectAt_writeProc (hf : ∀ p, (f p).objectId = p.objectId) :
    (s.writeProc a f).objectAt = s.objectAt := by
  funext b
  simp only [KState.objectAt, KState.writeProc, Heap.getElem?_write]
  split
  · cases s.procs[b]? <;> simp [hf]
  · rfl

theorem clientAt_writeProc (hf : ∀ p, p.clientId ≠ none → (f p).clientId ≠ none)
    (h : s.clientAt b ≠ none) : (s.writeProc a f).clientAt b ≠ none := by
  simp only [KState.clientAt, KState.writeProc, Heap.getElem?_write] at h ⊢
  split
  · cases hb : s.procs[b]? with
    | none => simp [hb] at h
    | some p => simpa [hb] using hf p (by simpa [hb] using h)
  · exact h

theorem Registry.writeProc (h : Registry s) (hid : ∀ p, (f p).objectId = p.objectId)
    (hpid : ∀ p, (f p).pid = p.pid) (hfd : ∀ p, (f p).inFd = p.inFd) :
    Registry (s.writeProc a f) := by
  have hobj := objectAt_writeProc (s := s) (a := a) hid
  have hsame : ∀ (b : Addr) (q : Process), (s.writeProc a f).procs[b]? = some q →
      ∃ p : Process, s.procs[b]? = some p ∧ q.pid = p.pid ∧ q.inFd = p.inFd := by
    intro b q hq
    obtain ⟨p, hp, rfl⟩ := getElem?_writeProc hq
    refine ⟨p, hp, ?_⟩
    split <;> simp [*]
  refine { h with
    keyed := ?_, ids := ?_, pids := ?_, distinct := ?_, killed := ?_, inFds := ?_ }
  · rw [hobj]
    exact h.keyed
  · rw [hobj]
    exact h.ids
  · intro b q hq
    obtain ⟨p, hp, hn, -⟩ := hsame b q hq
    rw [hn]
    exact h.pids b p hp
  · intro b c q q' hq hq' hn
    obtain ⟨p, hp, hn₁, -⟩ := hsame b q hq
    obtain ⟨p', hp', hn₂, -⟩ := hsame c q' hq'
    exact h.distinct b c p p' hp hp' (by rw [← hn₁, ← hn₂, hn])
  · intro n e he
    refine ⟨(h.killed n e he).1, ?_⟩
    intro b q hq
    obtain ⟨p, hp, hn, -⟩ := hsame b q hq
    rw [hn]
    exact (h.killed n e he).2 b p hp
  · intro b q hq
    obtain ⟨p, hp, hn, hin⟩ := hsame b q hq
    rw [hn, hin]
    exact h.inFds b p hp

theorem Placement.writeProc (h : Placement ph s) (hid : ∀ p, (f p).objectId = p.objectId)
    (hclient : ∀ p, p.clientId ≠ none → (f p).clientId ≠ none) :
    Placement ph (s.writeProc a f) := by
  have hobj := objectAt_writeProc (s := s) (a := a) hid
  have hcl := fun b => clientAt_writeProc (s := s) (a := a) (b := b) hclient
  refine { h with listed := ?_, spare := ?_, parked := ?_, placed := ?_, floating := ?_ }
  · intro k e he
    obtain ⟨hk, app, b, rfl, happ, hb, hc⟩ := h.listed k e he
    exact ⟨hk, app, b, rfl, happ, by rw [hobj, hb], hc.imp_left (hcl b)⟩
  · intro app happ
    obtain ⟨r, b, k, hr, hrp, hb, hk, hl, hp, hc⟩ := h.spare app happ
    exact ⟨r, b, k, hr, hrp, by rw [hobj, hb], hk, hl, hp, fun hne => hcl b (hc hne)⟩
  · intro b hb
    obtain ⟨k, hk, hw, hl, hc⟩ := h.parked b hb
    exact ⟨k, by rw [hobj, hk], hw, hl, hcl b hc⟩
  · rw [hobj]
    exact h.placed
  · rw [hobj]
    exact h.floating

theorem Labelled.writeProc (h : Labelled s) (hid : ∀ p, (f p).objectId = p.objectId)
    (hlabel : ∀ p, s.procs[a]? = some p → ∀ g, s.Handed g → p.objectId = g.msg.dstId →
      DomainName.equals (f p).label (.ofUrl g.url)) :
    Labelled (s.writeProc a f) := by
  refine { h with label := ?_, spare := ?_ }
  · intro g hg b q hq hd
    obtain ⟨p, hp, rfl⟩ := getElem?_writeProc hq
    by_cases hab : a = b
    · subst hab
      rw [if_pos rfl] at hd ⊢
      exact hlabel p hp g hg (by rw [← hd, hid])
    · rw [if_neg hab] at hd ⊢
      exact h.label g hg b p hp hd
  · rw [objectAt_writeProc hid]
    exact h.spare

theorem UiReady.writeProc (h : UiReady ph s) (hid : ∀ p, (f p).objectId = p.objectId)
    (hfd : ∀ p, (f p).inFd = p.inFd) : UiReady ph (s.writeProc a f) := by
  intro hph
  obtain ⟨b, p, hp, hu, hin⟩ := h hph
  have hrecord : (s.writeProc a f).procs[b]? = some (if a = b then f p else p) := by
    rw [KState.writeProc, Heap.getElem?_write, hp]
    split <;> rfl
  refine ⟨b, _, hrecord, ?_, ?_⟩
  · split <;> simp [hid, hu]
  · rw [show (s.writeProc a f).uiFd = p.inFd from hin]
    split <;> simp [hfd]

/-- A process record keeps its number, id and descriptors, and its label stays
that of the URLs it was given. -/
theorem Inv.writeProc (h : Inv ph s) (hid : ∀ p, (f p).objectId = p.objectId)
    (hpid : ∀ p, (f p).pid = p.pid) (hfd : ∀ p, (f p).inFd = p.inFd)
    (hclient : ∀ p, p.clientId ≠ none → (f p).clientId ≠ none)
    (hlabel : ∀ p, s.procs[a]? = some p → ∀ g, s.Handed g → p.objectId = g.msg.dstId →
      DomainName.equals (f p).label (.ofUrl g.url)) :
    Inv ph (s.writeProc a f) :=
  ⟨h.registry.writeProc hid hpid hfd, h.placement.writeProc hid hclient,
    h.labelled.writeProc hid hlabel, h.ui.writeProc hid hfd⟩

end WriteProc

/-! ### Web app records -/

theorem appProc_writeApp {w : Addr} {f : WebAppProcess → WebAppProcess}
    (hf : ∀ r, (f r).proc = r.proc) :
    (s.writeApp w f).appProc = s.appProc := by
  funext x
  simp only [KState.appProc, KState.writeApp, Heap.getElem?_write]
  split
  · cases s.apps[x]? <;> simp [hf]
  · rfl

/-- A web app record keeps its process. A spare one gets a window id only when its
process knows it. -/
theorem Inv.writeApp (h : Inv ph s) {w : Addr} {f : WebAppProcess → WebAppProcess}
    (hproc : ∀ r, (f r).proc = r.proc)
    (hclient : ∀ r a, s.apps[w]? = some r → s.cachedWebApp = some w → r.proc = some a →
      (f r).client ≠ 0 → s.clientAt a ≠ none) :
    Inv ph (s.writeApp w f) := by
  have happ := appProc_writeApp (s := s) (w := w) hproc
  have hspare : (s.writeApp w f).Spare = s.Spare := by
    funext a
    simp only [KState.Spare, happ]
    rfl
  refine ⟨{ h.registry with },
    { h.placement with listed := ?_, spare := ?_, placed := ?_, floating := ?_ },
    { h.labelled with spare := ?_ }, h.ui⟩
  · rw [happ]
    exact h.placement.listed
  · intro app hc
    obtain ⟨r, a, k, hr, hrp, ha, hk, hl, hp, hn⟩ := h.placement.spare app hc
    refine ⟨if w = app then f r else r, a, k, ?_, ?_, ha, hk, hl, hp, ?_⟩
    · rw [KState.writeApp, Heap.getElem?_write, hr]
      split <;> rfl
    · split <;> simp [hproc, hrp]
    · split
      · rename_i hw
        subst hw
        exact hclient r a hr hc hrp
      · exact hn
  · rw [hspare]
    exact h.placement.placed
  · rw [hspare]
    exact h.placement.floating
  · rw [hspare]
    exact h.labelled.spare

/-- Moving a web app to another tab. -/
theorem Inv.setContainer (h : Inv ph s) (w : Addr) (c : I32) :
    Inv ph (s.writeApp w fun r => { r with container := c }) := by
  refine h.writeApp (fun _ => rfl) ?_
  intro r a hr hc hp hne
  obtain ⟨r', a', k, hr', hp', -, -, -, -, hn⟩ := h.placement.spare w hc
  rw [hr] at hr'
  cases hr'
  rw [hp] at hp'
  cases hp'
  exact hn hne

/-- Web app records that no table mentions come and go. -/
theorem Inv.setApps (h : Inv ph s) (apps : Heap WebAppProcess)
    (hlist : ∀ (k : I32) (w : Addr), s.webAppList[k]? = some (some w) → apps[w]? = s.apps[w]?)
    (hspare : ∀ w : Addr, s.cachedWebApp = some w → apps[w]? = s.apps[w]?) :
    Inv ph { s with apps } := by
  have happ : ∀ w, apps[w]? = s.apps[w]? → KState.appProc { s with apps } w = s.appProc w := by
    intro w hw
    simp only [KState.appProc, hw]
  have hsp : KState.Spare { s with apps } = s.Spare := by
    funext a
    apply propext
    constructor
    · rintro ⟨w, hw, ha⟩
      exact ⟨w, hw, by rw [← happ w (hspare w hw), ha]⟩
    · rintro ⟨w, hw, ha⟩
      exact ⟨w, hw, by rw [happ w (hspare w hw), ha]⟩
  refine ⟨{ h.registry with },
    { h.placement with listed := ?_, spare := ?_, placed := ?_, floating := ?_ },
    { h.labelled with spare := ?_ }, h.ui⟩
  · intro k e he
    obtain ⟨hk, w, a, rfl, hw, ha, hc⟩ := h.placement.listed k e he
    exact ⟨hk, w, a, rfl, by rw [happ w (hlist k w he), hw], ha, hc⟩
  · intro w hw
    obtain ⟨r, a, k, hr, hrest⟩ := h.placement.spare w hw
    exact ⟨r, a, k, by rw [hspare w hw, hr], hrest⟩
  · rw [hsp]
    exact h.placement.placed
  · rw [hsp]
    exact h.placement.floating
  · rw [hsp]
    exact h.labelled.spare

theorem Inv.addApp (h : Inv ph s) (r : WebAppProcess) : Inv ph (s.addApp r) := by
  have hold : ∀ w : Addr, s.apps[w]? ≠ none → (s.apps.alloc r)[w]? = s.apps[w]? := by
    intro w hw
    rw [Heap.getElem?_alloc, if_neg]
    rintro rfl
    exact hw Heap.getElem?_next
  refine h.setApps _ ?_ ?_
  · intro k w hw
    obtain ⟨-, w', a, hww, ha, -⟩ := h.placement.listed k _ hw
    cases hww
    exact hold w fun hnone => by simp [KState.appProc, hnone] at ha
  · intro w hw
    obtain ⟨r, -, -, hr, -⟩ := h.placement.spare w hw
    exact hold w (by simp [hr])

theorem Inv.freeApp (h : Inv ph s) {w : Addr} (hl : ∀ k : I32, s.webAppList[k]? ≠ some (some w))
    (hc : s.cachedWebApp ≠ some w) : Inv ph (s.freeApp w) := by
  refine h.setApps _ ?_ ?_
  · intro k w' hw'
    rw [Heap.getElem?_free, if_neg]
    rintro rfl
    exact hl k hw'
  · intro w' hw'
    rw [Heap.getElem?_free, if_neg]
    rintro rfl
    exact hc hw'

end OpBrowser
