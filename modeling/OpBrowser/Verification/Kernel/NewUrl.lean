import OpBrowser.Verification.Kernel.Rules

/-! # New URLs

How a process is chosen for a URL, labelled and announced. -/

namespace OpBrowser

open Kernel

/-- What the choice of a process leaves alone. -/
structure Quiet (s t : KState) : Prop where
  sent : t.sent = s.sent
  uiFd : t.uiFd = s.uiFd
  isCrawler : t.isCrawler = s.isCrawler
  unread : t.unread = s.unread
  exited : t.exited = s.exited
  webAppList : t.webAppList = s.webAppList

namespace KState

/-- The process in the cache that `hit` would find. -/
def cached (s : KState) (url : Bytes) : Option Process :=
  (s.cache.entries.filterMap fun a => s.procs[a]?).find?
    (WebAppCache.matches s.cache.matchPolicy (.ofUrl url))

/-- The window id, if known, and the number of the process that a URL would get:
a cached one, the spare one or a new one. -/
def choice (s : KState) (url : Bytes) : I32 × Pid :=
  match s.cached url with
  | some p => (p.clientId.getD 0, p.pid)
  | none =>
      match s.cachedWebApp.bind fun w => s.apps[w]? with
      | some r => (r.client, ((r.proc.bind fun a => s.procs[a]?).map Process.pid).getD 0)
      | none => (0, s.nextPid)

/-- The state with a spare web app. -/
def spared (s : KState) : KState := if s.cachedWebApp = none then s.withSpare else s

/-- There is a spare web app, or there are descriptors for one. -/
def Sparable (s : KState) : Prop := s.cachedWebApp = none → s.Room

instance (s : KState) : Decidable s.Sparable := inferInstanceAs (Decidable (_ → _))

/-- A new spare web app can be made where one is wanted. -/
def Renews (s : KState) : Prop := s.isCrawler = false → s.Sparable

/-- How many processes a new URL makes the kernel create: one for the URL itself if it
gets neither a cached nor the spare one, and one to be the next spare one. -/
def creations (s : KState) (url : Bytes) : ℕ :=
  (if s.cached url = none ∧ s.cachedWebApp = none then 1 else 0) +
    if s.isCrawler = false ∧ (s.cached url = none ∨ s.cachedWebApp = none) then 1 else 0

/-- There are descriptors for this many processes. Each keeps two of them, and its
pipes need two more for a moment. -/
def Affords (s : KState) (n : ℕ) : Prop := n = 0 ∨ 2 * n + 2 ≤ s.fds.room s.fdLimit

instance (s : KState) (n : ℕ) : Decidable (s.Affords n) := inferInstanceAs (Decidable (_ ∨ _))

end KState

variable {ph : Phase} {s : KState}

/-! ### The spare web app -/

/-- Without descriptors for its pipes no process is made. -/
theorem createProc_outcome_full (h : ¬ s.Room) (k : I32) {Q : Addr → KState → Prop}
    {E : Fault → KState → Prop} : Outcome (createProc k) s Q E ↔ E .pipeAssert s := by
  rw [createProc, Outcome.bind, Outcome.get, spawn_of_not_room h, Outcome.bind,
      Outcome.require_none]

theorem preCreateWebApp_outcome (h : Inv ph s) {Q E} :
    Outcome preCreateWebApp s Q E ↔
      (s.Sparable → Q ⟨⟩ s.spared) ∧ (¬ s.Sparable → E .pipeAssert s) := by
  have hfresh : ¬ s.webAppIdOffset + webappFirstId ∈ s.procMap := by simpa using h.registry.freshId
  by_cases hc : s.cachedWebApp = none
  · by_cases hroom : s.Room
    · simp [preCreateWebApp, createProc, spawn_of_room hroom, newApp, addToProcMap,
        deref, hc, hfresh,
        KState.spared, KState.Sparable, KState.addApp, KState.setSpare, hroom]
      rfl
    · rw [preCreateWebApp, Outcome.bind, Outcome.get, if_pos hc, Outcome.bind,
        createProc_outcome_full hroom]
      simp [KState.Sparable, hc, hroom]
  · simp [preCreateWebApp, hc, KState.spared, KState.Sparable]

theorem Inv.spared (h : Inv .idle s) (hroom : s.Sparable) : Inv .idle s.spared := by
  unfold KState.spared
  split
  next hc => exact h.forkSpare (hroom hc) hc
  next => exact h

/-- The records of the spare web app. -/
theorem Inv.spare_records (h : Inv .idle s) (hroom : s.Sparable) : ∃ w r a p,
    s.spared.cachedWebApp = some w ∧ s.spared.apps[w]? = some r ∧ r.proc = some a ∧
      s.spared.procs[a]? = some p ∧ webappFirstId ≤ p.objectId ∧
      (r.client ≠ 0 → p.clientId ≠ none) := by
  have hsp : s.spared.cachedWebApp ≠ none := by
    unfold KState.spared
    split <;> simp_all [KState.withSpare]
  obtain ⟨w, hw⟩ := Option.ne_none_iff_exists'.mp hsp
  obtain ⟨r, a, k, hr, hrp, ha, hk, -, -, hc⟩ := (h.spared hroom).placement.spare w hw
  obtain ⟨p, hp, hpk⟩ := Option.map_eq_some_iff.mp ha
  refine ⟨w, r, a, p, hw, hr, hrp, hp, by rw [hpk]; exact hk, ?_⟩
  simpa [KState.clientAt, hp] using hc

/-- A new spare web app takes two descriptors. -/
theorem room_withSpare (h : s.Room) :
    s.withSpare.fds.room s.withSpare.fdLimit + 2 = s.fds.room s.fdLimit := by
  obtain ⟨_, _, _, _, spec⟩ := spawn_spec (spawn_of_room h)
  exact spec.room

/-- After a URL has got the spare web app, a new one can be made if there are
descriptors for all processes that the URL makes the kernel create. -/
theorem renews_unspared {url : Bytes} (hc : s.cached url = none) (hroom : s.Sparable) :
    (s.spared.setSpare none).Renews ↔ s.Affords (s.creations url) := by
  have hcrawler : (s.spared.setSpare none).isCrawler = s.isCrawler := by
    unfold KState.spared
    split <;> rfl
  have hrenews : (s.spared.setSpare none).Renews ↔ (s.isCrawler = false → s.spared.Room) := by
    rw [KState.Renews, hcrawler, KState.Sparable]
    exact ⟨fun h hcr => h hcr rfl, fun h hcr _ => h hcr⟩
  rw [hrenews, KState.Affords, KState.creations]
  by_cases hw : s.cachedWebApp = none
  · have hmore := room_withSpare (hroom hw)
    have hfirst : 4 ≤ s.fds.room s.fdLimit := hroom hw
    cases hcr : s.isCrawler with
    | true =>
        simp [hc, hw]
        omega
    | false =>
        simp only [hc, hw, KState.spared, KState.Room, true_and, true_or, if_true, forall_const]
        omega
  · cases hcr : s.isCrawler <;> simp [hc, hw, KState.spared, KState.Room]

/-! ### The cache -/

/-- The loop of `hit` changes nothing and stops at the first match. -/
theorem hitLoop_outcome (policy : MatchPolicy) (dn : DomainName) (l : List Addr)
    (hl : ∀ a ∈ l, s.objectAt a ≠ none) :
    Outcome (hitLoop policy dn l) s (fun r t => t = s ∧
      match (l.filterMap fun a => s.procs[a]?).find? (WebAppCache.matches policy dn) with
      | some p => ∃ pre a post, l = pre ++ a :: post ∧ s.procs[a]? = some p ∧
          WebAppCache.matches policy dn p = true ∧ r = (some a, pre ++ post)
      | none => r = (none, l)) fun _ _ => False := by
  induction l with
  | nil => simp [hitLoop]
  | cons b l ih =>
      obtain ⟨p, hp⟩ : ∃ p, s.procs[b]? = some p := by
        obtain ⟨k, hk⟩ := Option.ne_none_iff_exists'.mp (hl b (List.mem_cons_self ..))
        obtain ⟨p, hp, -⟩ := Option.map_eq_some_iff.mp hk
        exact ⟨p, hp⟩
      have hfm : (b :: l).filterMap (fun a => s.procs[a]?) =
          p :: l.filterMap fun a => s.procs[a]? := by
        simp [hp]
      rw [hitLoop, Outcome.bind, deref_outcome hp, hfm]
      by_cases hm : WebAppCache.matches policy dn p = true
      · rw [if_pos hm, List.find?_cons_of_pos hm]
        exact ⟨rfl, [], b, l, rfl, hp, hm, rfl⟩
      · rw [if_neg hm, List.find?_cons_of_neg hm, Outcome.bind]
        refine (ih fun a ha => hl a (List.mem_cons_of_mem _ ha)).mono ?_ fun _ _ h => h
        rintro r t ⟨rfl, hr⟩
        refine ⟨rfl, ?_⟩
        cases hf : (l.filterMap fun a => t.procs[a]?).find? (WebAppCache.matches policy dn) with
        | none =>
            rw [hf] at hr
            rw [hr]
        | some q =>
            rw [hf] at hr
            obtain ⟨pre, a, post, rfl, ha, hq, rfl⟩ := hr
            exact ⟨b :: pre, a, post, rfl, ha, hq, rfl⟩

theorem hit_outcome (h : Inv .idle s) (url : Bytes) :
    Outcome (hit url) s (fun r t =>
      match s.cached url with
      | some p => ∃ pre a post, s.cache.entries = pre ++ a :: post ∧ s.procs[a]? = some p ∧
          WebAppCache.matches s.cache.matchPolicy (.ofUrl url) p = true ∧ r = some a ∧
          t = s.setEntries (pre ++ post)
      | none => r = none ∧ t = s) fun _ _ => False := by
  have hlive : ∀ a ∈ s.cache.entries, s.objectAt a ≠ none := by
    intro a ha
    obtain ⟨k, hk, -⟩ := h.placement.parked a ha
    simp [hk]
  rw [hit, Outcome.bind, Outcome.get, Outcome.bind]
  refine (hitLoop_outcome _ (.ofUrl url) s.cache.entries hlive).mono ?_ fun _ _ h => h
  rintro r t ⟨rfl, hr⟩
  rw [Outcome.bind, Outcome.modify, Outcome.pure]
  cases hf : t.cached url with
  | none =>
      rw [KState.cached] at hf
      rw [hf] at hr
      rw [hr]
      exact ⟨rfl, rfl⟩
  | some p =>
      rw [KState.cached] at hf
      rw [hf] at hr
      obtain ⟨pre, a, post, he, ha, hm, rfl⟩ := hr
      exact ⟨pre, a, post, he, ha, hm, rfl, rfl⟩

/-- What `takeProc` returns: a record whose process has left its old home, suits
the URL and is the one that `choice` foretells. -/
structure Taken (s : KState) (url : Bytes) (w : Addr) (t : KState) (r : WebAppProcess) (a : Addr)
    (p : Process) : Prop where
  inv : Inv (.floating a) t
  app : t.apps[w]? = some r
  proc : r.proc = some a
  record : t.procs[a]? = some p
  named : r.client ≠ 0 → p.clientId ≠ none
  choice : s.choice url = (r.client, p.pid)
  suits : ∀ f, t.Handed f → p.objectId = f.msg.dstId →
    DomainName.equals (.ofUrl url) (.ofUrl f.url)
  quiet : Quiet s t
  renews : t.Renews ↔ s.Affords (s.creations url)

theorem Quiet.spared : Quiet s s.spared := by
  unfold KState.spared
  split <;> exact ⟨rfl, rfl, rfl, rfl, rfl, rfl⟩

theorem choice_of_spare {url : Bytes} (hc : s.cached url = none) {w : Addr} {r : WebAppProcess}
    {a : Addr} {p : Process} (hw : s.spared.cachedWebApp = some w)
    (hr : s.spared.apps[w]? = some r) (hrp : r.proc = some a)
    (hp : s.spared.procs[a]? = some p) : s.choice url = (r.client, p.pid) := by
  unfold KState.spared at hw hr hp
  simp only [KState.choice, hc]
  split at hw
  · rename_i hnone
    simp only [if_pos hnone, KState.withSpare, KState.forked] at hw hr hp
    cases hw
    rw [Heap.getElem?_alloc, if_pos rfl] at hr
    cases hr
    cases hrp
    rw [Heap.getElem?_alloc, if_pos rfl] at hp
    cases hp
    simp [hnone]
  · rename_i hsome
    simp only [if_neg hsome] at hr hp
    simp [hw, hr, hrp, hp]

/-- A URL that gets a cached web app leaves the spare one alone. -/
theorem renews_of_cached {url : Bytes} {p : Process} (hc : s.cached url = some p)
    (entries : List Addr) (r : WebAppProcess) :
    ((s.setEntries entries).addApp r).Renews ↔ s.Affords (s.creations url) := by
  change (s.isCrawler = false → s.cachedWebApp = none → s.Room) ↔ _
  rw [KState.Affords, KState.creations, hc, KState.Room]
  by_cases hw : s.cachedWebApp = none <;> cases s.isCrawler <;> simp [hw]

theorem takeProc_outcome (h : Inv .idle s) (url : Bytes) :
    Outcome (takeProc url) s (fun w t => ∃ r a p, Taken s url w t r a p)
      fun e t => e = .pipeAssert ∧ t = s ∧ ¬ s.Affords (s.creations url) := by
  rw [takeProc, Outcome.bind]
  refine (hit_outcome h url).mono ?_ fun _ _ h => h.elim
  intro o t ht
  cases hc : s.cached url with
  | some p =>
      rw [hc] at ht
      obtain ⟨pre, a, post, he, hp, hm, rfl, rfl⟩ := ht
      have hparked : s.Parked a := by simp [KState.Parked, he]
      obtain ⟨k, -, -, -, hcl⟩ := h.placement.parked a hparked
      simp only [KState.clientAt, hp, Option.bind_some] at hcl
      obtain ⟨client, hcl⟩ := Option.ne_none_iff_exists'.mp hcl
      rw [Outcome.bind, deref_outcome (s := s.setEntries (pre ++ post)) hp, Outcome.bind, hcl,
          Outcome.require_some, newApp,
        Outcome.bind, Outcome.get, Outcome.bind, Outcome.set, Outcome.pure]
      refine ⟨{ proc := some a, client }, a, p, ?_⟩
      refine ⟨(h.take he).addApp _, by simp [KState.addApp], rfl, hp,
          fun _ => by simp [hcl], ?_, ?_,
        ⟨rfl, rfl, rfl, rfl, rfl, rfl⟩, renews_of_cached hc _ _⟩
      · simp [KState.choice, hc, hcl]
      · intro f hf hd
        have hsame : DomainName.sameOrigin p.label (.ofUrl url) := by
          simpa [WebAppCache.matches, h.placement.policy] using hm
        exact DomainName.equals_trans (DomainName.equals_symm hsame.2)
          (h.labelled.label f hf a p hp hd)
  | none =>
      rw [hc] at ht
      obtain ⟨rfl, rfl⟩ := ht
      dsimp only
      rw [spareWebApp, Outcome.bind, Outcome.bind, preCreateWebApp_outcome h]
      refine ⟨fun hroom => ?_, fun hroom => ⟨rfl, rfl, ?_⟩⟩
      swap
      · obtain ⟨hnone, hfew⟩ := Classical.not_imp.mp hroom
        have hfew : ¬ 4 ≤ t.fds.room t.fdLimit := hfew
        rw [KState.Affords, KState.creations, if_pos ⟨hc, hnone⟩]
        omega
      obtain ⟨w, r, a, p, hw, hr, hrp, hp, hk, hcl⟩ := h.spare_records hroom
      have happ : t.spared.appProc w = some a := by
        rw [KState.appProc, hr, Option.bind_some, hrp]
      simp only [Outcome.bind, Outcome.get, hw, Outcome.require_some, Outcome.modify, Outcome.pure]
      refine ⟨r, a, p, (h.spared hroom).takeSpare hw happ, hr, hrp, hp, hcl, ?_, ?_, ?_,
        renews_unspared hc hroom⟩
      · exact choice_of_spare hc hw hr hrp hp
      · intro f hf hd
        exact absurd (by rw [KState.objectAt, hp, Option.map_some, hd])
          ((h.spared hroom).labelled.spare f hf a ⟨w, hw, happ⟩)
      · exact ⟨Quiet.spared.sent, Quiet.spared.uiFd, Quiet.spared.isCrawler, Quiet.spared.unread,
          Quiet.spared.exited, Quiet.spared.webAppList⟩

/-! ### New URLs -/

/-- What `prepNewProc` returns: the record of a listed web app whose window id may
still be unknown. -/
structure Prepared (s : KState) (url : Bytes) (w : Addr) (t : KState) (r : WebAppProcess)
    (a : Addr) (p : Process) : Prop where
  inv : Inv (.unnamed a) t
  app : t.apps[w]? = some r
  proc : r.proc = some a
  record : t.procs[a]? = some p
  web : webappFirstId ≤ p.objectId
  named : r.client ≠ 0 → p.clientId ≠ none
  choice : s.choice url = (r.client, p.pid)
  suits : ∀ f, t.Handed f → p.objectId = f.msg.dstId →
    DomainName.equals (.ofUrl url) (.ofUrl f.url)
  unlisted : s.webAppList[p.objectId]? = none
  listed : t.webAppList[p.objectId]? = some (some w)
  sent : t.sent = s.sent
  uiFd : t.uiFd = s.uiFd
  isCrawler : t.isCrawler = s.isCrawler
  unread : t.unread = s.unread
  exited : t.exited = s.exited
  renews : t.Renews ↔ s.Affords (s.creations url)

theorem Prepared.setContainer {url : Bytes} {w : Addr} {t : KState} {r : WebAppProcess} {a : Addr}
    {p : Process} (h : Prepared s url w t r a p) (c : I32) :
    Prepared s url w (t.writeApp w fun r => { r with container := c }) { r with container := c } a
      p :=
  { h with
    inv := h.inv.setContainer w c
    app := by simp [KState.writeApp, h.app] }

theorem prepNewProc_outcome (h : Inv .idle s) (containerId requester : I32) (url : Bytes) :
    Outcome (prepNewProc containerId requester url) s
      (fun w t => ∃ r a p, Prepared s url w t r a p)
      fun e t => e = .pipeAssert ∧ t = s ∧ ¬ s.Affords (s.creations url) := by
  rw [prepNewProc, Outcome.bind]
  refine (takeProc_outcome h url).mono ?_ fun _ _ h => h
  rintro w t ⟨r, a, p, ht⟩
  have happ : t.appProc w = some a := by rw [KState.appProc, ht.app, Option.bind_some, ht.proc]
  have hobj : t.objectAt a = some p.objectId := by rw [KState.objectAt, ht.record, Option.map_some]
  obtain ⟨k, hk, hweb, hl, -, -⟩ := ht.inv.placement.floating a rfl
  rw [hobj] at hk
  cases hk
  have hlisted : Prepared s url w (t.list p.objectId w) r a p :=
    ⟨ht.inv.list happ hobj, ht.app, ht.proc, ht.record, hweb, ht.named, ht.choice, ht.suits,
      by rw [← ht.quiet.webAppList]; exact hl, by simp [KState.list], ht.quiet.sent, ht.quiet.uiFd,
      ht.quiet.isCrawler, ht.quiet.unread, ht.quiet.exited, ht.renews⟩
  rw [Outcome.bind, addToWebAppList_outcome ht.app ht.proc ht.record hl, Outcome.bind,
    updateApp_outcome hlisted.app, Outcome.bind, Outcome.get]
  have hset := hlisted.setContainer containerId
  generalize (t.list p.objectId w).writeApp w _ = u at hset ⊢
  rw [Outcome.ite]
  refine ⟨fun _ => ?_, fun _ => ⟨_, _, _, hset⟩⟩
  cases hreq : u.webAppList[requester]? with
  | none => exact ⟨_, _, _, hset⟩
  | some e =>
      obtain ⟨w', r', -, -, rfl, hr', -⟩ := hset.inv.listed_record hreq
      simp only [Outcome.bind, Outcome.require_some, derefApp_outcome hr',
        updateApp_outcome hset.app, Outcome.pure]
      exact ⟨_, _, _, hset.setContainer r'.container⟩

/-- The first frame that waits in this process's pipe is the init message. -/
def KState.Speaks (s : KState) (pid : Pid) : Prop :=
  ∃ m, (s.unread pid).head? = some m ∧ m.msgType = msgNewWebapp

theorem speaks_congr {t : KState} (h : t.unread = s.unread) (pid : Pid) :
    t.Speaks pid ↔ s.Speaks pid := by
  rw [KState.Speaks, h, KState.Speaks]

/-- The faults that a new URL can bring about. -/
def urlFaults : List Fault :=
  [.nullString, .overRead, .procExited, .blocked, .initAssert, .pipeAssert]

theorem awaitClient_outcome {a w : Addr} (h : Inv (.unnamed a) s) {r : WebAppProcess} {p : Process}
    (hr : s.apps[w]? = some r) (hrp : r.proc = some a) (hp : s.procs[a]? = some p) :
    Outcome (awaitClient w a) s
      (fun _ t => Inv .idle t ∧ s.Speaks p.pid ∧ t.sent = s.sent ∧ t.uiFd = s.uiFd ∧
        t.webAppList = s.webAppList ∧ (t.Renews ↔ s.Renews) ∧ (∃ r', t.apps[w]? = some r') ∧
        ∃ p', t.procs[a]? = some p' ∧ p'.objectId = p.objectId)
      fun e t => e ∈ urlFaults ∧ ¬ s.Speaks p.pid ∧ t.sent = s.sent := by
  rw [awaitClient, Outcome.bind, deref_outcome hp, Outcome.bind, readMessageKernel, Outcome.bind,
    Outcome.get]
  cases hu : s.unread p.pid with
  | nil =>
      simp only [Outcome.throw', KState.Speaks, hu]
      split <;> simp [urlFaults]
  | cons m rest =>
      simp only [Outcome.bind, Outcome.set, Outcome.pure, Outcome.ensure]
      constructor
      · intro hm
        have hspeaks : s.Speaks p.pid := ⟨m, by simp [hu], hm⟩
        have hproc := (h.setUnread p.pid rest).writeProc (a := a)
          (f := fun p => { p with clientId := some m.msgValue }) (fun _ => rfl) (fun _ => rfl)
          (fun _ => rfl) (fun _ _ => by simp)
          (fun q hq g hg hd => h.labelled.label g hg a q hq hd)
        have hknown : ((s.setUnread p.pid rest).writeProc a fun p =>
            { p with clientId := some m.msgValue }).clientAt a ≠ none := by
          simp [KState.clientAt, KState.writeProc, KState.setUnread, hp]
        have happ := (hproc.named hknown).writeApp (w := w)
          (f := fun r => { r with client := m.msgValue }) (fun _ => rfl) <| by
            intro r' b hr' _ hb _
            have hab : b = a := Option.some.inj <| by
              rw [← hb, ← hrp, Option.some.inj (hr'.symm.trans hr)]
            rw [hab]
            exact hknown
        rw [updateApp_outcome (r := r), updateProc_outcome (p := p)]
        · refine ⟨happ, hspeaks, rfl, rfl, rfl, Iff.rfl, ⟨{ r with client := m.msgValue }, ?_⟩,
            { p with clientId := some m.msgValue }, ?_, rfl⟩
          · simp [KState.writeApp, KState.writeProc, KState.setUnread, hr]
          · simp [KState.writeApp, KState.writeProc, KState.setUnread, hp]
        · exact hp
        · exact hr
      · intro hm
        refine ⟨by simp [urlFaults], ?_, rfl⟩
        rintro ⟨m', hm', htype⟩
        rw [hu] at hm'
        cases hm'
        exact hm htype

/-- The frame that tells the UI about a web app. -/
structure IsAnnouncement (fd : ℕ) (src : I32) (g : Sent) : Prop where
  site : g.site = .handleNewUrl
  fd : g.fd = fd
  src : g.msg.srcId = src
  dst : g.msg.dstId = uiId
  type : g.msg.msgType = msgNewWebapp

theorem tellUi_outcome (h : Inv .idle s) {a w : Addr} {r : WebAppProcess} {p : Process}
    (hr : s.apps[w]? = some r) (hp : s.procs[a]? = some p) (hweb : webappFirstId ≤ p.objectId) :
    Outcome (tellUi w a) s
      (fun _ t => Inv .idle t ∧ s.Renews ∧ t.webAppList = s.webAppList ∧
        ∃ g, t.sent = s.sent ++ [g] ∧ IsAnnouncement s.uiFd p.objectId g)
      fun e t => e = .pipeAssert ∧ ¬ s.Renews ∧ t.webAppList = s.webAppList ∧
        ∃ g, t.sent = s.sent ++ [g] ∧ IsAnnouncement s.uiFd p.objectId g := by
  rw [tellUi, Outcome.bind, derefApp_outcome hr, Outcome.bind, deref_outcome hp, Outcome.bind,
    nextMsgId_outcome, Outcome.bind, Outcome.get, Outcome.bind]
  generalize hg :
    ({ srcId := p.objectId, dstId := uiId, msgId := s.msgId, msgType := msgNewWebapp,
       msgValue := r.client, payload := .ofBytes (decimal r.container) } : Message) = msg
  have hcheck : s.accessControl.checkWrite msg = true := by
    rw [h.registry.acc]
    exact AccessControl.checkWrite_notice (by rw [← hg]; exact hweb) (by rw [← hg])
      (by rw [← hg])
  have hann : IsAnnouncement s.uiFd p.objectId ⟨.handleNewUrl, s.uiFd, msg⟩ :=
    ⟨rfl, rfl, by rw [← hg], by rw [← hg], by rw [← hg]⟩
  have hsend := h.bumpMsgId.send (f := ⟨.handleNewUrl, s.bumpMsgId.uiFd, msg⟩) fun _ => by
    rw [hann.type]
    decide
  rw [writeMessageKernel_outcome (s := s.bumpMsgId) hcheck, Outcome.ite]
  refine ⟨fun hcr => ?_, fun hcr => ?_⟩
  swap
  · have hcr : s.isCrawler ≠ false := by simpa [KState.bumpMsgId] using hcr
    exact ⟨hsend, fun h => absurd h hcr, rfl, _, rfl, hann⟩
  have hcr : s.isCrawler = false := by simpa [KState.bumpMsgId] using hcr
  rw [preCreateWebApp_outcome hsend]
  refine ⟨fun hroom => ?_, fun hroom => ⟨rfl, fun h => hroom (h hcr), rfl, _, rfl, hann⟩⟩
  exact ⟨hsend.spared hroom, fun _ => hroom, Quiet.spared.webAppList, _, Quiet.spared.sent, hann⟩

theorem announce_outcome {a w : Addr} (h : Inv (.unnamed a) s) {r : WebAppProcess} {p : Process}
    (hr : s.apps[w]? = some r) (hrp : r.proc = some a) (hp : s.procs[a]? = some p)
    (hweb : webappFirstId ≤ p.objectId) (hc : r.client ≠ 0 → p.clientId ≠ none) :
    Outcome (announce w a) s
      (fun _ t => Inv .idle t ∧ ((r.client ≠ 0 ∨ s.Speaks p.pid) ∧ s.Renews) ∧
        t.webAppList = s.webAppList ∧
        ∃ g, t.sent = s.sent ++ [g] ∧ IsAnnouncement s.uiFd p.objectId g)
      fun e t => e ∈ urlFaults ∧ ¬ ((r.client ≠ 0 ∨ s.Speaks p.pid) ∧ s.Renews) ∧
        (t.sent = s.sent ∨ t.webAppList = s.webAppList ∧
          ∃ g, t.sent = s.sent ++ [g] ∧ IsAnnouncement s.uiFd p.objectId g) := by
  rw [announce, Outcome.bind, derefApp_outcome hr]
  dsimp only
  rw [Outcome.ite]
  constructor
  · intro hzero
    rw [Outcome.bind]
    refine (awaitClient_outcome h hr hrp hp).mono ?_ ?_
    · rintro - t ⟨ht, hspeaks, hsent, hfd, hlist, hrenews, ⟨r', hr'⟩, p', hp', hid⟩
      refine (tellUi_outcome ht hr' hp' (hid ▸ hweb)).mono ?_ ?_
      · rintro - u ⟨hu, hnew, hlist', g, hg, hann⟩
        exact ⟨hu, ⟨.inr hspeaks, hrenews.mp hnew⟩, hlist'.trans hlist, g, by rw [hg, hsent],
          hfd ▸ hid ▸ hann⟩
      · rintro e u ⟨rfl, hnew, hlist', g, hg, hann⟩
        exact ⟨by decide, fun h => hnew (hrenews.mpr h.2), .inr ⟨hlist'.trans hlist, g,
          by rw [hg, hsent], hfd ▸ hid ▸ hann⟩⟩
    · rintro e t ⟨he, hspeaks, hsent⟩
      exact ⟨he, by simp [hzero, hspeaks], .inl hsent⟩
  · intro hne
    have hknown : s.clientAt a ≠ none := by
      rw [KState.clientAt, hp, Option.bind_some]
      exact hc hne
    refine (tellUi_outcome (h.named hknown) hr hp hweb).mono ?_ ?_
    · rintro - u ⟨hu, hnew, hlist, hg⟩
      exact ⟨hu, ⟨.inl hne, hnew⟩, hlist, hg⟩
    · rintro e u ⟨rfl, hnew, hlist, hg⟩
      exact ⟨by decide, fun h => hnew h.2, .inr ⟨hlist, hg⟩⟩

/-- The frame that carries the URL to the chosen web app. -/
structure IsHandOver (data : Payload) (f : Sent) : Prop where
  site : f.site = .handleNewUrl
  src : f.msg.srcId = kernelId
  type : f.msg.msgType = msgSetUrl
  payload : f.msg.payload = data

/-- The frame that tells the UI about a web app that was just listed. -/
structure IsNotice (s t : KState) (g : Sent) : Prop where
  site : g.site = .handleNewUrl
  fd : g.fd = s.uiFd
  dst : g.msg.dstId = uiId
  type : g.msg.msgType = msgNewWebapp
  before : s.webAppList[g.msg.srcId]? = none
  after : t.webAppList[g.msg.srcId]? ≠ none

/-- Two URLs that went to one process have the same label. -/
def KState.OneLabel (s : KState) : Prop :=
  ∀ f g, s.Handed f → s.Handed g → f.msg.dstId = g.msg.dstId →
    DomainName.equals (.ofUrl f.url) (.ofUrl g.url)

/-- When `handleNewUrl` gets through: there is a C string in the data, the process that
the URL gets has told its window id or does so first, and there are descriptors for the
processes that the URL makes the kernel create. -/
def KState.NewUrlOk (s : KState) (containerId : I32) (data : Payload) : Prop :=
  containerId = 0 ∨ 0 ∈ data.data ∧
    ((s.choice (cStr data.data)).1 ≠ 0 ∨ s.Speaks (s.choice (cStr data.data)).2) ∧
    s.Affords (s.creations (cStr data.data))

/-- The label is set and the URL is sent. -/
theorem Prepared.handOver {url : Bytes} {w : Addr} {t : KState} {r : WebAppProcess} {a : Addr}
    {p : Process} (h : Prepared s url w t r a p) {f : Sent} (hurl : f.url = url)
    (hd : f.msg.dstId = p.objectId) :
    Inv (.unnamed a)
      ((t.writeProc a fun p => { p with label := .ofUrl url }).bumpMsgId.send f) := by
  have hlabel := h.inv.writeProc (a := a) (f := fun p => { p with label := .ofUrl url })
    (fun _ => rfl) (fun _ => rfl) (fun _ => rfl) (fun _ h => h) <| by
      intro q hq g hg hqd
      rw [h.record] at hq
      cases hq
      exact h.suits g hg hqd
  have hns : ¬ t.Spare a := by
    intro hs
    obtain ⟨k, hk, -, hl, -⟩ := h.inv.placement.spare_proc hs
    rw [KState.objectAt, h.record, Option.map_some] at hk
    rw [← Option.some.inj hk, h.listed] at hl
    cases hl
  refine hlabel.bumpMsgId.hand (p := { p with label := .ofUrl url }) ?_
      (by simp [hurl]) hd h.web hns
  simp [KState.bumpMsgId, KState.writeProc, h.record]

/-- An announcement hands no URL to anyone. -/
theorem handed_of_announced {t : KState} {fd : ℕ} {src : I32} {n : Sent}
    (hsent : t.sent = s.sent ++ [n]) (hn : IsAnnouncement fd src n) (f : Sent) (hf : t.Handed f) :
    s.Handed f := by
  obtain ⟨hmem, hsite, htype⟩ := hf
  rw [hsent, List.mem_append, List.mem_singleton] at hmem
  cases hmem with
  | inl hmem => exact ⟨hmem, hsite, htype⟩
  | inr hmem =>
      rw [hmem, hn.type] at htype
      exact absurd htype (by decide)

theorem stringOfData_outcome (data : Payload) {Q E} :
    Outcome (stringOfData data) s Q E ↔ (0 ∈ data.data → Q (cStr data.data) s) ∧
      (0 ∉ data.data → E (if data.data = [] then .nullString else .overRead) s) := by
  by_cases hnul : 0 ∈ data.data
  · have hne : data.data ≠ [] := List.ne_nil_of_mem hnul
    simp [stringOfData, hne, hnul]
  · by_cases hne : data.data = [] <;> simp [stringOfData, hne, hnul]

theorem handleNewUrl_outcome (h : Inv .idle s) (containerId requester : I32) (data : Payload)
    (urlId : I32) :
    Outcome (handleNewUrl containerId requester data urlId) s
      (fun _ t => Inv .idle t ∧ s.NewUrlOk containerId data ∧ (t.sent = s.sent ∨
        ∃ f g, t.sent = s.sent ++ [f, g] ∧ IsHandOver data f ∧ IsNotice s t g))
      fun e t => e ∈ urlFaults ∧ ¬ s.NewUrlOk containerId data ∧ t.OneLabel ∧
        (t.sent = s.sent ∨ (∃ f, t.sent = s.sent ++ [f] ∧ IsHandOver data f) ∨
          ∃ f g, t.sent = s.sent ++ [f, g] ∧ IsHandOver data f ∧ IsNotice s t g) := by
  rw [handleNewUrl, Outcome.ite]
  refine ⟨fun hc => ?_, fun hc => ⟨h, .inl (not_not.mp hc), .inl rfl⟩⟩
  rw [Outcome.bind, stringOfData_outcome]
  refine ⟨fun hnul => ?_, fun hnul => ⟨by split <;> simp [urlFaults], ?_, h.labelled.pair,
    .inl rfl⟩⟩
  swap
  · rintro (h0 | h0)
    · exact hc h0
    · exact hnul h0.1
  rw [Outcome.bind]
  refine (prepNewProc_outcome h containerId requester (cStr data.data)).mono ?_ ?_
  swap
  · rintro e t ⟨rfl, rfl, hfew⟩
    exact ⟨by decide, fun hok => hok.elim hc fun hok => hfew hok.2.2, h.labelled.pair, .inl rfl⟩
  rintro w t ⟨r, a, p, ht⟩
  have hrecord : (t.writeProc a fun p => { p with label := .ofUrl (cStr data.data) }).procs[a]? =
      some { p with label := .ofUrl (cStr data.data) } := by
    simp [KState.writeProc, ht.record]
  rw [Outcome.bind, procOf_outcome ht.app ht.proc, Outcome.bind, updateProc_outcome ht.record,
    Outcome.bind, deref_outcome hrecord, Outcome.bind, nextMsgId_outcome, Outcome.bind,
    writeMessageKernel_outcome (AccessControl.checkWrite_of_kernel_src rfl)]
  generalize hf : Sent.mk _ _ _ = f
  have hhand : IsHandOver data f := by
    rw [← hf]
    exact ⟨rfl, rfl, rfl, rfl⟩
  have hinv := ht.handOver (f := f) (by rw [← hf]; rfl) (by rw [← hf])
  have hspeaks : ∀ pid, ((t.writeProc a fun p => { p with label := .ofUrl (cStr data.data)
      }).bumpMsgId.send f).Speaks pid ↔ s.Speaks pid := speaks_congr ht.unread
  have hok : s.NewUrlOk containerId data ↔ (r.client ≠ 0 ∨ s.Speaks p.pid) ∧ t.Renews := by
    rw [KState.NewUrlOk, ht.choice, ht.renews]
    simp only [hc, hnul, false_or, true_and]
  -- the two frames, whether or not a new spare web app can be made after them
  have hboth : ∀ {u : KState} {g : Sent}, u.webAppList = t.webAppList →
      u.sent = t.sent ++ [f] ++ [g] → IsAnnouncement t.uiFd p.objectId g →
        u.sent = s.sent ++ [f, g] ∧ IsHandOver data f ∧ IsNotice s u g := by
    intro u g hlist hg hann
    refine ⟨?_, hhand, hann.site, hann.fd.trans ht.uiFd, hann.dst, hann.type, ?_, ?_⟩
    · rw [hg, ht.sent, List.append_assoc]
      rfl
    · rw [hann.src]
      exact ht.unlisted
    · rw [hlist, hann.src]
      exact ht.listed ▸ Option.some_ne_none _
  refine (announce_outcome hinv ht.app ht.proc hrecord ht.web ht.named).mono ?_ ?_
  · rintro - u ⟨hu, ⟨hsp, hnew⟩, hlist, g, hg, hann⟩
    exact ⟨hu, hok.mpr ⟨hsp.imp_right (hspeaks p.pid).mp, hnew⟩, .inr ⟨f, g, hboth hlist hg hann⟩⟩
  · rintro e u ⟨he, hsp, hsent⟩
    have hno : ¬ s.NewUrlOk containerId data := by
      rw [hok]
      exact fun h => hsp ⟨h.1.imp_right (hspeaks p.pid).mpr, h.2⟩
    cases hsent with
    | inl hsent =>
        refine ⟨he, hno, fun g g' hg hg' => ?_, .inr (.inl ⟨f, ?_, hhand⟩)⟩
        · exact hinv.labelled.pair g g' ((handed_congr hsent g).mp hg)
            ((handed_congr hsent g').mp hg')
        · rw [hsent, ← ht.sent]
          rfl
    | inr hsent =>
        obtain ⟨hlist, n, hn, hann⟩ := hsent
        refine ⟨he, hno, fun g g' hg hg' => ?_, .inr (.inr ⟨f, n, hboth hlist hn hann⟩)⟩
        have hold := handed_of_announced hn hann
        exact hinv.labelled.pair g g' (hold g hg) (hold g' hg')

end OpBrowser
