import OpBrowser.Verification.Kernel.Records

/-! # Processes that come and go

One rule for the end of a process and one for each kind of new process. -/

namespace OpBrowser

open Kernel

variable {ph : Phase} {s : KState}

/-! ### The end of a process -/

/-- The state without this process. -/
def KState.drop (s : KState) (k : I32) (a : Addr) (killList : OrdMap Pid (I32 × ℤ)) : KState :=
  { s with procMap := s.procMap.erase k, procs := s.procs.free a, killList }

section Drop

variable {k : I32} {a b : Addr} {killList : OrdMap Pid (I32 × ℤ)}

theorem getElem?_drop (b : Addr) (q : Process) :
    (s.drop k a killList).procs[b]? = some q ↔ b ≠ a ∧ s.procs[b]? = some q := by
  rw [KState.drop, Heap.getElem?_free]
  split <;> simp_all [eq_comm]

theorem objectAt_drop (b : Addr) (n : I32) :
    (s.drop k a killList).objectAt b = some n ↔ b ≠ a ∧ s.objectAt b = some n := by
  simp only [KState.objectAt, KState.drop, Heap.getElem?_free]
  split <;> simp_all [eq_comm]

theorem clientAt_drop (hb : b ≠ a) : (s.drop k a killList).clientAt b = s.clientAt b := by
  simp only [KState.clientAt, KState.drop, Heap.getElem?_free, if_neg (Ne.symm hb)]

theorem Registry.drop (h : Registry s) {p : Process} (hp : s.procs[a]? = some p)
    (hk : p.objectId = k)
    (hkill : ∀ n e, killList[n]? = some e → s.killList[n]? ≠ none ∨ n = p.pid) :
    Registry (s.drop k a killList) := by
  have hka : s.objectAt a = some k := by rw [KState.objectAt, hp, Option.map_some, hk]
  refine { h with
    keyed := ?_, ids := ?_, pids := ?_, distinct := ?_, killed := ?_, inFds := ?_ }
  · intro n b
    rw [objectAt_drop, ← h.keyed, KState.drop, OrdMap.getElem?_erase]
    split
    · rename_i hkn
      subst hkn
      rw [(h.keyed k a).mpr hka]
      simp [eq_comm]
    · rename_i hkn
      refine ⟨fun hb => ⟨?_, hb⟩, And.right⟩
      rintro rfl
      exact hkn (Option.some.inj (hka.symm.trans ((h.keyed n b).mp hb)))
  · intro b n hb
    exact h.ids b n ((objectAt_drop b n).mp hb).2
  · intro b q hq
    exact h.pids b q ((getElem?_drop b q).mp hq).2
  · intro b c q q' hq hq'
    exact h.distinct b c q q' ((getElem?_drop b q).mp hq).2 ((getElem?_drop c q').mp hq').2
  · intro n e he
    cases hkill n e he with
    | inl hn =>
        obtain ⟨e', he'⟩ := Option.ne_none_iff_exists'.mp hn
        refine ⟨(h.killed n e' he').1, ?_⟩
        intro b q hq
        exact (h.killed n e' he').2 b q ((getElem?_drop b q).mp hq).2
    | inr hn =>
        subst hn
        refine ⟨h.pids a p hp, ?_⟩
        intro b q hq hne
        obtain ⟨hba, hq⟩ := (getElem?_drop b q).mp hq
        exact hba (h.distinct b a q p hq hp hne)
  · intro b q hq
    exact h.inFds b q ((getElem?_drop b q).mp hq).2

theorem Placement.drop (h : Placement (.floating a) s) (hk : s.objectAt a = some k) :
    Placement .idle (s.drop k a killList) := by
  obtain ⟨n, hn, -, hl, hnp, hns⟩ := h.floating a rfl
  rw [hk] at hn
  cases hn
  refine { h with listed := ?_, spare := ?_, parked := ?_, placed := ?_, floating := by simp }
  · intro n e he
    obtain ⟨hn, w, b, heq, hw, hb, hc⟩ := h.listed_known (by simp) he
    have hba : b ≠ a := by
      rintro rfl
      have he : s.webAppList[n]? = some e := he
      rw [← Option.some.inj (hk.symm.trans hb), hl] at he
      cases he
    exact ⟨hn, w, b, heq, hw, (objectAt_drop b n).mpr ⟨hba, hb⟩,
      .inl (by rwa [clientAt_drop hba])⟩
  · intro w hw
    obtain ⟨r, b, n, hr, hrp, hb, hn, hl', hp', hc⟩ := h.spare w hw
    have hba : b ≠ a := by
      rintro rfl
      exact hns ⟨w, hw, by rw [KState.appProc, hr, Option.bind_some, hrp]⟩
    exact ⟨r, b, n, hr, hrp, (objectAt_drop b n).mpr ⟨hba, hb⟩, hn, hl', hp',
      by rwa [clientAt_drop hba]⟩
  · intro b hb
    obtain ⟨n, hn, hn', hl', hc⟩ := h.parked b hb
    have hba : b ≠ a := by
      rintro rfl
      exact hnp hb
    exact ⟨n, (objectAt_drop b n).mpr ⟨hba, hn⟩, hn', hl', by rwa [clientAt_drop hba]⟩
  · intro b n hb hn
    obtain ⟨hba, hb⟩ := (objectAt_drop b n).mp hb
    rcases h.placed b n hb hn with hl' | hp' | hs' | hf
    · exact .inl hl'
    · exact .inr (.inl hp')
    · exact .inr (.inr (.inl hs'))
    · cases hf
      exact absurd rfl hba

theorem Labelled.drop (h : Labelled s) : Labelled (s.drop k a killList) := by
  refine { h with label := ?_, spare := ?_ }
  · intro f hf b q hq
    exact h.label f hf b q ((getElem?_drop b q).mp hq).2
  · intro f hf b hb hd
    exact h.spare f hf b hb ((objectAt_drop b _).mp hd).2

/-- The end of a process that has no home. -/
theorem Inv.drop (h : Inv (.floating a) s) {p : Process} (hp : s.procs[a]? = some p)
    (hk : p.objectId = k) (killList : OrdMap Pid (I32 × ℤ))
    (hkill : ∀ n e, killList[n]? = some e → s.killList[n]? ≠ none ∨ n = p.pid) :
    Inv .idle (s.drop k a killList) := by
  have hka : s.objectAt a = some k := by rw [KState.objectAt, hp, Option.map_some, hk]
  refine ⟨h.registry.drop hp hk hkill, h.placement.drop hka, h.labelled.drop, ?_⟩
  intro _
  obtain ⟨b, q, hq, hu, hfd⟩ := h.ui (by simp)
  obtain ⟨n, hn, hweb, -⟩ := h.placement.floating a rfl
  refine ⟨b, q, (getElem?_drop b q).mpr ⟨?_, hq⟩, hu, hfd⟩
  rintro rfl
  rw [KState.objectAt, hq, Option.map_some, hu] at hn
  rw [← Option.some.inj hn] at hweb
  exact absurd hweb (by decide)

end Drop

/-! ### New processes -/

/-- There are descriptors left for the pipes of one more process. -/
def KState.Room (s : KState) : Prop := 4 ≤ s.fds.room s.fdLimit

instance (s : KState) : Decidable s.Room := inferInstanceAs (Decidable (4 ≤ _))

/-- What a new process would be given. -/
def KState.ends (s : KState) : Spawned :=
  (spawn s.fdLimit s.fds s.nextPid).getD { parent := s.fds, child := s.fds, inFd := 0, outFd := 0 }

theorem spawn_of_room (h : s.Room) : spawn s.fdLimit s.fds s.nextPid = some s.ends := by
  rw [KState.ends]
  cases he : spawn s.fdLimit s.fds s.nextPid with
  | none => exact absurd h (not_le.mpr (spawn_eq_none.mp he))
  | some ends => rfl

theorem spawn_of_not_room (h : ¬ s.Room) : spawn s.fdLimit s.fds s.nextPid = none :=
  spawn_eq_none.mpr (not_le.mp h)

/-- The state after `createProc` and `addToProcMap`. -/
def KState.forked (s : KState) (k : I32) : KState :=
  { s with
    fds := s.ends.parent
    nextPid := s.nextPid + 1
    procs := s.procs.alloc
      { inFd := s.ends.inFd, outFd := s.ends.outFd
        pid := s.nextPid, objectId := k }
    procMap := s.procMap.insert k s.procs.next }

theorem objectAt_forked (k : I32) (b : Addr) :
    (s.forked k).objectAt b = if s.procs.next = b then some k else s.objectAt b := by
  simp only [KState.objectAt, KState.forked, Heap.getElem?_alloc]
  split <;> rfl

theorem objectAt_forked_of_some {k n : I32} {b : Addr} (h : s.objectAt b = some n) :
    (s.forked k).objectAt b = some n := by
  rw [objectAt_forked, if_neg, h]
  rintro rfl
  simp [KState.objectAt, Heap.getElem?_next] at h

theorem clientAt_forked {k : I32} {b : Addr} (h : s.clientAt b ≠ none) :
    (s.forked k).clientAt b ≠ none := by
  have hne : s.procs.next ≠ b := by
    rintro rfl
    simp [KState.clientAt, Heap.getElem?_next] at h
  simpa only [KState.clientAt, KState.forked, Heap.getElem?_alloc, if_neg hne] using h

/-- A process of the state after a fork is the new one or an old one. -/
theorem getElem?_forked {k : I32} {b : Addr} {q : Process} (h : (s.forked k).procs[b]? = some q) :
    (b = s.procs.next ∧ q.pid = s.nextPid ∧ q.objectId = k ∧
      q.inFd = s.ends.inFd) ∨ s.procs[b]? = some q := by
  simp only [KState.forked, Heap.getElem?_alloc] at h
  split at h
  · rename_i hb
    cases h
    exact .inl ⟨hb.symm, rfl, rfl, rfl⟩
  · exact .inr h

/-- `procMap` after a fork is keyed by the object ids again. -/
theorem Registry.keyed_forked (h : Registry s) {k : I32} (hk : s.procMap[k]? = none) (n : I32)
    (b : Addr) : (s.forked k).procMap[n]? = some b ↔ (s.forked k).objectAt b = some n := by
  rw [objectAt_forked, KState.forked, OrdMap.getElem?_insert]
  split
  · rename_i hkn
    subst hkn
    split
    · simp [*]
    · rename_i hb
      rw [← h.keyed, hk]
      simpa using hb
  · rename_i hkn
    rw [h.keyed]
    split
    · rename_i hb
      subst hb
      simp [KState.objectAt, Heap.getElem?_next, hkn]
    · rfl

theorem Registry.fork (h : Registry s) (hroom : s.Room) {k off : I32} (hk : s.procMap[k]? = none)
    (hid : k ∈ coreIds ∨ webappFirstId ≤ k ∧ k < webappFirstId + off)
    (hoff : s.webAppIdOffset ≤ off) :
    Registry { s.forked k with webAppIdOffset := off } := by
  refine { h with
    keyed := h.keyed_forked hk, ids := ?_, offset := le_trans h.offset hoff, pids := ?_
    distinct := ?_, killed := ?_, inFds := ?_ }
  · intro b n hb
    have hb : (s.forked k).objectAt b = some n := hb
    rw [objectAt_forked] at hb
    split at hb
    · cases hb
      exact hid
    · exact (h.ids b n hb).imp_right fun hn => ⟨hn.1, lt_of_lt_of_le hn.2 (by simpa using hoff)⟩
  · intro b q hq
    cases getElem?_forked hq with
    | inl hnew => exact hnew.2.1 ▸ Nat.lt_succ_self _
    | inr hq => exact Nat.lt_succ_of_lt (h.pids b q hq)
  · intro b c q q' hq hq' hpid
    rcases getElem?_forked hq with ⟨rfl, hn, -, -⟩ | hq <;>
      rcases getElem?_forked hq' with ⟨rfl, hn', -, -⟩ | hq'
    · rfl
    · have := h.pids c q' hq'
      lia
    · have := h.pids b q hq
      lia
    · exact h.distinct b c q q' hq hq' hpid
  · intro n e he
    obtain ⟨hn, hlive⟩ := h.killed n e he
    refine ⟨Nat.lt_succ_of_lt hn, ?_⟩
    intro b q hq
    rcases getElem?_forked hq with ⟨-, hpid, -, -⟩ | hq
    · lia
    · exact hlive b q hq
  · intro b q hq
    obtain ⟨inRead, inWrite, outRead, outWrite, spec⟩ := spawn_spec (spawn_of_room hroom)
    rcases getElem?_forked hq with ⟨-, hpid, -, hin⟩ | hq
    · rw [hin, hpid, spec.inFd]
      exact (spec.parent inWrite).trans (if_pos rfl)
    · exact slot_spawn_parent (spawn_of_room hroom) (h.inFds b q hq)

theorem Labelled.fork (h : Labelled s) {k off : I32}
    (hid : ¬ (webappFirstId ≤ k ∧ k < webappFirstId + s.webAppIdOffset))
    (hoff : s.webAppIdOffset ≤ off)
    (hlive : ∀ b, s.Spare b → s.objectAt b ≠ none) :
    Labelled { s.forked k with webAppIdOffset := off } := by
  refine { h with known := ?_, label := ?_, spare := ?_ }
  · intro f hf
    obtain ⟨h₁, h₂⟩ := h.known f hf
    exact ⟨h₁, lt_of_lt_of_le h₂ (by simpa using hoff)⟩
  · intro f hf b q hq hd
    rcases getElem?_forked hq with ⟨-, -, hid', -⟩ | hq
    · exact absurd (h.known f hf) (by rwa [← hd, hid'])
    · exact h.label f hf b q hq hd
  · intro f hf b hb hd
    have hold := hlive b hb
    obtain ⟨n, hn⟩ := Option.ne_none_iff_exists'.mp hold
    have hn' : n = f.msg.dstId := Option.some.inj ((objectAt_forked_of_some hn).symm.trans hd)
    exact h.spare f hf b hb (by rw [hn, hn'])

theorem UiReady.fork (h : UiReady ph s) (k off : I32) :
    UiReady ph { s.forked k with webAppIdOffset := off } := by
  intro hph
  obtain ⟨a, p, hp, hu, hfd⟩ := h hph
  refine ⟨a, p, ?_, hu, hfd⟩
  simp only [KState.forked, Heap.getElem?_alloc]
  rwa [if_neg (Heap.ne_next_of_getElem? hp).symm]

theorem Placement.live_of_spare (h : Placement ph s) (a : Addr) (ha : s.Spare a) :
    s.objectAt a ≠ none := by
  obtain ⟨k, hk, -⟩ := h.spare_proc ha
  simp [hk]

/-- A core component is started. -/
theorem Inv.forkCore (h : Inv .booting s) (hroom : s.Room) {k : I32} (hcore : k ∈ coreIds)
    (hk : s.procMap[k]? = none) : Inv .booting (s.forked k) := by
  have hlow := lt_of_mem_coreIds k hcore
  refine ⟨h.registry.fork hroom hk (.inl hcore) (le_refl _),
    { h.placement with listed := ?_, spare := ?_, parked := ?_, placed := ?_, floating := by simp },
    h.labelled.fork (fun hid => not_lt.mpr hid.1 hlow) (le_refl _) h.placement.live_of_spare,
    h.ui.fork k s.webAppIdOffset⟩
  · intro n e he
    obtain ⟨hn, w, b, heq, hw, hb, hc⟩ := h.placement.listed_known (by simp) he
    exact ⟨hn, w, b, heq, hw, objectAt_forked_of_some hb, .inl (clientAt_forked hc)⟩
  · intro w hw
    obtain ⟨r, b, n, hr, hrp, hb, hn, hl, hp, hc⟩ := h.placement.spare w hw
    exact ⟨r, b, n, hr, hrp, objectAt_forked_of_some hb, hn, hl, hp,
      fun hne => clientAt_forked (hc hne)⟩
  · intro b hb
    obtain ⟨n, hn, hn', hl, hc⟩ := h.placement.parked b hb
    exact ⟨n, objectAt_forked_of_some hn, hn', hl, clientAt_forked hc⟩
  · intro b n hb hn
    rw [objectAt_forked] at hb
    split at hb
    · cases hb
      exact absurd hn (not_le.mpr hlow)
    · exact h.placement.placed b n hb hn

/-! ### The spare web app -/

/-- `preCreateWebApp` on a kernel without a spare web app. -/
def KState.withSpare (s : KState) : KState :=
  { s.forked (s.webAppIdOffset + webappFirstId) with
    webAppIdOffset := s.webAppIdOffset + 1
    apps := s.apps.alloc { proc := some s.procs.next }
    cachedWebApp := some s.apps.next }

theorem Registry.freshId (h : Registry s) :
    s.procMap[s.webAppIdOffset + webappFirstId]? = none := by
  by_contra hne
  obtain ⟨a, ha⟩ := Option.ne_none_iff_exists'.mp hne
  have hoff := h.offset
  rcases h.ids a _ ((h.keyed _ a).mp ha) with hc | hc
  · have := lt_of_mem_coreIds _ hc
    lia
  · lia

theorem spare_withSpare (b : Addr) : s.withSpare.Spare b ↔ b = s.procs.next := by
  simp only [KState.Spare, KState.withSpare, KState.appProc, Heap.getElem?_alloc]
  constructor
  · rintro ⟨w, hw, hb⟩
    cases hw
    simpa using hb.symm
  · rintro rfl
    exact ⟨_, rfl, by simp⟩

theorem appProc_withSpare {w a : Addr} (h : s.appProc w = some a) :
    s.withSpare.appProc w = some a := by
  simp only [KState.appProc, KState.withSpare, Heap.getElem?_alloc] at h ⊢
  rwa [if_neg]
  rintro rfl
  simp [Heap.getElem?_next] at h

theorem Placement.forkSpare (h : Placement .idle s) (hreg : Registry s)
    (hc : s.cachedWebApp = none) : Placement .idle s.withSpare := by
  have hnew : ∀ b, s.withSpare.objectAt b =
      if s.procs.next = b then some (s.webAppIdOffset + webappFirstId) else s.objectAt b :=
    objectAt_forked _
  have hunlisted : s.webAppList[s.webAppIdOffset + webappFirstId]? = none := by
    by_contra hl
    obtain ⟨e, he⟩ := Option.ne_none_iff_exists'.mp hl
    obtain ⟨-, w, b, -, -, hb, -⟩ := h.listed _ e he
    rw [← hreg.keyed, hreg.freshId] at hb
    cases hb
  have hparked : ¬ s.Parked s.procs.next := by
    intro hp
    obtain ⟨n, hn, -⟩ := h.parked _ hp
    simp [KState.objectAt, Heap.getElem?_next] at hn
  refine { h with listed := ?_, spare := ?_, parked := ?_, placed := ?_, floating := by simp }
  · intro n e he
    obtain ⟨hn, w, b, heq, hw, hb, hcl⟩ := h.listed_known (by simp) he
    exact ⟨hn, w, b, heq, appProc_withSpare hw, objectAt_forked_of_some hb,
        .inl (clientAt_forked hcl)⟩
  · rintro w ⟨⟩
    have hoff := hreg.offset
    refine ⟨{ proc := some s.procs.next }, s.procs.next, s.webAppIdOffset + webappFirstId, ?_, rfl,
      ?_, by lia, hunlisted, hparked, fun hne => absurd rfl hne⟩
    · simp [KState.withSpare]
    · rw [hnew, if_pos rfl]
  · intro b hb
    obtain ⟨n, hn, hn', hl, hcl⟩ := h.parked b hb
    exact ⟨n, objectAt_forked_of_some hn, hn', hl, clientAt_forked hcl⟩
  · intro b n hb hn
    rw [hnew] at hb
    split at hb
    · rename_i hbn
      exact .inr (.inr (.inl ((spare_withSpare b).mpr hbn.symm)))
    · rcases h.placed_home (by simp) hb hn with hl | hp | ⟨w, hw, -⟩
      · exact .inl hl
      · exact .inr (.inl hp)
      · rw [hc] at hw
        cases hw

theorem Inv.forkSpare (h : Inv .idle s) (hroom : s.Room) (hc : s.cachedWebApp = none) :
    Inv .idle s.withSpare := by
  have hoff := h.registry.offset
  have hle : s.webAppIdOffset ≤ s.webAppIdOffset + 1 := by lia
  have hreg := h.registry.fork hroom h.registry.freshId (.inr ⟨by lia, by lia⟩) hle
  have hlab := h.labelled.fork (k := s.webAppIdOffset + webappFirstId) (fun hid => by lia) hle
    h.placement.live_of_spare
  refine ⟨{ hreg with }, h.placement.forkSpare h.registry hc, { hlab with spare := ?_ },
    h.ui.fork (s.webAppIdOffset + webappFirstId) (s.webAppIdOffset + 1)⟩
  -- no URL has gone to the new id
  intro f hf b hb hd
  have hknown := (h.labelled.known f hf).2
  rw [(spare_withSpare b).mp hb] at hd
  have hid : (s.forked (s.webAppIdOffset + webappFirstId)).objectAt s.procs.next =
      some f.msg.dstId := hd
  rw [objectAt_forked, if_pos rfl] at hid
  have := Option.some.inj hid
  lia

end OpBrowser
