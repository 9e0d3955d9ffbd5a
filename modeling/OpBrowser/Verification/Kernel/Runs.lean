import Mathlib.Data.List.Induction
import OpBrowser.Library.Run
import OpBrowser.Verification.Kernel.Loop

/-! # Runs of the kernel

From `main` on, every state in which the kernel still runs meets the invariant. -/

namespace OpBrowser

open Kernel

variable {s : KState}

/-! ### One event -/

/-- The frames that one event leads to. -/
def EventFrame (s t : KState) : Event → Sent → Prop
  | .handle k, f => ∃ (a : Addr) (p : Process), s.procMap[k]? = some a ∧ s.procs[a]? = some p ∧
      p.objectId = k ∧ MessageFrame (s.received p).2 t (s.received p).1 f
  | .sigchld _, f => KernelFrame f
  | _, _ => False

/-- No event of this kind: a system call that breaks the tables, or the reported
death of a registered web app. -/
def Tame (s : KState) : Event → Prop
  | .handle k => ∀ (a : Addr) (p : Process), s.procMap[k]? = some a → s.procs[a]? = some p →
      (s.received p).1.dstId = kernelId → ¬ BreaksTables (s.received p).2 (s.received p).1
  | .sigchld pids => ∀ (a : Addr) (p : Process), s.procs[a]? = some p →
      webappFirstId ≤ p.objectId → p.pid ∉ pids
  | _ => True

theorem Inv.registered (h : Inv .idle s) {k : I32} {a : Addr} (hm : s.procMap[k]? = some a) :
    ∃ p, s.procs[a]? = some p ∧ p.objectId = k :=
  Option.map_eq_some_iff.mp ((h.registry.keyed k a).mp hm)

theorem perform_outcome (h : Inv .idle s) (e : Event) :
    Outcome (perform e) s (fun _ t => Inv .idle t ∧ Wrote (EventFrame s t e) s t)
      fun f t => Wrote (EventFrame s t e) s t ∧ (f ∈ tableFaults → ¬ Tame s e) := by
  cases e with
  | write pid msg => exact ⟨h.setUnread pid _, .of_eq rfl⟩
  | die pid =>
      exact ⟨h.of_same ⟨rfl, rfl, rfl, rfl, rfl, rfl, rfl, rfl, rfl, rfl, rfl, rfl,
        fun _ => Iff.rfl⟩, .of_eq rfl⟩
  | tick now =>
      exact ⟨h.of_same ⟨rfl, rfl, rfl, rfl, rfl, rfl, rfl, rfl, rfl, rfl, rfl, rfl,
        fun _ => Iff.rfl⟩, .of_eq rfl⟩
  | handle k =>
      rw [perform, Outcome.bind, Outcome.get]
      cases hm : s.procMap[k]? with
      | none => exact ⟨h, .of_eq rfl⟩
      | some a =>
          obtain ⟨p, hp, hid⟩ := h.registered hm
          refine (handleMessage_outcome h hp).mono ?_ ?_
          · rintro - t ⟨ht, -, hw⟩
            exact ⟨ht, hw.mono fun f hf => ⟨a, p, hm, hp, hid, hf⟩⟩
          · rintro f t ⟨hd, -, -, hfault, hw⟩
            exact ⟨hw.mono fun f hf => ⟨a, p, hm, hp, hid, hf⟩,
              fun hf htame => htame a p hm hp hd (hfault hf)⟩
  | sigchld pids =>
      refine (sigchldHandler_outcome h pids).mono (fun _ _ h => h) ?_
      rintro f t ⟨hw, hfault⟩
      refine ⟨hw, fun hf htame => ?_⟩
      obtain ⟨a, p, hp, hweb, hmem⟩ := hfault hf
      exact htame a p hp hweb hmem

/-! ### The start -/

theorem addCore_outcome {k : I32} (hk : s.procMap[k]? = none) {Q E} :
    Outcome (addCore k) s Q E ↔ (s.Room → Q ⟨⟩ (s.forked k)) ∧ (¬ s.Room → E .pipeAssert s) := by
  have hk' : ¬ k ∈ s.procMap := by simpa using hk
  by_cases hroom : s.Room
  · simp [addCore, createProc, spawn_of_room hroom, addToProcMap, deref, hk', hroom]
    rfl
  · rw [addCore, Outcome.bind, createProc_outcome_full hroom]
    simp [hroom]

theorem inv_blank (isCrawler : Bool) (fdLimit : ℕ) : Inv .booting (blank isCrawler fdLimit) := by
  have hproc : ∀ (a : Addr) (p : Process), (blank isCrawler fdLimit).procs[a]? ≠ some p := by
    rintro a p ⟨⟩
  have hobj : ∀ (a : Addr) (k : I32), (blank isCrawler fdLimit).objectAt a ≠ some k := by
    rintro a k ⟨⟩
  have hmap : ∀ k : I32, (blank isCrawler fdLimit).procMap[k]? = none := by simp [blank]
  have hkill : ∀ n : Pid, (blank isCrawler fdLimit).killList[n]? = none := by simp [blank]
  have hlist : ∀ k : I32, (blank isCrawler fdLimit).webAppList[k]? = none := by simp [blank]
  have hhanded : ∀ f, ¬ (blank isCrawler fdLimit).Handed f := by simp [KState.Handed, blank]
  have hparked : ∀ a, ¬ (blank isCrawler fdLimit).Parked a := by simp [KState.Parked, blank]
  refine ⟨⟨?_, ?_, le_refl _, ?_, ?_, ?_, ?_, rfl⟩, ⟨?_, ?_, ?_, ?_, by simp, .nil, le_refl _, rfl⟩,
    ⟨?_, ?_, ?_, ?_⟩, fun h => absurd rfl h⟩
  · intro k a
    rw [hmap]
    exact ⟨by rintro ⟨⟩, fun h => absurd h (hobj a k)⟩
  · exact fun a k h => absurd h (hobj a k)
  · exact fun a p h => absurd h (hproc a p)
  · exact fun a b p q h => absurd h (hproc a p)
  · intro n e he
    rw [hkill] at he
    cases he
  · exact fun a p h => absurd h (hproc a p)
  · intro k e he
    rw [hlist] at he
    cases he
  · rintro w ⟨⟩
  · exact fun a h => absurd h (hparked a)
  · exact fun a k h => absurd h (hobj a k)
  · exact fun f h => absurd h (hhanded f)
  · exact fun f h => absurd h (hhanded f)
  · exact fun f h => absurd h (hhanded f)
  · exact fun f g h => absurd h (hhanded f)

/-- `main` hands the UI's descriptor to the manager. -/
theorem Inv.start (h : Inv .booting s) {a : Addr} {p : Process} (hp : s.procs[a]? = some p)
    (hid : p.objectId = uiId) (he : s.cache.entries = []) (size : ℕ) :
    Inv .idle { s with
      uiFd := p.inFd, cache := { size, matchPolicy := .sopMatch, entries := [] } } := by
  have hparked : ∀ b, ¬ s.Parked b := by simp [KState.Parked, he]
  refine ⟨{ h.registry with },
    { listed := ?_, spare := ?_, parked := ?_, placed := ?_, floating := by simp, nodup := .nil
      size := Nat.zero_le _, policy := rfl },
    { h.labelled with }, fun _ => ⟨a, p, hp, hid, rfl⟩⟩
  · intro k e hk
    obtain ⟨hk', w, b, heq, hw, hb, hc⟩ := h.placement.listed_known (by simp) hk
    exact ⟨hk', w, b, heq, hw, hb, .inl hc⟩
  · intro w hw
    obtain ⟨r, b, k, hr, hrp, hb, hk, hl, -, hc⟩ := h.placement.spare w hw
    exact ⟨r, b, k, hr, hrp, hb, hk, hl, by rintro ⟨⟩, hc⟩
  · rintro b ⟨⟩
  · intro b k hb hk
    rcases h.placement.placed_home (by simp) hb hk with hl | hp | hs
    · exact .inl hl
    · exact absurd hp (hparked b)
    · exact .inr (.inr (.inl hs))

theorem procMap_forked {k n : I32} (hne : k ≠ n) (h : s.procMap[n]? = none) :
    (s.forked k).procMap[n]? = none := by
  rw [KState.forked, OrdMap.getElem?_insert, if_neg hne, h]

/-- The kernel with its four components. -/
def components (isCrawler : Bool) (fdLimit : ℕ) : KState :=
  (((((blank isCrawler fdLimit).forked networkId).forked cookieId).forked storageId).forked uiId)

/-- The kernel at the top of its loop for the first time, but for the spare web app. -/
def atLoop (isCrawler : Bool) (fdLimit uiFd : ℕ) : KState :=
  { components isCrawler fdLimit with
    uiFd
    cache := { size := if isCrawler then 0 else 10, matchPolicy := .sopMatch, entries := [] } }

/-- What `main` does before its loop: there is room for each of the five processes, or
the kernel stops. What every stage keeps holds at the loop and where it stops. -/
theorem startUp_outcome (isCrawler : Bool) (fdLimit : ℕ) {P : KState → Prop}
    (hblank : P (blank isCrawler fdLimit))
    (hfork : ∀ s k, k ∈ coreIds → s.procMap[k]? = none → s.webAppIdOffset = 0 → s.Room → P s →
      P (s.forked k))
    (hstart : ∀ s uiFd cache, P s → P { s with uiFd, cache }) :
    Outcome startUp (blank isCrawler fdLimit)
      (fun _ t => ∃ uiFd, Inv .idle (atLoop isCrawler fdLimit uiFd) ∧
        P (atLoop isCrawler fdLimit uiFd) ∧ (atLoop isCrawler fdLimit uiFd).Sparable ∧
          t = (atLoop isCrawler fdLimit uiFd).spared)
      fun e t => e = .pipeAssert ∧ P t := by
  have hinv₀ := inv_blank isCrawler fdLimit
  have hempty : ∀ k : I32, (blank isCrawler fdLimit).procMap[k]? = none := by simp [blank]
  have hfree₀ := hempty networkId
  rw [startUp, Outcome.bind, addCore_outcome hfree₀]
  refine ⟨fun hroom₀ => ?_, fun _ => ⟨rfl, hblank⟩⟩
  have hinv₁ := hinv₀.forkCore hroom₀ (by decide) hfree₀
  have h₁ := hfork _ networkId (by decide) hfree₀ rfl hroom₀ hblank
  have hfree₁ : ((blank isCrawler fdLimit).forked networkId).procMap[cookieId]? = none :=
    procMap_forked (by decide) (hempty _)
  rw [Outcome.bind, addCore_outcome hfree₁]
  refine ⟨fun hroom₁ => ?_, fun _ => ⟨rfl, h₁⟩⟩
  have hinv₂ := hinv₁.forkCore hroom₁ (by decide) hfree₁
  have h₂ := hfork _ cookieId (by decide) hfree₁ rfl hroom₁ h₁
  have hfree₂ : (((blank isCrawler fdLimit).forked networkId).forked
      cookieId).procMap[storageId]? = none :=
    procMap_forked (by decide) (procMap_forked (by decide) (hempty _))
  rw [Outcome.bind, addCore_outcome hfree₂]
  refine ⟨fun hroom₂ => ?_, fun _ => ⟨rfl, h₂⟩⟩
  have hinv₃ := hinv₂.forkCore hroom₂ (by decide) hfree₂
  have h₃ := hfork _ storageId (by decide) hfree₂ rfl hroom₂ h₂
  have hfree₃ : ((((blank isCrawler fdLimit).forked networkId).forked cookieId).forked
      storageId).procMap[uiId]? = none :=
    procMap_forked (by decide) (procMap_forked (by decide) (procMap_forked (by decide) (hempty _)))
  rw [Outcome.bind, addCore_outcome hfree₃]
  refine ⟨fun hroom₃ => ?_, fun _ => ⟨rfl, h₃⟩⟩
  have hinv₄ : Inv .booting (components isCrawler fdLimit) :=
    hinv₃.forkCore hroom₃ (by decide) hfree₃
  have h₄ : P (components isCrawler fdLimit) := hfork _ uiId (by decide) hfree₃ rfl hroom₃ h₃
  obtain ⟨a, p, hm, hp, hid⟩ : ∃ (a : Addr) (p : Process),
      (components isCrawler fdLimit).procMap[uiId]? = some a ∧
        (components isCrawler fdLimit).procs[a]? = some p ∧ p.objectId = uiId :=
    ⟨_, _, by rw [components, KState.forked, OrdMap.getElem?_insert, if_pos rfl],
      by rw [components, KState.forked, Heap.getElem?_alloc, if_pos rfl], rfl⟩
  have hloop : Inv .idle (atLoop isCrawler fdLimit p.inFd) := hinv₄.start hp hid rfl _
  have h₅ : P (atLoop isCrawler fdLimit p.inFd) := hstart _ p.inFd _ h₄
  change Outcome _ (components isCrawler fdLimit) _ _
  rw [Outcome.bind, Outcome.get, Outcome.bind, hm, Outcome.require_some, Outcome.bind,
    deref_outcome hp, newWebAppMgr, Outcome.bind, Outcome.modify]
  exact (preCreateWebApp_outcome hloop).mpr
    ⟨fun hroom => ⟨p.inFd, hloop, h₅, hroom, rfl⟩, fun _ => ⟨rfl, h₅⟩⟩

/-! ### Runs -/

/-- A kernel that runs does what the operation does. -/
theorem exec_outcome {m : Machine} (hm : m.fault = none) {x : Op Unit} {Q : KState → Prop}
    {E : Fault → KState → Prop} (h : Outcome x m.state (fun _ t => Q t) E) :
    (m.exec x).fault = none ∧ Q (m.exec x).state ∨
      ∃ f, (m.exec x).fault = some f ∧ E f (m.exec x).state := by
  unfold Outcome at h
  rw [Machine.exec, hm]
  dsimp only
  cases hx : x m.state with
  | ok _ t =>
      rw [hx] at h
      exact .inl ⟨rfl, h⟩
  | error f t =>
      rw [hx] at h
      exact .inr ⟨f, rfl, h⟩

theorem exec_of_fault {m : Machine} {f : Fault} (hm : m.fault = some f) (x : Op Unit) :
    m.exec x = m := by
  rw [Machine.exec, hm]

/-- The kernel has come to its loop, or it has stopped for want of descriptors. -/
theorem boot_cases (isCrawler : Bool) (fdLimit : ℕ) {P : KState → Prop}
    (hblank : P (blank isCrawler fdLimit))
    (hfork : ∀ s k, k ∈ coreIds → s.procMap[k]? = none → s.webAppIdOffset = 0 → s.Room → P s →
      P (s.forked k))
    (hstart : ∀ s uiFd cache, P s → P { s with uiFd, cache }) :
    ((boot isCrawler fdLimit).fault = none ∧
      ∃ uiFd, Inv .idle (atLoop isCrawler fdLimit uiFd) ∧ P (atLoop isCrawler fdLimit uiFd) ∧
        (atLoop isCrawler fdLimit uiFd).Sparable ∧
          (boot isCrawler fdLimit).state = (atLoop isCrawler fdLimit uiFd).spared) ∨
      (boot isCrawler fdLimit).fault = some .pipeAssert ∧ P (boot isCrawler fdLimit).state := by
  have h := startUp_outcome isCrawler fdLimit hblank hfork hstart
  rcases exec_outcome (m := ⟨blank isCrawler fdLimit, none⟩) rfl h with hok | ⟨f, hsome, rfl, hp⟩
  · exact .inl hok
  · exact .inr ⟨hsome, hp⟩

theorem boot_ok (isCrawler : Bool) (fdLimit : ℕ) : (boot isCrawler fdLimit).state.sent = [] ∧
    ((boot isCrawler fdLimit).fault = none ∧ Inv .idle (boot isCrawler fdLimit).state ∨
      (boot isCrawler fdLimit).fault = some .pipeAssert) := by
  rcases boot_cases isCrawler fdLimit (P := fun s => s.sent = []) rfl (fun _ _ _ _ _ _ h => h)
    fun _ _ _ h => h with ⟨hnone, uiFd, hinv, hsent, hroom, hstate⟩ | ⟨hsome, hsent⟩
  · rw [hstate]
    exact ⟨Quiet.spared.sent.trans hsent, .inl ⟨hnone, hinv.spared hroom⟩⟩
  · exact ⟨hsent, .inr hsome⟩

/-- The kernel has stopped or meets the invariant. -/
def Sound (m : Machine) : Prop := m.fault = none → Inv .idle m.state

theorem sound_boot (isCrawler : Bool) (fdLimit : ℕ) : Sound (boot isCrawler fdLimit) := by
  intro hnone
  rcases (boot_ok isCrawler fdLimit).2 with h | h
  · exact h.2
  · rw [h] at hnone
    cases hnone

/-- What one event does to a machine that runs. -/
theorem step_outcome {m : Machine} (hm : m.fault = none) (h : Inv .idle m.state) (e : Event) :
    Wrote (EventFrame m.state (m.step e).state e) m.state (m.step e).state ∧
      ((m.step e).fault = none → Inv .idle (m.step e).state) ∧
      ∀ f, (m.step e).fault = some f → f ∈ tableFaults → ¬ Tame m.state e := by
  rcases exec_outcome hm (perform_outcome h e) with ⟨hnone, hinv, hw⟩ | ⟨f, hsome, hw, hf⟩
  · refine ⟨hw, fun _ => hinv, fun f hsome => ?_⟩
    rw [Machine.step, hnone] at hsome
    cases hsome
  · refine ⟨hw, fun hnone => ?_, fun g hg => ?_⟩
    · rw [Machine.step, hsome] at hnone
      cases hnone
    · rw [Machine.step, hsome] at hg
      cases hg
      exact hf

theorem step_of_fault {m : Machine} {f : Fault} (hm : m.fault = some f) (e : Event) :
    m.step e = m :=
  exec_of_fault hm (perform e)

theorem run_of_fault {m : Machine} {f : Fault} (hm : m.fault = some f) (es : List Event) :
    m.run es = m := by
  induction es with
  | nil => rfl
  | cons e es ih =>
      change (m.step e).run es = m
      rw [step_of_fault hm, ih]

theorem Sound.step {m : Machine} (h : Sound m) (e : Event) : Sound (m.step e) := by
  cases hm : m.fault with
  | none => exact (step_outcome hm (h hm) e).2.1
  | some f => rwa [step_of_fault hm]

/-- Every kernel that a run reaches has stopped or meets the invariant. -/
theorem sound_run (isCrawler : Bool) (fdLimit : ℕ) (es : List Event) :
    Sound ((boot isCrawler fdLimit).run es) :=
  Along.invariant (P := fun _ _ => True) (.of_forall fun _ _ => trivial)
    (sound_boot isCrawler fdLimit) fun _ e h _ => h.step e

theorem run_concat (m : Machine) (es : List Event) (e : Event) :
    m.run (es ++ [e]) = (m.run es).step e := by
  simp [Machine.run]

/-- A frame that is there after a step was there before or was written by it. -/
theorem sent_step {m : Machine} (h : Sound m) (e : Event) {f : Sent}
    (hf : f ∈ (m.step e).state.sent) : f ∈ m.state.sent ∨
      m.fault = none ∧ EventFrame m.state (m.step e).state e f := by
  cases hm : m.fault with
  | some fault =>
      rw [step_of_fault hm] at hf
      exact .inl hf
  | none =>
      obtain ⟨⟨new, hsent, hnew⟩, -⟩ := step_outcome hm (h hm) e
      rw [hsent, List.mem_append] at hf
      exact hf.imp_right fun hf => ⟨rfl, hnew f hf⟩

/-- Every frame of a run was written in one of its steps. -/
theorem sent_run (isCrawler : Bool) (fdLimit : ℕ) (es : List Event) {f : Sent}
    (hf : f ∈ ((boot isCrawler fdLimit).run es).state.sent) : ∃ es₁ e es₂, es = es₁ ++ e :: es₂ ∧
      Inv .idle ((boot isCrawler fdLimit).run es₁).state ∧
      EventFrame ((boot isCrawler fdLimit).run es₁).state
        ((boot isCrawler fdLimit).run (es₁ ++ [e])).state e f := by
  induction es using List.reverseRecOn with
  | nil =>
      rw [show ((boot isCrawler fdLimit).run []).state.sent = [] from
        (boot_ok isCrawler fdLimit).1] at hf
      cases hf
  | append_singleton es e ih =>
      rw [run_concat] at hf
      rcases sent_step (sound_run isCrawler fdLimit es) e hf with hf | ⟨hm, hf⟩
      · obtain ⟨es₁, e₁, es₂, rfl, hrest⟩ := ih hf
        exact ⟨es₁, e₁, es₂ ++ [e], by simp, hrest⟩
      · exact ⟨es, e, [], rfl, sound_run isCrawler fdLimit es hm, by rwa [run_concat]⟩

end OpBrowser
