import OpBrowser.Verification.Kernel.Runs

/-! # Consistency of the process tables

The invariant read as a statement about the four tables, and the runs in which no
handler meets a broken one. -/

namespace OpBrowser

open Kernel

/-- The three tables besides `procMap` that hold web apps. -/
inductive Home where
  | running | spare | parked
  deriving DecidableEq

/-- The web app with this object id stands in this table. -/
def KState.Lives (s : KState) (k : I32) (a : Addr) : Home → Prop
  | .running => s.Running k a
  | .spare => s.Spare a
  | .parked => s.Parked a

/-- `procMap` is keyed by object ids, each of its web apps has one home, and the
homes hold nothing else. -/
structure Consistent (s : KState) : Prop where
  keyed : ∀ k a, s.procMap[k]? = some a → s.objectAt a = some k
  home : ∀ k a, s.procMap[k]? = some a → webappFirstId ≤ k → ∃! home, s.Lives k a home
  running : ∀ k e, s.webAppList[k]? = some e →
    webappFirstId ≤ k ∧ ∃ app a, e = some app ∧ s.appProc app = some a ∧ s.procMap[k]? = some a
  spare : ∀ app, s.cachedWebApp = some app →
    ∃ k a, webappFirstId ≤ k ∧ s.appProc app = some a ∧ s.procMap[k]? = some a
  parked : ∀ a ∈ s.cache.entries, ∃ k, webappFirstId ≤ k ∧ s.procMap[k]? = some a
  once : s.cache.entries.Nodup

variable {s : KState}

/-! ### From the invariant -/

theorem Inv.running_excludes (h : Inv .idle s) {k : I32} {a : Addr} (hr : s.Running k a) :
    ¬ s.Spare a ∧ ¬ s.Parked a := by
  obtain ⟨w, hl, hwa⟩ := hr
  obtain ⟨-, v, b, hv, hb, hk, -⟩ := h.placement.listed k _ hl
  cases hv
  rw [hwa] at hb
  cases hb
  have hlisted : ∀ n, s.objectAt a = some n → s.webAppList[n]? ≠ none := by
    intro n hn
    rw [← Option.some.inj (hk.symm.trans hn), hl]
    exact Option.some_ne_none _
  constructor
  · intro hs
    obtain ⟨n, hn, -, hfree, -⟩ := h.placement.spare_proc hs
    exact hlisted n hn hfree
  · intro hp
    obtain ⟨n, hn, -, hfree, -⟩ := h.placement.parked a hp
    exact hlisted n hn hfree

theorem Inv.spare_excludes (h : Inv .idle s) {a : Addr} (hs : s.Spare a) : ¬ s.Parked a := by
  obtain ⟨k, hk, hweb, hfree, hp⟩ := h.placement.spare_proc hs
  exact hp

theorem Inv.home (h : Inv .idle s) {k : I32} {a : Addr} (hm : s.procMap[k]? = some a)
    (hweb : webappFirstId ≤ k) : ∃! home, s.Lives k a home := by
  have hk := (h.registry.keyed k a).mp hm
  rcases h.placement.placed_home (by simp) hk hweb with hl | hp | hs
  · obtain ⟨e, he⟩ := Option.ne_none_iff_exists'.mp hl
    obtain ⟨-, w, b, rfl, hw, hb, -⟩ := h.placement.listed k e he
    obtain rfl := h.registry.objectAt_inj hb hk
    have hrun : s.Running k b := ⟨w, he, hw⟩
    refine ⟨.running, hrun, fun home hh => ?_⟩
    cases home with
    | running => rfl
    | spare => exact absurd hh (h.running_excludes hrun).1
    | parked => exact absurd hh (h.running_excludes hrun).2
  · refine ⟨.parked, hp, fun home hh => ?_⟩
    cases home with
    | running => exact absurd hp (h.running_excludes hh).2
    | spare => exact absurd hp (h.spare_excludes hh)
    | parked => rfl
  · refine ⟨.spare, hs, fun home hh => ?_⟩
    cases home with
    | running => exact absurd hs (h.running_excludes hh).1
    | spare => rfl
    | parked => exact absurd hh (h.spare_excludes hs)

theorem Inv.consistent (h : Inv .idle s) : Consistent s where
  keyed k a hm := (h.registry.keyed k a).mp hm
  home _ _ := h.home
  running k e he := by
    obtain ⟨hweb, w, a, rfl, hw, ha, -⟩ := h.placement.listed k e he
    exact ⟨hweb, w, a, rfl, hw, (h.registry.keyed k a).mpr ha⟩
  spare w hw := by
    obtain ⟨r, a, k, hr, hrp, ha, hweb, -⟩ := h.placement.spare w hw
    exact ⟨k, a, hweb, by rw [KState.appProc, hr, Option.bind_some, hrp],
      (h.registry.keyed k a).mpr ha⟩
  parked a ha := by
    obtain ⟨k, hk, hweb, -⟩ := h.placement.parked a ha
    exact ⟨k, hweb, (h.registry.keyed k a).mpr hk⟩
  once := h.placement.nodup

/-! ### Runs -/

/-- A kernel that runs has consistent tables, and one that stopped did not follow a
null pointer, read a freed record or fail an assertion about a table. -/
structure TablesOk (m : Machine) : Prop where
  consistent : m.fault = none → Consistent m.state
  fault : ∀ f, m.fault = some f → f ∉ tableFaults

theorem tablesOk_step {m : Machine} {e : Event} (hs : Sound m) (h : TablesOk m)
    (he : Tame m.state e) : TablesOk (m.step e) := by
  cases hm : m.fault with
  | none =>
      obtain ⟨-, hinv, hfault⟩ := step_outcome hm (hs hm) e
      exact ⟨fun hf => (hinv hf).consistent, fun f hf hmem => hfault f hf hmem he⟩
  | some f => rwa [step_of_fault hm]

/-- Unless the death of a registered web app is reported, a listed web app is
replayed or one is closed under a cache without room, the tables stay consistent. -/
theorem tablesOk_run (isCrawler : Bool) (fdLimit : ℕ) (es : List Event)
    (h : Along (fun m e => Tame m.state e) Machine.step (boot isCrawler fdLimit) es) :
    ∀ es', es' <+: es → TablesOk ((boot isCrawler fdLimit).run es') := by
  rintro es' ⟨rest, rfl⟩
  have hboot : TablesOk (boot isCrawler fdLimit) := by
    refine ⟨fun hnone => (sound_boot isCrawler fdLimit hnone).consistent, fun f hf => ?_⟩
    rcases (boot_ok isCrawler fdLimit).2 with h | h
    · rw [h.1] at hf
      cases hf
    · rw [h] at hf
      cases hf
      decide
  refine (Along.invariant (I := fun m => Sound m ∧ TablesOk m) (Along.append.mp h).1
    ⟨sound_boot isCrawler fdLimit, hboot⟩ ?_).2
  intro m e hm he
  exact ⟨hm.1.step e, tablesOk_step hm.1 hm.2 he⟩

/-- The event of handling the component registered under this id, in terms of its record. -/
theorem tame_handle {k : I32} {a : Addr} {p : Process} (hm : s.procMap[k]? = some a)
    (hp : s.procs[a]? = some p)
    (h : (s.received p).1.dstId = kernelId → ¬ BreaksTables (s.received p).2 (s.received p).1) :
    Tame s (.handle k) := by
  intro a' p' hm' hp'
  rw [hm] at hm'
  cases hm'
  rw [hp] at hp'
  cases hp'
  exact h

/-- The UI opens a tab, and the spare web app introduces itself and is closed. -/
theorem tablesOk_run_close :
    let es : List Event := [
      .write 4
        { msgType := msgNewUrl, msgValue := 1, payload := .ofBytes (bytes "http://a.com/\x00") },
      .write 5 { msgType := msgNewWebapp, msgValue := 77 },
      .handle uiId,
      .write 4 { msgType := msgWebappClose, msgValue := 1, payload := .ofBytes (bytes "1024") },
      .handle uiId,
      .sigchld []]
    Along (fun m e => Tame m.state e) Machine.step (boot false 1024) es ∧
      ∀ es', es' <+: es → TablesOk ((boot false 1024).run es') := by
  intro es
  let ui : Process := { inFd := 10, outFd := 11, pid := 4, objectId := uiId }
  have h : Along (fun m e => Tame m.state e) Machine.step (boot false 1024) es := by
    refine ⟨trivial, trivial, tame_handle (a := 3) (p := ui) ?_ ?_ fun _ => ?_, trivial,
      tame_handle (a := 3) (p := ui) ?_ ?_ fun _ => ?_, fun _ _ _ _ => List.not_mem_nil, trivial⟩
    all_goals decide +kernel
  exact ⟨h, tablesOk_run false 1024 es h⟩

/-- The spare web app dies before it was ever used. -/
theorem spare_death_breaks_tables : ¬ TablesOk ((boot false 1024).run [.die 5, .sigchld [5]]) := by
  intro h
  exact h.fault .nullDeref (by decide) (by decide)

end OpBrowser
