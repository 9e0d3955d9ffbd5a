import Mathlib.Data.List.Nodup
import Mathlib.Tactic.Common

/-! # The newest occurrence of every key in a log

A log grows at its front. The place of an entry is counted from the back, so it stays the
same when the log grows. -/

namespace OpBrowser

variable {κ : Type*} [DecidableEq κ]

/-- Every key with the place of its newest entry, the newest first. -/
def newest : List κ → List (κ × ℕ)
  | [] => []
  | k :: log => (k, log.length + 1) :: (newest log).filter (·.1 ≠ k)

variable {k : κ} {log : List κ} {e : κ × ℕ}

theorem newest_cons :
    newest (k :: log) = (k, log.length + 1) :: (newest log).filter (·.1 ≠ k) := rfl

/-- The place of a key lies in the log, holds the key, and no newer entry has it. -/
theorem mem_newest {place : ℕ} : (k, place) ∈ newest log ↔
    0 < place ∧ place ≤ log.length ∧ log[log.length - place]? = some k ∧
      k ∉ log.take (log.length - place) := by
  induction log with
  | nil => simp [newest]
  | cons k' log ih =>
      rw [newest_cons, List.mem_cons, List.mem_filter, ih, Prod.mk.injEq, List.length_cons]
      by_cases hplace : place ≤ log.length
      · have hsub : log.length + 1 - place = log.length - place + 1 := by omega
        rw [hsub, List.getElem?_cons_succ, List.take_succ_cons, List.mem_cons]
        have hne : ¬ (k = k' ∧ place = log.length + 1) := by omega
        simp only [hne, false_or, decide_eq_true_eq]
        constructor
        · rintro ⟨⟨hpos, -, hget, hnot⟩, hk⟩
          exact ⟨hpos, by omega, hget, by simp [hk, hnot]⟩
        · rintro ⟨hpos, -, hget, hnot⟩
          exact ⟨⟨hpos, hplace, hget, fun h => hnot (Or.inr h)⟩, fun h => hnot (Or.inl h)⟩
      · simp only [hplace, false_and, and_false, or_false]
        constructor
        · rintro ⟨rfl, rfl⟩
          simp
        · rintro ⟨-, hle, hget, -⟩
          obtain rfl : place = log.length + 1 := by omega
          simpa using hget.symm

theorem fst_mem_newest : k ∈ (newest log).map Prod.fst ↔ k ∈ log := by
  induction log with
  | nil => simp [newest]
  | cons k' log ih =>
      rw [newest_cons, List.map_cons, List.mem_cons, List.mem_cons, ← ih]
      by_cases hk : k = k'
      · simp [hk]
      · simp [hk]

/-- No key comes twice. -/
theorem nodup_newest : ((newest log).map Prod.fst).Nodup := by
  induction log with
  | nil => simp [newest]
  | cons k log ih =>
      rw [newest_cons, List.map_cons, List.nodup_cons]
      refine ⟨by simp, ih.sublist (List.Sublist.map _ List.filter_sublist)⟩

/-- The newest come first. -/
theorem pairwise_newest : (newest log).Pairwise fun a b => b.2 < a.2 := by
  induction log with
  | nil => simp [newest]
  | cons k log ih =>
      rw [newest_cons, List.pairwise_cons]
      refine ⟨?_, ih.sublist List.filter_sublist⟩
      intro e he
      have hmem : (e.1, e.2) ∈ newest log := (List.mem_filter.mp he).1
      have hle := (mem_newest.mp hmem).2.1
      exact Nat.lt_succ_of_le hle

/-- A key has one place. -/
theorem newest_inj {e' : κ × ℕ} (he : e ∈ newest log) (he' : e' ∈ newest log) (h : e.1 = e'.1) :
    e = e' :=
  List.inj_on_of_nodup_map nodup_newest he he' h

/-- A place has one key. -/
theorem newest_inj_place {e' : κ × ℕ} (he : e ∈ newest log) (he' : e' ∈ newest log)
    (h : e.2 = e'.2) : e = e' := by
  have hget := (mem_newest.mp (show (e.1, e.2) ∈ newest log from he)).2.2.1
  have hget' := (mem_newest.mp (show (e'.1, e'.2) ∈ newest log from he')).2.2.1
  rw [h, hget'] at hget
  exact Prod.ext (Option.some.inj hget.symm) h

/-- Erasing what has a place erases its key. -/
theorem eraseIdx_newest {i place : ℕ} (hmem : (k, place) ∈ newest log)
    (hi : (newest log).findIdx? (fun e => e.2 = place) = some i) :
    (newest log).eraseIdx i = (newest log).filter (·.1 ≠ k) := by
  have herase : ∀ l : List (κ × ℕ), l.Pairwise (fun a b => b.2 < a.2) →
      l.eraseP (fun e => e.2 = place) = l.filter fun e => e.2 ≠ place := by
    intro l hl
    induction l with
    | nil => rfl
    | cons e l ih =>
        obtain ⟨he, hl⟩ := List.pairwise_cons.mp hl
        by_cases hp : e.2 = place
        · have hrest : ∀ e' ∈ l, decide (e'.2 ≠ place) = true := by
            intro e' he'
            have hlt := he e' he'
            simp only [ne_eq, decide_eq_true_eq]
            omega
          rw [List.eraseP_cons_of_pos (by simpa using hp),
              List.filter_cons_of_neg (by simpa using hp),
            List.filter_eq_self.mpr hrest]
        · simp [hp, ih hl]
  have heq := herase (newest log) pairwise_newest
  rw [List.eraseP_eq_eraseIdx, hi] at heq
  refine heq.trans (List.filter_congr fun e he => ?_)
  have hiff : e.2 = place ↔ e.1 = k :=
    ⟨fun h => congrArg Prod.fst (newest_inj_place he hmem h),
      fun h => congrArg Prod.snd (newest_inj he hmem h)⟩
  simp [hiff]

end OpBrowser
