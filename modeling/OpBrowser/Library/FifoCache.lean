import Mathlib.Data.List.Nodup
import Mathlib.Tactic.Common

/-! # Caches that give up what was stored first

The contents of a cache are a list from the earliest to the latest stored. The log of a
cache says what was stored, what was asked for and returned, and what had to go. -/

namespace OpBrowser.FifoCache

inductive Event (α : Type*) where
  | stored (a : α)
  | returned (a : α)
  | evicted (a : α)
  deriving DecidableEq, Repr

variable {α : Type*} [DecidableEq α] {log : List (Event α)} {l x y : List α} {a b : α}

/-- The log from the latest store of `a` on, or all of it if there was none. -/
def since (a : α) (log : List (Event α)) : List (Event α) :=
  (log.reverse.takeWhile (· ≠ .stored a)).reverse

theorem since_concat (a : α) (log : List (Event α)) (e : Event α) :
    since a (log ++ [e]) = if e = .stored a then [] else since a log ++ [e] := by
  rw [since, List.reverse_concat, List.takeWhile_cons]
  by_cases he : e = .stored a
  · simp [he]
  · simp [he, since]

/-- How often `a` has been returned or has had to go since it was stored for the last time. -/
def departures (a : α) (log : List (Event α)) : ℕ :=
  (since a log).count (.returned a) + (since a log).count (.evicted a)

/-- The contents agree with the log: they are what was stored and has not left since, from
the earliest to the latest stored. -/
structure Agrees (log : List (Event α)) (l : List α) : Prop where
  nodup : l.Nodup
  stored : ∀ a ∈ l, .stored a ∈ log
  order : l.Pairwise fun a b => .stored b ∈ since a log
  fate : ∀ a, .stored a ∈ log → l.count a + departures a log = 1

theorem agrees_nil : Agrees ([] : List (Event α)) [] := by
  constructor <;> simp

theorem departures_concat_stored (a b : α) (log : List (Event α)) :
    departures a (log ++ [.stored b]) = if b = a then 0 else departures a log := by
  rw [departures, since_concat]
  by_cases hb : b = a
  · simp [hb]
  · simp [hb, departures]

theorem Agrees.store (h : Agrees log l) (ha : a ∉ l) : Agrees (log ++ [.stored a]) (l ++ [a]) where
  nodup := by
    rw [← List.concat_eq_append]
    exact h.nodup.concat ha
  stored b hb := by
    rcases List.mem_append.mp hb with hb | hb
    · exact List.mem_append_left _ (h.stored b hb)
    · simp [List.mem_singleton.mp hb]
  order := by
    rw [List.pairwise_append]
    refine ⟨?_, List.pairwise_singleton _ a, ?_⟩
    · apply (List.Pairwise.and_mem.mp h.order).imp
      intro b c hbc
      have hne : a ≠ b := fun heq => ha (heq ▸ hbc.1)
      rw [since_concat, if_neg (by simpa using hne)]
      exact List.mem_append_left _ hbc.2.2
    · intro b hb c hc
      have hne : a ≠ b := fun heq => ha (heq ▸ hb)
      rw [since_concat, if_neg (by simpa using hne), List.mem_singleton.mp hc]
      simp
  fate b hb := by
    rw [departures_concat_stored, List.count_append]
    by_cases hab : a = b
    · subst hab
      simp [List.count_eq_zero_of_not_mem ha]
    · have hlog : .stored b ∈ log := by simpa [Ne.symm hab] using hb
      simpa [hab] using h.fate b hlog

/-- What leaves the contents leaves them once. -/
theorem Agrees.remove (h : Agrees log (x ++ a :: y)) {e : Event α}
    (he : e = .returned a ∨ e = .evicted a) : Agrees (log ++ [e]) (x ++ y) := by
  have hsub : (x ++ y).Sublist (x ++ a :: y) :=
    (List.sublist_cons_self a y).append_left x
  have hne (b : α) : e ≠ .stored b := by
    rcases he with rfl | rfl <;> simp
  constructor
  case nodup => exact h.nodup.sublist hsub
  case stored =>
    intro b hb
    exact List.mem_append_left _ (h.stored b (hsub.subset hb))
  case order =>
    apply (h.order.sublist hsub).imp
    intro b c hbc
    rw [since_concat, if_neg (hne b)]
    exact List.mem_append_left _ hbc
  case fate =>
    intro b hb
    have hlog : .stored b ∈ log := by simpa [(hne b).symm] using hb
    have hfate := h.fate b hlog
    have hdepart : departures b (log ++ [e]) = departures b log + if a = b then 1 else 0 := by
      rw [departures, since_concat, if_neg (hne b), departures]
      rcases he with rfl | rfl
      · by_cases hab : a = b <;> simp [List.count_append, hab]
        omega
      · by_cases hab : a = b <;> simp [List.count_append, hab]
        omega
    rw [hdepart]
    rw [List.count_append, List.count_cons] at hfate
    rw [List.count_append]
    by_cases hab : a = b
    · simp only [hab, beq_self_eq_true, if_true] at hfate ⊢
      omega
    · simp only [hab, beq_iff_eq, if_false] at hfate ⊢
      omega

end OpBrowser.FifoCache
