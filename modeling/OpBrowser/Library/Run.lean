import Mathlib.Data.List.Basic
import Mathlib.Tactic.Common

/-! # Runs of a step function

A run is a left fold. `Along P step s es` says that every step of the run meets
`P` in the state in which it is taken. -/

namespace OpBrowser

variable {σ α : Type*}

/-- Every step of the run from `s` along the list meets `P`. -/
def Along (P : σ → α → Prop) (step : σ → α → σ) : σ → List α → Prop
  | _, [] => True
  | s, e :: es => P s e ∧ Along P step (step s e) es

namespace Along

variable {P : σ → α → Prop} {step : σ → α → σ} {I : σ → Prop} {s : σ} {es es' : List α}

@[simp] theorem nil : Along P step s [] := trivial

@[simp] theorem cons {e : α} : Along P step s (e :: es) ↔ P s e ∧ Along P step (step s e) es :=
  Iff.rfl

theorem append :
    Along P step s (es ++ es') ↔ Along P step s es ∧ Along P step (es.foldl step s) es' := by
  induction es generalizing s with
  | nil => simp
  | cons e es ih => simp [ih, and_assoc]

/-- What every legal step keeps holds at the end of a legal run. -/
theorem invariant (h : Along P step s es) (hs : I s) (hstep : ∀ t e, I t → P t e → I (step t e)) :
    I (es.foldl step s) := by
  induction es generalizing s with
  | nil => exact hs
  | cons e es ih => exact ih h.2 (hstep s e hs h.1)

/-- The same for every step function without conditions. -/
theorem of_forall (h : ∀ t e, P t e) : Along P step s es := by
  induction es generalizing s with
  | nil => trivial
  | cons e es ih => exact ⟨h s e, ih⟩

end Along

/-- What is in the state after a run was in it before, or came in with one of the steps. -/
theorem mem_or_born {β : Type*} {step : σ → α → σ} (mem : β → σ → Prop) (born : α → β → Prop)
    (hstep : ∀ s e b, mem b (step s e) → mem b s ∨ born e b) {b : β} {es : List α} {s : σ}
    (h : mem b (es.foldl step s)) : mem b s ∨ ∃ e ∈ es, born e b := by
  induction es generalizing s with
  | nil => exact Or.inl h
  | cons e es ih =>
      cases ih h with
      | inl h =>
          cases hstep s e b h with
          | inl h => exact Or.inl h
          | inr h => exact Or.inr ⟨e, List.mem_cons_self, h⟩
      | inr h =>
          obtain ⟨e', hmem, h⟩ := h
          exact Or.inr ⟨e', List.mem_cons_of_mem e hmem, h⟩

end OpBrowser
