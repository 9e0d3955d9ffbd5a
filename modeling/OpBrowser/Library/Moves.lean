import OpBrowser.Library.Outcome
import Mathlib.Order.Defs.Unbundled

/-! # What a computation may do to its state

A preorder on the states says what a computation may change. A chain of computations that
stay within it stays within it, so a program is checked by its primitive steps. -/

namespace OpBrowser

universe u

variable {ε σ α β : Type u}

/-- Where the computation returns, the state has moved along the relation. -/
def Moves (R : σ → σ → Prop) (x : EStateM ε σ α) : Prop :=
  ∀ s, Outcome x s (fun _ t => R s t) fun _ _ => True

namespace Moves

variable {R : σ → σ → Prop} {x : EStateM ε σ α} {f : α → EStateM ε σ β}

theorem throw (e : ε) : Moves R (MonadExcept.throw e : EStateM ε σ α) := fun _ => trivial

theorem modify {f : σ → σ} (h : ∀ s, R s (f s)) : Moves R (modify f : EStateM ε σ PUnit) := h

theorem ite {p : Prop} [Decidable p] {y : EStateM ε σ α} (hx : Moves R x) (hy : Moves R y) :
    Moves R (if p then x else y) := by
  split
  · exact hx
  · exact hy

/-- A program that looks at its state first. -/
theorem get_bind {f : σ → EStateM ε σ β}
    (hf : ∀ s, Outcome (f s) s (fun _ t => R s t) fun _ _ => True) :
    Moves R (MonadState.get >>= f) := by
  intro s
  rw [Outcome.bind, Outcome.get]
  exact hf s

variable [IsPreorder σ R]

theorem pure (a : α) : Moves R (Pure.pure a : EStateM ε σ α) := fun s => refl_of R s

theorem get : Moves R (MonadState.get : EStateM ε σ σ) := fun s => refl_of R s

theorem require (o : Option α) (e : ε) : Moves R (OpBrowser.require o e : EStateM ε σ α) := by
  cases o with
  | none => exact throw e
  | some a => exact pure a

theorem ensure (p : Prop) [Decidable p] (e : ε) :
    Moves R (OpBrowser.ensure p e : EStateM ε σ PUnit) :=
  ite (pure _) (throw e)

theorem bind (hx : Moves R x) (hf : ∀ a, Moves R (f a)) : Moves R (x >>= f) := by
  intro s
  rw [Outcome.bind]
  refine (hx s).mono (fun a t ht => ?_) fun _ _ h => h
  exact (hf a t).mono (fun _ _ hu => trans_of R ht hu) fun _ _ h => h

end Moves

end OpBrowser
