import Mathlib.Tactic.Common

/-! # Outcomes of stateful computations that may stop

`EStateM` keeps the state that was reached when a computation stops with an
error. `Outcome x s Q E` is the weakest precondition of `x` at `s`: the result
meets `Q` when `x` returns and `E` when it stops. The rules below compute it
along the structure of a program. -/

namespace OpBrowser

universe u

variable {ε σ α β : Type u}

/-- The result of running `x` from `s` meets `Q` if it returns, `E` if it stops. -/
def Outcome (x : EStateM ε σ α) (s : σ) (Q : α → σ → Prop) (E : ε → σ → Prop) : Prop :=
  match x s with
  | .ok a t => Q a t
  | .error e t => E e t

/-- The computation returns. -/
def Returns (x : EStateM ε σ α) (s : σ) : Prop :=
  Outcome x s (fun _ _ => True) fun _ _ => False

instance (x : EStateM ε σ α) (s : σ) : Decidable (Returns x s) :=
  match h : x s with
  | .ok _ _ => isTrue (by simp [Returns, Outcome, h])
  | .error _ _ => isFalse (by simp [Returns, Outcome, h])

/-- An optional value that has to be there. -/
def require (o : Option α) (e : ε) : EStateM ε σ α :=
  match o with
  | some a => pure a
  | none => throw e

/-- A check that stops the computation when it fails. -/
def ensure (p : Prop) [Decidable p] (e : ε) : EStateM ε σ PUnit :=
  if p then pure ⟨⟩ else throw e

namespace Outcome

variable {s t : σ} {Q Q' : α → σ → Prop} {E E' : ε → σ → Prop} {x : EStateM ε σ α}

@[simp] theorem pure (a : α) : Outcome (Pure.pure a : EStateM ε σ α) s Q E ↔ Q a s := Iff.rfl

@[simp] theorem bind (f : α → EStateM ε σ β) {R : β → σ → Prop} :
    Outcome (x >>= f) s R E ↔ Outcome x s (fun a t => Outcome (f a) t R E) E := by
  simp only [Outcome, Bind.bind, EStateM.bind]
  cases x s <;> rfl

@[simp] theorem map (f : α → β) {R : β → σ → Prop} :
    Outcome (f <$> x) s R E ↔ Outcome x s (fun a t => R (f a) t) E := by
  simp only [Outcome, Functor.map, EStateM.map]
  cases x s <;> rfl

@[simp] theorem get {Q : σ → σ → Prop} :
    Outcome (MonadState.get : EStateM ε σ σ) s Q E ↔ Q s s := Iff.rfl

@[simp] theorem getThe {Q : σ → σ → Prop} :
    Outcome (MonadStateOf.get : EStateM ε σ σ) s Q E ↔ Q s s := Iff.rfl

@[simp] theorem set {Q : PUnit → σ → Prop} :
    Outcome (MonadStateOf.set t : EStateM ε σ PUnit) s Q E ↔ Q ⟨⟩ t := Iff.rfl

@[simp] theorem modify (f : σ → σ) {Q : PUnit → σ → Prop} :
    Outcome (modify f : EStateM ε σ PUnit) s Q E ↔ Q ⟨⟩ (f s) := Iff.rfl

@[simp] theorem throw (e : ε) :
    Outcome (MonadExceptOf.throw e : EStateM ε σ α) s Q E ↔ E e s := Iff.rfl

@[simp] theorem throw' (e : ε) :
    Outcome (MonadExcept.throw e : EStateM ε σ α) s Q E ↔ E e s := Iff.rfl

@[simp] theorem ite (p : Prop) [Decidable p] (y : EStateM ε σ α) :
    Outcome (if p then x else y) s Q E ↔ (p → Outcome x s Q E) ∧ (¬ p → Outcome y s Q E) := by
  by_cases h : p <;> simp [h]

@[simp] theorem require_some (a : α) (e : ε) :
    Outcome (OpBrowser.require (some a) e : EStateM ε σ α) s Q E ↔ Q a s := Iff.rfl

@[simp] theorem require_none (e : ε) :
    Outcome (OpBrowser.require none e : EStateM ε σ α) s Q E ↔ E e s := Iff.rfl

@[simp] theorem ensure (p : Prop) [Decidable p] (e : ε) {Q : PUnit → σ → Prop} :
    Outcome (OpBrowser.ensure p e : EStateM ε σ PUnit) s Q E ↔ (p → Q ⟨⟩ s) ∧ (¬ p → E e s) := by
  simp [OpBrowser.ensure]

theorem mono (h : Outcome x s Q E) (hQ : ∀ a t, Q a t → Q' a t) (hE : ∀ e t, E e t → E' e t) :
    Outcome x s Q' E' := by
  unfold Outcome at h ⊢
  cases hx : x s with
  | ok a t => exact hQ a t (by simpa [hx] using h)
  | error e t => exact hE e t (by simpa [hx] using h)

/-- What two proofs say about a computation holds of the same result. -/
theorem and (h : Outcome x s Q E) (h' : Outcome x s Q' E') :
    Outcome x s (fun a t => Q a t ∧ Q' a t) fun e t => E e t ∧ E' e t := by
  unfold Outcome at h h' ⊢
  cases hx : x s with
  | ok a t =>
      rw [hx] at h h'
      exact ⟨h, h'⟩
  | error e t =>
      rw [hx] at h h'
      exact ⟨h, h'⟩

/-- A computation that does not stop has a result. -/
theorem exists_ok (h : Outcome x s Q fun _ _ => False) : ∃ a t, x s = .ok a t ∧ Q a t := by
  unfold Outcome at h
  cases hx : x s with
  | ok a t =>
      rw [hx] at h
      exact ⟨a, t, rfl, h⟩
  | error e t =>
      rw [hx] at h
      exact h.elim

theorem of_ok {a : α} (hx : x s = .ok a t) (h : Outcome x s Q E) : Q a t := by
  unfold Outcome at h
  rw [hx] at h
  exact h

/-- No result meets two outcomes that exclude each other. -/
theorem elim (h : Outcome x s Q E)
    (h' : Outcome x s (fun a t => ¬ Q a t) fun e t => ¬ E e t) : False := by
  unfold Outcome at h h'
  cases hx : x s with
  | ok a t =>
      rw [hx] at h h'
      exact h' h
  | error e t =>
      rw [hx] at h h'
      exact h' h

/-- A computation that may also end without a result goes on only from a result. -/
theorem run_bind {y : OptionT (EStateM ε σ) α} (f : α → OptionT (EStateM ε σ) β)
    {R : Option β → σ → Prop} :
    Outcome (y >>= f).run s R E ↔
      Outcome y.run s (fun r t => r.elim (R none t) fun a => Outcome (f a).run t R E) E := by
  rw [OptionT.run_bind, Option.elimM, bind]
  refine ⟨fun h => h.mono ?_ fun _ _ h => h, fun h => h.mono ?_ fun _ _ h => h⟩ <;>
    rintro (- | a) t h <;> exact h

end Outcome

/-- A computation whose two outcomes tell a condition from its negation. -/
theorem returns_iff {x : EStateM ε σ α} {s : σ} {P : Prop}
    (h : Outcome x s (fun _ _ => P) fun _ _ => ¬ P) : Returns x s ↔ P := by
  unfold Returns Outcome at *
  cases hx : x s with
  | ok a t => simpa [hx] using h
  | error e t => simpa [hx] using h

end OpBrowser
