import Mathlib.Data.Set.Insert
import OpBrowser.Model.DomainName

/-! # Same origin as an equivalence

The condition of `sameOrigin` assigns to a port where it should compare two. -/

namespace OpBrowser.DomainName

variable {a b c : DomainName} {S : Set DomainName}

/-- The components of a label that make up its origin. -/
def components (a : DomainName) : Bytes × Bytes × Bytes × List Bytes × ℤ :=
  (a.protocol, a.tld, a.sld, a.levels, a.port)

/-- Among these labels, same origin is an equivalence that respects every component. -/
structure OriginEquivalence (S : Set DomainName) : Prop where
  refl : ∀ a ∈ S, sameOrigin a a
  symm : ∀ a ∈ S, ∀ b ∈ S, sameOrigin a b → sameOrigin b a
  trans : ∀ a ∈ S, ∀ b ∈ S, ∀ c ∈ S, sameOrigin a b → sameOrigin b c → sameOrigin a c
  respects : ∀ a ∈ S, ∀ b ∈ S, sameOrigin a b → a.components = b.components

theorem sameOrigin_trans (h : sameOrigin a b) (h' : sameOrigin b c) : sameOrigin a c :=
  ⟨h'.1, equals_trans h.2 h'.2⟩

theorem components_eq (h : equals a b) (hport : a.port = b.port) :
    a.components = b.components := by
  obtain ⟨hprotocol, htld, hsld, -, hlevels⟩ := h
  rw [components, components, hprotocol, htld, hsld, hlevels, hport]

theorem originEquivalence_of (hport : ∀ a ∈ S, a.port ≠ 0)
    (hsame : ∀ a ∈ S, ∀ b ∈ S, equals a b → a.port = b.port) : OriginEquivalence S where
  refl a ha := ⟨hport a ha, equals_refl a⟩
  symm a ha _ _ h := ⟨hport a ha, equals_symm h.2⟩
  trans _ _ _ _ _ _ h h' := sameOrigin_trans h h'
  respects a ha b hb h := components_eq h.2 (hsame a ha b hb h.2)

/-- **Same origin as an equivalence.** It is one exactly if no port is 0 and the labels that
`operator==` identifies have one port. -/
theorem originEquivalence_iff (S : Set DomainName) :
    OriginEquivalence S ↔
      (∀ a ∈ S, a.port ≠ 0) ∧ ∀ a ∈ S, ∀ b ∈ S, equals a b → a.port = b.port := by
  constructor
  · intro h
    have hport : ∀ a ∈ S, a.port ≠ 0 := fun a ha => (h.refl a ha).1
    refine ⟨hport, fun a ha b hb heq => ?_⟩
    have hcomponents := h.respects a ha b hb ⟨hport b hb, heq⟩
    exact congrArg (fun t => t.2.2.2.2) hcomponents
  · rintro ⟨hport, hsame⟩
    exact originEquivalence_of hport hsame

/-- The labels of URLs all have the port of the constructor. -/
theorem originEquivalence_ofUrl : OriginEquivalence (Set.range ofUrl) := by
  have hport : ∀ url, (ofUrl url).port = 80 := fun _ => rfl
  refine originEquivalence_of ?_ ?_
  · rintro a ⟨url, rfl⟩
    rw [hport]
    decide
  · rintro a ⟨url, rfl⟩ b ⟨url', rfl⟩ -
    rw [hport, hport]

/-- A label without a port is not of its own origin, but a label with one is of its origin. -/
theorem port_zero_not_equivalence :
    sameOrigin { port := 0 } {} ∧ ¬ sameOrigin {} { port := 0 } ∧
      ¬ OriginEquivalence {{}, { port := 0 }} := by
  refine ⟨by decide, by decide, fun h => ?_⟩
  exact absurd (h.refl { port := 0 } (by simp)) (by decide)

end OpBrowser.DomainName
