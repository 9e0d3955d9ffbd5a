import OpBrowser.Model.DomainName

/-! Computation rules for the label parser on strings without NUL bytes. -/

namespace OpBrowser.DomainName

open Pattern

/-! ### One pattern at a time -/

theorem findProtocol_eq {a : Bytes} (ha : (0 : UInt8) ∉ a) :
    findProtocol a =
      if bytes "http://" <+: a then (bytes "http://", a.drop 7)
      else if bytes "https://" <+: a then (bytes "https://", a.drop 8) else ([], a) := by
  rw [findProtocol, regexMatch, cStr_of_no_nul ha, protocolPattern, fullMatch_words]
  by_cases h : bytes "http://" <+: a
  · simp only [h, if_true, Option.elim_some]
    rfl
  · by_cases h' : bytes "https://" <+: a
    · simp only [h, h', if_true, if_false, Option.elim_some]
      rfl
    · simp only [h, h', if_false, Option.elim_none]

theorem findPath_eq {a : Bytes} (ha : (0 : UInt8) ∉ a) :
    findPath a = (splitFirst isHostChar (byte '/') a).elim ([], a) fun m => (m.2, m.1) := by
  rw [findPath, cutSecond, regexMatch, cStr_of_no_nul ha, pathPattern,
    fullMatch_class (by decide)]
  cases splitFirst isHostChar (byte '/') a <;> rfl

/-- The text after the dot has two to four characters, whatever they are. -/
def tldLength (v : Bytes) : Bool := decide (2 ≤ v.length ∧ v.length ≤ 4)

theorem findTLD_eq {a : Bytes} (ha : (0 : UInt8) ∉ a) :
    findTLD a = (splitLast (byte '.') tldLength a).elim ([], a) fun m => (m.2, m.1) := by
  have hok : (fun v : Bytes => decide ([] ∈ greedyUpTo (fun _ => true) 2 4 v)) = tldLength := by
    funext v
    simp only [tldLength, greedyUpTo_nil_mem]
  have hparses : ∀ v : Bytes, (Pattern.between (fun _ => true) 2 4).parses v =
      (greedyUpTo (fun _ => true) 2 4 v).map fun r => ([], r) := fun _ => rfl
  rw [findTLD, cutSecond, regexMatch, cStr_of_no_nul ha, tldPattern,
    fullMatch_splitAt hparses, hok]
  cases splitLast (byte '.') tldLength a <;> rfl

theorem findDomain_eq {a : Bytes} (ha : (0 : UInt8) ∉ a) :
    findDomain a =
      (splitLast (byte '.') (fun _ => true) a).elim ([], a) fun m => (m.2, m.1) := by
  have hok : (fun v : Bytes => decide ([] ∈ greedy (fun _ => true) v)) = fun _ => true := by
    funext v
    simp [exists_greedy_nil]
  rw [findDomain, cutSecond, regexMatch, cStr_of_no_nul ha, domainPattern,
    fullMatch_splitAt any_parses, hok]
  cases splitLast (byte '.') (fun _ => true) a <;> rfl

/-! ### The two results of a cut at a dot -/

theorem findDomain_of_no_dot {a : Bytes} (ha : (0 : UInt8) ∉ a) (h : byte '.' ∉ a) :
    findDomain a = ([], a) := by
  rw [findDomain_eq ha, splitLast_any_eq_none.mpr h, Option.elim_none]

theorem findDomain_of_dot {a : Bytes} (ha : (0 : UInt8) ∉ a) (h : byte '.' ∈ a) :
    ∃ u v, findDomain a = (v, u) ∧ a = u ++ byte '.' :: v ∧ byte '.' ∉ v := by
  cases hs : splitLast (byte '.') (fun _ => true) a with
  | none => exact absurd h (splitLast_any_eq_none.mp hs)
  | some m =>
      refine ⟨m.1, m.2, ?_, (splitLast_eq_some hs).1, splitLast_any_suffix hs⟩
      rw [findDomain_eq ha, hs, Option.elim_some]

theorem findTLD_cases {a : Bytes} (ha : (0 : UInt8) ∉ a) :
    findTLD a = ([], a) ∨
      ∃ u v, findTLD a = (v, u) ∧ a = u ++ byte '.' :: v ∧ v ≠ [] := by
  cases hs : splitLast (byte '.') tldLength a with
  | none =>
      left
      rw [findTLD_eq ha, hs, Option.elim_none]
  | some m =>
      right
      obtain ⟨he, hv⟩ := splitLast_eq_some hs
      refine ⟨m.1, m.2, by rw [findTLD_eq ha, hs, Option.elim_some], he, ?_⟩
      rintro hnil
      simp [tldLength, hnil] at hv

/-! ### The loop -/

@[simp] theorem peelLevels_done (fuel : ℕ) (a : Bytes) (levels : List Bytes) :
    peelLevels fuel [] a levels = levels := by
  cases fuel <;> simp [peelLevels]

theorem peelLevels_succ (fuel : ℕ) {tmp a : Bytes} (levels : List Bytes) (h : tmp ≠ []) :
    peelLevels (fuel + 1) tmp a levels =
      if (findDomain a).1 = [] ∧ (findDomain a).2 ≠ [] then (findDomain a).2 :: levels
      else peelLevels fuel (findDomain a).1 (findDomain a).2 ((findDomain a).1 :: levels) := by
  have htmp : tmp.isEmpty = false := by simpa using h
  simp only [peelLevels, htmp, Bool.false_eq_true, if_false]
  by_cases he : (findDomain a).1 = []
  · by_cases hn : (findDomain a).2 = []
    · simp [he, hn]
    · simp [he, hn]
  · have : (findDomain a).1.isEmpty = false := by simpa using he
    simp [he]

end OpBrowser.DomainName
