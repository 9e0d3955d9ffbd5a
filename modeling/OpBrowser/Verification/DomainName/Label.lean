import OpBrowser.Verification.DomainName.Equations

/-! # What a label keeps of the text it was peeled from

The cuts drop dots, and only dots that stand before another dot or at the end.
Joining the fields of a label therefore gives back the text up to such dots. -/

namespace OpBrowser.DomainName

/-! ### Leaving out redundant dots -/

/-- A dot in front of this text is redundant. -/
def DotOrEnd (s : Bytes) : Prop := s = [] ∨ ∃ r, s = byte '.' :: r

/-- The second text is the first with some redundant dots left out. -/
inductive Squeezes : Bytes → Bytes → Prop where
  | nil : Squeezes [] []
  | keep (c) {s t} : Squeezes s t → Squeezes (c :: s) (c :: t)
  | drop {s t} : DotOrEnd s → Squeezes s t → Squeezes (byte '.' :: s) t

namespace Squeezes

theorem refl (s : Bytes) : Squeezes s s := by
  induction s with
  | nil => exact .nil
  | cons c s ih => exact .keep c ih

/-- A dot and more text can follow on both sides. -/
theorem append_dot {s t : Bytes} (h : Squeezes s t) (u : Bytes) :
    Squeezes (s ++ byte '.' :: u) (t ++ byte '.' :: u) := by
  induction h with
  | nil => exact .refl _
  | keep c _ ih => exact .keep c ih
  | drop hd _ ih =>
      refine .drop ?_ ih
      rcases hd with rfl | ⟨r, rfl⟩
      · exact .inr ⟨u, rfl⟩
      · exact .inr ⟨r ++ byte '.' :: u, rfl⟩

/-- A trailing dot can be left out. -/
theorem trailing_dot {s t : Bytes} (h : Squeezes s t) : Squeezes (s ++ [byte '.']) t := by
  induction h with
  | nil => exact .drop (.inl rfl) .nil
  | keep c _ ih => exact .keep c ih
  | drop hd _ ih =>
      refine .drop ?_ ih
      rcases hd with rfl | ⟨r, rfl⟩
      · exact .inr ⟨[], rfl⟩
      · exact .inr ⟨r ++ [byte '.'], rfl⟩

/-- Text without a dot at the front starts the same way on the other side. -/
theorem head_eq {c : UInt8} {s t : Bytes} (h : Squeezes (c :: s) t) (hc : c ≠ byte '.') :
    ∃ t', t = c :: t' ∧ Squeezes s t' := by
  cases h with
  | keep _ hs => exact ⟨_, rfl, hs⟩
  | drop _ _ => exact absurd rfl hc

end Squeezes

/-- No dot of this text is redundant, whatever follows the text. -/
def Tight : Bytes → Prop
  | [] => True
  | c :: s => (c = byte '.' → ∃ d r, s = d :: r ∧ d ≠ byte '.') ∧ Tight s

/-- A tight front part survives unchanged. -/
theorem Squeezes.tight_append {u rest t : Bytes} (hu : Tight u)
    (h : Squeezes (u ++ rest) t) : ∃ t', t = u ++ t' ∧ Squeezes rest t' := by
  induction u generalizing t with
  | nil => exact ⟨t, rfl, h⟩
  | cons c u ih =>
      rw [List.cons_append] at h
      cases h with
      | keep _ hs =>
          obtain ⟨t', rfl, ht⟩ := ih hu.2 hs
          exact ⟨t', rfl, ht⟩
      | drop hd _ =>
          obtain ⟨d, r, rfl, hne⟩ := hu.1 rfl
          rcases hd with hd | ⟨r', hd⟩
          · cases hd
          · exact absurd (List.cons.inj hd).1 hne

/-! ### Joining labels with dots -/

/-- Labels joined by single dots. -/
def joinDots : List Bytes → Bytes
  | [] => []
  | [l] => l
  | l :: ls => l ++ byte '.' :: joinDots ls

@[simp] theorem joinDots_nil : joinDots [] = [] := rfl

@[simp] theorem joinDots_singleton (l : Bytes) : joinDots [l] = l := rfl

theorem joinDots_cons (l : Bytes) {ls : List Bytes} (h : ls ≠ []) :
    joinDots (l :: ls) = l ++ byte '.' :: joinDots ls := by
  cases ls with
  | nil => exact absurd rfl h
  | cons m ls => rfl

theorem joinDots_concat {ls : List Bytes} (h : ls ≠ []) (l : Bytes) :
    joinDots (ls ++ [l]) = joinDots ls ++ byte '.' :: l := by
  induction ls with
  | nil => exact absurd rfl h
  | cons m ls ih =>
      cases ls with
      | nil => rfl
      | cons n ls =>
          rw [List.cons_append, joinDots_cons m (by simp), ih (by simp), joinDots_cons m (by simp)]
          simp

/-! ### The text of a label -/

/-- The fields of a label joined in the order of the text they come from. -/
def text (l : DomainName) : Bytes :=
  let withSld := if l.sld = [] then l.levels else l.levels ++ [l.sld]
  joinDots (if l.tld = [] then withSld else withSld ++ [l.tld])

/-- Text that some label can start with: no NUL byte and no dot at the front. -/
structure Startable (a : Bytes) : Prop where
  no_nul : (0 : UInt8) ∉ a
  head : ∃ c r, a = c :: r ∧ c ≠ byte '.'

theorem Startable.ne_nil {a : Bytes} (h : Startable a) : a ≠ [] := by
  obtain ⟨c, r, rfl, -⟩ := h.head
  simp

/-- The text before a cut starts like the whole. -/
theorem Startable.of_append {u v : Bytes} (h : Startable (u ++ byte '.' :: v)) : Startable u := by
  obtain ⟨c, r, he, hc⟩ := h.head
  cases u with
  | nil => exact absurd (List.cons.inj he).1.symm hc
  | cons d u =>
      refine ⟨fun hm => h.no_nul (List.mem_append_left _ hm), d, u, rfl, ?_⟩
      rwa [(List.cons.inj he).1]

/-- With enough rounds the peeled levels join to the text, and there is at least one. -/
theorem peelLevels_squeezes {fuel : ℕ} {tmp a : Bytes} (hfuel : a.length + 2 ≤ fuel)
    (htmp : tmp ≠ []) (ha : Startable a) (levels : List Bytes) :
    ∃ peeled, peelLevels fuel tmp a levels = peeled ++ levels ∧ peeled ≠ [] ∧
      Squeezes a (joinDots peeled) := by
  induction fuel generalizing tmp a levels with
  | zero => omega
  | succ fuel ih =>
      rw [peelLevels_succ fuel levels htmp]
      by_cases hdot : byte '.' ∈ a
      · obtain ⟨u, v, hcut, rfl, -⟩ := findDomain_of_dot ha.no_nul hdot
        have hu := ha.of_append
        rw [hcut]
        by_cases hv : v = []
        · -- an empty component ends the loop and its dot is lost
          subst hv
          rw [if_pos ⟨rfl, hu.ne_nil⟩]
          exact ⟨[u], rfl, by simp, (Squeezes.refl u).trailing_dot⟩
        · rw [if_neg (by simp [hv])]
          have hlen : u.length + 2 ≤ fuel := by
            simp only [List.length_append, List.length_cons] at hfuel
            omega
          obtain ⟨peeled, he, hne, hs⟩ := ih hlen hv hu (v :: levels)
          refine ⟨peeled ++ [v], by simp [he], by simp, ?_⟩
          rw [joinDots_concat hne]
          exact hs.append_dot v
      · rw [findDomain_of_no_dot ha.no_nul hdot, if_pos ⟨rfl, ha.ne_nil⟩]
        exact ⟨[a], rfl, by simp, .refl a⟩

/-- The last component and the levels below it. -/
theorem findDomain_squeezes {a : Bytes} (ha : Startable a) :
    let d := findDomain a
    let levels := peelLevels (d.2.length + 2) d.2 d.2 []
    levels ≠ [] ∧ Squeezes a (joinDots (if d.1 = [] then levels else levels ++ [d.1])) := by
  by_cases hdot : byte '.' ∈ a
  · obtain ⟨u, v, hcut, rfl, -⟩ := findDomain_of_dot ha.no_nul hdot
    have hu := ha.of_append
    obtain ⟨peeled, he, hne, hs⟩ := peelLevels_squeezes le_rfl hu.ne_nil hu []
    simp only [hcut, he, List.append_nil]
    refine ⟨hne, ?_⟩
    split
    · rename_i hv
      subst hv
      exact hs.trailing_dot
    · rw [joinDots_concat hne]
      exact hs.append_dot v
  · obtain ⟨peeled, he, hne, hs⟩ := peelLevels_squeezes le_rfl ha.ne_nil ha []
    simp only [findDomain_of_no_dot ha.no_nul hdot, he, List.append_nil, if_true]
    exact ⟨hne, hs⟩

/-- Joining the fields of a label gives back what was left after the protocol and
the path, up to redundant dots. -/
theorem text_fromString {url a : Bytes}
    (ha : (findPath (findProtocol (url.map toLower)).2).2 = a) (hs : Startable a) :
    Squeezes a (text (ofUrl url)) := by
  subst ha
  rcases findTLD_cases hs.no_nul with h | ⟨u, v, h, he, hv⟩
  · simpa only [text, ofUrl, fromString, h, if_true] using (findDomain_squeezes hs).2
  · rw [he] at hs ⊢
    obtain ⟨hne, hsq⟩ := findDomain_squeezes hs.of_append
    simp only [text, ofUrl, fromString, h, hv, if_false]
    rw [joinDots_concat]
    · exact hsq.append_dot v
    · split
      · exact hne
      · simp

/-- Labels that `operator==` identifies have the same text. -/
theorem text_eq_of_equals {a b : DomainName} (h : equals a b) : text a = text b := by
  obtain ⟨-, htld, hsld, -, hlevels⟩ := h
  simp only [text, htld, hsld, hlevels]

end OpBrowser.DomainName
