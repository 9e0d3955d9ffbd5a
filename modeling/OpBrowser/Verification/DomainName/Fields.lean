import Mathlib.Data.List.Induction
import OpBrowser.Verification.DomainName.Label

/-! # Texts whose fields agree

The cuts at dots lose at most one or two dots behind the first component, and only where
no other component in front of the top-level domain is empty. -/

namespace OpBrowser.DomainName

open Pattern

/-- A non-empty component without a dot. -/
def IsComponent (l : Bytes) : Prop := l ≠ [] ∧ byte '.' ∉ l

/-- Every component behind a dot of its own. -/
def dotted (ls : List Bytes) : Bytes := ls.flatMap (byte '.' :: ·)

@[simp] theorem dotted_nil : dotted [] = [] := rfl

@[simp] theorem dotted_concat (ls : List Bytes) (l : Bytes) :
    dotted (ls ++ [l]) = dotted ls ++ byte '.' :: l := by
  simp [dotted]

theorem dotted_concat_eq_cons (ls : List Bytes) (q : Bytes) :
    ∃ r, dotted (ls ++ [q]) = byte '.' :: r := by
  cases ls with
  | nil => exact ⟨q, by simp [dotted]⟩
  | cons l ls => exact ⟨l ++ dotted (ls ++ [q]), by simp [dotted]⟩

theorem length_le_dotted (ls : List Bytes) : ls.length ≤ (dotted ls).length := by
  induction ls using List.reverseRecOn with
  | nil => simp
  | append_singleton ls l ih =>
      rw [dotted_concat, List.length_append, List.length_append, List.length_singleton,
        List.length_cons]
      omega

/-! ### The levels -/

/-- The text that the last round of the loop finds, and the level it makes of it. -/
def Bottom (x level : Bytes) : Prop :=
  level ≠ [] ∧ (x = level ∧ byte '.' ∉ level ∨ x = level ++ [byte '.'])

theorem findDomain_append {p q : Bytes} (h : (0 : UInt8) ∉ p ++ byte '.' :: q)
    (hq : byte '.' ∉ q) : findDomain (p ++ byte '.' :: q) = (q, p) := by
  rw [findDomain_eq h, splitLast_append rfl, Option.elim_some]
  rintro x y rfl
  simp at hq

theorem peelLevels_bottom {x level : Bytes} (hx : Bottom x level) {ms : List Bytes}
    (hms : ∀ l ∈ ms, IsComponent l) (hnul : (0 : UInt8) ∉ x ++ dotted ms) {fuel : ℕ}
    (hfuel : ms.length < fuel) {tmp : Bytes} (htmp : tmp ≠ []) (levels : List Bytes) :
    peelLevels fuel tmp (x ++ dotted ms) levels = level :: ms ++ levels := by
  obtain ⟨fuel, rfl⟩ := Nat.exists_eq_add_one_of_ne_zero (by omega : fuel ≠ 0)
  induction ms using List.reverseRecOn generalizing fuel tmp levels with
  | nil =>
      rw [dotted_nil, List.append_nil] at hnul ⊢
      obtain ⟨hne, ⟨rfl, hdot⟩ | rfl⟩ := hx
      · rw [peelLevels_succ fuel levels htmp, findDomain_of_no_dot hnul hdot,
          if_pos ⟨rfl, hne⟩]
        rfl
      · rw [peelLevels_succ fuel levels htmp, findDomain_append hnul (by simp),
          if_pos ⟨rfl, hne⟩]
        rfl
  | append_singleton ms l ih =>
      obtain ⟨hne, hdot⟩ := hms l (by simp)
      rw [dotted_concat, ← List.append_assoc] at hnul ⊢
      rw [List.length_append, List.length_singleton] at hfuel
      obtain ⟨fuel, rfl⟩ := Nat.exists_eq_add_one_of_ne_zero (by omega : fuel ≠ 0)
      rw [peelLevels_succ _ levels htmp, findDomain_append hnul hdot, if_neg (by simp [hne]),
        ih (fun m hm => hms m (by simp [hm])) (fun hm => hnul (List.mem_append_left _ hm)) hne
          (l :: levels) fuel (by omega)]
      simp

/-- The components at the end of a text, down to the one that ends the loop. -/
theorem exists_bottom {a : Bytes} (ha : Startable a) :
    ∃ x level ms, Bottom x level ∧ (∀ l ∈ ms, IsComponent l) ∧ a = x ++ dotted ms := by
  induction hn : a.length using Nat.strong_induction_on generalizing a with
  | _ n ih =>
    by_cases hdot : byte '.' ∈ a
    · obtain ⟨p, q, -, rfl, hq⟩ := findDomain_of_dot ha.no_nul hdot
      have hp := ha.of_append
      by_cases hne : q = []
      · subst hne
        exact ⟨p ++ [byte '.'], p, [], ⟨hp.ne_nil, .inr rfl⟩, by simp, by simp⟩
      · have hlt : p.length < n := by
          rw [← hn]
          simp
        obtain ⟨x, level, ms, hx, hms, rfl⟩ := ih p.length hlt hp rfl
        refine ⟨x, level, ms ++ [q], hx, ?_, by simp⟩
        intro l hl
        rcases List.mem_append.mp hl with hl | hl
        · exact hms l hl
        · rw [List.mem_singleton.mp hl]
          exact ⟨hne, hq⟩
    · exact ⟨a, a, [], ⟨ha.ne_nil, .inl ⟨rfl, hdot⟩⟩, by simp, by simp⟩

/-- The levels of a text, as `fromString` collects them. -/
def levelsOf (a : Bytes) : List Bytes := peelLevels (a.length + 2) a a []

theorem levelsOf_bottom {x level : Bytes} (hx : Bottom x level) {ms : List Bytes}
    (hms : ∀ l ∈ ms, IsComponent l) (hnul : (0 : UInt8) ∉ x ++ dotted ms) :
    levelsOf (x ++ dotted ms) = level :: ms := by
  have hne : x ≠ [] := by
    obtain ⟨hne, ⟨rfl, -⟩ | rfl⟩ := hx
    · exact hne
    · simp
  have hfuel : ms.length < (x ++ dotted ms).length + 2 := by
    rw [List.length_append]
    exact lt_of_le_of_lt (length_le_dotted ms) (by omega)
  rw [levelsOf, peelLevels_bottom hx hms hnul hfuel (by simp [hne]), List.append_nil]

theorem levelsOf_bottom_nil {x level : Bytes} (hx : Bottom x level) (hnul : (0 : UInt8) ∉ x) :
    levelsOf x = [level] := by
  have h := levelsOf_bottom hx (List.forall_mem_nil IsComponent) (by simpa using hnul)
  rwa [dotted_nil, List.append_nil] at h

/-- The second text is the first with one more dot behind its first component, and all
components that follow are non-empty. -/
def Gapped (a b : Bytes) : Prop :=
  ∃ p ms, IsComponent p ∧ (∀ l ∈ ms, IsComponent l) ∧
    a = p ++ dotted ms ∧ b = p ++ byte '.' :: dotted ms

theorem levelsOf_eq_iff {a b : Bytes} (ha : Startable a) (hb : Startable b) :
    levelsOf a = levelsOf b ↔ a = b ∨ Gapped a b ∨ Gapped b a := by
  constructor
  · intro h
    obtain ⟨x, level, ms, hx, hms, rfl⟩ := exists_bottom ha
    obtain ⟨y, level', ms', hy, hms', rfl⟩ := exists_bottom hb
    rw [levelsOf_bottom hx hms ha.no_nul, levelsOf_bottom hy hms' hb.no_nul] at h
    obtain ⟨rfl, rfl⟩ := List.cons.inj h
    obtain ⟨hne, ⟨rfl, hdot⟩ | rfl⟩ := hx
    · obtain ⟨-, ⟨rfl, -⟩ | rfl⟩ := hy
      · exact .inl rfl
      · exact .inr (.inl ⟨x, ms, ⟨hne, hdot⟩, hms, rfl, by simp⟩)
    · obtain ⟨-, ⟨rfl, hdot⟩ | rfl⟩ := hy
      · exact .inr (.inr ⟨y, ms, ⟨hne, hdot⟩, hms, rfl, by simp⟩)
      · exact .inl rfl
  · have hgap : ∀ {c d : Bytes}, Startable c → Startable d → Gapped c d →
        levelsOf c = levelsOf d := by
      rintro c d hc hd ⟨p, ms, hp, hms, rfl, rfl⟩
      rw [levelsOf_bottom ⟨hp.1, .inl ⟨rfl, hp.2⟩⟩ hms hc.no_nul]
      have hd := hd.no_nul
      rw [List.append_cons] at hd ⊢
      rw [levelsOf_bottom ⟨hp.1, .inr rfl⟩ hms hd]
    rintro (rfl | h | h)
    · rfl
    · exact hgap ha hb h
    · exact (hgap hb ha h).symm

/-! ### The last component and the levels -/

/-- The two fields made of what is left after the top-level domain. -/
def stemFields (a : Bytes) : Bytes × List Bytes :=
  ((findDomain a).1, levelsOf (findDomain a).2)

theorem stemFields_of_no_dot {a : Bytes} (ha : Startable a) (hdot : byte '.' ∉ a) :
    stemFields a = ([], [a]) := by
  have hbottom : Bottom a a := ⟨ha.ne_nil, .inl ⟨rfl, hdot⟩⟩
  rw [stemFields, findDomain_of_no_dot ha.no_nul hdot, levelsOf_bottom_nil hbottom ha.no_nul]

theorem stemFields_append {p q : Bytes} (h : (0 : UInt8) ∉ p ++ byte '.' :: q)
    (hq : byte '.' ∉ q) : stemFields (p ++ byte '.' :: q) = (q, levelsOf p) := by
  rw [stemFields, findDomain_append h hq]

/-- The second text is the first with one more dot behind its first component, or with one
or two dots behind its only component. -/
def Lengthened (a b : Bytes) : Prop :=
  (∃ c d q, Gapped c d ∧ byte '.' ∉ q ∧ a = c ++ byte '.' :: q ∧ b = d ++ byte '.' :: q) ∨
    byte '.' ∉ a ∧ (b = a ++ [byte '.'] ∨ b = a ++ [byte '.', byte '.'])

def SameStem (a b : Bytes) : Prop := a = b ∨ Lengthened a b ∨ Lengthened b a

theorem SameStem.symm {a b : Bytes} (h : SameStem a b) : SameStem b a := by
  rcases h with rfl | h | h
  · exact .inl rfl
  · exact .inr (.inr h)
  · exact .inr (.inl h)

theorem Lengthened.stemFields_eq {a b : Bytes} (ha : Startable a) (hb : Startable b)
    (h : Lengthened a b) : stemFields a = stemFields b := by
  rcases h with ⟨c, d, q, hgap, hq, rfl, rfl⟩ | ⟨hdot, hlong⟩
  · rw [stemFields_append ha.no_nul hq, stemFields_append hb.no_nul hq,
      (levelsOf_eq_iff ha.of_append hb.of_append).mpr (.inr (.inl hgap))]
  · have hbottom : Bottom a a := ⟨ha.ne_nil, .inl ⟨rfl, hdot⟩⟩
    have hgap : Bottom (a ++ [byte '.']) a := ⟨ha.ne_nil, .inr rfl⟩
    rw [stemFields_of_no_dot ha hdot]
    rcases hlong with rfl | rfl
    · rw [stemFields_append hb.no_nul (by simp), levelsOf_bottom_nil hbottom ha.no_nul]
    · rw [List.append_cons] at hb ⊢
      rw [stemFields_append hb.no_nul (by simp),
        levelsOf_bottom_nil hgap hb.of_append.no_nul]

/-- A text without a dot against one with a dot. -/
theorem lengthened_of_no_dot {a p q : Bytes} (ha : Startable a) (hdot : byte '.' ∉ a)
    (hb : Startable (p ++ byte '.' :: q)) (hq : byte '.' ∉ q)
    (h : stemFields a = stemFields (p ++ byte '.' :: q)) :
    Lengthened a (p ++ byte '.' :: q) := by
  have hbottom : Bottom a a := ⟨ha.ne_nil, .inl ⟨rfl, hdot⟩⟩
  rw [stemFields_of_no_dot ha hdot, stemFields_append hb.no_nul hq,
    ← levelsOf_bottom_nil hbottom ha.no_nul] at h
  obtain ⟨rfl, hlevels⟩ := Prod.mk.inj h
  refine .inr ⟨hdot, ?_⟩
  rcases (levelsOf_eq_iff ha hb.of_append).mp hlevels with rfl | hgap | hgap
  · exact .inl rfl
  · obtain ⟨c, ms, -, -, rfl, rfl⟩ := hgap
    cases ms with
    | nil => exact .inr (by simp)
    | cons l ms => exact absurd (by simp [dotted]) hdot
  · obtain ⟨c, ms, -, -, -, rfl⟩ := hgap
    exact absurd (by simp) hdot

theorem stemFields_eq_iff {a b : Bytes} (ha : Startable a) (hb : Startable b) :
    stemFields a = stemFields b ↔ SameStem a b := by
  constructor
  · intro h
    by_cases hadot : byte '.' ∈ a
    · obtain ⟨p, q, -, rfl, hq⟩ := findDomain_of_dot ha.no_nul hadot
      by_cases hbdot : byte '.' ∈ b
      · obtain ⟨p', q', -, rfl, hq'⟩ := findDomain_of_dot hb.no_nul hbdot
        rw [stemFields_append ha.no_nul hq, stemFields_append hb.no_nul hq'] at h
        obtain ⟨rfl, hlevels⟩ := Prod.mk.inj h
        rcases (levelsOf_eq_iff ha.of_append hb.of_append).mp hlevels with rfl | hgap | hgap
        · exact .inl rfl
        · exact .inr (.inl (.inl ⟨p, p', q, hgap, hq, rfl, rfl⟩))
        · exact .inr (.inr (.inl ⟨p', p, q, hgap, hq, rfl, rfl⟩))
      · exact .inr (.inr (lengthened_of_no_dot hb hbdot ha hq h.symm))
    · by_cases hbdot : byte '.' ∈ b
      · obtain ⟨p, q, -, rfl, hq⟩ := findDomain_of_dot hb.no_nul hbdot
        exact .inr (.inl (lengthened_of_no_dot ha hadot hb hq h))
      · rw [stemFields_of_no_dot ha hadot, stemFields_of_no_dot hb hbdot] at h
        exact .inl (List.singleton_inj.mp (Prod.mk.inj h).2)
  · rintro (rfl | h | h)
    · rfl
    · exact h.stemFields_eq ha hb
    · exact (h.stemFields_eq hb ha).symm

/-! ### All fields -/

/-- Two to four characters after which no later dot cuts. -/
def IsTld (w : Bytes) : Prop :=
  tldLength w = true ∧ ∀ x y, w = x ++ byte '.' :: y → tldLength y = false

/-- No dot stands in front of two to four characters at the end. -/
def NoTld (a : Bytes) : Prop := ∀ x y, a = x ++ byte '.' :: y → tldLength y = false

/-- The same top-level domain or none, behind stems that differ at most by dots behind the
first component. -/
def Twins (a b : Bytes) : Prop :=
  (NoTld a ∧ NoTld b ∧ SameStem a b) ∨
    ∃ c d w, IsTld w ∧ a = c ++ byte '.' :: w ∧ b = d ++ byte '.' :: w ∧ SameStem c d

/-- The three fields that `operator==` compares besides the protocol. -/
def fields (a : Bytes) : Bytes × Bytes × List Bytes :=
  ((findTLD a).1, stemFields (findTLD a).2)

theorem fields_ofUrl (url : Bytes) :
    ((ofUrl url).tld, (ofUrl url).sld, (ofUrl url).levels) =
      fields (findPath (findProtocol (url.map toLower)).2).2 := by
  simp only [ofUrl, fromString, fields, stemFields, levelsOf]

theorem IsTld.ne_nil {w : Bytes} (h : IsTld w) : w ≠ [] := by
  rintro rfl
  exact absurd h.1 (by decide)

theorem fields_of_noTld {a : Bytes} (ha : (0 : UInt8) ∉ a) (h : NoTld a) :
    fields a = ([], stemFields a) := by
  rw [fields, findTLD_eq ha, splitLast_eq_none.mpr h, Option.elim_none]

theorem fields_append {c w : Bytes} (h : (0 : UInt8) ∉ c ++ byte '.' :: w) (hw : IsTld w) :
    fields (c ++ byte '.' :: w) = (w, stemFields c) := by
  rw [fields, findTLD_eq h, splitLast_append hw.1 hw.2, Option.elim_some]

theorem noTld_or_isTld (a : Bytes) :
    NoTld a ∨ ∃ c w, IsTld w ∧ a = c ++ byte '.' :: w := by
  cases hs : splitLast (byte '.') tldLength a with
  | none => exact .inl (splitLast_eq_none.mp hs)
  | some m =>
      obtain ⟨he, hw⟩ := splitLast_eq_some (hs : _ = some (m.1, m.2))
      exact .inr ⟨m.1, m.2, ⟨hw, splitLast_eq_none.mp (splitLast_suffix hs)⟩, he⟩

theorem fields_eq_iff {a b : Bytes} (ha : Startable a) (hb : Startable b) :
    fields a = fields b ↔ Twins a b := by
  constructor
  · intro h
    rcases noTld_or_isTld a with hna | ⟨c, w, hw, rfl⟩
    · rcases noTld_or_isTld b with hnb | ⟨d, v, hv, rfl⟩
      · rw [fields_of_noTld ha.no_nul hna, fields_of_noTld hb.no_nul hnb] at h
        exact .inl ⟨hna, hnb, (stemFields_eq_iff ha hb).mp (Prod.mk.inj h).2⟩
      · rw [fields_of_noTld ha.no_nul hna, fields_append hb.no_nul hv] at h
        exact absurd (Prod.mk.inj h).1.symm hv.ne_nil
    · rcases noTld_or_isTld b with hnb | ⟨d, v, hv, rfl⟩
      · rw [fields_append ha.no_nul hw, fields_of_noTld hb.no_nul hnb] at h
        exact absurd (Prod.mk.inj h).1 hw.ne_nil
      · rw [fields_append ha.no_nul hw, fields_append hb.no_nul hv] at h
        obtain ⟨rfl, hstem⟩ := Prod.mk.inj h
        exact .inr ⟨c, d, w, hw, rfl, rfl, (stemFields_eq_iff ha.of_append hb.of_append).mp hstem⟩
  · rintro (⟨hna, hnb, hstem⟩ | ⟨c, d, w, hw, rfl, rfl, hstem⟩)
    · rw [fields_of_noTld ha.no_nul hna, fields_of_noTld hb.no_nul hnb,
        (stemFields_eq_iff ha hb).mpr hstem]
    · rw [fields_append ha.no_nul hw, fields_append hb.no_nul hw,
        (stemFields_eq_iff ha.of_append hb.of_append).mpr hstem]

/-! ### Texts with a second component -/

/-- The second component is not empty. -/
def TwoComponents (a : Bytes) : Prop :=
  ∃ l c r, byte '.' ∉ l ∧ c ≠ byte '.' ∧ a = l ++ byte '.' :: c :: r

theorem TwoComponents.no_gap {p s : Bytes} (h : TwoComponents (p ++ byte '.' :: byte '.' :: s)) :
    byte '.' ∈ p := by
  obtain ⟨l, c, r, hl, hc, he⟩ := h
  by_contra hp
  have hfirst := splitFirst_append (p := fun _ => true) hp (by simp) (byte '.' :: s)
  rw [he, splitFirst_append hl (by simp)] at hfirst
  exact hc (List.cons.inj (Prod.mk.inj (Option.some.inj hfirst)).2).1

theorem Lengthened.gap {a b : Bytes} (h : Lengthened a b) :
    (∃ p s, byte '.' ∉ p ∧ b = p ++ byte '.' :: byte '.' :: s) ∨
      byte '.' ∉ a ∧ b = a ++ [byte '.'] := by
  rcases h with ⟨c, d, q, ⟨p, ms, hp, -, -, rfl⟩, -, -, rfl⟩ | ⟨hdot, rfl | rfl⟩
  · obtain ⟨r, hr⟩ := dotted_concat_eq_cons ms q
    refine .inl ⟨p, r, hp.2, ?_⟩
    rw [← hr, dotted_concat, List.append_assoc, List.cons_append]
  · exact .inr ⟨hdot, rfl⟩
  · exact .inl ⟨a, [], hdot, rfl⟩

/-- A text that was lengthened has an empty second component, or none at all was there. -/
theorem Lengthened.not_twoComponents {a b e : Bytes} (h : Lengthened a b)
    (he : e = [] ∨ ∃ w, e = byte '.' :: w) (ha : TwoComponents (a ++ e)) :
    ¬ TwoComponents (b ++ e) := by
  intro hb
  rcases h.gap with ⟨p, s, hp, rfl⟩ | ⟨hdot, rfl⟩
  · rw [List.append_assoc] at hb
    exact hp hb.no_gap
  · rcases he with rfl | ⟨w, rfl⟩
    · obtain ⟨l, c, r, -, -, ha⟩ := ha
      rw [List.append_nil] at ha
      exact hdot (by rw [ha]; simp)
    · rw [List.append_assoc, List.singleton_append] at hb
      exact hdot hb.no_gap

theorem SameStem.eq {a b e : Bytes} (h : SameStem a b) (he : e = [] ∨ ∃ w, e = byte '.' :: w)
    (ha : TwoComponents (a ++ e)) (hb : TwoComponents (b ++ e)) : a = b := by
  rcases h with rfl | h | h
  · rfl
  · exact absurd hb (h.not_twoComponents he ha)
  · exact absurd ha (h.not_twoComponents he hb)

/-- Behind two non-empty components nothing is lost. -/
theorem Twins.eq {a b : Bytes} (h : Twins a b) (ha : TwoComponents a) (hb : TwoComponents b) :
    a = b := by
  rcases h with ⟨-, -, hstem⟩ | ⟨c, d, w, -, rfl, rfl, hstem⟩
  · exact hstem.eq (e := []) (.inl rfl) (by simpa using ha) (by simpa using hb)
  · rw [hstem.eq (.inr ⟨w, rfl⟩) ha hb]

end OpBrowser.DomainName
