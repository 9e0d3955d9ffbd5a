import Mathlib.Data.List.Basic
import Mathlib.Data.List.Infix
import Mathlib.Tactic.Common

/-! # Marker words in texts

A marker begins with a character that does not occur in it again. Two markers that begin
with the same character therefore never overlap in a text, and where texts are put
together at most one new marker stands across each seam. -/

namespace OpBrowser

/-- A word that begins with `m` and has no other `m`. -/
def IsMarker {α : Type*} (m : α) (w : List α) : Prop := ∃ v, w = m :: v ∧ m ∉ v

namespace IsMarker

variable {α : Type*} {m : α} {w : List α}

theorem ne_nil (hw : IsMarker m w) : w ≠ [] := by
  obtain ⟨v, rfl, -⟩ := hw
  simp

theorem false_of_append {u v : List α} (hw : IsMarker m (u ++ v)) (hu : u ≠ [])
    (hv : v.head? = some m) : False := by
  obtain ⟨t, hcut, ht⟩ := hw
  cases u with
  | nil => exact hu rfl
  | cons c u =>
      rw [List.cons_append, List.cons.injEq] at hcut
      rw [← hcut.2, List.mem_append, not_or] at ht
      exact ht.2 (List.mem_of_mem_head? hv)

/-- No marker stands across a seam behind which the text begins with `m`. -/
theorem infix_append_iff (hw : IsMarker m w) {x z : List α} (hz : z.head? = some m) :
    w <:+: x ++ z ↔ w <:+: x ∨ w <:+: z := by
  rw [List.infix_append_iff_ne_nil]
  constructor
  · intro h
    rcases h with hx | hz' | ⟨u, v, hu, hv, rfl, -, hvz⟩
    · exact Or.inl hx
    · exact Or.inr hz'
    · have hhead : v.head? = some m := by
        rw [← hz]
        cases v with
        | nil => exact absurd rfl hv
        | cons c v =>
            obtain ⟨r, rfl⟩ := hvz
            rfl
      exact (hw.false_of_append hu hhead).elim
  · intro h
    rcases h with hx | hz'
    · exact Or.inl hx
    · exact Or.inr (Or.inl hz')

theorem head? (hw : IsMarker m w) (z : List α) : (w ++ z).head? = some m := by
  obtain ⟨v, rfl, -⟩ := hw
  rfl

/-- A text without `m` in front makes up no marker. -/
theorem infix_append_iff_of_notMem (hw : IsMarker m w) {v y : List α} (hv : m ∉ v) :
    w <:+: v ++ y ↔ w <:+: y := by
  induction v with
  | nil => rfl
  | cons c v ih =>
      rw [List.mem_cons, not_or] at hv
      have hne : ¬ w <+: c :: (v ++ y) := by
        obtain ⟨u, rfl, -⟩ := hw
        intro hpre
        exact hv.1 (List.cons_prefix_cons.mp hpre).1
      rw [List.cons_append, List.infix_cons_iff, ih hv.2]
      simp [hne]

/-- Behind another marker. -/
theorem infix_marker_append_iff (hw : IsMarker m w) {w' y : List α} (hw' : IsMarker m w')
    (h : ¬ w <+: w') (h' : ¬ w' <+: w) : w <:+: w' ++ y ↔ w <:+: y := by
  have hne : ¬ w <+: w' ++ y := by
    intro hpre
    rcases List.prefix_or_prefix_of_prefix hpre (List.prefix_append w' y) with hle | hle
    · exact h hle
    · exact h' hle
  obtain ⟨v, rfl, hv⟩ := hw'
  rw [List.cons_append] at hne ⊢
  rw [List.infix_cons_iff, hw.infix_append_iff_of_notMem hv]
  simp [hne]

/-- A marker ends before the next `m`. -/
theorem eq_append_of_lt (hw : IsMarker m w) {x y s t : List α} (ht : t.head? = some m)
    (h : x ++ w ++ s = y ++ t) (hlt : x.length < y.length) :
    ∃ v, y = x ++ w ++ v ∧ s = v ++ t := by
  rw [List.append_assoc] at h
  rcases List.append_eq_append_iff.mp h with ⟨u, rfl, hu⟩ | ⟨u, rfl, -⟩
  · rcases List.append_eq_append_iff.mp hu with ⟨v, rfl, hs⟩ | ⟨v, rfl, hv⟩
    · exact ⟨v, by simp, hs⟩
    · have hne : u ≠ [] := by
        intro hnil
        simp [hnil] at hlt
      cases v with
      | nil => exact ⟨[], by simp, by simpa using hv.symm⟩
      | cons c v =>
          rw [hv] at ht
          exact (hw.false_of_append hne ht).elim
  · rw [List.length_append] at hlt
    omega

/-! ### First occurrences -/

/-- A marker in a text has a first occurrence. -/
theorem exists_first (hw : IsMarker m w) {t : List α} (h : w <:+: t) :
    ∃ x z, t = x ++ w ++ z ∧ ¬ w <:+: x := by
  induction t with
  | nil => exact absurd (List.infix_nil.mp h) hw.ne_nil
  | cons c t ih =>
      by_cases hhere : w <+: c :: t
      · obtain ⟨z, hz⟩ := hhere
        exact ⟨[], z, by simp [hz], by simpa using hw.ne_nil⟩
      · have hin := (List.infix_cons_iff.mp h).resolve_left hhere
        obtain ⟨x, z, rfl, hx⟩ := ih hin
        refine ⟨c :: x, z, rfl, ?_⟩
        rw [List.infix_cons_iff, not_or]
        exact ⟨fun hpre => hhere (hpre.trans ⟨w ++ z, by simp⟩), hx⟩

variable [BEq α] [LawfulBEq α]

/-- A marker that is found is the first one of the text. -/
theorem dropInfix?_eq_some_iff (hw : IsMarker m w) {t x z : List α} :
    t.dropInfix? w = some (x, z) ↔ t = x ++ w ++ z ∧ ¬ w <:+: x := by
  rw [List.dropInfix?_eq_some_iff]
  constructor
  · intro h
    obtain ⟨⟨w', ht, hw'⟩, hfirst⟩ := h
    rw [beq_iff_eq] at hw'
    subst w'
    refine ⟨ht, ?_⟩
    intro hin
    obtain ⟨p, s, hx⟩ := hin
    have hle := hfirst p w (s ++ w ++ z) (by simp [ht, ← hx]) (by simp)
    have hlen : p.length + w.length + s.length = x.length := by simp [← hx, Nat.add_assoc]
    have hpos := List.length_pos_iff.mpr hw.ne_nil
    omega
  · intro h
    obtain ⟨ht, hfirst⟩ := h
    refine ⟨⟨w, ht, by simp⟩, ?_⟩
    intro p w' s hp hw'
    rw [beq_iff_eq] at hw'
    subst w'
    by_contra hlt
    rw [ht, List.append_assoc x] at hp
    obtain ⟨v, rfl, -⟩ := hw.eq_append_of_lt (hw.head? z) hp.symm (by omega)
    exact hfirst (List.infix_append p w v)

theorem dropInfix?_eq_none_iff (hw : IsMarker m w) {t : List α} :
    t.dropInfix? w = none ↔ ¬ w <:+: t := by
  constructor
  · intro h hin
    obtain ⟨x, z, hfirst⟩ := hw.exists_first hin
    rw [hw.dropInfix?_eq_some_iff.mpr hfirst] at h
    simp at h
  · intro h
    cases hfind : t.dropInfix? w with
    | none => rfl
    | some cut =>
        obtain ⟨rfl, -⟩ := hw.dropInfix?_eq_some_iff.mp hfind
        exact absurd (List.infix_append cut.1 w cut.2) h

end IsMarker

/-! ### Counting -/

section Count

variable {α : Type*} [DecidableEq α] {m : α} {ws : List (List α)}

/-- The places of a text at which one of the words begins. -/
def marks (ws : List (List α)) : List α → ℕ
  | [] => 0
  | c :: t => (if ∃ w ∈ ws, w <+: c :: t then 1 else 0) + marks ws t

theorem marks_eq_zero {t : List α} (h : ∀ w ∈ ws, ¬ w <:+: t) : marks ws t = 0 := by
  induction t with
  | nil => rfl
  | cons c t ih =>
      have hnone : ¬ ∃ w ∈ ws, w <+: c :: t := by
        intro hex
        obtain ⟨w, hw, hpre⟩ := hex
        exact h w hw hpre.isInfix
      have ht : ∀ w ∈ ws, ¬ w <:+: t := by
        intro w hw hin
        exact h w hw (hin.trans (List.infix_cons (List.infix_refl t)))
      simp [marks, hnone, ih ht]

theorem marks_le_append (ws : List (List α)) (s t : List α) : marks ws t ≤ marks ws (s ++ t) := by
  induction s with
  | nil => simp
  | cons c s ih =>
      simp only [List.cons_append, marks]
      omega

theorem marks_marker_append {w : List α} (hmem : w ∈ ws) (hne : w ≠ []) (z : List α) :
    1 + marks ws z ≤ marks ws (w ++ z) := by
  cases w with
  | nil => exact absurd rfl hne
  | cons c v =>
      have hhere : ∃ w ∈ ws, w <+: c :: (v ++ z) := ⟨c :: v, hmem, z, rfl⟩
      have hrest := marks_le_append ws v z
      simp only [List.cons_append, marks, if_pos hhere]
      omega

/-- A text without `m` adds no mark to what follows. -/
theorem marks_append_of_notMem (hws : ∀ w ∈ ws, IsMarker m w) {s : List α} (hs : m ∉ s)
    (t : List α) : marks ws (s ++ t) = marks ws t := by
  induction s with
  | nil => rfl
  | cons c s ih =>
      rw [List.mem_cons, not_or] at hs
      have hnone : ¬ ∃ w ∈ ws, w <+: c :: (s ++ t) := by
        intro hex
        obtain ⟨w, hw, hpre⟩ := hex
        obtain ⟨v, rfl, -⟩ := hws w hw
        exact hs.1 (List.cons_prefix_cons.mp hpre).1
      simp [marks, hnone, ih hs.2]

/-- One mark at most stands across a seam. -/
theorem marks_append_le (hws : ∀ w ∈ ws, IsMarker m w) (s t : List α) :
    marks ws (s ++ t) ≤ marks ws s + marks ws t + 1 := by
  induction s with
  | nil =>
      rw [List.nil_append]
      omega
  | cons c s ih =>
      simp only [List.cons_append, marks]
      by_cases hhere : ∃ w ∈ ws, w <+: c :: s
      · have hlong : ∃ w ∈ ws, w <+: c :: (s ++ t) := by
          obtain ⟨w, hw, hpre⟩ := hhere
          exact ⟨w, hw, hpre.trans (List.prefix_append (c :: s) t)⟩
        simp only [if_pos hhere, if_pos hlong]
        omega
      · by_cases hlong : ∃ w ∈ ws, w <+: c :: (s ++ t)
        · -- the marker ends behind `s`, which therefore has no other beginning
          have hs : m ∉ s := by
            obtain ⟨w, hw, hpre⟩ := hlong
            have hcut : c :: s <+: w := by
              rcases List.prefix_or_prefix_of_prefix hpre (List.prefix_append (c :: s) t) with h | h
              · exact absurd ⟨w, hw, h⟩ hhere
              · exact h
            obtain ⟨v, rfl, hv⟩ := hws w hw
            exact fun hm => hv ((List.cons_prefix_cons.mp hcut).2.subset hm)
          simp only [if_neg hhere, if_pos hlong, marks_append_of_notMem hws hs]
          omega
        · simp only [if_neg hhere, if_neg hlong]
          omega

/-- Pieces without markers make up fewer markers than there are pieces. -/
theorem marks_flatten_lt (hws : ∀ w ∈ ws, IsMarker m w) {pieces : List (List α)}
    (hfree : ∀ p ∈ pieces, ∀ w ∈ ws, ¬ w <:+: p) (hne : pieces ≠ []) :
    marks ws pieces.flatten < pieces.length := by
  induction pieces with
  | nil => exact absurd rfl hne
  | cons p pieces ih =>
      have hp := marks_eq_zero (hfree p (by simp))
      cases pieces with
      | nil => simp [hp]
      | cons q pieces =>
          have hrest := ih (fun p hp => hfree p (by simp [hp])) (by simp)
          have hseam := marks_append_le hws p (q :: pieces).flatten
          rw [List.flatten_cons, List.length_cons]
          omega

end Count

end OpBrowser
