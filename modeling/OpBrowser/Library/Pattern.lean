import Mathlib.Data.List.Basic
import Mathlib.Tactic.Common

/-! # Ordered-choice patterns with capture groups

A backtracking matcher tries its alternatives in a fixed order and keeps the
first that consumes the whole subject. `Pattern.parses` lists every way a
pattern can match a front part of the subject, in the order in which they are
tried; `Pattern.fullMatch` picks the first that leaves nothing over. -/

namespace OpBrowser

/-- Greedy patterns over an alphabet. `between p lo hi` repeats one class of
characters, and `group` captures what its body consumed. -/
inductive Pattern (α : Type*) where
  | word (w : List α)
  | many (p : α → Bool)
  | between (p : α → Bool) (lo hi : ℕ)
  | alt (a b : Pattern α)
  | seq (a b : Pattern α)
  | group (a : Pattern α)

namespace Pattern

variable {α : Type*}

/-- What `p*` can leave over, the longest repetition first. -/
def greedy (p : α → Bool) : List α → List (List α)
  | [] => [[]]
  | c :: t => if p c then greedy p t ++ [c :: t] else [c :: t]

/-- What `p{lo,hi}` can leave over, the longest repetition first. -/
def greedyUpTo (p : α → Bool) : ℕ → ℕ → List α → List (List α)
  | lo, 0, s => if lo = 0 then [s] else []
  | lo, _ + 1, [] => if lo = 0 then [[]] else []
  | lo, hi + 1, c :: t =>
      (if p c then greedyUpTo p (lo - 1) hi t else []) ++ (if lo = 0 then [c :: t] else [])

/-- All matches of a front part of the subject in order of preference: the
captured strings, outer groups first, and the rest of the subject. -/
def parses [DecidableEq α] : Pattern α → List α → List (List (List α) × List α)
  | word w, s => if w <+: s then [([], s.drop w.length)] else []
  | many p, s => (greedy p s).map fun r => ([], r)
  | between p lo hi, s => (greedyUpTo p lo hi s).map fun r => ([], r)
  | alt a b, s => a.parses s ++ b.parses s
  | seq a b, s => (a.parses s).flatMap fun m => (b.parses m.2).map fun n => (m.1 ++ n.1, n.2)
  | group a, s => (a.parses s).map fun m => (s.take (s.length - m.2.length) :: m.1, m.2)

/-- The captures of the first match that consumes the whole subject. -/
def fullMatch [DecidableEq α] (r : Pattern α) (s : List α) : Option (List (List α)) :=
  ((r.parses s).find? fun m => m.2.isEmpty).map Prod.fst

/-- Splits at the last separator whose remaining text passes `ok`. -/
def splitLast [DecidableEq α] (sep : α) (ok : List α → Bool) : List α → Option (List α × List α)
  | [] => none
  | c :: t =>
      match splitLast sep ok t with
      | some (u, v) => some (c :: u, v)
      | none => if c = sep ∧ ok t then some ([], t) else none

/-- Splits at the first separator when everything before it is in the class. -/
def splitFirst [DecidableEq α] (p : α → Bool) (sep : α) : List α → Option (List α × List α)
  | [] => none
  | c :: t =>
      if c = sep then some ([], t)
      else if p c then (splitFirst p sep t).map fun m => (c :: m.1, m.2)
      else none

theorem parses_word [DecidableEq α] (w s : List α) :
    (word w).parses s = if w <+: s then [([], s.drop w.length)] else [] := rfl

theorem parses_alt [DecidableEq α] (a b : Pattern α) (s : List α) :
    (alt a b).parses s = a.parses s ++ b.parses s := rfl

theorem parses_seq [DecidableEq α] (a b : Pattern α) (s : List α) :
    (seq a b).parses s =
      (a.parses s).flatMap fun m => (b.parses m.2).map fun n => (m.1 ++ n.1, n.2) := rfl

theorem parses_group [DecidableEq α] (a : Pattern α) (s : List α) :
    (group a).parses s =
      (a.parses s).map fun m => (s.take (s.length - m.2.length) :: m.1, m.2) := rfl

/-! ### Splitting at the last separator -/

section SplitLast

variable [DecidableEq α] {sep : α} {ok : List α → Bool}

theorem splitLast_cons (c : α) (t : List α) :
    splitLast sep ok (c :: t) =
      (splitLast sep ok t).elim (if c = sep ∧ ok t then some ([], t) else none)
        (fun m => some (c :: m.1, m.2)) := by
  simp only [splitLast]
  cases splitLast sep ok t with
  | none => rfl
  | some m => rfl

theorem splitLast_eq_some {s u v : List α} (h : splitLast sep ok s = some (u, v)) :
    s = u ++ sep :: v ∧ ok v = true := by
  induction s generalizing u v with
  | nil => simp [splitLast] at h
  | cons c t ih =>
      rw [splitLast_cons] at h
      cases ht : splitLast sep ok t with
      | some m =>
          simp only [ht, Option.elim_some, Option.some.injEq, Prod.mk.injEq] at h
          obtain ⟨rfl, rfl⟩ := h
          obtain ⟨rfl, hv⟩ := ih ht
          exact ⟨rfl, hv⟩
      | none =>
          simp only [ht, Option.elim_none, Option.ite_none_right_eq_some, Option.some.injEq,
            Prod.mk.injEq] at h
          obtain ⟨⟨rfl, hok⟩, rfl, rfl⟩ := h
          exact ⟨rfl, hok⟩

theorem splitLast_eq_none {s : List α} :
    splitLast sep ok s = none ↔ ∀ u v, s = u ++ sep :: v → ok v = false := by
  induction s with
  | nil => simp [splitLast]
  | cons c t ih =>
      rw [splitLast_cons]
      cases ht : splitLast sep ok t with
      | some m =>
          obtain ⟨rfl, hv⟩ := splitLast_eq_some (ht : _ = some (m.1, m.2))
          simp only [Option.elim_some, reduceCtorEq, false_iff, not_forall]
          exact ⟨c :: m.1, m.2, rfl, by simp [hv]⟩
      | none =>
          have hno := ih.mp ht
          simp only [Option.elim_none, ite_eq_right_iff, reduceCtorEq, imp_false, not_and,
            Bool.not_eq_true]
          constructor
          · intro h u v he
            cases u with
            | nil =>
                obtain ⟨rfl, rfl⟩ := List.cons.inj he
                exact h rfl
            | cons d u => exact hno u v (List.cons.inj he).2
          · rintro h rfl
            exact h [] t rfl

/-- No later split was possible. -/
theorem splitLast_suffix {s u v : List α} (h : splitLast sep ok s = some (u, v)) :
    splitLast sep ok v = none := by
  induction s generalizing u v with
  | nil => simp [splitLast] at h
  | cons c t ih =>
      rw [splitLast_cons] at h
      cases ht : splitLast sep ok t with
      | some m =>
          simp only [ht, Option.elim_some, Option.some.injEq, Prod.mk.injEq] at h
          obtain ⟨-, rfl⟩ := h
          exact ih ht
      | none =>
          simp only [ht, Option.elim_none, Option.ite_none_right_eq_some, Option.some.injEq,
            Prod.mk.injEq] at h
          obtain ⟨-, -, rfl⟩ := h
          exact ht

theorem splitLast_any_eq_none {s : List α} :
    splitLast sep (fun _ => true) s = none ↔ sep ∉ s := by
  rw [splitLast_eq_none]
  constructor
  · intro h hm
    obtain ⟨x, y, rfl⟩ := List.append_of_mem hm
    simpa using h x y rfl
  · rintro h u v rfl
    simp at h

/-- With every remainder acceptable the split is at the last separator. -/
theorem splitLast_any_suffix {s u v : List α}
    (h : splitLast sep (fun _ => true) s = some (u, v)) : sep ∉ v :=
  splitLast_any_eq_none.mp (splitLast_suffix h)

/-- The split is at a separator when no later one has an acceptable remaining text. -/
theorem splitLast_append {v : List α} (hok : ok v = true)
    (hv : ∀ x y, v = x ++ sep :: y → ok y = false) (u : List α) :
    splitLast sep ok (u ++ sep :: v) = some (u, v) := by
  induction u with
  | nil =>
      rw [List.nil_append, splitLast_cons, splitLast_eq_none.mpr hv, Option.elim_none,
        if_pos ⟨rfl, hok⟩]
  | cons c u ih => rw [List.cons_append, splitLast_cons, ih, Option.elim_some]

end SplitLast

/-! ### Splitting at the first separator -/

section SplitFirst

variable [DecidableEq α] {sep : α} {p : α → Bool}

theorem splitFirst_eq_some {s u v : List α} (h : splitFirst p sep s = some (u, v)) :
    s = u ++ sep :: v ∧ sep ∉ u ∧ ∀ c ∈ u, p c = true := by
  induction s generalizing u v with
  | nil => simp [splitFirst] at h
  | cons c t ih =>
      simp only [splitFirst] at h
      split at h
      · rename_i hc
        simp only [Option.some.injEq, Prod.mk.injEq] at h
        obtain ⟨rfl, rfl⟩ := h
        exact ⟨by rw [hc]; rfl, by simp, by simp⟩
      · rename_i hc
        split at h
        · rename_i hp
          obtain ⟨m, hm, he⟩ := Option.map_eq_some_iff.mp h
          obtain ⟨rfl, rfl⟩ := Prod.mk.inj he
          obtain ⟨rfl, hsep, hall⟩ := ih hm
          refine ⟨rfl, ?_, ?_⟩
          · simp [Ne.symm hc, hsep]
          · simpa [hp] using hall
        · cases h

theorem splitFirst_append {u : List α} (hsep : sep ∉ u) (hu : ∀ c ∈ u, p c = true)
    (v : List α) : splitFirst p sep (u ++ sep :: v) = some (u, v) := by
  induction u with
  | nil => simp [splitFirst]
  | cons c u ih =>
      obtain ⟨hc, hsep⟩ := List.ne_and_not_mem_of_not_mem_cons hsep
      rw [List.cons_append, splitFirst, if_neg hc.symm, if_pos (hu c (by simp)),
        ih hsep fun d hd => hu d (by simp [hd]), Option.map_some]

/-- A character outside the class in front of every separator stops the match. -/
theorem splitFirst_eq_none {x y : List α} {c : α} (hx : sep ∉ x) (hc : c ≠ sep)
    (hp : p c = false) : splitFirst p sep (x ++ c :: y) = none := by
  cases hs : splitFirst p sep (x ++ c :: y) with
  | none => rfl
  | some m =>
      obtain ⟨he, -, hm⟩ := splitFirst_eq_some (hs : _ = some (m.1, m.2))
      rcases List.append_eq_append_iff.mp he with ⟨w, hw, hr⟩ | ⟨w, hw, hr⟩
      · cases w with
        | nil => exact absurd (List.cons.inj hr).1 hc
        | cons d w =>
            have hd := hm d (by rw [hw]; simp)
            rw [← (List.cons.inj hr).1, hp] at hd
            cases hd
      · cases w with
        | nil => exact absurd (List.cons.inj hr).1.symm hc
        | cons d w => exact absurd (by rw [hw, (List.cons.inj hr).1]; simp) hx

end SplitFirst

/-! ### Greedy repetitions -/

theorem greedy_any_cons (c : α) (t : List α) :
    greedy (fun _ => true) (c :: t) = greedy (fun _ => true) t ++ [c :: t] := by
  simp [greedy]

/-- A greedy repetition can consume the whole subject. -/
theorem exists_greedy_nil (p : α → Bool) (s : List α) (h : ∀ c ∈ s, p c = true) :
    [] ∈ greedy p s := by
  induction s with
  | nil => simp [greedy]
  | cons c t ih =>
      rw [greedy, if_pos (h c (by simp))]
      exact List.mem_append_left _ (ih fun d hd => h d (by simp [hd]))

theorem greedyUpTo_nil_mem (s : List α) (lo hi : ℕ) :
    [] ∈ greedyUpTo (fun _ => true) lo hi s ↔ lo ≤ s.length ∧ s.length ≤ hi := by
  induction hi generalizing lo s with
  | zero => cases s <;> by_cases h : lo = 0 <;> simp [greedyUpTo, h]
  | succ hi ih =>
      cases s with
      | nil => by_cases h : lo = 0 <;> simp [greedyUpTo, h]
      | cons c t =>
          simp only [greedyUpTo, ite_true, List.mem_append, ih, List.length_cons]
          by_cases h : lo = 0
          · simp [h]
          · simp only [h, ite_false, List.not_mem_nil, or_false]
            omega

/-! ### Greedy text before a separator -/

/-- `(.*)sep(body)`, the shape of a greedy split at a separator. -/
def splitAt (sep : α) (body : Pattern α) : Pattern α :=
  seq (group (many fun _ => true)) (seq (word [sep]) (group body))

section FullMatch

variable [DecidableEq α] {sep : α} {body : Pattern α} {rests : List α → List (List α)}

/-- What follows the separator matches exactly when the body can consume it all,
and then the group holds all of it. -/
private theorem find_body (hb : ∀ v, body.parses v = (rests v).map fun r => ([], r))
    (t : List α) (f : List (List α) → List (List α)) :
    (((group body).parses t).map fun n => (f n.1, n.2)).find? (fun m => m.2.isEmpty) =
      if [] ∈ rests t then some (f [t], []) else none := by
  simp only [parses, hb, List.map_map, List.find?_map, Function.comp_def]
  split
  · rename_i h
    have hs : ((rests t).find? fun r => r.isEmpty).isSome := by
      rw [List.find?_isSome]
      exact ⟨[], h, rfl⟩
    obtain ⟨r, hr⟩ := Option.isSome_iff_exists.mp hs
    have hnil : r = [] := List.isEmpty_iff.mp (List.find?_some hr :)
    subst hnil
    simp [hr]
  · rename_i h
    have hn : (rests t).find? (fun r => r.isEmpty) = none := by
      rw [List.find?_eq_none]
      intro r hr he
      exact h (List.isEmpty_iff.mp he ▸ hr)
    simp [hn]

/-- The search below a fixed front part, the statement that goes through by
induction on the rest of the subject. -/
private theorem find_split (sep : α) (hb : ∀ v, body.parses v = (rests v).map fun r => ([], r))
    (s front : List α) :
    ((greedy (fun _ => true) s).flatMap fun r =>
        ((seq (word [sep]) (group body)).parses r).map fun n =>
          ((front ++ s).take ((front ++ s).length - r.length) :: n.1, n.2)).find?
      (fun m => m.2.isEmpty) =
      (splitLast sep (fun v => decide ([] ∈ rests v)) s).map fun m =>
        ([front ++ m.1, m.2], []) := by
  induction s generalizing front with
  | nil => simp [greedy, parses, splitLast]
  | cons c t ih =>
      have ht := ih (front ++ [c])
      rw [List.append_assoc, List.singleton_append] at ht
      rw [greedy_any_cons, List.flatMap_append, List.find?_append, ht, splitLast_cons]
      cases splitLast sep (fun v => decide ([] ∈ rests v)) t with
      | some m => simp
      | none =>
          by_cases hc : c = sep
          · subst hc
            have hp : (seq (word [c]) (group body)).parses (c :: t) = (group body).parses t := by
              simp [parses]
            simp only [Option.map_none, Option.none_or, List.flatMap_singleton, hp]
            rw [find_body hb t fun g => (front ++ c :: t).take
              ((front ++ c :: t).length - (c :: t).length) :: g]
            by_cases hm : [] ∈ rests t <;> simp [hm]
          · have hw : ¬ [sep] <+: c :: t := by
              simp [List.cons_prefix_cons, Ne.symm hc]
            simp [parses, hw, hc]

/-- A full match of `(.*)sep(body)` splits the subject at the last separator
whose remaining text the body can consume. -/
theorem fullMatch_splitAt (hb : ∀ v, body.parses v = (rests v).map fun r => ([], r))
    (s : List α) :
    (splitAt sep body).fullMatch s =
      (splitLast sep (fun v => decide ([] ∈ rests v)) s).map fun m => [m.1, m.2] := by
  have h := find_split sep hb s []
  simp only [List.nil_append] at h
  simp only [fullMatch, splitAt]
  rw [parses]
  simp only [parses, List.flatMap_map, List.singleton_append] at h ⊢
  rw [h, Option.map_map]
  rfl

end FullMatch

/-! ### A class before a separator outside it -/

section ClassMatch

variable [DecidableEq α] {sep : α} {p : α → Bool}

theorem any_parses (v : List α) :
    (many fun _ : α => true).parses v = (greedy (fun _ => true) v).map fun r => ([], r) := rfl

private theorem find_class (hsep : p sep = false) (s front : List α) :
    ((greedy p s).flatMap fun r =>
        ((seq (word [sep]) (group (many fun _ => true))).parses r).map fun n =>
          ((front ++ s).take ((front ++ s).length - r.length) :: n.1, n.2)).find?
      (fun m => m.2.isEmpty) =
      (splitFirst p sep s).map fun m => ([front ++ m.1, m.2], []) := by
  induction s generalizing front with
  | nil => simp [greedy, parses, splitFirst]
  | cons c t ih =>
      have ht := ih (front ++ [c])
      rw [List.append_assoc, List.singleton_append] at ht
      by_cases hc : c = sep
      · -- the separator is outside the class, so the repetition stops here
        subst hc
        have hp : (seq (word [c]) (group (many fun _ => true))).parses (c :: t) =
            (group (many fun _ => true)).parses t := by
          simp [parses]
        have hf := find_body any_parses t fun g =>
          (front ++ c :: t).take ((front ++ c :: t).length - (c :: t).length) :: g
        rw [if_pos (exists_greedy_nil _ t fun _ _ => rfl)] at hf
        simp only [greedy, hsep, Bool.false_eq_true, if_false, List.flatMap_singleton, hp, hf,
          splitFirst, if_true, Option.map_some]
        simp
      · have hw : ¬ [sep] <+: c :: t := by simp [List.cons_prefix_cons, Ne.symm hc]
        by_cases hp : p c
        · simp only [greedy, hp, if_true, List.flatMap_append, List.find?_append, ht, splitFirst,
            hc, if_false]
          cases splitFirst p sep t <;> simp [parses, hw]
        · simp [greedy, hp, splitFirst, hc, parses, hw]

/-- `(p*)sep(.*)` splits at the first separator, provided the class does not
contain it and covers all that stands before it. -/
theorem fullMatch_class (hsep : p sep = false) (s : List α) :
    (seq (group (many p)) (seq (word [sep]) (group (many fun _ => true)))).fullMatch s =
      (splitFirst p sep s).map fun m => [m.1, m.2] := by
  have h := find_class hsep s []
  simp only [List.nil_append] at h
  simp only [fullMatch]
  rw [parses]
  simp only [parses, List.flatMap_map, List.singleton_append] at h ⊢
  rw [h, Option.map_map]
  rfl

/-- `(w|w')(.*)` strips the first of two words that is a prefix. -/
theorem fullMatch_words (w w' s : List α) :
    (seq (group (alt (word w) (word w'))) (group (many fun _ => true))).fullMatch s =
      if w <+: s then some [w, s.drop w.length]
      else if w' <+: s then some [w', s.drop w'.length] else none := by
  have hrest : ∀ x : List α, x <+: s →
      (((group (many fun _ => true)).parses (s.drop x.length)).map fun n =>
        (s.take (s.length - (s.drop x.length).length) :: n.1, n.2)).find?
          (fun m => m.2.isEmpty) = some ([x, s.drop x.length], []) := by
    intro x hx
    have hlen : s.length - (s.length - x.length) = x.length := by
      have := hx.length_le
      omega
    rw [find_body any_parses _ fun g => s.take (s.length - (s.drop x.length).length) :: g,
      if_pos (exists_greedy_nil _ _ fun _ _ => rfl), List.length_drop, hlen,
      ← List.prefix_iff_eq_take.mp hx]
  simp only [fullMatch, parses_seq, parses_group (alt _ _), parses_alt, parses_word,
    List.map_append, List.flatMap_append, List.find?_append]
  by_cases h : w <+: s
  · simp only [h, if_true, List.map_singleton, List.flatMap_singleton, List.singleton_append,
      hrest w h, Option.some_or, Option.map_some]
  · by_cases h' : w' <+: s
    · simp only [h, h', if_true, if_false, List.map_nil, List.flatMap_nil, List.find?_nil,
        Option.none_or, List.map_singleton, List.flatMap_singleton, List.singleton_append,
        hrest w' h', Option.map_some]
    · simp [h, h']

end ClassMatch

end Pattern

end OpBrowser
