import Mathlib.Logic.Relation
import OpBrowser.Library.Markers
import OpBrowser.Model.PostData

/-! # The end of the expansion of uploads

A round of the loop replaces the first begin marker, the name behind it and the first end
marker by a content without markers. What lies behind the end marker is left of the body
as it was, and it gets shorter with every round. -/

namespace OpBrowser.Network

variable {files : QString → Option Bytes}

/-! ### The markers -/

theorem isMarker_fnBegin : IsMarker (byte '*') fnBegin := ⟨fnBegin.tail, by decide, by decide⟩

theorem isMarker_fnEnd : IsMarker (byte '*') fnEnd := ⟨fnEnd.tail, by decide, by decide⟩

/-- Holds neither marker. -/
def Free (t : Bytes) : Prop := ¬ fnBegin <:+: t ∧ ¬ fnEnd <:+: t

theorem free_nil : Free [] := by
  constructor <;> decide

theorem indexOf_first {m : UInt8} {w x z : Bytes} (hw : IsMarker m w) (hx : ¬ w <:+: x) :
    indexOf (x ++ w ++ z) w = x.length := by
  rw [indexOf, hw.dropInfix?_eq_some_iff.mpr ⟨rfl, hx⟩]
  rfl

theorem indexOf_absent {m : UInt8} {w t : Bytes} (hw : IsMarker m w) (h : ¬ w <:+: t) :
    indexOf t w = -1 := by
  rw [indexOf, hw.dropInfix?_eq_none_iff.mpr h]
  rfl

theorem indexOf_nonneg_iff {m : UInt8} {w t : Bytes} (hw : IsMarker m w) :
    0 ≤ indexOf t w ↔ w <:+: t := by
  constructor
  · intro h
    by_contra hin
    rw [indexOf_absent hw hin] at h
    omega
  · intro h
    obtain ⟨x, z, rfl, hx⟩ := hw.exists_first h
    rw [indexOf_first hw hx]
    omega

theorem neg_one_le_indexOf (t w : Bytes) : -1 ≤ indexOf t w := by
  rw [indexOf]
  cases t.dropInfix? w with
  | none => simp
  | some cut =>
      simp only [Option.elim]
      omega

theorem free_contentOf (fileName : Bytes) : Free (contentOf files fileName) := by
  rw [contentOf]
  split
  · exact free_nil
  · split
    · exact free_nil
    · rename_i hnone
      rw [ge_iff_le, ge_iff_le, indexOf_nonneg_iff isMarker_fnBegin,
        indexOf_nonneg_iff isMarker_fnEnd, not_or] at hnone
      exact hnone

/-! ### One round -/

/-- The first begin marker of the text, the name behind it and the first end marker are
replaced by the content of the file. -/
inductive Round (files : QString → Option Bytes) : Bytes → Bytes → Prop where
  | replace (x fileName z : Bytes) (hx : ¬ fnBegin <:+: x)
      (hend : ¬ fnEnd <:+: x ++ fnBegin ++ fileName) :
      Round files (x ++ fnBegin ++ fileName ++ fnEnd ++ z) (x ++ contentOf files fileName ++ z)

/-- An end marker without any begin marker. -/
def EndAlone (t : Bytes) : Prop := fnEnd <:+: t ∧ ¬ fnBegin <:+: t

/-- The test of the loop fails. -/
def Stops (t : Bytes) : Prop := indexOf t fnEnd ≤ indexOf t fnBegin

instance : DecidablePred Stops := fun _ => inferInstanceAs (Decidable (_ ≤ _))

theorem indexOf_fnBegin_of_round {x : Bytes} (hx : ¬ fnBegin <:+: x) (fileName z : Bytes) :
    indexOf (x ++ fnBegin ++ fileName ++ fnEnd ++ z) fnBegin = x.length := by
  have h := indexOf_first (z := fileName ++ fnEnd ++ z) isMarker_fnBegin hx
  simpa only [List.append_assoc] using h

theorem indexOf_fnEnd_of_round {x fileName z : Bytes}
    (hend : ¬ fnEnd <:+: x ++ fnBegin ++ fileName) :
    indexOf (x ++ fnBegin ++ fileName ++ fnEnd ++ z) fnEnd =
      x.length + fnBegin.length + fileName.length := by
  rw [indexOf_first isMarker_fnEnd hend]
  simp [Int.add_assoc]

theorem not_stops_of_round {x fileName z : Bytes} (hx : ¬ fnBegin <:+: x)
    (hend : ¬ fnEnd <:+: x ++ fnBegin ++ fileName) :
    ¬ Stops (x ++ fnBegin ++ fileName ++ fnEnd ++ z) := by
  have hne := List.length_pos_iff.mpr isMarker_fnBegin.ne_nil
  rw [Stops, indexOf_fnBegin_of_round hx fileName z, indexOf_fnEnd_of_round hend]
  omega

theorem expand_of_stops {t : Bytes} (h : Stops t) (fuel : ℕ) (opened : List Bytes) :
    expand files (fuel + 1) t opened = some (t, opened) := by
  rw [expand, if_neg (by simpa [Stops] using h)]

theorem mid_append (a b c : Bytes) : mid (a ++ b ++ c) a.length b.length = b := by
  rw [mid]
  split
  · rename_i hlong
    have hb : b.length = 0 := by
      simp only [List.length_append] at hlong
      omega
    rw [List.length_eq_zero_iff.mp hb]
  · have hnat (l : Bytes) : ¬ (l.length : ℤ) < 0 := by omega
    simp [hnat]

theorem replace_append (a b c after : Bytes) :
    replace (a ++ b ++ c) a.length b.length after = a ++ after ++ c := by
  have hdrop : (a ++ b ++ c).drop (a.length + b.length) = c :=
    List.drop_left' (by simp)
  have hpos : ((a.length : ℤ) + b.length).toNat = a.length + b.length := by omega
  rw [replace, if_neg (by omega), hpos, hdrop]
  simp

theorem expand_replace {x fileName : Bytes} (hx : ¬ fnBegin <:+: x)
    (hend : ¬ fnEnd <:+: x ++ fnBegin ++ fileName) (z : Bytes) (fuel : ℕ) (opened : List Bytes) :
    expand files (fuel + 1) (x ++ fnBegin ++ fileName ++ fnEnd ++ z) opened =
      expand files fuel (x ++ contentOf files fileName ++ z) (opened ++ [fileName]) := by
  have hb := indexOf_fnBegin_of_round hx fileName z
  have he := indexOf_fnEnd_of_round (z := z) hend
  have hmid := mid_append (x ++ fnBegin) fileName (fnEnd ++ z)
  have hreplace := replace_append x (fnBegin ++ fileName ++ fnEnd) z (contentOf files fileName)
  simp only [← List.append_assoc, List.length_append, Nat.cast_add] at hmid hreplace
  have hlen : (x.length + fnBegin.length + fileName.length - x.length - fnBegin.length : ℤ) =
      fileName.length := by omega
  have hall : (x.length + fnBegin.length + fileName.length + fnEnd.length - x.length : ℤ) =
      fnBegin.length + fileName.length + fnEnd.length := by omega
  have hgo := not_stops_of_round (z := z) hx hend
  rw [Stops, hb, he] at hgo
  rw [expand, hb, he, if_pos (by omega), hlen, hall]
  simp only [hmid, hreplace]

/-- At an end marker that is alone nothing is replaced. -/
theorem expand_endAlone {t : Bytes} (h : EndAlone t) (fuel : ℕ) (opened : List Bytes) :
    expand files fuel t opened = none := by
  have hb := indexOf_absent isMarker_fnBegin h.2
  have he := (indexOf_nonneg_iff isMarker_fnEnd).mpr h.1
  induction fuel generalizing opened with
  | zero => rfl
  | succ fuel ih =>
      rw [expand, hb, if_pos (by omega)]
      exact ih _

/-- What a round meets. -/
theorem round_cases (t : Bytes) :
    Stops t ∨ EndAlone t ∨ ∃ x fileName z, t = x ++ fnBegin ++ fileName ++ fnEnd ++ z ∧
      ¬ fnBegin <:+: x ∧ ¬ fnEnd <:+: x ++ fnBegin ++ fileName := by
  by_cases hstop : Stops t
  · exact Or.inl hstop
  refine Or.inr ?_
  by_cases hend : fnEnd <:+: t
  · by_cases hbegin : fnBegin <:+: t
    · obtain ⟨x, w, rfl, hx⟩ := isMarker_fnBegin.exists_first hbegin
      obtain ⟨y, z, hy, hfree⟩ := isMarker_fnEnd.exists_first hend
      have he := indexOf_first (z := z) isMarker_fnEnd hfree
      rw [← hy] at he
      have hlt : x.length < y.length := by
        rw [Stops, indexOf_first isMarker_fnBegin hx, he] at hstop
        omega
      rw [List.append_assoc y] at hy
      obtain ⟨fileName, rfl, rfl⟩ :=
        isMarker_fnBegin.eq_append_of_lt (isMarker_fnEnd.head? z) hy hlt
      exact Or.inr ⟨x, fileName, z, by simp, hx, hfree⟩
    · exact Or.inl ⟨hend, hbegin⟩
  · have he := indexOf_absent isMarker_fnEnd hend
    have hb := neg_one_le_indexOf t fnBegin
    rw [Stops, he] at hstop
    exact absurd hb hstop

/-! ### The whole loop -/

/-- The files that were opened before make no difference to a round. -/
theorem expand_opened (fuel : ℕ) (t : Bytes) (opened : List Bytes) :
    expand files fuel t opened = (expand files fuel t []).map fun r => (r.1, opened ++ r.2) := by
  induction fuel generalizing t opened with
  | zero => rfl
  | succ fuel ih =>
      rw [expand, expand]
      split
      · rw [ih, ih _ ([] ++ _), Option.map_map]
        simp [Function.comp_def]
      · simp

theorem expand_eq_some_iff {fuel : ℕ} {t r : Bytes} {opened all : List Bytes} :
    expand files fuel t opened = some (r, all) ↔
      ∃ more, expand files fuel t [] = some (r, more) ∧ opened ++ more = all := by
  rw [expand_opened, Option.map_eq_some_iff]
  simp

/-- The loop over the text ends. -/
def Ends (files : QString → Option Bytes) (t : Bytes) : Prop :=
  ∃ fuel, (expand files fuel t []).isSome

theorem ends_of_stops {t : Bytes} (h : Stops t) : Ends files t := by
  refine ⟨1, ?_⟩
  rw [expand_of_stops h]
  rfl

/-- The empty body is left alone, as the loop would leave it. -/
theorem processPostData_eq_some_iff (body : Bytes) (r : Bytes × List Bytes) :
    (∃ fuel, processPostData files fuel postOperation body = some r) ↔
      ∃ fuel, expand files fuel body [] = some r := by
  cases body with
  | nil =>
      have hstop : Stops [] := by decide
      constructor
      · intro h
        refine ⟨1, ?_⟩
        rw [expand_of_stops hstop]
        simpa [processPostData] using h
      · intro h
        obtain ⟨fuel, hfuel⟩ := h
        cases fuel with
        | zero => simp [expand] at hfuel
        | succ fuel =>
            rw [expand_of_stops hstop] at hfuel
            exact ⟨0, by simpa [processPostData] using hfuel⟩
  | cons c body => simp [processPostData]

theorem processPostData_isSome (body : Bytes) :
    (∃ fuel, (processPostData files fuel postOperation body).isSome) ↔ Ends files body := by
  simp only [Ends, Option.isSome_iff_exists]
  rw [exists_comm, exists_comm (α := ℕ)]
  exact exists_congr (processPostData_eq_some_iff body)

theorem not_ends_of_endAlone {t : Bytes} (h : EndAlone t) : ¬ Ends files t := by
  intro hends
  obtain ⟨fuel, hfuel⟩ := hends
  simp [expand_endAlone h] at hfuel

theorem ends_iff_of_round {t t' : Bytes} (h : Round files t t') : Ends files t ↔ Ends files t' := by
  obtain ⟨x, fileName, z, hx, hend⟩ := h
  constructor
  · intro hends
    obtain ⟨fuel, hfuel⟩ := hends
    cases fuel with
    | zero => simp [expand] at hfuel
    | succ fuel =>
        rw [expand_replace hx hend, expand_opened, Option.isSome_map] at hfuel
        exact ⟨fuel, hfuel⟩
  · intro hends
    obtain ⟨fuel, hfuel⟩ := hends
    refine ⟨fuel + 1, ?_⟩
    rw [expand_replace hx hend, expand_opened, Option.isSome_map]
    exact hfuel

theorem ends_iff_of_rounds {t t' : Bytes} (h : Relation.ReflTransGen (Round files) t t') :
    Ends files t ↔ Ends files t' := by
  induction h with
  | refl => rfl
  | tail _ hround ih => exact ih.trans (ends_iff_of_round hround)

/-- The next end marker lies behind the text that the last round has put together. -/
theorem end_behind {x c z y fileName w : Bytes} (hx : Free x) (hc : Free c)
    (h : x ++ c ++ z = y ++ fnBegin ++ fileName ++ fnEnd ++ w) : w.length < z.length := by
  by_contra hle
  obtain ⟨v, rfl⟩ : ∃ v, w = v ++ z :=
    (List.suffix_of_suffix_length_le ⟨_, rfl⟩ ⟨_, h.symm⟩ (by omega)).imp fun v hv => hv.symm
  -- both markers would lie within `x ++ c`, where there is room for one across the seam
  have hxc : x ++ c = y ++ (fnBegin ++ (fileName ++ fnEnd ++ v)) := by
    have hcut : (x ++ c) ++ z = (y ++ (fnBegin ++ (fileName ++ fnEnd ++ v))) ++ z := by
      simpa only [List.append_assoc] using h
    exact List.append_cancel_right hcut
  rcases List.append_eq_append_iff.mp hxc with ⟨u, rfl, rfl⟩ | ⟨u, rfl, hu⟩
  · exact hc.1 ⟨u, fileName ++ fnEnd ++ v, by simp⟩
  · rcases List.append_eq_append_iff.mp hu with ⟨u', rfl, -⟩ | ⟨u', -, rfl⟩
    · exact hx.1 ⟨y, u', by simp⟩
    · exact hc.2 ⟨u' ++ fileName, v, by simp⟩

theorem ends_of_free {x c z : Bytes} (hx : Free x) (hc : Free c)
    (h : ∀ t, Relation.ReflTransGen (Round files) (x ++ c ++ z) t → ¬ EndAlone t) :
    Ends files (x ++ c ++ z) := by
  induction hn : z.length using Nat.strong_induction_on generalizing x c z with
  | h n ih =>
      rcases round_cases (x ++ c ++ z) with hstop | halone | ⟨y, fileName, w, ht, hy, hend⟩
      · exact ends_of_stops hstop
      · exact absurd halone (h _ .refl)
      · have hround : Round files (x ++ c ++ z) (y ++ contentOf files fileName ++ w) := by
          rw [ht]
          exact .replace y fileName w hy hend
        have hyend : ¬ fnEnd <:+: y := by
          intro hin
          exact hend (hin.trans ⟨[], fnBegin ++ fileName, by simp⟩)
        rw [ends_iff_of_round hround]
        exact ih w.length (hn ▸ end_behind hx hc ht) ⟨hy, hyend⟩ (free_contentOf fileName)
          (fun t ht => h t (ht.head hround)) rfl

/-- The expansion of uploads ends exactly if no round of it begins on a text that has an end
marker and no begin marker. -/
theorem expansion_ends_iff (files : QString → Option Bytes) (body : Bytes) :
    (∃ fuel, (processPostData files fuel postOperation body).isSome) ↔
      ∀ t, Relation.ReflTransGen (Round files) body t → ¬ EndAlone t := by
  rw [processPostData_isSome]
  constructor
  · intro hends t ht halone
    exact not_ends_of_endAlone halone ((ends_iff_of_rounds ht).mp hends)
  · intro h
    exact ends_of_free free_nil free_nil h

/-- An end marker that stands alone in a body keeps the loop going for ever. -/
theorem lone_end_never_ends :
    ¬ ∀ (files : QString → Option Bytes) (body : Bytes),
      ∃ fuel, (processPostData files fuel postOperation body).isSome := by
  intro h
  obtain ⟨fuel, hfuel⟩ := h (fun _ => none) fnEnd
  have halone : EndAlone fnEnd := by
    constructor <;> decide
  rw [processPostData, if_neg (by decide), expand_endAlone halone] at hfuel
  simp at hfuel

end OpBrowser.Network
