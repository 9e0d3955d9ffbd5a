import OpBrowser.Verification.Network.PostData

/-! # What the expansion of uploads makes of a body

A web app sends literal parts with the name of a file between two markers in each gap. -/

namespace OpBrowser.Network

variable {files : QString → Option Bytes}

/-- The literal part, then the name of each file between its markers with the literal part
behind it. -/
def upload (d : Bytes) (ps : List (Bytes × Bytes)) : Bytes :=
  d ++ ps.flatMap fun p => fnBegin ++ p.1 ++ fnEnd ++ p.2

/-- The literal parts with the contents of the files in their gaps. -/
def filled (files : QString → Option Bytes) (d : Bytes) (ps : List (Bytes × Bytes)) : Bytes :=
  d ++ ps.flatMap fun p => contentOf files p.1 ++ p.2

/-- Each marker is replaced by its own file, and no other file is opened. -/
def Replaced (files : QString → Option Bytes) (d : Bytes) (ps : List (Bytes × Bytes)) : Prop :=
  ∃ fuel opened, processPostData files fuel postOperation (upload d ps) =
    some (filled files d ps, opened) ∧ ∀ fileName ∈ opened, fileName ∈ ps.map Prod.fst

/-- The text in front of each gap holds no marker, and the whole text stops the loop. -/
def Clean (files : QString → Option Bytes) (d : Bytes) : List (Bytes × Bytes) → Prop
  | [] => Stops d
  | p :: ps => Free d ∧ Clean files (d ++ contentOf files p.1 ++ p.2) ps

@[simp] theorem upload_nil (t : Bytes) : upload t [] = t := by
  simp [upload]

@[simp] theorem filled_nil (t : Bytes) : filled files t [] = t := by
  simp [filled]

theorem upload_cons (t : Bytes) (p : Bytes × Bytes) (ps : List (Bytes × Bytes)) :
    upload t (p :: ps) =
      t ++ fnBegin ++ p.1 ++ fnEnd ++ upload p.2 ps := by
  simp [upload]

theorem append_upload (s t : Bytes) (ps : List (Bytes × Bytes)) :
    s ++ upload t ps = upload (s ++ t) ps := by
  simp [upload]

theorem filled_cons (t : Bytes) (p : Bytes × Bytes) (ps : List (Bytes × Bytes)) :
    filled files t (p :: ps) = filled files (t ++ contentOf files p.1 ++ p.2) ps := by
  simp [filled]

/-! ### Clean bodies -/

theorem not_end_in_name {t fileName : Bytes} (ht : ¬ fnEnd <:+: t) (hname : ¬ fnEnd <:+: fileName) :
    ¬ fnEnd <:+: t ++ fnBegin ++ fileName := by
  rw [List.append_assoc, isMarker_fnEnd.infix_append_iff (isMarker_fnBegin.head? fileName),
    isMarker_fnEnd.infix_marker_append_iff isMarker_fnBegin (by decide) (by decide), not_or]
  exact ⟨ht, hname⟩

/-- A round fills the first gap. -/
theorem expand_upload_cons {t : Bytes} {p : Bytes × Bytes} (ht : Free t) (hp : Free p.1)
    (ps : List (Bytes × Bytes)) (fuel : ℕ) (opened : List Bytes) :
    expand files (fuel + 1) (upload t (p :: ps)) opened =
      expand files fuel (upload (t ++ contentOf files p.1 ++ p.2) ps) (opened ++ [p.1]) := by
  rw [upload_cons, expand_replace ht.1 (not_end_in_name ht.2 hp.2), append_upload]

theorem expand_of_clean {t : Bytes} {ps : List (Bytes × Bytes)} (hps : ∀ p ∈ ps, Free p.1)
    (h : Clean files t ps) (opened : List Bytes) :
    expand files (ps.length + 1) (upload t ps) opened =
      some (filled files t ps, opened ++ ps.map Prod.fst) := by
  induction ps generalizing t opened with
  | nil =>
      have hstop : Stops t := h
      simp [expand_of_stops hstop]
  | cons p ps ih =>
      rw [List.length_cons, expand_upload_cons h.1 (hps p (by simp)), filled_cons,
        ih (fun p hp => hps p (by simp [hp])) h.2]
      simp

/-! ### Bodies that are not clean -/

theorem stops_of_expand {fuel : ℕ} {t r : Bytes} {opened opened' : List Bytes}
    (h : expand files fuel t opened = some (r, opened')) : Stops r := by
  induction fuel generalizing t opened with
  | zero => simp [expand] at h
  | succ fuel ih =>
      rw [expand] at h
      split at h
      · exact ih h
      · rename_i hstop
        cases h
        simpa [Stops] using hstop

/-- Where an end marker comes first the loop stops. -/
theorem stops_of_end_first {y z : Bytes} (hend : ¬ fnEnd <:+: y) (hbegin : ¬ fnBegin <:+: y)
    (h : fnBegin <:+: y ++ fnEnd ++ z) : Stops (y ++ fnEnd ++ z) := by
  obtain ⟨x, w, hx, hfirst⟩ := isMarker_fnBegin.exists_first h
  have he := indexOf_first (z := z) isMarker_fnEnd hend
  have hb := indexOf_first (z := w) isMarker_fnBegin hfirst
  rw [← hx] at hb
  rw [Stops, he, hb]
  by_contra hlt
  rw [List.append_assoc y] at hx
  obtain ⟨v, rfl, -⟩ :=
    isMarker_fnBegin.eq_append_of_lt (isMarker_fnEnd.head? z) hx.symm (by omega)
  exact hbegin (List.infix_append x fnBegin v)

theorem isMarker_of_mem : ∀ w ∈ [fnBegin, fnEnd], IsMarker (byte '*') w := by
  simp [isMarker_fnBegin, isMarker_fnEnd]

theorem le_marks_gaps (ps : List (Bytes × Bytes)) :
    2 * ps.length ≤
      marks [fnBegin, fnEnd] (ps.flatMap fun p => fnBegin ++ p.1 ++ fnEnd ++ p.2) := by
  induction ps with
  | nil => simp
  | cons p ps ih =>
      have hbegin : fnBegin ∈ [fnBegin, fnEnd] := by simp
      have hend : fnEnd ∈ [fnBegin, fnEnd] := by simp
      rw [List.flatMap_cons, List.length_cons]
      generalize ps.flatMap (fun p => fnBegin ++ p.1 ++ fnEnd ++ p.2) = rest at ih ⊢
      have hb := marks_marker_append hbegin isMarker_fnBegin.ne_nil
        (p.1 ++ (fnEnd ++ (p.2 ++ rest)))
      have hname := marks_le_append [fnBegin, fnEnd] p.1 (fnEnd ++ (p.2 ++ rest))
      have he := marks_marker_append hend isMarker_fnEnd.ne_nil
        (p.2 ++ rest)
      have hpart := marks_le_append [fnBegin, fnEnd] p.2 rest
      simp only [List.append_assoc]
      omega

/-- The contents and literal parts, one after the other. -/
def parts (files : QString → Option Bytes) (ps : List (Bytes × Bytes)) : List Bytes :=
  ps.flatMap fun p => [contentOf files p.1, p.2]

theorem length_parts (files : QString → Option Bytes) (ps : List (Bytes × Bytes)) :
    (parts files ps).length = 2 * ps.length := by
  induction ps with
  | nil => rfl
  | cons p ps ih =>
      rw [parts] at ih
      rw [parts, List.flatMap_cons, List.length_append, ih, List.length_cons, List.length_cons]
      simp
      omega

theorem filled_eq (t : Bytes) (ps : List (Bytes × Bytes)) :
    filled files t ps = t ++ (parts files ps).flatten := by
  induction ps generalizing t with
  | nil => simp [parts]
  | cons p ps ih =>
      rw [filled_cons, ih]
      simp [parts]

theorem free_of_mem_parts {ps : List (Bytes × Bytes)} (hps : ∀ p ∈ ps, Free p.2) :
    ∀ q ∈ parts files ps, Free q := by
  intro q hq
  obtain ⟨p, hp, hq⟩ := List.mem_flatMap.mp hq
  rw [List.mem_pair] at hq
  rcases hq with rfl | rfl
  · exact free_contentOf p.1
  · exact hps p hp

/-- The contents and literal parts do not make up all of the markers that they replace. -/
theorem upload_ne_filled (t : Bytes) {ps : List (Bytes × Bytes)} (hps : ∀ p ∈ ps, Free p.2)
    (hne : ps ≠ []) : upload t ps ≠ filled files t ps := by
  intro heq
  have hmany := le_marks_gaps ps
  have hfree : ∀ q ∈ parts files ps, ∀ w ∈ [fnBegin, fnEnd], ¬ w <:+: q := by
    intro q hq
    simpa [Free] using free_of_mem_parts hps q hq
  have hpos := List.length_pos_iff.mpr hne
  have hlen := length_parts files ps
  have hfew := marks_flatten_lt isMarker_of_mem hfree (List.length_pos_iff.mp (by omega))
  rw [filled_eq, upload] at heq
  rw [List.append_cancel_left heq] at hmany
  omega

/-- No end marker stands in front of the first gap: with a begin marker before it the result
would have to be expanded further, and else nothing would be expanded at all. -/
theorem not_end_of_expand {fuel : ℕ} {t : Bytes} {p : Bytes × Bytes} {ps : List (Bytes × Bytes)}
    {opened : List Bytes} (hps : ∀ q ∈ p :: ps, Free q.1 ∧ Free q.2)
    (h : expand files fuel (upload t (p :: ps)) [] = some (filled files t (p :: ps), opened)) :
    ¬ fnEnd <:+: t := by
  intro hend
  have hstop := stops_of_expand h
  obtain ⟨y, z, rfl, hy⟩ := isMarker_fnEnd.exists_first hend
  by_cases hbegin : fnBegin <:+: y
  · obtain ⟨x, fileName, rfl, hx⟩ := isMarker_fnBegin.exists_first hbegin
    rw [filled, List.append_assoc _ z] at hstop
    exact not_stops_of_round hx hy hstop
  · have hgap : fnBegin <:+: y ++ fnEnd ++ (z ++ fnBegin ++ p.1 ++ fnEnd ++ upload p.2 ps) :=
      ⟨y ++ fnEnd ++ z, p.1 ++ fnEnd ++ upload p.2 ps, by simp⟩
    have hsame := stops_of_end_first hy hbegin hgap
    have htext : upload (y ++ fnEnd ++ z) (p :: ps) =
        y ++ fnEnd ++ (z ++ fnBegin ++ p.1 ++ fnEnd ++ upload p.2 ps) := by
      simp [upload_cons]
    cases fuel with
    | zero => simp [expand] at h
    | succ fuel =>
        rw [htext, expand_of_stops hsame, ← htext, Option.some.injEq, Prod.mk.injEq] at h
        exact upload_ne_filled _ (fun q hq => (hps q hq).2) (by simp) h.1

/-- No begin marker stands there: the name that is opened would begin behind it. -/
theorem not_begin_of_expand {fuel : ℕ} {t : Bytes} {p : Bytes × Bytes} {ps : List (Bytes × Bytes)}
    {opened : List Bytes} (hp : Free p.1) (hend : ¬ fnEnd <:+: t)
    (h : expand files fuel (upload t (p :: ps)) [] = some (filled files t (p :: ps), opened))
    (hopened : ∀ fileName ∈ opened, Free fileName) : ¬ fnBegin <:+: t := by
  intro hbegin
  obtain ⟨x, w, rfl, hx⟩ := isMarker_fnBegin.exists_first hbegin
  have htext : upload (x ++ fnBegin ++ w) (p :: ps) =
      x ++ fnBegin ++ (w ++ fnBegin ++ p.1) ++ fnEnd ++ upload p.2 ps := by
    simp [upload_cons]
  have hname := not_end_in_name hend hp.2
  cases fuel with
  | zero => simp [expand] at h
  | succ fuel =>
      rw [htext, expand_replace hx (by simpa using hname), expand_eq_some_iff] at h
      obtain ⟨more, -, rfl⟩ := h
      have hfree := hopened (w ++ fnBegin ++ p.1) (by simp)
      exact hfree.1 (List.infix_append w fnBegin p.1)

theorem clean_of_expand {fuel : ℕ} {t : Bytes} {ps : List (Bytes × Bytes)} {opened : List Bytes}
    (hps : ∀ p ∈ ps, Free p.1 ∧ Free p.2)
    (h : expand files fuel (upload t ps) [] = some (filled files t ps, opened))
    (hopened : ∀ fileName ∈ opened, Free fileName) : Clean files t ps := by
  induction ps generalizing fuel t opened with
  | nil =>
      have hstop := stops_of_expand h
      simpa [Clean, filled] using hstop
  | cons p ps ih =>
      have hp := hps p (by simp)
      have hend := not_end_of_expand hps h
      have hbegin := not_begin_of_expand hp.1 hend h hopened
      refine ⟨⟨hbegin, hend⟩, ?_⟩
      cases fuel with
      | zero => simp [expand] at h
      | succ fuel =>
          rw [expand_upload_cons ⟨hbegin, hend⟩ hp.1, filled_cons, expand_eq_some_iff] at h
          obtain ⟨more, hrun, rfl⟩ := h
          exact ih (fun p hp => hps p (by simp [hp])) hrun
            (fun fileName hmem => hopened fileName (by simp [hmem]))

theorem clean_of_replaced {d : Bytes} {ps : List (Bytes × Bytes)}
    (hps : ∀ p ∈ ps, Free p.1 ∧ Free p.2) (h : Replaced files d ps) : Clean files d ps := by
  obtain ⟨fuel, opened, hrun, hopened⟩ := h
  obtain ⟨fuel, hrun⟩ := (processPostData_eq_some_iff _ _).mp ⟨fuel, hrun⟩
  apply clean_of_expand hps hrun
  intro fileName hmem
  obtain ⟨p, hp, rfl⟩ := List.mem_map.mp (hopened fileName hmem)
  exact (hps p hp).1

/-- The expansion puts the content of each file into its gap exactly if the literal parts and
contents in front of a gap never make up a marker between them. -/
theorem upload_replaced_iff (files : QString → Option Bytes) (d : Bytes) (ps : List (Bytes × Bytes))
    (hps : ∀ p ∈ ps, Free p.1 ∧ Free p.2) :
    Replaced files d ps ↔ Clean files d ps := by
  constructor
  · exact clean_of_replaced hps
  · intro h
    have hrun := expand_of_clean (fun p hp => (hps p hp).1) h []
    obtain ⟨fuel, hrun⟩ := (processPostData_eq_some_iff _ _).mpr ⟨_, hrun⟩
    exact ⟨fuel, _, hrun, by simp⟩

/-- Two selected files, of which the first one ends like the start of a marker. -/
def twoFiles (name : QString) : Option Bytes :=
  if name = QString.ofString "f" then some (bytes "x*OPFN") else some (bytes "y")

/-- It depends on the text behind its gap whether there is a marker at the seam. -/
theorem upload_replaced_seam :
    Replaced twoFiles (bytes "a=") [(bytes "f", bytes "&b="), (bytes "g", bytes "&c=")] ∧
      ¬ Replaced twoFiles (bytes "a=") [(bytes "f", bytes "BEGIN#"), (bytes "g", bytes "&c=")] := by
  constructor
  · apply (upload_replaced_iff _ _ _ (by simp [Free]; decide)).mpr
    simp only [Clean, Free]
    decide +kernel
  · intro h
    have hclean := (upload_replaced_iff _ _ _ (by simp [Free]; decide)).mp h
    exact hclean.2.1.1 (by decide +kernel)

/-- Two names of no file are enough to send a file that nobody has selected. -/
theorem unselected_file_sent :
    ¬ ∀ (files : QString → Option Bytes) (d : Bytes) (ps : List (Bytes × Bytes)),
      Free d → (∀ p ∈ ps, Free p.1 ∧ Free p.2) → Replaced files d ps := by
  intro h
  have hclean := clean_of_replaced (by simp [Free]; decide)
    (h (fun name => if name = QString.ofString "/etc/passwd" then some (bytes "x") else none)
      (bytes "*OPFN") [([], bytes "BEGIN#/etc/passwd" ++ [0]), ([], [])]
      (by constructor <;> decide) (by simp [Free]; decide))
  exact hclean.2.1.1 (by decide)

end OpBrowser.Network
