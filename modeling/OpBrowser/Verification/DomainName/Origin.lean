import OpBrowser.Verification.DomainName.Label

/-! # Labels tell origins apart

For the http and https URLs a label determines scheme, host and port: the text
before the path, query or fragment has no redundant dot, so none of it is lost. -/

namespace OpBrowser

theorem forall_byte {p : UInt8 → Prop} : (∀ c, p c) ↔ ∀ n : Fin 256, p (UInt8.ofFin n) :=
  ⟨fun h n => h _, fun h c => by simpa using h c.toFin⟩

/-- Letters, digits, `_` and `-`. -/
def isLabelChar (c : UInt8) : Bool := isWord c || c = byte '-'

/-- What starts the part of a URL after its authority. -/
def isDelimiter (c : UInt8) : Bool := c = byte '/' || c = byte '?' || c = byte '#'

theorem isLabelChar_toLower (c : UInt8) : isLabelChar (toLower c) = isLabelChar c := by
  revert c
  rw [forall_byte]
  decide +kernel

theorem isDelimiter_toLower (c : UInt8) : isDelimiter (toLower c) = isDelimiter c := by
  revert c
  rw [forall_byte]
  decide +kernel

theorem toLower_of_isDigit {c : UInt8} (h : isDigit c = true) : toLower c = c := by
  revert c
  rw [forall_byte]
  decide +kernel

theorem toLower_eq_slash {c : UInt8} : toLower c = byte '/' ↔ c = byte '/' := by
  revert c
  rw [forall_byte]
  decide +kernel

theorem toLower_ne_zero {c : UInt8} (h : c ≠ 0) : toLower c ≠ 0 := by
  revert c
  rw [forall_byte]
  decide +kernel

/-- A character of a label is none of the characters that structure a URL. -/
theorem ne_of_isLabelChar {c : UInt8} (h : isLabelChar c = true) :
    c ≠ 0 ∧ c ≠ byte '.' ∧ c ≠ byte ':' ∧ isDelimiter c = false := by
  revert c
  rw [forall_byte]
  decide +kernel

theorem isLabelChar_of_isDigit {c : UInt8} (h : isDigit c = true) : isLabelChar c = true := by
  revert c
  rw [forall_byte]
  decide +kernel

/-- Neither a colon nor a delimiter can stand in the class of `pathPattern`. -/
theorem not_isHostChar {c : UInt8} (h : c = byte ':' ∨ isDelimiter c = true) :
    DomainName.isHostChar c = false := by
  revert c
  rw [forall_byte]
  decide +kernel

open DomainName

theorem isHostChar_of_isLabelChar {c : UInt8} (h : isLabelChar c = true) :
    isHostChar c = true := by
  simp only [isLabelChar, isHostChar, Bool.or_eq_true] at h ⊢
  rcases h with h | h <;> simp [h]

/-- An absolute http or https URL: `scheme://host[:port]rest`. -/
structure WebUrl where
  scheme : Bytes
  host : List Bytes
  port : Option Bytes
  rest : Bytes
  scheme_http : scheme.map toLower = bytes "http" ∨ scheme.map toLower = bytes "https"
  host_ne : host ≠ []
  host_labels : ∀ l ∈ host, l ≠ [] ∧ ∀ c ∈ l, isLabelChar c = true
  port_digits : ∀ p, port = some p → ∀ c ∈ p, isDigit c = true
  rest_head : rest = [] ∨ ∃ c r, rest = c :: r ∧ isDelimiter c = true
  rest_no_nul : (0 : UInt8) ∉ rest

namespace WebUrl

def hostText (u : WebUrl) : Bytes := joinDots u.host

/-- `host[:port]` -/
def authority (u : WebUrl) : Bytes :=
  u.hostText ++ u.port.elim [] (byte ':' :: ·)

def toBytes (u : WebUrl) : Bytes :=
  u.scheme ++ bytes "://" ++ (u.authority ++ u.rest)

/-- Same scheme, same host ignoring case and same port text. -/
structure SameOrigin (u v : WebUrl) : Prop where
  scheme : u.scheme.map toLower = v.scheme.map toLower
  host : u.hostText.map toLower = v.hostText.map toLower
  port : u.port = v.port

/-! ### The shape of an authority -/

theorem joinDots_map (ls : List Bytes) :
    (joinDots ls).map toLower = joinDots (ls.map (List.map toLower)) := by
  induction ls with
  | nil => rfl
  | cons l ls ih =>
      cases ls with
      | nil => rfl
      | cons m ls =>
          rw [joinDots_cons l (by simp), List.map_append, List.map_cons, ih,
            List.map_cons (l := m :: ls), joinDots_cons (l.map toLower) (by simp)]
          rfl

/-- The labels of a host: at least one, none empty, label characters only. -/
def IsHost (ls : List Bytes) : Prop :=
  ls ≠ [] ∧ ∀ l ∈ ls, l ≠ [] ∧ ∀ c ∈ l, isLabelChar c = true

theorem IsHost.map_toLower {ls : List Bytes} (h : IsHost ls) :
    IsHost (ls.map (List.map toLower)) := by
  refine ⟨by simpa using h.1, ?_⟩
  intro l hl
  obtain ⟨m, hm, rfl⟩ := List.mem_map.mp hl
  refine ⟨by simpa using (h.2 m hm).1, ?_⟩
  intro c hc
  obtain ⟨d, hd, rfl⟩ := List.mem_map.mp hc
  rw [isLabelChar_toLower]
  exact (h.2 m hm).2 d hd

theorem IsHost.mem {ls : List Bytes} (h : IsHost ls) :
    ∀ c ∈ joinDots ls, isLabelChar c = true ∨ c = byte '.' := by
  obtain ⟨-, h⟩ := h
  induction ls with
  | nil => simp
  | cons l ls ih =>
      cases ls with
      | nil => exact fun c hc => .inl ((h l (by simp)).2 c hc)
      | cons m ls =>
          intro c hc
          rw [joinDots_cons l (by simp)] at hc
          rcases List.mem_append.mp hc with hc | hc
          · exact .inl ((h l (by simp)).2 c hc)
          · rcases List.mem_cons.mp hc with hc | hc
            · exact .inr hc
            · exact ih (fun x hx => h x (List.mem_cons_of_mem _ hx)) c hc

/-- A host starts with a label character. -/
theorem IsHost.head {ls : List Bytes} (h : IsHost ls) :
    ∃ c r, joinDots ls = c :: r ∧ isLabelChar c = true := by
  cases ls with
  | nil => exact absurd rfl h.1
  | cons l ls =>
      obtain ⟨hne, hl⟩ := h.2 l (by simp)
      obtain ⟨c, r, rfl⟩ := List.exists_cons_of_ne_nil hne
      cases ls with
      | nil => exact ⟨c, r, rfl, hl c (by simp)⟩
      | cons m ls => exact ⟨c, _, rfl, hl c (by simp)⟩

theorem tight_append_of_no_dot {l s : Bytes} (hl : byte '.' ∉ l) (hs : Tight s) :
    Tight (l ++ s) := by
  induction l with
  | nil => exact hs
  | cons c l ih =>
      refine ⟨fun hc => absurd (by simp [hc]) hl, ih fun hm => hl (List.mem_cons_of_mem _ hm)⟩

/-- No dot of a host is redundant, whatever dot-free text follows the host. -/
theorem IsHost.tight {ls : List Bytes} (h : IsHost ls) {s : Bytes} (hs : byte '.' ∉ s) :
    Tight (joinDots ls ++ s) := by
  have hno : ∀ l ∈ ls, byte '.' ∉ l :=
    fun l hl hm => (ne_of_isLabelChar ((h.2 l hl).2 _ hm)).2.1 rfl
  have hts : Tight s := by
    simpa using tight_append_of_no_dot (s := []) hs trivial
  induction ls with
  | nil => exact hts
  | cons l ls ih =>
      cases ls with
      | nil => exact tight_append_of_no_dot (hno l (by simp)) hts
      | cons m ls =>
          have htail : IsHost (m :: ls) := ⟨by simp, fun x hx => h.2 x (List.mem_cons_of_mem _ hx)⟩
          rw [joinDots_cons l (by simp), List.append_assoc, List.cons_append]
          refine tight_append_of_no_dot (hno l (by simp)) ⟨fun _ => ?_, ?_⟩
          · obtain ⟨c, r, he, hc⟩ := htail.head
            exact ⟨c, r ++ s, by rw [he]; rfl, (ne_of_isLabelChar hc).2.1⟩
          · exact ih htail fun x hx => hno x (List.mem_cons_of_mem _ hx)

/-! ### A URL in lower case -/

theorem isHost (u : WebUrl) : IsHost u.host := ⟨u.host_ne, u.host_labels⟩

theorem map_port (u : WebUrl) :
    (u.port.elim [] (byte ':' :: ·)).map toLower = u.port.elim [] (byte ':' :: ·) := by
  cases hp : u.port with
  | none => rfl
  | some p =>
      have hid : p.map toLower = p := by
        conv_rhs => rw [← List.map_id p]
        exact List.map_congr_left fun c hc => toLower_of_isDigit (u.port_digits p hp c hc)
      simp only [Option.elim_some, List.map_cons, hid]
      rfl

/-- The authority in lower case. -/
def lowerAuthority (u : WebUrl) : Bytes :=
  u.hostText.map toLower ++ u.port.elim [] (byte ':' :: ·)

theorem map_toBytes (u : WebUrl) :
    u.toBytes.map toLower =
      u.scheme.map toLower ++ bytes "://" ++ (u.lowerAuthority ++ u.rest.map toLower) := by
  simp only [toBytes, authority, lowerAuthority, List.map_append, map_port]
  rfl

theorem port_mem (u : WebUrl) :
    ∀ c ∈ u.port.elim [] (byte ':' :: ·), isLabelChar c = true ∨ c = byte ':' := by
  intro c hc
  cases hp : u.port with
  | none => simp [hp] at hc
  | some p =>
      simp only [hp, Option.elim_some, List.mem_cons] at hc
      rcases hc with hc | hc
      · exact .inr hc
      · exact .inl (isLabelChar_of_isDigit (u.port_digits p hp c hc))

theorem lowerHost_mem (u : WebUrl) :
    ∀ c ∈ u.hostText.map toLower, isLabelChar c = true ∨ c = byte '.' := by
  rw [hostText, joinDots_map]
  exact u.isHost.map_toLower.mem

/-- An authority holds no delimiter and no NUL byte. -/
theorem lowerAuthority_mem (u : WebUrl) :
    ∀ c ∈ u.lowerAuthority, isDelimiter c = false ∧ c ≠ 0 := by
  intro c hc
  rcases List.mem_append.mp hc with hc | hc
  · rcases u.lowerHost_mem c hc with h | rfl
    · exact ⟨(ne_of_isLabelChar h).2.2.2, (ne_of_isLabelChar h).1⟩
    · decide
  · rcases u.port_mem c hc with h | rfl
    · exact ⟨(ne_of_isLabelChar h).2.2.2, (ne_of_isLabelChar h).1⟩
    · decide

theorem tight_lowerAuthority (u : WebUrl) : Tight u.lowerAuthority := by
  rw [lowerAuthority, hostText, joinDots_map]
  refine u.isHost.map_toLower.tight fun hm => ?_
  rcases u.port_mem _ hm with h | h
  · exact (ne_of_isLabelChar h).2.1 rfl
  · exact absurd h (by decide)

theorem lowerAuthority_head (u : WebUrl) :
    ∃ c r, u.lowerAuthority = c :: r ∧ c ≠ byte '.' := by
  obtain ⟨c, r, he, hc⟩ := u.isHost.map_toLower.head
  refine ⟨c, r ++ u.port.elim [] (byte ':' :: ·), ?_, (ne_of_isLabelChar hc).2.1⟩
  rw [lowerAuthority, hostText, joinDots_map, he]
  rfl

/-- The rest is empty or starts with a delimiter. -/
def IsRest (s : Bytes) : Prop := s = [] ∨ ∃ c r, s = c :: r ∧ isDelimiter c = true

theorem isRest_lower (u : WebUrl) : IsRest (u.rest.map toLower) := by
  rcases u.rest_head with h | ⟨c, r, h, hc⟩
  · exact .inl (by simp [h])
  · exact .inr ⟨toLower c, r.map toLower, by simp [h], by rw [isDelimiter_toLower, hc]⟩

theorem no_nul_map {s : Bytes} (h : (0 : UInt8) ∉ s) : (0 : UInt8) ∉ s.map toLower := by
  intro hm
  obtain ⟨c, hc, h0⟩ := List.mem_map.mp hm
  exact toLower_ne_zero (ne_of_mem_of_not_mem hc h) h0

theorem afterScheme_no_nul (u : WebUrl) : (0 : UInt8) ∉ u.lowerAuthority ++ u.rest.map toLower := by
  intro hm
  rcases List.mem_append.mp hm with hm | hm
  · exact (u.lowerAuthority_mem 0 hm).2 rfl
  · exact no_nul_map u.rest_no_nul hm

/-! ### What the cuts leave of a URL -/

theorem findProtocol_toBytes (u : WebUrl) :
    findProtocol (u.toBytes.map toLower) =
      (u.scheme.map toLower ++ bytes "://", u.lowerAuthority ++ u.rest.map toLower) := by
  have hnul := u.afterScheme_no_nul
  have hstrip : ∀ w s : Bytes, (w ++ s).drop w.length = s := fun w s => List.drop_left
  rw [map_toBytes]
  rcases u.scheme_http with h | h
  · rw [h, findProtocol_eq (by
      intro hm
      rcases List.mem_append.mp hm with hm | hm
      · revert hm; decide
      · exact hnul hm)]
    have hpre : bytes "http://" <+: bytes "http" ++ bytes "://" ++
        (u.lowerAuthority ++ u.rest.map toLower) := List.prefix_append (bytes "http://") _
    rw [if_pos hpre]
    exact Prod.ext rfl (hstrip (bytes "http://") _)
  · rw [h, findProtocol_eq (by
      intro hm
      rcases List.mem_append.mp hm with hm | hm
      · revert hm; decide
      · exact hnul hm)]
    have hnot : ¬ bytes "http://" <+: bytes "https" ++ bytes "://" ++
        (u.lowerAuthority ++ u.rest.map toLower) := by
      change ¬ byte 'h' :: byte 't' :: byte 't' :: byte 'p' :: byte ':' :: bytes "//" <+:
        byte 'h' :: byte 't' :: byte 't' :: byte 'p' :: byte 's' :: _
      simp only [List.cons_prefix_cons, true_and, not_and]
      exact fun h => absurd h (by decide)
    have hpre : bytes "https://" <+: bytes "https" ++ bytes "://" ++
        (u.lowerAuthority ++ u.rest.map toLower) := List.prefix_append (bytes "https://") _
    rw [if_neg hnot, if_pos hpre]
    exact Prod.ext rfl (hstrip (bytes "https://") _)

/-- What the path pattern leaves behind the authority: nothing when no port stands there
and the rest is empty or a path, else all of the rest. -/
def leftover (u : WebUrl) : Bytes :=
  if u.port = none ∧ (u.rest = [] ∨ u.rest.head? = some (byte '/')) then []
  else u.rest.map toLower

/-- The text that the fields of the label are made of. -/
def labelText (u : WebUrl) : Bytes := u.lowerAuthority ++ u.leftover

theorem lowerHost_class (u : WebUrl) : ∀ c ∈ u.hostText.map toLower, isHostChar c = true := by
  intro c hc
  rcases u.lowerHost_mem c hc with h | rfl
  · exact isHostChar_of_isLabelChar h
  · decide

theorem slash_notMem_lowerAuthority (u : WebUrl) : byte '/' ∉ u.lowerAuthority :=
  fun hm => absurd (u.lowerAuthority_mem _ hm).1 (by decide)

theorem lowerAuthority_of_no_port {u : WebUrl} (h : u.port = none) :
    u.lowerAuthority = u.hostText.map toLower := by
  simp [lowerAuthority, h]

theorem findPath_lower (u : WebUrl) :
    (findPath (u.lowerAuthority ++ u.rest.map toLower)).2 = u.labelText := by
  rw [findPath_eq u.afterScheme_no_nul, labelText, leftover]
  have hslash := u.slash_notMem_lowerAuthority
  cases hp : u.port with
  | some p =>
      have hauth : u.lowerAuthority = u.hostText.map toLower ++ byte ':' :: p := by
        simp [lowerAuthority, hp]
      have hhost : byte '/' ∉ u.hostText.map toLower :=
        fun hm => hslash (List.mem_append_left _ hm)
      rw [if_neg (by simp), hauth, List.append_assoc, List.cons_append,
        Pattern.splitFirst_eq_none hhost (by decide) (by decide), Option.elim_none]
  | none =>
      rcases u.rest_head with hrest | ⟨c, r, hrest, hc⟩
      · rw [if_pos ⟨rfl, .inl hrest⟩, hrest, List.map_nil, List.append_nil]
        cases hs : Pattern.splitFirst isHostChar (byte '/') u.lowerAuthority with
        | none => rfl
        | some m =>
            have he := (Pattern.splitFirst_eq_some (hs : _ = some (m.1, m.2))).1
            exact absurd (by rw [he]; simp) hslash
      · rw [hrest, List.map_cons]
        by_cases hcut : c = byte '/'
        · subst hcut
          have hclass := u.lowerHost_class
          rw [← lowerAuthority_of_no_port hp] at hclass
          rw [if_pos ⟨rfl, .inr rfl⟩, toLower_eq_slash.mpr rfl,
            Pattern.splitFirst_append hslash hclass, Option.elim_some, List.append_nil]
        · have hlower : toLower c ≠ byte '/' := fun h => hcut (toLower_eq_slash.mp h)
          rw [if_neg (by simp [hcut]), Pattern.splitFirst_eq_none hslash hlower
            (not_isHostChar (.inr (by rw [isDelimiter_toLower, hc]))), Option.elim_none]

theorem startable_labelText (u : WebUrl) : Startable u.labelText := by
  constructor
  · intro hm
    rcases List.mem_append.mp hm with hm | hm
    · exact (u.lowerAuthority_mem 0 hm).2 rfl
    · rw [leftover] at hm
      split at hm
      · cases hm
      · exact no_nul_map u.rest_no_nul hm
  · obtain ⟨c, r, he, hc⟩ := u.lowerAuthority_head
    exact ⟨c, r ++ u.leftover, by rw [labelText, he]; rfl, hc⟩

theorem isRest_leftover (u : WebUrl) : IsRest u.leftover := by
  rw [leftover]
  split
  · exact .inl rfl
  · exact u.isRest_lower

/-- The text of a URL's label starts with the authority and goes on like a rest. -/
theorem text_ofUrl (u : WebUrl) :
    ∃ r, text (ofUrl u.toBytes) = u.lowerAuthority ++ r ∧ IsRest r := by
  have hpath : (findPath (findProtocol (u.toBytes.map toLower)).2).2 = u.labelText := by
    rw [findProtocol_toBytes, findPath_lower]
  have htext := text_fromString hpath u.startable_labelText
  rw [labelText] at htext
  obtain ⟨t, ht, hsq⟩ := htext.tight_append u.tight_lowerAuthority
  refine ⟨t, ht, ?_⟩
  rcases u.isRest_leftover with hnil | ⟨c, r, hcons, hc⟩
  · rw [hnil] at hsq
    cases hsq
    exact .inl rfl
  · rw [hcons] at hsq
    have hdot : c ≠ byte '.' := by
      rintro rfl
      exact absurd hc (by decide)
    obtain ⟨t', rfl, -⟩ := hsq.head_eq hdot
    exact .inr ⟨c, t', rfl, hc⟩

/-! ### Labels determine origins -/

/-- Text without delimiters before a rest is determined by the whole. -/
theorem append_rest_inj {a b r s : Bytes} (ha : ∀ c ∈ a, isDelimiter c = false)
    (hb : ∀ c ∈ b, isDelimiter c = false) (hr : IsRest r) (hs : IsRest s)
    (h : a ++ r = b ++ s) : a = b := by
  have hcut : ∀ {x y : Bytes}, (∀ c ∈ x, isDelimiter c = false) → IsRest y →
      (x ++ y).takeWhile (fun c => !isDelimiter c) = x := by
    intro x y hx hy
    rw [List.takeWhile_append_of_pos fun c hc => by simp [hx c hc]]
    rcases hy with rfl | ⟨c, t, rfl, hc⟩
    · simp
    · simp [hc]
  rw [← hcut ha hr, ← hcut hb hs, h]

theorem lowerAuthority_inj {u v : WebUrl} (h : u.lowerAuthority = v.lowerAuthority) :
    u.hostText.map toLower = v.hostText.map toLower ∧ u.port = v.port := by
  have hcut : ∀ w : WebUrl,
      w.lowerAuthority.takeWhile (fun c => c ≠ byte ':') = w.hostText.map toLower := by
    intro w
    rw [lowerAuthority, List.takeWhile_append_of_pos]
    · cases w.port <;> simp
    · intro c hc
      rcases w.lowerHost_mem c hc with h | rfl
      · simpa using (ne_of_isLabelChar h).2.2.1
      · decide
  have hhost : u.hostText.map toLower = v.hostText.map toLower := by
    rw [← hcut u, ← hcut v, h]
  refine ⟨hhost, ?_⟩
  rw [lowerAuthority, lowerAuthority, hhost, List.append_cancel_left_eq] at h
  cases hu : u.port <;> cases hv : v.port <;> simp_all

theorem sameOrigin_of_equals {u v : WebUrl} (h : equals (ofUrl u.toBytes) (ofUrl v.toBytes)) :
    u.SameOrigin v := by
  obtain ⟨r, hr, hrest⟩ := u.text_ofUrl
  obtain ⟨s, hs, hsest⟩ := v.text_ofUrl
  have htext := text_eq_of_equals h
  rw [hr, hs] at htext
  have hauth := append_rest_inj (fun c hc => (u.lowerAuthority_mem c hc).1)
    (fun c hc => (v.lowerAuthority_mem c hc).1) hrest hsest htext
  obtain ⟨hhost, hport⟩ := lowerAuthority_inj hauth
  refine ⟨?_, hhost, hport⟩
  have hprotocol : (findProtocol (u.toBytes.map toLower)).1 =
      (findProtocol (v.toBytes.map toLower)).1 := h.1
  rw [findProtocol_toBytes, findProtocol_toBytes] at hprotocol
  exact List.append_cancel_right hprotocol

end WebUrl

end OpBrowser
