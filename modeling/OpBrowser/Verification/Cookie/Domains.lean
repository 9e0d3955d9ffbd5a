import OpBrowser.Model.CookieStore

/-! # Domains of cookies

Where the domain that a cookie is stored under and the domains that a host is looked up
under can meet. -/

namespace OpBrowser

namespace QString

/-! ### Lower-case Latin-1 -/

/-- A character that `toLower` and `toLatin1` keep apart from all others. -/
def Plain (c : UInt16) : Prop := c ≤ 0xFF ∧ latin1Lower c = c

instance (c : UInt16) : Decidable (Plain c) := inferInstanceAs (Decidable (_ ∧ _))

theorem plain_dot : Plain dot := by decide

theorem toLower_cons {table : UInt16 → QString} {c : UInt16} (h : Plain c) (s : QString) :
    toLower table (c :: s) = c :: toLower table s := by
  rw [toLower, List.flatMap_cons, if_pos h.1, h.2]
  rfl

theorem toLower_of_plain {table : UInt16 → QString} {s : QString} (h : ∀ c ∈ s, Plain c) :
    toLower table s = s := by
  induction s with
  | nil => rfl
  | cons c s ih =>
      rw [toLower_cons (h c List.mem_cons_self), ih fun d hd => h d (List.mem_cons_of_mem c hd)]

/-- A byte other than that of the question mark stands for one character. -/
theorem eq_of_toLatin1_byte {c d : UInt16} (hd : d ≤ 0xFF) (hq : d ≠ questionMark)
    (h : (if c ≤ 0xFF then c.toUInt8 else questionMark.toUInt8) = d.toUInt8) : c = d := by
  have hlow : ∀ e : UInt16, e ≤ 0xFF → e.toUInt8.toUInt16 = e := by
    intro e he
    apply UInt16.toNat_inj.mp
    have hlt : e.toNat ≤ 255 := UInt16.le_iff_toNat_le.mp he
    simp
    omega
  split at h
  · rename_i hc
    rw [← hlow c hc, h, hlow d hd]
  · have hmark := congrArg UInt8.toUInt16 h
    rw [hlow d hd] at hmark
    exact absurd hmark.symm hq

/-- The string shares its Latin-1 form with no other one. -/
structure Unshared (s : QString) : Prop where
  plain : ∀ c ∈ s, Plain c
  clear : questionMark ∉ s

instance (s : QString) : Decidable (Unshared s) :=
  haveI : Decidable (∀ c ∈ s, Plain c) := List.decidableBAll Plain s
  decidable_of_iff ((∀ c ∈ s, Plain c) ∧ questionMark ∉ s)
    ⟨fun h => ⟨h.1, h.2⟩, fun h => ⟨h.plain, h.clear⟩⟩

theorem Unshared.tail {c : UInt16} {s : QString} (h : Unshared (c :: s)) : Unshared s where
  plain d hd := h.plain d (List.mem_cons_of_mem c hd)
  clear hmem := h.clear (List.mem_cons_of_mem c hmem)

theorem Unshared.eq_of_toLatin1 {s t : QString} (ht : Unshared t)
    (h : s.toLatin1 = t.toLatin1) : s = t := by
  induction t generalizing s with
  | nil => exact List.map_eq_nil_iff.mp h
  | cons d t ih =>
      cases s with
      | nil => cases h
      | cons c s =>
          have hd : Plain d := ht.plain d List.mem_cons_self
          have hne : d ≠ questionMark := fun heq => ht.clear (heq ▸ List.mem_cons_self)
          obtain ⟨hhead, htail⟩ := List.cons.inj h
          dsimp only at hhead
          rw [if_pos hd.1] at hhead
          rw [eq_of_toLatin1_byte hd.1 hne hhead, ih ht.tail htail]

/-! ### Labels -/

/-- Labels of a host: at least one, none empty, and no dot in them. -/
structure Labels (ls : List QString) : Prop where
  nonempty : ls ≠ []
  label : ∀ l ∈ ls, l ≠ [] ∧ dot ∉ l

instance (ls : List QString) : Decidable (Labels ls) :=
  decidable_of_iff (ls ≠ [] ∧ ∀ l ∈ ls, l ≠ [] ∧ dot ∉ l)
    ⟨fun h => ⟨h.1, h.2⟩, fun h => ⟨h.nonempty, h.label⟩⟩

/-- A host in lower-case Latin-1. -/
structure IsHost (h : QString) : Prop where
  labels : Labels h.split
  plain : ∀ c ∈ h, Plain c

instance (h : QString) : Decidable (IsHost h) :=
  haveI : Decidable (∀ c ∈ h, Plain c) := List.decidableBAll Plain h
  decidable_of_iff (Labels h.split ∧ ∀ c ∈ h, Plain c)
    ⟨fun h => ⟨h.1, h.2⟩, fun h => ⟨h.labels, h.plain⟩⟩

theorem split_join {ls : List QString} (h : Labels ls) : split (join ls) = ls :=
  List.splitOn_intercalate dot (fun l hl => (h.label l hl).2) h.nonempty

theorem join_split (s : QString) : join s.split = s := List.intercalate_splitOn dot

theorem join_cons (l : QString) {ms : List QString} (h : ms ≠ []) :
    join (l :: ms) = l ++ dot :: join ms := by
  cases ms with
  | nil => exact absurd rfl h
  | cons m ms => simp [join, List.intercalate]

theorem Labels.of_suffix {ls ms : List QString} (h : Labels ls) (hs : ms <:+ ls) (hne : ms ≠ []) :
    Labels ms :=
  ⟨hne, fun l hl => h.label l (hs.mem hl)⟩

/-- A name that is made of labels does not start with a dot. -/
theorem Labels.ne_dot_cons {ls : List QString} (h : Labels ls) (s : QString) :
    join ls ≠ dot :: s := by
  cases ls with
  | nil => exact absurd rfl h.nonempty
  | cons l ms =>
      obtain ⟨hne, hdot⟩ := h.label l List.mem_cons_self
      cases l with
      | nil => exact absurd rfl hne
      | cons c l =>
          intro heq
          have hhead : (join ((c :: l) :: ms)).head? = some c := by
            cases ms with
            | nil => simp [join]
            | cons m ms => rw [join_cons _ (List.cons_ne_nil m ms)]; rfl
          rw [heq] at hhead
          have hc : dot = c := Option.some.inj hhead
          exact hdot (hc ▸ List.mem_cons_self)

theorem Labels.join_ne_nil {ls : List QString} (h : Labels ls) : join ls ≠ [] := by
  intro heq
  have hsplit := split_join h
  rw [heq] at hsplit
  have hmem : ([] : QString) ∈ ls := by
    rw [← hsplit]
    exact List.mem_singleton.mpr rfl
  exact (h.label [] hmem).1 rfl

theorem IsHost.ne_dot_cons {h : QString} (hh : IsHost h) (s : QString) : h ≠ dot :: s := by
  rw [← join_split h]
  exact hh.labels.ne_dot_cons s

theorem IsHost.toLower {h : QString} (hh : IsHost h) (table : UInt16 → QString) :
    h.toLower table = h :=
  toLower_of_plain hh.plain

/-! ### Parent domains -/

/-- One name is another, or what is left of it when labels are taken off its front. -/
def Within (x h : QString) : Prop := x = h ∨ dot :: x <:+ h

theorem suffix_join {ls ms : List QString} (hs : ms <:+ ls) (hne : ms ≠ []) :
    Within (join ms) (join ls) := by
  induction ls with
  | nil => exact absurd (List.suffix_nil.mp hs) hne
  | cons l ls ih =>
      cases List.suffix_cons_iff.mp hs with
      | inl heq => exact Or.inl (congrArg join heq)
      | inr hs =>
          have hls : ls ≠ [] := by
            intro hnil
            exact hne (List.suffix_nil.mp (hnil ▸ hs))
          rw [join_cons l hls]
          cases ih hs with
          | inl heq => exact Or.inr ⟨l, by rw [heq]⟩
          | inr hin =>
              apply Or.inr
              exact hin.trans ((List.suffix_cons dot _).trans (List.suffix_append l _))

/-- What is left of a host after its first label. -/
theorem within_of_tail {h : QString} {ms : List QString} (hs : ms <:+ h.split.tail)
    (hne : ms ≠ []) :
    Within (join ms) h := by
  have hjoin := suffix_join (hs.trans (List.tail_suffix h.split)) hne
  rw [join_split] at hjoin
  exact hjoin

theorem Within.subset {x h : QString} (hin : Within x h) : x ⊆ h := by
  cases hin with
  | inl heq => exact heq ▸ List.Subset.refl x
  | inr hin => exact ((List.suffix_cons dot x).trans hin).subset

end QString

namespace CookieStore

open QString

variable {env : CookieEnv} {cookie stored : QNetworkCookie} {url url₁ url₂ : QUrl}

/-! ### The domains a host is looked up under -/

theorem mem_parentDomains {parts : List QString} {q : QString} (hq : q ∈ parentDomains parts) :
    ∃ ms, ms <:+ parts ∧ 2 ≤ ms.length ∧ q = dot :: join ms := by
  induction parts with
  | nil => cases hq
  | cons part parts ih =>
      rw [parentDomains] at hq
      split at hq
      · rename_i hlen
        cases List.mem_cons.mp hq with
        | inl heq => exact ⟨part :: parts, List.suffix_rfl, hlen, heq⟩
        | inr hq =>
            obtain ⟨ms, hms, hlen, heq⟩ := ih hq
            exact ⟨ms, hms.trans (List.suffix_cons part parts), hlen, heq⟩
      · cases hq

/-- The host, or a dot and a name within it. That name has two labels, or is the host. -/
theorem mem_qualifiedDomains {q : QString} (hh : IsHost url.host)
    (hq : q ∈ qualifiedDomains env url) :
    q = url.host ∨
      ∃ x : QString, q = dot :: x ∧ Within x url.host ∧ (2 ≤ x.split.length ∨ x = url.host) := by
  simp only [qualifiedDomains, hh.toLower, List.mem_cons] at hq
  obtain heq | heq | hq := hq
  · exact Or.inl heq
  · exact Or.inr ⟨url.host, heq, Or.inl rfl, Or.inr rfl⟩
  · obtain ⟨ms, hms, hlen, heq⟩ := mem_parentDomains hq
    have hne : ms ≠ [] := List.ne_nil_of_length_pos (by omega)
    have hlabels : Labels ms := hh.labels.of_suffix (hms.trans (List.tail_suffix _)) hne
    refine Or.inr ⟨join ms, heq, within_of_tail hms hne, Or.inl ?_⟩
    rw [split_join hlabels]
    exact hlen

/-- The table holds such a domain without loss. -/
theorem unshared_of_mem_qualifiedDomains {q : QString} (hh : IsHost url.host)
    (hq : q ∈ qualifiedDomains env url) : Unshared q := by
  obtain heq | ⟨x, heq, hin, -⟩ := mem_qualifiedDomains hh hq
  · rw [heq]
    exact ⟨hh.plain, url.host_clear⟩
  · rw [heq]
    constructor
    · intro c hc
      cases List.mem_cons.mp hc with
      | inl hdot => exact hdot ▸ plain_dot
      | inr hc => exact hh.plain c (hin.subset hc)
    · intro hc
      cases List.mem_cons.mp hc with
      | inl hdot => exact absurd hdot (by decide)
      | inr hc => exact url.host_clear (hin.subset hc)

/-! ### The domains a host may set -/

theorem trimParts_suffix (count : ℕ) (parts : List QString) : trimParts count parts <:+ parts := by
  induction parts with
  | nil => exact List.suffix_rfl
  | cons part parts ih =>
      rw [trimParts]
      split
      · exact ih.trans (List.suffix_cons part parts)
      · exact List.suffix_rfl

/-- A domain that a host may set: the host, or a dot and a name within it. A single dot is
let through as well. -/
def Settable (domain host : QString) : Prop :=
  domain = host ∨ ∃ x, domain = dot :: x ∧ (x ≠ [] → Within x host)

theorem settable_of_checkDomain (hh : IsHost url.host) (h : checkDomain env cookie url = true) :
    Settable (cookie.domain.toLower env.lowerTable) url.host := by
  simp only [checkDomain, hh.toLower] at h
  split at h
  · rename_i heq
    exact Or.inl heq
  · split at h
    · rename_i hdot
      obtain ⟨hdot, htail⟩ := hdot
      obtain ⟨x, heq⟩ := List.head?_eq_some_iff.mp (of_decide_eq_true hdot)
      rw [heq] at htail
      exact Or.inr ⟨x, heq, fun _ => Or.inl htail⟩
    · have heq := of_decide_eq_true h
      refine Or.inr ⟨_, heq, ?_⟩
      intro hne
      apply within_of_tail (trimParts_suffix _ _)
      intro hnil
      rw [hnil] at hne
      exact hne rfl

/-- Every branch of the domain test leaves a domain that the host may set. -/
theorem settable_of_withDomain (hh : IsHost url.host)
    (h : withDomain env cookie url = some stored) :
    Settable (stored.domain.toLower env.lowerTable) url.host := by
  rw [withDomain] at h
  split at h
  · cases Option.some.inj h
    left
    rw [hh.toLower, hh.toLower]
  · split at h
    · obtain ⟨hcheck, heq⟩ := Option.ite_none_right_eq_some.mp h
      cases Option.some.inj heq
      exact settable_of_checkDomain hh hcheck
    · rename_i heq
      cases Option.some.inj h
      left
      rw [hh.toLower] at heq
      exact not_not.mp heq

/-! ### Where they meet -/

/-- The domain is that of a host cookie of the two hosts, which are the same, or a dot and
a name within both. -/
def DomainSafe (domain host₁ host₂ : QString) : Prop :=
  domain = host₂ ∧ host₁ = host₂ ∨
    ∃ x : QString, domain = dot :: x ∧ Within x host₁ ∧ Within x host₂ ∧
      (2 ≤ x.split.length ∨ x = host₂)

theorem domainSafe_of_settable {q : QString} (h₁ : IsHost url₁.host) (h₂ : IsHost url₂.host)
    (hset : Settable (q.toLower env.lowerTable) url₁.host)
    (hget : q ∈ qualifiedDomains env url₂) : DomainSafe q url₁.host url₂.host := by
  rw [toLower_of_plain (unshared_of_mem_qualifiedDomains h₂ hget).plain] at hset
  obtain heq | ⟨x, heq, hin, hlong⟩ := mem_qualifiedDomains h₂ hget
  · cases hset with
    | inl hhost => exact Or.inl ⟨heq, hhost.symm.trans heq⟩
    | inr hset =>
        obtain ⟨y, hdot, -⟩ := hset
        exact absurd (heq.symm.trans hdot) (h₂.ne_dot_cons y)
  · cases hset with
    | inl hhost => exact absurd (hhost.symm.trans heq) (h₁.ne_dot_cons x)
    | inr hset =>
        obtain ⟨y, hdot, hy⟩ := hset
        have hxy : x = y := (List.cons.inj (heq.symm.trans hdot)).2
        have hne : x ≠ [] := by
          obtain hlen | hhost := hlong
          · intro hnil
            rw [hnil] at hlen
            exact absurd hlen (by decide)
          · rw [hhost, ← join_split url₂.host]
            exact h₂.labels.join_ne_nil
        exact Or.inr ⟨x, heq, hxy ▸ hy (hxy ▸ hne), hin, hlong⟩

end CookieStore

end OpBrowser
