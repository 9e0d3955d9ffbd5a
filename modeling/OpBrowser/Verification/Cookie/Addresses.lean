import OpBrowser.Verification.Cookie.Isolation

/-! # Cookies and numeric addresses

The store takes an address for a name of four labels. Cookies of its last numbers go to
every address that ends in them. -/

namespace OpBrowser

namespace QString

/-- A number of a dotted address: digits with a value of at most 255. -/
def IsNumber (l : QString) : Prop :=
  l ≠ [] ∧ (∀ c ∈ l, 48 ≤ c ∧ c ≤ 57) ∧ l.foldl (fun n c => 10 * n + (c.toNat - 48)) 0 ≤ 255

/-- A dotted IPv4 address. -/
structure IsAddress (h : QString) : Prop where
  four : h.split.length = 4
  number : ∀ l ∈ h.split, IsNumber l

instance (l : QString) : Decidable (IsNumber l) :=
  haveI := List.decidableBAll (fun c : UInt16 => 48 ≤ c ∧ c ≤ 57) l
  inferInstanceAs (Decidable (_ ∧ _ ∧ _))

instance (h : QString) : Decidable (IsAddress h) :=
  decidable_of_iff (h.split.length = 4 ∧ ∀ l ∈ h.split, IsNumber l)
    ⟨fun h => ⟨h.1, h.2⟩, fun h => ⟨h.four, h.number⟩⟩

theorem plain_of_digit {c : UInt16} (h : 48 ≤ c ∧ c ≤ 57) : Plain c := by
  have hlow : c.toNat ≤ 57 := UInt16.le_iff_toNat_le.mp h.2
  have hbig : ¬ (65 ≤ c ∧ c ≤ 90 ∨ 0xC0 ≤ c ∧ c ≤ 0xDE ∧ c ≠ 0xD7) := by
    simp only [UInt16.le_iff_toNat_le, UInt16.reduceToNat]
    omega
  refine ⟨?_, if_neg hbig⟩
  rw [UInt16.le_iff_toNat_le]
  exact hlow.trans (by decide)

theorem mem_of_mem_join {ls : List QString} {c : UInt16} (hc : c ∈ join ls) :
    c = dot ∨ ∃ l ∈ ls, c ∈ l := by
  induction ls with
  | nil => cases hc
  | cons l ls ih =>
      by_cases hls : ls = []
      · subst hls
        simp [join] at hc
        exact Or.inr ⟨l, by simp, hc⟩
      · rw [join_cons l hls, List.mem_append, List.mem_cons] at hc
        rcases hc with hc | hc | hc
        · exact Or.inr ⟨l, by simp, hc⟩
        · exact Or.inl hc
        · apply (ih hc).imp_right
          intro h
          obtain ⟨m, hm, hcm⟩ := h
          exact ⟨m, by simp [hm], hcm⟩

/-- An address is a host like any other. -/
theorem IsAddress.isHost {h : QString} (ha : IsAddress h) : IsHost h where
  labels := by
    constructor
    · intro hnil
      have hfour := ha.four
      rw [hnil] at hfour
      simp at hfour
    · intro l hl
      obtain ⟨hne, hdigits, -⟩ := ha.number l hl
      exact ⟨hne, fun hdot => absurd (hdigits dot hdot) (by decide)⟩
  plain := by
    intro c hc
    rw [← join_split h] at hc
    rcases mem_of_mem_join hc with rfl | ⟨l, hl, hcl⟩
    · exact plain_dot
    · exact plain_of_digit ((ha.number l hl).2.1 c hcl)

/-- A name within a host is made of its last labels. -/
theorem Within.split_suffix {x h : QString} (hin : Within x h) : x.split <:+ h.split := by
  rcases hin with rfl | ⟨p, rfl⟩
  · exact List.suffix_rfl
  · exact ⟨split p, (List.splitOn_append_cons_self p x).symm⟩

end QString

namespace CookieStore

open QString

variable {env : CookieEnv} {url₁ url₂ : QUrl} {now : ℤ} {named cookie : QNetworkCookie}

/-- The last two or three numbers, in a domain that two addresses have in common. -/
def SharedNumbers (domain host₁ host₂ : QString) : Prop :=
  ∃ numbers, (numbers.length = 2 ∨ numbers.length = 3) ∧ domain = dot :: join numbers ∧
    numbers <:+ host₁.split ∧ numbers <:+ host₂.split

theorem sharedNumbers_of_domainSafe {domain host₁ host₂ : QString} (h₁ : IsAddress host₁)
    (h₂ : IsAddress host₂) (hne : host₁ ≠ host₂) (h : DomainSafe domain host₁ host₂) :
    SharedNumbers domain host₁ host₂ := by
  rcases h with ⟨-, heq⟩ | ⟨x, hdomain, hin₁, hin₂, hlong⟩
  · exact absurd heq hne
  · have hs₁ := hin₁.split_suffix
    have hs₂ := hin₂.split_suffix
    have hfour := h₁.four
    have hfour₂ := h₂.four
    have hle := hs₁.length_le
    -- all four numbers would make the two addresses one
    have hnot : x.split.length ≠ 4 := by
      intro hlen
      have heq₁ := hs₁.eq_of_length (hlen.trans hfour.symm)
      have heq₂ := hs₂.eq_of_length (hlen.trans hfour₂.symm)
      apply hne
      rw [← join_split host₁, ← join_split host₂, ← heq₁, heq₂]
    refine ⟨x.split, ?_, by rw [join_split, hdomain], hs₁, hs₂⟩
    rcases hlong with hlen | rfl
    · omega
    · exact absurd hfour₂ hnot

def tenUrl : QUrl :=
  ⟨QString.ofString "http", QString.ofString "10.0.0.1", QString.ofString "/", by decide +kernel⟩

def elevenUrl : QUrl :=
  ⟨QString.ofString "http", QString.ofString "11.0.0.1", QString.ofString "/", by decide +kernel⟩

/-- As the server of the first address names it, and as the table has it. -/
def numberCookie : QNetworkCookie :=
  { name := bytes "id", value := bytes "7", domain := QString.ofString ".0.0.1"
    path := QString.ofString "/" }

def numberEnv : CookieEnv := knownEnv [numberCookie]

def numberHistory : List Request := [.set [numberCookie] tenUrl 0]

theorem accept_numberCookie : accept numberEnv numberCookie tenUrl = some numberCookie := by
  decide +kernel

theorem storedBy_numberHistory :
    StoredBy numberEnv numberHistory numberCookie numberCookie tenUrl :=
  ⟨_, List.mem_singleton_self _, rfl, List.mem_singleton_self _, accept_numberCookie, rfl⟩

theorem raw_numberHistory (named stored : QNetworkCookie) (url : QUrl)
    (hby : StoredBy numberEnv numberHistory named stored url) :
    (numberEnv.parseCookies (numberEnv.toRawForm stored)).head? = some stored := by
  obtain ⟨request, hrequest, hstores⟩ := hby
  cases List.mem_singleton.mp hrequest
  obtain ⟨rfl, hnamed, hstored, -⟩ := hstores
  cases List.mem_singleton.mp hnamed
  cases Option.some.inj (accept_numberCookie.symm.trans hstored)
  decide +kernel

theorem numberCookie_read : numberCookie ∈
    (cookiesForUrl numberEnv (run numberEnv numberHistory) elevenUrl 1).1 := by
  decide +kernel

end CookieStore

end OpBrowser
