import OpBrowser.Verification.Cookie.Isolation

/-! # Reading a cookie back

Which of the cookies that a URL may set are found again when the same URL asks. -/

namespace OpBrowser

namespace QString

/-! ### Lower case of paths -/

theorem toLower_append (table : UInt16 → QString) (s t : QString) :
    toLower table (s ++ t) = toLower table s ++ toLower table t :=
  List.flatMap_append

theorem toLower_prefix {table : UInt16 → QString} {s t : QString} (h : s <+: t) :
    toLower table s <+: toLower table t := by
  obtain ⟨r, rfl⟩ := h
  rw [toLower_append]
  exact List.prefix_append _ _

theorem prefix_slashed (s : QString) : s <+: s.slashed := by
  rw [slashed]
  split
  · exact List.prefix_rfl
  · exact List.prefix_append s [slash]

theorem toLower_slash (table : UInt16 → QString) : toLower table [slash] = [slash] :=
  toLower_of_plain fun c hc => by rw [List.mem_singleton.mp hc]; decide

theorem slashed_concat (s : QString) : slashed (s ++ [slash]) = s ++ [slash] := by
  rw [slashed, if_pos List.getLast?_concat]

/-! ### Numbers of labels -/

/-- How many labels a domain has, whether it starts with a dot or not. -/
def labelCount (s : QString) : ℕ := (s.split.filter (· ≠ [])).length

theorem split_dot_cons (s : QString) : split (dot :: s) = [] :: split s := by
  rw [split, List.splitOn, List.splitOnP_cons_eq_if_modifyHead, if_pos (by decide)]
  rfl

theorem labelCount_dot_cons (s : QString) : labelCount (dot :: s) = labelCount s := by
  rw [labelCount, split_dot_cons, List.filter_cons_of_neg (by decide), labelCount]

theorem labelCount_join {ls : List QString} (h : ∀ l ∈ ls, l ≠ [] ∧ dot ∉ l) :
    labelCount (join ls) = ls.length := by
  cases ls with
  | nil => rfl
  | cons l ls =>
      have hlabels : Labels (l :: ls) := ⟨List.cons_ne_nil l ls, h⟩
      rw [labelCount, split_join hlabels, List.filter_eq_self.mpr]
      intro m hm
      exact decide_eq_true (h m hm).1

end QString

namespace CookieStore

open QString

variable {env : CookieEnv} {c stored : QNetworkCookie} {url : QUrl} {db : List Row}
  {now now₁ now₂ : ℤ}

/-! ### The domain -/

/-- Every part of the host with two labels or more is looked up. -/
theorem mem_parentDomains_of_suffix {ms parts : List QString} (hs : ms <:+ parts)
    (hlen : 2 ≤ ms.length) : dot :: join ms ∈ parentDomains parts := by
  induction parts with
  | nil =>
      rw [List.suffix_nil.mp hs] at hlen
      exact absurd hlen (by decide)
  | cons part parts ih =>
      rw [parentDomains, if_pos (hlen.trans hs.length_le)]
      cases List.suffix_cons_iff.mp hs with
      | inl heq => exact heq ▸ List.mem_cons_self
      | inr hs => exact List.mem_cons_of_mem _ (ih hs)

theorem host_mem_qualifiedDomains : url.host ∈ qualifiedDomains env url :=
  List.mem_cons_self

theorem dot_host_mem_qualifiedDomains : dot :: url.host ∈ qualifiedDomains env url :=
  List.mem_cons_of_mem _ List.mem_cons_self

/-- What is left of a host when its first label and as many more are taken off as the
domain test takes off. -/
def matchParts (domain host : QString) : List QString :=
  trimParts (labelCount domain) host.split.tail

theorem matchParts_labels {domain host : QString} (hh : IsHost host) :
    ∀ l ∈ matchParts domain host, l ≠ [] ∧ dot ∉ l := by
  intro l hl
  have hmem := (trimParts_suffix _ _).mem hl
  exact hh.labels.label l ((List.tail_suffix _).mem hmem)

/-- The domains with a dot that pass the test. -/
theorem checkDomain_dot {x : QString} (hh : IsHost url.host) (hd : c.domain = dot :: x)
    (hlow : c.domain.toLower env.lowerTable = c.domain) (h : checkDomain env c url = true) :
    x = url.host ∨ x = join (matchParts c.domain url.host) := by
  simp only [checkDomain, hh.toLower, hlow] at h
  split at h
  · rename_i heq
    exact absurd (heq.symm.trans hd) (hh.ne_dot_cons x)
  · split at h
    · rename_i htail
      rw [hd] at htail
      exact Or.inl htail.2
    · have heq := of_decide_eq_true h
      rw [hd] at heq
      rw [hd]
      exact Or.inr (List.cons.inj heq).2

/-- Such a domain is looked up if it names the host or has two labels. -/
theorem dot_mem_qualifiedDomains {x : QString} (hh : IsHost url.host) (hd : c.domain = dot :: x)
    (hlow : c.domain.toLower env.lowerTable = c.domain) (h : checkDomain env c url = true) :
    dot :: x ∈ qualifiedDomains env url ↔ x = url.host ∨ 2 ≤ labelCount x := by
  have hx := checkDomain_dot hh hd hlow h
  constructor
  · intro hmem
    obtain heq | ⟨y, heq, -, hlong⟩ := mem_qualifiedDomains hh hmem
    · exact absurd heq.symm (hh.ne_dot_cons x)
    · obtain rfl := (List.cons.inj heq).2
      cases hx with
      | inl hx => exact Or.inl hx
      | inr hx =>
          cases hlong with
          | inr hhost => exact Or.inl hhost
          | inl hlong =>
              have hlabels : ∀ l ∈ matchParts c.domain url.host, l ≠ [] ∧ dot ∉ l :=
                matchParts_labels hh
              rw [hx, labelCount_join hlabels]
              rw [hx] at hlong
              by_cases hne : matchParts c.domain url.host = []
              · rw [hne] at hlong
                exact absurd hlong (by decide)
              · rw [split_join ⟨hne, hlabels⟩] at hlong
                exact Or.inr hlong
  · intro hlong
    cases hx with
    | inl hx => exact hx ▸ dot_host_mem_qualifiedDomains
    | inr hx =>
        cases hlong with
        | inl hhost => exact hhost ▸ dot_host_mem_qualifiedDomains
        | inr hlong =>
            rw [hx, labelCount_join (matchParts_labels hh)] at hlong
            rw [hx, qualifiedDomains, hh.toLower]
            apply List.mem_cons_of_mem
            apply List.mem_cons_of_mem
            exact mem_parentDomains_of_suffix (trimParts_suffix _ _) hlong

/-- The Domain attribute is missing, names the host, or has at least two labels. -/
def DomainReadable (domain : QString) (url : QUrl) : Prop :=
  domain = [] ∨ domain = url.host ∨ domain = dot :: url.host ∨ 2 ≤ labelCount domain

instance (domain : QString) (url : QUrl) : Decidable (DomainReadable domain url) :=
  inferInstanceAs (Decidable (_ ∨ _ ∨ _ ∨ _))

theorem mem_qualifiedDomains_iff (hh : IsHost url.host)
    (hlow : c.domain.toLower env.lowerTable = c.domain) (h : withDomain env c url = some stored) :
    stored.domain ∈ qualifiedDomains env url ↔ DomainReadable c.domain url := by
  rw [withDomain, hh.toLower, hlow] at h
  split at h
  · rename_i hnil
    cases Option.some.inj h
    exact iff_of_true host_mem_qualifiedDomains (Or.inl hnil)
  · rename_i hne
    split at h
    swap
    · rename_i hhost
      cases Option.some.inj h
      have hhost := not_not.mp hhost
      exact iff_of_true (hhost ▸ host_mem_qualifiedDomains) (Or.inr (Or.inl hhost))
    · rename_i hother
      obtain ⟨hcheck, heq⟩ := Option.ite_none_right_eq_some.mp h
      cases Option.some.inj heq
      by_cases hdot : c.domain.startsWithDot
      · rw [if_pos hdot] at hcheck ⊢
        obtain ⟨x, hx⟩ := List.head?_eq_some_iff.mp (of_decide_eq_true hdot)
        rw [DomainReadable, hx, dot_mem_qualifiedDomains hh hx hlow hcheck, labelCount_dot_cons]
        have hself : dot :: x ≠ url.host := (hh.ne_dot_cons x).symm
        simp [hself]
      · rw [if_neg hdot] at hcheck ⊢
        have hlow' : QString.toLower env.lowerTable (dot :: c.domain) = dot :: c.domain := by
          rw [toLower_cons plain_dot, hlow]
        rw [dot_mem_qualifiedDomains hh rfl hlow' hcheck, DomainReadable]
        have hstart : c.domain ≠ dot :: url.host := by
          intro heq
          rw [heq] at hdot
          exact hdot rfl
        simp [hne, hother, hstart]

/-! ### The path -/

/-- The path up to its last slash, if there is one. -/
theorem defaultPath_of_mem (h : slash ∈ url.path) :
    ∃ p, defaultPath url = p ++ [slash] ∧ p ++ [slash] <+: url.path := by
  have hdrop : url.path.reverse.dropWhile (· ≠ slash) ≠ [] := by
    intro hnil
    have hall := List.dropWhile_eq_nil_iff.mp hnil slash (List.mem_reverse.mpr h)
    exact absurd hall (by simp)
  obtain ⟨d, ds, hd⟩ := List.exists_cons_of_ne_nil hdrop
  have hslash : d = slash := by
    have hhead := List.head?_dropWhile_not (fun d => decide (d ≠ slash)) url.path.reverse
    rw [hd] at hhead
    simpa using hhead
  refine ⟨ds.reverse, ?_, ?_⟩
  · rw [defaultPath, hd, hslash, List.reverse_cons]
  · rw [← List.reverse_cons, ← hslash, ← hd, ← List.reverse_suffix, List.reverse_reverse]
    exact List.dropWhile_suffix _

theorem defaultPath_of_not_mem (h : slash ∉ url.path) : defaultPath url = [] := by
  rw [defaultPath, List.reverse_eq_nil_iff, List.dropWhile_eq_nil_iff]
  intro d hd
  have hne : d ≠ slash := ne_of_mem_of_not_mem (List.mem_reverse.mp hd) h
  exact decide_eq_true hne

/-- If there is no Path attribute, the path of the URL has a slash, or is empty and
gets one. -/
def PathReadable (env : CookieEnv) (path : QString) (url : QUrl) : Prop :=
  path = [] → slash ∈ url.path ∨ (urlPath env url).head? = some slash

instance (path : QString) (url : QUrl) : Decidable (PathReadable env path url) :=
  inferInstanceAs (Decidable (_ → _ ∨ _))

theorem checkPath_defaultPath (hpath : c.path = defaultPath url) : checkPath env c url = true ↔
    slash ∈ url.path ∨ (urlPath env url).head? = some slash := by
  rw [checkPath, List.isPrefixOf_iff_prefix, hpath]
  by_cases hmem : slash ∈ url.path
  · obtain ⟨p, hp, hstart⟩ := defaultPath_of_mem hmem
    apply iff_of_true _ (Or.inl hmem)
    rw [hp, toLower_append, toLower_slash, slashed_concat, ← toLower_slash env.lowerTable,
      ← toLower_append]
    exact toLower_prefix (hstart.trans (prefix_slashed url.path))
  · rw [defaultPath_of_not_mem hmem]
    simp only [hmem, false_or]
    exact List.singleton_prefix_iff_head?_eq_some

theorem checkPath_iff (h : accept env c url = some stored) :
    checkPath env stored url = true ↔ PathReadable env c.path url := by
  by_cases hpath : c.path = []
  · obtain ⟨c', hc, hstored⟩ := Option.bind_eq_some_iff.mp h
    rw [withPath, if_pos hpath] at hc
    cases Option.some.inj hc
    rw [checkPath_defaultPath (withDomain_path hstored), PathReadable]
    simp [hpath]
  · exact iff_of_true (checkPath_of_accept h hpath) fun hnil => absurd hnil hpath

/-! ### Storing and looking up -/

/-- What a cookie keeps when it is accepted. -/
theorem eq_of_withPath {d : QNetworkCookie} (h : withPath env c url = some d) :
    d = { c with path := d.path } := by
  rw [withPath] at h
  split at h
  · rw [← Option.some.inj h]
  · obtain ⟨-, heq⟩ := Option.ite_none_right_eq_some.mp h
    rw [← Option.some.inj heq]

theorem eq_of_accept (h : accept env c url = some stored) :
    stored = { c with path := stored.path, domain := stored.domain } := by
  obtain ⟨d, hd, hstored⟩ := Option.bind_eq_some_iff.mp h
  rw [eq_of_withDomain hstored, eq_of_withPath hd]

/-- The table after an accepted cookie that lives. -/
theorem setCookiesFromUrl_singleton (h : accept env c url = some stored)
    (hlive : isExpired c now = false) :
    (setCookiesFromUrl env db [c] url now).1 =
      insertCookie env (deleteCookie db stored) stored := by
  have hlive' : isExpired stored now = false := by
    rw [eq_of_accept h]
    exact hlive
  rw [setCookiesFromUrl, List.foldl_cons, List.foldl_nil, setCookie, h]
  dsimp only
  rw [hlive', if_neg Bool.false_ne_true]

/-- A row that was inserted is found under its domain. -/
theorem mem_queryCookies_insert
    (hraw : (env.parseCookies (env.toRawForm stored)).head? = some stored) :
    stored ∈ queryCookies env (insertCookie env db stored) stored.domain := by
  apply List.mem_filterMap.mpr
  refine ⟨rowOf env stored, mem_select.mpr ⟨?_, rfl⟩, hraw⟩
  exact List.mem_append_right _ (List.mem_singleton_self _)

/-- The loop keeps what passes its three tests. -/
theorem mem_sift_of {cookies : List QNetworkCookie} (hmem : c ∈ cookies)
    (hpath : checkPath env c url = true) (hsecure : c.isSecure = true → isHttps env url = true)
    (hlive : isExpired c now = false) : c ∈ (sift env url now cookies db).1 := by
  induction cookies generalizing db with
  | nil => cases hmem
  | cons first rest ih =>
      rw [sift]
      cases List.mem_cons.mp hmem with
      | inl heq =>
          subst heq
          have htest : (!isHttps env url && c.isSecure) = false := by
            cases hflag : c.isSecure with
            | false => exact Bool.and_false _
            | true => rw [hsecure hflag]; rfl
          rw [hpath, htest, hlive]
          exact List.mem_cons_self
      | inr hmem =>
          split
          · exact ih hmem
          · split
            · exact ih hmem
            · split
              · exact ih hmem
              · exact List.mem_cons_of_mem first (ih hmem)

theorem mem_cookiesForUrl_of (hsort : ∀ cookies, (env.sortByPath cookies).Perm cookies)
    {q : QString} (hq : q ∈ qualifiedDomains env url) (hmem : c ∈ queryCookies env db q)
    (hpath : checkPath env c url = true) (hsecure : c.isSecure = true → isHttps env url = true)
    (hlive : isExpired c now = false) : c ∈ (cookiesForUrl env db url now).1 := by
  have hfound : c ∈ (qualifiedDomains env url).flatMap (queryCookies env db) :=
    List.mem_flatMap.mpr ⟨q, hq, hmem⟩
  rw [cookiesForUrl]
  dsimp only
  rw [if_neg (List.ne_nil_of_mem hfound)]
  exact (hsort _).mem_iff.mpr (mem_sift_of hfound hpath hsecure hlive)

/-! ### Reading back -/

/-- The call stores the cookie, and the lookup that follows returns one with this name,
this value and the path and the domain that were stored. -/
def ReadBack (env : CookieEnv) (db : List Row) (c stored : QNetworkCookie) (url : QUrl)
    (now₁ now₂ : ℤ) : Prop :=
  ∃ d ∈ (cookiesForUrl env (setCookiesFromUrl env db [c] url now₁).1 url now₂).1,
    d.name = c.name ∧ d.value = c.value ∧ d.path = stored.path ∧ d.domain = stored.domain

/-- Every row holds the domain of its cookie, as the rows that the store writes do. -/
def Coherent (env : CookieEnv) (db : List Row) : Prop :=
  ∀ row ∈ db, ∀ d, (env.parseCookies row.content).head? = some d → row.domain = d.domain.toLatin1

theorem coherent_insert (hdb : Coherent env db)
    (hraw : (env.parseCookies (env.toRawForm stored)).head? = some stored) :
    Coherent env (insertCookie env (deleteCookie db stored) stored) := by
  intro row hrow d hd
  cases List.mem_append.mp hrow with
  | inl hmem =>
      have hmem := deleteCookie_subset _ stored hmem
      exact hdb row (deleteCookie_subset db stored hmem) d hd
  | inr hmem =>
      cases List.mem_singleton.mp hmem
      cases Option.some.inj (hraw.symm.trans hd)
      rfl

/-- Under a domain of a host, only cookies of this very domain are found. -/
theorem domain_of_mem_queryCookies {q : QString} (hh : IsHost url.host)
    (hq : q ∈ qualifiedDomains env url) (hdb : Coherent env db)
    (h : c ∈ queryCookies env db q) : c.domain = q := by
  obtain ⟨row, hrow, hparse⟩ := List.mem_filterMap.mp h
  obtain ⟨hmem, hdomain⟩ := mem_select.mp hrow
  apply (unshared_of_mem_qualifiedDomains hh hq).eq_of_toLatin1
  exact (hdb row hmem c hparse).symm.trans hdomain

theorem mem_qualifiedDomains_of_accept (hh : IsHost url.host)
    (hlow : c.domain.toLower env.lowerTable = c.domain) (h : accept env c url = some stored) :
    stored.domain ∈ qualifiedDomains env url ↔ DomainReadable c.domain url := by
  obtain ⟨d, hd, hstored⟩ := Option.bind_eq_some_iff.mp h
  have hdomain : d.domain = c.domain := by rw [eq_of_withPath hd]
  rw [← hdomain] at hlow ⊢
  exact mem_qualifiedDomains_iff hh hlow hstored

theorem readBack_of_readable (accepted : accept env c url = some stored)
    (host : IsHost url.host) (lower : c.domain.toLower env.lowerTable = c.domain)
    (secure : c.isSecure = true → isHttps env url = true)
    (live₁ : isExpired c now₁ = false) (live₂ : isExpired c now₂ = false)
    (raw : (env.parseCookies (env.toRawForm stored)).head? = some stored)
    (sort : ∀ cookies, (env.sortByPath cookies).Perm cookies)
    (hdomain : DomainReadable c.domain url) (hpath : PathReadable env c.path url) :
    ReadBack env db c stored url now₁ now₂ := by
  have hfields := eq_of_accept accepted
  rw [ReadBack, setCookiesFromUrl_singleton accepted live₁]
  refine ⟨stored, ?_, by rw [hfields], by rw [hfields], rfl, rfl⟩
  apply mem_cookiesForUrl_of sort ((mem_qualifiedDomains_of_accept host lower accepted).mpr hdomain)
  · exact mem_queryCookies_insert raw
  · exact (checkPath_iff accepted).mpr hpath
  · rw [hfields]
    exact secure
  · rw [hfields]
    exact live₂

theorem readable_of_readBack (accepted : accept env c url = some stored)
    (host : IsHost url.host) (lower : c.domain.toLower env.lowerTable = c.domain)
    (live₁ : isExpired c now₁ = false)
    (raw : (env.parseCookies (env.toRawForm stored)).head? = some stored)
    (sort : ∀ cookies, (env.sortByPath cookies).Perm cookies) (hdb : Coherent env db)
    (h : ReadBack env db c stored url now₁ now₂) :
    DomainReadable c.domain url ∧ PathReadable env c.path url := by
  rw [ReadBack, setCookiesFromUrl_singleton accepted live₁] at h
  obtain ⟨d, hd, -, -, hpath, hdomain⟩ := h
  obtain ⟨⟨q, hq, hquery⟩, hcheck, -, -⟩ := mem_cookiesForUrl sort hd
  have hfound := domain_of_mem_queryCookies host hq (coherent_insert hdb raw) hquery
  constructor
  · apply (mem_qualifiedDomains_of_accept host lower accepted).mp
    rw [← hdomain, hfound]
    exact hq
  · apply (checkPath_iff accepted).mp
    rw [checkPath, ← hpath]
    exact hcheck

def siteUrl : QUrl :=
  ⟨QString.ofString "http", QString.ofString "site.com", QString.ofString "/", by decide +kernel⟩

/-- As the server names it. -/
def comCookie : QNetworkCookie :=
  { name := bytes "id", value := bytes "7", domain := QString.ofString ".com" }

/-- As the table has it. -/
def comCookieStored : QNetworkCookie := { comCookie with path := QString.ofString "/" }

def comEnv : CookieEnv := knownEnv [comCookieStored]

end CookieStore

end OpBrowser
