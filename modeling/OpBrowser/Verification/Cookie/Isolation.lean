import OpBrowser.Library.Run
import OpBrowser.Verification.Cookie.Domains

/-! # Isolation of cookies

Every row of the table is traced back to the call that stored it. What a URL gets back is
then bounded by what that call checked and by what the lookup checks. -/

namespace OpBrowser

namespace CookieStore

open QString

variable {env : CookieEnv} {row : Row} {db : List Row} {url : QUrl} {now : ℤ}
  {named stored cookie : QNetworkCookie}

/-! ### The rows of the table -/

theorem mem_select {r : Row} {domain : Bytes} :
    r ∈ env.select db domain ↔ r ∈ db ∧ r.domain = domain := by
  rw [(env.select_perm db domain).mem_iff, List.mem_filter, decide_eq_true_iff]

/-- A query up to the order of the rows. -/
theorem queryCookies_perm (db : List Row) (domain : QString) :
    (queryCookies env db domain).Perm ((db.filter fun r => r.domain = domain.toLatin1).filterMap
      fun r => (env.parseCookies r.content).head?) :=
  (env.select_perm db domain.toLatin1).filterMap _

theorem deleteCookie_subset (db : List Row) (cookie : QNetworkCookie) :
    deleteCookie db cookie ⊆ db :=
  List.filter_subset_self db

/-- One round of the loop stores what it accepts. -/
theorem mem_setCookie {s : List Row × Bool} (h : row ∈ (setCookie env url now s named).1) :
    row ∈ s.1 ∨ ∃ stored, accept env named url = some stored ∧ isExpired stored now = false ∧
      row = rowOf env stored := by
  rw [setCookie] at h
  split at h
  · exact Or.inl h
  · rename_i stored haccept
    dsimp only at h
    split at h
    · exact Or.inl (deleteCookie_subset s.1 stored h)
    · rename_i hlive
      cases List.mem_append.mp h with
      | inl hmem =>
          have hmem := deleteCookie_subset _ stored hmem
          exact Or.inl (deleteCookie_subset s.1 stored hmem)
      | inr hmem =>
          exact Or.inr ⟨stored, haccept, Bool.eq_false_iff.mpr hlive, List.mem_singleton.mp hmem⟩

theorem mem_setCookiesFromUrl {cookieList : List QNetworkCookie}
    (h : row ∈ (setCookiesFromUrl env db cookieList url now).1) :
    row ∈ db ∨ ∃ named ∈ cookieList, ∃ stored, accept env named url = some stored ∧
      isExpired stored now = false ∧ row = rowOf env stored := by
  have hstep : ∀ (s : List Row × Bool) named row, row ∈ (setCookie env url now s named).1 →
      row ∈ s.1 ∨ ∃ stored, accept env named url = some stored ∧ isExpired stored now = false ∧
        row = rowOf env stored :=
    fun s named row => mem_setCookie
  exact mem_or_born (fun row (s : List Row × Bool) => row ∈ s.1) _ hstep h

theorem sift_subset (cookies : List QNetworkCookie) (db : List Row) :
    (sift env url now cookies db).2 ⊆ db := by
  induction cookies generalizing db with
  | nil => exact List.Subset.refl db
  | cons cookie rest ih =>
      rw [sift]
      split
      · exact ih db
      · split
        · exact ih db
        · split
          · exact List.Subset.trans (ih _) (deleteCookie_subset db cookie)
          · exact ih db

/-- A lookup only removes rows. -/
theorem cookiesForUrl_subset : (cookiesForUrl env db url now).2 ⊆ db := by
  rw [cookiesForUrl]
  dsimp only
  split
  · exact List.Subset.refl db
  · exact sift_subset _ db

/-- The request stored this cookie for this URL. The server had named it so. -/
def Stores (env : CookieEnv) (named stored : QNetworkCookie) (url₁ : QUrl) : Request → Prop
  | .set cookieList url now =>
      url = url₁ ∧ named ∈ cookieList ∧ accept env named url = some stored ∧
        isExpired stored now = false
  | .get _ _ => False

def StoredBy (env : CookieEnv) (history : List Request) (named stored : QNetworkCookie)
    (url₁ : QUrl) : Prop :=
  ∃ request ∈ history, Stores env named stored url₁ request

theorem mem_handle {request : Request} (h : row ∈ handle env db request) :
    row ∈ db ∨ ∃ named stored url₁, Stores env named stored url₁ request ∧
      row = rowOf env stored := by
  cases request with
  | set cookieList url now =>
      cases mem_setCookiesFromUrl h with
      | inl hmem => exact Or.inl hmem
      | inr hnew =>
          obtain ⟨named, hnamed, stored, haccept, hlive, heq⟩ := hnew
          exact Or.inr ⟨named, stored, url, ⟨rfl, hnamed, haccept, hlive⟩, heq⟩
  | get url now => exact Or.inl (cookiesForUrl_subset h)

/-- Over a whole history every row has a call that stored it. -/
theorem mem_run {history : List Request} (h : row ∈ run env history) :
    ∃ named stored url₁, StoredBy env history named stored url₁ ∧ row = rowOf env stored := by
  have hstep : ∀ db request row, row ∈ handle env db request → row ∈ db ∨
      ∃ named stored url₁, Stores env named stored url₁ request ∧ row = rowOf env stored :=
    fun db request row => mem_handle
  cases mem_or_born (fun row db => row ∈ db) _ hstep h with
  | inl hmem => cases hmem
  | inr hnew =>
      obtain ⟨request, hrequest, named, stored, url₁, hstores, heq⟩ := hnew
      exact ⟨named, stored, url₁, ⟨request, hrequest, hstores⟩, heq⟩

/-! ### What a lookup returns -/

theorem mem_sift {cookies : List QNetworkCookie}
    (h : cookie ∈ (sift env url now cookies db).1) :
    cookie ∈ cookies ∧ checkPath env cookie url = true ∧
      (cookie.isSecure = true → isHttps env url = true) ∧ isExpired cookie now = false := by
  induction cookies generalizing db with
  | nil => cases h
  | cons first rest ih =>
      -- each of the tests that drop the first cookie leaves the rest
      have hrest : ∀ db, cookie ∈ (sift env url now rest db).1 →
          cookie ∈ first :: rest ∧ checkPath env cookie url = true ∧
            (cookie.isSecure = true → isHttps env url = true) ∧ isExpired cookie now = false :=
        fun db hmem => ⟨List.mem_cons_of_mem first (ih hmem).1, (ih hmem).2⟩
      rw [sift] at h
      split at h
      · exact hrest _ h
      · rename_i hpath
        split at h
        · exact hrest _ h
        · rename_i hsecure
          split at h
          · exact hrest _ h
          · rename_i hlive
            cases List.mem_cons.mp h with
            | inr hmem => exact hrest _ hmem
            | inl heq =>
                subst heq
                refine ⟨List.mem_cons_self, by simpa using hpath, ?_, Bool.eq_false_iff.mpr hlive⟩
                intro hflag
                simpa [hflag] using hsecure

/-- What comes back was found under a domain of the host, and passed the three tests. -/
theorem mem_cookiesForUrl (hsort : ∀ cookies, (env.sortByPath cookies).Perm cookies)
    (h : cookie ∈ (cookiesForUrl env db url now).1) :
    (∃ q ∈ qualifiedDomains env url, cookie ∈ queryCookies env db q) ∧
      checkPath env cookie url = true ∧ (cookie.isSecure = true → isHttps env url = true) ∧
        isExpired cookie now = false := by
  rw [cookiesForUrl] at h
  dsimp only at h
  split at h
  · cases h
  · have hkept := mem_sift ((hsort _).mem_iff.mp h)
    exact ⟨List.mem_flatMap.mp hkept.1, hkept.2⟩

/-- A cookie that is found under a domain of a host was stored under it. -/
theorem mem_queryCookies {history : List Request} {q : QString} (hh : IsHost url.host)
    (hq : q ∈ qualifiedDomains env url)
    (hraw : ∀ named stored url₁, StoredBy env history named stored url₁ →
      (env.parseCookies (env.toRawForm stored)).head? = some stored)
    (h : cookie ∈ queryCookies env (run env history) q) :
    (∃ named url₁, StoredBy env history named cookie url₁) ∧ cookie.domain = q := by
  obtain ⟨row, hrow, hparse⟩ := List.mem_filterMap.mp h
  obtain ⟨hmem, hdomain⟩ := mem_select.mp hrow
  obtain ⟨named, stored, url₁, hstored, heq⟩ := mem_run hmem
  rw [heq] at hdomain hparse
  cases Option.some.inj ((hraw named stored url₁ hstored).symm.trans hparse)
  exact ⟨⟨named, url₁, hstored⟩,
    (unshared_of_mem_qualifiedDomains hh hq).eq_of_toLatin1 hdomain⟩

/-! ### What the call had checked -/

/-- The path test lets a cookie keep the path that the server named. -/
theorem withPath_spec {c : QNetworkCookie} (h : withPath env named url = some c)
    (hpath : named.path ≠ []) : c = named ∧ checkPath env named url = true := by
  rw [withPath, if_neg hpath] at h
  obtain ⟨hcheck, heq⟩ := Option.ite_none_right_eq_some.mp h
  exact ⟨(Option.some.inj heq).symm, hcheck⟩

/-- The domain test changes the domain only. -/
theorem eq_of_withDomain {c : QNetworkCookie} (h : withDomain env c url = some stored) :
    stored = { c with domain := stored.domain } := by
  rw [withDomain] at h
  split at h
  · rw [← Option.some.inj h]
  · split at h
    · obtain ⟨-, heq⟩ := Option.ite_none_right_eq_some.mp h
      rw [← Option.some.inj heq]
      split <;> rfl
    · rw [← Option.some.inj h]

theorem withDomain_path {c : QNetworkCookie} (h : withDomain env c url = some stored) :
    stored.path = c.path := by
  rw [eq_of_withDomain h]

theorem checkPath_of_accept (h : accept env named url = some stored) (hpath : named.path ≠ []) :
    checkPath env stored url = true := by
  obtain ⟨c, hc, hstored⟩ := Option.bind_eq_some_iff.mp h
  obtain ⟨heq, hcheck⟩ := withPath_spec hc hpath
  rw [checkPath, withDomain_path hstored, heq]
  exact hcheck

theorem settable_of_accept (hh : IsHost url.host) (h : accept env named url = some stored) :
    Settable (stored.domain.toLower env.lowerTable) url.host := by
  obtain ⟨c, -, hstored⟩ := Option.bind_eq_some_iff.mp h
  exact settable_of_withDomain hh hstored

/-! ### Isolation -/

/-- What makes it safe that a cookie which one URL stored goes to another one. -/
structure MayReturn (env : CookieEnv) (named cookie : QNetworkCookie) (url₁ url₂ : QUrl)
    (now : ℤ) : Prop where
  domain : DomainSafe cookie.domain url₁.host url₂.host
  path : (cookie.path.toLower env.lowerTable).slashed <+: urlPath env url₂
  path_set : named.path ≠ [] →
    (cookie.path.toLower env.lowerTable).slashed <+: urlPath env url₁
  secure : cookie.isSecure = true → isHttps env url₂ = true
  fresh : ∀ date, cookie.expirationDate = some date → now ≤ date

def mailUrl : QUrl :=
  ⟨QString.ofString "http", QString.ofString "mail.site.com", QString.ofString "/in", by
    decide +kernel⟩

def newsUrl : QUrl :=
  ⟨QString.ofString "http", QString.ofString "news.site.com", [], by decide +kernel⟩

/-- As the server of the first host names it. -/
def siteCookie : QNetworkCookie :=
  { name := bytes "id", value := bytes "7", domain := QString.ofString "site.com" }

/-- As the table has it. -/
def siteCookieStored : QNetworkCookie :=
  { siteCookie with domain := QString.ofString ".site.com", path := QString.ofString "/" }

/-- The raw form of a cookie, without its date. -/
def rawForm (c : QNetworkCookie) : Bytes :=
  c.name ++ bytes "=" ++ c.value ++ (if c.isSecure then bytes "; secure" else []) ++
    bytes "; domain=" ++ c.domain.toLatin1 ++ bytes "; path=" ++ c.path.toLatin1

/-- Qt, as far as these cookies need it, and a query that returns the rows as they stand. -/
def knownEnv (known : List QNetworkCookie) : CookieEnv where
  lowerTable c := [c]
  toRawForm := rawForm
  parseCookies raw := known.filter fun c => rawForm c = raw
  sortByPath cookies := cookies
  select db domain := db.filter fun r => r.domain = domain
  select_perm _ _ := List.Perm.refl _

def siteEnv : CookieEnv := knownEnv [siteCookieStored]

end CookieStore

end OpBrowser
