import Mathlib.Data.List.Nodup
import Mathlib.Logic.Function.Basic
import OpBrowser.Verification.Cookie.Isolation

/-! # The table as a map

What the store is for: a map from domains, paths and names to cookies. The table keeps
Latin-1 forms of the keys, so it is this map as long as no two keys share theirs. -/

namespace OpBrowser

namespace CookieStore

open QString

/-! ### The map -/

/-- Domain, path and name, as the server writes them. -/
abbrev Key := QString × QString × Bytes

/-- What the table keeps of a key. -/
def Key.toLatin1 (k : Key) : Bytes × Bytes × Bytes := (k.1.toLatin1, k.2.1.toLatin1, k.2.2)

def keyIn (c : QNetworkCookie) : Key := (c.domain, c.path, c.name)

theorem toLatin1_keyIn (c : QNetworkCookie) : (keyIn c).toLatin1 = keyOf c := rfl

abbrev CookieMap := Key → Option QNetworkCookie

/-- A call of `setCookiesFromUrl`. -/
structure Call where
  cookieList : List QNetworkCookie
  url : QUrl
  now : ℤ

variable (env : CookieEnv)

namespace CookieMap

/-- An accepted cookie sets its key if it lives and clears it if it has expired. -/
def setCookie (url : QUrl) (now : ℤ) (m : CookieMap) (c : QNetworkCookie) : CookieMap :=
  match accept env c url with
  | none => m
  | some stored =>
      Function.update m (keyIn stored) (if isExpired stored now then none else some stored)

def call (m : CookieMap) (r : Call) : CookieMap :=
  r.cookieList.foldl (setCookie env r.url r.now) m

/-- No other key in the map has the Latin-1 form of this one. -/
def Clear (m : CookieMap) (k : Key) : Prop :=
  ∀ k' c, m k' = some c → k'.toLatin1 = k.toLatin1 → k' = k

/-- The cookies of the call are accepted under clear keys, each when its turn comes. -/
def ClearCall (m : CookieMap) (r : Call) : Prop :=
  Along (fun m c => ∀ stored, accept env c r.url = some stored → m.Clear (keyIn stored))
    (setCookie env r.url r.now) m r.cookieList

/-- No cookie of another domain in the map has the Latin-1 form of this one. -/
def ClearDomain (m : CookieMap) (domain : QString) : Prop :=
  ∀ k c, m k = some c → k.1.toLatin1 = domain.toLatin1 → k.1 = domain

end CookieMap

/-- The call on the table. -/
def call (db : List Row) (r : Call) : List Row :=
  (setCookiesFromUrl env db r.cookieList r.url r.now).1

/-- The query for a domain returns the cookies that the map has for it, each once. -/
structure Exact (db : List Row) (m : CookieMap) (domain : QString) : Prop where
  once : (queryCookies env db domain).Nodup
  mem : ∀ c, c ∈ queryCookies env db domain ↔ ∃ path name, m (domain, path, name) = some c

/-! ### The table represents the map -/

/-- The rows are those of the cookies in the map. -/
structure Represents (cookies : List QNetworkCookie) (db : List Row) (m : CookieMap) : Prop where
  rows : db = cookies.map (rowOf env)
  keys : (cookies.map keyIn).Nodup
  mem : ∀ k c, m k = some c ↔ c ∈ cookies ∧ keyIn c = k
  raw : ∀ c ∈ cookies, (env.parseCookies (env.toRawForm c)).head? = some c

variable {env} {cookies : List QNetworkCookie} {db : List Row} {m : CookieMap}
  {c stored : QNetworkCookie} {url : QUrl} {now : ℤ}

theorem represents_nil : Represents env [] [] fun _ => none where
  rows := rfl
  keys := List.nodup_nil
  mem k c := by simp
  raw c hc := by cases hc

/-- Removing a clear key removes its own cookie only. -/
theorem Represents.delete (h : Represents env cookies db m) (hclear : m.Clear (keyIn stored)) :
    Represents env (cookies.filter fun c => keyIn c ≠ keyIn stored) (deleteCookie db stored)
      (Function.update m (keyIn stored) none) where
  rows := by
    rw [h.rows, deleteCookie, List.filter_map]
    congr 1
    apply List.filter_congr
    intro c hc
    have hkey : keyOf c = keyOf stored ↔ keyIn c = keyIn stored := by
      constructor
      · intro heq
        exact hclear (keyIn c) c ((h.mem _ c).mpr ⟨hc, rfl⟩) heq
      · intro heq
        rw [← toLatin1_keyIn, heq, toLatin1_keyIn]
    have hrow : ((rowOf env c).domain, (rowOf env c).path, (rowOf env c).name) = keyOf c := rfl
    simp only [Function.comp_apply, hrow, ne_eq, hkey]
  keys := h.keys.sublist (List.filter_sublist.map keyIn)
  mem k c := by
    by_cases hk : k = keyIn stored
    · subst hk
      simp only [Function.update_self, List.mem_filter]
      constructor
      · intro hnone
        cases hnone
      · intro hmem
        exact absurd hmem.2 (of_decide_eq_true hmem.1.2)
    · rw [Function.update_of_ne hk, h.mem, List.mem_filter]
      constructor
      · intro hmem
        exact ⟨⟨hmem.1, decide_eq_true (hmem.2 ▸ hk)⟩, hmem.2⟩
      · intro hmem
        exact ⟨hmem.1.1, hmem.2⟩
  raw c hc := h.raw c (List.mem_filter.mp hc).1

/-- Inserting under a key that is not there. -/
theorem Represents.insert (h : Represents env cookies db m) (hfree : m (keyIn stored) = none)
    (hdelete : deleteCookie db stored = db)
    (hraw : (env.parseCookies (env.toRawForm stored)).head? = some stored) :
    Represents env (cookies ++ [stored]) (insertCookie env db stored)
      (Function.update m (keyIn stored) (some stored)) where
  rows := by rw [insertCookie, hdelete, h.rows, List.map_append, List.map_singleton]
  keys := by
    rw [List.map_append, List.map_singleton, ← List.concat_eq_append, List.nodup_concat]
    refine ⟨?_, h.keys⟩
    intro hmem
    obtain ⟨c, hc, hkey⟩ := List.mem_map.mp hmem
    have hsome := (h.mem (keyIn stored) c).mpr ⟨hc, hkey⟩
    rw [hfree] at hsome
    cases hsome
  mem k c := by
    rw [List.mem_append, List.mem_singleton]
    by_cases hk : k = keyIn stored
    · subst hk
      rw [Function.update_self, Option.some_inj]
      constructor
      · intro heq
        exact ⟨Or.inr heq.symm, heq ▸ rfl⟩
      · intro hmem
        cases hmem.1 with
        | inl hc =>
            have hsome := (h.mem (keyIn stored) c).mpr ⟨hc, hmem.2⟩
            rw [hfree] at hsome
            cases hsome
        | inr heq => exact heq.symm
    · rw [Function.update_of_ne hk, h.mem]
      constructor
      · intro hmem
        exact ⟨Or.inl hmem.1, hmem.2⟩
      · intro hmem
        cases hmem.1 with
        | inl hc => exact ⟨hc, hmem.2⟩
        | inr heq => exact absurd (heq ▸ hmem.2.symm) hk
  raw c hc := by
    cases List.mem_append.mp hc with
    | inl hc => exact h.raw c hc
    | inr hc => exact List.mem_singleton.mp hc ▸ hraw

theorem deleteCookie_deleteCookie (db : List Row) (c : QNetworkCookie) :
    deleteCookie (deleteCookie db c) c = deleteCookie db c := by
  rw [deleteCookie, deleteCookie, List.filter_filter]
  simp only [Bool.and_self]

/-- One round of the loop of `setCookiesFromUrl`, on the table and on the map. -/
theorem Represents.setCookie (now : ℤ) {s : List Row × Bool} (h : Represents env cookies s.1 m)
    (hclear : ∀ stored, accept env c url = some stored → m.Clear (keyIn stored))
    (hraw : ∀ stored, accept env c url = some stored →
      (env.parseCookies (env.toRawForm stored)).head? = some stored) :
    ∃ cookies', Represents env cookies' (CookieStore.setCookie env url now s c).1
      (m.setCookie env url now c) := by
  rw [CookieStore.setCookie, CookieMap.setCookie]
  cases haccept : accept env c url with
  | none => exact ⟨cookies, h⟩
  | some stored =>
      have hdelete := h.delete (hclear stored haccept)
      dsimp only
      split
      · exact ⟨_, hdelete⟩
      · have hinsert := hdelete.insert (Function.update_self _ _ _)
          (deleteCookie_deleteCookie s.1 stored) (hraw stored haccept)
        rw [Function.update_idem] at hinsert
        exact ⟨_, hinsert⟩

/-- A call, by induction on the cookies that are left. -/
theorem Represents.call {cookieList : List QNetworkCookie} {s : List Row × Bool}
    (h : Represents env cookies s.1 m)
    (hclear : Along (fun m c => ∀ stored, accept env c url = some stored → m.Clear (keyIn stored))
      (CookieMap.setCookie env url now) m cookieList)
    (hraw : ∀ c ∈ cookieList, ∀ stored, accept env c url = some stored →
      (env.parseCookies (env.toRawForm stored)).head? = some stored) :
    ∃ cookies', Represents env cookies'
      (cookieList.foldl (CookieStore.setCookie env url now) s).1
      (cookieList.foldl (CookieMap.setCookie env url now) m) := by
  induction cookieList generalizing cookies s m with
  | nil => exact ⟨cookies, h⟩
  | cons c cookieList ih =>
      obtain ⟨cookies', hnext⟩ := h.setCookie now hclear.1 (hraw c List.mem_cons_self)
      exact ih hnext hclear.2 fun d hd => hraw d (List.mem_cons_of_mem c hd)

/-- **Refinement.** A run of calls, by induction on the calls that are left. -/
theorem Represents.run {calls : List Call} (h : Represents env cookies db m)
    (hclear : Along (CookieMap.ClearCall env) (CookieMap.call env) m calls)
    (hraw : ∀ r ∈ calls, ∀ c ∈ r.cookieList, ∀ stored, accept env c r.url = some stored →
      (env.parseCookies (env.toRawForm stored)).head? = some stored) :
    ∃ cookies', Represents env cookies' (calls.foldl (CookieStore.call env) db)
      (calls.foldl (CookieMap.call env) m) := by
  induction calls generalizing cookies db m with
  | nil => exact ⟨cookies, h⟩
  | cons r calls ih =>
      have hcall := Represents.call (s := (db, false)) h hclear.1 (hraw r List.mem_cons_self)
      obtain ⟨cookies', hnext⟩ := hcall
      exact ih hnext hclear.2 fun r' hr => hraw r' (List.mem_cons_of_mem r hr)

/-! ### Queries -/

theorem Represents.queryCookies (h : Represents env cookies db m) (domain : QString) :
    (queryCookies env db domain).Perm
      (cookies.filter fun c => c.domain.toLatin1 = domain.toLatin1) := by
  apply (queryCookies_perm db domain).trans
  apply List.Perm.of_eq
  rw [h.rows, List.filter_map, List.filterMap_map]
  calc (cookies.filter _).filterMap _
    _ = (cookies.filter fun c => c.domain.toLatin1 = domain.toLatin1).filterMap some := by
      apply List.filterMap_congr
      intro c hc
      exact h.raw c (List.mem_filter.mp hc).1
    _ = _ := List.filterMap_some

/-- A query is exact if and only if no other domain in the map looks like this one. -/
theorem Represents.exact_iff (h : Represents env cookies db m) (domain : QString) :
    Exact env db m domain ↔ m.ClearDomain domain := by
  have hmem (c : QNetworkCookie) : c ∈ CookieStore.queryCookies env db domain ↔
      c ∈ cookies ∧ c.domain.toLatin1 = domain.toLatin1 := by
    rw [(h.queryCookies domain).mem_iff, List.mem_filter, decide_eq_true_iff]
  constructor
  · intro hexact k c hk hsame
    obtain ⟨hc, hkey⟩ := (h.mem k c).mp hk
    subst hkey
    obtain ⟨path, name, hsome⟩ := (hexact.mem c).mp ((hmem c).mpr ⟨hc, hsame⟩)
    exact congrArg Prod.fst ((h.mem _ c).mp hsome).2
  · intro hclear
    constructor
    · rw [(h.queryCookies domain).nodup_iff]
      exact h.keys.of_map.filter _
    · intro c
      rw [hmem]
      constructor
      · intro hc
        have hsome := (h.mem (keyIn c) c).mpr ⟨hc.1, rfl⟩
        have hdomain : c.domain = domain := hclear (keyIn c) c hsome hc.2
        exact ⟨c.path, c.name, hdomain ▸ hsome⟩
      · intro hc
        obtain ⟨path, name, hsome⟩ := hc
        obtain ⟨hmem, hkey⟩ := (h.mem _ c).mp hsome
        have hdomain : c.domain = domain := congrArg Prod.fst hkey
        exact ⟨hmem, by rw [hdomain]⟩

theorem CookieMap.clear_of_unshared (m : CookieMap) {k : Key} (hdomain : Unshared k.1)
    (hpath : Unshared k.2.1) : m.Clear k := by
  intro k' c _ hkey
  obtain ⟨hd, hrest⟩ := Prod.mk.inj hkey
  obtain ⟨hp, hn⟩ := Prod.mk.inj hrest
  exact Prod.ext (hdomain.eq_of_toLatin1 hd) (Prod.ext (hpath.eq_of_toLatin1 hp) hn)

theorem CookieMap.clearDomain_of_unshared (m : CookieMap) {domain : QString}
    (h : Unshared domain) : m.ClearDomain domain :=
  fun _ _ _ hdomain => h.eq_of_toLatin1 hdomain

/-- A call may be made on every map if what it stores has such keys. -/
theorem CookieMap.clearCall_of_unshared {r : Call} (h : ∀ c ∈ r.cookieList,
    ∀ stored ∈ accept env c r.url, Unshared stored.domain ∧ Unshared stored.path)
    (m : CookieMap) : ClearCall env m r := by
  rw [ClearCall]
  generalize r.cookieList = cookieList at h
  induction cookieList generalizing m with
  | nil => trivial
  | cons c cookieList ih =>
      refine ⟨?_, ih _ fun d hd => h d (List.mem_cons_of_mem c hd)⟩
      intro stored hstored
      obtain ⟨hdomain, hpath⟩ := h c List.mem_cons_self stored hstored
      exact m.clear_of_unshared hdomain hpath

/-! Two visits. The second one renews a cookie and takes another one back by its date. -/

/-- As a server of the site names it, and as the table has it. -/
def cartCookie (value : String) (date : ℤ) : QNetworkCookie :=
  { siteCookieStored with name := bytes "cart", value := bytes value, expirationDate := some date }

/-- Without a domain and a path. -/
def langCookie : QNetworkCookie := { name := bytes "lang", value := bytes "en" }

def langCookieStored : QNetworkCookie :=
  { langCookie with domain := mailUrl.host, path := QString.ofString "/" }

def renewedCookie : QNetworkCookie := { siteCookieStored with value := bytes "8" }

def visitEnv : CookieEnv :=
  knownEnv [siteCookieStored, langCookieStored, cartCookie "3" 9, cartCookie "4" 2, renewedCookie]

def visits : List Call :=
  [⟨[siteCookie, langCookie, cartCookie "3" 9], mailUrl, 0⟩,
    ⟨[renewedCookie, cartCookie "4" 2], newsUrl, 5⟩]

theorem letterHost : QString.questionMark ∉ QString.ofString "site.com" := by decide +kernel

/-- A URL of one host with the path `/c/`. -/
def letterUrl (c : UInt16) : QUrl :=
  ⟨QString.ofString "http", QString.ofString "site.com",
    [QString.slash, c, QString.slash], letterHost⟩

/-- As the server names it: with the path of the URL. -/
def letterCookie (value : String) : QNetworkCookie := { name := bytes "id", value := bytes value }

/-- As the table should have it. -/
def letterCookieStored (c : UInt16) (value : String) : QNetworkCookie :=
  { letterCookie value with
    domain := QString.ofString "site.com"
    path := [QString.slash, c, QString.slash] }

def letterEnv : CookieEnv :=
  knownEnv [letterCookieStored 0x436 "1", letterCookieStored 0x44F "2"]

def letterCalls : List Call :=
  [⟨[letterCookie "1"], letterUrl 0x436, 0⟩, ⟨[letterCookie "2"], letterUrl 0x44F, 0⟩]

end CookieStore

end OpBrowser
