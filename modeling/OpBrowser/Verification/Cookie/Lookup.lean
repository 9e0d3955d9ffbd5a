import Mathlib.Data.List.Nodup
import Mathlib.Data.List.Perm.Basic
import Mathlib.Data.List.Sort
import OpBrowser.Verification.Cookie.ReadBack

/-! # What a lookup returns and what it removes

A lookup joins the queries for the domains of a host, sifts them and sorts what is left.
The queries are read here against the table as a set of cookies. -/

namespace OpBrowser

namespace CookieStore

open QString

variable {env : CookieEnv} {db : List Row} {url : QUrl} {now : ℤ} {c d : QNetworkCookie}

/-! ### The table -/

/-- The primary key of a row. -/
def Row.key (r : Row) : Bytes × Bytes × Bytes := (r.domain, r.path, r.name)

/-- The cookie that a row holds. -/
def Row.cookie (env : CookieEnv) (r : Row) : Option QNetworkCookie :=
  (env.parseCookies r.content).head?

/-- A table keeps its primary key, and each row the key of the cookie in it. -/
structure Table (env : CookieEnv) (db : List Row) : Prop where
  keys : (db.map Row.key).Nodup
  own : ∀ r ∈ db, ∀ c, Row.cookie env r = some c → Row.key r = keyOf c

/-- The cookie is in the table. -/
def Stored (env : CookieEnv) (db : List Row) (c : QNetworkCookie) : Prop :=
  ∃ r ∈ db, Row.cookie env r = some c

/-- The rows that the store writes, if the raw form of a cookie gives it back. -/
theorem table_rows {cookies : List QNetworkCookie} (hkeys : (cookies.map keyOf).Nodup)
    (hraw : ∀ c ∈ cookies, (env.parseCookies (env.toRawForm c)).head? = some c) :
    Table env (cookies.map (rowOf env)) where
  keys := by
    rw [List.map_map]
    exact hkeys
  own r hr c hc := by
    obtain ⟨c', hc', rfl⟩ := List.mem_map.mp hr
    cases Option.some.inj ((hraw c' hc').symm.trans hc)
    rfl

/-- Two rows with one cookie are one. -/
theorem Table.row_unique (h : Table env db) {r r' : Row} (hr : r ∈ db) (hr' : r' ∈ db)
    (hc : Row.cookie env r = some c) (hd : Row.cookie env r' = some d) (hkey : keyOf c = keyOf d) :
    r = r' := by
  apply List.inj_on_of_nodup_map h.keys hr hr'
  rw [h.own r hr c hc, h.own r' hr' d hd, hkey]

/-! ### The domains of a host -/

/-- The host, a dot and the host, or a dot and two or more last labels of it but not all. -/
def DomainOf (domain host : QString) : Prop :=
  domain = host ∨ domain = dot :: host ∨
    ∃ ms, ms <:+ host.split ∧ ms ≠ host.split ∧ 2 ≤ ms.length ∧ domain = dot :: join ms

theorem suffix_tail_iff {α : Type*} {l ms : List α} (hne : l ≠ []) :
    ms <:+ l.tail ↔ ms <:+ l ∧ ms ≠ l := by
  cases l with
  | nil => exact absurd rfl hne
  | cons a l =>
      rw [List.tail_cons, List.suffix_cons_iff]
      constructor
      · intro h
        refine ⟨Or.inr h, ?_⟩
        intro heq
        have hle := h.length_le
        rw [heq, List.length_cons] at hle
        omega
      · intro h
        exact h.1.resolve_left h.2

theorem mem_qualifiedDomains_iff_domainOf (hh : IsHost url.host) {q : QString} :
    q ∈ qualifiedDomains env url ↔ DomainOf q url.host := by
  have hparents : q ∈ parentDomains url.host.split.tail ↔
      ∃ ms, ms <:+ url.host.split.tail ∧ 2 ≤ ms.length ∧ q = dot :: join ms := by
    constructor
    · exact mem_parentDomains
    · intro h
      obtain ⟨ms, hs, hlen, rfl⟩ := h
      exact mem_parentDomains_of_suffix hs hlen
  simp only [qualifiedDomains, hh.toLower, List.mem_cons, hparents,
    suffix_tail_iff hh.labels.nonempty, DomainOf, and_assoc]

theorem length_of_mem_parentDomains {parts : List QString} {q : QString}
    (hq : q ∈ parentDomains parts) : q.length ≤ (join parts).length + 1 := by
  induction parts with
  | nil => cases hq
  | cons part parts ih =>
      rw [parentDomains] at hq
      split at hq
      · rename_i hlen
        cases List.mem_cons.mp hq with
        | inl heq => rw [heq, List.length_cons]
        | inr hq =>
            have hne : parts ≠ [] := List.length_pos_iff.mp (Nat.lt_of_succ_lt_succ hlen)
            have hle := ih hq
            rw [join_cons part hne, List.length_append, List.length_cons]
            omega
      · cases hq

theorem nodup_parentDomains (parts : List QString) : (parentDomains parts).Nodup := by
  induction parts with
  | nil => exact List.nodup_nil
  | cons part parts ih =>
      rw [parentDomains]
      split
      · rename_i hlen
        rw [List.nodup_cons]
        refine ⟨?_, ih⟩
        intro hmem
        have hne : parts ≠ [] := List.length_pos_iff.mp (Nat.lt_of_succ_lt_succ hlen)
        have hle := length_of_mem_parentDomains hmem
        rw [join_cons part hne, List.length_cons, List.length_append, List.length_cons] at hle
        omega
      · exact List.nodup_nil

/-- No domain is queried twice. -/
theorem nodup_qualifiedDomains (hh : IsHost url.host) : (qualifiedDomains env url).Nodup := by
  have hself : url.host ≠ dot :: url.host := hh.ne_dot_cons url.host
  have hhost : url.host ∉ parentDomains url.host.split.tail := by
    intro hmem
    obtain ⟨ms, -, -, heq⟩ := mem_parentDomains hmem
    exact hh.ne_dot_cons (join ms) heq
  have hdot : dot :: url.host ∉ parentDomains url.host.split.tail := by
    intro hmem
    obtain ⟨ms, hs, hlen, heq⟩ := mem_parentDomains hmem
    have hne : ms ≠ [] := List.length_pos_iff.mp (by omega)
    have hlabels := hh.labels.of_suffix (hs.trans (List.tail_suffix _)) hne
    have hsplit := split_join hlabels
    rw [← (List.cons.inj heq).2] at hsplit
    exact ((suffix_tail_iff hh.labels.nonempty).mp hs).2 hsplit.symm
  simp only [qualifiedDomains, hh.toLower, List.nodup_cons, List.mem_cons, not_or]
  exact ⟨⟨hself, hhost⟩, hdot, nodup_parentDomains _⟩

/-! ### The queries -/

theorem mem_queryCookies_iff (h : Table env db) (hh : IsHost url.host) {q : QString}
    (hq : q ∈ qualifiedDomains env url) :
    c ∈ queryCookies env db q ↔ Stored env db c ∧ c.domain = q := by
  have hunshared := unshared_of_mem_qualifiedDomains hh hq
  rw [queryCookies, List.mem_filterMap]
  constructor
  · intro hmem
    obtain ⟨r, hr, hc⟩ := hmem
    obtain ⟨hdb, hdomain⟩ := mem_select.mp hr
    refine ⟨⟨r, hdb, hc⟩, hunshared.eq_of_toLatin1 ?_⟩
    rw [← hdomain]
    exact congrArg Prod.fst (h.own r hdb c hc).symm
  · intro hmem
    obtain ⟨⟨r, hdb, hc⟩, rfl⟩ := hmem
    refine ⟨r, mem_select.mpr ⟨hdb, ?_⟩, hc⟩
    exact congrArg Prod.fst (h.own r hdb c hc)

theorem nodup_queryCookies (h : Table env db) (q : QString) : (queryCookies env db q).Nodup := by
  have hkeys := List.Pairwise.and_mem.mp (List.pairwise_map.mp h.keys)
  rw [(queryCookies_perm db q).nodup_iff, List.Nodup, List.pairwise_filterMap]
  apply List.Pairwise.filter
  apply hkeys.imp
  intro r r' hne c hc d hd heq
  subst heq
  exact hne.2.2 ((h.own r hne.1 c hc).trans (h.own r' hne.2.1 c hd).symm)

/-- The cookies that the queries find together. -/
def found (env : CookieEnv) (db : List Row) (url : QUrl) : List QNetworkCookie :=
  (qualifiedDomains env url).flatMap (queryCookies env db)

theorem mem_found (h : Table env db) (hh : IsHost url.host) :
    c ∈ found env db url ↔ Stored env db c ∧ c.domain ∈ qualifiedDomains env url := by
  rw [found, List.mem_flatMap]
  constructor
  · intro hmem
    obtain ⟨q, hq, hc⟩ := hmem
    obtain ⟨hstored, rfl⟩ := (mem_queryCookies_iff h hh hq).mp hc
    exact ⟨hstored, hq⟩
  · intro hmem
    exact ⟨c.domain, hmem.2, (mem_queryCookies_iff h hh hmem.2).mpr ⟨hmem.1, rfl⟩⟩

theorem nodup_found (h : Table env db) (hh : IsHost url.host) : (found env db url).Nodup := by
  rw [found, List.nodup_flatMap]
  refine ⟨fun q _ => nodup_queryCookies h q, ?_⟩
  apply (List.Pairwise.and_mem.mp (nodup_qualifiedDomains hh)).imp
  intro q q' hne c hc hc'
  have hq := (mem_queryCookies_iff h hh hne.1).mp hc
  have hq' := (mem_queryCookies_iff h hh hne.2.1).mp hc'
  exact hne.2.2 (hq.2.symm.trans hq'.2)

/-! ### The sieve -/

/-- The tests of the loop that do not look at the time. -/
def admits (env : CookieEnv) (url : QUrl) (c : QNetworkCookie) : Bool :=
  checkPath env c url && (isHttps env url || !c.isSecure)

theorem sift_cons (c : QNetworkCookie) (rest : List QNetworkCookie) (db : List Row) :
    sift env url now (c :: rest) db =
      if admits env url c then
        if isExpired c now then sift env url now rest (deleteCookie db c)
        else (c :: (sift env url now rest db).1, (sift env url now rest db).2)
      else sift env url now rest db := by
  rw [sift, admits]
  cases checkPath env c url with
  | false => simp
  | true => cases isHttps env url <;> cases c.isSecure <;> simp

/-- The loop keeps the live cookies that pass and deletes the expired ones. -/
theorem sift_eq (cookies : List QNetworkCookie) (db : List Row) :
    sift env url now cookies db =
      (cookies.filter fun c => admits env url c && !isExpired c now,
        (cookies.filter fun c => admits env url c && isExpired c now).foldl deleteCookie db) := by
  induction cookies generalizing db with
  | nil => rfl
  | cons c rest ih =>
      rw [sift_cons, List.filter_cons, List.filter_cons]
      cases admits env url c with
      | false => simp [ih]
      | true => cases isExpired c now <;> simp [ih]

theorem foldl_deleteCookie (cookies : List QNetworkCookie) (db : List Row) :
    cookies.foldl deleteCookie db = db.filter fun r => Row.key r ∉ cookies.map keyOf := by
  induction cookies generalizing db with
  | nil => simp
  | cons c cookies ih =>
      rw [List.foldl_cons, ih, deleteCookie, List.filter_filter]
      apply List.filter_congr
      intro r _
      simp [Row.key, Bool.and_comm]

/-- The order of the cookies has no effect on the table. -/
theorem sift_perm (env : CookieEnv) (url : QUrl) (now : ℤ)
    {cookies cookies' : List QNetworkCookie} (h : cookies.Perm cookies') (db : List Row) :
    (sift env url now cookies db).1.Perm (sift env url now cookies' db).1 ∧
      (sift env url now cookies db).2 = (sift env url now cookies' db).2 := by
  rw [sift_eq, sift_eq]
  refine ⟨h.filter _, ?_⟩
  rw [foldl_deleteCookie, foldl_deleteCookie]
  apply List.filter_congr
  intro r _
  exact decide_eq_decide.mpr (not_congr ((h.filter _).map keyOf).mem_iff)

/-! ### Histories -/

theorem nodup_keys_insert (h : (db.map Row.key).Nodup) :
    ((insertCookie env db c).map Row.key).Nodup := by
  rw [insertCookie, List.map_append, List.map_singleton, ← List.concat_eq_append]
  apply List.Nodup.concat
  · intro hmem
    obtain ⟨r, hr, hkey⟩ := List.mem_map.mp hmem
    exact of_decide_eq_true (List.mem_filter.mp hr).2 hkey
  · exact h.sublist (List.filter_sublist.map Row.key)

theorem nodup_keys_setCookie {s : List Row × Bool} (h : (s.1.map Row.key).Nodup) :
    ((setCookie env url now s c).1.map Row.key).Nodup := by
  rw [setCookie]
  split
  · exact h
  · rename_i stored _
    have hdelete : ((deleteCookie s.1 stored).map Row.key).Nodup :=
      h.sublist (List.filter_sublist.map Row.key)
    dsimp only
    split
    · exact hdelete
    · exact nodup_keys_insert hdelete

theorem sift_sublist (cookies : List QNetworkCookie) (db : List Row) :
    (sift env url now cookies db).2.Sublist db := by
  rw [sift_eq, foldl_deleteCookie]
  exact List.filter_sublist

theorem nodup_keys_handle (request : Request) (h : (db.map Row.key).Nodup) :
    ((handle env db request).map Row.key).Nodup := by
  cases request with
  | set cookieList url now =>
      have hrun : Along (fun _ _ => True) (setCookie env url now) (db, false) cookieList :=
        Along.of_forall fun _ _ => trivial
      exact hrun.invariant (I := fun s => (s.1.map Row.key).Nodup) h
        fun s c hs _ => nodup_keys_setCookie hs
  | get url now =>
      rw [handle, cookiesForUrl]
      dsimp only
      split
      · exact h
      · exact h.sublist ((sift_sublist _ _).map Row.key)

/-- What the store has written over a whole history. -/
theorem table_run {history : List Request}
    (hraw : ∀ named stored url₁, StoredBy env history named stored url₁ →
      (env.parseCookies (env.toRawForm stored)).head? = some stored) :
    Table env (run env history) where
  keys := by
    have hrun : Along (fun _ _ => True) (handle env) [] history :=
      Along.of_forall fun _ _ => trivial
    exact hrun.invariant (I := fun db => (db.map Row.key).Nodup) List.nodup_nil
      fun db request hdb _ => nodup_keys_handle request hdb
  own r hr c hc := by
    obtain ⟨named, stored, url₁, hstored, rfl⟩ := mem_run hr
    cases Option.some.inj ((hraw named stored url₁ hstored).symm.trans hc)
    rfl

/-! ### The whole lookup -/

/-- The loop would remove the cookie from the table. -/
def dead (env : CookieEnv) (url : QUrl) (now : ℤ) (c : QNetworkCookie) : Bool :=
  admits env url c && isExpired c now

theorem cookiesForUrl_eq (hsort : ∀ cookies, (env.sortByPath cookies).Perm cookies) :
    cookiesForUrl env db url now =
      (env.sortByPath (sift env url now (found env db url) db).1,
        (sift env url now (found env db url) db).2) := by
  rw [cookiesForUrl]
  dsimp only
  split
  · rename_i hnil
    rw [found, hnil]
    exact Prod.ext (hsort []).eq_nil.symm rfl
  · rfl

/-- The loop leaves the row in the table. -/
def survives (env : CookieEnv) (db : List Row) (url : QUrl) (now : ℤ) (r : Row) : Bool :=
  Row.key r ∉ ((found env db url).filter (dead env url now)).map keyOf

theorem table_after : (sift env url now (found env db url) db).2 =
    db.filter (survives env db url now) := by
  rw [sift_eq, foldl_deleteCookie]
  rfl

theorem survives_eq (h : Table env db) (hh : IsHost url.host) {r : Row} (hr : r ∈ db)
    (hc : Row.cookie env r = some c) (hq : c.domain ∈ qualifiedDomains env url) :
    survives env db url now r = !dead env url now c := by
  have hgone : Row.key r ∈ ((found env db url).filter (dead env url now)).map keyOf ↔
      dead env url now c = true := by
    rw [List.mem_map]
    constructor
    · intro hmem
      obtain ⟨d, hd, hkey⟩ := hmem
      obtain ⟨hfound, hdead⟩ := List.mem_filter.mp hd
      obtain ⟨⟨r', hr', hd⟩, -⟩ := (mem_found h hh).mp hfound
      have heq := h.row_unique hr' hr hd hc (hkey.trans (h.own r hr c hc))
      rw [heq, hc] at hd
      cases hd
      exact hdead
    · intro hdead
      refine ⟨c, List.mem_filter.mpr ⟨(mem_found h hh).mpr ⟨⟨r, hr, hc⟩, hq⟩, hdead⟩, ?_⟩
      exact (h.own r hr c hc).symm
  rw [survives, decide_not, Bool.not_inj_iff, Bool.eq_iff_iff, decide_eq_true_iff]
  exact hgone

/-- The dead cookies drop out with their rows, and the others keep their order. -/
theorem filterMap_survives (h : Table env db) (hh : IsHost url.host) {q : QString}
    (hq : q ∈ qualifiedDomains env url) {rows : List Row}
    (hrows : ∀ r ∈ rows, r ∈ db ∧ r.domain = q.toLatin1) :
    (rows.filter (survives env db url now)).filterMap (Row.cookie env) =
      (rows.filterMap (Row.cookie env)).filter fun c => !dead env url now c := by
  rw [List.filter_filterMap, List.filterMap_filter]
  apply List.filterMap_congr
  intro r hr
  obtain ⟨hdb, hdomain⟩ := hrows r hr
  cases hc : Row.cookie env r with
  | none => simp
  | some c =>
      have hmem : c ∈ queryCookies env db q :=
        List.mem_filterMap.mpr ⟨r, mem_select.mpr ⟨hdb, hdomain⟩, hc⟩
      have hc' := (mem_queryCookies_iff h hh hq).mp hmem
      rw [survives_eq h hh hdb hc (hc'.2 ▸ hq)]
      cases hdead : dead env url now c <;> simp [Option.filter, hdead]

theorem queryCookies_after (h : Table env db) (hh : IsHost url.host) {q : QString}
    (hq : q ∈ qualifiedDomains env url) :
    (queryCookies env (db.filter (survives env db url now)) q).Perm
      ((queryCookies env db q).filter fun c => !dead env url now c) := by
  apply (queryCookies_perm _ q).trans
  rw [List.filter_comm]
  apply List.Perm.trans (List.Perm.of_eq (filterMap_survives h hh hq _))
  · exact ((queryCookies_perm db q).filter _).symm
  · intro r hr
    exact ⟨(List.mem_filter.mp hr).1, of_decide_eq_true (List.mem_filter.mp hr).2⟩

theorem found_after (now : ℤ) (h : Table env db) (hh : IsHost url.host) :
    (found env (db.filter (survives env db url now)) url).Perm
      ((found env db url).filter fun c => !dead env url now c) := by
  rw [found, found, List.filter_flatMap]
  apply List.Perm.flatMap_left _
  intro q hq
  exact queryCookies_after h hh hq

/-- The database returns the rows that are left in the order that they had before. -/
def KeepsOrder (env : CookieEnv) : Prop :=
  ∀ db keep domain, env.select (db.filter keep) domain = (env.select db domain).filter keep

theorem found_after_of_keepsOrder (horder : KeepsOrder env) (h : Table env db)
    (hh : IsHost url.host) : found env (db.filter (survives env db url now)) url =
      (found env db url).filter fun c => !dead env url now c := by
  rw [found, found, List.filter_flatMap]
  apply List.flatMap_congr
  intro q hq
  rw [queryCookies, horder]
  exact filterMap_survives h hh hq fun r hr => mem_select.mp hr

/-- A lookup that finds nothing dead leaves the table as it is. -/
theorem sift_live (cookies : List QNetworkCookie) (db : List Row) :
    sift env url now (cookies.filter fun c => !dead env url now c) db =
      (cookies.filter fun c => admits env url c && !isExpired c now, db) := by
  have hdead (c : QNetworkCookie) : (admits env url c && isExpired c now && !dead env url now c) =
      false := by
    simp [dead]
  apply Prod.ext
  · rw [sift_eq, List.filter_filter]
    apply List.filter_congr
    intro c _
    cases hadmits : admits env url c <;> cases hexpired : isExpired c now <;>
      simp [dead, hadmits, hexpired]
  · rw [sift_eq, List.filter_filter]
    simp [hdead]

/-- What a lookup should do: it returns the cookies that apply, each once and the longer
paths first, and takes nothing but expired cookies out of the table, so that the next
lookup finds the same, in the same order if the rows keep theirs. -/
structure Lookup (env : CookieEnv) (db : List Row) (url : QUrl) (now : ℤ)
    (result : List QNetworkCookie × List Row) : Prop where
  once : result.1.Nodup
  mem : ∀ c, c ∈ result.1 ↔ Stored env db c ∧ DomainOf c.domain url.host ∧
    (c.path.toLower env.lowerTable).slashed <+: url.path.slashed.toLower env.lowerTable ∧
    (c.isSecure = true → isHttps env url = true) ∧
    ∀ date, c.expirationDate = some date → now ≤ date
  sorted : result.1.Pairwise fun c d => d.path.length ≤ c.path.length
  rest : result.2.Sublist db
  purged : ∀ r ∈ db, r ∉ result.2 → ∃ c date, Row.cookie env r = some c ∧
    c.expirationDate = some date ∧ date < now
  again : (cookiesForUrl env result.2 url now).1.Perm result.1 ∧
    (cookiesForUrl env result.2 url now).2 = result.2
  same : KeepsOrder env → cookiesForUrl env result.2 url now = result

theorem isExpired_iff : isExpired c now = true ↔
    ∃ date, c.expirationDate = some date ∧ date < now := by
  rw [isExpired, Option.any_eq_true]
  simp

theorem isExpired_eq_false_iff : isExpired c now = false ↔
    ∀ date, c.expirationDate = some date → now ≤ date := by
  rw [← Bool.not_eq_true, isExpired_iff]
  simp

/-- As the table has them: under the host and a longer path, for secure pages, expired. -/
def inboxCookie : QNetworkCookie :=
  { name := bytes "view", value := bytes "list", domain := mailUrl.host, path := mailUrl.path }

def secureCookie : QNetworkCookie := { siteCookieStored with name := bytes "key", isSecure := true }

def oldCookie : QNetworkCookie :=
  { siteCookieStored with name := bytes "cart", expirationDate := some 0 }

def longerPath (c d : QNetworkCookie) : Prop := d.path.length ≤ c.path.length

instance : DecidableRel longerPath := fun c d => Nat.decLe d.path.length c.path.length

instance : Std.Total longerPath where
  total c d := Nat.le_total d.path.length c.path.length

instance : IsTrans QNetworkCookie longerPath where
  trans _ _ _ hcd hde := Nat.le_trans hde hcd

/-- Qt, as far as the cookies above need it, with a sort, and a database that returns the
last row first. -/
def sortedEnv : CookieEnv :=
  { knownEnv [siteCookie, siteCookieStored, secureCookie, oldCookie, inboxCookie] with
    sortByPath := List.insertionSort longerPath
    select := fun db domain => (db.filter fun r => r.domain = domain).reverse
    select_perm := fun _ _ => List.reverse_perm _ }

def siteTable : List Row :=
  [siteCookieStored, secureCookie, oldCookie, inboxCookie].map (rowOf sortedEnv)

end CookieStore

end OpBrowser
