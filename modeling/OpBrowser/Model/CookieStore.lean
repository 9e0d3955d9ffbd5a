import OpBrowser.Model.Bytes

/-! # The cookie store (cookie/CookieStore.cpp)

The table of the database is a list of rows. Hosts, domains and paths are strings of
UTF-16 units, which the table holds in Latin-1. -/

namespace OpBrowser

abbrev QString := List UInt16

namespace QString

def ofString (s : String) : QString := s.toList.map fun c => c.toNat.toUInt16

def dot : UInt16 := 46

def slash : UInt16 := 47

def questionMark : UInt16 := 63

def latin1Lower (c : UInt16) : UInt16 :=
  if 65 ≤ c ∧ c ≤ 90 ∨ 0xC0 ≤ c ∧ c ≤ 0xDE ∧ c ≠ 0xD7 then c + 32 else c

/-- `toLower`. Outside Latin-1 the tables of Qt decide. -/
def toLower (table : UInt16 → QString) (s : QString) : QString :=
  s.flatMap fun c => if c ≤ 0xFF then [latin1Lower c] else table c

/-- `toLatin1`: what has no byte becomes a question mark. -/
def toLatin1 (s : QString) : Bytes :=
  s.map fun c => if c ≤ 0xFF then c.toUInt8 else questionMark.toUInt8

/-- `split(QLatin1Char('.'))` -/
def split (s : QString) : List QString := s.splitOn dot

/-- `join(QLatin1String("."))` -/
def join (parts : List QString) : QString := [dot].intercalate parts

def startsWithDot (s : QString) : Bool := s.head? = some dot

/-- The string with a slash at its end. -/
def slashed (s : QString) : QString := if s.getLast? = some slash then s else s ++ [slash]

end QString

/-- What the accessors of a URL return. A question mark ends the host, so none is in it. -/
structure QUrl where
  scheme : QString
  host : QString
  path : QString
  host_clear : QString.questionMark ∉ host
  deriving DecidableEq, Repr

/-- `QNetworkCookie`. A session cookie has no expiration date. -/
structure QNetworkCookie where
  name : Bytes
  value : Bytes
  domain : QString := []
  path : QString := []
  isSecure : Bool := false
  isHttpOnly : Bool := false
  expirationDate : Option ℤ := none
  deriving DecidableEq, Repr

/-- A row of the table, without the expiration text, which is never read. -/
structure Row where
  domain : Bytes
  path : Bytes
  name : Bytes
  content : Bytes
  deriving DecidableEq, Repr

/-- The parts of Qt and SQLite that the store relies on. -/
structure CookieEnv where
  lowerTable : UInt16 → QString
  toRawForm : QNetworkCookie → Bytes
  parseCookies : Bytes → List QNetworkCookie
  /-- `qSort` by the length of the paths. -/
  sortByPath : List QNetworkCookie → List QNetworkCookie
  /-- `select … where (domain = ?)`, which promises no order of the rows. -/
  select : List Row → Bytes → List Row
  select_perm : ∀ db domain, (select db domain).Perm (db.filter fun r => r.domain = domain)

namespace CookieStore

variable (env : CookieEnv)

/-! ### The table -/

/-- The primary key. -/
def keyOf (c : QNetworkCookie) : Bytes × Bytes × Bytes :=
  (c.domain.toLatin1, c.path.toLatin1, c.name)

def deleteCookie (db : List Row) (c : QNetworkCookie) : List Row :=
  db.filter fun r => (r.domain, r.path, r.name) ≠ keyOf c

def rowOf (c : QNetworkCookie) : Row :=
  ⟨c.domain.toLatin1, c.path.toLatin1, c.name, env.toRawForm c⟩

/-- A row with the same key is replaced. -/
def insertCookie (db : List Row) (c : QNetworkCookie) : List Row :=
  deleteCookie db c ++ [rowOf env c]

def queryCookies (db : List Row) (domain : QString) : List QNetworkCookie :=
  (env.select db domain.toLatin1).filterMap fun r => (env.parseCookies r.content).head?

/-! ### Domains and paths -/

/-- The loop of `qualifiedDomains`. -/
def parentDomains : List QString → List QString
  | [] => []
  | part :: parts =>
      if 2 ≤ (part :: parts).length then
        (QString.dot :: QString.join (part :: parts)) :: parentDomains parts
      else []

def qualifiedDomains (url : QUrl) : List QString :=
  let domain := url.host
  let domainParts := ((domain.toLower env.lowerTable).split).tail
  domain :: (QString.dot :: domain) :: parentDomains domainParts

def urlPath (url : QUrl) : QString := (url.path.slashed).toLower env.lowerTable

def checkPath (cookie : QNetworkCookie) (url : QUrl) : Bool :=
  ((cookie.path.toLower env.lowerTable).slashed).isPrefixOf (urlPath env url)

/-- The loop of `checkDomain`, which keeps the last `count` parts. -/
def trimParts (count : ℕ) : List QString → List QString
  | [] => []
  | part :: parts =>
      if (part :: parts).length > count then trimParts count parts else part :: parts

def checkDomain (cookie : QNetworkCookie) (url : QUrl) : Bool :=
  let cookieDomain := cookie.domain.toLower env.lowerTable
  let hostDomain := url.host.toLower env.lowerTable
  if cookieDomain = hostDomain then true
  else if cookieDomain.startsWithDot ∧ cookieDomain.tail = hostDomain then true
  else
    let cookieParts := cookieDomain.split.filter (· ≠ [])
    let urlParts := trimParts cookieParts.length hostDomain.split.tail
    cookieDomain = QString.dot :: QString.join urlParts

/-! ### Setting cookies -/

/-- The path up to its last slash. -/
def defaultPath (url : QUrl) : QString := (url.path.reverse.dropWhile (· ≠ QString.slash)).reverse

/-- The first test of the loop of `setCookiesFromUrl`. -/
def withPath (cookie : QNetworkCookie) (url : QUrl) : Option QNetworkCookie :=
  if cookie.path = [] then some { cookie with path := defaultPath url }
  else if checkPath env cookie url then some cookie
  else none

/-- The second test. -/
def withDomain (cookie : QNetworkCookie) (url : QUrl) : Option QNetworkCookie :=
  if cookie.domain = [] then some { cookie with domain := url.host.toLower env.lowerTable }
  else if cookie.domain.toLower env.lowerTable ≠ url.host.toLower env.lowerTable then
    let cookie :=
      if cookie.domain.startsWithDot then cookie
      else { cookie with domain := QString.dot :: cookie.domain }
    if checkDomain env cookie url then some cookie else none
  else some cookie

/-- The cookie as it is stored, if the URL may set it. -/
def accept (cookie : QNetworkCookie) (url : QUrl) : Option QNetworkCookie :=
  (withPath env cookie url).bind fun cookie => withDomain env cookie url

def isExpired (cookie : QNetworkCookie) (now : ℤ) : Bool :=
  cookie.expirationDate.any fun date => now > date

/-- One round of the loop of `setCookiesFromUrl`. -/
def setCookie (url : QUrl) (now : ℤ) (s : List Row × Bool) (cookie : QNetworkCookie) :
    List Row × Bool :=
  match accept env cookie url with
  | none => s
  | some cookie =>
      let db := deleteCookie s.1 cookie
      if isExpired cookie now then (db, s.2) else (insertCookie env db cookie, true)

def setCookiesFromUrl (db : List Row) (cookieList : List QNetworkCookie) (url : QUrl) (now : ℤ) :
    List Row × Bool :=
  cookieList.foldl (setCookie env url now) (db, false)

/-! ### Getting cookies -/

def isHttps (url : QUrl) : Bool := url.scheme.toLower env.lowerTable = QString.ofString "https"

/-- The loop of `cookiesForUrl`. Expired cookies are removed from the table as well. -/
def sift (url : QUrl) (now : ℤ) : List QNetworkCookie → List Row → List QNetworkCookie × List Row
  | [], db => ([], db)
  | cookie :: rest, db =>
      if !checkPath env cookie url then sift url now rest db
      else if !isHttps env url && cookie.isSecure then sift url now rest db
      else if isExpired cookie now then sift url now rest (deleteCookie db cookie)
      else
        let (kept, db) := sift url now rest db
        (cookie :: kept, db)

def cookiesForUrl (db : List Row) (url : QUrl) (now : ℤ) : List QNetworkCookie × List Row :=
  let cookies := (qualifiedDomains env url).flatMap (queryCookies env db)
  if cookies = [] then ([], db)
  else
    let (cookies, db) := sift env url now cookies db
    (env.sortByPath cookies, db)

/-! ### Histories -/

inductive Request where
  | set (cookieList : List QNetworkCookie) (url : QUrl) (now : ℤ)
  | get (url : QUrl) (now : ℤ)

def handle (db : List Row) : Request → List Row
  | .set cookieList url now => (setCookiesFromUrl env db cookieList url now).1
  | .get url now => (cookiesForUrl env db url now).2

/-- The table after these requests. -/
def run (history : List Request) : List Row := history.foldl (handle env) []

end CookieStore

end OpBrowser
