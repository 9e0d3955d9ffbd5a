import OpBrowser.Model.Bytes
import Mathlib.Tactic.Common

/-! # The data of a `MSG_NEW_URL` message (webapp/op2/webview.cpp)

A web app that opens a URL writes its text, a NUL and a stream of variants. The web
app that gets the URL reads the variants first and falls back on the text. -/

namespace OpBrowser

/-- What the code uses of Qt: URLs, variants and their stream format. -/
structure Qt where
  QUrl : Type
  QVariant : Type
  isEmpty : QUrl → Bool
  /-- `toString().toLatin1()` -/
  toLatin1 : QUrl → Bytes
  /-- `QUrl(QString(text))` -/
  fromText : Bytes → QUrl
  /-- `QVariant()` -/
  invalid : QVariant
  ofUrl : QUrl → QVariant
  toUrl : QVariant → QUrl
  ofByteArray : Bytes → QVariant
  toByteArray : QVariant → Bytes
  /-- `out << var` -/
  write : QVariant → Bytes
  /-- `in >> var`, with what is left of the stream. -/
  read : Bytes → QVariant × Bytes

/-- Reading inverts writing, and a variant gives back what it was made of. -/
structure Qt.Lawful (q : Qt) : Prop where
  read_write : ∀ v rest, q.read (q.write v ++ rest) = (v, rest)
  write_ne : ∀ v, q.write v ≠ []
  toUrl_ofUrl : ∀ u, q.toUrl (q.ofUrl u) = u
  toByteArray_ofByteArray : ∀ b, q.toByteArray (q.ofByteArray b) = b

/-- The parts of a request that travel in the message. -/
structure Request (q : Qt) where
  url : q.QUrl
  contentType : q.QVariant
  referer : Bytes
  body : Bytes

namespace WebView

variable (q : Qt)

/-- `WebView::encodedNewUrlMsg` -/
def encodedNewUrlMsg (r : Request q) : Bytes :=
  q.toLatin1 r.url ++ 0 :: (q.write (q.ofUrl r.url) ++ (q.write r.contentType ++
    (q.write (q.ofByteArray r.referer) ++ q.write (q.ofByteArray r.body))))

/-- The four variants of `decodedNewUrlMsg`, which stay invalid without data. -/
def readVariants (data : Bytes) : q.QVariant × q.QVariant × q.QVariant × q.QVariant :=
  if data = [] then (q.invalid, q.invalid, q.invalid, q.invalid)
  else
    let (encodedUrl, data) := q.read data
    let (contentType, data) := q.read data
    let (referer, data) := q.read data
    let (postData, _) := q.read data
    (encodedUrl, contentType, referer, postData)

/-- `WebView::decodedNewUrlMsg`. The text ends at the first NUL, and the variants
start after it. -/
def decodedNewUrlMsg (msg : Bytes) : Request q :=
  let url := cStr msg
  let (encodedUrl, contentType, referer, postData) := readVariants q (msg.drop (url.length + 1))
  { url := if !q.isEmpty (q.toUrl encodedUrl) then q.toUrl encodedUrl else q.fromText url
    contentType
    referer := q.toByteArray referer
    body := q.toByteArray postData }

end WebView

end OpBrowser
