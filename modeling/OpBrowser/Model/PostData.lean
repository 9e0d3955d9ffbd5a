import OpBrowser.Model.Variants

/-! # Uploads in the network component (network/Network.cpp)

A web app that uploads files puts their names between two markers into the body of its
request, and the network component replaces them by the contents of the files. -/

namespace OpBrowser.Network

/-! ### `QByteArray` -/

/-- `QByteArray::indexOf`: the first place, or -1. -/
def indexOf (a w : Bytes) : ℤ := (a.dropInfix? w).elim (-1) fun cut => cut.1.length

/-- `QByteArray::mid`; a negative length stands for the rest. -/
def mid (a : Bytes) (pos len : ℤ) : Bytes :=
  if (a.length : ℤ) ≤ pos then []
  else
    let len := if len < 0 then a.length - pos else len
    let len := if pos < 0 then len + pos else len
    (a.drop pos.toNat).take len.toNat

/-- `QByteArray::replace`, which leaves the array as it is at a negative position. -/
def replace (a : Bytes) (pos len : ℤ) (after : Bytes) : Bytes :=
  if pos < 0 then a
  else a.take pos.toNat ++ after ++ a.drop (pos + len).toNat

/-! ### `NetworkRequest` -/

/-- `QNetworkAccessManager::PostOperation` -/
def postOperation : ℤ := 4

def fnBegin : Bytes := bytes "*OPFNBEGIN#"

def fnEnd : Bytes := bytes "*OPFNEND#"

variable (files : QString → Option Bytes)

/-- What the file of this name contributes; `none` is a file that cannot be read. -/
def contentOf (fileName : Bytes) : Bytes :=
  match files (QString.fromAscii fileName) with
  | none => []
  | some content =>
      if indexOf content fnBegin ≥ 0 ∨ indexOf content fnEnd ≥ 0 then [] else content

/-- The loop of `processPostData` for at most `fuel` tests, with the names of the files
that it has opened. -/
def expand : ℕ → Bytes → List Bytes → Option (Bytes × List Bytes)
  | 0, _, _ => none
  | fuel + 1, postData, opened =>
      let beginIdx := indexOf postData fnBegin
      let endIdx := indexOf postData fnEnd
      if endIdx - beginIdx > 0 then
        let fileName := mid postData (beginIdx + fnBegin.length)
          (endIdx - beginIdx - fnBegin.length)
        let content := contentOf files fileName
        expand fuel (replace postData beginIdx (endIdx + fnEnd.length - beginIdx) content)
          (opened ++ [fileName])
      else some (postData, opened)

/-- `NetworkRequest::processPostData` -/
def processPostData (fuel : ℕ) (method : ℤ) (postData : Bytes) : Option (Bytes × List Bytes) :=
  if method ≠ postOperation ∨ postData.length ≤ 0 then some (postData, [])
  else expand files fuel postData []

end OpBrowser.Network
