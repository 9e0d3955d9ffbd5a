import OpBrowser.Library.Xml
import OpBrowser.Model.CookieStore

/-! # Bookmark files (op-ui/xbel.cpp)

`XbelWriter` makes a document of a tree of bookmarks, and `XbelReader` reads such documents
token by token. A started element with its attributes is one token.

Assumed: what the stream writer puts into a text or a value, the stream reader reports as it
was. Of control characters and carriage returns this does not hold. -/

namespace OpBrowser.Ui

/-- `BookmarkNode::Type` -/
inductive NodeType where
  | root | folder | bookmark | separator
  deriving DecidableEq, Repr

/-- The fields of a `BookmarkNode` besides its children. -/
structure Entry where
  type : NodeType := .root
  url : QString := []
  title : QString := []
  desc : QString := []
  expanded : Bool := false
  deriving DecidableEq, Repr

/-- `BookmarkNode`. The tree is that of the children, and `m_parent` is the node above. -/
inductive BookmarkNode where
  | node (entry : Entry) (children : List BookmarkNode)

namespace BookmarkNode

def entry : BookmarkNode → Entry
  | node entry _ => entry

def children : BookmarkNode → List BookmarkNode
  | node _ children => children

/-- `add`, at the end. -/
def add (parent child : BookmarkNode) : BookmarkNode :=
  node parent.entry (parent.children ++ [child])

def setTitle (n : BookmarkNode) (title : QString) : BookmarkNode :=
  node { n.entry with title } n.children

def setDesc (n : BookmarkNode) (desc : QString) : BookmarkNode :=
  node { n.entry with desc } n.children

end BookmarkNode

open Xml

abbrev Element := Node QString

/-! ### `XbelReader` -/

/-- The tokens that are left, and whether an error was raised. After an error the reader is at
its end. -/
structure Reader where
  rest : List (Token QString)
  error : Bool := false

/-- `readElementText`, which raises an error at a child element. -/
def readElementText : List (Token QString) → QString × Reader
  | .endElement :: rest => ([], { rest })
  | .characters t :: rest =>
      let (text, s) := readElementText rest
      (t ++ text, s)
  | .other :: rest => readElementText rest
  | [] | .startElement _ _ :: _ => ([], { rest := [], error := true })

/-- `attributes().value(name).toString()` -/
def value (attributes : List (QString × QString)) (name : QString) : QString :=
  (attributes.lookup name).getD []

/-- `skipUnknownElement`, after at most `fuel` tokens. -/
def skipUnknownElement : ℕ → List (Token QString) → List (Token QString)
  | 0, rest => rest
  | _ + 1, [] => []
  | _ + 1, .endElement :: rest => rest
  | fuel + 1, .startElement _ _ :: rest =>
      skipUnknownElement fuel (skipUnknownElement fuel rest)
  | fuel + 1, .characters _ :: rest | fuel + 1, .other :: rest => skipUnknownElement fuel rest

/-- `new BookmarkNode(BookmarkNode::Folder, parent)`, as `readFolder` starts with it. -/
def newFolder (attributes : List (QString × QString)) : BookmarkNode :=
  let expanded := value attributes (QString.ofString "folded") = QString.ofString "no"
  .node { type := .folder, expanded } []

/-- `new BookmarkNode(BookmarkNode::Bookmark, parent)`, as `readBookmarkNode` starts with it. -/
def newBookmark (attributes : List (QString × QString)) : BookmarkNode :=
  .node { type := .bookmark, url := value attributes (QString.ofString "href") } []

/-- The end of `readBookmarkNode`. -/
def titled (bookmark : BookmarkNode) : BookmarkNode :=
  if bookmark.entry.title = [] then bookmark.setTitle (QString.ofString "Unknown title")
  else bookmark

/-- The loops of `readXBEL`, `readFolder` and `readBookmarkNode`, after at most `fuel` tokens.
The first does not read texts, and the last does not read items. -/
def readContent (texts items : Bool) :
    ℕ → Reader → BookmarkNode → BookmarkNode × Reader
  | 0, s, parent => (parent, s)
  | fuel + 1, s, parent =>
      match s.rest with
      | [] => (parent, s)
      | .endElement :: rest => (parent, { s with rest })
      | .startElement name attributes :: rest =>
          let s := { s with rest }
          if texts ∧ name = QString.ofString "title" then
            let (title, s) := readElementText rest
            readContent texts items fuel s (parent.setTitle title)
          else if texts ∧ name = QString.ofString "desc" then
            let (desc, s) := readElementText rest
            readContent texts items fuel s (parent.setDesc desc)
          else if items ∧ name = QString.ofString "folder" then
            let (folder, s) := readContent true true fuel s (newFolder attributes)
            readContent texts items fuel s (parent.add folder)
          else if items ∧ name = QString.ofString "bookmark" then
            let (bookmark, s) := readContent true false fuel s (newBookmark attributes)
            readContent texts items fuel s (parent.add (titled bookmark))
          else if items ∧ name = QString.ofString "separator" then
            -- an empty element has a start and an end
            let s := { s with rest := s.rest.tail }
            readContent texts items fuel s (parent.add (.node { type := .separator } []))
          else
            let s := { s with rest := skipUnknownElement fuel s.rest }
            readContent texts items fuel s parent
      | .characters _ :: rest | .other :: rest =>
          readContent texts items fuel { s with rest } parent

/-- `XbelReader::readXBEL` -/
def readXBEL (fuel : ℕ) (s : Reader) (parent : BookmarkNode) : BookmarkNode × Reader :=
  readContent false true fuel s parent

/-- The loop of `XbelReader::read`. -/
def readDocument : ℕ → Reader → BookmarkNode → BookmarkNode × Reader
  | 0, s, root => (root, s)
  | fuel + 1, s, root =>
      match s.rest with
      | [] => (root, s)
      | .startElement name attributes :: rest =>
          let version := value attributes (QString.ofString "version")
          if name = QString.ofString "xbel" ∧
              (version = [] ∨ version = QString.ofString "1.0") then
            let (root, s) := readXBEL fuel { s with rest } root
            readDocument fuel s root
          else (root, { rest := [], error := true })
      | .endElement :: rest | .characters _ :: rest | .other :: rest =>
          readDocument fuel { s with rest } root

/-- `XbelReader::read`. No loop goes on for longer than there are tokens. -/
def read (tokens : List (Token QString)) : BookmarkNode × Reader :=
  readDocument (tokens.length + 1) { rest := tokens } (.node { type := .root } [])

/-! ### `XbelWriter` -/

/-- `writeTextElement` -/
def textElement (name text : QString) : Element :=
  .element name [] (if text = [] then [] else [.text text])

/-- `writeItem` for each of these nodes. -/
def writeItems : List BookmarkNode → List Element
  | [] => []
  | .node entry children :: rest =>
      (match entry.type with
      | .folder =>
          [.element (QString.ofString "folder")
            [(QString.ofString "folded", QString.ofString (if entry.expanded then "no" else "yes"))]
            (textElement (QString.ofString "title") entry.title :: writeItems children)]
      | .bookmark =>
          [.element (QString.ofString "bookmark")
            (if entry.url = [] then [] else [(QString.ofString "href", entry.url)])
            (textElement (QString.ofString "title") entry.title ::
              -- an attribute that comes after the title becomes text
              if entry.desc = [] then []
              else [.text (QString.ofString " desc=\"" ++ entry.desc ++ QString.ofString "\"")])]
      | .separator => [.element (QString.ofString "separator") [] []]
      | .root => []) ++ writeItems rest

/-- `XbelWriter::write`: the element of the document. -/
def write (root : BookmarkNode) : Element :=
  .element (QString.ofString "xbel") [(QString.ofString "version", QString.ofString "1.0")]
    (if root.entry.type = .root then writeItems root.children else writeItems [root])

end OpBrowser.Ui
