import Mathlib.Tactic.Common

/-! # Documents and their tokens

What a document holds between its tags, the tokens that a stream reader reports for it, and
documents that differ in the text and the comments between their elements. Texts and values
are reported as they are in the document; how they are escaped in a file is left out. -/

namespace OpBrowser.Xml

/-- `ν` is the type of names, values and texts. -/
inductive Node (ν : Type) where
  | element (name : ν) (attributes : List (ν × ν)) (content : List (Node ν))
  | text (s : ν)
  /-- A comment or a processing instruction. -/
  | other

inductive Token (ν : Type) where
  | startElement (name : ν) (attributes : List (ν × ν))
  | endElement
  | characters (s : ν)
  | other

variable {ν : Type}

namespace Node

def isElement : Node ν → Bool
  | .element _ _ _ => true
  | _ => false

end Node

def tokens : List (Node ν) → List (Token ν)
  | [] => []
  | .element name attributes content :: rest =>
      .startElement name attributes :: (tokens content ++ .endElement :: tokens rest)
  | .text s :: rest => .characters s :: tokens rest
  | .other :: rest => .other :: tokens rest

/-- Texts and comments are put around the elements of a content. Inside of an element this
happens only if there are elements in it as well. -/
inductive Padded : List (Node ν) → List (Node ν) → Prop where
  | nil : Padded [] []
  | pad {l l' : List (Node ν)} (n : Node ν) (hn : n.isElement = false) (h : Padded l l') :
      Padded l (n :: l')
  | keep {l l' : List (Node ν)} (n : Node ν) (h : Padded l l') : Padded (n :: l) (n :: l')
  | element {l l' content content' : List (Node ν)} (name : ν) (attributes : List (ν × ν))
      (hany : ∃ n ∈ content, n.isElement = true) (hcontent : Padded content content')
      (h : Padded l l') :
      Padded (.element name attributes content :: l) (.element name attributes content' :: l')

/-- Nothing but texts and comments is put around nothing. -/
theorem Padded.of_nil {l : List (Node ν)} (h : Padded [] l) : ∀ n ∈ l, n.isElement = false := by
  generalize hnil : ([] : List (Node ν)) = l' at h
  induction h with
  | nil => exact List.forall_mem_nil _
  | pad n hn h ih => exact List.forall_mem_cons.mpr ⟨hn, ih hnil⟩
  | keep n h => cases hnil
  | element name attributes hany hcontent h => cases hnil

theorem Padded.refl (l : List (Node ν)) : Padded l l := by
  induction l with
  | nil => exact .nil
  | cons n l ih => exact .keep n ih

end OpBrowser.Xml
