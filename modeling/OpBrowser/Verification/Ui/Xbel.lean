import OpBrowser.Model.Ui.Xbel

/-! # What a bookmark file means

The reader goes through tokens, while a document is a tree. A document has a meaning as a tree
of bookmarks, and the reader finds it if the texts and separators hold no elements. -/

namespace OpBrowser.Ui

open Xml

variable {texts items : Bool} {content l l' : List Element} {parent : BookmarkNode}

/-! ### The meaning of a document -/

theorem folder_ne : QString.ofString "folder" ≠ QString.ofString "title" ∧
    QString.ofString "folder" ≠ QString.ofString "desc" := by
  decide

theorem bookmark_ne : QString.ofString "bookmark" ≠ QString.ofString "title" ∧
    QString.ofString "bookmark" ≠ QString.ofString "desc" ∧
    QString.ofString "bookmark" ≠ QString.ofString "folder" := by
  decide

theorem separator_ne : QString.ofString "separator" ≠ QString.ofString "title" ∧
    QString.ofString "separator" ≠ QString.ofString "desc" ∧
    QString.ofString "separator" ≠ QString.ofString "folder" ∧
    QString.ofString "separator" ≠ QString.ofString "bookmark" := by
  decide

/-- The text of an element. -/
def textOf : List Element → QString
  | [] => []
  | .text s :: rest => s ++ textOf rest
  | .element _ _ _ :: rest | .other :: rest => textOf rest

/-- The node with what stands in this content: texts that set its fields, items that become its
children, and elements that mean nothing. -/
def meaning (texts items : Bool) : List Element → BookmarkNode → BookmarkNode
  | [], parent => parent
  | .element name attributes content :: rest, parent =>
      meaning texts items rest <|
        if texts ∧ name = QString.ofString "title" then parent.setTitle (textOf content)
        else if texts ∧ name = QString.ofString "desc" then parent.setDesc (textOf content)
        else if items ∧ name = QString.ofString "folder" then
          parent.add (meaning true true content (newFolder attributes))
        else if items ∧ name = QString.ofString "bookmark" then
          parent.add (titled (meaning true false content (newBookmark attributes)))
        else if items ∧ name = QString.ofString "separator" then
          parent.add (.node { type := .separator } [])
        else parent
  | .text _ :: rest, parent | .other :: rest, parent => meaning texts items rest parent

/-- Texts have no elements in them and separators have nothing in them, as the format has it.
Nothing is asked of elements that the reader does not know. -/
def Legible (texts items : Bool) : List Element → Prop
  | [] => True
  | .element name _ content :: rest =>
      (if texts ∧ (name = QString.ofString "title" ∨ name = QString.ofString "desc") then
        ∀ n ∈ content, n.isElement = false
      else if items ∧ name = QString.ofString "folder" then Legible true true content
      else if items ∧ name = QString.ofString "bookmark" then Legible true false content
      else if items ∧ name = QString.ofString "separator" then content = []
      else True) ∧ Legible texts items rest
  | .text _ :: rest | .other :: rest => Legible texts items rest

/-! ### The reader -/

theorem readElementText_tokens (h : ∀ n ∈ content, n.isElement = false)
    (rest : List (Token QString)) :
    readElementText (tokens content ++ .endElement :: rest) = (textOf content, { rest }) := by
  induction content with
  | nil => simp [tokens, readElementText, textOf]
  | cons n content ih =>
      have ih := ih fun m hm => h m (List.mem_cons_of_mem n hm)
      cases n with
      | element name attributes inner => cases h _ List.mem_cons_self
      | text s => simp [tokens, readElementText, textOf, ih]
      | other => simp [tokens, readElementText, textOf, ih]

theorem skipUnknownElement_tokens (content : List Element) (rest : List (Token QString))
    {fuel : ℕ} (hfuel : (tokens content).length < fuel) :
    skipUnknownElement fuel (tokens content ++ .endElement :: rest) = rest := by
  induction content using tokens.induct generalizing rest fuel with
  | case1 =>
      obtain ⟨fuel, rfl⟩ := Nat.exists_eq_add_one_of_ne_zero (Nat.ne_zero_of_lt hfuel)
      simp [tokens, skipUnknownElement]
  | case2 name attributes inner more ihinner ihmore =>
      obtain ⟨fuel, rfl⟩ := Nat.exists_eq_add_one_of_ne_zero (Nat.ne_zero_of_lt hfuel)
      simp only [tokens, List.length_cons, List.length_append] at hfuel
      simp only [tokens, List.cons_append, List.append_assoc, skipUnknownElement]
      rw [ihinner _ (by omega), ihmore _ (by omega)]
  | case3 s more ih =>
      obtain ⟨fuel, rfl⟩ := Nat.exists_eq_add_one_of_ne_zero (Nat.ne_zero_of_lt hfuel)
      simp only [tokens, List.length_cons] at hfuel
      simp only [tokens, List.cons_append, skipUnknownElement]
      exact ih _ (by omega)
  | case4 more ih =>
      obtain ⟨fuel, rfl⟩ := Nat.exists_eq_add_one_of_ne_zero (Nat.ne_zero_of_lt hfuel)
      simp only [tokens, List.length_cons] at hfuel
      simp only [tokens, List.cons_append, skipUnknownElement]
      exact ih _ (by omega)

/-- The loops of the reader find the meaning of a content and stop behind its end. -/
theorem readContent_tokens (h : Legible texts items content) (parent : BookmarkNode)
    (rest : List (Token QString)) {fuel : ℕ} (hfuel : (tokens content).length < fuel) :
    readContent texts items fuel { rest := tokens content ++ .endElement :: rest } parent =
      (meaning texts items content parent, { rest }) := by
  induction content using tokens.induct generalizing texts items parent rest fuel with
  | case1 =>
      obtain ⟨fuel, rfl⟩ := Nat.exists_eq_add_one_of_ne_zero (Nat.ne_zero_of_lt hfuel)
      simp [tokens, readContent, meaning]
  | case2 name attributes inner more ihinner ihmore =>
      obtain ⟨fuel, rfl⟩ := Nat.exists_eq_add_one_of_ne_zero (Nat.ne_zero_of_lt hfuel)
      simp only [tokens, List.length_cons, List.length_append] at hfuel
      rw [Legible] at h
      obtain ⟨hinner, hmore⟩ := h
      simp only [tokens, List.cons_append, List.append_assoc, readContent, meaning]
      have hlength : (tokens more).length < fuel := by omega
      have hmore' (parent : BookmarkNode) := ihmore hmore parent rest hlength
      by_cases htitle : texts ∧ name = QString.ofString "title"
      · rw [if_pos ⟨htitle.1, Or.inl htitle.2⟩] at hinner
        rw [if_pos htitle, if_pos htitle, readElementText_tokens hinner]
        exact hmore' _
      by_cases hdesc : texts ∧ name = QString.ofString "desc"
      · rw [if_pos ⟨hdesc.1, Or.inr hdesc.2⟩] at hinner
        rw [if_neg htitle, if_neg htitle, if_pos hdesc, if_pos hdesc, readElementText_tokens hinner]
        exact hmore' _
      have htext : ¬ (texts ∧
          (name = QString.ofString "title" ∨ name = QString.ofString "desc")) := by tauto
      rw [if_neg htext] at hinner
      rw [if_neg htitle, if_neg htitle, if_neg hdesc, if_neg hdesc]
      by_cases hfolder : items ∧ name = QString.ofString "folder"
      · rw [if_pos hfolder] at hinner
        rw [if_pos hfolder, if_pos hfolder, ihinner hinner _ _ (by omega)]
        exact hmore' _
      rw [if_neg hfolder] at hinner
      rw [if_neg hfolder, if_neg hfolder]
      by_cases hbookmark : items ∧ name = QString.ofString "bookmark"
      · rw [if_pos hbookmark] at hinner
        rw [if_pos hbookmark, if_pos hbookmark, ihinner hinner _ _ (by omega)]
        exact hmore' _
      rw [if_neg hbookmark] at hinner
      rw [if_neg hbookmark, if_neg hbookmark]
      by_cases hseparator : items ∧ name = QString.ofString "separator"
      · rw [if_pos hseparator] at hinner
        rw [if_pos hseparator, if_pos hseparator, hinner, tokens, List.nil_append, List.tail_cons]
        exact hmore' _
      · rw [if_neg hseparator, if_neg hseparator, skipUnknownElement_tokens _ _ (by omega)]
        exact hmore' _
  | case3 s more ih =>
      obtain ⟨fuel, rfl⟩ := Nat.exists_eq_add_one_of_ne_zero (Nat.ne_zero_of_lt hfuel)
      simp only [tokens, List.length_cons] at hfuel
      rw [Legible] at h
      simp only [tokens, List.cons_append, readContent, meaning]
      exact ih h _ _ (by omega)
  | case4 more ih =>
      obtain ⟨fuel, rfl⟩ := Nat.exists_eq_add_one_of_ne_zero (Nat.ne_zero_of_lt hfuel)
      simp only [tokens, List.length_cons] at hfuel
      rw [Legible] at h
      simp only [tokens, List.cons_append, readContent, meaning]
      exact ih h _ _ (by omega)

theorem tokens_append (l l' : List Element) : tokens (l ++ l') = tokens l ++ tokens l' := by
  induction l using tokens.induct with
  | case1 => simp [tokens]
  | case2 name attributes inner more _ ih => simp [tokens, ih]
  | case3 s more ih => simp [tokens, ih]
  | case4 more ih => simp [tokens, ih]

/-- Outside of the element the reader looks for nothing. -/
theorem readDocument_tokens (h : ∀ n ∈ l, n.isElement = false) (rest : List (Token QString))
    (root : BookmarkNode) (fuel : ℕ) :
    readDocument (fuel + (tokens l).length) { rest := tokens l ++ rest } root =
      readDocument fuel { rest } root := by
  induction l with
  | nil => simp [tokens]
  | cons n l ih =>
      have ih := ih fun m hm => h m (List.mem_cons_of_mem n hm)
      cases n with
      | element name attributes inner => cases h _ List.mem_cons_self
      | text s => simpa [tokens, ← Nat.add_assoc, readDocument] using ih
      | other => simpa [tokens, ← Nat.add_assoc, readDocument] using ih

/-- The documents that `read` takes for bookmarks. -/
def IsXbel (name : QString) (attributes : List (QString × QString)) : Prop :=
  name = QString.ofString "xbel" ∧
    (value attributes (QString.ofString "version") = [] ∨
      value attributes (QString.ofString "version") = QString.ofString "1.0")

instance (name : QString) (attributes : List (QString × QString)) :
    Decidable (IsXbel name attributes) := inferInstanceAs (Decidable (_ ∧ _))

section Read

variable {before after : List Element} (hbefore : ∀ n ∈ before, n.isElement = false)
  (name : QString) (attributes : List (QString × QString))

include hbefore

theorem read_start : read (tokens (before ++ .element name attributes content :: after)) =
    readDocument ((tokens content).length + 1 + 1 + (tokens after).length + 1)
      { rest := .startElement name attributes ::
          (tokens content ++ .endElement :: tokens after) } (.node {} []) := by
  rw [read, tokens_append, tokens]
  have hlength : (tokens before ++ .startElement name attributes ::
      (tokens content ++ .endElement :: tokens after)).length + 1 =
        ((tokens content).length + 1 + 1 + (tokens after).length) + 1 + (tokens before).length := by
    simp only [List.length_append, List.length_cons]
    omega
  rw [hlength, readDocument_tokens hbefore]

theorem read_xbel (hafter : ∀ n ∈ after, n.isElement = false) (hxbel : IsXbel name attributes)
    (hcontent : Legible false true content) :
    read (tokens (before ++ .element name attributes content :: after)) =
      (meaning false true content (.node {} []), { rest := [] }) := by
  rw [read_start hbefore, readDocument]
  dsimp only
  rw [if_pos (show _ ∧ _ from hxbel), readXBEL, readContent_tokens hcontent _ _ (by omega)]
  have htail := readDocument_tokens hafter [] (meaning false true content (.node {} []))
    ((tokens content).length + 1 + 1)
  rw [List.append_nil] at htail
  exact htail

/-- The reader finds the meaning of every legible document, whatever text, comments and unknown
elements are in it. Of a document of another kind it reads nothing. -/
theorem read_document (hafter : ∀ n ∈ after, n.isElement = false) :
    (IsXbel name attributes → Legible false true content →
      read (tokens (before ++ .element name attributes content :: after)) =
        (meaning false true content (.node {} []), { rest := [] })) ∧
    (¬ IsXbel name attributes →
      read (tokens (before ++ .element name attributes content :: after)) =
        (.node {} [], { rest := [], error := true })) := by
  constructor
  · exact read_xbel hbefore name attributes hafter
  · intro hother
    rw [read_start hbefore, readDocument]
    exact if_neg hother

end Read

theorem info_ne : QString.ofString "info" ≠ QString.ofString "title" ∧
    QString.ofString "info" ≠ QString.ofString "desc" := by
  decide

/-- A comment, a bookmark without a title and an element that the format does not have. -/
def strangeContent : List Element :=
  [.other, .element (QString.ofString "bookmark")
    [(QString.ofString "href", QString.ofString "a:b")]
    [.element (QString.ofString "info") [] [.text (QString.ofString "?")]]]

theorem read_document_strange :
    read (tokens ([.text []] ++ [.element (QString.ofString "xbel") [] strangeContent])) =
      (meaning false true strangeContent (.node {} []), { rest := [] }) ∧
    read (tokens ([.other] ++ [.element (QString.ofString "rss") [] strangeContent])) =
      (.node {} [], { rest := [], error := true }) := by
  have hlegible : Legible false true strangeContent := by
    simp [Legible, strangeContent, bookmark_ne, info_ne]
  constructor
  · exact (read_document (by simp [Node.isElement]) _ _ (List.forall_mem_nil _)).1
      (by decide) hlegible
  · exact (read_document (by simp [Node.isElement]) _ _ (List.forall_mem_nil _)).2 (by decide)

/-! ### The writer -/

/-- What of these nodes a file keeps. -/
def savedItems : List BookmarkNode → List BookmarkNode
  | [] => []
  | .node entry children :: rest =>
      (match entry.type with
      | .folder =>
          [.node { type := .folder, title := entry.title, expanded := entry.expanded }
            (savedItems children)]
      | .bookmark =>
          [titled (.node { type := .bookmark, url := entry.url, title := entry.title } [])]
      | .separator => [.node { type := .separator } []]
      | .root => []) ++ savedItems rest

/-- What of a tree a file keeps. -/
def saved (root : BookmarkNode) : BookmarkNode :=
  .node {} (if root.entry.type = .root then savedItems root.children else savedItems [root])

/-- Text and comments between the elements change nothing. -/
theorem meaning_padded (h : Padded l l') (hl : Legible texts items l) (parent : BookmarkNode) :
    meaning texts items l' parent = meaning texts items l parent ∧ Legible texts items l' := by
  induction h generalizing texts items parent with
  | nil => exact ⟨rfl, hl⟩
  | pad n hn h ih =>
      cases n with
      | element name attributes inner => cases hn
      | text s => simpa [meaning, Legible] using ih hl parent
      | other => simpa [meaning, Legible] using ih hl parent
  | keep n h ih =>
      cases n with
      | element name attributes inner =>
          rw [Legible] at hl ⊢
          rw [meaning, meaning]
          exact ⟨(ih hl.2 _).1, hl.1, (ih hl.2 parent).2⟩
      | text s => simpa [meaning, Legible] using ih (by simpa [Legible] using hl) parent
      | other => simpa [meaning, Legible] using ih (by simpa [Legible] using hl) parent
  | element name attributes hany hcontent h ihcontent ih =>
      rw [Legible] at hl ⊢
      obtain ⟨hinner, hmore⟩ := hl
      rw [meaning, meaning]
      have hmore' (parent : BookmarkNode) := (ih hmore parent).1
      have hlegible := (ih hmore parent).2
      by_cases htext : texts ∧ (name = QString.ofString "title" ∨ name = QString.ofString "desc")
      · rw [if_pos htext] at hinner
        obtain ⟨n, hn, helement⟩ := hany
        exact absurd helement (by simp [hinner n hn])
      have htitle : ¬ (texts ∧ name = QString.ofString "title") :=
        fun h => htext ⟨h.1, Or.inl h.2⟩
      have hdesc : ¬ (texts ∧ name = QString.ofString "desc") :=
        fun h => htext ⟨h.1, Or.inr h.2⟩
      simp only [if_neg htext, if_neg htitle, if_neg hdesc] at hinner ⊢
      by_cases hfolder : items ∧ name = QString.ofString "folder"
      · simp only [if_pos hfolder] at hinner ⊢
        obtain ⟨hmeaning, hinner'⟩ := ihcontent hinner (newFolder attributes)
        rw [hmeaning]
        exact ⟨hmore' _, hinner', hlegible⟩
      simp only [if_neg hfolder] at hinner ⊢
      by_cases hbookmark : items ∧ name = QString.ofString "bookmark"
      · simp only [if_pos hbookmark] at hinner ⊢
        obtain ⟨hmeaning, hinner'⟩ := ihcontent hinner (newBookmark attributes)
        rw [hmeaning]
        exact ⟨hmore' _, hinner', hlegible⟩
      simp only [if_neg hbookmark] at hinner ⊢
      by_cases hseparator : items ∧ name = QString.ofString "separator"
      · rw [if_pos hseparator] at hinner
        obtain ⟨n, hn, -⟩ := hany
        rw [hinner] at hn
        cases hn
      · simp only [if_neg hseparator]
        exact ⟨hmore' _, trivial, hlegible⟩

section Names

/-! The elements that the writer makes, as the reader takes them. -/

variable (attributes : List (QString × QString)) (content rest : List Element)

theorem meaning_folder : meaning texts true
    (.element (QString.ofString "folder") attributes content :: rest) parent =
      meaning texts true rest (parent.add (meaning true true content (newFolder attributes))) := by
  simp [meaning, folder_ne]

theorem meaning_bookmark : meaning texts true
    (.element (QString.ofString "bookmark") attributes content :: rest) parent =
      meaning texts true rest
        (parent.add (titled (meaning true false content (newBookmark attributes)))) := by
  simp [meaning, bookmark_ne]

theorem meaning_separator : meaning texts true
    (.element (QString.ofString "separator") attributes content :: rest) parent =
      meaning texts true rest (parent.add (.node { type := .separator } [])) := by
  simp [meaning, separator_ne]

theorem meaning_title (title : QString) :
    meaning true items (textElement (QString.ofString "title") title :: rest) parent =
      meaning true items rest (parent.setTitle title) := by
  have htext : textOf (if title = [] then [] else [.text title]) = title := by
    split
    next h => rw [h, textOf]
    next => simp [textOf]
  simp [textElement, meaning, htext]

theorem legible_folder : Legible texts true
    (.element (QString.ofString "folder") attributes content :: rest) ↔
      Legible true true content ∧ Legible texts true rest := by
  simp [Legible, folder_ne]

theorem legible_bookmark : Legible texts true
    (.element (QString.ofString "bookmark") attributes content :: rest) ↔
      Legible true false content ∧ Legible texts true rest := by
  simp [Legible, bookmark_ne]

theorem legible_separator : Legible texts true
    (.element (QString.ofString "separator") attributes [] :: rest) ↔ Legible texts true rest := by
  simp [Legible, separator_ne]

theorem legible_title (title : QString) :
    Legible true items (textElement (QString.ofString "title") title :: rest) ↔
      Legible true items rest := by
  simp only [textElement, Legible, true_and, true_or, if_true, and_iff_right_iff_imp]
  intro _ n hn
  split at hn
  · cases hn
  · rw [List.mem_singleton.mp hn]
    rfl

end Names

theorem legible_writeItems (nodes : List BookmarkNode) (texts : Bool) :
    Legible texts true (writeItems nodes) := by
  induction nodes using writeItems.induct generalizing texts with
  | case1 => simp [writeItems, Legible]
  | case2 entry children rest ihchildren ihrest =>
      rw [writeItems]
      cases entry.type with
      | folder =>
          exact (legible_folder _ _ _).mpr
            ⟨(legible_title _ _).mpr (ihchildren true), ihrest texts⟩
      | bookmark =>
          refine (legible_bookmark _ _ _).mpr ⟨(legible_title _ _).mpr ?_, ihrest texts⟩
          split <;> simp [Legible]
      | separator => exact (legible_separator _ _).mpr (ihrest texts)
      | root => exact ihrest texts

theorem newFolder_folded (expanded : Bool) :
    newFolder [(QString.ofString "folded", QString.ofString (if expanded then "no" else "yes"))] =
      .node { type := .folder, expanded } [] := by
  have hyes : QString.ofString "yes" ≠ QString.ofString "no" := by decide
  cases expanded <;> simp [newFolder, value, hyes]

theorem newBookmark_href (url : QString) :
    newBookmark (if url = [] then [] else [(QString.ofString "href", url)]) =
      .node { type := .bookmark, url } [] := by
  split
  next h => simp [newBookmark, value, h]
  next => simp [newBookmark, value]

/-- A written folder or root means what the file keeps of it. -/
theorem meaning_writeItems (nodes : List BookmarkNode) (texts : Bool) (parent : BookmarkNode) :
    meaning texts true (writeItems nodes) parent =
      .node parent.entry (parent.children ++ savedItems nodes) := by
  induction nodes using writeItems.induct generalizing texts parent with
  | case1 =>
      cases parent
      simp [writeItems, savedItems, meaning, BookmarkNode.entry, BookmarkNode.children]
  | case2 entry children rest ihchildren ihrest =>
      rw [writeItems, savedItems]
      cases entry.type with
      | folder =>
          dsimp only [List.cons_append, List.nil_append]
          rw [meaning_folder, meaning_title, newFolder_folded, ihchildren, ihrest]
          simp [BookmarkNode.add, BookmarkNode.setTitle, BookmarkNode.entry,
            BookmarkNode.children]
      | bookmark =>
          dsimp only [List.cons_append, List.nil_append]
          have hdesc (bookmark : BookmarkNode) : meaning true false (if entry.desc = [] then []
              else [.text (QString.ofString " desc=\"" ++ entry.desc ++ QString.ofString "\"")])
              bookmark = bookmark := by
            split <;> simp [meaning]
          rw [meaning_bookmark, meaning_title, newBookmark_href, hdesc, ihrest]
          simp [BookmarkNode.add, BookmarkNode.setTitle, BookmarkNode.entry,
            BookmarkNode.children]
      | separator =>
          dsimp only [List.cons_append, List.nil_append]
          rw [meaning_separator, ihrest]
          simp [BookmarkNode.add, BookmarkNode.entry, BookmarkNode.children]
      | root => exact ihrest texts parent

/-! ### Writing and reading -/

/-- A document around one element. -/
theorem padded_single {name : QString} {attributes : List (QString × QString)} {doc : List Element}
    (h : Padded [.element name attributes content] doc) :
    ∃ before content' after, doc = before ++ .element name attributes content' :: after ∧
      (∀ n ∈ before, n.isElement = false) ∧ (∀ n ∈ after, n.isElement = false) ∧
      Padded content content' := by
  generalize hl : [Node.element name attributes content] = l at h
  induction h with
  | nil => cases hl
  | pad n hn h ih =>
      obtain ⟨before, content', after, rfl, hbefore, hafter, hcontent⟩ := ih hl
      exact ⟨n :: before, content', after, rfl, List.forall_mem_cons.mpr ⟨hn, hbefore⟩, hafter,
        hcontent⟩
  | keep n h _ =>
      cases hl
      exact ⟨[], content, _, rfl, List.forall_mem_nil _, h.of_nil, .refl content⟩
  | element name' attributes' hany hcontent h _ _ =>
      cases hl
      exact ⟨[], _, _, rfl, List.forall_mem_nil _, h.of_nil, hcontent⟩

/-- A file that was written reads as what it keeps of the tree, without an error. -/
theorem read_write (root : BookmarkNode) {doc : List Element} (h : Padded [write root] doc) :
    read (tokens doc) = (saved root, { rest := [] }) := by
  obtain ⟨before, content, after, rfl, hbefore, hafter, hcontent⟩ := padded_single h
  have hversion : value [(QString.ofString "version", QString.ofString "1.0")]
      (QString.ofString "version") = QString.ofString "1.0" := by simp [value]
  have hlegible : Legible false true
      (if root.entry.type = .root then writeItems root.children else writeItems [root]) := by
    split <;> exact legible_writeItems _ _
  obtain ⟨hmeaning, hlegible'⟩ := meaning_padded hcontent hlegible (.node {} [])
  rw [read_xbel hbefore _ _ hafter ⟨rfl, Or.inr hversion⟩ hlegible', hmeaning, saved]
  split <;> rw [meaning_writeItems] <;> rfl

theorem saved_root {root : BookmarkNode} (h : root.entry.type = .root) :
    saved root = .node {} (savedItems root.children) := by
  rw [saved, if_pos h]

end OpBrowser.Ui
