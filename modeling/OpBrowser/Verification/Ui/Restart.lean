import OpBrowser.Model.Ui.Bookmarks
import OpBrowser.Verification.Ui.Xbel

/-! # What of the bookmarks is left after a restart

The bookmarks are written when the browser stops and loaded when it starts again. Assumed: the
file gives every title and URL back as it was written, which Qt does for all texts without
control characters and carriage returns. -/

namespace OpBrowser.Ui

open Xml

/-! ### What a file keeps, it keeps again -/

theorem savedItems_append (l l' : List BookmarkNode) :
    savedItems (l ++ l') = savedItems l ++ savedItems l' := by
  induction l using savedItems.induct with
  | case1 => simp [savedItems]
  | case2 entry children rest _ ih => simp [savedItems, ih]

theorem titled_eq (bookmark : BookmarkNode) : ∃ title, title ≠ [] ∧
    titled bookmark = bookmark.setTitle title := by
  rw [titled]
  split
  · exact ⟨_, by decide, rfl⟩
  next h => exact ⟨bookmark.entry.title, h, by cases bookmark; rfl⟩

theorem savedItems_eq {l : List BookmarkNode} (h : ∀ n ∈ l, savedItems [n] = [n]) :
    savedItems l = l := by
  induction l with
  | nil => simp [savedItems]
  | cons n l ih =>
      obtain ⟨hn, hl⟩ := List.forall_mem_cons.mp h
      rw [← List.singleton_append, savedItems_append, hn, ih hl]

/-- What a file keeps of a node that it has kept is the node. -/
theorem savedItems_of_mem {l : List BookmarkNode} {n : BookmarkNode} (h : n ∈ savedItems l) :
    savedItems [n] = [n] := by
  induction l using savedItems.induct generalizing n with
  | case1 => simp [savedItems] at h
  | case2 entry children rest ihchildren ihrest =>
      rw [savedItems, List.mem_append] at h
      obtain h | h := h
      · have hchildren : savedItems (savedItems children) = savedItems children :=
          savedItems_eq fun n hn => ihchildren hn
        cases htype : entry.type with
        | folder =>
            rw [htype] at h
            rw [List.mem_singleton.mp h]
            simp [savedItems, hchildren]
        | bookmark =>
            rw [htype] at h
            rw [List.mem_singleton.mp h]
            obtain ⟨title, htitle, heq⟩ :=
              titled_eq (.node { type := .bookmark, url := entry.url, title := entry.title } [])
            rw [heq]
            simp [savedItems, titled, BookmarkNode.setTitle, BookmarkNode.entry,
              BookmarkNode.children, htitle]
        | separator =>
            rw [htype] at h
            rw [List.mem_singleton.mp h]
            simp [savedItems]
        | root =>
            rw [htype] at h
            cases h
      · exact ihrest h

/-- A folder of which a file keeps everything. -/
structure Rewritten (title : QString) (n : BookmarkNode) : Prop where
  entry : n.entry = { type := .folder, title, expanded := n.entry.expanded }
  children : ∀ child ∈ n.children, savedItems [child] = [child]

theorem Rewritten.savedItems_eq {title : QString} {n : BookmarkNode} (h : Rewritten title n) :
    savedItems [n] = [n] := by
  obtain ⟨entry, children⟩ := n
  have hchildren : savedItems children = children := Ui.savedItems_eq h.children
  have hentry : entry = { type := .folder, title, expanded := entry.expanded } := h.entry
  rw [hentry]
  simp [savedItems, hchildren]

/-- A kept folder under another title. -/
theorem rewritten_setTitle {n : BookmarkNode} (hfolder : n.entry.type = .folder)
    (h : savedItems [n] = [n]) (title : QString) : Rewritten title (n.setTitle title) := by
  obtain ⟨entry, children⟩ := n
  have hfolder : entry.type = .folder := hfolder
  simp only [savedItems, hfolder, List.append_nil, List.cons.injEq, BookmarkNode.node.injEq,
    and_true] at h
  obtain ⟨hentry, hchildren⟩ := h
  constructor
  · change ({ entry with title } : Entry) = _
    rw [← hentry]
    rfl
  · change ∀ child ∈ children, _
    rw [← hchildren]
    exact fun child => savedItems_of_mem

/-! ### The two folders -/

section Folders

variable (tr : Titles) (items : List BookmarkNode)

/-- The node as the folder of the toolbar, if it is one. -/
def asToolbar (n : BookmarkNode) : Option BookmarkNode :=
  if n.entry.type = .folder ∧
      (n.entry.title = tr.toolbarBookmarks ∨ n.entry.title = tr.bookmarksBar) then
    some (n.setTitle tr.bookmarksBar)
  else none

/-- The node as the folder of the menu, if it is one. -/
def asMenu (n : BookmarkNode) : Option BookmarkNode :=
  if n.entry.type = .folder ∧ (n.entry.title = tr.menu ∨ n.entry.title = tr.bookmarksMenu) then
    some (n.setTitle tr.bookmarksMenu)
  else none

def notFolder (n : BookmarkNode) : Bool := n.entry.type ≠ .folder

/-- The last folder of the toolbar, or a new one. -/
def toolbarOf : BookmarkNode :=
  (items.reverse.findSome? (asToolbar tr)).getD
    (.node { type := .folder, title := tr.bookmarksBar } [])

/-- The last folder of the menu, or a new one. -/
def menuFolder : BookmarkNode :=
  (items.reverse.findSome? (asMenu tr)).getD
    (.node { type := .folder, title := tr.bookmarksMenu } [])

/-- The folder of the menu with everything that was in no folder, the last item first. -/
def menuOf : BookmarkNode :=
  .node (menuFolder tr items).entry
    ((menuFolder tr items).children ++ (items.filter notFolder).reverse)

theorem entry_setTitle (n : BookmarkNode) (title : QString) :
    (n.setTitle title).entry = { n.entry with title } := rfl

theorem setTitle_self {n : BookmarkNode} {title : QString} (h : n.entry.title = title) :
    n.setTitle title = n := by
  subst h
  cases n
  rfl

/-- A title that is replaced or kept. -/
theorem ite_setTitle {n : BookmarkNode} {old new : QString}
    (h : n.entry.title = old ∨ n.entry.title = new) :
    (if n.entry.title = old then n.setTitle new else n) = n.setTitle new := by
  split
  · rfl
  next hne => exact (setTitle_self (h.resolve_left hne)).symm

theorem loadNode_eq (s : BookmarksManager.Loading) (n : BookmarkNode) :
    BookmarksManager.loadNode tr s n =
      { toolbar := s.toolbar.or (asToolbar tr n)
        menu := s.menu.or (asMenu tr n)
        others := s.others ++ if notFolder n then [n] else [] } := by
  obtain ⟨toolbar, menu, others⟩ := s
  by_cases hfolder : n.entry.type = .folder
  · have hnot : notFolder n = false := by simp [notFolder, hfolder]
    rw [BookmarksManager.loadNode, if_pos hfolder]
    by_cases htoolbar : n.entry.title = tr.toolbarBookmarks ∨ n.entry.title = tr.bookmarksBar
    · obtain ⟨hmenu, hmenu'⟩ := tr.distinct _ htoolbar
      obtain ⟨hbar, hbar'⟩ := tr.distinct tr.bookmarksBar (Or.inr rfl)
      have hasMenu : asMenu tr n = none := by simp [asMenu, hmenu, hmenu']
      have hasToolbar : asToolbar tr n = some (n.setTitle tr.bookmarksBar) :=
        if_pos ⟨hfolder, htoolbar⟩
      cases toolbar with
      | some toolbar => simp [hnot, hasMenu, hmenu, hmenu']
      | none =>
          simp only [Option.isNone_none, and_true, ite_setTitle htoolbar]
          simp [hnot, hasMenu, hasToolbar, entry_setTitle, hbar, hbar']
    · obtain ⟨htitle, htitle'⟩ := not_or.mp htoolbar
      have hasToolbar : asToolbar tr n = none := by simp [asToolbar, htitle, htitle']
      simp only [htitle, htitle', false_and, if_false, hasToolbar, Option.or_none]
      by_cases hmenu : n.entry.title = tr.menu ∨ n.entry.title = tr.bookmarksMenu
      · have hasMenu : asMenu tr n = some (n.setTitle tr.bookmarksMenu) := if_pos ⟨hfolder, hmenu⟩
        cases menu with
        | some menu => simp [hnot]
        | none =>
            simp only [Option.isNone_none, and_true, ite_setTitle hmenu]
            simp [hnot, hasMenu, entry_setTitle]
      · obtain ⟨htitle, htitle'⟩ := not_or.mp hmenu
        simp [hnot, asMenu, htitle, htitle']
  · have hnot : notFolder n = true := by simp [notFolder, hfolder]
    simp [BookmarksManager.loadNode, asToolbar, asMenu, hfolder, hnot]

theorem foldl_loadNode (s : BookmarksManager.Loading) :
    items.foldl (BookmarksManager.loadNode tr) s =
      { toolbar := s.toolbar.or (items.findSome? (asToolbar tr))
        menu := s.menu.or (items.findSome? (asMenu tr))
        others := s.others ++ items.filter notFolder } := by
  induction items generalizing s with
  | nil => simp
  | cons n items ih =>
      rw [List.foldl_cons, ih, loadNode_eq]
      simp only [List.findSome?_cons, Option.or_assoc, List.append_assoc, List.filter_cons]
      congr 1
      · cases asToolbar tr n <;> simp
      · cases asMenu tr n <;> simp
      · split <;> simp

theorem foldl_add (menu : BookmarkNode) (others : List BookmarkNode) :
    others.foldl BookmarkNode.add menu = .node menu.entry (menu.children ++ others) := by
  induction others generalizing menu with
  | nil => cases menu; simp [BookmarkNode.entry, BookmarkNode.children]
  | cons n others ih =>
      rw [List.foldl_cons, ih]
      simp [BookmarkNode.add, BookmarkNode.entry, BookmarkNode.children]

/-- `load` keeps the last folder of either kind and what is in no folder. -/
theorem load_eq (root : BookmarkNode) : BookmarksManager.load tr root =
    .node root.entry [toolbarOf tr root.children, menuOf tr root.children] := by
  rw [BookmarksManager.load, foldl_loadNode, foldl_add]
  simp [toolbarOf, menuOf, menuFolder, List.filter_reverse]

end Folders

/-! ### Restarts -/

variable {tr : Titles} {items : List BookmarkNode}

/-- The kept folder that is found, or a new one. -/
theorem rewritten_getD {f : BookmarkNode → Option BookmarkNode} {title : QString}
    (hf : ∀ n folder, f n = some folder → n.entry.type = .folder ∧ folder = n.setTitle title)
    (hitems : ∀ n ∈ items, savedItems [n] = [n]) :
    Rewritten title ((items.reverse.findSome? f).getD (.node { type := .folder, title } [])) := by
  cases hfind : items.reverse.findSome? f with
  | none => exact ⟨rfl, List.forall_mem_nil _⟩
  | some folder =>
      obtain ⟨n, hn, hfolder⟩ := List.exists_of_findSome?_eq_some hfind
      obtain ⟨htype, rfl⟩ := hf n folder hfolder
      exact rewritten_setTitle htype (hitems n (List.mem_reverse.mp hn)) title

theorem rewritten_toolbarOf (h : ∀ n ∈ items, savedItems [n] = [n]) :
    Rewritten tr.bookmarksBar (toolbarOf tr items) := by
  refine rewritten_getD (fun n folder hfolder => ?_) h
  rw [asToolbar] at hfolder
  split at hfolder
  next htype => exact ⟨htype.1, (Option.some_injective _ hfolder).symm⟩
  next => cases hfolder

theorem rewritten_menuOf (h : ∀ n ∈ items, savedItems [n] = [n]) :
    Rewritten tr.bookmarksMenu (menuOf tr items) := by
  have hfolder : Rewritten tr.bookmarksMenu (menuFolder tr items) := by
    refine rewritten_getD (fun n folder hfolder => ?_) h
    rw [asMenu] at hfolder
    split at hfolder
    next htype => exact ⟨htype.1, (Option.some_injective _ hfolder).symm⟩
    next => cases hfolder
  refine ⟨hfolder.entry, fun child hchild => ?_⟩
  obtain hchild | hchild := List.mem_append.mp hchild
  · exact hfolder.children child hchild
  · exact h child (List.mem_filter.mp (List.mem_reverse.mp hchild)).1

/-- Two such folders are what `load` makes of them. -/
theorem load_rewritten {toolbar menu : BookmarkNode} (htoolbar : Rewritten tr.bookmarksBar toolbar)
    (hmenu : Rewritten tr.bookmarksMenu menu) :
    BookmarksManager.load tr (.node {} [toolbar, menu]) = .node {} [toolbar, menu] := by
  have htitle : toolbar.entry.title = tr.bookmarksBar := by rw [htoolbar.entry]
  have htitle' : menu.entry.title = tr.bookmarksMenu := by rw [hmenu.entry]
  have htype : toolbar.entry.type = .folder := by rw [htoolbar.entry]
  have htype' : menu.entry.type = .folder := by rw [hmenu.entry]
  have hbar : asToolbar tr toolbar = some toolbar := by
    rw [asToolbar, if_pos ⟨htype, Or.inr htitle⟩, setTitle_self htitle]
  have hbar' : asToolbar tr menu = none := by
    rw [asToolbar, if_neg]
    rintro ⟨-, hbar⟩
    exact (tr.distinct _ hbar).2 htitle'
  have hmenu' : asMenu tr menu = some menu := by
    rw [asMenu, if_pos ⟨htype', Or.inr htitle'⟩, setTitle_self htitle']
  have hfilter : [toolbar, menu].filter notFolder = [] := by
    simp [notFolder, htype, htype']
  have hmenuFolder : menuFolder tr [toolbar, menu] = menu := by
    simp [menuFolder, hmenu']
  rw [load_eq]
  change BookmarkNode.node {} [toolbarOf tr [toolbar, menu], menuOf tr [toolbar, menu]] = _
  rw [menuOf, hmenuFolder, hfilter]
  obtain ⟨entry, children⟩ := menu
  simp [toolbarOf, hbar, hbar', BookmarkNode.entry, BookmarkNode.children]

/-- After a restart there are the two folders. They keep all that a file keeps of them, and the
next restart changes nothing. -/
theorem restart (tr : Titles) (root : BookmarkNode) (hroot : root.entry.type = .root)
    {doc doc' : List Element} (h : Padded [write root] doc)
    (h' : Padded [write (BookmarksManager.load tr (read (tokens doc)).1)] doc') :
    BookmarksManager.load tr (read (tokens doc)).1 =
        .node {} [toolbarOf tr (savedItems root.children), menuOf tr (savedItems root.children)] ∧
      BookmarksManager.load tr (read (tokens doc')).1 =
        BookmarksManager.load tr (read (tokens doc)).1 := by
  have hload : BookmarksManager.load tr (read (tokens doc)).1 =
      .node {} [toolbarOf tr (savedItems root.children),
        menuOf tr (savedItems root.children)] := by
    rw [read_write root h, saved_root hroot, load_eq]
    rfl
  refine ⟨hload, ?_⟩
  rw [hload] at h' ⊢
  have hkept : ∀ n ∈ savedItems root.children, savedItems [n] = [n] := fun n hn =>
    savedItems_of_mem hn
  have htoolbar : Rewritten tr.bookmarksBar (toolbarOf tr (savedItems root.children)) :=
    rewritten_toolbarOf hkept
  have hmenu : Rewritten tr.bookmarksMenu (menuOf tr (savedItems root.children)) :=
    rewritten_menuOf hkept
  have hsaved : savedItems [toolbarOf tr (savedItems root.children),
      menuOf tr (savedItems root.children)] = [toolbarOf tr (savedItems root.children),
        menuOf tr (savedItems root.children)] := by
    refine savedItems_eq fun n hn => ?_
    obtain rfl | hn := List.mem_cons.mp hn
    · exact htoolbar.savedItems_eq
    · rw [List.mem_singleton.mp hn]
      exact hmenu.savedItems_eq
  rw [read_write _ h', saved_root rfl]
  change BookmarksManager.load tr (.node {} (savedItems [_, _])) = _
  rw [hsaved, load_rewritten htoolbar hmenu]

/-- The titles without a translation. -/
def english : Titles where
  toolbarBookmarks := QString.ofString "Toolbar Bookmarks"
  bookmarksBar := QString.ofString "Bookmarks Bar"
  menu := QString.ofString "Menu"
  bookmarksMenu := QString.ofString "Bookmarks Menu"
  distinct := by
    intro title h
    obtain rfl | rfl := h <;> decide

/-- A folder of the menu, another folder and a bookmark without a folder. -/
def someBookmarks : BookmarkNode :=
  .node {} [.node { type := .folder, title := QString.ofString "Menu" }
    [.node { type := .separator } []],
    .node { type := .folder, title := QString.ofString "News" } [],
    .node { type := .bookmark, url := QString.ofString "http://a.b" } []]

theorem restart_someBookmarks :
    BookmarksManager.load english (read (tokens [write someBookmarks])).1 =
    .node {} [toolbarOf english (savedItems someBookmarks.children),
      menuOf english (savedItems someBookmarks.children)] :=
  (restart english someBookmarks rfl (.refl _) (.refl _)).1

end OpBrowser.Ui
