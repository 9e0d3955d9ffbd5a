import OpBrowser.Model.Ui.Xbel

/-! # Loading bookmarks (op-ui/bookmarks.cpp)

`BookmarksManager::load` makes two folders of what the file has: those of the toolbar and of
the menu. -/

namespace OpBrowser.Ui

/-- The translations of "Toolbar Bookmarks", "Bookmarks Bar", "Menu" and "Bookmarks Menu". No
title stands for both folders. -/
structure Titles where
  toolbarBookmarks : QString
  bookmarksBar : QString
  menu : QString
  bookmarksMenu : QString
  distinct : ∀ title, title = toolbarBookmarks ∨ title = bookmarksBar →
    title ≠ menu ∧ title ≠ bookmarksMenu

namespace BookmarksManager

variable (tr : Titles)

/-- The local variables of `load`. -/
structure Loading where
  toolbar : Option BookmarkNode := none
  menu : Option BookmarkNode := none
  others : List BookmarkNode := []

/-- One round of the loop of `load`. -/
def loadNode (s : Loading) (node : BookmarkNode) : Loading :=
  if node.entry.type = .folder then
    let node :=
      if node.entry.title = tr.toolbarBookmarks ∧ s.toolbar.isNone then
        node.setTitle tr.bookmarksBar
      else node
    let s :=
      if node.entry.title = tr.bookmarksBar ∧ s.toolbar.isNone then { s with toolbar := some node }
      else s
    let node :=
      if node.entry.title = tr.menu ∧ s.menu.isNone then node.setTitle tr.bookmarksMenu else node
    if node.entry.title = tr.bookmarksMenu ∧ s.menu.isNone then { s with menu := some node } else s
  else { s with others := s.others ++ [node] }

/-- `load`, from the root that the reader returned. -/
def load (root : BookmarkNode) : BookmarkNode :=
  -- the loop goes from the last child to the first one
  let s := root.children.reverse.foldl (loadNode tr) {}
  let toolbar := s.toolbar.getD (.node { type := .folder, title := tr.bookmarksBar } [])
  let menu := s.menu.getD (.node { type := .folder, title := tr.bookmarksMenu } [])
  .node root.entry [toolbar, s.others.foldl .add menu]

end BookmarksManager

end OpBrowser.Ui
