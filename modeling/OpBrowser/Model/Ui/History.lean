import OpBrowser.Model.CookieStore

/-! # The history of a tab (op-ui/history.cpp, op-ui/browsermainwindow.cpp)

Methods that load a page return the item with which they call `loadUrl` of the web view. -/

namespace OpBrowser.Ui

/-- `HistoryItem`, which `operator==` compares as a whole. No tab gives its items a date. -/
structure HistoryItem where
  url : QString
  title : QString := []
  dateTime : Option ℤ := none
  deriving DecidableEq, Repr

/-- `History` -/
structure History where
  entries : List HistoryItem := []
  current : ℤ := -1
  deriving DecidableEq, Repr

namespace History

variable (h : History)

def canGoBack : Bool := h.current > 0

def canGoForward : Bool := h.current ≥ 0 ∧ h.entries.length > h.current + 1

def ajustCurrentItem (back : Bool) : History :=
  if back && h.canGoBack then { h with current := h.current - 1 }
  else if !back && h.canGoForward then { h with current := h.current + 1 }
  else h

def addItem (item : HistoryItem) : History :=
  -- Toss anything in the forward list
  let kept := if h.current ≥ 0 then h.entries.take (h.current + 1).toNat else h.entries
  { entries := kept ++ [item], current := h.current + 1 }

def setCurrentItemTitle (title : QString) : History :=
  if h.current ≥ 0 ∧ title ≠ QString.ofString "Loading..." then
    { h with entries := h.entries.modify h.current.toNat fun item => { item with title } }
  else h

def count : ℤ := h.entries.length

def back : History × Option HistoryItem :=
  if h.canGoBack then
    let h := { h with current := h.current - 1 }
    (h, h.entries[h.current.toNat]?)
  else (h, none)

def forward : History × Option HistoryItem :=
  if h.canGoForward then
    let h := { h with current := h.current + 1 }
    (h, h.entries[h.current.toNat]?)
  else (h, none)

def goToItem (item : HistoryItem) : History × Option HistoryItem :=
  if h.current < 0 ∨ h.entries.length = 0 then (h, none)
  else
    match h.entries.findIdx? (· = item) with
    | none => (h, none)
    | some idx => ({ h with current := idx }, some item)

/-- The entries from `first` up to but not including `m_current`. -/
def backItems (maxItems : ℤ) : List HistoryItem :=
  if h.canGoBack then
    let first := max (h.current - maxItems) 0
    (h.entries.drop first.toNat).take (h.current - first).toNat
  else []

/-- The entries behind `m_current` up to `last`. -/
def forwardItems (maxItems : ℤ) : List HistoryItem :=
  if h.canGoForward then
    let last := min (h.current + maxItems) (h.entries.length - 1)
    (h.entries.drop (h.current + 1).toNat).take (last - h.current).toNat
  else []

/-! ### The menus -/

/-- An action in a menu, without its icon. -/
structure QAction where
  data : ℤ
  text : QString
  deriving DecidableEq, Repr

/-- The text of the action for an item. -/
def actionText (item : HistoryItem) : QString :=
  if !item.title.isEmpty then item.title else item.url

/-- `BrowserMainWindow::slotAboutToShowBackMenu`. The loop runs down from the last item. -/
def slotAboutToShowBackMenu : List QAction :=
  let historyCount := h.count
  (h.backItems historyCount).zipIdx.reverse.map fun (item, i) =>
    { data := -1 * (historyCount - i - 1), text := actionText item }

/-- `BrowserMainWindow::slotAboutToShowForwardMenu` -/
def slotAboutToShowForwardMenu : List QAction :=
  let historyCount := h.count
  (h.forwardItems historyCount).zipIdx.map fun (item, i) =>
    { data := historyCount - i, text := actionText item }

/-- `BrowserMainWindow::slotOpenActionUrl`. There is no result if it takes an item from an
empty list. -/
def slotOpenActionUrl (action : QAction) : Option (History × Option HistoryItem) :=
  let offset := action.data
  if offset < 0 then (h.backItems (-1 * offset)).head?.map h.goToItem
  else if offset > 0 then (h.forwardItems (h.count - offset + 1)).getLast?.map h.goToItem
  else some (h, none)

end History

/-- The calls that change a history. -/
inductive HistoryCall where
  | addItem (item : HistoryItem)
  | back
  | forward
  | ajustCurrentItem (back : Bool)
  | setCurrentItemTitle (title : QString)
  | goToItem (item : HistoryItem)
  deriving DecidableEq, Repr

namespace History

def call (h : History) : HistoryCall → History
  | .addItem item => h.addItem item
  | .back => h.back.1
  | .forward => h.forward.1
  | .ajustCurrentItem back => h.ajustCurrentItem back
  | .setCurrentItemTitle title => h.setCurrentItemTitle title
  | .goToItem item => (h.goToItem item).1

/-- A run from the empty history. -/
def run (calls : List HistoryCall) : History := calls.foldl call {}

end History

end OpBrowser.Ui
