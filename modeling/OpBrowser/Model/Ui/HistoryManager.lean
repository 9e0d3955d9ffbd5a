import OpBrowser.Library.Heap
import OpBrowser.Model.Ui.History

/-! # The visited pages (op-ui/history.cpp)

`HistoryManager` keeps the visits, the last one first. `HistoryFilterModel` shows every
page once and keeps its rows as offsets from the end of the list. The signals of the
manager are calls of the slots that they are connected with. -/

namespace OpBrowser.Ui

/-- What the program uses of Qt here: dates, sorting and the spelling of URLs. -/
structure QtHistory where
  /-- `setDate(date().addDays(days))` -/
  addDays : Option ℤ → ℤ → Option ℤ
  daysTo : ℤ → Option ℤ → ℤ
  secsTo : ℤ → Option ℤ → ℤ
  qSort : List HistoryItem → List HistoryItem
  /-- A URL without its password and with its host in lower case. -/
  cleanUrl : QString → QString
  /-- `QUrl(a) == QUrl(b)` -/
  sameUrl : QString → QString → Bool

/-- `QModelIndex` -/
structure QModelIndex where
  row : ℤ := -1
  column : ℤ := -1
  internalId : ℤ := 0
  deriving DecidableEq, Repr

namespace QModelIndex

variable (index : QModelIndex)

def isValid : Bool := index.row ≥ 0 ∧ index.column ≥ 0

end QModelIndex

/-! ### `HistoryModel` -/

namespace HistoryModel

variable (lst : List HistoryItem)

/-- `data` for `UrlStringRole`, as a string. -/
def urlString (index : QModelIndex) : QString :=
  if index.row < 0 ∨ index.row ≥ lst.length then []
  else (lst[index.row.toNat]?.map HistoryItem.url).getD []

def rowCount : ℤ := lst.length

/-- `index` of a table with two columns. -/
def index (row column : ℤ) : QModelIndex :=
  if row < 0 ∨ column < 0 ∨ row ≥ lst.length ∨ column ≥ 2 then {}
  else { row, column }

end HistoryModel

/-! ### `HistoryFilterModel` -/

/-- `HistoryFilterModel`. Its functions take the list of the source model. -/
structure HistoryFilterModel where
  sourceRow : List ℤ := []
  historyHash : OrdMap QString ℤ := ∅
  loaded : Bool := false

namespace HistoryFilterModel

variable (f : HistoryFilterModel) (lst : List HistoryItem)

/-- One round of the loop of `load`. -/
def loadRow (f : HistoryFilterModel) (item : HistoryItem × ℕ) : HistoryFilterModel :=
  if item.1.url ∈ f.historyHash then f
  else
    { f with
      sourceRow := f.sourceRow ++ [(lst.length : ℤ) - item.2]
      historyHash := f.historyHash.insert item.1.url (lst.length - item.2) }

/-- Every query calls `load` first. -/
def load : HistoryFilterModel :=
  if f.loaded then f
  else { lst.zipIdx.foldl (loadRow lst) {} with loaded := true }

def historyContains (url : QString) : Bool := (f.load lst).historyHash.contains url

def historyLocation (url : QString) : ℤ :=
  match (f.load lst).historyHash[url]? with
  | none => 0
  | some offset => lst.length - offset

def rowCount : ℤ := (f.load lst).historyHash.size

def index (row column : ℤ) : QModelIndex :=
  if row < 0 ∨ row ≥ f.rowCount lst ∨ column < 0 ∨ column ≥ 2 then {}
  else { row, column, internalId := ((f.load lst).sourceRow[row.toNat]?).getD 0 }

def mapToSource (proxyIndex : QModelIndex) : QModelIndex :=
  HistoryModel.index lst (lst.length - proxyIndex.internalId) proxyIndex.column

def mapFromSource (sourceIndex : QModelIndex) : QModelIndex :=
  let f := f.load lst
  if HistoryModel.urlString lst sourceIndex ∈ f.historyHash then
    let sourceModelRow := lst.length - sourceIndex.row
    match f.sourceRow.findIdx? (· = sourceModelRow) with
    | none => {}
    | some realRow =>
        { row := realRow, column := sourceIndex.column
          internalId := lst.length - sourceIndex.row }
  else {}

def sourceReset : HistoryFilterModel := { f with loaded := false }

/-- `sourceRowsInserted` for the row at the front. -/
def sourceRowsInserted : HistoryFilterModel :=
  if !f.loaded then f
  else
    let url := HistoryModel.urlString lst (HistoryModel.index lst 0 0)
    let f :=
      match f.historyHash[url]? with
      | none => f
      | some offset =>
          let realRow := (f.mapFromSource lst (HistoryModel.index lst (lst.length - offset) 0)).row
          { f with
            sourceRow := f.sourceRow.eraseIdx realRow.toNat
            historyHash := f.historyHash.erase url }
    { f with
      historyHash := f.historyHash.insert url lst.length
      sourceRow := lst.length :: f.sourceRow }

end HistoryFilterModel

/-! ### `HistoryManager` -/

/-- `HistoryManager`, with the filter model over its list. The timers only decide when
`save` and `checkForExpired` are called. -/
structure HistoryManager where
  historyLimit : ℤ := 30
  history : List HistoryItem := []
  lastSavedUrl : QString := []
  historyFilterModel : HistoryFilterModel := {}

namespace HistoryManager

variable (qt : QtHistory) (m : HistoryManager)

/-- The signal `entryAdded`. -/
def entryAdded : HistoryManager :=
  { m with historyFilterModel := m.historyFilterModel.sourceRowsInserted m.history }

/-- The signals `entryRemoved` and `historyReset`, which reset all models. -/
def reset : HistoryManager :=
  { m with historyFilterModel := m.historyFilterModel.sourceReset }

/-- The time until an item expires, in seconds. -/
def nextTimeout (now : ℤ) (item : HistoryItem) : ℤ :=
  let checkForExpired := qt.addDays item.dateTime m.historyLimit
  -- check at most in a week to prevent int overflows on the timer
  if qt.daysTo now checkForExpired > 7 then 7 * 86400 else qt.secsTo now checkForExpired

/-- At most that many rounds of the loop of `checkForExpired`. -/
def expire (now : ℤ) : ℕ → HistoryManager → HistoryManager
  | 0, m => m
  | n + 1, m =>
      match m.history.getLast? with
      | none => m
      | some item =>
          if m.nextTimeout qt now item > 0 then m
          else expire now n (reset { m with history := m.history.dropLast, lastSavedUrl := [] })

def checkForExpired (now : ℤ) : HistoryManager :=
  if m.historyLimit < 0 ∨ m.history = [] then m else expire qt now m.history.length m

/-- `addHistoryItem`, which looks at the clock if the list was empty. -/
def addHistoryItem (item : HistoryItem) (now : ℤ) : HistoryManager :=
  let m := entryAdded { m with history := item :: m.history }
  if m.history.length = 1 then m.checkForExpired qt now else m

def addHistoryEntry (url : QString) (currentDateTime now : ℤ) : HistoryManager :=
  m.addHistoryItem qt { url := qt.cleanUrl url, dateTime := some currentDateTime } now

/-- `setHistory` up to its signal. -/
def replaceHistory (history : List HistoryItem) (loadedAndSorted : Bool) (now : ℤ) :
    HistoryManager :=
  -- verify that it is sorted by date
  let m := { m with history := if !loadedAndSorted then qt.qSort history else history }
  let m := m.checkForExpired qt now
  { m with
    lastSavedUrl := if loadedAndSorted then (m.history.head?.map HistoryItem.url).getD [] else [] }

def setHistory (history : List HistoryItem) (loadedAndSorted : Bool) (now : ℤ) : HistoryManager :=
  (m.replaceHistory qt history loadedAndSorted now).reset

/-- `updateHistoryItem`. The first visit of the page gets the title. -/
def updateHistoryItem (url title : QString) : HistoryManager :=
  if title = QString.ofString "Loading..." then m
  else
    match m.history.findIdx? fun item => qt.sameUrl url item.url with
    | none => m
    | some i =>
        { m with
          history := m.history.modify i fun item => { item with title }
          lastSavedUrl :=
            if m.lastSavedUrl = [] then (m.history[i]?.map HistoryItem.url).getD []
            else m.lastSavedUrl }

def setHistoryLimit (limit now : ℤ) : HistoryManager :=
  if m.historyLimit = limit then m
  else { m with historyLimit := limit }.checkForExpired qt now

def clear : HistoryManager := { m with history := [], lastSavedUrl := [] }.reset

/-! ### Rows that the user removes -/

/-- `HistoryModel::removeRows` up to its signal. The model does not listen to the signal of
`setHistory`. -/
def removeRows (row count : ℤ) (now : ℤ) : HistoryManager :=
  let kept := m.history.zipIdx.filter fun (_, i) => ¬ (row ≤ i ∧ i < row + count)
  m.replaceHistory qt (kept.map Prod.fst) false now

/-- `HistoryModel::removeRows` called from outside, which resets the filter model. -/
def removeModelRows (row count : ℤ) (now : ℤ) : HistoryManager :=
  (m.removeRows qt row count now).reset

/-- `HistoryFilterModel::removeRows`, which does not listen to the history model. The visits
between the first and the last row go too. -/
def removeFilterRows (row count : ℤ) (now : ℤ) : HistoryManager :=
  let f := m.historyFilterModel.load m.history
  let m := { m with historyFilterModel := f }
  if row < 0 ∨ count ≤ 0 ∨ row + count > f.rowCount m.history then m
  else
    let sourceRow (row : ℤ) : ℤ := m.history.length - (f.sourceRow[row.toNat]?).getD 0
    let start := sourceRow row
    let last := sourceRow (row + count - 1)
    let m := (m.removeRows qt start (last - start + 1) now).reset
    -- the new number of rows is compared with the old one
    { m with historyFilterModel := m.historyFilterModel.load m.history }

/-! ### Runs -/

/-- What can happen next. A query is any function of the filter model. -/
inductive Call where
  | addHistoryEntry (url : QString) (currentDateTime now : ℤ)
  | setHistory (history : List HistoryItem) (loadedAndSorted : Bool) (now : ℤ)
  | updateHistoryItem (url title : QString)
  | setHistoryLimit (limit now : ℤ)
  | checkForExpired (now : ℤ)
  | clear
  | removeModelRows (row count : ℤ) (now : ℤ)
  | removeFilterRows (row count : ℤ) (now : ℤ)
  | query
  deriving DecidableEq, Repr

def step (m : HistoryManager) : Call → HistoryManager
  | .addHistoryEntry url currentDateTime now => m.addHistoryEntry qt url currentDateTime now
  | .setHistory history loadedAndSorted now => m.setHistory qt history loadedAndSorted now
  | .updateHistoryItem url title => m.updateHistoryItem qt url title
  | .setHistoryLimit limit now => m.setHistoryLimit qt limit now
  | .checkForExpired now => m.checkForExpired qt now
  | .clear => m.clear
  | .removeModelRows row count now => m.removeModelRows qt row count now
  | .removeFilterRows row count now => m.removeFilterRows qt row count now
  | .query => { m with historyFilterModel := m.historyFilterModel.load m.history }

/-- A run from the start of the program. -/
def run (calls : List Call) : HistoryManager := calls.foldl (step qt) {}

end HistoryManager

end OpBrowser.Ui
