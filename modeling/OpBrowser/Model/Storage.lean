import OpBrowser.Library.Heap
import OpBrowser.Model.Message
import OpBrowser.Model.Variants

/-! # The storage component (storage/Storage.cpp, storage/StorageManager.cpp)

Downloads are written into the directory in which the component runs. -/

namespace OpBrowser.Storage

/-! ### Files -/

/-- The directory, whose folders include itself and its parent. -/
structure Directory where
  files : OrdMap QString Bytes
  folders : List QString
  dots : QString.ofString "." ∈ folders ∧ QString.ofString ".." ∈ folders

namespace Directory

variable (d : Directory)

/-- `QFile::exists` -/
def fileExists (name : QString) : Bool := d.files.contains name || d.folders.contains name

/-- What opening a file for writing leaves under its name. -/
def truncate (name : QString) : Directory := { d with files := d.files.insert name [] }

/-- Overwrites what is at the position and extends the file. -/
def write (name : QString) (pos : ℕ) (data : Bytes) : Directory :=
  let content := d.files[name]?.getD []
  { d with
    files := d.files.insert name (content.take pos ++ data ++ content.drop (pos + data.length)) }

end Directory

/-- `QFile` -/
structure QFile where
  fileName : QString
  isOpen : Bool
  pos : ℕ := 0
  deriving DecidableEq, Repr

/-- `QFileInfo::fileName`: the last component of a path. -/
def lastComponent (path : QString) : QString :=
  (path.reverse.takeWhile (· ≠ QString.slash)).reverse

/-- `QFileInfo::completeBaseName`: the last component up to its last dot. -/
def completeBaseName (path : QString) : QString :=
  let name := lastComponent path
  if QString.dot ∈ name then ((name.reverse.dropWhile (· ≠ QString.dot)).tail).reverse else name

/-- `QFileInfo::suffix`: what follows the last dot. -/
def suffix (path : QString) : QString :=
  let name := lastComponent path
  if QString.dot ∈ name then (name.reverse.takeWhile (· ≠ QString.dot)).reverse else []

/-! ### `Storage` -/

structure State where
  dir : Directory
  /-- `m_writeQueue`, from which nothing is ever removed. -/
  writeQueue : I32 × I32 → Option QFile := fun _ => none
  sent : List Message := []

/-- The loop of `writeFile` over numbered names, for at most `fuel` rounds. -/
def searchName (d : Directory) (baseName endName : QString) : ℕ → ℕ → Option QString
  | 0, _ => none
  | fuel + 1, i =>
      let actualName := baseName ++ QString.dash :: QString.number i ++ endName
      if d.fileExists actualName then searchName d baseName endName fuel (i + 1)
      else some actualName

/-- The search of `writeFile` for a name that is free. -/
def freeName (d : Directory) (baseName endName : QString) (fuel : ℕ) : Option QString :=
  if d.fileExists (baseName ++ endName) then searchName d baseName endName fuel 1
  else some (baseName ++ endName)

/-- `webappId * 1024 + fileId`, as an `int`. -/
def jobId (webappId fileId : I32) : I32 := wrap32 (webappId * 1024 + fileId)

variable (q : QtVariants)

/-- The first variants of a stream: the proposed name and the announced size. -/
def header (data : Bytes) : QString × ℤ :=
  let (name, rest) := q.read data
  (q.toString name, q.toLongLong (q.read rest).1)

/-- The two parts of the name that `writeFile` makes of a proposed one. -/
def nameParts (fileName : QString) : QString × QString :=
  let baseName := completeBaseName fileName
  let endName := suffix fileName
  (if baseName = [] then QString.ofString "unknown" else baseName,
    if endName ≠ [] then QString.dot :: endName else endName)

/-- The end of `writeFile`. -/
def tellUi (webappId fileId : I32) (bytes : Bytes) (s : State) : State :=
  { s with sent := s.sent ++
      [{ srcId := storageId, dstId := uiId, msgType := msgDownloadInfo
         msgValue := jobId webappId fileId, payload := .ofBytes bytes }] }

/-- `Storage::writeFile`. There is no result if the search for a name does not end
within `fuel` rounds. -/
def writeFile (fuel : ℕ) (webappId fileId : I32) (data : Bytes) (s : State) : Option State :=
  let id := (webappId, fileId)
  match s.writeQueue id with
  | none => do
      let (fileName, fileSize) := header q data
      let (baseName, endName) := nameParts fileName
      let actualName ← freeName s.dir baseName endName fuel
      -- create new file
      return tellUi webappId fileId (q.write (q.ofString actualName) ++
        q.write (q.ofLongLong fileSize))
        { s with
          dir := s.dir.truncate actualName
          writeQueue :=
            Function.update s.writeQueue id (some { fileName := actualName, isOpen := true }) }
  | some file =>
      if data.length > 0 then
        if file.isOpen then
          some <| tellUi webappId fileId (q.write (q.ofInt data.length))
            { s with
              dir := s.dir.write file.fileName file.pos data
              writeQueue :=
                Function.update s.writeQueue id (some { file with pos := file.pos + data.length }) }
        else some (tellUi webappId fileId (q.write (q.ofInt 0)) s)
      else
        some <| tellUi webappId fileId (q.write (q.ofInt 0))
          { s with
            writeQueue := Function.update s.writeQueue id (some { file with isOpen := false }) }

/-- `StorageManager::dispatchMsg`. No file is ever read: `readFile` returns nothing. -/
def dispatchMsg (fuel : ℕ) (s : State) (msg : Message) : Option State :=
  if msg.msgType = msgWriteFile then
    writeFile q fuel msg.srcId msg.msgValue msg.payload.data s
  else if msg.msgType = msgReadFile then
    some { s with sent := s.sent ++
      [{ srcId := storageId, dstId := msg.srcId, msgType := msgReadFileReturn
         msgValue := msg.msgValue }] }
  else some s

/-- A run over these messages from the start of the component. -/
def run (fuel : ℕ) (d : Directory) (msgs : List Message) : Option State :=
  msgs.foldlM (dispatchMsg q fuel) { dir := d }

end OpBrowser.Storage
