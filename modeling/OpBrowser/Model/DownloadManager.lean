import OpBrowser.Model.Message
import OpBrowser.Model.Variants

/-! # The list of downloads (op-ui/downloadmanager.cpp)

What is shown of a download, without its speed and the time that is left. -/

namespace OpBrowser

/-- `DownloadItem`, with the maximum of its progress bar. -/
structure DownloadItem where
  jobId : I32
  fileName : QString
  maximum : I32
  /-- A `qint64`, which no download overflows. -/
  bytesReceived : ℤ := 0
  finishedDownloading : Bool := false
  deriving DecidableEq, Repr

namespace DownloadItem

/-- The constructor. The maximum of a progress bar is an `int`. -/
def new (jobId : I32) (fileName : QString) (bytesTotal : ℤ) : DownloadItem :=
  { jobId, fileName, maximum := wrap32 bytesTotal }

/-- `DownloadItem::downloadProgress` -/
def downloadProgress (bytesReceived : ℤ) (item : DownloadItem) : DownloadItem :=
  let bytesTotal := item.maximum
  { item with
    bytesReceived := item.bytesReceived + bytesReceived
    maximum := if bytesTotal = -1 then 0 else bytesTotal }

/-- `DownloadItem::finished` -/
def finished (item : DownloadItem) : DownloadItem := { item with finishedDownloading := true }

end DownloadItem

namespace DownloadManager

/-- Changes the first item with this job id. -/
def modifyItem (jobId : I32) (f : DownloadItem → DownloadItem) :
    List DownloadItem → List DownloadItem
  | [] => []
  | item :: downloads =>
      if item.jobId = jobId then f item :: downloads
      else item :: modifyItem jobId f downloads

/-- `DownloadManager::handleDownloadInfo` -/
def handleDownloadInfo (q : QtVariants) (jobId : I32) (data : Bytes)
    (downloads : List DownloadItem) : List DownloadItem :=
  let (var, rest) := q.read data
  if downloads.any (·.jobId = jobId) then
    let num := q.toInt var
    modifyItem jobId (fun item => if num > 0 then item.downloadProgress num else item.finished)
      downloads
  else downloads ++ [.new jobId (q.toString var) (q.toLongLong (q.read rest).1)]

/-- The list after these messages, of which it takes those about downloads. -/
def display (q : QtVariants) (msgs : List Message) : List DownloadItem :=
  (msgs.filter (·.msgType = msgDownloadInfo)).foldl
    (fun downloads m => handleDownloadInfo q m.msgValue m.payload.data downloads) []

end DownloadManager

end OpBrowser
