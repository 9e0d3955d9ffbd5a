import OpBrowser.Model.Ui.WebView

/-! # What a page tells of its frames (webapp/op2/FrameInit.cpp)

The system calls as the kernel passes them on to the user interface, with the id of the page. -/

namespace OpBrowser

/-- `QString::arg` of an `int`. -/
def QString.arg (n : I32) : QString := (decimal n).map UInt8.toUInt16

namespace FrameInit

open Ui

/-- `sendSysCall(MSG_EMBED_FRAME, value, content.toAscii())` -/
def embedFrame (page value : I32) (content : QString) : Message where
  srcId := page
  dstId := kernelId
  msgType := msgEmbedFrame
  msgValue := value
  payload := .ofBytes content.toLatin1

/-- `FrameInit::handleFrameLayoutComplete` -/
def handleFrameLayoutComplete (page : I32) (geometry : Geometry) (frameName : QString) : Message :=
  let str := QString.arg geometry.height ++ QString.comma :: (QString.arg geometry.width ++
    QString.comma :: (QString.arg geometry.x ++ QString.comma :: (QString.arg geometry.y ++
      [QString.comma])))
  embedFrame page 1 (str ++ frameName)

end FrameInit

end OpBrowser
