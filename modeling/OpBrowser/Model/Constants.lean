import Mathlib.Data.Int.Notation
import Mathlib.Tactic.Common

/-! # Component ids and message types (kernel/kernel.h)

`i32` and `i64` values are integers. A counter that grows by one for each process or
frame is not wrapped: a run in which it leaves the signed range, which C++ leaves
undefined, is outside of the model. -/

namespace OpBrowser

/-- `i32` as a number. The fields of a header are decoded from their bytes. -/
abbrev I32 := ℤ
/-- `i64`, likewise. -/
abbrev I64 := ℤ

/-! ### Components -/

def kernelId : I32 := 0
def networkId : I32 := 2
def uiId : I32 := 3
def cookieId : I32 := 4
def storageId : I32 := 6

/-- Every id from here on belongs to a web app. -/
def webappFirstId : I32 := 1024

/-! ### Message types -/

def msgNewUrl : I32 := 0
def msgFetchUrl : I32 := 1
def msgReturnUrl : I32 := 2
def msgSetUrl : I32 := 3
def msgUpdataContainer : I32 := 5
def msgFetchUrlAbort : I32 := 6
def msgNavSetWebapp : I32 := 14
def msgNewWebapp : I32 := 15
def msgStoreObject : I32 := 21
def msgRetrvObject : I32 := 22
def msgReturnUrlMetadata : I32 := 23
def msgObjectAddAclUser : I32 := 24
def msgReplayWebapp : I32 := 32
def msgLogBehaviorData : I32 := 34
def msgLogUserInput : I32 := 35
def msgEmbedFrame : I32 := 39

def msgCookieSet : I32 := 1007
def msgCookieGet : I32 := 1010
def msgCookieGetReturn : I32 := 1011

def msgDomCookieSet : I32 := 1030
def msgDomCookieGet : I32 := 1031
def msgDomCookieGetReturn : I32 := 1032

def msgWriteFile : I32 := 1040
def msgReadFile : I32 := 1041
def msgReadFileReturn : I32 := 1042
def msgDownloadInfo : I32 := 1043

def msgWebappMsg : I32 := 4000
def msgWebappClose : I32 := msgWebappMsg
def msgWebappHide : I32 := msgWebappMsg + 2
def msgWebappLoadUrl : I32 := msgWebappMsg + 3

def msgUiMsg : I32 := 5000
def msgLoadStarted : I32 := msgUiMsg
def msgLoadProgress : I32 := msgUiMsg + 1
def msgLoadFinished : I32 := msgUiMsg + 2
def msgWindowCloseRequested : I32 := msgUiMsg + 6
def msgTitleChanged : I32 := msgUiMsg + 10
def msgUrlChanged : I32 := msgUiMsg + 12
def msgAddHistoryItem : I32 := msgUiMsg + 13
def msgNavBackOrForward : I32 := msgUiMsg + 14
def msgWebAppExited : I32 := msgUiMsg + 15

end OpBrowser
