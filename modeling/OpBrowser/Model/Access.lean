import OpBrowser.Model.Message

/-! # Access control between components (kernel/Access.cpp) -/

namespace OpBrowser

/-- The message types that one class of senders may send to another. -/
structure AccessControlCheck where
  src : I32
  dst : I32
  messages : List I32
  deriving DecidableEq, Repr

namespace AccessControlCheck

def allowed (c : AccessControlCheck) (msg : Message) : Bool := c.messages.contains msg.msgType

end AccessControlCheck

/-- The registered checks by sender and receiver. -/
abbrev AccessControl := List ((I32 × I32) × AccessControlCheck)

namespace AccessControl

/-- A later check for the same pair replaces the earlier one. -/
def registerACC (acc : AccessControl) (c : AccessControlCheck) : AccessControl :=
  ((c.src, c.dst), c) :: acc.filter fun e => e.1 ≠ (c.src, c.dst)

/-- The constructor `AccessControl::AccessControl`. -/
def create : AccessControl :=
  let w2u := ⟨webappFirstId, uiId, [msgUiMsg, msgNewWebapp]⟩
  let w2c := ⟨webappFirstId, cookieId, [msgDomCookieSet, msgDomCookieGet]⟩
  let w2n := ⟨webappFirstId, networkId, [msgFetchUrl, msgFetchUrlAbort]⟩
  let w2s := ⟨webappFirstId, storageId, [msgWriteFile, msgReadFile]⟩
  let u2w := ⟨uiId, webappFirstId, [msgWebappMsg]⟩
  let n2c := ⟨networkId, cookieId, [msgCookieSet, msgCookieGet]⟩
  let n2w := ⟨networkId, webappFirstId, [msgReturnUrl, msgReturnUrlMetadata]⟩
  let c2w := ⟨cookieId, webappFirstId, [msgDomCookieGetReturn]⟩
  let c2n := ⟨cookieId, networkId, [msgCookieGetReturn]⟩
  let s2w := ⟨storageId, webappFirstId, [msgReadFileReturn]⟩
  let s2u := ⟨storageId, uiId, [msgDownloadInfo]⟩
  [w2u, w2c, w2n, w2s, u2w, n2c, n2w, c2w, c2n, s2w, s2u].foldl registerACC []

/-- All web apps are one class of senders and receivers. -/
def classOf (id : I32) : I32 := if id ≥ webappFirstId then webappFirstId else id

def getACC (acc : AccessControl) (src dst : I32) : Option AccessControlCheck :=
  acc.lookup (classOf src, classOf dst)

/-- `AccessControl::checkWrite` -/
def checkWrite (acc : AccessControl) (msg : Message) : Bool :=
  if msg.srcId = kernelId ∨ msg.dstId = kernelId then true
  else
    match acc.getACC msg.srcId msg.dstId with
    | some chk => chk.allowed msg
    | none => false

/-- The pair of classes and the type stand in the table. -/
def Registered (acc : AccessControl) (src dst type : I32) : Prop :=
  ∃ chk, acc.getACC src dst = some chk ∧ type ∈ chk.messages

theorem checkWrite_of_ne {acc : AccessControl} {msg : Message} (hs : msg.srcId ≠ kernelId)
    (hd : msg.dstId ≠ kernelId) :
    acc.checkWrite msg = true ↔ acc.Registered msg.srcId msg.dstId msg.msgType := by
  unfold checkWrite Registered
  rw [if_neg (by simp [hs, hd])]
  cases acc.getACC msg.srcId msg.dstId with
  | none => simp
  | some chk => simp [AccessControlCheck.allowed]

@[simp] theorem checkWrite_of_kernel_src {acc : AccessControl} {msg : Message}
    (h : msg.srcId = kernelId) : acc.checkWrite msg = true := by
  simp [checkWrite, h]

/-- The kernel's own announcement of a web app passes the table. -/
theorem checkWrite_notice {msg : Message} (hs : webappFirstId ≤ msg.srcId) (hd : msg.dstId = uiId)
    (ht : msg.msgType = msgNewWebapp) : create.checkWrite msg = true := by
  have hsrc : classOf msg.srcId = webappFirstId := if_pos hs
  have hacc : create.getACC msg.srcId msg.dstId =
      some ⟨webappFirstId, uiId, [msgUiMsg, msgNewWebapp]⟩ := by
    rw [getACC, hsrc, hd]
    decide
  simp [checkWrite, hacc, AccessControlCheck.allowed, ht]

end AccessControl

end OpBrowser
