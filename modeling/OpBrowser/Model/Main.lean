import OpBrowser.Model.WebAppMgr

/-! # The kernel loop (kernel/main.cpp) -/

namespace OpBrowser.Kernel

/-- `handleSyscall`. The web app id of a close or an update is a number in the data. -/
def handleSyscall (proc : Addr) (msg : Message) : Op Unit := do
  let s ← get
  if msg.msgType = msgNewUrl then
    if !s.isCrawler || msg.srcId = uiId then
      modify fun s => { s with newUrlId := s.newUrlId + 1 }
      handleNewUrl msg.msgValue msg.srcId msg.payload s.newUrlId
  else if msg.msgType = msgNewWebapp then
    handleInit proc msg
  else if msg.msgType = msgUpdataContainer then
    handleUpdateContainer msg.msgValue (atoi msg.stringData)
  else if msg.msgType = msgWebappClose then
    handleCloseWebApp msg.msgValue (atoi msg.stringData)
  else if msg.msgType = msgReplayWebapp then
    handleReplayWebApp msg.msgValue
    modify fun s => { s with replayMode := true }
  else if msg.msgType = msgLogBehaviorData ∨ msg.msgType = msgLogUserInput then
    pure ()
  else if msg.msgType = msgEmbedFrame then
    handleEmbedFrame msg
  else throw .syscallAssert

/-- The frame that `handleMessage` works on. Without data in the pipe nothing is
read and the message stays as the constructor made it. -/
def nextMessage (p : Process) : Op Message := do
  let s ← get
  if s.unread p.pid = [] then return {}
  else
    let id ← nextMsgId
    readMessageKernel p p.objectId id

/-- The second half of `handleMessage`: a system call, or a frame to pass on. -/
def route (proc : Addr) (msg : Message) : Op Unit := do
  let s ← get
  if msg.dstId = kernelId then handleSyscall proc msg
  else
    match s.procMap[msg.dstId]? with
    | none => pure ()
    | some dstProc =>
        let p ← deref dstProc
        if !s.replayMode then writeMessageKernel .handleMessage p.inFd msg

/-- `handleMessage`, for pipes that hold whole frames. -/
def handleMessage (proc : Addr) : Op Unit := do
  let p ← deref proc
  let msg ← nextMessage p
  route proc msg

/-- The object id and address under which a live process with this number stands. -/
def findByPid (s : KState) (pid : Pid) : Option I32 :=
  (s.procMap.toList.find? fun e => (s.procs[e.2]?.map Process.pid) = some pid).map Prod.fst

/-- One round of the `waitpid` loop of `sigchldHandler`. -/
def reap (pid : Pid) : Op Unit := do
  let s ← get
  match s.killList[pid]? with
  | some killed =>
      let id ← nextMsgId
      let ui ← require s.procMap[uiId]? .nullDeref
      let p ← deref ui
      writeMessageKernel .sigchldHandler p.inFd
        { srcId := kernelId, dstId := uiId, msgId := id, msgType := msgWebAppExited,
          msgValue := killed.1 }
      modify fun s => { s with killList := s.killList.erase pid }
  | none =>
      match findByPid s pid with
      | none => pure ()
      | some objectId =>
          if objectId ≥ webappFirstId then handleUnexpectedClose objectId
          else
            killProcs
            throw .exit

def reapAll : List Pid → Op Unit
  | [] => pure ()
  | pid :: rest => do
      reap pid
      reapAll rest

/-- `sigchldHandler` when `waitpid` reports these children in turn. The second
loop signals everything put on the kill list after `time(NULL) - 4`. -/
def sigchldHandler (pids : List Pid) : Op Unit := do
  reapAll pids
  modify fun s =>
    let lingering := s.killList.toList.filter fun e => decide (e.2.2 > s.now - 4)
    { s with signals := s.signals ++ lingering.map fun e => (e.1, .sigkill) }

/-- `new WebAppMgr(uiFd)` -/
def newWebAppMgr (uiFd : ℕ) : Op Unit := do
  modify fun s => { s with
    uiFd
    cache := { size := if s.isCrawler then 0 else 10, matchPolicy := .sopMatch, entries := [] } }
  preCreateWebApp

def addCore (objectId : I32) : Op Unit := do
  let proc ← createProc objectId
  addToProcMap proc

/-- `main` up to its loop. -/
def startUp : Op Unit := do
  addCore networkId
  addCore cookieId
  addCore storageId
  addCore uiId
  let s ← get
  let ui ← require s.procMap[uiId]? .nullDeref
  let p ← deref ui
  newWebAppMgr p.inFd

/-- A kernel before `main`: three inherited descriptors, the limit on their number
and nothing else. -/
def blank (isCrawler : Bool) (fdLimit : ℕ) : KState where
  isCrawler
  cache := { size := 0, matchPolicy := .sopMatch, entries := [] }
  fds := startTable
  fdLimit

/-! ### Runs -/

/-- What can happen next. A component writes a frame into its pipe or exits, the
clock moves, the loop picks a component whose pipe is readable, or children are
reported between two handlers. -/
inductive Event where
  | write (pid : Pid) (msg : Message)
  | die (pid : Pid)
  | tick (now : ℤ)
  | handle (objectId : I32)
  | sigchld (pids : List Pid)
  deriving DecidableEq

/-- What an event does. The loop only picks entries of `procMap`. -/
def perform : Event → Op Unit
  | .write pid msg => modify fun s => s.setUnread pid (s.unread pid ++ [msg])
  | .die pid => modify fun s => { s with exited := pid :: s.exited }
  | .tick now => modify fun s => { s with now }
  | .handle objectId => do
      let s ← get
      match s.procMap[objectId]? with
      | none => pure ()
      | some proc => handleMessage proc
  | .sigchld pids => sigchldHandler pids

/-- A kernel that runs or has stopped with a fault. -/
structure Machine where
  state : KState
  fault : Option Fault := none

namespace Machine

/-- Runs an operation unless the kernel has stopped. -/
def exec (x : Op Unit) (m : Machine) : Machine :=
  match m.fault with
  | some _ => m
  | none =>
      match x m.state with
      | .ok _ s => ⟨s, none⟩
      | .error f s => ⟨s, some f⟩

def step (m : Machine) (e : Event) : Machine := exec (perform e) m

def run (m : Machine) (es : List Event) : Machine := es.foldl step m

end Machine

/-- The kernel at the top of its loop for the first time, or stopped before. -/
def boot (isCrawler : Bool) (fdLimit : ℕ) : Machine :=
  Machine.exec startUp ⟨blank isCrawler fdLimit, none⟩

end OpBrowser.Kernel
