import OpBrowser.Library.Heap
import OpBrowser.Library.Outcome
import OpBrowser.Model.Access
import OpBrowser.Model.Descriptors
import OpBrowser.Model.DomainName

/-! # The state of the kernel process

`Process_t` and `WebAppProcess` records live on heaps, so that two tables can
share one and a freed one can be told from a live one. The world around the
kernel is part of the state: the clock, and the frames that each component has
written and the kernel has not yet read. -/

namespace OpBrowser

/-- Addresses of records; a null pointer is `none`. -/
abbrev Addr := ℕ
abbrev Pid := ℕ

/-- `Process_t`, with the two descriptors that the kernel keeps open. The
constructor leaves `clientId` uninitialised. -/
structure Process where
  inFd : ℕ
  outFd : ℕ
  pid : Pid
  objectId : I32
  label : DomainName := {}
  clientId : Option I32 := none
  deriving DecidableEq, Repr

structure WebAppProcess where
  proc : Option Addr := none
  client : I32 := 0
  container : I32 := 0
  deriving DecidableEq, Repr

inductive MatchPolicy where
  | sopMatch | exactMatch
  deriving DecidableEq, Repr

/-- `WebAppCache`: entries from the earliest to the latest stored. -/
structure WebAppCache where
  size : ℕ
  matchPolicy : MatchPolicy
  entries : List Addr
  deriving DecidableEq, Repr

/-- The function that wrote a frame. -/
inductive Site where
  | handleMessage | handleNewUrl | handleEmbedFrame | handleCloseWebApp | evict | sigchldHandler
  deriving DecidableEq, Repr

/-- A frame that the kernel put into a pipe. -/
structure Sent where
  site : Site
  fd : ℕ
  msg : Message
  deriving DecidableEq, Repr

inductive Signal where
  | sigint | sigkill
  deriving DecidableEq, Repr

/-- The ways in which the kernel stops, misbehaves or hangs. -/
inductive Fault where
  | nullDeref
  | useAfterFree
  /-- An assertion about `procMap`, `killList` or `m_webAppList`. -/
  | tableAssert
  /-- `assert(m_cachedWebApp->client == 0)` -/
  | clientAssert
  /-- `assert(0)` on a first frame that is not the init message. -/
  | initAssert
  /-- `assert(0)` on an unknown system call. -/
  | syscallAssert
  /-- `std::string(NULL)` throws. -/
  | nullString
  /-- A C string read past the end of its buffer. -/
  | overRead
  /-- An uninitialised field is read. -/
  | uninitialised
  /-- "Proc Exited" leaves the handler. -/
  | procExited
  /-- A read waits for a frame. -/
  | blocked
  /-- `exit(0)` -/
  | exit
  /-- `assert(pret == 0)` after a `pipe` for which no descriptors are left. -/
  | pipeAssert
  deriving DecidableEq, Repr

structure KState where
  isCrawler : Bool
  -- main.cpp
  procMap : OrdMap I32 Addr := ∅
  killList : OrdMap Pid (I32 × ℤ) := ∅
  msgId : I64 := 1
  newUrlId : I32 := 1
  replayMode : Bool := false
  accessControl : AccessControl := .create
  -- WebAppMgr
  uiFd : ℕ := 0
  webAppIdOffset : I32 := 0
  cachedWebApp : Option Addr := none
  cache : WebAppCache
  webAppList : OrdMap I32 (Option Addr) := ∅
  -- memory, descriptors and process numbers
  procs : Heap Process := .empty
  apps : Heap WebAppProcess := .empty
  fds : FdTable
  fdLimit : ℕ
  nextPid : Pid := 1
  -- the world
  now : ℤ := 0
  unread : Pid → List Message := fun _ => []
  exited : List Pid := []
  -- what the kernel did to it
  sent : List Sent := []
  signals : List (Pid × Signal) := []

namespace KState

/-! ### Changes to one part of the state -/

def writeProc (s : KState) (proc : Addr) (f : Process → Process) : KState :=
  { s with procs := s.procs.write proc f }

def writeApp (s : KState) (app : Addr) (f : WebAppProcess → WebAppProcess) : KState :=
  { s with apps := s.apps.write app f }

def addApp (s : KState) (a : WebAppProcess) : KState := { s with apps := s.apps.alloc a }

def freeApp (s : KState) (app : Addr) : KState := { s with apps := s.apps.free app }

def freeProc (s : KState) (proc : Addr) : KState := { s with procs := s.procs.free proc }

def bumpMsgId (s : KState) : KState := { s with msgId := s.msgId + 1 }

def setUnread (s : KState) (pid : Pid) (frames : List Message) : KState :=
  { s with unread := Function.update s.unread pid frames }

def send (s : KState) (f : Sent) : KState := { s with sent := s.sent ++ [f] }

def setEntries (s : KState) (entries : List Addr) : KState :=
  { s with cache := { s.cache with entries } }

def setSpare (s : KState) (app : Option Addr) : KState := { s with cachedWebApp := app }

def list (s : KState) (k : I32) (app : Addr) : KState :=
  { s with webAppList := s.webAppList.insert k (some app) }

def unlist (s : KState) (k : I32) : KState := { s with webAppList := s.webAppList.erase k }

end KState

/-- A kernel function: it changes the state and may stop with a fault. -/
abbrev Op := EStateM Fault KState

namespace Kernel

/-! ### Pointers -/

/-- `*proc` -/
def deref (proc : Addr) : Op Process := do
  let s ← get
  require s.procs[proc]? .useAfterFree

/-- `proc->field = value` -/
def updateProc (proc : Addr) (f : Process → Process) : Op Unit := do
  let _ ← deref proc
  modify (·.writeProc proc f)

/-- `*app` -/
def derefApp (app : Addr) : Op WebAppProcess := do
  let s ← get
  require s.apps[app]? .useAfterFree

/-- `app->field = value` -/
def updateApp (app : Addr) (f : WebAppProcess → WebAppProcess) : Op Unit := do
  let _ ← derefApp app
  modify (·.writeApp app f)

/-- `app->proc`, about to be dereferenced. -/
def procOf (app : Addr) : Op Addr := do
  let a ← derefApp app
  require a.proc .nullDeref

/-- `new WebAppProcess` -/
def newApp (a : WebAppProcess) : Op Addr := do
  let s ← get
  set (s.addApp a)
  return s.apps.next

def deleteApp (app : Addr) : Op Unit := do
  let _ ← derefApp app
  modify (·.freeApp app)

def deleteProc (proc : Addr) : Op Unit := do
  let _ ← deref proc
  modify (·.freeProc proc)

/-- `msgId++` -/
def nextMsgId : Op I64 := do
  let s ← get
  set s.bumpMsgId
  return s.msgId

/-! ### Pipes -/

/-- `Message::writeMessageKernel`: a frame that `checkWrite` refuses is dropped. -/
def writeMessageKernel (site : Site) (fd : ℕ) (msg : Message) : Op Unit :=
  modify fun s =>
    if s.accessControl.checkWrite msg then s.send ⟨site, fd, msg⟩ else s

/-- `Message::readMessageKernel` on a pipe that holds whole frames: the stamps
replace the fields of the header unless they are negative. -/
def readMessageKernel (proc : Process) (srcId : I32) (msgId : I64) : Op Message := do
  let s ← get
  match s.unread proc.pid with
  | [] => throw (if proc.pid ∈ s.exited then .procExited else .blocked)
  | m :: rest =>
      set (s.setUnread proc.pid rest)
      return { m with
        srcId := if srcId ≥ 0 then srcId else m.srcId
        msgId := if msgId ≥ 0 then msgId else m.msgId }

/-! ### The tables of main.cpp -/

def addToProcMap (proc : Addr) : Op Unit := do
  let p ← deref proc
  let s ← get
  ensure (s.procMap[p.objectId]? = none) .tableAssert
  modify fun s => { s with procMap := s.procMap.insert p.objectId proc }

def removeFromProcMap (proc : Addr) : Op Unit := do
  let p ← deref proc
  let s ← get
  ensure (s.procMap[p.objectId]? = some proc) .tableAssert
  modify fun s => { s with procMap := s.procMap.erase p.objectId }

def addToKillList (proc : Addr) : Op Unit := do
  let p ← deref proc
  let s ← get
  ensure (s.killList[p.pid]? = none) .tableAssert
  modify fun s => { s with killList := s.killList.insert p.pid (p.objectId, s.now) }

/-- `createProc`. The serial number of the child's pipes is the process number
that `fork` is about to return. `fork` does not fail, but the pipes may. -/
def createProc (objectId : I32) : Op Addr := do
  let s ← get
  let ends ← require (spawn s.fdLimit s.fds s.nextPid) .pipeAssert
  set { s with
    fds := ends.parent
    nextPid := s.nextPid + 1
    procs := s.procs.alloc { inFd := ends.inFd, outFd := ends.outFd, pid := s.nextPid, objectId } }
  return s.procs.next

/-- `killProcs` up to the signals it sends; `killChildren` finds the process of
`m_cachedWebApp`, which stands in `procMap` too. -/
def killProcs : Op Unit :=
  modify fun s =>
    let live := s.procMap.toList.filterMap fun e => s.procs[e.2]?.map Process.pid
    let spare := (s.cachedWebApp.bind fun w => s.apps[w]?.bind (·.proc)).bind fun a =>
      s.procs[a]?.map Process.pid
    { s with
      signals := s.signals ++ live.map (·, .sigint) ++ spare.toList.map (·, .sigint) ++
        live.map (·, .sigkill)
      cachedWebApp := none }

end Kernel

end OpBrowser
