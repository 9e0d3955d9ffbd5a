import OpBrowser.Library.Heap
import OpBrowser.Model.Message

/-! # Dispatch of incoming messages (network/Manager.cpp, webapp/op2/OpNetwork.cpp)

`activated` reads the pipe and hands every message to `dispatchMsg`. A handler may
ask for cookies, and while it waits for the answer the event loop runs on top of it
and calls `activated` again. The calls that are in progress are a stack of frames. -/

namespace OpBrowser.Dispatch

/-- The two components with such a dispatcher. -/
inductive Component where
  | manager | opNetwork
  deriving DecidableEq, Repr

/-- The argument of `activated`: `Message::getReadFd()`, or the -1 of a queued call. -/
inductive Activation where
  | readFd | queued
  deriving DecidableEq, Repr

/-- A call in progress. -/
inductive Frame where
  /-- The loop of `activated` over `m_msgQueue`. -/
  | drain (fd : Activation)
  /-- The loop of `activated` over the pipe. -/
  | read
  | dispatchMsg (msg : Message)
  /-- The loop of `cookiesForUrl`. -/
  | wait (reqId : I32)
  deriving DecidableEq, Repr

structure State where
  waitForReply : Bool := false
  msgQueue : List Message := []
  cookieMap : OrdMap I32 Bytes := ∅
  reqId : I32 := 0
  -- the calls in progress, the innermost one first
  stack : List Frame := []
  -- queued calls of `activated`, and the frames in the pipe
  posted : ℕ := 0
  unread : List Message := []
  -- what was read and what was dispatched, in this order
  received : List Message := []
  dispatched : List Message := []

namespace Component

/-- The answer to a request for cookies. -/
def cookieReply : Component → I32
  | manager => msgCookieGetReturn
  | opNetwork => msgDomCookieGetReturn

/-- Dispatched at once even while a call waits. -/
def passes (c : Component) (msg : Message) : Bool :=
  match c with
  | manager => msg.msgType = c.cookieReply
  | opNetwork => msg.msgType = c.cookieReply || msg.msgType = msgWebappMsg

end Component

variable (c : Component) (s : State)

def push (f : Frame) : State := { s with stack := f :: s.stack }

def pop : State := { s with stack := s.stack.tail }

/-- `activated` up to its first loop. -/
def activated (fd : Activation) : State :=
  if s.waitForReply = false then push s (.drain fd)
  else if fd = .readFd then push s .read
  else s

/-- The call of `dispatchMsg` with this message. -/
def dispatch (msg : Message) : State :=
  push { s with dispatched := s.dispatched ++ [msg] } (.dispatchMsg msg)

/-- One round of the loop over the queue. -/
def drainNext (fd : Activation) : State :=
  match s.msgQueue with
  | msg :: rest => dispatch { s with msgQueue := rest } msg
  | [] => if fd = .readFd then push (pop s) .read else pop s

/-- One round of the loop over the pipe. -/
def readNext : State :=
  match s.unread with
  | msg :: rest =>
      let s := { s with unread := rest, received := s.received ++ [msg] }
      if s.waitForReply && !c.passes msg then { s with msgQueue := s.msgQueue ++ [msg] }
      else dispatch s msg
  | [] => pop s

/-- The end of `dispatchMsg`. `handleCookieMap` is the one handler that changes the
state of the dispatcher. -/
def finish (msg : Message) : State :=
  if msg.msgType = c.cookieReply then
    pop { s with cookieMap := s.cookieMap.insert msg.msgValue msg.payload.data }
  else pop s

/-- The first half of `cookiesForUrl`, up to its loop. -/
def cookiesForUrl : State :=
  activated (push { s with reqId := s.reqId + 1, waitForReply := true } (.wait s.reqId)) .readFd

/-- The second half, once the answer is there: it is taken, and a call of `activated`
is queued. `OpNetwork` goes on waiting while there are other answers. -/
def replied (reqId : I32) : State :=
  let cookieMap := s.cookieMap.erase reqId
  pop { s with
    cookieMap
    waitForReply :=
      match c with
      | .manager => false
      | .opNetwork => s.waitForReply && !cookieMap.isEmpty
    posted := s.posted + 1 }

/-- One step of the innermost call. A loop of `cookiesForUrl` without an answer waits
for the event loop. -/
def advance : State :=
  match s.stack with
  | .drain fd :: _ => drainNext s fd
  | .read :: _ => readNext c s
  | .dispatchMsg msg :: _ => finish c s msg
  | .wait reqId :: _ => if reqId ∈ s.cookieMap then replied c s reqId else s
  | [] => s

/-- What can happen next. -/
inductive Action where
  | arrive (msg : Message)
  /-- The event loop finds the pipe readable. -/
  | notify
  /-- The event loop makes a queued call. -/
  | callQueued
  | advance
  /-- The handler that runs asks for cookies. -/
  | ask
  deriving DecidableEq, Repr

/-- The event loop runs: the program is idle or waits in `cookiesForUrl`. -/
def looping : Bool :=
  match s.stack with
  | [] | .wait _ :: _ => true
  | _ => false

def step : Action → State
  | .arrive msg => { s with unread := s.unread ++ [msg] }
  | .notify => if looping s then activated s .readFd else s
  | .callQueued =>
      if looping s && s.posted ≠ 0 then activated { s with posted := s.posted - 1 } .queued else s
  | .advance => advance c s
  | .ask =>
      match s.stack with
      | .dispatchMsg msg :: _ => if msg.msgType = c.cookieReply then s else cookiesForUrl s
      | _ => s

/-- A run from the idle program. -/
def run (as : List Action) : State := as.foldl (step c) {}

end OpBrowser.Dispatch
