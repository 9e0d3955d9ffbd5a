import OpBrowser.Model.Access
import OpBrowser.Model.Wire

/-! # Writing to pipes (kernel/AIOHelper.cpp, kernel/Message.cpp)

`llwriteMessage` runs the loop of `readWriteBytes` over the header and again over the
payload. Every round of it hands what is left to `AIOHelper::write`, which queues a copy
or, where `aio_write` fails, writes as much as the pipe takes. -/

namespace OpBrowser.Aio

/-- `aiocb`, in `m_cbs` until `gc` finds it completed. -/
structure Aiocb where
  fildes : ℕ
  buf : Bytes
  inProgress : Bool := true
  deriving DecidableEq, Repr

/-- The buffer that `llwriteMessage` is writing. -/
inductive Part where
  | header | payload
  deriving DecidableEq, Repr

/-- A call of `llwriteMessage` in progress. -/
structure Call where
  fd : ℕ
  msg : Message
  part : Part := .header
  bytesHandled : ℕ := 0
  deriving DecidableEq, Repr

namespace Call

variable (c : Call)

def buffer : Bytes :=
  match c.part with
  | .header => c.msg.header.toBytes
  | .payload => c.msg.payload.data

/-- `tmpBuf + bytesHandled`, the `bytesLeft` bytes that a round writes. -/
def left : Bytes := c.buffer.drop c.bytesHandled

/-- Where the call stands when a round has handled `ret` bytes. After the header comes
the payload if there is one. -/
def next (ret : ℕ) : Option Call :=
  if c.bytesHandled + ret < c.buffer.length then
    some { c with bytesHandled := c.bytesHandled + ret }
  else
    match c.part with
    | .header =>
        if c.msg.payload.dataLen > 0 then some { c with part := .payload, bytesHandled := 0 }
        else none
    | .payload => none

end Call

structure State where
  cbs : List Aiocb := []
  call : Option Call := none
  -- what arrived in the pipe behind each descriptor
  arrived : ℕ → Bytes := fun _ => []
  -- all calls of `llwriteMessage`, in order
  calls : List (ℕ × Message) := []

/-- The first request on this descriptor that is in progress completes. -/
def completeFirst (fd : ℕ) : List Aiocb → List Aiocb × Bytes
  | [] => ([], [])
  | cb :: cbs =>
      if cb.fildes = fd ∧ cb.inProgress then ({ cb with inProgress := false } :: cbs, cb.buf)
      else
        let r := completeFirst fd cbs
        (cb :: r.1, r.2)

variable (acc : AccessControl) (s : State)

def arrive (fd : ℕ) (b : Bytes) : State :=
  { s with arrived := Function.update s.arrived fd (s.arrived fd ++ b) }

/-- The check of `readWriteBytes` comes out the same way in every round: a call that it
refuses writes nothing. -/
def llwriteMessage (fd : ℕ) (msg : Message) : State :=
  { s with
    calls := s.calls ++ [(fd, msg)]
    call := if acc.checkWrite msg then some { fd, msg } else none }

/-- `AIOHelper::write` where `aio_write` takes the request. -/
def writeAsync (c : Call) : State :=
  { s with cbs := s.cbs ++ [{ fildes := c.fd, buf := c.left }], call := c.next c.left.length }

/-- `AIOHelper::write` where `aio_write` fails and `::write` takes this many bytes. -/
def writeSync (c : Call) (n : ℕ) : State :=
  { arrive s c.fd (c.left.take n) with call := c.next n }

def gc : State := { s with cbs := s.cbs.filter (·.inProgress) }

/-- What can happen next. -/
inductive Action where
  | llwriteMessage (fd : ℕ) (msg : Message)
  | writeAsync
  | writeSync (n : ℕ)
  | complete (fd : ℕ)
  | gc
  deriving DecidableEq

/-- Calls follow one another: a call begins when no other is in progress. What the handler of
a signal writes in the middle of a call is left out. A write that takes anything takes at
least one byte. -/
def step (s : State) : Action → State
  | .llwriteMessage fd msg => if s.call = none then llwriteMessage acc s fd msg else s
  | .writeAsync =>
      match s.call with
      | some c => writeAsync s c
      | none => s
  | .writeSync n =>
      match s.call with
      | some c => if 0 < n ∧ n ≤ c.left.length then writeSync s c n else s
      | none => s
  | .complete fd =>
      arrive { s with cbs := (completeFirst fd s.cbs).1 } fd (completeFirst fd s.cbs).2
  | .gc => gc s

def run (as : List Action) : State := as.foldl (step acc) {}

end OpBrowser.Aio
