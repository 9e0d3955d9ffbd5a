import OpBrowser.Library.BigEndian
import OpBrowser.Library.Outcome
import OpBrowser.Model.Message

/-! # Frames on a pipe (kernel/Message.cpp)

What a component wrote before it exited, byte by byte. `read` returns at least one
byte while there is one; how many more is up to the system. -/

namespace OpBrowser

/-! ### The header -/

/-- `MessageHeader`, in the byte order of the host. -/
structure MessageHeader where
  srcId : I32
  dstId : I32
  msgId : I64
  msgType : I32
  msgValue : I32
  dataLen : I32
  deriving DecidableEq, Repr

/-- `sizeof(MessageHeader)`, a packed struct. -/
def headerSize : ℕ := 28

namespace MessageHeader

/-- The accessors: every field is big endian. -/
def ofBytes (b : Bytes) : MessageHeader where
  srcId := BigEndian.decode (b.take 4)
  dstId := BigEndian.decode ((b.drop 4).take 4)
  msgId := BigEndian.decode ((b.drop 8).take 8)
  msgType := BigEndian.decode ((b.drop 16).take 4)
  msgValue := BigEndian.decode ((b.drop 20).take 4)
  dataLen := BigEndian.decode ((b.drop 24).take 4)

def toBytes (h : MessageHeader) : Bytes :=
  BigEndian.encode 4 h.srcId ++ BigEndian.encode 4 h.dstId ++ BigEndian.encode 8 h.msgId ++
    BigEndian.encode 4 h.msgType ++ BigEndian.encode 4 h.msgValue ++ BigEndian.encode 4 h.dataLen

end MessageHeader

namespace Message

def header (m : Message) : MessageHeader :=
  ⟨m.srcId, m.dstId, m.msgId, m.msgType, m.msgValue, m.payload.dataLen⟩

/-- What `llwriteMessage` writes. -/
def toBytes (m : Message) : Bytes := m.header.toBytes ++ m.payload.data

/-- A message from its two parts. -/
def ofParts (h : MessageHeader) (data : Bytes) (size : data.length = h.dataLen.toNat) :
    Message where
  srcId := h.srcId
  dstId := h.dstId
  msgId := h.msgId
  msgType := h.msgType
  msgValue := h.msgValue
  payload := ⟨h.dataLen, data, size⟩

end Message

/-! ### Reading -/

namespace Wire

/-- The bytes that are still in the pipe of a process that has exited, and how often
`read` was called. -/
structure Pipe where
  rest : Bytes
  turn : ℕ
  deriving DecidableEq, Repr

inductive ReadFault where
  /-- `throw "Proc Exited\n"` -/
  | procExited
  | assertionFailed
  deriving DecidableEq, Repr

abbrev Reader := EStateM ReadFault Pipe

section Reading

-- how many bytes more than one each `read` returns if it can
variable (extra : ℕ → ℕ)

/-- `read`: some of the bytes, none at the end of the stream. -/
def read (n : ℕ) : Reader Bytes := do
  let p ← get
  let k := min n (min p.rest.length (extra p.turn + 1))
  set (⟨p.rest.drop k, p.turn + 1⟩ : Pipe)
  return p.rest.take k

/-- The loop of `readWriteBytes`: the last count and everything read. -/
def readLoop (numBytes : ℕ) (buf : Bytes) : Reader (ℕ × Bytes) := do
  let chunk ← read extra (numBytes - buf.length)
  if 0 < chunk.length ∧ (buf ++ chunk).length < numBytes then readLoop numBytes (buf ++ chunk)
  else return (chunk.length, buf ++ chunk)
termination_by numBytes - buf.length
decreasing_by
  simp only [List.length_append] at *
  omega

/-- `readBytes`: nothing for the return value 0, else as many bytes as were asked for. -/
def readBytes (numBytes : ℕ) : Reader (Option { b : Bytes // b.length = numBytes }) := do
  let (ret, buf) ← readLoop extra numBytes []
  if 0 < ret then
    if h : buf.length = numBytes then return some ⟨buf, h⟩
    else throw .assertionFailed
  else return none

/-- `Message::readMessageKernel`. A payload of which `readBytes` returns nothing fails
the assertion on its length. -/
def readMessageKernel (srcId : I32) (msgId : I64) : Reader Message := do
  match ← readBytes extra headerSize with
  | none => throw .procExited
  | some bytes =>
      let header := MessageHeader.ofBytes bytes
      let header := { header with
        msgId := if msgId ≥ 0 then msgId else header.msgId
        srcId := if srcId ≥ 0 then srcId else header.srcId }
      if h : header.dataLen > 0 then
        match ← readBytes extra header.dataLen.toNat with
        | none => throw .assertionFailed
        | some data => return .ofParts header data data.2
      else return .ofParts header [] (by simp; lia)

end Reading

/-! ### `handleMessage` -/

/-- What the first half of `handleMessage` ends with. -/
inductive Handled where
  | message (m : Message)
  /-- Without data the message stays as the constructor made it. -/
  | blank
  /-- The exception of a web app, after which the kernel goes on. -/
  | procExited
  /-- The exception of another component: `killProcs` and `exit(0)`. -/
  | exit
  | assertionFailed
  deriving DecidableEq, Repr

/-- The first half of `handleMessage`. -/
def receive (extra : ℕ → ℕ) (objectId : I32) (msgId : I64) (p : Pipe) : Handled × Pipe :=
  if p.rest ≠ [] then
    match readMessageKernel extra objectId msgId p with
    | .ok m p => (.message m, p)
    | .error .procExited p => (if objectId < webappFirstId then .exit else .procExited, p)
    | .error .assertionFailed p => (.assertionFailed, p)
  else (.blank, p)

/-- Successive calls of `handleMessage` on one pipe, with the values that `msgId` has
then. A failed assertion and an exit end the kernel. -/
def calls (extra : ℕ → ℕ) (objectId : I32) : List I64 → Pipe → List Handled
  | [], _ => []
  | msgId :: ids, p =>
      let (r, p) := receive extra objectId msgId p
      if r = .assertionFailed ∨ r = .exit then [r]
      else r :: calls extra objectId ids p

end Wire

end OpBrowser
