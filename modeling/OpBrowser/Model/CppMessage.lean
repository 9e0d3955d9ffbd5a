import OpBrowser.Library.ByteOrder
import OpBrowser.Model.Wire

/-! # The class `Message` of the C++ components (kernel/Message.h, kernel/Message.cpp)

The fields of the header are kept in network byte order, so on a little-endian host
every accessor swaps. `read` and `write` handle at least one byte; how many more is
up to the system. The kernel's own writes go through `AIOHelper`. -/

namespace OpBrowser.Cpp

open Wire (Pipe Reader readBytes)

/-- `MessageHeader`, a packed struct, with the words as they are stored. -/
structure MessageHeader where
  srcId : BitVec 32
  dstId : BitVec 32
  msgId : BitVec 64
  msgType : BitVec 32
  msgValue : BitVec 32
  dataLen : BitVec 32
  deriving DecidableEq, Repr

namespace MessageHeader

/-- The bytes of the struct in memory. -/
def memory (h : MessageHeader) : Bytes :=
  ByteOrder.memory h.srcId ++ ByteOrder.memory h.dstId ++ ByteOrder.memory h.msgId ++
    ByteOrder.memory h.msgType ++ ByteOrder.memory h.msgValue ++ ByteOrder.memory h.dataLen

/-- The struct after these bytes were read into it. -/
def ofMemory (b : Bytes) : MessageHeader where
  srcId := ByteOrder.ofMemory 32 (b.take 4)
  dstId := ByteOrder.ofMemory 32 ((b.drop 4).take 4)
  msgId := ByteOrder.ofMemory 64 ((b.drop 8).take 8)
  msgType := ByteOrder.ofMemory 32 ((b.drop 16).take 4)
  msgValue := ByteOrder.ofMemory 32 ((b.drop 20).take 4)
  dataLen := ByteOrder.ofMemory 32 ((b.drop 24).take 4)

end MessageHeader

/-- `msgData` is a null pointer in a message without data. -/
structure Message where
  header : MessageHeader
  msgData : Option Bytes
  deriving DecidableEq, Repr

/-- Both overloads of `swapByteOrder`. -/
def swapByteOrder {w : ℕ} (x : BitVec w) : BitVec w := ByteOrder.swap x

namespace Message

/-- `Message::Message(srcId, dstId, msgId, msgType, msgValue, data)` -/
def new (srcId dstId : BitVec 32) (msgId : BitVec 64) (msgType msgValue : BitVec 32)
    (data : Bytes) : Message where
  header :=
    { srcId := swapByteOrder srcId
      dstId := swapByteOrder dstId
      msgId := swapByteOrder msgId
      msgType := swapByteOrder msgType
      msgValue := swapByteOrder msgValue
      dataLen := swapByteOrder (BitVec.ofNat 32 data.length) }
  msgData := if data.length > 0 then some data else none

variable (m : Message)

def getSrcId : BitVec 32 := swapByteOrder m.header.srcId
def getDstId : BitVec 32 := swapByteOrder m.header.dstId
def getMsgId : BitVec 64 := swapByteOrder m.header.msgId
def getMsgType : BitVec 32 := swapByteOrder m.header.msgType
def getMsgValue : BitVec 32 := swapByteOrder m.header.msgValue
def getDataLen : BitVec 32 := swapByteOrder m.header.dataLen

/-- `getStringData`, after its assertion -/
def getStringData : Bytes :=
  if m.getDataLen.toInt > 0 then (m.msgData.getD []).take m.getDataLen.toInt.toNat else []

def setSrcId (srcId : BitVec 32) : Message :=
  { m with header := { m.header with srcId := swapByteOrder srcId } }

def setDstId (dstId : BitVec 32) : Message :=
  { m with header := { m.header with dstId := swapByteOrder dstId } }

def setMsgId (msgId : BitVec 64) : Message :=
  { m with header := { m.header with msgId := swapByteOrder msgId } }

def setMsgType (msgType : BitVec 32) : Message :=
  { m with header := { m.header with msgType := swapByteOrder msgType } }

def setMsgValue (value : BitVec 32) : Message :=
  { m with header := { m.header with msgValue := swapByteOrder value } }

/-- `setDataLen` and the copy, in `setData`. -/
def setData (data : Bytes) : Message :=
  let dataLen := BitVec.ofNat 32 data.length
  { header := { m.header with dataLen := swapByteOrder dataLen }
    msgData := if dataLen.toInt > 0 then some (data.take dataLen.toInt.toNat) else none }

end Message

section Pipes

-- how many bytes more than one each `read` and each `write` handles if it can
variable (extra : ℕ → ℕ)

/-! ### Writing -/

/-- `write`, with the number of bytes that were taken. -/
def write (buf : Bytes) : Reader ℕ := do
  let p ← get
  let k := min buf.length (extra p.turn + 1)
  set (⟨p.rest ++ buf.take k, p.turn + 1⟩ : Pipe)
  return k

/-- The loop of `readWriteBytes`: the last count and all that was handled. -/
def writeLoop (buf : Bytes) (bytesHandled : ℕ) : Reader (ℕ × ℕ) := do
  let ret ← write extra (buf.drop bytesHandled)
  if 0 < ret ∧ bytesHandled + ret < buf.length then writeLoop buf (bytesHandled + ret)
  else return (ret, bytesHandled + ret)
termination_by buf.length - bytesHandled

/-- `writeBytes` -/
def writeBytes (buf : Bytes) : Reader ℕ := do
  let (ret, bytesHandled) ← writeLoop extra buf 0
  if 0 < ret then
    if bytesHandled = buf.length then return bytesHandled
    else throw .assertionFailed
  else return ret

/-- `Message::llwriteMessage` -/
def llwriteMessage (m : Message) : Reader PUnit := do
  let ret ← writeBytes extra m.header.memory
  ensure (ret = headerSize) .assertionFailed
  if m.getDataLen.toInt > 0 then
    let ret ← writeBytes extra ((m.msgData.getD []).take m.getDataLen.toInt.toNat)
    ensure (ret = m.getDataLen.toInt.toNat) .assertionFailed

/-! ### Reading -/

/-- `Message::readMessageKernel` -/
def readMessageKernel (srcId : BitVec 32) (msgId : BitVec 64) : Reader Message := do
  match ← readBytes extra headerSize with
  | none => throw .procExited
  | some bytes =>
      let m : Message := ⟨.ofMemory bytes, none⟩
      let m := if 0 ≤ msgId.toInt then m.setMsgId msgId else m
      let m := if 0 ≤ srcId.toInt then m.setSrcId srcId else m
      if m.getDataLen.toInt > 0 then
        match ← readBytes extra m.getDataLen.toInt.toNat with
        | none => throw .assertionFailed
        | some data => return { m with msgData := some data }
      else return m

end Pipes

end OpBrowser.Cpp
