import OpBrowser.Library.ByteOrder
import OpBrowser.Model.Wire

/-! # The class `Message` of the Java components (shared_java/message/Message.java)

`DataInputStream` and `DataOutputStream` as they are documented. An `EOFException`
ends `readHeader` and `readFully`, so a read returns nothing then. -/

namespace OpBrowser.Java

open Wire (Pipe Reader)

/-- `MessageHeader` -/
structure MessageHeader where
  srcId : BitVec 32
  dstId : BitVec 32
  msgId : BitVec 64
  msgType : BitVec 32
  msgValue : BitVec 32
  dataLen : BitVec 32
  deriving DecidableEq, Repr

/-- `msgData` is null in a message without data. -/
structure Message where
  header : MessageHeader
  msgData : Option Bytes
  deriving DecidableEq, Repr

/-! ### `DataOutputStream` -/

/-- `out.write` -/
def write (b : Bytes) : Reader PUnit := modify fun p => { p with rest := p.rest ++ b }

/-- `writeInt` and `writeLong` -/
def writeWord {w : ℕ} (x : BitVec w) : Reader PUnit := write (ByteOrder.shiftOut x)

/-! ### `DataInputStream` -/

section Input

-- how many bytes more than one each `read` returns if it can
variable (extra : ℕ → ℕ)

/-- The loop of `readFully` behind the bytes that it has got. -/
def readFully (len : ℕ) (buf : Bytes) : OptionT Reader Bytes := do
  if buf.length < len then
    let chunk ← (Wire.read extra (len - buf.length) : Reader Bytes)
    if chunk = [] then failure
    else readFully len (buf ++ chunk)
  else return buf
termination_by len - buf.length
decreasing_by
  all_goals
    have := List.length_pos_iff.mpr ‹¬ chunk = []›
    rw [List.length_append]
    omega

/-- `readInt` and `readLong` -/
def readWord (w : ℕ) : OptionT Reader (BitVec w) := do
  return ByteOrder.shiftIn w (← readFully extra (w / 8) [])

/-! ### Messages -/

/-- `MessageHeader.readHeader` -/
def readHeader : OptionT Reader MessageHeader := do
  let srcId ← readWord extra 32
  let dstId ← readWord extra 32
  let msgId ← readWord extra 64
  let msgType ← readWord extra 32
  let msgValue ← readWord extra 32
  let dataLen ← readWord extra 32
  return ⟨srcId, dstId, msgId, msgType, msgValue, dataLen⟩

/-- `Message.llReadMessage`, which is `readMessage`. -/
def llReadMessage : OptionT Reader Message := do
  let header ← readHeader extra
  if header.dataLen.toInt > 0 then
    return ⟨header, some (← readFully extra header.dataLen.toInt.toNat [])⟩
  else return ⟨header, none⟩

end Input

/-- `MessageHeader.writeHeader` -/
def writeHeader (h : MessageHeader) : Reader PUnit := do
  writeWord h.srcId
  writeWord h.dstId
  writeWord h.msgId
  writeWord h.msgType
  writeWord h.msgValue
  writeWord h.dataLen

namespace Message

/-- `setMsgData(dstId, msgType, msgValue, b)` -/
def setMsgData (m : Message) (dstId msgType msgValue : BitVec 32) (b : Option Bytes) : Message where
  header :=
    { m.header with
      dstId := dstId
      msgType := msgType
      msgValue := msgValue
      dataLen := BitVec.ofNat 32 (b.getD []).length }
  msgData := b

def setMsgValue (m : Message) (val : BitVec 32) : Message :=
  { m with header := { m.header with msgValue := val } }

/-- `writeMessage` -/
def writeMessage (m : Message) : Reader PUnit := do
  writeHeader m.header
  if m.header.dataLen.toInt > 0 then
    write (m.msgData.getD [])

def getSrcId (m : Message) : BitVec 32 := m.header.srcId
def getDstId (m : Message) : BitVec 32 := m.header.dstId
def getMsgId (m : Message) : BitVec 64 := m.header.msgId
def getMsgType (m : Message) : BitVec 32 := m.header.msgType
def getMsgValue (m : Message) : BitVec 32 := m.header.msgValue
def getDataLen (m : Message) : BitVec 32 := m.header.dataLen
def getMsgData (m : Message) : Option Bytes := m.msgData

end Message

end OpBrowser.Java
