import OpBrowser.Model.Bytes
import OpBrowser.Model.Constants

/-! # Messages between components (kernel/Message.h)

`dataLen` is a signed header field: a message without data can carry any value
that is not positive there. -/

namespace OpBrowser

/-- `dataLen` and the buffer behind `msgData`, which is null unless `dataLen > 0`. -/
structure Payload where
  dataLen : I32
  data : Bytes
  size : data.length = dataLen.toNat
  deriving DecidableEq, Repr

namespace Payload

def ofBytes (b : Bytes) : Payload := ⟨b.length, b, by simp⟩

def empty : Payload := ofBytes []

end Payload

/-- `Message`, with the header fields as the accessors return them. The default
is what the constructor `Message()` sets up. -/
structure Message where
  srcId : I32 := 0
  dstId : I32 := 0
  msgId : I64 := 0
  msgType : I32 := 0
  msgValue : I32 := 0
  payload : Payload := .empty
  deriving DecidableEq, Repr

namespace Message

/-- `getStringData` -/
def stringData (m : Message) : Bytes := m.payload.data

end Message

end OpBrowser
