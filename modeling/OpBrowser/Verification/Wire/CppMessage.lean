import OpBrowser.Model.CppMessage
import OpBrowser.Verification.Wire.Codec

/-! # The C++ class and the reader over decoded headers

The packed struct in memory is the header on the wire, and the class reads and writes
it through its accessors. -/

namespace OpBrowser.Cpp

open ByteOrder
open Wire (Pipe Reader)

namespace Message

/-- The header as the accessors show it. -/
def view (m : Message) : OpBrowser.MessageHeader where
  srcId := m.getSrcId.toInt
  dstId := m.getDstId.toInt
  msgId := m.getMsgId.toInt
  msgType := m.getMsgType.toInt
  msgValue := m.getMsgValue.toInt
  dataLen := m.getDataLen.toInt

variable (m : Message)

variable {m} in
theorem view_congr {n : Message} (h : m.header = n.header) : m.view = n.view := by
  simp only [view, getSrcId, getDstId, getMsgId, getMsgType, getMsgValue, getDataLen, h]

/-- Loading a stored word and swapping it is reading it from the wire. -/
theorem memory_header : m.header.memory = m.view.toBytes := by
  have word (x : BitVec 32) : memory x = BigEndian.encode 4 (swap x).toInt :=
    memory_eq_encode (by decide) x
  have long (x : BitVec 64) : memory x = BigEndian.encode 8 (swap x).toInt :=
    memory_eq_encode (by decide) x
  simp only [MessageHeader.memory, word, long, OpBrowser.MessageHeader.toBytes, view, getSrcId,
    getDstId, getMsgId, getMsgType, getMsgValue, getDataLen, swapByteOrder]

theorem view_ofMemory {b : Bytes} (hb : b.length = headerSize) (data : Option Bytes) :
    (⟨.ofMemory b, data⟩ : Message).view = .ofBytes b := by
  have word (i : ℕ) (hi : i + 4 ≤ 28) : (swap (ofMemory 32 ((b.drop i).take 4))).toInt =
      BigEndian.decode ((b.drop i).take 4) := by
    apply toInt_swap_ofMemory (by decide)
    rw [List.length_take, List.length_drop, hb, headerSize]
    omega
  have long : (swap (ofMemory 64 ((b.drop 8).take 8))).toInt =
      BigEndian.decode ((b.drop 8).take 8) := by
    apply toInt_swap_ofMemory (by decide)
    rw [List.length_take, List.length_drop, hb, headerSize]
    rfl
  have first := word 0 (by decide)
  rw [List.drop_zero] at first
  simp only [view, getSrcId, getDstId, getMsgId, getMsgType, getMsgValue, getDataLen,
    MessageHeader.ofMemory, swapByteOrder, OpBrowser.MessageHeader.ofBytes]
  rw [first, word 4 (by decide), long, word 16 (by decide), word 20 (by decide),
    word 24 (by decide)]

theorem inRange_view : m.view.InRange := by
  have word (x : BitVec 32) : BigEndian.Fits 4 x.toInt := fits_toInt (by decide) x
  have long (x : BitVec 64) : BigEndian.Fits 8 x.toInt := fits_toInt (by decide) x
  constructor <;> simp only [view, word, long]

/-! The setters, with what the accessors show afterwards. -/

theorem swapByteOrder_swapByteOrder {w : ℕ} (hw : 8 ∣ w) (x : BitVec w) :
    swapByteOrder (swapByteOrder x) = x := swap_swap hw x

@[simp] theorem getSrcId_setSrcId (x : BitVec 32) : (m.setSrcId x).getSrcId = x :=
  swap_swap (by decide) x

@[simp] theorem getDstId_setDstId (x : BitVec 32) : (m.setDstId x).getDstId = x :=
  swap_swap (by decide) x

@[simp] theorem getMsgId_setMsgId (x : BitVec 64) : (m.setMsgId x).getMsgId = x :=
  swap_swap (by decide) x

@[simp] theorem getMsgType_setMsgType (x : BitVec 32) : (m.setMsgType x).getMsgType = x :=
  swap_swap (by decide) x

@[simp] theorem getMsgValue_setMsgValue (x : BitVec 32) : (m.setMsgValue x).getMsgValue = x :=
  swap_swap (by decide) x

theorem view_setSrcId (x : BitVec 32) : (m.setSrcId x).view = { m.view with srcId := x.toInt } := by
  simp only [view, getSrcId_setSrcId]
  simp only [getDstId, getMsgId, getMsgType, getMsgValue, getDataLen, setSrcId]

theorem view_setMsgId (x : BitVec 64) : (m.setMsgId x).view = { m.view with msgId := x.toInt } := by
  simp only [view, getMsgId_setMsgId]
  simp only [getSrcId, getDstId, getMsgType, getMsgValue, getDataLen, setMsgId]

end Message

/-! ### The C++ reader -/

variable (extra : ℕ → ℕ)

theorem getStringData_of_pos {m : Message} {data : Bytes} (hpos : m.getDataLen.toInt > 0)
    (hdata : m.msgData = some data) (hlen : data.length = m.getDataLen.toInt.toNat) :
    m.getStringData = data := by
  rw [Message.getStringData, if_pos hpos, hdata, Option.getD_some, ← hlen, List.take_length]

theorem getStringData_of_not_pos {m : Message} (h : ¬ m.getDataLen.toInt > 0) :
    m.getStringData = [] := by
  rw [Message.getStringData, if_neg h]

theorem length_nil_of_not_pos {n : I32} (h : ¬ n > 0) : ([] : Bytes).length = n.toNat := by
  rw [List.length_nil]
  lia

/-- The second half of `readMessageKernel`, for headers that agree. -/
theorem readPayload_view {m : Message} {header : OpBrowser.MessageHeader} (hm : m.view = header) :
    (fun m => (m.view, m.getStringData)) <$>
      (if m.getDataLen.toInt > 0 then do
        match ← Wire.readBytes extra m.getDataLen.toInt.toNat with
        | none => throw .assertionFailed
        | some data => return { m with msgData := some data.1 }
      else return m : Reader Message) =
    (fun m => (m.header, m.payload.data)) <$>
      (if h : header.dataLen > 0 then do
        match ← Wire.readBytes extra header.dataLen.toNat with
        | none => throw .assertionFailed
        | some data => return .ofParts header data data.2
      else return .ofParts header [] (length_nil_of_not_pos h) : Reader OpBrowser.Message) := by
  subst hm
  by_cases hpos : m.getDataLen.toInt > 0
  · have hview : m.view.dataLen > 0 := hpos
    rw [if_pos hpos, dif_pos hview, map_bind, map_bind]
    congr 1
    funext r
    cases r with
    | none => rfl
    | some data =>
        have hdata : ({ m with msgData := some data.1 } : Message).getStringData = data.1 :=
          getStringData_of_pos hpos rfl data.2
        rw [map_pure, map_pure, hdata, OpBrowser.Message.header_ofParts,
          OpBrowser.Message.data_ofParts,
          Message.view_congr (m := { m with msgData := some data.1 }) (n := m) rfl]
  · have hview : ¬ m.view.dataLen > 0 := hpos
    rw [if_neg hpos, dif_neg hview, map_pure, map_pure, getStringData_of_not_pos hpos,
      OpBrowser.Message.header_ofParts, OpBrowser.Message.data_ofParts]

/-- **Simulation.** Seen through the accessors, `readMessageKernel` is the reader over
decoded headers. -/
theorem readMessageKernel_view (srcId : BitVec 32) (msgId : BitVec 64) :
    (fun m => (m.view, m.getStringData)) <$> readMessageKernel extra srcId msgId =
      (fun m => (m.header, m.payload.data)) <$>
        Wire.readMessageKernel extra srcId.toInt msgId.toInt := by
  rw [readMessageKernel, Wire.readMessageKernel, map_bind, map_bind]
  congr 1
  funext r
  cases r with
  | none => rfl
  | some bytes =>
      apply readPayload_view
      -- the two fields that the kernel fills in, on both sides
      split <;> split <;>
        simp_all [Message.view_setSrcId, Message.view_setMsgId, Message.view_ofMemory bytes.2]

/-! ### The C++ writer -/

/-- The loop writes what is left of the buffer, whatever the single writes take. -/
theorem writeLoop_outcome (buf : Bytes) (handled : ℕ) (p : Pipe) (hlt : handled < buf.length) :
    Outcome (writeLoop extra buf handled) p
      (fun r q => 0 < r.1 ∧ r.2 = buf.length ∧ q.rest = p.rest ++ buf.drop handled)
      fun _ _ => False := by
  induction hd : buf.length - handled using Nat.strong_induction_on generalizing handled p with
  | _ d ih =>
      rw [writeLoop, Outcome.bind, write, Outcome.bind, Outcome.get, Outcome.bind, Outcome.set,
        Outcome.pure, List.length_drop]
      generalize hk : min (buf.length - handled) (extra p.turn + 1) = k
      have hpos : 0 < k := by omega
      have hdrop : buf.drop handled = (buf.drop handled).take k ++ buf.drop (handled + k) := by
        rw [← List.drop_drop, List.take_append_drop]
      split
      · rename_i hmore
        refine (ih _ (by omega) _ _ hmore.2 rfl).mono ?_ fun _ _ h => h
        intro r q h
        exact ⟨h.1, h.2.1, by rw [h.2.2, List.append_assoc, ← hdrop]⟩
      · rename_i hstop
        have hall : handled + k = buf.length := by omega
        rw [Outcome.pure]
        refine ⟨hpos, hall, ?_⟩
        rw [List.take_of_length_le]
        rw [List.length_drop]
        omega

theorem writeBytes_outcome (buf : Bytes) (p : Pipe) (h : 0 < buf.length) :
    Outcome (writeBytes extra buf) p
      (fun ret q => ret = buf.length ∧ q.rest = p.rest ++ buf) fun _ _ => False := by
  rw [writeBytes, Outcome.bind]
  refine (writeLoop_outcome extra buf 0 p h).mono ?_ fun _ _ h => h
  rintro ⟨ret, handled⟩ q ⟨hpos, hall, hq⟩
  dsimp only at hpos hall ⊢
  rw [if_pos hpos, if_pos hall, Outcome.pure]
  exact ⟨hall, hq⟩

theorem length_memory (h : MessageHeader) : h.memory.length = headerSize := by
  simp [MessageHeader.memory, headerSize]

/-- `llwriteMessage` writes the header and the data, and none of its assertions fails. -/
theorem llwriteMessage_outcome (m : Message) (p : Pipe)
    (hdata : m.getDataLen.toInt.toNat = (m.msgData.getD []).length) :
    Outcome (llwriteMessage extra m) p
      (fun _ q => q.rest = p.rest ++ (m.view.toBytes ++ m.msgData.getD [])) fun _ _ => False := by
  have hlen := length_memory m.header
  rw [llwriteMessage, Outcome.bind]
  refine (writeBytes_outcome extra _ p (by rw [hlen]; decide)).mono ?_ fun _ _ h => h
  rintro ret q ⟨hret, hq⟩
  rw [Outcome.bind, Outcome.ensure]
  refine ⟨fun _ => ?_, fun h => h (hret.trans hlen)⟩
  rw [hdata, List.take_length]
  split
  · rename_i hpos
    have hsome : 0 < (m.msgData.getD []).length := by omega
    rw [Outcome.bind]
    refine (writeBytes_outcome extra _ q hsome).mono ?_ fun _ _ h => h
    rintro ret t ⟨hret, ht⟩
    rw [Outcome.ensure]
    refine ⟨fun _ => ?_, fun h => h hret⟩
    rw [ht, hq, m.memory_header, List.append_assoc]
  · rename_i hneg
    have hnil : m.msgData.getD [] = [] := by
      apply List.eq_nil_of_length_eq_zero
      omega
    rw [Outcome.pure, hq, m.memory_header, hnil, List.append_nil]

end OpBrowser.Cpp
