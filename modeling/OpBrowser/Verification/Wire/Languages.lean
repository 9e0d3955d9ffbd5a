import OpBrowser.Model.JavaMessage
import OpBrowser.Verification.Wire.CppMessage
import OpBrowser.Verification.Wire.Refinement

/-! # One wire format in two languages

The packed struct of the C++ class and the fields that the Java class writes one by
one are the same bytes, so either class reads what either class has written. -/

namespace OpBrowser

open Wire (Pipe Reader)

/-- The length of an array is a positive `int`. -/
theorem toInt_length {n : ℕ} (h : n < 2 ^ 31) : (BitVec.ofNat 32 n).toInt = n := by
  rw [BitVec.toInt_ofNat', Int.bmod_eq_of_le (by lia) (by lia)]

/-! ### The Java class -/

namespace Java

/-- The fields of the header as numbers. -/
def MessageHeader.view (h : MessageHeader) : OpBrowser.MessageHeader where
  srcId := h.srcId.toInt
  dstId := h.dstId.toInt
  msgId := h.msgId.toInt
  msgType := h.msgType.toInt
  msgValue := h.msgValue.toInt
  dataLen := h.dataLen.toInt

theorem toBytes_view (h : MessageHeader) : h.view.toBytes =
    ByteOrder.shiftOut h.srcId ++ ByteOrder.shiftOut h.dstId ++ ByteOrder.shiftOut h.msgId ++
      ByteOrder.shiftOut h.msgType ++ ByteOrder.shiftOut h.msgValue ++
      ByteOrder.shiftOut h.dataLen := by
  have word (x : BitVec 32) : ByteOrder.shiftOut x = BigEndian.encode 4 x.toInt :=
    ByteOrder.shiftOut_eq_encode (by decide) x
  have long (x : BitVec 64) : ByteOrder.shiftOut x = BigEndian.encode 8 x.toInt :=
    ByteOrder.shiftOut_eq_encode (by decide) x
  simp only [word, long, OpBrowser.MessageHeader.toBytes, MessageHeader.view]

theorem writeHeader_outcome (h : MessageHeader) (p : Pipe) :
    Outcome (writeHeader h) p (fun _ q => q.rest = p.rest ++ h.view.toBytes) fun _ _ => False := by
  simp only [writeHeader, writeWord, write, Outcome.bind, Outcome.modify, toBytes_view,
    List.append_assoc]

theorem writeMessage_outcome (m : Message) (p : Pipe)
    (hdata : m.header.dataLen.toInt.toNat = (m.msgData.getD []).length) :
    Outcome m.writeMessage p
      (fun _ q => q.rest = p.rest ++ (m.header.view.toBytes ++ m.msgData.getD []))
      fun _ _ => False := by
  rw [Message.writeMessage, Outcome.bind]
  refine (writeHeader_outcome m.header p).mono ?_ fun _ _ h => h
  intro _ q hq
  split
  · rw [write, Outcome.modify, hq, List.append_assoc]
  · rename_i hneg
    have hnil : m.msgData.getD [] = [] := by
      apply List.eq_nil_of_length_eq_zero
      omega
    rw [Outcome.pure, hq, hnil, List.append_nil]

/-- The computation takes these bytes off the stream and returns this value. -/
def Reads {α : Type} (x : OptionT Reader α) (b : Bytes) (a : α) : Prop :=
  ∀ rest t, Outcome x.run ⟨b ++ rest, t⟩ (fun r q => r = some a ∧ q.rest = rest) fun _ _ => False

namespace Reads

variable {α β : Type} {x : OptionT Reader α} {f : α → OptionT Reader β} {a : α} {r : β}
  {b c : Bytes}

theorem pure (a : α) : Reads (Pure.pure a) [] a := fun _ _ => ⟨rfl, rfl⟩

theorem bind (hx : Reads x b a) (hf : Reads (f a) c r) : Reads (x >>= f) (b ++ c) r := by
  intro rest t
  rw [Outcome.run_bind, List.append_assoc]
  refine (hx (c ++ rest) t).mono ?_ fun _ _ h => h
  rintro _ ⟨s, u⟩ ⟨rfl, rfl⟩
  exact hf rest u

theorem bind_pure (hx : Reads x b a) (g : α → β) :
    Reads (x >>= fun a => Pure.pure (g a)) b (g a) := by
  have h := hx.bind (f := fun a => Pure.pure (g a)) (.pure (g a))
  rwa [List.append_nil] at h

end Reads

variable (extra : ℕ → ℕ)

/-- The loop of `readFully` gets the missing bytes, whatever the single reads return. -/
theorem readFully_reads (got b : Bytes) :
    Reads (readFully extra (got.length + b.length) got) b (got ++ b) := by
  induction hd : b.length using Nat.strong_induction_on generalizing got b with
  | _ d ih =>
      intro rest t
      subst hd
      rw [readFully]
      split
      swap
      · rename_i hdone
        have hnil : b = [] := by
          apply List.eq_nil_of_length_eq_zero
          omega
        subst hnil
        rw [List.append_nil]
        exact ⟨rfl, rfl⟩
      · rename_i hmore
        rw [Outcome.run_bind, OptionT.run_monadLift, Outcome.map, monadLift_self, Wire.read,
          Outcome.bind,
          Outcome.get, Outcome.bind, Outcome.set, Outcome.pure]
        dsimp only [Option.elim]
        rw [Nat.add_sub_cancel_left, List.length_append]
        generalize hk : min b.length (min (b.length + rest.length) (extra t + 1)) = k
        have hle : k ≤ b.length := by omega
        have hpos : 0 < k := by omega
        rw [List.take_append_of_le_length hle, List.drop_append_of_le_length hle]
        have hchunk : b.take k ≠ [] := by
          apply List.ne_nil_of_length_pos
          rw [List.length_take_of_le hle]
          exact hpos
        rw [if_neg hchunk]
        have hgoal : got.length + b.length = (got ++ b.take k).length + (b.drop k).length := by
          rw [List.length_append, List.length_take_of_le hle, List.length_drop]
          omega
        have hrest := ih (b.drop k).length (by rw [List.length_drop]; omega) (got ++ b.take k)
          (b.drop k) rfl rest (t + 1)
        rw [List.append_assoc, List.take_append_drop] at hrest
        rw [hgoal]
        exact hrest

theorem readWord_reads {w : ℕ} (hw : 8 ∣ w) (x : BitVec w) :
    Reads (readWord extra w) (ByteOrder.shiftOut x) x := by
  have hlen : (ByteOrder.shiftOut x).length = w / 8 := by
    rw [ByteOrder.shiftOut_eq, BigEndian.length_digits]
  have hread := readFully_reads extra [] (ByteOrder.shiftOut x)
  rw [List.length_nil, Nat.zero_add, hlen, List.nil_append] at hread
  have hword : Reads (readWord extra w) _ _ := hread.bind_pure (ByteOrder.shiftIn w)
  rwa [ByteOrder.shiftIn_shiftOut hw] at hword

/-- `readHeader` reads the fields in the order in which they are written. -/
theorem readHeader_reads (h : MessageHeader) : Reads (readHeader extra) h.view.toBytes h := by
  have word (x : BitVec 32) := readWord_reads extra (by decide) x
  have long (x : BitVec 64) := readWord_reads extra (by decide) x
  rw [toBytes_view, ← List.append_nil (_ ++ _)]
  simp only [List.append_assoc]
  exact (word h.srcId).bind <| (word h.dstId).bind <| (long h.msgId).bind <|
    (word h.msgType).bind <| (word h.msgValue).bind <| (word h.dataLen).bind <| .pure h

/-- A message is read as it was written; no data comes back as null. -/
theorem llReadMessage_reads (m : Message)
    (hdata : m.header.dataLen.toInt.toNat = (m.msgData.getD []).length) :
    Reads (llReadMessage extra) (m.header.view.toBytes ++ m.msgData.getD [])
      ⟨m.header, if m.header.dataLen.toInt > 0 then some (m.msgData.getD []) else none⟩ := by
  apply (readHeader_reads extra m.header).bind
  split
  · rename_i hpos
    have hread := readFully_reads extra [] (m.msgData.getD [])
    rw [List.length_nil, Nat.zero_add, ← hdata, List.nil_append] at hread
    exact hread.bind_pure fun data => (⟨m.header, some data⟩ : Message)
  · rename_i hneg
    have hnil : m.msgData.getD [] = [] := by
      apply List.eq_nil_of_length_eq_zero
      omega
    rw [hnil]
    exact .pure _

end Java

/-! ### Both classes -/

namespace Wire

/-- What a message says, in the words of the program. -/
structure Fields where
  srcId : BitVec 32
  dstId : BitVec 32
  msgId : BitVec 64
  msgType : BitVec 32
  msgValue : BitVec 32
  data : Bytes
  deriving DecidableEq, Repr

namespace Fields

variable (f : Fields)

/-- The message as the decoded readers have it. -/
def message : Message where
  srcId := f.srcId.toInt
  dstId := f.dstId.toInt
  msgId := f.msgId.toInt
  msgType := f.msgType.toInt
  msgValue := f.msgValue.toInt
  payload := .ofBytes f.data

/-- An object of the C++ class with these fields, by its constructor. -/
def cpp : Cpp.Message := .new f.srcId f.dstId f.msgId f.msgType f.msgValue f.data

/-- The fields of an object of the C++ class, by its accessors. -/
def ofCpp (m : Cpp.Message) : Fields :=
  ⟨m.getSrcId, m.getDstId, m.getMsgId, m.getMsgType, m.getMsgValue, m.getStringData⟩

/-- An object of the Java class with these fields. -/
def java : Java.Message where
  header := ⟨f.srcId, f.dstId, f.msgId, f.msgType, f.msgValue, BitVec.ofNat 32 f.data.length⟩
  msgData := if f.data.length > 0 then some f.data else none

/-- The fields of an object of the Java class, by its accessors. -/
def ofJava (m : Java.Message) : Fields :=
  ⟨m.getSrcId, m.getDstId, m.getMsgId, m.getMsgType, m.getMsgValue, m.getMsgData.getD []⟩

end Fields

/-- The two classes. -/
inductive Language where
  | cpp
  | java
  deriving DecidableEq, Repr

variable (extra : ℕ → ℕ)

namespace Language

/-- Setting up a message and writing it. -/
def send : Language → Fields → Reader PUnit
  | cpp, f => Cpp.llwriteMessage extra f.cpp
  | java, f => f.java.writeMessage

/-- Reading a message, and its fields afterwards. -/
def receive : Language → Reader (Option Fields)
  | cpp => do return some (.ofCpp (← Cpp.readMessageKernel extra (-1) (-1)))
  | java => do return (← (Java.llReadMessage extra).run).map .ofJava

end Language

/-- Writing messages one after another. -/
def sendAll : List (Language × Fields) → Reader PUnit
  | [] => return ⟨⟩
  | (l, f) :: ws => do
      l.send extra f
      sendAll ws

/-- Reading messages one after another. -/
def receiveAll (l : Language) : ℕ → Reader (List (Option Fields))
  | 0 => return []
  | n + 1 => do
      let f ← l.receive extra
      return f :: (← receiveAll l n)

namespace Fields

variable {f : Fields}

/-! ### What is set is what the accessors show -/

theorem getD_of_pos (b : Bytes) : (if b.length > 0 then some b else none).getD [] = b := by
  split
  · rfl
  · rename_i h
    exact (List.eq_nil_of_length_eq_zero (by omega)).symm

theorem getDataLen_cpp (h : f.data.length < 2 ^ 31) : f.cpp.getDataLen.toInt = f.data.length := by
  rw [cpp, Cpp.Message.getDataLen, Cpp.Message.new,
    Cpp.Message.swapByteOrder_swapByteOrder (by decide), toInt_length h]

theorem ofCpp_cpp (h : f.data.length < 2 ^ 31) : ofCpp f.cpp = f := by
  have hdata : f.cpp.getStringData = f.data := by
    have hget : f.cpp.msgData.getD [] = f.data := getD_of_pos f.data
    rw [Cpp.Message.getStringData, getDataLen_cpp h, hget]
    split
    · exact List.take_length
    · exact (List.eq_nil_of_length_eq_zero (by omega)).symm
  rw [ofCpp, hdata]
  simp only [cpp, Cpp.Message.new, Cpp.Message.getSrcId, Cpp.Message.getDstId,
    Cpp.Message.getMsgId, Cpp.Message.getMsgType, Cpp.Message.getMsgValue]
  simp (disch := decide) only [Cpp.Message.swapByteOrder_swapByteOrder]

theorem ofJava_java : ofJava f.java = f := by
  have hget : f.java.getMsgData.getD [] = f.data := getD_of_pos f.data
  rw [ofJava, hget]
  rfl

theorem view_cpp (h : f.data.length < 2 ^ 31) : f.cpp.view = f.message.header := by
  have hview (m : Cpp.Message) : m.view = ⟨(ofCpp m).srcId.toInt, (ofCpp m).dstId.toInt,
      (ofCpp m).msgId.toInt, (ofCpp m).msgType.toInt, (ofCpp m).msgValue.toInt,
      m.getDataLen.toInt⟩ := by
    simp only [Cpp.Message.view, ofCpp]
  rw [hview, ofCpp_cpp h, getDataLen_cpp h]
  simp only [message, Message.header, Payload.ofBytes]

/-- The fields are determined by the header and the data as the accessors show them. -/
theorem ofCpp_eq {m : Cpp.Message} (hview : m.view = f.message.header)
    (hdata : m.getStringData = f.data) : ofCpp m = f := by
  simp only [Cpp.Message.view, Message.header, message, MessageHeader.mk.injEq,
    BitVec.toInt_inj] at hview
  obtain ⟨hsrc, hdst, hid, htype, hvalue, -⟩ := hview
  rw [ofCpp, hsrc, hdst, hid, htype, hvalue, hdata]

theorem view_java (h : f.data.length < 2 ^ 31) : f.java.header.view = f.message.header := by
  simp only [java, Java.MessageHeader.view, toInt_length h, message, Message.header,
    Payload.ofBytes]

theorem inRange_message (h : f.data.length < 2 ^ 31) : f.message.header.InRange := by
  rw [← view_cpp h]
  exact f.cpp.inRange_view

end Fields

/-! ### One message -/

/-- Either class writes the same bytes. -/
theorem Language.send_outcome (l : Language) {f : Fields} (h : f.data.length < 2 ^ 31) (p : Pipe) :
    Outcome (l.send extra f) p (fun _ q => q.rest = p.rest ++ f.message.toBytes)
      fun _ _ => False := by
  have hdata : (if f.data.length > 0 then some f.data else none).getD [] = f.data :=
    Fields.getD_of_pos f.data
  cases l with
  | cpp =>
      have hlen : f.cpp.getDataLen.toInt.toNat = (f.cpp.msgData.getD []).length := by
        rw [Fields.getDataLen_cpp h, Int.toNat_natCast]
        exact congrArg List.length hdata.symm
      have hwrite := Cpp.llwriteMessage_outcome extra f.cpp p hlen
      rw [Fields.view_cpp h] at hwrite
      refine hwrite.mono ?_ fun _ _ h => h
      intro _ q hq
      rw [hq]
      exact congrArg (fun d => p.rest ++ (f.message.header.toBytes ++ d)) hdata
  | java =>
      have hlen : f.java.header.dataLen.toInt.toNat = (f.java.msgData.getD []).length := by
        rw [Fields.java, toInt_length h, Int.toNat_natCast, hdata]
      have hwrite := Java.writeMessage_outcome f.java p hlen
      rw [Fields.view_java h] at hwrite
      refine hwrite.mono ?_ fun _ _ h => h
      intro _ q hq
      rw [hq]
      exact congrArg (fun d => p.rest ++ (f.message.header.toBytes ++ d)) hdata

/-- A reader that fills in nothing sees the message as it is. -/
theorem stampWith_neg (m : Message) : stampWith (-1) (-1) m = m := by
  rw [stampWith, if_neg (by decide), if_neg (by decide)]

theorem receive_cpp {f : Fields} (h : f.data.length < 2 ^ 31) (rest : Bytes) (t : ℕ) :
    Outcome (Language.cpp.receive extra) ⟨f.message.toBytes ++ rest, t⟩
      (fun r q => r = some f ∧ q.rest = rest) fun _ _ => False := by
  obtain ⟨hframe, hfirst, hrest⟩ := firstFrame_toBytes (Fields.inRange_message h) rest
  have hsrc : (-1 : BitVec 32).toInt = -1 := by decide
  have hid : (-1 : BitVec 64).toInt = -1 := by decide
  have hread : Outcome ((fun m => (m.view, m.getStringData)) <$>
      Cpp.readMessageKernel extra (-1) (-1)) ⟨f.message.toBytes ++ rest, t⟩
      (fun r q => r = (f.message.header, f.data) ∧ q.rest = rest) fun _ _ => False := by
    rw [Cpp.readMessageKernel_view, Outcome.map, hsrc, hid]
    refine (readMessageKernel_outcome extra _ _ _).mono ?_ ?_
    · rintro m q ⟨_, rfl, hq⟩
      rw [stampWith_neg, hfirst]
      exact ⟨rfl, hq.trans hrest⟩
    · intro _ _ hcut
      exact hcut.1 hframe
  rw [Outcome.map] at hread
  rw [Language.receive, Outcome.bind]
  refine hread.mono ?_ fun _ _ h => h
  rintro m q ⟨hm, hq⟩
  obtain ⟨hview, hdata⟩ := Prod.ext_iff.mp hm
  rw [Outcome.pure, Fields.ofCpp_eq hview hdata]
  exact ⟨rfl, hq⟩

theorem receive_java {f : Fields} (h : f.data.length < 2 ^ 31) (rest : Bytes) (t : ℕ) :
    Outcome (Language.java.receive extra) ⟨f.message.toBytes ++ rest, t⟩
      (fun r q => r = some f ∧ q.rest = rest) fun _ _ => False := by
  have hdata : f.java.msgData.getD [] = f.data := Fields.getD_of_pos f.data
  have hlen : f.java.header.dataLen.toInt = f.data.length := toInt_length h
  have hread := Java.llReadMessage_reads extra f.java (by rw [hlen, hdata, Int.toNat_natCast])
  have hsame : (if f.java.header.dataLen.toInt > 0 then some (f.java.msgData.getD []) else none) =
      f.java.msgData := by
    rw [hlen, hdata]
    simp only [gt_iff_lt, Int.natCast_pos]
    rfl
  rw [hsame, hdata, Fields.view_java h] at hread
  rw [Language.receive, Outcome.bind]
  refine (hread rest t).mono ?_ fun _ _ h => h
  rintro r q ⟨rfl, hq⟩
  rw [Outcome.pure]
  exact ⟨congrArg some Fields.ofJava_java, hq⟩

/-- Either class reads these bytes. -/
theorem Language.receive_outcome (l : Language) {f : Fields} (h : f.data.length < 2 ^ 31)
    (rest : Bytes) (t : ℕ) :
    Outcome (l.receive extra) ⟨f.message.toBytes ++ rest, t⟩
      (fun r q => r = some f ∧ q.rest = rest) fun _ _ => False :=
  match l with
  | cpp => receive_cpp extra h rest t
  | java => receive_java extra h rest t

/-! ### A stream of messages -/

theorem sendAll_outcome {ws : List (Language × Fields)}
    (hws : ∀ w ∈ ws, w.2.data.length < 2 ^ 31) (p : Pipe) :
    Outcome (sendAll extra ws) p
      (fun _ q => q.rest = p.rest ++ ws.flatMap fun w => w.2.message.toBytes)
      fun _ _ => False := by
  induction ws generalizing p with
  | nil => simp [sendAll]
  | cons w ws ih =>
      rw [sendAll, Outcome.bind]
      refine (w.1.send_outcome extra (hws w List.mem_cons_self) p).mono ?_ fun _ _ h => h
      intro _ q hq
      refine (ih (fun v hv => hws v (List.mem_cons_of_mem w hv)) q).mono ?_ fun _ _ h => h
      intro _ t ht
      rw [ht, hq, List.flatMap_cons, List.append_assoc]

theorem receiveAll_outcome (l : Language) {ws : List (Language × Fields)}
    (hws : ∀ w ∈ ws, w.2.data.length < 2 ^ 31) (p : Pipe)
    (hp : p.rest = ws.flatMap fun w => w.2.message.toBytes) :
    Outcome (receiveAll extra l ws.length) p
      (fun fs q => fs = ws.map (fun w => some w.2) ∧ q.rest = []) fun _ _ => False := by
  induction ws generalizing p with
  | nil => exact ⟨rfl, hp⟩
  | cons w ws ih =>
      obtain ⟨rest, t⟩ := p
      obtain rfl : rest = _ := hp
      rw [List.length_cons, receiveAll, Outcome.bind, List.flatMap_cons]
      refine (l.receive_outcome extra (hws w List.mem_cons_self) _ t).mono ?_ fun _ _ h => h
      rintro _ q ⟨rfl, hq⟩
      rw [Outcome.bind]
      refine (ih (fun v hv => hws v (List.mem_cons_of_mem w hv)) q hq).mono ?_ fun _ _ h => h
      rintro _ s ⟨rfl, hs⟩
      exact ⟨rfl, hs⟩

/-- The accessors of both classes show what was set last. -/
structure Accessors (f : Fields) : Prop where
  new : Fields.ofCpp f.cpp = f
  java : Fields.ofJava f.java = f
  setSrcId (m : Cpp.Message) : (m.setSrcId f.srcId).getSrcId = f.srcId
  setDstId (m : Cpp.Message) : (m.setDstId f.dstId).getDstId = f.dstId
  setMsgId (m : Cpp.Message) : (m.setMsgId f.msgId).getMsgId = f.msgId
  setMsgType (m : Cpp.Message) : (m.setMsgType f.msgType).getMsgType = f.msgType
  setMsgValue (m : Cpp.Message) : (m.setMsgValue f.msgValue).getMsgValue = f.msgValue
  setData (m : Cpp.Message) : (m.setData f.data).getStringData = f.data
  setMsgValueJava (m : Java.Message) : (m.setMsgValue f.msgValue).getMsgValue = f.msgValue
  setMsgData (m : Java.Message) : let n := m.setMsgData f.dstId f.msgType f.msgValue (some f.data)
    n.getDstId = f.dstId ∧ n.getMsgType = f.msgType ∧ n.getMsgValue = f.msgValue ∧
      n.getDataLen.toInt = f.data.length ∧ n.getMsgData = some f.data

theorem getStringData_setData {b : Bytes} (h : b.length < 2 ^ 31) (m : Cpp.Message) :
    (m.setData b).getStringData = b := by
  have hlen : (m.setData b).getDataLen.toInt = b.length := by
    rw [Cpp.Message.getDataLen, Cpp.Message.setData,
      Cpp.Message.swapByteOrder_swapByteOrder (by decide), toInt_length h]
  by_cases hpos : 0 < b.length
  · apply Cpp.getStringData_of_pos
    · rw [hlen]
      lia
    · simp [Cpp.Message.setData, toInt_length h, hpos]
    · rw [hlen, Int.toNat_natCast]
  · have hnil : b = [] := List.eq_nil_of_length_eq_zero (by omega)
    rw [Cpp.getStringData_of_not_pos, hnil]
    rw [hlen]
    lia

theorem accessors {f : Fields} (h : f.data.length < 2 ^ 31) : Accessors f where
  new := Fields.ofCpp_cpp h
  java := Fields.ofJava_java
  setSrcId m := m.getSrcId_setSrcId f.srcId
  setDstId m := m.getDstId_setDstId f.dstId
  setMsgId m := m.getMsgId_setMsgId f.msgId
  setMsgType m := m.getMsgType_setMsgType f.msgType
  setMsgValue m := m.getMsgValue_setMsgValue f.msgValue
  setData m := getStringData_setData h m
  setMsgValueJava _ := rfl
  setMsgData _ := ⟨rfl, rfl, rfl, toInt_length h, rfl⟩

/-- **One wire format.** Messages that are written by either class, one after another,
are read by either class with the fields that were set, whatever the single reads and
writes handle. -/
theorem receiveAll_sendAll (l : Language) (ws : List (Language × Fields))
    (hws : ∀ w ∈ ws, w.2.data.length < 2 ^ 31) :
    Outcome (do sendAll extra ws; receiveAll extra l ws.length) ⟨[], 0⟩
        (fun fs q => fs = ws.map (fun w => some w.2) ∧ q.rest = []) (fun _ _ => False) ∧
      ∀ w ∈ ws, Accessors w.2 := by
  constructor
  · rw [Outcome.bind]
    refine (sendAll_outcome extra hws ⟨[], 0⟩).mono ?_ fun _ _ h => h
    intro _ q hq
    exact receiveAll_outcome extra l hws q hq
  · intro w hw
    exact accessors (hws w hw)

/-- The extreme values, with data from C++ and without data from Java. -/
theorem receiveAll_sendAll_extremes :
    let ws : List (Language × Fields) :=
      [(.cpp, ⟨-1, BitVec.intMin 32, BitVec.intMin 64, BitVec.intMax 32, 0, [0, 255]⟩),
        (.java, ⟨0, 1024, -1, BitVec.intMin 32, BitVec.intMax 32, []⟩)]
    (∀ w ∈ ws, w.2.data.length < 2 ^ 31) ∧
      Outcome (do sendAll (fun _ => 0) ws; receiveAll (fun _ => 0) .java ws.length) ⟨[], 0⟩
        (fun fs q => fs = ws.map (fun w => some w.2) ∧ q.rest = []) (fun _ _ => False) ∧
      ∀ w ∈ ws, Accessors w.2 := by
  intro ws
  have hws : ∀ w ∈ ws, w.2.data.length < 2 ^ 31 := by simp [ws]
  exact ⟨hws, receiveAll_sendAll (fun _ => 0) .java ws hws⟩

end Wire

end OpBrowser
