import OpBrowser.Model.Wire

/-! # Headers and frames as bytes

Writing and reading a header are inverse to one another, and a stream splits into
its complete frames and a rest. -/

namespace OpBrowser

/-- Every field of the header fits into its bytes. -/
structure MessageHeader.InRange (h : MessageHeader) : Prop where
  srcId : BigEndian.Fits 4 h.srcId
  dstId : BigEndian.Fits 4 h.dstId
  msgId : BigEndian.Fits 8 h.msgId
  msgType : BigEndian.Fits 4 h.msgType
  msgValue : BigEndian.Fits 4 h.msgValue
  dataLen : BigEndian.Fits 4 h.dataLen

namespace MessageHeader

@[simp] theorem length_toBytes (h : MessageHeader) : h.toBytes.length = headerSize := by
  simp [toBytes, headerSize]

theorem ofBytes_toBytes {h : MessageHeader} (hh : h.InRange) : ofBytes h.toBytes = h := by
  simp [ofBytes, toBytes, List.drop_append, List.drop_eq_nil_of_le,
    List.take_of_length_le, BigEndian.decode_encode hh.srcId,
    BigEndian.decode_encode hh.dstId, BigEndian.decode_encode hh.msgId,
    BigEndian.decode_encode hh.msgType, BigEndian.decode_encode hh.msgValue,
    BigEndian.decode_encode hh.dataLen]

/-- A field is written back as it was read. -/
theorem encode_field {b : Bytes} {i n : ℕ} (h : i + n ≤ b.length) :
    BigEndian.encode n (BigEndian.decode ((b.drop i).take n)) = (b.drop i).take n := by
  have hlen : ((b.drop i).take n).length = n := by
    rw [List.length_take, List.length_drop]
    omega
  have hfield := BigEndian.encode_decode ((b.drop i).take n)
  rwa [hlen] at hfield

theorem fits_field {b : Bytes} {i n : ℕ} (h : i + n ≤ b.length) :
    BigEndian.Fits n (BigEndian.decode ((b.drop i).take n)) := by
  have hlen : ((b.drop i).take n).length = n := by
    rw [List.length_take, List.length_drop]
    omega
  have hfits := BigEndian.fits_decode ((b.drop i).take n)
  rwa [hlen] at hfits

theorem toBytes_ofBytes {b : Bytes} (hb : b.length = headerSize) : (ofBytes b).toBytes = b := by
  have hfield : ∀ i n, i + n ≤ 28 →
      BigEndian.encode n (BigEndian.decode ((b.drop i).take n)) = (b.drop i).take n :=
    fun i n h => encode_field (hb ▸ h)
  have hfirst := hfield 0 4 (by decide)
  rw [List.drop_zero] at hfirst
  rw [toBytes, ofBytes, hfirst, hfield 4 4 (by decide), hfield 8 8 (by decide),
    hfield 16 4 (by decide), hfield 20 4 (by decide), hfield 24 4 (by decide)]
  simp only [← List.take_add]
  exact List.take_of_length_le hb.le

theorem inRange_ofBytes {b : Bytes} (hb : b.length = headerSize) : (ofBytes b).InRange := by
  have hfits : ∀ i n, i + n ≤ 28 → BigEndian.Fits n (BigEndian.decode ((b.drop i).take n)) :=
    fun i n h => fits_field (hb ▸ h)
  have hfirst := hfits 0 4 (by decide)
  rw [List.drop_zero] at hfirst
  exact ⟨hfirst, hfits 4 4 (by decide), hfits 8 8 (by decide), hfits 16 4 (by decide),
    hfits 20 4 (by decide), hfits 24 4 (by decide)⟩

end MessageHeader

/-! ### Frames -/

namespace Message

theorem header_ofParts (h : MessageHeader) (data : Bytes) (size : data.length = h.dataLen.toNat) :
    (ofParts h data size).header = h := rfl

theorem data_ofParts (h : MessageHeader) (data : Bytes) (size : data.length = h.dataLen.toNat) :
    (ofParts h data size).payload.data = data := rfl

theorem toBytes_ofParts (h : MessageHeader) (data : Bytes) (size : data.length = h.dataLen.toNat) :
    (ofParts h data size).toBytes = h.toBytes ++ data := rfl

end Message

namespace Wire

/-- How long the frame is that starts with these bytes. -/
def frameLength (s : Bytes) : ℕ :=
    headerSize + (MessageHeader.ofBytes (s.take headerSize)).dataLen.toNat

/-- The stream starts with a whole frame. -/
def HasFrame (s : Bytes) : Prop := headerSize ≤ s.length ∧ frameLength s ≤ s.length

instance (s : Bytes) : Decidable (HasFrame s) := inferInstanceAs (Decidable (_ ∧ _))

/-- The message in the frame that starts with these bytes, if all of it is there. -/
def firstFrame (s : Bytes) (h : frameLength s ≤ s.length) : Message :=
  .ofParts (.ofBytes (s.take headerSize))
    ((s.drop headerSize).take (frameLength s - headerSize)) <| by
    rw [List.length_take, List.length_drop]
    unfold frameLength at *
    omega

/-- The complete frames of a stream, and the rest. -/
def frames (s : Bytes) : List Message × Bytes :=
  if h : HasFrame s then
    (firstFrame s h.2 :: (frames (s.drop (frameLength s))).1, (frames (s.drop (frameLength s))).2)
  else ([], s)
termination_by s.length
decreasing_by
  all_goals
    rw [List.length_drop]
    unfold HasFrame frameLength headerSize at *
    omega

theorem toBytes_firstFrame (s : Bytes) (hs : headerSize ≤ s.length) (h : frameLength s ≤ s.length) :
    (firstFrame s h).toBytes = s.take (frameLength s) := by
  have hle : headerSize ≤ frameLength s := Nat.le_add_right ..
  rw [firstFrame, Message.toBytes_ofParts,
    MessageHeader.toBytes_ofBytes (List.length_take_of_le hs), ← List.take_add,
    Nat.add_sub_cancel' hle]

/-- **Framing.** A stream is its complete frames and the rest. -/
theorem frames_spec (s : Bytes) : (frames s).1.flatMap Message.toBytes ++ (frames s).2 = s := by
  induction s using frames.induct with
  | case1 s h ih =>
      rw [frames, dif_pos h, List.flatMap_cons, toBytes_firstFrame s h.1 h.2, List.append_assoc, ih,
        List.take_append_drop]
  | case2 s h => rw [frames, dif_neg h, List.flatMap_nil, List.nil_append]

end Wire

end OpBrowser
