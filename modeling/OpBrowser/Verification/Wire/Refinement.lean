import OpBrowser.Verification.Kernel.Loop
import OpBrowser.Verification.Wire.Stream

/-! # From bytes to frames

A pipe that holds whole frames is what the model of the kernel takes it for: the list
of the messages that were written. -/

namespace OpBrowser.Wire

open Kernel

/-- What writing these messages leaves in a pipe. -/
def flatten (ms : List Message) : Bytes := ms.flatMap Message.toBytes

theorem eq_of_parts {m n : Message} (hh : m.header = n.header)
    (hd : m.payload.data = n.payload.data) : m = n := by
  obtain ⟨ms, md, mi, mt, mv, ⟨ml, mb, _⟩⟩ := m
  obtain ⟨ns, nd, ni, nt, nv, ⟨nl, nb, _⟩⟩ := n
  simp only [Message.header, MessageHeader.mk.injEq] at hh hd
  obtain ⟨rfl, rfl, rfl, rfl, rfl, rfl⟩ := hh
  obtain rfl := hd
  rfl

theorem firstFrame_header (s : Bytes) (h : frameLength s ≤ s.length) :
    (firstFrame s h).header = .ofBytes (s.take headerSize) := by
  rw [firstFrame, Message.header_ofParts]

theorem firstFrame_data (s : Bytes) (h : frameLength s ≤ s.length) :
    (firstFrame s h).payload.data = (s.drop headerSize).take (frameLength s - headerSize) := by
  rw [firstFrame, Message.ofParts]

/-- A message that was written is the first one to be read. -/
theorem firstFrame_toBytes {m : Message} (hm : m.header.InRange) (rest : Bytes) :
    ∃ h : HasFrame (m.toBytes ++ rest), firstFrame (m.toBytes ++ rest) h.2 = m ∧
      (m.toBytes ++ rest).drop (frameLength (m.toBytes ++ rest)) = rest := by
  have hlen := m.header.length_toBytes
  have hsize := m.payload.size
  have htake : (m.toBytes ++ rest).take headerSize = m.header.toBytes := by
    rw [Message.toBytes, List.append_assoc, ← hlen, List.take_left]
  have hdrop : (m.toBytes ++ rest).drop headerSize = m.payload.data ++ rest := by
    rw [Message.toBytes, List.append_assoc, ← hlen, List.drop_left]
  have hheader : MessageHeader.ofBytes ((m.toBytes ++ rest).take headerSize) = m.header := by
    rw [htake, MessageHeader.ofBytes_toBytes hm]
  have hflen : frameLength (m.toBytes ++ rest) = headerSize + m.payload.data.length := by
    rw [frameLength, hheader, hsize]
    rfl
  have htotal : m.toBytes.length = headerSize + m.payload.data.length := by
    rw [Message.toBytes, List.length_append, hlen]
  have hframe : HasFrame (m.toBytes ++ rest) := by
    rw [HasFrame, hflen, List.length_append, htotal]
    omega
  refine ⟨hframe, eq_of_parts ?_ ?_, by rw [hflen, ← htotal, List.drop_left]⟩
  · rw [firstFrame_header, hheader]
  · rw [firstFrame_data, hdrop, hflen, Nat.add_sub_cancel_left, List.take_left]

/-- Writing and splitting into frames are inverse to one another. -/
theorem frames_flatten {ms : List Message} (hms : ∀ m ∈ ms, m.header.InRange) (tail : Bytes)
    (ht : ¬ HasFrame tail) : frames (flatten ms ++ tail) = (ms, tail) := by
  induction ms with
  | nil => exact frames_of_not ht
  | cons m ms ih =>
      obtain ⟨h, hfirst, hrest⟩ :=
        firstFrame_toBytes (hms m List.mem_cons_self) (flatten ms ++ tail)
      have hsplit : flatten (m :: ms) ++ tail = m.toBytes ++ (flatten ms ++ tail) := by
        rw [flatten, List.flatMap_cons, List.append_assoc]
        rfl
      rw [hsplit, frames_of_hasFrame h, hfirst, hrest,
        ih fun n hn => hms n (List.mem_cons_of_mem m hn)]

/-- **Refinement.** One call on the bytes of a pipe reads the message that the frame
level model reads, and leaves the bytes of the messages that it leaves. -/
theorem receive_refines (extra : ℕ → ℕ) (s : KState) (p : Process) (hid : 0 ≤ p.objectId)
    (hms : ∀ m ∈ s.unread p.pid, m.header.InRange) (t : ℕ) :
    ∃ q, receive extra p.objectId s.msgId ⟨flatten (s.unread p.pid), t⟩ =
        (if s.unread p.pid = [] then .blank else .message (s.received p).1, q) ∧
      q.rest = flatten ((s.received p).2.unread p.pid) := by
  rw [KState.received]
  cases hu : s.unread p.pid with
  | nil => exact ⟨_, receive_nil extra p.objectId s.msgId rfl, by simp [hu, flatten]⟩
  | cons m ms =>
      obtain ⟨h, hfirst, hrest⟩ := firstFrame_toBytes (hms m (hu ▸ List.mem_cons_self)) (flatten ms)
      have hsplit : flatten (m :: ms) = m.toBytes ++ flatten ms := by
        rw [flatten, List.flatMap_cons]
        rfl
      rw [hsplit]
      obtain ⟨q, hq, hr⟩ := receive_frame extra p.objectId s.msgId
        (p := ⟨m.toBytes ++ flatten ms, t⟩) h
      have hleft : (s.bumpMsgId.setUnread p.pid ms).unread p.pid = ms := by
        simp [KState.setUnread]
      refine ⟨q, ?_, by rw [hleft]; exact hq.trans hrest⟩
      have hstamp : stampWith p.objectId s.msgId m = stamp s p m := by
        rw [stampWith, stamp, if_pos hid]
      rw [hr, hfirst, hstamp, if_neg (List.cons_ne_nil m ms)]

end OpBrowser.Wire
