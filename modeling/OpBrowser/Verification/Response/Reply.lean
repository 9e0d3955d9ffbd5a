import OpBrowser.Model.Response

/-! # The buffer of a reply is a queue of bytes

`feed` writes at one cursor and `readData` reads at another one in the same buffer. What
lies between them is a queue: `feed` appends to it and `readData` takes from its front. -/

namespace OpBrowser.Response.OpNetworkReply

/-- What every call keeps of the two cursors. -/
structure Cursors (r : OpNetworkReply) : Prop where
  written : r.writeIdx = r.readBuffer.data.length
  read : r.readIdx ≤ r.readBuffer.data.length

/-- The bytes that were fed and not read. -/
def unread (r : OpNetworkReply) : Bytes := r.readBuffer.data.drop r.readIdx

variable {r : OpNetworkReply}

theorem cursors_start : Cursors {} := ⟨rfl, Nat.le_refl 0⟩

/-- Only the state of the reply changes. -/
theorem Cursors.setState (h : Cursors r) (state : ReplyState) : Cursors { r with state } :=
  ⟨h.written, h.read⟩

/-- What the write of a `feed` makes of the buffer. -/
theorem feed_data (h : Cursors r) (data : Bytes) :
    (r.feed data).readBuffer.data = r.readBuffer.data ++ data := by
  cases data with
  | nil => simp [feed]
  | cons c data => simp [feed, QBuffer.seek, QBuffer.write, h.written]

@[simp] theorem feed_readIdx (data : Bytes) : (r.feed data).readIdx = r.readIdx := by
  unfold feed
  split <;> rfl

theorem Cursors.feed (h : Cursors r) (data : Bytes) : Cursors (r.feed data) where
  written := by
    rw [feed_data h]
    cases data with
    | nil => simp [OpNetworkReply.feed, h.written]
    | cons c data => simp [OpNetworkReply.feed, QBuffer.seek, QBuffer.write, h.written]
  read := by
    rw [feed_data h, feed_readIdx, List.length_append]
    exact h.read.trans (Nat.le_add_right _ _)

theorem feed_unread (h : Cursors r) (data : Bytes) : (r.feed data).unread = r.unread ++ data := by
  rw [unread, feed_data h, feed_readIdx, List.drop_append_of_le_length h.read, unread]

theorem feed_state (data : Bytes) (h : r.state ≠ .aborted) : (r.feed data).state ≠ .aborted := by
  unfold feed
  split
  · exact nofun
  · exact h

theorem bytesAvailable_seek : (r.readBuffer.seek r.readIdx).bytesAvailable = r.unread.length := by
  simp [QBuffer.seek, QBuffer.bytesAvailable, unread]

/-- The reply after `maxSize` bytes, or all there are, were read. -/
def advance (r : OpNetworkReply) (maxSize : ℕ) : OpNetworkReply :=
  { r with
    readBuffer := r.readBuffer.seek (r.readIdx + (r.unread.take maxSize).length)
    readIdx := r.readIdx + (r.unread.take maxSize).length }

/-- The three ways through `readData` are one: take at most `maxSize` bytes. Only after an
abort it returns -1. -/
theorem readData_eq (maxSize : ℕ) :
    r.readData maxSize =
      (if r.unread = [] ∧ r.state = .aborted then none else some (r.unread.take maxSize),
        r.advance maxSize) := by
  have hread (n : ℕ) : (r.readBuffer.seek r.readIdx).read n =
      (r.unread.take n, r.readBuffer.seek (r.readIdx + (r.unread.take n).length)) := rfl
  unfold readData
  simp only [bytesAvailable_seek, List.length_eq_zero_iff, hread]
  split
  next hempty => simp [hempty, advance]
  next hne =>
    split
    next hone => simp [hne, hone, advance, QBuffer.seek]
    next => simp [hne, advance, QBuffer.seek, ← List.take_eq_take_min]

theorem readData_bytes (maxSize : ℕ) : (r.readData maxSize).1.getD [] = r.unread.take maxSize := by
  rw [readData_eq]
  split
  next hnone => simp [hnone.1]
  next => rfl

@[simp] theorem advance_state (maxSize : ℕ) : (r.advance maxSize).state = r.state := rfl

theorem advance_unread (maxSize : ℕ) : (r.advance maxSize).unread = r.unread.drop maxSize := by
  rw [unread, advance, ← List.drop_drop]
  change r.unread.drop (r.unread.take maxSize).length = _
  rw [List.length_take, ← List.drop_eq_drop_min]

theorem Cursors.advance (h : Cursors r) (maxSize : ℕ) : Cursors (r.advance maxSize) := by
  refine ⟨h.written, ?_⟩
  have hread := h.read
  simp only [OpNetworkReply.advance, QBuffer.seek, unread, List.length_take, List.length_drop]
  omega

end OpBrowser.Response.OpNetworkReply
