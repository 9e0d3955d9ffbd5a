import OpBrowser.Verification.Wire.Codec

/-! # Reading a stream that was cut off

Whatever the sizes of the single reads are, `handleMessage` sees the complete frames
of a stream one by one. What it makes of the rest depends on where the cut is. -/

namespace OpBrowser.Wire

variable (extra : ℕ → ℕ)

/-! ### One read -/

/-- How the loop ends that fills up `buf` to `n` bytes: with the next bytes of the
stream, or at its end. -/
structure Filled (n : ℕ) (buf : Bytes) (p : Pipe) (r : ℕ × Bytes) (q : Pipe) : Prop where
  whole : n ≤ buf.length + p.rest.length →
    0 < r.1 ∧ r.2 = buf ++ p.rest.take (n - buf.length) ∧ q.rest = p.rest.drop (n - buf.length)
  short : buf.length + p.rest.length < n → r.1 = 0 ∧ q.rest = []

/-- One turn of the loop that does not reach its goal. -/
theorem Filled.step {n k t : ℕ} {buf : Bytes} {p q : Pipe} {r : ℕ × Bytes}
    (hk : k ≤ p.rest.length) (hlt : buf.length + k < n)
    (h : Filled n (buf ++ p.rest.take k) ⟨p.rest.drop k, t⟩ r q) : Filled n buf p r q := by
  have hlen : (buf ++ p.rest.take k).length = buf.length + k := by
    rw [List.length_append, List.length_take_of_le hk]
  have hrest : (p.rest.drop k).length = p.rest.length - k := List.length_drop
  have hsplit : n - buf.length = k + (n - (buf.length + k)) := by omega
  constructor
  · intro hle
    obtain ⟨hpos, hbuf, hq⟩ := h.whole (by rw [hlen, hrest]; omega)
    rw [hlen, List.append_assoc] at hbuf
    rw [hlen] at hq
    refine ⟨hpos, ?_, ?_⟩
    · rw [hbuf, hsplit, List.take_add]
    · rw [hq, hsplit, List.drop_drop]
  · intro hlt'
    exact h.short (by rw [hlen, hrest]; omega)

theorem readLoop_outcome (n : ℕ) (buf : Bytes) (p : Pipe) (hn : buf.length < n) :
    Outcome (readLoop extra n buf) p (Filled n buf p) fun _ _ => False := by
  induction hd : n - buf.length using Nat.strong_induction_on generalizing buf p with
  | _ d ih =>
      rw [readLoop, Outcome.bind, read, Outcome.bind, Outcome.get, Outcome.bind, Outcome.set,
        Outcome.pure]
      generalize hk : min (n - buf.length) (min p.rest.length (extra p.turn + 1)) = k
      have hle : k ≤ p.rest.length := by omega
      rw [List.length_append, List.length_take_of_le hle]
      split
      · rename_i hmore
        refine (ih _ ?_ _ _ ?_ rfl).mono (fun r q h => h.step hle hmore.2) fun _ _ h => h
        · rw [List.length_append, List.length_take_of_le hle]
          omega
        · rw [List.length_append, List.length_take_of_le hle]
          exact hmore.2
      · rename_i hstop
        rw [Outcome.pure]
        constructor
        · intro hall
          have hgoal : k = n - buf.length := by omega
          exact ⟨by dsimp only; omega, by rw [hgoal], by rw [hgoal]⟩
        · intro hshort
          have hzero : p.rest.length = 0 := by omega
          exact ⟨by dsimp only; omega, by rw [List.length_eq_zero_iff.mp hzero, List.drop_nil]⟩

/-- How `readBytes` ends. -/
structure Got (n : ℕ) (p : Pipe) (r : Option { b : Bytes // b.length = n }) (q : Pipe) :
    Prop where
  whole : n ≤ p.rest.length → r.map Subtype.val = some (p.rest.take n) ∧ q.rest = p.rest.drop n
  short : p.rest.length < n → r = none ∧ q.rest = []

/-- No assertion of `readWriteBytes` fails. -/
theorem readBytes_outcome (n : ℕ) (p : Pipe) (hn : 0 < n) :
    Outcome (readBytes extra n) p (Got n p) fun _ _ => False := by
  rw [readBytes, Outcome.bind]
  refine (readLoop_outcome extra n [] p hn).mono ?_ fun _ _ h => h
  rintro ⟨ret, buf⟩ q h
  dsimp only
  by_cases hle : n ≤ p.rest.length
  · obtain ⟨hpos, hbuf, hq⟩ := h.whole (by simpa using hle)
    have hbuf : buf = p.rest.take n := by simpa using hbuf
    have hlen : buf.length = n := by rw [hbuf, List.length_take_of_le hle]
    rw [if_pos hpos, dif_pos hlen, Outcome.pure]
    exact ⟨fun _ => ⟨congrArg some hbuf, by simpa using hq⟩,
      fun h => absurd h (by omega)⟩
  · obtain ⟨hzero, hq⟩ := h.short (by simpa using hle)
    have hret : ¬ 0 < ret := by
      dsimp only at hzero
      omega
    rw [if_neg hret, Outcome.pure]
    exact ⟨fun h => absurd h hle, fun _ => ⟨rfl, hq⟩⟩

/-! ### One frame -/

/-- The two fields that the kernel fills in itself, unless it gives a negative value. -/
def stampWith (srcId : I32) (msgId : I64) (m : Message) : Message :=
  { m with
    srcId := if srcId ≥ 0 then srcId else m.srcId
    msgId := if msgId ≥ 0 then msgId else m.msgId }

/-- What `readMessageKernel` makes of a stream that does not start with a whole frame. -/
def cutFault (s : Bytes) : ReadFault :=
  if s.length < headerSize then .procExited else .assertionFailed

theorem firstFrame_eq {s : Bytes} (data : Bytes) (h : frameLength s ≤ s.length)
    (size : data.length = (MessageHeader.ofBytes (s.take headerSize)).dataLen.toNat)
    (hdata : data = (s.drop headerSize).take (frameLength s - headerSize)) :
    Message.ofParts (.ofBytes (s.take headerSize)) data size = firstFrame s h := by
  subst hdata
  rfl

theorem readMessageKernel_outcome (srcId : I32) (msgId : I64) (p : Pipe) :
    Outcome (readMessageKernel extra srcId msgId) p
      (fun m q => ∃ h : HasFrame p.rest, m = stampWith srcId msgId (firstFrame p.rest h.2) ∧
        q.rest = p.rest.drop (frameLength p.rest))
      fun e q => ¬ HasFrame p.rest ∧ e = cutFault p.rest ∧ q.rest = [] := by
  rw [readMessageKernel, Outcome.bind]
  refine (readBytes_outcome extra headerSize p (by decide)).mono ?_ fun _ _ h => h.elim
  intro r q hr
  by_cases hhead : headerSize ≤ p.rest.length
  swap
  · obtain ⟨rfl, hq⟩ := hr.short (by omega)
    exact ⟨fun h => hhead h.1, by rw [cutFault, if_pos (by omega)], hq⟩
  obtain ⟨hsome, hq⟩ := hr.whole hhead
  obtain ⟨⟨bytes, hlen⟩, rfl, hbytes⟩ := Option.map_eq_some_iff.mp hsome
  obtain rfl : bytes = p.rest.take headerSize := hbytes
  dsimp only
  have hfault : cutFault p.rest = .assertionFailed := by rw [cutFault, if_neg (by omega)]
  have hrest : q.rest.length = p.rest.length - headerSize := by rw [hq, List.length_drop]
  have hflen : frameLength p.rest =
    headerSize + (MessageHeader.ofBytes (p.rest.take headerSize)).dataLen.toNat := rfl
  split
  · rename_i hpos
    rw [Outcome.bind]
    refine (readBytes_outcome extra _ q (by lia)).mono ?_ fun _ _ h => h.elim
    intro d t hd
    by_cases hdata : (MessageHeader.ofBytes (p.rest.take headerSize)).dataLen.toNat ≤ q.rest.length
    · obtain ⟨hsome, ht⟩ := hd.whole hdata
      obtain ⟨⟨data, hsize⟩, rfl, hval⟩ := Option.map_eq_some_iff.mp hsome
      have hframe : HasFrame p.rest := ⟨hhead, by omega⟩
      refine ⟨hframe, ?_, ?_⟩
      · rw [← firstFrame_eq data hframe.2 hsize]
        · rfl
        · rw [show data = _ from hval, hq, hflen, Nat.add_sub_cancel_left]
      · rw [ht, hq, List.drop_drop, hflen]
    · obtain ⟨rfl, ht⟩ := hd.short (not_le.mp hdata)
      exact ⟨fun h => hdata (by have := h.2; omega), hfault.symm, ht⟩
  · rename_i hneg
    have hzero : (MessageHeader.ofBytes (p.rest.take headerSize)).dataLen.toNat = 0 := by lia
    have hframe : HasFrame p.rest := ⟨hhead, by omega⟩
    refine ⟨hframe, ?_, ?_⟩
    · rw [← firstFrame_eq [] hframe.2 hzero.symm]
      · rfl
      · rw [hflen, hzero, Nat.add_zero, Nat.sub_self, List.take_zero]
    · rw [hq, hflen, hzero, Nat.add_zero]

/-! ### Successive calls -/

theorem frames_of_hasFrame {s : Bytes} (h : HasFrame s) :
    frames s = (firstFrame s h.2 :: (frames (s.drop (frameLength s))).1,
      (frames (s.drop (frameLength s))).2) := by
  rw [frames, dif_pos h]

theorem frames_of_not {s : Bytes} (h : ¬ HasFrame s) : frames s = ([], s) := by
  rw [frames, dif_neg h]

variable (objectId : I32) (msgId : I64) {p : Pipe}

theorem receive_nil (h : p.rest = []) : receive extra objectId msgId p = (.blank, p) := by
  rw [receive, if_neg (not_not.mpr h)]

theorem receive_frame (h : HasFrame p.rest) : ∃ q, q.rest = p.rest.drop (frameLength p.rest) ∧
    receive extra objectId msgId p =
      (.message (stampWith objectId msgId (firstFrame p.rest h.2)), q) := by
  have hne : p.rest ≠ [] := by
    intro hnil
    have hle := h.1
    rw [hnil] at hle
    exact absurd hle (by decide)
  have hread := readMessageKernel_outcome extra objectId msgId p
  unfold Outcome at hread
  rw [receive, if_pos hne]
  cases hx : readMessageKernel extra objectId msgId p with
  | ok m q =>
      rw [hx] at hread
      obtain ⟨-, rfl, hq⟩ := hread
      exact ⟨q, hq, rfl⟩
  | error e q =>
      rw [hx] at hread
      exact absurd h hread.1

/-- How a call on an incomplete frame ends. -/
theorem receive_cut (hweb : webappFirstId ≤ objectId) (hne : p.rest ≠ []) (h : ¬ HasFrame p.rest) :
    ∃ q, q.rest = [] ∧ receive extra objectId msgId p =
      (if p.rest.length < headerSize then .procExited else .assertionFailed, q) := by
  have hread := readMessageKernel_outcome extra objectId msgId p
  unfold Outcome at hread
  rw [receive, if_pos hne]
  cases hx : readMessageKernel extra objectId msgId p with
  | ok m q =>
      rw [hx] at hread
      exact absurd hread.1 h
  | error e q =>
      rw [hx] at hread
      obtain ⟨-, rfl, hq⟩ := hread
      refine ⟨q, hq, ?_⟩
      by_cases hshort : p.rest.length < headerSize
      · rw [cutFault, if_pos hshort, if_pos hshort]
        dsimp only
        rw [if_neg (not_lt.mpr hweb)]
      · rw [cutFault, if_neg hshort, if_neg hshort]

/-- What successive calls should make of these frames and of this rest. -/
def expected (objectId : I32) : List I64 → List Message → Bytes → List Handled
  | [], _, _ => []
  | id :: ids, m :: ms, tail => .message (stampWith objectId id m) :: expected objectId ids ms tail
  | _ :: ids, [], tail =>
      (if tail = [] then .blank else .procExited) :: expected objectId ids [] []

theorem assertionFailed_not_expected (ids : List I64) (ms : List Message) (tail : Bytes) :
    Handled.assertionFailed ∉ expected objectId ids ms tail := by
  induction ids generalizing ms tail with
  | nil => simp [expected]
  | cons id ids ih =>
      cases ms with
      | cons m ms => simp [expected, ih]
      | nil => by_cases h : tail = [] <;> simp [expected, ih, h]

theorem calls_of_short (hweb : webappFirstId ≤ objectId) (ids : List I64)
    (h : (frames p.rest).2.length < headerSize) : calls extra objectId ids p =
      expected objectId ids (frames p.rest).1 (frames p.rest).2 := by
  induction ids generalizing p with
  | nil => rfl
  | cons id ids ih =>
      by_cases hf : HasFrame p.rest
      · obtain ⟨q, hq, hr⟩ := receive_frame extra objectId id hf
        rw [frames_of_hasFrame hf, ← hq] at h ⊢
        rw [calls, hr, expected, ← ih h]
        simp
      · rw [frames_of_not hf] at h ⊢
        have hnil : frames [] = ([], []) := frames_of_not fun h => absurd h.1 (by decide)
        by_cases hne : p.rest = []
        · have hrest := ih (p := p) (by rw [hne, hnil]; decide)
          rw [hne, hnil] at hrest
          rw [calls, receive_nil extra objectId id hne, hne, expected, if_pos rfl, ← hrest]
          simp
        · obtain ⟨q, hq, hr⟩ := receive_cut extra objectId id hweb hne hf
          have hrest := ih (p := q) (by rw [hq, hnil]; decide)
          rw [hq, hnil] at hrest
          rw [calls, hr, if_pos h, expected, if_neg hne, ← hrest]
          simp

theorem calls_of_long (hweb : webappFirstId ≤ objectId) (s : Bytes) (hs : p.rest = s)
    (h : headerSize ≤ (frames s).2.length) :
    ∃ ids, Handled.assertionFailed ∈ calls extra objectId ids p := by
  induction s using frames.induct generalizing p with
  | case1 s hf ih =>
      subst hs
      rw [frames_of_hasFrame hf] at h
      obtain ⟨q, hq, hr⟩ := receive_frame extra objectId 0 hf
      obtain ⟨ids, hids⟩ := ih hq h
      exact ⟨0 :: ids, by simp [calls, hr, hids]⟩
  | case2 s hf =>
      subst hs
      rw [frames_of_not hf] at h
      have hne : p.rest ≠ [] := by
        intro hnil
        rw [hnil] at h
        exact absurd h (by decide)
      obtain ⟨q, -, hr⟩ := receive_cut extra objectId 0 hweb hne hf
      exact ⟨[0], by simp [calls, hr, not_lt.mpr h]⟩

/-- **Cut streams.** The calls on the pipe of a web app that has exited see its complete
frames and then its end, and no assertion fails, exactly when the stream was not cut
inside a payload. -/
theorem calls_eq_expected_iff (hweb : webappFirstId ≤ objectId) (stream : Bytes) :
    (∀ ids, calls extra objectId ids ⟨stream, 0⟩ =
      expected objectId ids (frames stream).1 (frames stream).2) ↔
      (frames stream).2.length < headerSize := by
  constructor
  · intro hall
    by_contra hlong
    obtain ⟨ids, hids⟩ := calls_of_long extra objectId (p := ⟨stream, 0⟩) hweb stream rfl
        (not_lt.mp hlong)
    rw [hall ids] at hids
    exact assertionFailed_not_expected objectId ids _ _ hids
  · exact fun hshort ids => calls_of_short extra objectId hweb ids hshort

/-- A whole frame and two bytes of the next one. -/
theorem calls_cut_header :
    let stream : Bytes := List.replicate 30 0
    (frames stream).2.length < headerSize ∧
      ∀ ids, calls (fun _ => 0) 1024 ids ⟨stream, 0⟩ =
        expected 1024 ids (frames stream).1 (frames stream).2 := by
  intro stream
  have hshort : (frames stream).2.length < headerSize := by
    rw [frames_of_hasFrame (by decide), frames_of_not (by decide)]
    decide
  exact ⟨hshort, (calls_eq_expected_iff (fun _ => 0) 1024 (by decide) stream).mpr hshort⟩

/-- A header that announces one byte, and nothing after it. -/
theorem cut_payload_fails :
    let stream : Bytes := List.replicate 27 0 ++ [1]
    ¬ ∀ ids, calls (fun _ => 0) 1024 ids ⟨stream, 0⟩ =
      expected 1024 ids (frames stream).1 (frames stream).2 := by
  intro stream hall
  have hlong : headerSize ≤ (frames stream).2.length := by
    rw [frames_of_not (by decide)]
    decide
  obtain ⟨ids, hids⟩ :=
    calls_of_long (fun _ => 0) 1024 (p := ⟨stream, 0⟩) (by decide) stream rfl hlong
  rw [hall ids] at hids
  exact assertionFailed_not_expected 1024 ids _ _ hids

end OpBrowser.Wire
