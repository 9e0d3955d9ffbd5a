import OpBrowser.Library.Run
import OpBrowser.Model.AIOHelper
import OpBrowser.Verification.Wire.Refinement

/-! # The order of the bytes in a pipe

What arrived, what is queued and what the call in progress has left are together what
the calls so far were to write. -/

namespace OpBrowser.Aio

namespace State

variable (acc : AccessControl) (s : State) (fd : ℕ)

/-- The messages that the calls on this descriptor were allowed to write. -/
def allowed : List Message := (s.calls.filter fun c => c.1 = fd && acc.checkWrite c.2).map Prod.snd

/-- The requests on this descriptor that are in progress. -/
def pending : List Aiocb := s.cbs.filter fun cb => cb.fildes = fd && cb.inProgress

/-- Nothing is on its way to the pipe any more. -/
def Settled : Prop := s.pending fd = [] ∧ ∀ c, s.call = some c → c.fd ≠ fd

/-- The pipe holds a part of what it should get, and all of it in the end. -/
structure InOrder : Prop where
  isPrefix : s.arrived fd <+: Wire.flatten (s.allowed acc fd)
  whole : s.Settled fd → s.arrived fd = Wire.flatten (s.allowed acc fd)

end State

/-- No step of this kind: a synchronous write past a request that is in progress. -/
def Calm (s : State) : Action → Prop
  | .writeSync n => ∀ c, s.call = some c → 0 < n ∧ n ≤ c.left.length → s.pending c.fd = []
  | _ => True

/-- What a call has still to write. -/
def Call.rest (c : Call) : Bytes :=
  match c.part with
  | .header => c.left ++ c.msg.payload.data
  | .payload => c.left

/-- The part of it that goes to this descriptor. -/
def rest (call : Option Call) (fd : ℕ) : Bytes :=
  (call.filter fun c => c.fd = fd).elim [] Call.rest

def queued (cbs : List Aiocb) (fd : ℕ) : Bytes :=
  (cbs.filter fun cb => cb.fildes = fd && cb.inProgress).flatMap Aiocb.buf

variable (acc : AccessControl)

/-- Nothing is lost, duplicated or out of order. -/
def Inv (s : State) : Prop :=
  ∀ fd, s.arrived fd ++ (queued s.cbs fd ++ rest s.call fd) = Wire.flatten (s.allowed acc fd)

variable {acc} {s : State} {fd : ℕ}

theorem Inv.inOrder (h : Inv acc s) (fd : ℕ) : s.InOrder acc fd := by
  constructor
  · exact ⟨_, h fd⟩
  · rintro ⟨hpending, hcall⟩
    have hq : queued s.cbs fd = [] := by
      have hnil : (s.cbs.filter fun cb => cb.fildes = fd && cb.inProgress) = [] := hpending
      rw [queued, hnil, List.flatMap_nil]
    have hrest : rest s.call fd = [] := by
      cases hc : s.call with
      | none => rfl
      | some c => simp [rest, Option.filter, hcall c hc]
    have hall := h fd
    rwa [hq, hrest, List.append_nil, List.append_nil] at hall

/-! ### One round -/

theorem rest_some (c : Call) : rest (some c) c.fd = c.rest := by
  simp [rest, Option.filter]

theorem Call.left_add (c : Call) (n : ℕ) :
    Call.left { c with bytesHandled := c.bytesHandled + n } = c.left.drop n := by
  rw [Call.left, Call.left, List.drop_drop]
  rfl

/-- A round takes its bytes off what the call has to write. -/
theorem Call.rest_next (c : Call) (n : ℕ) :
    c.left.take n ++ Aio.rest (c.next n) c.fd = c.rest := by
  have hlen : c.left.length = c.buffer.length - c.bytesHandled := List.length_drop
  rw [Call.next]
  split
  · have hleft := c.left_add n
    rw [show c.fd = Call.fd { c with bytesHandled := c.bytesHandled + n } from rfl, rest_some]
    unfold Call.rest
    dsimp only
    rw [hleft]
    cases c.part with
    | header => rw [← List.append_assoc, List.take_append_drop]
    | payload => rw [List.take_append_drop]
  · have hall : c.left.take n = c.left := List.take_of_length_le (by omega)
    have hdata : ¬ c.msg.payload.dataLen > 0 → c.msg.payload.data = [] := by
      intro hneg
      have hsize := c.msg.payload.size
      rw [← List.length_eq_zero_iff]
      lia
    rw [hall]
    cases hp : c.part with
    | header =>
        dsimp only
        split
        · simp [Aio.rest, Option.filter, Call.rest, Call.left, Call.buffer, hp]
        · simp [Aio.rest, Option.filter, Call.rest, hp, hdata ‹_›]
    | payload => simp [Aio.rest, Option.filter, Call.rest, hp]

theorem Call.next_fd {c d : Call} {n : ℕ} (h : c.next n = some d) : d.fd = c.fd := by
  rw [Call.next] at h
  split at h
  · cases h
    rfl
  · split at h
    · split at h
      · cases h
        rfl
      · cases h
    · cases h

/-- Only the descriptor of the call is concerned. -/
theorem rest_next_of_ne {c : Call} {n : ℕ} (h : c.fd ≠ fd) :
    rest (c.next n) fd = rest (some c) fd := by
  cases hd : c.next n with
  | none => simp [rest, Option.filter, h]
  | some d =>
      have hfd := Call.next_fd hd
      simp [rest, Option.filter, h, hfd]

/-! ### Completions -/

theorem queued_cons (cb : Aiocb) (cbs : List Aiocb) (fd : ℕ) :
    queued (cb :: cbs) fd =
      (if cb.fildes = fd ∧ cb.inProgress = true then cb.buf else []) ++ queued cbs fd := by
  by_cases h : cb.fildes = fd ∧ cb.inProgress = true
  · simp [queued, h]
  · have hb : (decide (cb.fildes = fd) && cb.inProgress) = false := by simpa using h
    simp [queued, h, hb]

theorem queued_completeFirst (cbs : List Aiocb) (fd fd' : ℕ) :
    queued cbs fd' = (if fd' = fd then (completeFirst fd cbs).2 else []) ++
      queued (completeFirst fd cbs).1 fd' := by
  induction cbs with
  | nil => simp [completeFirst, queued]
  | cons cb cbs ih =>
      rw [completeFirst]
      by_cases hfirst : cb.fildes = fd ∧ cb.inProgress = true
      · rw [if_pos hfirst, queued_cons, queued_cons]
        by_cases hd : fd' = fd
        · simp [hd, hfirst]
        · have hne : ¬ (cb.fildes = fd' ∧ cb.inProgress = true) :=
            fun hmine => hd (hmine.1.symm.trans hfirst.1)
          simp [hd, hne]
      · rw [if_neg hfirst, queued_cons, queued_cons]
        dsimp only
        by_cases hd : fd' = fd
        · rw [hd, if_neg hfirst, List.nil_append, ← hd, ih, hd]
          simp
        · rw [if_neg hd] at ih ⊢
          rw [ih]
          simp

theorem queued_gc (cbs : List Aiocb) (fd : ℕ) :
    queued (cbs.filter (·.inProgress)) fd = queued cbs fd := by
  rw [queued, queued, List.filter_filter]
  congr 2
  funext cb
  cases cb.inProgress <;> simp

/-! ### Steps -/

theorem Inv.arrive (cbs : List Aiocb) (call : Option Call) {b : Bytes} {fd : ℕ} (h : Inv acc s)
    (hrest : ∀ fd', (if fd' = fd then b else []) ++ (queued cbs fd' ++ rest call fd') =
      queued s.cbs fd' ++ rest s.call fd') :
    Inv acc { Aio.arrive s fd b with cbs, call } := by
  intro fd'
  refine Eq.trans ?_ (h fd')
  rw [← hrest fd', ← List.append_assoc (s.arrived fd')]
  congr 1
  change Function.update s.arrived fd (s.arrived fd ++ b) fd' = _
  by_cases hd : fd' = fd
  · subst hd
    rw [Function.update_self, if_pos rfl]
  · rw [Function.update_of_ne hd, if_neg hd, List.append_nil]

theorem Inv.llwriteMessage (h : Inv acc s) (hidle : s.call = none) (fd : ℕ) (msg : Message) :
    Inv acc (llwriteMessage acc s fd msg) := by
  intro fd'
  have hold := h fd'
  rw [hidle] at hold
  change s.arrived fd' ++ (queued s.cbs fd' ++
    rest (if acc.checkWrite msg then some { fd, msg } else none) fd') = _
  have hallowed : (Aio.llwriteMessage acc s fd msg).allowed acc fd' =
      s.allowed acc fd' ++ if fd = fd' && acc.checkWrite msg then [msg] else [] := by
    rw [State.allowed, State.allowed, Aio.llwriteMessage, List.filter_append, List.map_append]
    congr 1
    by_cases hmine : (decide (fd = fd') && acc.checkWrite msg) = true
    · simp [hmine]
    · simp [hmine]
  rw [hallowed, Wire.flatten, List.flatMap_append, ← Wire.flatten, ← hold, List.append_assoc,
    List.append_assoc]
  have hnone : rest none fd' = [] := rfl
  rw [hnone, List.nil_append]
  congr 2
  by_cases hok : acc.checkWrite msg = true
  · by_cases hd : fd = fd'
    · subst hd
      simp [hok, rest_some { fd, msg }, Call.rest, Call.left, Call.buffer, Message.toBytes]
    · simp [hok, hd, rest, Option.filter]
  · simp [hok, rest]

theorem Inv.writeAsync (h : Inv acc s) {c : Call} (hc : s.call = some c) :
    Inv acc (writeAsync s c) := by
  intro fd'
  refine Eq.trans ?_ (h fd')
  change s.arrived fd' ++ (queued (s.cbs ++ [_]) fd' ++ rest (c.next c.left.length) fd') = _
  rw [hc]
  congr 1
  by_cases hd : c.fd = fd'
  · subst hd
    have hround := c.rest_next c.left.length
    rw [List.take_length] at hround
    rw [rest_some, ← hround, ← List.append_assoc]
    simp [queued]
  · rw [rest_next_of_ne hd]
    simp [queued, hd]

theorem Inv.writeSync (h : Inv acc s) {c : Call} (hc : s.call = some c)
    (hcalm : s.pending c.fd = [])
    (n : ℕ) : Inv acc (writeSync s c n) := by
  refine h.arrive s.cbs _ fun fd' => ?_
  rw [hc]
  by_cases hd : fd' = c.fd
  · subst hd
    have hq : queued s.cbs c.fd = [] := by
      have hnil : (s.cbs.filter fun cb => cb.fildes = c.fd && cb.inProgress) = [] := hcalm
      rw [queued, hnil, List.flatMap_nil]
    rw [if_pos rfl, hq, List.nil_append, List.nil_append, rest_some, Call.rest_next]
  · rw [if_neg hd, rest_next_of_ne (Ne.symm hd), List.nil_append]

theorem Inv.step (h : Inv acc s) (a : Action) (hcalm : Calm s a) : Inv acc (step acc s a) := by
  cases a with
  | llwriteMessage fd msg =>
      rw [Aio.step]
      split
      · exact h.llwriteMessage ‹_› fd msg
      · exact h
  | writeAsync =>
      rw [Aio.step]
      split
      · exact h.writeAsync ‹_›
      · exact h
  | writeSync n =>
      rw [Aio.step]
      split
      · rename_i c hc
        split
        · exact h.writeSync hc (hcalm c hc ‹_›) n
        · exact h
      · exact h
  | complete fd =>
      refine h.arrive _ s.call fun fd' => ?_
      rw [queued_completeFirst s.cbs fd fd', List.append_assoc]
  | gc =>
      intro fd
      change s.arrived fd ++ (queued (s.cbs.filter (·.inProgress)) fd ++ rest s.call fd) = _
      rw [queued_gc]
      exact h fd

/-! ### Runs -/

theorem inv_run {as : List Action} (h : Along Calm (step acc) {} as) : Inv acc (run acc as) :=
  Along.invariant h (fun _ => rfl) fun _ a hs hcalm => hs.step a hcalm

/-- **Order of writes.** Unless a synchronous write passes a request that is in
progress, every pipe gets the messages that were written to it, in the order of the
calls. -/
theorem arrived_run (acc : AccessControl) (as : List Action) (h : Along Calm (step acc) {} as) :
    ∀ as', as' <+: as → ∀ fd, (run acc as').InOrder acc fd := by
  intro as' hprefix fd
  obtain ⟨rest, rfl⟩ := hprefix
  exact (inv_run (Along.append.mp h).1).inOrder fd

/-- The payload is written in two rounds, after the header has left the queue. -/
theorem arrived_run_sync :
    let as : List Action := [
      .llwriteMessage 9 { msgType := msgSetUrl, payload := .ofBytes [1, 2] },
        .writeAsync, .complete 9,
      .writeSync 1, .gc, .writeSync 1]
    Along Calm (step .create) {} as ∧
      ∀ as', as' <+: as → ∀ fd, (run .create as').InOrder .create fd := by
  intro as
  have h : Along Calm (step .create) {} as := by
    refine ⟨trivial, trivial, trivial, fun c hc _ => ?_, trivial, fun c hc _ => ?_, trivial⟩
    · cases hc
      decide
    · cases hc
      decide
  exact ⟨h, arrived_run .create as h⟩

/-- The header waits in the queue while the payload is written at once. -/
theorem payload_overtakes_header : ¬ ∀ fd, (run .create [
    .llwriteMessage 9 { msgType := msgSetUrl, payload := .ofBytes [1] }, .writeAsync, .writeSync 1,
    .complete 9]).InOrder .create fd := by
  intro h
  exact absurd ((h 9).whole ⟨by decide, by decide⟩) (by decide)

/-- The reader of a settled pipe finds the messages that were written. -/
theorem frames_arrived {as : List Action} (h : Along Calm (step acc) {} as)
    (hrange : ∀ m ∈ (run acc as).allowed acc fd, m.header.InRange)
    (hsettled : (run acc as).Settled fd) :
    Wire.frames ((run acc as).arrived fd) = ((run acc as).allowed acc fd, []) := by
  have hend : ¬ Wire.HasFrame [] := fun hframe => absurd hframe.1 (by decide)
  have hall := Wire.frames_flatten hrange [] hend
  rw [((inv_run h).inOrder fd).whole hsettled]
  rwa [List.append_nil] at hall

end OpBrowser.Aio
