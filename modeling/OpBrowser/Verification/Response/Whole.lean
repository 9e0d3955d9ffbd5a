import OpBrowser.Library.Run
import OpBrowser.Verification.Response.Reply

/-! # A response body arrives whole

What was forwarded is the data of the messages in the order in which they were sent. At
any time the reply holds what was delivered of it, and the rest is still in the pipe. -/

namespace OpBrowser.Response

open OpNetworkReply

/-- The bytes of the body in these messages. -/
def forwarded (msgs : List Message) : Bytes :=
  msgs.flatMap fun msg => if msg.msgType = msgReturnUrl then msg.payload.data else []

/-- How many of these messages mark the end. -/
def ends (msgs : List Message) : ℕ :=
  msgs.countP fun msg => msg.msgType = msgReturnUrl ∧ msg.payload.data = []

/-- What holds of a response in a state. -/
structure Whole (q : Request) (s : State) : Prop where
  /-- The messages: the metadata once, data, and the end once. -/
  messages : s.sent = [] ∧ s.requested = true ∨
    ∃ (metaData : Bytes) (bodies : List Bytes), (∀ data ∈ bodies, data ≠ []) ∧ s.sent =
      [metaDataMsg q metaData] ++ bodies.map (dataMsg q) ++
        if s.requested then [] else [dataMsg q []]
  forwarded : forwarded s.sent <+: s.body
  /-- After the signal `finished` of `m_reply` the whole body and the end are sent. -/
  complete : s.requested = true → s.announced = true →
    (step q s .finished).requested = false ∧
      (step q s .finished).sent.getLast? = some (dataMsg q []) ∧
      Response.forwarded (step q s .finished).sent = s.body
  /-- Nothing but an abort of the web app cuts the body short. -/
  uncut : s.requested = false → s.aborted = false → Response.forwarded s.sent = s.body
  returned : s.returned <+: Response.forwarded s.sent
  once : s.finishedSignals ≤ 1
  /-- Nobody but the web app stops a response. -/
  finished : s.aborted = false →
    (s.finishedSignals = 1 ↔ s.requested = false ∧ s.toWebApp = [])
  /-- Reading to exhaustion after `finished`. -/
  exhausted : s.aborted = false → s.finishedSignals = 1 →
    (∀ maxSize, 0 < maxSize → (s.reply.readData maxSize).1 = some [] → s.returned = s.body) ∧
      ∀ maxSizes : List ℕ, (∀ n ∈ maxSizes, 0 < n) → s.body.length ≤ maxSizes.length →
        (maxSizes.foldl read s).returned = s.body

/-! ### The messages -/

/-- What `NetworkRequest` has sent, after the flag for the metadata and with the end or
without it. -/
inductive Sent (q : Request) : Bool → Bool → List Message → Prop where
  | nothing : Sent q false false []
  | metaData (metaData : Bytes) : Sent q true false [metaDataMsg q metaData]
  | data {msgs : List Message} (h : Sent q true false msgs) (data : Bytes) (hne : data ≠ []) :
      Sent q true false (msgs ++ [dataMsg q data])
  | finish {msgs : List Message} (h : Sent q true false msgs) :
      Sent q true true (msgs ++ [dataMsg q []])

section Messages

variable {q : Request} {msgs msgs' : List Message} {metaDataSent ended : Bool}

theorem forwarded_append : forwarded (msgs ++ msgs') = forwarded msgs ++ forwarded msgs' :=
  List.flatMap_append

theorem ends_append : ends (msgs ++ msgs') = ends msgs + ends msgs' := List.countP_append

@[simp] theorem forwarded_metaDataMsg (metaData : Bytes) :
    forwarded [metaDataMsg q metaData] = [] :=
  rfl

@[simp] theorem forwarded_dataMsg (data : Bytes) : forwarded [dataMsg q data] = data := by
  simp [forwarded, dataMsg, Payload.ofBytes]

theorem forwarded_singleton {msg : Message} (h : msg.msgType = msgReturnUrl) :
    forwarded [msg] = msg.payload.data := by
  simp [forwarded, h]

theorem ends_singleton {msg : Message} (h : msg.msgType = msgReturnUrl) :
    ends [msg] = if msg.payload.data = [] then 1 else 0 := by
  simp [ends, h, List.countP_cons]

/-- A message of another type is neither data nor the end. -/
theorem forwarded_other {msg : Message} (h : msg.msgType ≠ msgReturnUrl) :
    forwarded [msg] = [] ∧ ends [msg] = 0 := by
  simp [forwarded, ends, h]

theorem ends_dataMsg (data : Bytes) : ends [dataMsg q data] = if data = [] then 1 else 0 := by
  simp [ends, dataMsg, Payload.ofBytes, List.countP_cons]

/-- No message of another request is among them. -/
theorem Sent.msgValue (h : Sent q metaDataSent ended msgs) :
    ∀ msg ∈ msgs, msg.msgValue = q.urlId := by
  induction h with
  | nothing => simp
  | metaData metaData => simp [metaDataMsg]
  | data h data hne ih => simpa [or_imp, forall_and, dataMsg] using ih
  | finish h ih => simpa [or_imp, forall_and, dataMsg] using ih

theorem Sent.ends (h : Sent q metaDataSent ended msgs) : Response.ends msgs = ended.toNat := by
  induction h with
  | nothing => rfl
  | metaData metaData => rfl
  | data h data hne ih => simp [ends_append, ends_dataMsg, hne, ih]
  | finish h ih => simp [ends_append, ends_dataMsg, ih]

/-- In the middle of a response: the metadata and data. -/
theorem Sent.bodies (h : Sent q true false msgs) :
    ∃ (metaData : Bytes) (bodies : List Bytes), (∀ data ∈ bodies, data ≠ []) ∧
      msgs = [metaDataMsg q metaData] ++ bodies.map (dataMsg q) := by
  generalize hm : true = metaDataSent, he : false = ended at h
  induction h with
  | nothing => cases hm
  | metaData metaData => exact ⟨metaData, [], by simp, rfl⟩
  | data h data hne ih =>
      obtain ⟨metaData, bodies, hbodies, rfl⟩ := ih rfl rfl
      refine ⟨metaData, bodies ++ [data], ?_, by simp⟩
      simpa [or_imp, forall_and, hne] using hbodies
  | finish h ih => cases he

theorem Sent.messages (h : Sent q metaDataSent ended msgs) : msgs = [] ∧ ended = false ∨
    ∃ (metaData : Bytes) (bodies : List Bytes), (∀ data ∈ bodies, data ≠ []) ∧ msgs =
      [metaDataMsg q metaData] ++ bodies.map (dataMsg q) ++
        if ended then [dataMsg q []] else [] := by
  cases h with
  | nothing => exact Or.inl ⟨rfl, rfl⟩
  | metaData metaData => exact Or.inr ⟨metaData, [], by simp, rfl⟩
  | data h data hne =>
      obtain ⟨metaData, bodies, hbodies, heq⟩ := (h.data data hne).bodies
      exact Or.inr ⟨metaData, bodies, hbodies, by simp [heq]⟩
  | finish h =>
      obtain ⟨metaData, bodies, hbodies, rfl⟩ := h.bodies
      exact Or.inr ⟨metaData, bodies, hbodies, rfl⟩

end Messages

/-! ### The invariant -/

/-- What every step keeps. -/
structure Inv (q : Request) (s : State) : Prop where
  sent : Sent q s.metaDataSent (!s.requested) s.sent
  forwarded : forwarded s.sent <+: s.body
  /-- Only an abort drops what was received. -/
  body : s.requested = true ∨ s.aborted = false → s.body = Response.forwarded s.sent ++ s.received
  rest : s.requested = false → s.received = []
  announced : s.announced = true → s.received = []
  /-- Of the messages that left the pipe, the reply has got the data. -/
  fed : ∃ delivered, s.sent = delivered ++ s.toWebApp ∧
    s.returned ++ s.reply.unread <+: Response.forwarded delivered ∧
    s.finishedSignals ≤ ends delivered ∧
    (s.aborted = false → s.returned ++ s.reply.unread = Response.forwarded delivered ∧
      s.finishedSignals = ends delivered)
  cursors : Cursors s.reply
  queued : s.queued = !s.aborted
  quiet : s.aborted = false → s.toNetwork = [] ∧ s.reply.state ≠ .aborted

variable {q : Request} {s : State}

theorem inv_start : Inv q { metaData := q.metaData } where
  sent := Sent.nothing
  forwarded := List.nil_prefix
  body _ := rfl
  rest _ := rfl
  announced _ := rfl
  fed := ⟨[], rfl, List.nil_prefix, Nat.le_refl 0, fun _ => ⟨rfl, rfl⟩⟩
  cursors := cursors_start
  queued := rfl
  quiet _ := ⟨rfl, nofun⟩

/-! ### The network component -/

/-- The metadata, unless it has been sent. -/
def metaDataMsgs (q : Request) (metaDataSent : Bool) (metaData : Bytes) : List Message :=
  if metaDataSent then [] else [metaDataMsg q metaData]

/-- All that `NetworkRequest` does: write messages and change its own fields. -/
def writeAll (s : State) (msgs : List Message) : State :=
  { s with metaDataSent := true, toWebApp := s.toWebApp ++ msgs, sent := s.sent ++ msgs }

theorem sendMetaDataIfNeeded_eq :
    sendMetaDataIfNeeded q s = writeAll s (metaDataMsgs q s.metaDataSent s.metaData) := by
  unfold sendMetaDataIfNeeded metaDataMsgs
  split
  next h => simp [writeAll, ← h]
  next => rfl

theorem forwardData_eq : forwardData q s =
    { writeAll s (metaDataMsgs q s.metaDataSent s.metaData ++
        if s.received = [] then [] else [dataMsg q s.received]) with
      received := [] } := by
  simp only [forwardData, sendMetaDataIfNeeded_eq]
  by_cases h : s.received = []
  · simp [writeAll, h]
  · simp [writeAll, writeMessage, h]

theorem finish_eq : finish q s =
    { writeAll s (metaDataMsgs q s.metaDataSent s.metaData ++ [dataMsg q []]) with
      requested := false } := by
  simp [finish, sendMetaDataIfNeeded_eq, writeAll, writeMessage]

theorem forwarded_metaDataMsgs (metaDataSent : Bool) (metaData : Bytes) :
    forwarded (metaDataMsgs q metaDataSent metaData) = [] := by
  cases metaDataSent <;> rfl

/-- After `sendMetaDataIfNeeded` the metadata has been sent. -/
theorem Sent.metaDataMsgs (h : Sent q s.metaDataSent false s.sent) :
    Sent q true false (s.sent ++ metaDataMsgs q s.metaDataSent s.metaData) := by
  unfold Response.metaDataMsgs
  generalize s.metaDataSent = m, s.sent = msgs at h
  cases h with
  | nothing => exact Sent.metaData _
  | metaData metaData => exact Sent.metaData metaData
  | data h data hne => simpa using h.data data hne

/-- Messages are written, and the body is what was forwarded and what was not. -/
theorem Inv.write (h : Inv q s) {msgs : List Message} (requested : Bool) (received : Bytes)
    (hsent : Sent q true (!requested) (s.sent ++ msgs))
    (hforwarded : Response.forwarded (s.sent ++ msgs) <+: s.body)
    (hbody : requested = true ∨ s.aborted = false →
      s.body = Response.forwarded (s.sent ++ msgs) ++ received)
    (hrest : requested = false → received = []) (hannounced : s.announced = true → received = []) :
    Inv q { writeAll s msgs with requested, received } where
  sent := hsent
  forwarded := hforwarded
  body := hbody
  rest := hrest
  announced := hannounced
  fed := by
    obtain ⟨delivered, hpipe, hfed⟩ := h.fed
    refine ⟨delivered, ?_, hfed⟩
    change s.sent ++ msgs = delivered ++ (s.toWebApp ++ msgs)
    rw [hpipe, List.append_assoc]
  cursors := h.cursors
  queued := h.queued
  quiet := h.quiet

theorem forwarded_metaDataMsgs_append (msgs : List Message) :
    forwarded (s.sent ++ (metaDataMsgs q s.metaDataSent s.metaData ++ msgs)) =
      forwarded s.sent ++ forwarded msgs := by
  rw [forwarded_append, forwarded_append, forwarded_metaDataMsgs, List.nil_append]

theorem Inv.sendMetaDataIfNeeded (h : Inv q s) (hreq : s.requested = true) :
    Inv q (sendMetaDataIfNeeded q s) := by
  have hsent := h.sent
  rw [hreq] at hsent
  have hforwarded : Response.forwarded (s.sent ++ metaDataMsgs q s.metaDataSent s.metaData) =
      Response.forwarded s.sent := by
    rw [forwarded_append, forwarded_metaDataMsgs, List.append_nil]
  have hwritten := h.write true s.received hsent.metaDataMsgs
    (hforwarded ▸ h.forwarded) (fun _ => hforwarded ▸ h.body (Or.inl hreq)) nofun h.announced
  rw [sendMetaDataIfNeeded_eq]
  rw [← hreq] at hwritten
  exact hwritten

/-- Nothing is left when `readyRead` has been handled. -/
theorem Inv.forwardData (h : Inv q s) (hreq : s.requested = true) :
    Inv q (forwardData q { s with announced := true }) := by
  have hsent := h.sent
  rw [hreq] at hsent
  have hbody := h.body (Or.inl hreq)
  have hnext : Sent q true false
      (s.sent ++ (metaDataMsgs q s.metaDataSent s.metaData ++
        if s.received = [] then [] else [dataMsg q s.received])) := by
    rw [← List.append_assoc]
    split
    next => simpa using hsent.metaDataMsgs
    next hne => exact hsent.metaDataMsgs.data _ hne
  have hforwarded : Response.forwarded
      (s.sent ++ (metaDataMsgs q s.metaDataSent s.metaData ++
        if s.received = [] then [] else [dataMsg q s.received])) = s.body := by
    rw [forwarded_metaDataMsgs_append, hbody]
    split
    next hempty => rw [hempty]; rfl
    next => rw [forwarded_dataMsg]
  have hwritten := h.write true [] hnext
    (hforwarded ▸ List.prefix_rfl) (fun _ => by rw [hforwarded, List.append_nil]) nofun fun _ => rfl
  rw [forwardData_eq]
  rw [← hreq] at hwritten
  exact { hwritten with announced := fun _ => rfl }

/-- `finish` is called when all was forwarded, or the web app has aborted. -/
theorem Inv.finish (h : Inv q s) (hreq : s.requested = true) {requested : Bool} {received : Bytes}
    (hempty : received = []) (hall : s.aborted = false → s.received = []) :
    Inv q (finish q { s with requested, received }) := by
  have hsent := h.sent
  rw [hreq] at hsent
  have hnext : Sent q true true
      (s.sent ++ (metaDataMsgs q s.metaDataSent s.metaData ++ [dataMsg q []])) := by
    rw [← List.append_assoc]
    exact hsent.metaDataMsgs.finish
  have hforwarded : Response.forwarded (s.sent ++ (metaDataMsgs q s.metaDataSent s.metaData ++
      [dataMsg q []])) = Response.forwarded s.sent := by
    rw [forwarded_metaDataMsgs_append, forwarded_dataMsg, List.append_nil]
  rw [finish_eq]
  refine h.write false received hnext (hforwarded ▸ h.forwarded) ?_ (fun _ => hempty)
    fun _ => hempty
  intro hnot
  have hnone := hall (hnot.resolve_left Bool.false_ne_true)
  change s.body =
    Response.forwarded (s.sent ++ (metaDataMsgs q s.metaDataSent s.metaData ++ _)) ++ received
  rw [hforwarded, h.body (Or.inl hreq), hnone, hempty]

theorem Inv.arrive (h : Inv q s) (hreq : s.requested = true) (bytes : Bytes) :
    Inv q { s with received := s.received ++ bytes, body := s.body ++ bytes, announced := false } :=
  { h with
    forwarded := h.forwarded.trans (List.prefix_append _ _)
    body := fun _ => by
      change s.body ++ bytes = _
      rw [h.body (Or.inl hreq), List.append_assoc]
    rest := fun hnot => absurd hreq (by simpa using hnot)
    announced := nofun }

/-- The abort of the web app is read. -/
theorem Inv.readNetwork (h : Inv q s) : Inv q (step q s .readNetwork) := by
  cases hpipe : s.toNetwork with
  | nil => simpa [step, hpipe] using h
  | cons msg rest =>
      have haborted : s.aborted = true := by
        by_contra hnot
        simp [(h.quiet (by simpa using hnot)).1] at hpipe
      have hrest : Inv q { s with toNetwork := rest } :=
        { h with quiet := fun hnot => by simp [haborted] at hnot }
      simp only [step, hpipe, dispatchNetwork]
      split
      next hmsg => exact hrest.finish hmsg.2.1 rfl fun hnot => by simp [haborted] at hnot
      next => exact hrest

/-! ### The web app -/

theorem read_eq (maxSize : ℕ) : read s maxSize =
    { s with
      reply := s.reply.advance maxSize
      returned := s.returned ++ s.reply.unread.take maxSize } := by
  rw [← readData_bytes, read, readData_eq]

theorem read_unread (maxSize : ℕ) : (read s maxSize).returned ++ (read s maxSize).reply.unread =
    s.returned ++ s.reply.unread := by
  rw [read_eq, advance_unread, List.append_assoc, List.take_append_drop]

theorem Inv.read (h : Inv q s) (maxSize : ℕ) : Inv q (read s maxSize) := by
  have hunread := read_unread (s := s) maxSize
  rw [read_eq] at hunread ⊢
  obtain ⟨delivered, hpipe, hfed⟩ := h.fed
  exact { h with
    fed := ⟨delivered, hpipe, by rw [hunread]; exact hfed⟩
    cursors := h.cursors.advance maxSize
    quiet := h.quiet }

theorem Inv.abort (h : Inv q s) : Inv q (abort q s) := by
  obtain ⟨delivered, hpipe, hreturned, hsignals, -⟩ := h.fed
  unfold Response.abort
  dsimp only
  split
  · exact { h with
      body := fun hnot => h.body (Or.inl (by simpa using hnot))
      fed := ⟨delivered, hpipe, hreturned, hsignals, nofun⟩
      cursors := h.cursors.setState _
      queued := rfl
      quiet := nofun }
  · exact { h with
      body := fun hnot => h.body (Or.inl (by simpa using hnot))
      fed := ⟨delivered, hpipe, hreturned, hsignals, nofun⟩
      queued := rfl
      quiet := nofun }

/-- A message leaves the pipe for a reply that is not in the queue any more, or it is not
for the buffer. -/
theorem Inv.skip (h : Inv q s) {msg : Message} {rest : List Message}
    (hnext : s.toWebApp = msg :: rest) (hmsg : s.aborted = true ∨ msg.msgType ≠ msgReturnUrl) :
    Inv q { s with toWebApp := rest } := by
  obtain ⟨delivered, hpipe, hreturned, hsignals, hfed⟩ := h.fed
  refine { h with fed := ⟨delivered ++ [msg], ?_, ?_, ?_, ?_⟩ }
  · rw [hpipe, hnext, List.append_assoc, List.singleton_append]
  · rw [forwarded_append]
    exact hreturned.trans (List.prefix_append _ _)
  · rw [ends_append]
    exact hsignals.trans (Nat.le_add_right _ _)
  · intro hnot
    obtain ⟨hdata, hcount⟩ := hfed hnot
    cases hmsg with
    | inl haborted => exact absurd hnot (by simp [haborted])
    | inr hother =>
        rw [forwarded_append, ends_append, (forwarded_other hother).1, (forwarded_other hother).2]
        exact ⟨by rw [hdata, List.append_nil], hcount⟩

/-- The reply in the queue is fed with the data of a message. -/
theorem Inv.feed (h : Inv q s) {msg : Message} {rest : List Message}
    (hnext : s.toWebApp = msg :: rest) (hnot : s.aborted = false)
    (hmsg : msg.msgType = msgReturnUrl) :
    Inv q (handleData { s with toWebApp := rest } msg.payload.data) := by
  obtain ⟨delivered, hpipe, -, -, hfed⟩ := h.fed
  obtain ⟨hdata, hcount⟩ := hfed hnot
  have hqueued : s.queued = true := by rw [h.queued, hnot]; rfl
  have hdata' : s.returned ++ (s.reply.feed msg.payload.data).unread =
      Response.forwarded (delivered ++ [msg]) := by
    rw [feed_unread h.cursors, ← List.append_assoc, hdata, forwarded_append,
      forwarded_singleton hmsg]
  have hcount' : (if msg.payload.data.length = 0 then s.finishedSignals + 1
      else s.finishedSignals) = ends (delivered ++ [msg]) := by
    rw [ends_append, ends_singleton hmsg, hcount]
    simp only [List.length_eq_zero_iff]
    split <;> rfl
  rw [handleData, if_pos hqueued]
  exact { h with
    fed := ⟨delivered ++ [msg], by rw [hpipe, hnext, List.append_assoc, List.singleton_append],
      hdata'.symm ▸ List.prefix_rfl, hcount'.le, fun _ => ⟨hdata', hcount'⟩⟩
    cursors := h.cursors.feed _
    quiet := fun _ => ⟨(h.quiet hnot).1, feed_state _ (h.quiet hnot).2⟩ }

theorem Inv.readWebApp (h : Inv q s) : Inv q (step q s .readWebApp) := by
  cases hnext : s.toWebApp with
  | nil => simpa [step, hnext] using h
  | cons msg rest =>
      obtain ⟨delivered, hpipe, -⟩ := h.fed
      have hvalue : msg.msgValue = q.urlId := h.sent.msgValue msg (by simp [hpipe, hnext])
      simp only [step, hnext, dispatchWebApp, hvalue, and_true]
      split
      next hmsg =>
        by_cases haborted : s.aborted = true
        · have hqueued : ¬ s.queued = true := by simp [h.queued, haborted]
          rw [handleData, if_neg hqueued]
          exact h.skip hnext (Or.inl haborted)
        · exact h.feed hnext (by simpa using haborted) hmsg
      next hmsg => exact h.skip hnext (Or.inr hmsg)

/-! ### Runs -/

theorem Inv.step (h : Inv q s) (a : Action) : Inv q (step q s a) := by
  cases a with
  | arrive bytes =>
      simp only [Response.step]
      split
      next hreq => exact h.arrive hreq bytes
      next => exact h
  | change metaData =>
      simp only [Response.step]
      split
      next => exact { h with }
      next => exact h
  | metaDataChanged =>
      simp only [Response.step]
      split
      next hreq => exact h.sendMetaDataIfNeeded hreq
      next => exact h
  | readyRead =>
      simp only [Response.step]
      split
      next hreq => exact h.forwardData hreq
      next => exact h
  | finished =>
      simp only [Response.step]
      split
      next hreq => exact h.finish hreq.1 (h.announced hreq.2) fun _ => h.announced hreq.2
      next => exact h
  | readNetwork => exact h.readNetwork
  | readWebApp => exact h.readWebApp
  | readData maxSize => exact h.read maxSize
  | abort => exact h.abort

theorem inv_run (q : Request) (as : List Action) : Inv q (run q as) :=
  List.foldlRecOn as (Response.step q) inv_start fun _ h a _ => h.step a

/-! ### What follows -/

theorem Sent.ended {metaDataSent : Bool} {msgs : List Message} (h : Sent q metaDataSent true msgs) :
    ∃ front, Sent q true false front ∧ msgs = front ++ [dataMsg q []] := by
  cases h with
  | finish h => exact ⟨_, h, rfl⟩

/-- Nothing is sent after the end. -/
theorem Sent.last {metaDataSent ended : Bool} {msgs msgs' : List Message}
    (h : Sent q metaDataSent ended (msgs ++ msgs')) (hends : Response.ends msgs ≠ 0) :
    ended = true ∧ msgs' = [] := by
  have hall := h.ends
  rw [ends_append] at hall
  cases ended with
  | false => simp at hall; omega
  | true =>
      refine ⟨rfl, ?_⟩
      obtain ⟨front, hfront, heq⟩ := h.ended
      cases List.eq_nil_or_concat' msgs' with
      | inl hnil => exact hnil
      | inr hcons =>
          obtain ⟨front', last, rfl⟩ := hcons
          rw [← List.append_assoc] at heq
          have hnone := hfront.ends
          rw [← (List.append_inj' heq rfl).1, ends_append, Bool.toNat_false] at hnone
          omega

/-- Without an abort, the signal is there when the end was sent and has left the pipe. -/
theorem Inv.finished (h : Inv q s) (hnot : s.aborted = false) :
    s.finishedSignals = 1 ↔ s.requested = false ∧ s.toWebApp = [] := by
  obtain ⟨delivered, hpipe, -, -, hfed⟩ := h.fed
  have hsent := h.sent
  rw [(hfed hnot).2]
  constructor
  · intro hone
    rw [hpipe] at hsent
    have hlast := hsent.last (by simp [hone])
    simpa using hlast
  · intro hdone
    have hends := hsent.ends
    rw [hpipe, hdone.1, hdone.2, List.append_nil] at hends
    exact hends

theorem Inv.uncut (h : Inv q s) (hreq : s.requested = false) (hnot : s.aborted = false) :
    Response.forwarded s.sent = s.body := by
  have hbody := h.body (Or.inr hnot)
  rw [h.rest hreq, List.append_nil] at hbody
  exact hbody.symm

/-- When `m_reply` is finished, all has been forwarded, and the end is sent. -/
theorem Inv.complete (h : Inv q s) (hreq : s.requested = true) (hannounced : s.announced = true) :
    (Response.step q s .finished).requested = false ∧
      (Response.step q s .finished).sent.getLast? = some (dataMsg q []) ∧
      Response.forwarded (Response.step q s .finished).sent = s.body := by
  have hbody := h.body (Or.inl hreq)
  rw [h.announced hannounced, List.append_nil] at hbody
  have hsent : (Response.step q s .finished).sent =
      s.sent ++ (metaDataMsgs q s.metaDataSent s.metaData ++ [dataMsg q []]) := by
    rw [Response.step, if_pos ⟨hreq, hannounced⟩, finish_eq]
    rfl
  rw [hsent, forwarded_metaDataMsgs_append, forwarded_dataMsg, List.append_nil, hbody]
  refine ⟨?_, ?_, rfl⟩
  · rw [Response.step, if_pos ⟨hreq, hannounced⟩, finish_eq]
  · rw [← List.append_assoc, List.getLast?_concat]

/-- What is left to read after `finished`. -/
theorem Inv.remaining (h : Inv q s) (hnot : s.aborted = false) (hfinished : s.finishedSignals = 1) :
    s.returned ++ s.reply.unread = s.body := by
  obtain ⟨delivered, hpipe, -, -, hfed⟩ := h.fed
  obtain ⟨hreq, hempty⟩ := (h.finished hnot).mp hfinished
  rw [hempty, List.append_nil] at hpipe
  rw [(hfed hnot).1, ← hpipe, h.uncut hreq hnot]

/-- Reads with positive sizes come to the end of what was fed. -/
theorem foldl_read (maxSizes : List ℕ) (hpos : ∀ n ∈ maxSizes, 0 < n)
    (hlength : s.reply.unread.length ≤ maxSizes.length) :
    (maxSizes.foldl read s).returned = s.returned ++ s.reply.unread := by
  induction maxSizes generalizing s with
  | nil => simp [List.length_eq_zero_iff.mp (Nat.le_zero.mp hlength)]
  | cons n maxSizes ih =>
      rw [List.foldl_cons, ih, read_unread]
      · exact fun k hk => hpos k (List.mem_cons_of_mem n hk)
      · have hn := hpos n List.mem_cons_self
        rw [read_eq, advance_unread, List.length_drop]
        rw [List.length_cons] at hlength
        omega

/-- A read that returns nothing has come to the end. -/
theorem unread_of_readData {maxSize : ℕ} (hpos : 0 < maxSize)
    (h : (s.reply.readData maxSize).1 = some []) : s.reply.unread = [] := by
  have hbytes := readData_bytes (r := s.reply) maxSize
  rw [h] at hbytes
  simpa [hpos.ne'] using hbytes.symm

theorem Inv.whole (h : Inv q s) : Whole q s where
  messages := by
    have hmessages := h.sent.messages
    cases hreq : s.requested with
    | false => simpa [hreq] using hmessages
    | true => simpa [hreq] using hmessages
  forwarded := h.forwarded
  complete := h.complete
  uncut := h.uncut
  returned := by
    obtain ⟨delivered, hpipe, hreturned, -⟩ := h.fed
    rw [hpipe, forwarded_append]
    exact (List.prefix_append _ _).trans (hreturned.trans (List.prefix_append _ _))
  once := by
    obtain ⟨delivered, hpipe, -, hsignals, -⟩ := h.fed
    have hends := h.sent.ends
    rw [hpipe, ends_append] at hends
    have hle := Bool.toNat_le (!s.requested)
    omega
  finished := h.finished
  exhausted := by
    intro hnot hfinished
    have hremaining := h.remaining hnot hfinished
    constructor
    · intro maxSize hpos hread
      rw [← hremaining, unread_of_readData hpos hread, List.append_nil]
    · intro maxSizes hpos hlength
      rw [← hremaining]
      apply foldl_read maxSizes hpos
      rw [← hremaining, List.length_append] at hlength
      omega

theorem whole_run (q : Request) (as : List Action) : Whole q (run q as) := (inv_run q as).whole

end OpBrowser.Response
