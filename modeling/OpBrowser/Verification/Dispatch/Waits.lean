import Mathlib.Data.List.Nodup
import OpBrowser.Library.Run
import OpBrowser.Model.OpNetwork

/-! # Nested waits for cookies

The calls of `cookiesForUrl` that wait are on the stack, the latest one on top, and the
answers come in the order of the requests. So the answer to a call is there only after
those to the calls below it, and the flag stays set for them. -/

namespace OpBrowser.Dispatch.OpNetwork

/-- The cookie component answers the requests in the order in which they were sent. -/
def Answers (w : OpNetwork) : Event → Prop
  | .own (.arrive msg) => IsReply msg → w.requests[w.answered]? = some msg.msgValue
  | _ => True

/-- A call of `cookiesForUrl` has sent its request and has not returned. -/
def Waiting (s : State) : Prop := ∃ reqId, .wait reqId ∈ s.stack

/-- The ids of the requests whose calls wait, the innermost one first. -/
def waiting (s : State) : List I32 :=
  s.stack.filterMap fun | .wait reqId => some reqId | _ => none

/-- What holds of the waits in a state. -/
structure Waits (w : OpNetwork) : Prop where
  flag : w.net.waitForReply = true ↔ Waiting w.net
  /-- The assertion at the end of a call. -/
  assertion : ∀ reqId calls, w.net.stack = .wait reqId :: calls → reqId ∈ w.net.cookieMap →
    w.net.waitForReply = true
  /-- What the next step may dispatch. -/
  quiet : ∀ e msg, (step w e).net.dispatched = w.net.dispatched ++ [msg] → Waiting w.net →
    msg.msgType ≠ msgReturnUrl ∧ msg.msgType ≠ msgReturnUrlMetadata ∧ msg.msgType ≠ msgSetUrl
  /-- A call returns the answer with its own request id, and there is only one. -/
  returned : ∀ r ∈ w.returned,
    (∃ msg ∈ w.net.received, IsReply msg ∧ msg.msgValue = r.1) ∧
      ∀ msg ∈ w.net.received, IsReply msg → msg.msgValue = r.1 → msg.payload.data = r.2
  /-- The innermost call returns as soon as its answer is there, and the last one to return clears
  the flag. -/
  returns : ∀ reqId calls cookieStr, w.net.stack = .wait reqId :: calls →
    w.net.cookieMap[reqId]? = some cookieStr →
      (step w (.own .advance)).returned = w.returned ++ [(reqId, cookieStr)] ∧
      (step w (.own .advance)).net.stack = calls ∧
      ((step w (.own .advance)).net.waitForReply = false ↔ ∀ j, .wait j ∉ calls)
  /-- No two requests have the same id, and each of them waits or was returned once. -/
  distinct : w.requests.Nodup
  once : (w.returned.map Prod.fst ++ waiting w.net).Perm w.requests

/-! ### The stack -/

/-- No answer is being dispatched in these calls. -/
def NoReply (calls : List Frame) : Prop := ∀ msg, .dispatchMsg msg ∈ calls → ¬ IsReply msg

/-- Waits are nested in the order of their ids, nothing waits below a loop over the
queue, and nothing runs on top of an answer that is being dispatched. -/
def Nested : List Frame → Prop
  | [] => True
  | f :: calls =>
      (∀ reqId, f = .wait reqId → ∀ j, .wait j ∈ calls → j < reqId) ∧
        (∀ fd, f = .drain fd → ∀ j, .wait j ∉ calls) ∧ NoReply calls ∧ Nested calls

/-- The ids of the answers among these messages. -/
def replyIds (l : List Message) : List I32 := (l.filter fun msg => IsReply msg).map Message.msgValue

theorem replyIds_append (l l' : List Message) : replyIds (l ++ l') = replyIds l ++ replyIds l' := by
  rw [replyIds, List.filter_append, List.map_append, replyIds, replyIds]

theorem replyIds_reply {msg : Message} (h : IsReply msg) : replyIds [msg] = [msg.msgValue] := by
  simp [replyIds, h]

theorem replyIds_other {msg : Message} (h : ¬ IsReply msg) : replyIds [msg] = [] := by
  simp [replyIds, h]

theorem mem_replyIds {l : List Message} {k : I32} :
    k ∈ replyIds l ↔ ∃ msg ∈ l, IsReply msg ∧ msg.msgValue = k := by
  simp [replyIds, and_assoc]

/-! ### The invariant -/

/-- What every step keeps. Every request was answered, or its call waits; an answer that
was read is in the map until its call takes it, or is being dispatched. -/
structure Inv (w : OpNetwork) : Prop where
  flag : w.net.waitForReply = true ↔ Waiting w.net
  nested : Nested w.net.stack
  sorted : w.requests.Pairwise (· < ·)
  ids : ∀ k ∈ w.requests, k < w.net.reqId
  asked : ∀ k, .wait k ∈ w.net.stack → k ∈ w.requests
  bound : w.answered ≤ w.requests.length
  replies : replyIds (w.net.received ++ w.net.unread) = w.requests.take w.answered
  done : ∀ k ∈ w.requests, .wait k ∉ w.net.stack → k ∈ replyIds w.net.received
  kept : ∀ k ∈ w.net.cookieMap, .wait k ∈ w.net.stack
  got : ∀ k ∈ replyIds w.net.received, .wait k ∈ w.net.stack → k ∈ w.net.cookieMap ∨
    ∃ msg calls, w.net.stack = .dispatchMsg msg :: calls ∧ IsReply msg ∧ msg.msgValue = k
  frames : ∀ msg, .dispatchMsg msg ∈ w.net.stack → IsReply msg →
    msg ∈ w.net.received ∧ .wait msg.msgValue ∈ w.net.stack
  queued : ∀ msg ∈ w.net.msgQueue, ¬ IsReply msg
  content : ∀ k b, w.net.cookieMap[k]? = some b →
    ∃ msg ∈ w.net.received, IsReply msg ∧ msg.msgValue = k ∧ msg.payload.data = b
  returned : ∀ r ∈ w.returned,
    ∃ msg ∈ w.net.received, IsReply msg ∧ msg.msgValue = r.1 ∧ msg.payload.data = r.2

variable {w : OpNetwork} {calls : List Frame}

theorem inv_start : Inv {} := by
  constructor <;> simp [Waiting, Nested, replyIds]

/-- No id is answered twice. -/
theorem Inv.nodup (h : Inv w) : (replyIds (w.net.received ++ w.net.unread)).Nodup := by
  rw [h.replies]
  exact (h.sorted.imp fun hlt => ne_of_lt hlt).sublist (List.take_sublist _ _)

/-- The answers that were read are those to the first requests. -/
theorem Inv.firstAnswers (h : Inv w) : replyIds w.net.received <+: w.requests := by
  have hreplies := h.replies
  rw [replyIds_append] at hreplies
  exact (hreplies ▸ List.prefix_append _ _).trans (List.take_prefix _ _)

/-- On top of a call that dispatches no answer, no answer is being dispatched at all. -/
theorem Inv.noReply {f : Frame} (h : Inv w) (hs : w.net.stack = f :: calls)
    (hf : ∀ msg, f = .dispatchMsg msg → ¬ IsReply msg) : NoReply w.net.stack := by
  have hnested := h.nested
  rw [hs] at hnested ⊢
  intro msg hmem
  cases List.mem_cons.mp hmem with
  | inl heq => exact hf msg heq.symm
  | inr hmem => exact hnested.2.2.1 msg hmem

/-- Then every answer that was read for a waiting call is in the map. -/
theorem Inv.mem_cookieMap (h : Inv w) (hquiet : NoReply w.net.stack) {k : I32}
    (hk : k ∈ replyIds w.net.received) (hwait : .wait k ∈ w.net.stack) : k ∈ w.net.cookieMap := by
  cases h.got k hk hwait with
  | inl hmem => exact hmem
  | inr hframe =>
      obtain ⟨msg, calls, hs, hreply, -⟩ := hframe
      exact absurd hreply (hquiet msg (hs ▸ List.mem_cons_self))

/-! ### The functions of the dispatcher -/

/-- A call that neither waits nor dispatches an answer starts. -/
theorem Inv.push (h : Inv w) (hquiet : NoReply w.net.stack) {f : Frame}
    (hwait : ∀ reqId, f ≠ .wait reqId) (hdrain : ∀ fd, f = .drain fd → ¬ Waiting w.net)
    (hf : ∀ msg, f = .dispatchMsg msg → ¬ IsReply msg) (posted : ℕ) (dispatched : List Message) :
    Inv { w with net := push { w.net with posted, dispatched } f } where
  flag := by
    refine h.flag.trans ?_
    constructor
    · intro hw
      obtain ⟨k, hk⟩ := hw
      exact ⟨k, List.mem_cons_of_mem f hk⟩
    · intro hw
      obtain ⟨k, hk⟩ := hw
      exact ⟨k, (List.mem_cons.mp hk).resolve_left (hwait k).symm⟩
  nested := ⟨fun k hk => absurd hk (hwait k), fun fd hfd j hj => hdrain fd hfd ⟨j, hj⟩, hquiet,
    h.nested⟩
  sorted := h.sorted
  ids := h.ids
  asked k hk := h.asked k ((List.mem_cons.mp hk).resolve_left (hwait k).symm)
  bound := h.bound
  replies := h.replies
  done k hk hnot := h.done k hk fun hmem => hnot (List.mem_cons_of_mem f hmem)
  kept k hk := List.mem_cons_of_mem f (h.kept k hk)
  got k hk hmem :=
    Or.inl (h.mem_cookieMap hquiet hk ((List.mem_cons.mp hmem).resolve_left (hwait k).symm))
  frames msg hmem hreply := by
    cases List.mem_cons.mp hmem with
    | inl heq => exact absurd hreply (hf msg heq.symm)
    | inr hmem => exact absurd hreply (hquiet msg hmem)
  queued := h.queued
  content := h.content
  returned := h.returned

/-- A call that neither waits nor dispatches an answer returns. -/
theorem Inv.pop {f : Frame} (h : Inv w) (hs : w.net.stack = f :: calls)
    (hwait : ∀ reqId, f ≠ .wait reqId) (hf : ∀ msg, f = .dispatchMsg msg → ¬ IsReply msg) :
    Inv { w with net := pop w.net } := by
  have hquiet := h.noReply hs hf
  have hiff : ∀ k, .wait k ∈ w.net.stack ↔ .wait k ∈ calls := by
    intro k
    rw [hs, List.mem_cons]
    exact or_iff_right (hwait k).symm
  have hstack : (Dispatch.pop w.net).stack = calls := by rw [Dispatch.pop, hs, List.tail_cons]
  have hnested := h.nested
  rw [hs] at hnested
  refine ⟨?flag, ?nested, h.sorted, h.ids, ?asked, h.bound, h.replies, ?done, ?kept, ?got, ?frames,
    h.queued, h.content, h.returned⟩
  case flag =>
    rw [Waiting, hstack]
    simp only [← hiff]
    exact h.flag
  case nested =>
    rw [hstack]
    exact hnested.2.2.2
  case asked =>
    intro k hk
    rw [hstack, ← hiff] at hk
    exact h.asked k hk
  case done =>
    intro k hk hnot
    rw [hstack, ← hiff] at hnot
    exact h.done k hk hnot
  case kept =>
    intro k hk
    rw [hstack, ← hiff]
    exact h.kept k hk
  case got =>
    intro k hk hmem
    rw [hstack, ← hiff] at hmem
    exact Or.inl (h.mem_cookieMap hquiet hk hmem)
  case frames =>
    intro msg hmem hreply
    rw [hstack] at hmem
    exact absurd hreply (hnested.2.2.1 msg hmem)

/-- A call of `activated`, whether or not it was a queued one. -/
theorem Inv.activated (h : Inv w) (hquiet : NoReply w.net.stack) (fd : Activation) (posted : ℕ) :
    Inv { w with net := Dispatch.activated { w.net with posted } fd } := by
  have hposted : Inv { w with net := { w.net with posted } } :=
    ⟨h.flag, h.nested, h.sorted, h.ids, h.asked, h.bound, h.replies, h.done, h.kept, h.got,
      h.frames, h.queued, h.content, h.returned⟩
  rw [Dispatch.activated]
  split
  · rename_i hflag
    apply h.push hquiet
    · intro reqId heq
      cases heq
    · intro _ _ hw
      exact Bool.false_ne_true (hflag.symm.trans (h.flag.mpr hw))
    · intro msg heq
      cases heq
  · split
    · apply h.push hquiet <;> simp
    · exact hposted

/-- One round of the loop over the queue. Nothing waits below it. -/
theorem Inv.drainNext {fd : Activation} (h : Inv w) (hs : w.net.stack = .drain fd :: calls) :
    Inv { w with net := drainNext w.net fd } := by
  have hquiet := h.noReply hs (by simp)
  rw [Dispatch.drainNext]
  cases hq : w.net.msgQueue with
  | nil =>
      have hpop := h.pop hs (by simp) (by simp)
      dsimp only
      split
      · have hsub : NoReply (Dispatch.pop w.net).stack := by
          intro msg hmem
          exact hquiet msg (List.mem_of_mem_tail hmem)
        exact hpop.push hsub (by simp) (by simp) (by simp) w.net.posted w.net.dispatched
      · exact hpop
  | cons msg rest =>
      have hother : ¬ IsReply msg := h.queued msg (hq ▸ List.mem_cons_self)
      have hpush := h.push hquiet (f := .dispatchMsg msg) (by simp) (by simp)
        (by simpa using hother) w.net.posted (w.net.dispatched ++ [msg])
      refine ⟨hpush.flag, hpush.nested, h.sorted, h.ids, hpush.asked, h.bound,
          h.replies, hpush.done,
        hpush.kept, hpush.got, hpush.frames, ?_, h.content, h.returned⟩
      intro m hm
      exact h.queued m (hq ▸ List.mem_cons_of_mem msg hm)

/-- Reading a message that is no answer. -/
theorem Inv.receive {msg : Message} {rest : List Message} (h : Inv w)
    (hu : w.net.unread = msg :: rest) (hother : ¬ IsReply msg) :
    Inv { w with net := { w.net with unread := rest, received := w.net.received ++ [msg] } } := by
  have hids : replyIds (w.net.received ++ [msg]) = replyIds w.net.received := by
    rw [replyIds_append, replyIds_other hother, List.append_nil]
  have hsub : w.net.received ⊆ w.net.received ++ [msg] := List.subset_append_left _ _
  refine ⟨h.flag, h.nested, h.sorted, h.ids, h.asked, h.bound, ?replies, ?done, h.kept, ?got,
    ?frames, h.queued, ?content, ?returned⟩
  case replies =>
    have hreplies := h.replies
    rw [hu] at hreplies
    dsimp only
    rw [List.append_assoc]
    exact hreplies
  case done =>
    intro k hk hnot
    exact hids.symm ▸ h.done k hk hnot
  case got =>
    intro k hk hmem
    exact h.got k (hids ▸ hk) hmem
  case frames =>
    intro m hm hreply
    obtain ⟨hreceived, hwait⟩ := h.frames m hm hreply
    exact ⟨hsub hreceived, hwait⟩
  case content =>
    intro k b hb
    obtain ⟨m, hm, hrest⟩ := h.content k b hb
    exact ⟨m, hsub hm, hrest⟩
  case returned =>
    intro r hr
    obtain ⟨m, hm, hrest⟩ := h.returned r hr
    exact ⟨m, hsub hm, hrest⟩

/-- The answer that comes next belongs to a call that waits. -/
theorem Inv.waits_for {msg : Message} {rest : List Message} (h : Inv w)
    (hu : w.net.unread = msg :: rest) (hreply : IsReply msg) :
    .wait msg.msgValue ∈ w.net.stack := by
  have hall : replyIds (w.net.received ++ w.net.unread) =
      replyIds w.net.received ++ msg.msgValue :: replyIds rest := by
    rw [hu, replyIds_append, ← List.singleton_append, replyIds_append, replyIds_reply hreply]
    rfl
  have hfresh : msg.msgValue ∉ replyIds w.net.received := by
    have hnodup := h.nodup
    rw [hall] at hnodup
    intro hmem
    exact List.disjoint_of_nodup_append hnodup hmem List.mem_cons_self
  have hasked : msg.msgValue ∈ w.requests := by
    have hreplies := h.replies
    rw [hall] at hreplies
    apply List.mem_of_mem_take
    rw [← hreplies]
    exact List.mem_append_right _ List.mem_cons_self
  by_contra hnot
  exact hfresh (h.done _ hasked hnot)

/-- Reading an answer, which is dispatched at once. -/
theorem Inv.receiveReply {msg : Message} {rest : List Message} (h : Inv w)
    (hquiet : NoReply w.net.stack) (hu : w.net.unread = msg :: rest) (hreply : IsReply msg) :
    Inv { w with
      net := dispatch { w.net with unread := rest, received := w.net.received ++ [msg] } msg } := by
  have hwait := h.waits_for hu hreply
  have hsub : w.net.received ⊆ w.net.received ++ [msg] := List.subset_append_left _ _
  have hiff : ∀ k, .wait k ∈ Frame.dispatchMsg msg :: w.net.stack ↔ .wait k ∈ w.net.stack := by
    intro k
    simp
  refine ⟨?flag, ⟨by simp, by simp, hquiet, h.nested⟩, h.sorted, h.ids, ?asked, h.bound, ?replies,
    ?done, ?kept, ?got, ?frames, h.queued, ?content, ?returned⟩
  case flag =>
    refine h.flag.trans ?_
    simp only [Waiting, dispatch, Dispatch.push, hiff]
  case asked =>
    intro k hk
    exact h.asked k ((hiff k).mp hk)
  case replies =>
    have hreplies := h.replies
    rw [hu] at hreplies
    simp only [dispatch, Dispatch.push]
    rw [List.append_assoc]
    exact hreplies
  case done =>
    intro k hk hnot
    have hmem := h.done k hk fun hwaits => hnot ((hiff k).mpr hwaits)
    simp only [dispatch, Dispatch.push]
    rw [replyIds_append]
    exact List.mem_append_left _ hmem
  case kept =>
    intro k hk
    exact (hiff k).mpr (h.kept k hk)
  case got =>
    intro k hk hmem
    simp only [dispatch, Dispatch.push] at hk
    rw [replyIds_append, replyIds_reply hreply] at hk
    cases List.mem_append.mp hk with
    | inl hk => exact Or.inl (h.mem_cookieMap hquiet hk ((hiff k).mp hmem))
    | inr hk => exact Or.inr ⟨msg, _, rfl, hreply, (List.mem_singleton.mp hk).symm⟩
  case frames =>
    intro m hm hm'
    cases List.mem_cons.mp hm with
    | inl heq =>
        cases heq
        exact ⟨List.mem_append_right _ (List.mem_singleton_self msg), (hiff _).mpr hwait⟩
    | inr hm => exact absurd hm' (hquiet m hm)
  case content =>
    intro k b hb
    obtain ⟨m, hm, hrest⟩ := h.content k b hb
    exact ⟨m, hsub hm, hrest⟩
  case returned =>
    intro r hr
    obtain ⟨m, hm, hrest⟩ := h.returned r hr
    exact ⟨m, hsub hm, hrest⟩

theorem passes_of_isReply {msg : Message} (h : IsReply msg) :
    Component.opNetwork.passes msg = true := by
  rw [IsReply] at h
  simp [Component.passes, Component.cookieReply, h]

/-- One round of the loop over the pipe. -/
theorem Inv.readNext (h : Inv w) (hs : w.net.stack = .read :: calls) :
    Inv { w with net := readNext .opNetwork w.net } := by
  have hquiet := h.noReply hs (by simp)
  rw [Dispatch.readNext]
  cases hu : w.net.unread with
  | nil => exact h.pop hs (by simp) (by simp)
  | cons msg rest =>
      dsimp only
      by_cases hreply : IsReply msg
      · rw [passes_of_isReply hreply, Bool.not_true, Bool.and_false, if_neg Bool.false_ne_true]
        exact h.receiveReply hquiet hu hreply
      · have hread := h.receive hu hreply
        split
        · refine ⟨hread.flag, hread.nested, hread.sorted, hread.ids, hread.asked, hread.bound,
            hread.replies, hread.done, hread.kept, hread.got, hread.frames, ?_, hread.content,
            hread.returned⟩
          intro m hm
          cases List.mem_append.mp hm with
          | inl hm => exact h.queued m hm
          | inr hm => exact List.mem_singleton.mp hm ▸ hreply
        · exact hread.push hquiet (by simp) (by simp) (by simpa using hreply) w.net.posted
            (w.net.dispatched ++ [msg])

/-- The end of `dispatchMsg`: an answer goes into the map. -/
theorem Inv.finish {msg : Message} (h : Inv w) (hs : w.net.stack = .dispatchMsg msg :: calls) :
    Inv { w with net := finish .opNetwork w.net msg } := by
  rw [Dispatch.finish]
  split
  swap
  · rename_i hother
    apply h.pop hs
    · intro reqId heq
      cases heq
    · intro m heq
      cases heq
      exact hother
  · rename_i hreply
    obtain ⟨hreceived, hwaits⟩ := h.frames msg (hs ▸ List.mem_cons_self) hreply
    have hnested := h.nested
    rw [hs] at hnested
    have hiff : ∀ k, .wait k ∈ w.net.stack ↔ .wait k ∈ calls := by
      intro k
      rw [hs]
      simp
    have hstack : ∀ m : OrdMap I32 Bytes,
        (Dispatch.pop { w.net with cookieMap := m }).stack = calls := by
      intro m
      rw [Dispatch.pop, hs, List.tail_cons]
    refine ⟨?flag, ?nested, h.sorted, h.ids, ?asked, h.bound, h.replies, ?done, ?kept, ?got,
      ?frames, h.queued, ?content, h.returned⟩
    case flag =>
      rw [Waiting, hstack]
      simp only [← hiff]
      exact h.flag
    case nested =>
      rw [hstack]
      exact hnested.2.2.2
    case asked =>
      intro k hk
      rw [hstack, ← hiff] at hk
      exact h.asked k hk
    case done =>
      intro k hk hnot
      rw [hstack, ← hiff] at hnot
      exact h.done k hk hnot
    case kept =>
      intro k hk
      rw [hstack, ← hiff]
      cases OrdMap.mem_insert.mp hk with
      | inl heq => exact heq ▸ hwaits
      | inr hk => exact h.kept k hk
    case got =>
      intro k hk hmem
      rw [hstack, ← hiff] at hmem
      apply Or.inl
      apply OrdMap.mem_insert.mpr
      cases h.got k hk hmem with
      | inl hk => exact Or.inr hk
      | inr hframe =>
          obtain ⟨m, calls', hs', -, hvalue⟩ := hframe
          have heq : msg = m := Frame.dispatchMsg.inj (List.cons.inj (hs.symm.trans hs')).1
          exact Or.inl (heq ▸ hvalue)
    case frames =>
      intro m hm hm'
      rw [hstack] at hm
      exact absurd hm' (hnested.2.2.1 m hm)
    case content =>
      intro k b hb
      change (w.net.cookieMap.insert msg.msgValue msg.payload.data)[k]? = some b at hb
      rw [OrdMap.getElem?_insert] at hb
      split at hb
      · rename_i heq
        exact ⟨msg, hreceived, hreply, heq, Option.some.inj hb⟩
      · exact h.content k b hb

/-- A call of `cookiesForUrl` up to its loop. Its id is larger than all before. -/
theorem Inv.ask (h : Inv w) (hquiet : NoReply w.net.stack) : Inv (ask w) := by
  have hquiet' : NoReply (.wait w.net.reqId :: w.net.stack) := by
    intro msg hmem
    exact hquiet msg ((List.mem_cons.mp hmem).resolve_left (by simp))
  have hwait : Inv { w with
      net := Dispatch.push { w.net with reqId := w.net.reqId + 1, waitForReply := true }
        (.wait w.net.reqId)
      requests := w.requests ++ [w.net.reqId] } := by
    refine ⟨?flag, ⟨?order, by simp, hquiet, h.nested⟩, ?sorted, ?ids, ?asked, ?bound, ?replies,
      ?done, ?kept, ?got, ?frames, h.queued, h.content, h.returned⟩
    case flag => exact iff_of_true rfl ⟨w.net.reqId, List.mem_cons_self⟩
    case order =>
      intro reqId heq j hj
      cases heq
      exact h.ids j (h.asked j hj)
    case sorted =>
      apply List.pairwise_append.mpr
      refine ⟨h.sorted, List.pairwise_singleton _ _, ?_⟩
      intro k hk j hj
      exact List.mem_singleton.mp hj ▸ h.ids k hk
    case ids =>
      intro k hk
      cases List.mem_append.mp hk with
      | inl hk => exact (h.ids k hk).trans (Int.lt_succ _)
      | inr hk => exact List.mem_singleton.mp hk ▸ Int.lt_succ _
    case asked =>
      intro k hk
      cases List.mem_cons.mp hk with
      | inl heq =>
          cases heq
          exact List.mem_append_right _ (List.mem_singleton_self _)
      | inr hk => exact List.mem_append_left _ (h.asked k hk)
    case bound =>
      rw [List.length_append]
      exact h.bound.trans (Nat.le_add_right _ _)
    case replies =>
      rw [List.take_append_of_le_length h.bound]
      exact h.replies
    case done =>
      intro k hk hnot
      cases List.mem_append.mp hk with
      | inl hk => exact h.done k hk fun hmem => hnot (List.mem_cons_of_mem _ hmem)
      | inr hk =>
          rw [List.mem_singleton.mp hk] at hnot
          exact absurd List.mem_cons_self hnot
    case kept =>
      intro k hk
      exact List.mem_cons_of_mem _ (h.kept k hk)
    case got =>
      intro k hk hmem
      cases List.mem_cons.mp hmem with
      | inr hmem => exact Or.inl (h.mem_cookieMap hquiet hk hmem)
      | inl heq =>
          cases heq
          -- the id is new, so no answer to it was read
          exact absurd (h.ids _ (h.firstAnswers.mem hk)) (lt_irrefl _)
    case frames =>
      intro msg hmem hreply
      exact absurd hreply (hquiet' msg hmem)
  exact hwait.activated hquiet' .readFd w.net.posted

/-- An earlier request than one that was answered was answered, too. -/
theorem mem_of_lt {l p : List I32} (hl : l.Pairwise (· < ·)) (hp : p <+: l) {j k : I32}
    (hk : k ∈ p) (hj : j ∈ l) (hlt : j < k) : j ∈ p := by
  obtain ⟨r, rfl⟩ := hp
  cases List.mem_append.mp hj with
  | inl hj => exact hj
  | inr hj =>
      have hlater := (List.pairwise_append.mp hl).2.2 k hk j hj
      exact absurd hlt (lt_asymm hlater)

/-- The end of a wait. The calls below it have earlier ids, so if there is one its answer
is in the map and the flag stays set. -/
theorem Inv.reply {k : I32} {b : Bytes} (h : Inv w) (hs : w.net.stack = .wait k :: calls)
    (hb : w.net.cookieMap[k]? = some b) : Inv (OpNetwork.reply w k b) := by
  have hquiet := h.noReply hs (by simp)
  have hnested := h.nested
  rw [hs] at hnested
  have hmem : ∀ j, .wait j ∈ w.net.stack ↔ j = k ∨ .wait j ∈ calls := by
    intro j
    rw [hs, List.mem_cons, Frame.wait.injEq]
  obtain ⟨msg, hmsg, hreply, hvalue, hdata⟩ := h.content k b hb
  have hk : k ∈ replyIds w.net.received := mem_replyIds.mpr ⟨msg, hmsg, hreply, hvalue⟩
  have hbelow : ∀ j, .wait j ∈ calls → j < k := hnested.1 k rfl
  have hrest : ∀ j, .wait j ∈ calls → j ∈ w.net.cookieMap.erase k := by
    intro j hj
    have hwait := (hmem j).mpr (Or.inr hj)
    have hj' := mem_of_lt h.sorted h.firstAnswers hk (h.asked j hwait) (hbelow j hj)
    exact OrdMap.mem_erase.mpr ⟨(ne_of_lt (hbelow j hj)).symm, h.mem_cookieMap hquiet hj' hwait⟩
  have hkept : ∀ j ∈ w.net.cookieMap.erase k, .wait j ∈ calls := by
    intro j hj
    obtain ⟨hne, hj⟩ := OrdMap.mem_erase.mp hj
    exact ((hmem j).mp (h.kept j hj)).resolve_left hne.symm
  have hstack : (OpNetwork.reply w k b).net.stack = calls := by
    rw [OpNetwork.reply, replied, Dispatch.pop, hs, List.tail_cons]
  refine ⟨?flag, ?nested, h.sorted, h.ids, ?asked, h.bound, h.replies, ?done, ?kept, ?got, ?frames,
    h.queued, ?content, ?returned⟩
  case flag =>
    have hflag : w.net.waitForReply = true := h.flag.mpr ⟨k, (hmem k).mpr (Or.inl rfl)⟩
    change (w.net.waitForReply && !(w.net.cookieMap.erase k).isEmpty) = true ↔ _
    rw [hflag, Bool.true_and, Bool.not_eq_true', Waiting, hstack]
    constructor
    · intro hne
      obtain ⟨j, hj⟩ := OrdMap.exists_mem hne
      exact ⟨j, hkept j hj⟩
    · intro hwait
      obtain ⟨j, hj⟩ := hwait
      exact OrdMap.isEmpty_eq_false (hrest j hj)
  case nested =>
    rw [hstack]
    exact hnested.2.2.2
  case asked =>
    intro j hj
    rw [hstack] at hj
    exact h.asked j ((hmem j).mpr (Or.inr hj))
  case done =>
    intro j hj hnot
    rw [hstack] at hnot
    by_cases heq : j = k
    · exact heq ▸ hk
    · exact h.done j hj fun hwait => hnot (((hmem j).mp hwait).resolve_left heq)
  case kept =>
    intro j hj
    rw [hstack]
    exact hkept j hj
  case got =>
    intro j _ hj
    rw [hstack] at hj
    exact Or.inl (hrest j hj)
  case frames =>
    intro m hm hm'
    rw [hstack] at hm
    exact absurd hm' (hnested.2.2.1 m hm)
  case content =>
    intro j b' hb'
    change (w.net.cookieMap.erase k)[j]? = some b' at hb'
    rw [OrdMap.getElem?_erase] at hb'
    split at hb'
    · cases hb'
    · exact h.content j b' hb'
  case returned =>
    intro r hr
    cases List.mem_append.mp hr with
    | inl hr => exact h.returned r hr
    | inr hr => exact List.mem_singleton.mp hr ▸ ⟨msg, hmsg, hreply, hvalue, hdata⟩

/-! ### Steps -/

theorem Inv.noReply_of_looping (h : Inv w) (hl : looping w.net = true) : NoReply w.net.stack := by
  rw [looping] at hl
  split at hl
  · rename_i hs
    intro msg hmem
    rw [hs] at hmem
    cases hmem
  · rename_i hs
    exact h.noReply hs (by simp)
  · cases hl

theorem Inv.advance (h : Inv w) : Inv (advance w) := by
  rw [OpNetwork.advance]
  cases hs : w.net.stack with
  | nil =>
      dsimp only
      rw [Dispatch.advance, hs]
      exact h
  | cons f calls =>
      cases f with
      | wait k =>
          dsimp only
          cases hb : w.net.cookieMap[k]? with
          | none => exact h
          | some b => exact h.reply hs hb
      | drain fd =>
          dsimp only
          rw [Dispatch.advance, hs]
          exact h.drainNext hs
      | read =>
          dsimp only
          rw [Dispatch.advance, hs]
          exact h.readNext hs
      | dispatchMsg msg =>
          dsimp only
          rw [Dispatch.advance, hs]
          exact h.finish hs

/-- A message arrives. If it is an answer, it is the one that comes next. -/
theorem Inv.arrive (h : Inv w) (msg : Message) (hnext : Answers w (.own (.arrive msg))) :
    Inv (step w (.own (.arrive msg))) := by
  refine ⟨h.flag, h.nested, h.sorted, h.ids, h.asked, ?bound, ?replies, h.done, h.kept, h.got,
    h.frames, h.queued, h.content, h.returned⟩
  case bound =>
    rw [step]
    dsimp only
    split
    · rename_i hreply
      have hsome := hnext hreply
      exact (List.getElem?_eq_some_iff.mp hsome).1
    · exact h.bound
  case replies =>
    change replyIds (w.net.received ++ (w.net.unread ++ [msg])) =
      w.requests.take (if IsReply msg then w.answered + 1 else w.answered)
    rw [← List.append_assoc, replyIds_append, h.replies]
    split
    · rename_i hreply
      rw [replyIds_reply hreply, List.take_add_one, hnext hreply]
      rfl
    · rename_i hother
      rw [replyIds_other hother, List.append_nil]

theorem Inv.step (h : Inv w) (e : Event) (hanswers : Answers w e) : Inv (step w e) := by
  cases e with
  | createRequest =>
      refine ⟨h.flag, h.nested, h.sorted, ?_, h.asked, h.bound, h.replies, h.done, h.kept, h.got,
        h.frames, h.queued, h.content, h.returned⟩
      intro k hk
      exact (h.ids k hk).trans (Int.lt_succ _)
  | script =>
      rw [OpNetwork.step]
      split
      · rename_i hl
        exact h.ask (h.noReply_of_looping hl)
      · exact h
  | own a =>
      cases a with
      | advance => exact h.advance
      | arrive msg => exact h.arrive msg hanswers
      | ask =>
          rw [OpNetwork.step]
          split
          · rename_i hs
            split
            · exact h
            · rename_i hother
              apply h.ask
              apply h.noReply hs
              intro m heq
              cases heq
              exact hother
          · exact h
      | notify =>
          change Inv { w with net := Dispatch.step .opNetwork w.net .notify }
          rw [Dispatch.step]
          split
          · rename_i hl
            exact h.activated (h.noReply_of_looping hl) .readFd w.net.posted
          · exact h
      | callQueued =>
          change Inv { w with net := Dispatch.step .opNetwork w.net .callQueued }
          rw [Dispatch.step]
          split
          · rename_i hl
            have hl : looping w.net = true := by
              simp only [Bool.and_eq_true] at hl
              exact hl.1
            exact h.activated (h.noReply_of_looping hl) .queued (w.net.posted - 1)
          · exact h

/-! ### What is dispatched -/

theorem dispatched_activated (s : State) (fd : Activation) :
    (Dispatch.activated s fd).dispatched = s.dispatched := by
  rw [Dispatch.activated]
  split
  · rfl
  · split <;> rfl

/-- The event loop dispatches nothing by itself. -/
theorem dispatched_step_signal {s : State} {a : Dispatch.Action}
    (ha : a = .notify ∨ a = .callQueued) :
    (Dispatch.step .opNetwork s a).dispatched = s.dispatched := by
  rcases ha with rfl | rfl
  all_goals
    rw [Dispatch.step]
    split
    · rw [dispatched_activated]
    · rfl

theorem ne_append_singleton (l : List Message) (msg : Message) : l ≠ l ++ [msg] := by
  intro heq
  simpa using congrArg List.length heq

theorem dispatched_finish (s : State) (msg : Message) :
    (Dispatch.finish .opNetwork s msg).dispatched = s.dispatched := by
  rw [Dispatch.finish]
  split <;> rfl

/-- While a call waits, the loop over the pipe dispatches only what passes, and the loop
over the queue does not run. -/
theorem Inv.passes_of_advance {msg : Message} (h : Inv w) (hw : Waiting w.net)
    (hd : (OpNetwork.advance w).net.dispatched = w.net.dispatched ++ [msg]) :
    Component.opNetwork.passes msg = true := by
  have hflag := h.flag.mpr hw
  rw [OpNetwork.advance] at hd
  cases hs : w.net.stack with
  | nil =>
      rw [hs] at hd
      dsimp only at hd
      rw [Dispatch.advance, hs] at hd
      exact absurd hd (ne_append_singleton _ msg)
  | cons f calls =>
      rw [hs] at hd
      cases f with
      | wait k =>
          dsimp only at hd
          split at hd
          · exact absurd hd (ne_append_singleton _ msg)
          · exact absurd hd (ne_append_singleton _ msg)
      | drain fd =>
          obtain ⟨k, hk⟩ := hw
          have hnested := h.nested
          rw [hs] at hnested hk
          exact absurd ((List.mem_cons.mp hk).resolve_left (by simp)) (hnested.2.1 fd rfl k)
      | read =>
          dsimp only at hd
          rw [Dispatch.advance, hs] at hd
          dsimp only at hd
          rw [Dispatch.readNext] at hd
          cases hu : w.net.unread with
          | nil =>
              rw [hu] at hd
              exact absurd hd (ne_append_singleton _ msg)
          | cons m rest =>
              rw [hu, hflag] at hd
              dsimp only at hd
              rw [Bool.true_and] at hd
              split at hd
              · exact absurd hd (ne_append_singleton _ msg)
              · rename_i hpass
                have heq : [m] = [msg] := List.append_cancel_left hd
                rw [← List.singleton_injective heq]
                simpa using hpass
      | dispatchMsg m =>
          dsimp only at hd
          rw [Dispatch.advance, hs] at hd
          exact absurd ((dispatched_finish w.net m).symm.trans hd) (ne_append_singleton _ msg)

theorem Inv.passes_of_step {msg : Message} (h : Inv w) (e : Event) (hw : Waiting w.net)
    (hd : (OpNetwork.step w e).net.dispatched = w.net.dispatched ++ [msg]) :
    Component.opNetwork.passes msg = true := by
  have hsame : ∀ w' : OpNetwork, w'.net.dispatched = w.net.dispatched →
      w'.net.dispatched ≠ w.net.dispatched ++ [msg] := by
    intro w' heq
    rw [heq]
    exact ne_append_singleton _ msg
  have hask : (OpNetwork.ask w).net.dispatched = w.net.dispatched := dispatched_activated _ _
  cases e with
  | createRequest => exact absurd hd (hsame _ rfl)
  | script =>
      rw [OpNetwork.step] at hd
      split at hd
      · exact absurd hd (hsame _ hask)
      · exact absurd hd (hsame _ rfl)
  | own a =>
      cases a with
      | advance => exact h.passes_of_advance hw hd
      | arrive m => exact absurd hd (hsame { w with net := w.net } rfl)
      | ask =>
          rw [OpNetwork.step] at hd
          split at hd
          · split at hd
            · exact absurd hd (hsame _ rfl)
            · exact absurd hd (hsame _ hask)
          · exact absurd hd (hsame _ rfl)
      | notify => exact absurd hd (hsame { w with net := _ } (dispatched_step_signal (.inl rfl)))
      | callQueued =>
          exact absurd hd (hsame { w with net := _ } (dispatched_step_signal (.inr rfl)))

/-! ### Every request is returned once -/

theorem waiting_activated (s : State) (fd : Activation) :
    waiting (Dispatch.activated s fd) = waiting s := by
  rw [Dispatch.activated]
  split
  · rfl
  · split <;> rfl

theorem waiting_pop {s : State} {f : Frame} (hs : s.stack = f :: calls)
    (hf : ∀ reqId, f ≠ .wait reqId) :
    waiting (Dispatch.pop s) = waiting s := by
  rw [waiting, Dispatch.pop, waiting, hs]
  cases f with
  | wait reqId => exact absurd rfl (hf reqId)
  | _ => rfl

theorem waiting_drainNext {s : State} {fd : Activation} (hs : s.stack = .drain fd :: calls) :
    waiting (Dispatch.drainNext s fd) = waiting s := by
  have hpop := waiting_pop hs (by simp)
  rw [Dispatch.drainNext]
  split
  · rfl
  · split
    · exact hpop
    · exact hpop

theorem waiting_readNext {s : State} (hs : s.stack = .read :: calls) :
    waiting (Dispatch.readNext .opNetwork s) = waiting s := by
  rw [Dispatch.readNext]
  split
  · dsimp only
    split <;> rfl
  · exact waiting_pop hs (by simp)

theorem waiting_finish {s : State} {msg : Message} (hs : s.stack = .dispatchMsg msg :: calls) :
    waiting (Dispatch.finish .opNetwork s msg) = waiting s := by
  have hpop : ∀ cookieMap, waiting (Dispatch.pop { s with cookieMap }) = waiting s :=
    fun cookieMap => waiting_pop (s := { s with cookieMap }) hs (by simp)
  rw [Dispatch.finish]
  split
  · exact hpop _
  · exact hpop s.cookieMap

/-- Each request waits or was returned, and not twice. -/
def Accounted (w : OpNetwork) : Prop := (w.returned.map Prod.fst ++ waiting w.net).Perm w.requests

theorem Accounted.congr {w' : OpNetwork} (h : Accounted w) (hreturned : w'.returned = w.returned)
    (hwaiting : waiting w'.net = waiting w.net) (hrequests : w'.requests = w.requests) :
    Accounted w' := by
  rw [Accounted, hreturned, hwaiting, hrequests]
  exact h

theorem Accounted.ask (h : Accounted w) : Accounted (OpNetwork.ask w) := by
  have hwaiting : waiting (cookiesForUrl w.net) = w.net.reqId :: waiting w.net :=
    waiting_activated _ _
  change (w.returned.map Prod.fst ++ waiting (cookiesForUrl w.net)).Perm (w.requests ++
    [w.net.reqId])
  rw [hwaiting]
  exact List.perm_middle.trans ((h.cons _).trans (List.perm_append_singleton _ _).symm)

theorem Accounted.reply {k : I32} {b : Bytes} (h : Accounted w)
    (hs : w.net.stack = .wait k :: calls) :
    Accounted (OpNetwork.reply w k b) := by
  have hwaiting : waiting w.net = k :: waiting (OpNetwork.reply w k b).net := by
    rw [waiting, hs, OpNetwork.reply, replied, waiting, Dispatch.pop, hs]
    rfl
  rw [Accounted, hwaiting] at h
  change ((w.returned ++ [(k, b)]).map Prod.fst ++ waiting _).Perm w.requests
  rw [List.map_append, List.map_singleton, List.append_assoc, List.singleton_append]
  exact h

theorem Accounted.advance (h : Accounted w) : Accounted (OpNetwork.advance w) := by
  rw [OpNetwork.advance]
  cases hs : w.net.stack with
  | nil =>
      dsimp only
      rw [Dispatch.advance, hs]
      exact h
  | cons f calls =>
      cases f with
      | wait k =>
          dsimp only
          cases hb : w.net.cookieMap[k]? with
          | none => exact h
          | some b => exact h.reply hs
      | drain fd =>
          dsimp only
          rw [Dispatch.advance, hs]
          exact h.congr rfl (waiting_drainNext hs) rfl
      | read =>
          dsimp only
          rw [Dispatch.advance, hs]
          exact h.congr rfl (waiting_readNext hs) rfl
      | dispatchMsg msg =>
          dsimp only
          rw [Dispatch.advance, hs]
          exact h.congr rfl (waiting_finish hs) rfl

theorem Accounted.step (h : Accounted w) (e : Event) : Accounted (OpNetwork.step w e) := by
  cases e with
  | createRequest => exact h
  | script =>
      rw [OpNetwork.step]
      split
      · exact h.ask
      · exact h
  | own a =>
      cases a with
      | advance => exact h.advance
      | arrive msg => exact h
      | ask =>
          rw [OpNetwork.step]
          split
          · split
            · exact h
            · exact h.ask
          · exact h
      | notify =>
          refine h.congr rfl ?_ rfl
          change waiting (Dispatch.step .opNetwork w.net .notify) = _
          rw [Dispatch.step]
          split
          · exact waiting_activated _ _
          · rfl
      | callQueued =>
          refine h.congr rfl ?_ rfl
          change waiting (Dispatch.step .opNetwork w.net .callQueued) = _
          rw [Dispatch.step]
          split
          · exact waiting_activated _ _
          · rfl

/-! ### Runs -/

/-- Two answers with one id are the same message. -/
theorem Inv.reply_unique (h : Inv w) {m m' : Message} (hm : m ∈ w.net.received)
    (hm' : m' ∈ w.net.received) (hreply : IsReply m) (hreply' : IsReply m')
    (heq : m.msgValue = m'.msgValue) : m = m' := by
  have hnodup := h.nodup
  rw [replyIds_append] at hnodup
  exact List.inj_on_of_nodup_map hnodup.of_append_left
    (List.mem_filter.mpr ⟨hm, decide_eq_true hreply⟩)
    (List.mem_filter.mpr ⟨hm', decide_eq_true hreply'⟩) heq

/-- The innermost call returns when its answer is there. -/
theorem Inv.returns (h : Inv w) {k : I32} {b : Bytes} (hs : w.net.stack = .wait k :: calls)
    (hb : w.net.cookieMap[k]? = some b) :
    (OpNetwork.step w (.own .advance)).returned = w.returned ++ [(k, b)] ∧
      (OpNetwork.step w (.own .advance)).net.stack = calls ∧
      ((OpNetwork.step w (.own .advance)).net.waitForReply = false ↔ ∀ j, .wait j ∉ calls) := by
  have hstep : OpNetwork.step w (.own .advance) = OpNetwork.reply w k b := by
    rw [OpNetwork.step, OpNetwork.advance, hs]
    dsimp only
    rw [hb]
  have hstack : (OpNetwork.reply w k b).net.stack = calls := by
    rw [OpNetwork.reply, replied, Dispatch.pop, hs, List.tail_cons]
  have hflag := (h.reply hs hb).flag
  rw [hstep, ← Bool.not_eq_true, hflag, Waiting, hstack]
  exact ⟨rfl, rfl, not_exists⟩

theorem Inv.waits (h : Inv w) (haccounted : Accounted w) : Waits w where
  flag := h.flag
  assertion k calls hs _ := h.flag.mpr ⟨k, hs ▸ List.mem_cons_self⟩
  quiet e msg hd hw := by
    have hpass := h.passes_of_step e hw hd
    have htype : msg.msgType = msgDomCookieGetReturn ∨ msg.msgType = msgWebappMsg := by
      rw [Component.passes, Bool.or_eq_true] at hpass
      exact hpass.imp of_decide_eq_true of_decide_eq_true
    refine ⟨?_, ?_, ?_⟩ <;> intro heq <;> rw [heq] at htype <;> exact absurd htype (by decide)
  returned r hr := by
    obtain ⟨msg, hmsg, hreply, hvalue, hdata⟩ := h.returned r hr
    refine ⟨⟨msg, hmsg, hreply, hvalue⟩, ?_⟩
    intro m hm hreply' hvalue'
    rw [h.reply_unique hm hmsg hreply' hreply (hvalue'.trans hvalue.symm), hdata]
  returns _ _ _ hs hb := h.returns hs hb
  distinct := h.sorted.imp fun hlt => ne_of_lt hlt
  once := haccounted

/-- **Nested waits.** In every run in which the cookie component answers the requests in
the order in which they were sent, the flag is set while a call waits and only then, the
assertion holds, what has to wait is not dispatched, and every call returns its answer, as soon as
this is there and the calls on top of it have returned. -/
theorem waits_run (es : List Event) (h : Along Answers step {} es) :
    ∀ es', es' <+: es → Waits (run es') := by
  intro es' hpre
  obtain ⟨rest, rfl⟩ := hpre
  have hinv : Inv (run es') :=
    Along.invariant (Along.append.mp h).1 inv_start fun w e hw hanswers => hw.step e hanswers
  exact hinv.waits (List.foldlRecOn es' step (List.Perm.refl [])
      fun _ hw e _ => Accounted.step hw e)

/-- A message that comes during a wait starts a second one, and both answers come before
either call returns. The inner one returns first, and with the outer one the flag is cleared. -/
theorem waits_run_nested :
    let webAppMsg : Message := { msgType := msgWebappMsg }
    let answer (reqId : I32) (cookieStr : Bytes) : Message :=
      { msgType := msgDomCookieGetReturn, msgValue := reqId, payload := .ofBytes cookieStr }
    let es : List Event := [.script, .own (.arrive webAppMsg), .own .advance, .createRequest,
      .own .ask, .own (.arrive (answer 0 [1])), .own (.arrive (answer 2 [3])), .own .advance,
      .own .advance, .own .advance, .own .advance, .own .advance, .own .advance,
      .own .advance, .own .advance, .own .advance]
    (run es).returned = [(2, [3]), (0, [1])] ∧ (run es).net.waitForReply = false ∧
      ∀ es', es' <+: es → Waits (run es') := by
  intro webAppMsg answer es
  have h : Along Answers step {} es :=
    ⟨trivial, fun hreply => absurd hreply (by decide), trivial, trivial, trivial,
      fun _ => by decide, fun _ => by decide, trivial, trivial, trivial, trivial, trivial, trivial,
      trivial, trivial, trivial, trivial⟩
  exact ⟨by decide, by decide, waits_run es h⟩

end OpBrowser.Dispatch.OpNetwork
