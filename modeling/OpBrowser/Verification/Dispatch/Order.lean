import OpBrowser.Library.Run
import OpBrowser.Model.Dispatcher

/-! # Dispatch in the order of arrival

The queue holds what was read during a wait. The messages that were dispatched,
followed by the queue, are the ones that were read. -/

namespace OpBrowser.Dispatch

/-- The messages that keep their order. -/
def ordered (c : Component) (l : List Message) : List Message := l.filter fun m => !c.passes m

/-- The ordered messages were dispatched as they were read, except for the last ones,
which wait in the queue, and no message waits when the program is idle. -/
structure InOrder (c : Component) (s : State) : Prop where
  order : ordered c s.dispatched ++ s.msgQueue = ordered c s.received
  idle : s.stack = [] → s.posted = 0 → s.msgQueue = []

/-- No step of this kind: an ordered message is read past the queue, or the last call of
`OpNetwork` that waits returns and leaves the answer to another request behind. -/
def Calm (c : Component) (s : State) (a : Action) : Prop :=
  match a, s.stack, s.unread with
  | .advance, .read :: _, msg :: _ =>
      c.passes msg = false → s.waitForReply = false → s.msgQueue = []
  | .advance, .wait reqId :: calls, _ =>
      c = .opNetwork → reqId ∈ s.cookieMap → (s.cookieMap.erase reqId).isEmpty = false →
        ∃ j, .wait j ∈ calls
  | _, _, _ => True

/-- What every step keeps. A message that waits will be dispatched: a call waits for
its answer, a call of `activated` is queued, or the loop over the queue is running. -/
structure Inv (c : Component) (s : State) : Prop where
  order : ordered c s.dispatched ++ s.msgQueue = ordered c s.received
  queued : ∀ msg ∈ s.msgQueue, c.passes msg = false
  pending : s.msgQueue ≠ [] →
    s.waitForReply = true ∨ 0 < s.posted ∨ ∃ fd, .drain fd ∈ s.stack
  waiting : s.waitForReply = true → ∃ reqId, .wait reqId ∈ s.stack

variable {c : Component} {s : State}

theorem inv_start (c : Component) : Inv c {} := by
  constructor <;> simp [ordered]

theorem Inv.inOrder (h : Inv c s) : InOrder c s := by
  constructor
  · exact h.order
  · intro hstack hposted
    by_contra hne
    cases h.pending hne with
    | inl hwait =>
        obtain ⟨reqId, hmem⟩ := h.waiting hwait
        rw [hstack] at hmem
        cases hmem
    | inr hrest =>
        cases hrest with
        | inl hpos => omega
        | inr hdrain =>
            obtain ⟨fd, hmem⟩ := hdrain
            rw [hstack] at hmem
            cases hmem

/-! ### The stack -/

theorem Inv.push (h : Inv c s) (f : Frame) : Inv c (push s f) := by
  refine ⟨h.order, h.queued, ?_, ?_⟩
  · intro hne
    apply (h.pending hne).imp_right
    apply Or.imp_right
    intro hdrain
    obtain ⟨fd, hmem⟩ := hdrain
    exact ⟨fd, List.mem_cons_of_mem f hmem⟩
  · intro hwait
    obtain ⟨reqId, hmem⟩ := h.waiting hwait
    exact ⟨reqId, List.mem_cons_of_mem f hmem⟩

/-- A frame other than the end of a wait can leave, a loop over the queue when the
queue is empty. -/
theorem Inv.pop (h : Inv c s) {f : Frame} {calls : List Frame} (hs : s.stack = f :: calls)
    (hwait : ∀ reqId, f ≠ .wait reqId) (hdrain : ∀ fd, f = .drain fd → s.msgQueue = []) :
    Inv c (pop s) := by
  have hstays : ∀ g ∈ s.stack, g ≠ f → g ∈ calls := by
    intro g hg hne
    rw [hs] at hg
    exact (List.mem_cons.mp hg).resolve_left hne
  rw [Dispatch.pop, hs, List.tail_cons]
  refine ⟨h.order, h.queued, ?_, ?_⟩
  · intro hne
    apply (h.pending hne).imp_right
    apply Or.imp_right
    intro hmem
    obtain ⟨fd, hmem⟩ := hmem
    exact ⟨fd, hstays _ hmem fun heq => hne (hdrain fd heq.symm)⟩
  · intro hflag
    obtain ⟨reqId, hmem⟩ := h.waiting hflag
    exact ⟨reqId, hstays _ hmem (hwait reqId).symm⟩

/-! ### The functions -/

/-- A call of `activated`, whether or not it was a queued one. -/
theorem Inv.activated (h : Inv c s) (fd : Activation) (posted : ℕ) :
    Inv c (activated { s with posted } fd) := by
  rw [Dispatch.activated]
  by_cases hflag : s.waitForReply = false
  · rw [if_pos hflag]
    exact ⟨h.order, h.queued, fun _ => .inr (.inr ⟨fd, List.mem_cons_self⟩),
      (h.push (.drain fd)).waiting⟩
  · have hflag' : s.waitForReply = true := by simpa using hflag
    have hposted : Inv c { s with posted } :=
      ⟨h.order, h.queued, fun _ => .inl hflag', h.waiting⟩
    rw [if_neg hflag]
    split
    · exact hposted.push .read
    · exact hposted

theorem Inv.drainNext (h : Inv c s) {fd : Activation} {calls : List Frame}
    (hs : s.stack = .drain fd :: calls) : Inv c (drainNext s fd) := by
  rw [Dispatch.drainNext]
  cases hq : s.msgQueue with
  | nil =>
      have hpop := h.pop hs (by simp) fun _ _ => hq
      dsimp only
      split
      · exact hpop.push .read
      · exact hpop
  | cons msg rest =>
      have hord : c.passes msg = false := h.queued msg (hq ▸ List.mem_cons_self)
      refine ⟨?_, ?_, ?_, (h.push (.dispatchMsg msg)).waiting⟩
      · have horder := h.order
        rw [hq] at horder
        change ordered c (s.dispatched ++ [msg]) ++ rest = ordered c s.received
        rw [← horder]
        simp [ordered, hord]
      · intro m hm
        exact h.queued m (hq ▸ List.mem_cons_of_mem msg hm)
      · intro _
        exact .inr (.inr ⟨fd, List.mem_cons_of_mem _ (hs ▸ List.mem_cons_self)⟩)

theorem Inv.readNext (h : Inv c s) {calls : List Frame} (hs : s.stack = .read :: calls)
    (hcalm : Calm c s .advance) : Inv c (readNext c s) := by
  rw [Dispatch.readNext]
  cases hu : s.unread with
  | nil => exact h.pop hs (by simp) (by simp)
  | cons msg rest =>
      simp only [Calm, hs, hu] at hcalm
      have horder := h.order
      dsimp only
      split
      · rename_i hwait
        obtain ⟨hflag, hord⟩ : s.waitForReply = true ∧ c.passes msg = false := by
          simpa using hwait
        refine ⟨?_, ?_, fun _ => .inl hflag, h.waiting⟩
        · rw [← List.append_assoc, horder]
          simp [ordered, hord]
        · intro m hm
          cases List.mem_append.mp hm with
          | inl hm => exact h.queued m hm
          | inr hm => rwa [List.mem_singleton.mp hm]
      · rename_i hpass
        have hpush := h.push (.dispatchMsg msg)
        refine ⟨?_, h.queued, hpush.pending, hpush.waiting⟩
        change ordered c (s.dispatched ++ [msg]) ++ s.msgQueue = ordered c (s.received ++ [msg])
        cases hord : c.passes msg with
        | true => simpa [ordered, hord] using horder
        | false =>
            have hnone := hcalm hord (by simpa [hord] using hpass)
            rw [hnone, List.append_nil] at horder ⊢
            rw [ordered, ordered, List.filter_append, List.filter_append]
            exact congrArg (· ++ _) horder

theorem Inv.finish (h : Inv c s) {msg : Message} {calls : List Frame}
    (hs : s.stack = .dispatchMsg msg :: calls) : Inv c (finish c s msg) := by
  have hpop := h.pop hs (by simp) (by simp)
  rw [Dispatch.finish]
  split
  · exact ⟨hpop.order, hpop.queued, hpop.pending, hpop.waiting⟩
  · exact hpop

theorem Inv.cookiesForUrl (h : Inv c s) : Inv c (cookiesForUrl s) := by
  have hwait : Inv c (Dispatch.push { s with reqId := s.reqId + 1, waitForReply := true }
      (.wait s.reqId)) :=
    ⟨h.order, h.queued, fun _ => .inl rfl, fun _ => ⟨s.reqId, List.mem_cons_self⟩⟩
  exact hwait.activated .readFd s.posted

/-- The flag stays set only for a call that still waits. -/
theorem Inv.replied (h : Inv c s) {reqId : I32} {calls : List Frame}
    (hs : s.stack = .wait reqId :: calls) (hmem : reqId ∈ s.cookieMap)
    (hcalm : Calm c s .advance) : Inv c (replied c s reqId) := by
  simp only [Calm, hs] at hcalm
  unfold Dispatch.replied Dispatch.pop
  dsimp only
  rw [hs, List.tail_cons]
  refine ⟨h.order, h.queued, fun _ => .inr (.inl (Nat.succ_pos _)), fun hflag => ?_⟩
  cases c with
  | manager => cases hflag
  | opNetwork =>
      have hmore : s.waitForReply = true ∧ (s.cookieMap.erase reqId).isEmpty = false := by
        simpa using hflag
      exact hcalm rfl hmem hmore.2

/-! ### Runs -/

theorem Inv.advance (h : Inv c s) (hcalm : Calm c s .advance) : Inv c (advance c s) := by
  rw [Dispatch.advance]
  cases hs : s.stack with
  | nil => exact h
  | cons f calls =>
      cases f with
      | drain fd => exact h.drainNext hs
      | read => exact h.readNext hs hcalm
      | dispatchMsg msg => exact h.finish hs
      | wait reqId =>
          dsimp only
          split
          next hmem => exact h.replied hs hmem hcalm
          next => exact h

theorem Inv.step (h : Inv c s) (a : Action) (hcalm : Calm c s a) : Inv c (step c s a) := by
  cases a with
  | arrive msg => exact ⟨h.order, h.queued, h.pending, h.waiting⟩
  | notify =>
      rw [Dispatch.step]
      split
      · exact h.activated .readFd s.posted
      · exact h
  | callQueued =>
      rw [Dispatch.step]
      split
      · exact h.activated .queued (s.posted - 1)
      · exact h
  | advance => exact h.advance hcalm
  | ask =>
      rw [Dispatch.step]
      split
      · split
        · exact h
        · exact h.cookiesForUrl
      · exact h

/-- **Order of dispatch.** Unless an ordered message is read past the queue, or the last wait of
`OpNetwork` ends with another answer left in its map, messages are dispatched in the order in
which they were read. -/
theorem inOrder_run (c : Component) (as : List Action) (h : Along (Calm c) (step c) {} as) :
    ∀ as', as' <+: as → InOrder c (run c as') := by
  intro as' hprefix
  obtain ⟨rest, rfl⟩ := hprefix
  have hinv : Inv c (run c as') :=
    Along.invariant (Along.append.mp h).1 (inv_start c) fun s a hs hcalm => hs.step a hcalm
  exact hinv.inOrder

/-- The answer comes after a message that has to wait for it. -/
theorem inOrder_run_wait :
    let as : List Action := [
      .arrive { msgType := msgFetchUrl, msgValue := 1 }, .notify, .advance, .advance, .ask,
      .arrive { msgType := msgFetchUrlAbort, msgValue := 1 }, .advance,
      .arrive { msgType := msgCookieGetReturn, msgValue := 0 }, .advance]
    Along (Calm .manager) (step .manager) {} as ∧
      ∀ as', as' <+: as → InOrder .manager (run .manager as') := by
  intro as
  have h : Along (Calm .manager) (step .manager) {} as :=
    ⟨trivial, trivial, trivial, fun _ _ => rfl, trivial, trivial, fun _ h => absurd h (by decide),
      trivial, fun h => absurd h (by decide), trivial⟩
  exact ⟨h, inOrder_run .manager as h⟩

/-- A page is fetched, and while its cookies are looked up the fetch is aborted; a third
message comes before the queue is looked at again. -/
theorem abort_overtaken :
    let fetch (n : I32) : Message := { msgType := msgFetchUrl, msgValue := n }
    ¬ InOrder .manager (run .manager [
      .arrive (fetch 1), .notify, .advance, .advance, .ask,
      .arrive { msgType := msgFetchUrlAbort, msgValue := 1 },
      .arrive { msgType := msgCookieGetReturn, msgValue := 0 },
      .advance, .advance, .advance, .advance, .advance, .advance,
      .arrive (fetch 2), .advance]) := by
  intro fetch h
  exact absurd h.order (by decide)

end OpBrowser.Dispatch
