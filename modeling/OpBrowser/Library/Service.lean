import Mathlib.Logic.Function.Basic
import OpBrowser.Library.Run

/-! # One server behind first-in first-out links

Clients write requests into pipes of their own. A switch takes the requests from there to
the server, in any order among the clients, and brings the answers back. The order in which
the server takes the requests is the history, and it decides every answer. -/

namespace OpBrowser.Service

variable {ι Req Rep Tick St : Type*}

/-! ### What is addressed to one client -/

section OfClient

variable [DecidableEq ι] {α : Type*}

def ofClient (c : ι) (l : List (ι × α)) : List α := (l.filter fun e => e.1 = c).map Prod.snd

@[simp] theorem ofClient_nil (c : ι) : ofClient c ([] : List (ι × α)) = [] := rfl

@[simp] theorem ofClient_append (c : ι) (l l' : List (ι × α)) :
    ofClient c (l ++ l') = ofClient c l ++ ofClient c l' := by
  simp [ofClient]

@[simp] theorem ofClient_cons_self (c : ι) (a : α) (l : List (ι × α)) :
    ofClient c ((c, a) :: l) = a :: ofClient c l := by
  simp [ofClient]

theorem ofClient_cons_of_ne {c c' : ι} (h : c' ≠ c) (a : α) (l : List (ι × α)) :
    ofClient c ((c', a) :: l) = ofClient c l := by
  simp [ofClient, h]

theorem mem_ofClient {c : ι} {a : α} {l : List (ι × α)} : a ∈ ofClient c l ↔ (c, a) ∈ l := by
  simp [ofClient]

end OfClient

/-! ### The server alone -/

section Server

variable (serve : St → ι → Req → Tick → St × Option Rep)

/-- The store after these requests. -/
def after (store : St) (history : List (ι × Req × Tick)) : St :=
  history.foldl (fun store e => (serve store e.1 e.2.1 e.2.2).1) store

/-- The answers to these requests, with their clients. -/
def answers : St → List (ι × Req × Tick) → List (ι × Rep)
  | _, [] => []
  | store, (c, req, t) :: history =>
      (serve store c req t).2.toList.map (c, ·) ++ answers (serve store c req t).1 history

@[simp] theorem after_append (store : St) (history more : List (ι × Req × Tick)) :
    after serve store (history ++ more) = after serve (after serve store history) more :=
  List.foldl_append

theorem answers_append (store : St) (history more : List (ι × Req × Tick)) :
    answers serve store (history ++ more) =
      answers serve store history ++ answers serve (after serve store history) more := by
  induction history generalizing store with
  | nil => rfl
  | cons e history ih =>
      obtain ⟨c, req, t⟩ := e
      simp only [List.cons_append, answers, ih, List.append_assoc]
      rfl

/-- Every answer is the answer to some request, from the store as it was at that time. -/
theorem mem_answers {store : St} {history : List (ι × Req × Tick)} {c : ι} {rep : Rep} :
    (c, rep) ∈ answers serve store history ↔
      ∃ before req t rest, history = before ++ (c, req, t) :: rest ∧
        (serve (after serve store before) c req t).2 = some rep := by
  induction history generalizing store with
  | nil => simp [answers]
  | cons e history ih =>
      obtain ⟨c', req', t'⟩ := e
      rw [answers, List.mem_append, ih]
      constructor
      · intro h
        cases h with
        | inl h =>
            obtain ⟨rep', hrep, heq⟩ := List.mem_map.mp h
            cases heq
            exact ⟨[], req', t', history, rfl, Option.mem_toList.mp hrep⟩
        | inr h =>
            obtain ⟨before, req, t, rest, rfl, hrep⟩ := h
            exact ⟨(c', req', t') :: before, req, t, rest, rfl, hrep⟩
      · rintro ⟨before, req, t, rest, heq, hrep⟩
        cases before with
        | nil =>
            cases heq
            exact Or.inl (List.mem_map.mpr ⟨rep, Option.mem_toList.mpr hrep, rfl⟩)
        | cons e before =>
            cases heq
            exact Or.inr ⟨before, req, t, rest, rfl, hrep⟩

end Server

/-! ### The links -/

/-- The store, what is on its way, and what has happened. -/
structure State (ι Req Rep Tick St : Type*) where
  store : St
  sent : ι → List Req
  inbox : List (ι × Req)
  outbox : List (ι × Rep)
  arriving : ι → List Rep
  asked : ι → List Req
  history : List (ι × Req × Tick)
  got : ι → List Rep

/-- Nothing has happened yet. -/
def State.start (store : St) : State ι Req Rep Tick St :=
  ⟨store, fun _ => [], [], [], fun _ => [], fun _ => [], [], fun _ => []⟩

inductive Action (ι Req Tick : Type*) where
  | ask (c : ι) (req : Req)
  | relay (c : ι)
  | serve (t : Tick)
  | deliver
  | receive (c : ι)

variable [DecidableEq ι] (serve : St → ι → Req → Tick → St × Option Rep)

def step (s : State ι Req Rep Tick St) : Action ι Req Tick → State ι Req Rep Tick St
  | .ask c req =>
      { s with
        sent := Function.update s.sent c (s.sent c ++ [req])
        asked := Function.update s.asked c (s.asked c ++ [req]) }
  | .relay c =>
      match s.sent c with
      | req :: rest =>
          { s with sent := Function.update s.sent c rest, inbox := s.inbox ++ [(c, req)] }
      | [] => s
  | .serve t =>
      match s.inbox with
      | (c, req) :: rest =>
          let (store, rep) := serve s.store c req t
          { s with
            store
            inbox := rest
            outbox := s.outbox ++ rep.toList.map (c, ·)
            history := s.history ++ [(c, req, t)] }
      | [] => s
  | .deliver =>
      match s.outbox with
      | (c, rep) :: rest =>
          { s with
            outbox := rest
            arriving := Function.update s.arriving c (s.arriving c ++ [rep]) }
      | [] => s
  | .receive c =>
      match s.arriving c with
      | rep :: rest =>
          { s with
            arriving := Function.update s.arriving c rest
            got := Function.update s.got c (s.got c ++ [rep]) }
      | [] => s

section Frame

variable (s : State ι Req Rep Tick St)

@[simp] theorem asked_relay (c : ι) : (step serve s (.relay c)).asked = s.asked := by
  rw [step]; split <;> rfl

@[simp] theorem asked_serve (t : Tick) : (step serve s (.serve t)).asked = s.asked := by
  rw [step]; split <;> rfl

@[simp] theorem asked_deliver : (step serve s .deliver).asked = s.asked := by
  rw [step]; split <;> rfl

@[simp] theorem asked_receive (c : ι) : (step serve s (.receive c)).asked = s.asked := by
  rw [step]; split <;> rfl

@[simp] theorem got_relay (c : ι) : (step serve s (.relay c)).got = s.got := by
  rw [step]; split <;> rfl

@[simp] theorem got_serve (t : Tick) : (step serve s (.serve t)).got = s.got := by
  rw [step]; split <;> rfl

@[simp] theorem got_deliver : (step serve s .deliver).got = s.got := by
  rw [step]; split <;> rfl

theorem got_receive_of_ne {c c' : ι} (h : c' ≠ c) :
    (step serve s (.receive c')).got c = s.got c := by
  rw [step]
  split
  · simp [Ne.symm h]
  · rfl

end Frame

/-- The requests of a history, with their clients. -/
def requests (history : List (ι × Req × Tick)) : List (ι × Req) :=
  history.map fun e => (e.1, e.2.1)

/-- The clients see one server that serves one request after the other, and each client
sees its own requests served in the order in which it asked. -/
structure Sequential (st : St) (s : State ι Req Rep Tick St) : Prop where
  store : s.store = after serve st s.history
  order : ∀ c, s.asked c = ofClient c (requests s.history) ++ (ofClient c s.inbox ++ s.sent c)
  answers : ∀ c, ofClient c (answers serve st s.history) =
    s.got c ++ (s.arriving c ++ ofClient c s.outbox)

variable {serve} {st : St} {s : State ι Req Rep Tick St}

theorem Sequential.init : Sequential serve st (State.start st) :=
  ⟨rfl, fun _ => rfl, fun _ => rfl⟩

namespace Sequential

variable (h : Sequential serve st s)

include h

theorem on_ask (c : ι) (req : Req) : Sequential serve st (step serve s (.ask c req)) where
  store := h.store
  order c' := by
    simp only [step, Function.update_apply]
    split
    next heq => simp [heq, h.order c, List.append_assoc]
    next => exact h.order c'
  answers := h.answers

theorem on_relay (c : ι) : Sequential serve st (step serve s (.relay c)) := by
  rw [step]
  split
  next req rest heq =>
    refine ⟨h.store, fun c' => ?_, h.answers⟩
    simp only [Function.update_apply, ofClient_append]
    split
    next hc =>
      subst hc
      simp [h.order, heq]
    next hc =>
      have hne : c ≠ c' := Ne.symm hc
      simp [h.order, ofClient_cons_of_ne hne]
  next => exact h

theorem on_serve (t : Tick) : Sequential serve st (step serve s (.serve t)) := by
  rw [step]
  split
  next c req rest heq =>
    refine ⟨?_, fun c' => ?_, fun c' => ?_⟩
    · simp [h.store, after]
    · have horder := h.order c'
      rw [heq] at horder
      by_cases hc : c = c'
      · subst hc
        simpa [requests] using horder
      · simpa [requests, ofClient_cons_of_ne hc] using horder
    · have hanswers := h.answers c'
      simp [answers_append, hanswers, Service.answers, ← h.store]
  next => exact h

theorem on_deliver : Sequential serve st (step serve s .deliver) := by
  rw [step]
  split
  next c rep rest heq =>
    refine ⟨h.store, h.order, fun c' => ?_⟩
    have hanswers := h.answers c'
    rw [heq] at hanswers
    simp only [Function.update_apply]
    split
    next hc =>
      subst hc
      simpa using hanswers
    next hc =>
      have hne : c ≠ c' := Ne.symm hc
      simpa [ofClient_cons_of_ne hne] using hanswers
  next => exact h

theorem on_receive (c : ι) : Sequential serve st (step serve s (.receive c)) := by
  rw [step]
  split
  next rep rest heq =>
    refine ⟨h.store, h.order, fun c' => ?_⟩
    have hanswers := h.answers c'
    simp only [Function.update_apply]
    split
    next hc =>
      subst hc
      simpa [heq] using hanswers
    next => exact hanswers
  next => exact h

theorem step (a : Action ι Req Tick) : Sequential serve st (Service.step serve s a) := by
  cases a with
  | ask c req => exact h.on_ask c req
  | relay c => exact h.on_relay c
  | serve t => exact h.on_serve t
  | deliver => exact h.on_deliver
  | receive c => exact h.on_receive c

theorem steps (as : List (Action ι Req Tick)) :
    Sequential serve st (as.foldl (Service.step serve) s) :=
  (Along.of_forall fun _ _ => trivial : Along (fun _ _ => True) (Service.step serve) s as).invariant
    h fun _ a h _ => h.step a

/-- What was served of a client is the beginning of what it asked. -/
theorem prefix_asked (c : ι) : ofClient c (requests s.history) <+: s.asked c :=
  ⟨_, (h.order c).symm⟩

/-- An answer that a client has got was made by its request, after all its earlier requests
and after no later one. -/
theorem got_answer {c : ι} {rep : Rep} (hgot : rep ∈ s.got c) :
    ∃ before req t rest, s.history = before ++ (c, req, t) :: rest ∧
      (serve (after serve st before) c req t).2 = some rep ∧
      ofClient c (requests before) ++ [req] <+: s.asked c := by
  have hmem : (c, rep) ∈ Service.answers serve st s.history := by
    rw [← mem_ofClient, h.answers c]
    exact List.mem_append_left _ hgot
  obtain ⟨before, req, t, rest, heq, hrep⟩ := (mem_answers serve).mp hmem
  refine ⟨before, req, t, rest, heq, hrep, ?_⟩
  have hprefix := h.prefix_asked c
  rw [heq] at hprefix
  refine List.IsPrefix.trans ⟨ofClient c (requests rest), ?_⟩ hprefix
  simp [requests]

/-- Once nothing is on its way, every request has been served and every answer has been got. -/
theorem settled {c : ι} (hsent : s.sent c = []) (hinbox : ofClient c s.inbox = [])
    (harriving : s.arriving c = []) (houtbox : ofClient c s.outbox = []) :
    s.asked c = ofClient c (requests s.history) ∧
      s.got c = ofClient c (Service.answers serve st s.history) := by
  have horder := h.order c
  have hanswers := h.answers c
  rw [hinbox, hsent] at horder
  rw [harriving, houtbox] at hanswers
  simp_all

end Sequential

end OpBrowser.Service
