import OpBrowser.Library.Run
import OpBrowser.Verification.Traffic.Alone

/-! # Responses do not mix

The web apps that only use their network classes are the honest ones. Whatever the others
write to the network component, every reply of an honest web app returns the bytes that
arrived for its own request. -/

namespace OpBrowser.Traffic

open Response

/-- The web app does not write to the network component by other ways. -/
def Honest {ρ : Type} (a : I32) (as : List (Action ρ)) : Prop :=
    ∀ act ∈ as, ∀ msg, act ≠ .send a msg

/-- What holds of a request that was made. -/
structure Apart (metaData : I32 → I32 → Bytes) (s : State) (a u : I32) : Prop where
  /-- The request is in a state that it can reach alone. -/
  alone : ∃ acts, Alone (requestOf metaData a u) (view s a u)
    (Response.run (requestOf metaData a u) acts)
  returned : (s.record a u).returned <+: (s.record a u).body
  once : (s.record a u).finishedSignals ≤ 1
  /-- Reading to exhaustion after `finished`, unless the web app has aborted. -/
  exhausted : (s.record a u).aborted = false → (s.record a u).finishedSignals = 1 →
    ∀ maxSizes : List ℕ, (∀ n ∈ maxSizes, 0 < n) →
      (s.record a u).body.length ≤ maxSizes.length →
        ((maxSizes.foldl (fun s n => readData s a u n) s).record a u).returned =
          (s.record a u).body

variable {metaData : I32 → I32 → Bytes} {s : State} {a u : I32} {as : List (Action Bytes)}

/-! ### One step -/

/-- The web app reads a message of the request. -/
def Reads (s : State) (a u : I32) (act : Action Bytes) : Prop :=
  act = .readWebApp a ∧ ∃ msg ∈ (s.toWebApp a).head?, msg.msgValue = u

/-- Attributes, headers or the error of the request's `m_reply` change. -/
def Changes (s : State) (a u : I32) (act : Action Bytes) (now : Bytes) : Prop :=
  ∃ i r, act = .signal i (.change now) ∧ s.requestQueue[i]? = some r ∧ isKey a u r = true

/-- What the run of the request does in a step of all requests: nothing, or one step. -/
structure OwnStep (s : State) (a u : I32) (act : Action Bytes) (acts : List Response.Action) :
    Prop where
  short : acts.length ≤ 1
  reads : .readWebApp ∈ acts → Reads s a u act
  changes : ∀ now, .change now ∈ acts ↔ Changes s a u act now

theorem not_changes {act : Action Bytes} (h : ∀ i now, act ≠ .signal i (.change now))
    (now : Bytes) :
    ¬ Changes s a u act now := by
  rintro ⟨i, r, rfl, -⟩
  exact h i now rfl

/-- A step that is not about the request, or one that its own run can take. -/
theorem alone_step {t : Response.State} {act : Action Bytes} (hact : ∀ msg, act ≠ .send a msg)
    (hfresh : (s.webApps a).reqId ≠ u) (h : Alone (requestOf metaData a u) (view s a u) t) :
    ∃ acts : List Response.Action, OwnStep s a u act acts ∧
      Alone (requestOf metaData a u) (view (step metaData s act) a u)
        (acts.foldl (Response.step (requestOf metaData a u)) t) := by
  have hstay : ∀ s', (∀ now, ¬ Changes s a u act now) → view s' a u = view s a u →
      ∃ acts : List Response.Action, OwnStep s a u act acts ∧
        Alone (requestOf metaData a u) (view s' a u)
          (acts.foldl (Response.step (requestOf metaData a u)) t) := by
    intro s' hsilent hview
    exact ⟨[], ⟨by simp, by simp, by simpa using hsilent⟩, by rwa [hview]⟩
  cases act with
  | createRequest b =>
      refine hstay _ (not_changes (by simp)) (view_createRequest_of_ne ?_)
      rintro ⟨rfl, hu⟩
      exact hfresh hu
  | cookiesForUrl b => exact hstay _ (not_changes (by simp)) (view_setReqId _)
  | send b msg =>
      have hb : b ≠ a := fun hb => hact msg (hb ▸ rfl)
      have hown : own a u { msg with srcId := b } = false := by simp [own, hb]
      refine hstay _ (not_changes (by simp)) ?_
      rw [step, view_toNetwork_append, hown]
      simp
  | readWebApp b =>
      cases hpipe : s.toWebApp b with
      | nil => exact hstay _ (not_changes (by simp)) (by simp only [step, hpipe])
      | cons msg rest =>
          simp only [step, hpipe]
          by_cases hkey : b = a ∧ msg.msgValue = u
          · obtain ⟨rfl, hu⟩ := hkey
            have hreads : Reads s b u (.readWebApp b) := ⟨rfl, msg, by simp [hpipe], hu⟩
            exact ⟨[.readWebApp], ⟨le_rfl, fun _ => hreads, by simp [Changes]⟩,
              alone_readWebApp rfl h hpipe hu⟩
          · refine hstay _ (not_changes (by simp)) ?_
            rw [view_dispatchWebApp_of_ne hkey]
            by_cases hb : b = a
            · subst hb
              have hu : ¬ msg.msgValue = u := fun hu => hkey ⟨rfl, hu⟩
              simp [view, hpipe, hu]
            · simp [view, Function.update_of_ne (Ne.symm hb)]
  | readData b v maxSize =>
      by_cases hkey : b = a ∧ v = u
      · obtain ⟨rfl, rfl⟩ := hkey
        exact ⟨[.readData maxSize], ⟨le_rfl, by simp, by simp [Changes]⟩, alone_readData h maxSize⟩
      · exact hstay _ (not_changes (by simp)) (view_readData_of_ne hkey maxSize)
  | abort b v =>
      by_cases hkey : b = a ∧ v = u
      · obtain ⟨rfl, rfl⟩ := hkey
        exact ⟨[.abort], ⟨le_rfl, by simp, by simp [Changes]⟩, alone_abort rfl h⟩
      · exact hstay _ (not_changes (by simp)) (view_abort_of_ne hkey)
  | readNetwork =>
      cases hpipe : s.toNetwork with
      | nil => exact hstay _ (not_changes (by simp)) (by simp only [step, hpipe])
      | cons msg rest =>
          simp only [step, hpipe]
          cases hown : own a u msg with
          | true =>
              obtain ⟨acts, hacts, halone⟩ := alone_readNetwork rfl h hpipe hown
              have hmem : ∀ act ∈ acts, act = .readNetwork := fun act hact =>
                List.mem_singleton.mp (hacts.subset hact)
              refine ⟨acts, ⟨hacts.length_le, fun hread => ?_, fun now => ?_⟩, halone⟩
              · cases hmem _ hread
              · refine iff_of_false (fun hchange => ?_) (not_changes (by simp) now)
                cases hmem _ hchange
          | false =>
              refine hstay _ (not_changes (by simp)) ?_
              rw [view_dispatchNetwork_of_not hown]
              simp [view, hpipe, hown]
  | signal i sig =>
      cases hr : s.requestQueue[i]? with
      | none =>
          refine hstay _ ?_ (by simp only [step, hr])
          rintro now ⟨j, r, hsig, hj, -⟩
          cases hsig
          rw [hr] at hj
          cases hj
      | some r =>
          simp only [step, hr]
          by_cases hkey : r.webappId = a ∧ r.urlId = u
          · have hkey' : isKey a u r = true := by simpa [isKey] using hkey
            obtain ⟨act, hne, hchange, halone⟩ := alone_signal rfl h hr hkey' sig
            refine ⟨[act], ⟨le_rfl, fun hread => ?_, fun now => ?_⟩, halone⟩
            · exact absurd (List.mem_singleton.mp hread).symm hne
            · rw [List.mem_singleton, eq_comm, hchange]
              constructor
              · rintro rfl
                exact ⟨i, r, rfl, hr, hkey'⟩
              · rintro ⟨j, r', hsig, -⟩
                cases hsig
                rfl
          · refine hstay _ ?_ (view_signal_of_ne hr hkey sig)
            rintro now ⟨j, r', hsig, hj, hkey'⟩
            cases hsig
            rw [hr] at hj
            cases hj
            exact hkey (by simpa [isKey] using hkey')

/-- Nothing happens to a request before it is made. -/
theorem idle_step {act : Action Bytes} (hact : ∀ msg, act ≠ .send a msg)
    (hnew : act = .createRequest a → (s.webApps a).reqId ≠ u) (h : view s a u = View.idle) :
    view (step metaData s act) a u = View.idle := by
  have hreply : (s.webApps a).replies[u]? = none := congrArg View.reply h
  cases act with
  | createRequest b =>
      rw [← h]
      refine view_createRequest_of_ne ?_
      rintro ⟨rfl, hu⟩
      exact hnew rfl hu
  | cookiesForUrl b => exact (view_setReqId _).trans h
  | send b msg =>
      have hb : b ≠ a := fun hb => hact msg (hb ▸ rfl)
      have hown : own a u { msg with srcId := b } = false := by simp [own, hb]
      rw [step, view_toNetwork_append, hown, h]
      rfl
  | readWebApp b =>
      cases hpipe : s.toWebApp b with
      | nil => simpa only [step, hpipe] using h
      | cons msg rest =>
          simp only [step, hpipe]
          have hkey : ¬ (b = a ∧ msg.msgValue = u) := by
            rintro ⟨rfl, hu⟩
            have hempty : (s.toWebApp b).filter (·.msgValue = u) = [] := congrArg View.incoming h
            simp [hpipe, hu] at hempty
          rw [view_dispatchWebApp_of_ne hkey, ← h]
          by_cases hb : b = a
          · subst hb
            have hu : ¬ msg.msgValue = u := fun hu => hkey ⟨rfl, hu⟩
            simp [view, hpipe, hu]
          · simp [view, Function.update_of_ne (Ne.symm hb)]
  | readData b v maxSize =>
      by_cases hkey : b = a ∧ v = u
      · obtain ⟨rfl, rfl⟩ := hkey
        simpa only [step, readData, hreply] using h
      · exact (view_readData_of_ne hkey maxSize).trans h
  | abort b v =>
      by_cases hkey : b = a ∧ v = u
      · obtain ⟨rfl, rfl⟩ := hkey
        simpa only [step, abort, hreply] using h
      · exact (view_abort_of_ne hkey).trans h
  | readNetwork =>
      cases hpipe : s.toNetwork with
      | nil => simpa only [step, hpipe] using h
      | cons msg rest =>
          have hempty : s.toNetwork.filter (own a u) = [] := congrArg View.outgoing h
          have hown : own a u msg = false := by
            rw [hpipe, List.filter_eq_nil_iff] at hempty
            exact Bool.eq_false_of_not_eq_true (hempty msg List.mem_cons_self)
          simp only [step, hpipe]
          rw [view_dispatchNetwork_of_not hown, ← h]
          simp [view, hpipe, hown]
  | signal i sig =>
      cases hr : s.requestQueue[i]? with
      | none => simpa only [step, hr] using h
      | some r =>
          have hempty : s.requestQueue.filter (isKey a u) = [] := congrArg View.requests h
          have hkey : ¬ (r.webappId = a ∧ r.urlId = u) := by
            have hnot := List.filter_eq_nil_iff.mp hempty r (List.mem_of_getElem? hr)
            simpa [isKey] using hnot
          simp only [step, hr]
          exact (view_signal_of_ne hr hkey sig).trans h

/-! ### The ids of the requests -/

theorem reqId_setReply {b v : I32} {r : Reply} :
    ((setReply s b v r).webApps a).reqId = (s.webApps a).reqId := by
  by_cases hb : b = a
  · subst hb
    simp [setReply, setWebApp]
  · simp [setReply, setWebApp, Function.update_of_ne (Ne.symm hb)]

/-- The ids of the requests of a web app grow. -/
theorem reqId_step (act : Action Bytes) :
    (s.webApps a).reqId ≤ ((step metaData s act).webApps a).reqId := by
  cases act with
  | createRequest b =>
      by_cases hb : b = a
      · subst hb
        simp [step, createRequest, setReply, setWebApp]
      · simp [step, createRequest, setReply, setWebApp, Function.update_of_ne (Ne.symm hb)]
  | cookiesForUrl b =>
      by_cases hb : b = a
      · subst hb
        simp [step, setWebApp]
      · simp [step, setWebApp, Function.update_of_ne (Ne.symm hb)]
  | send b msg => exact le_rfl
  | readWebApp b =>
      cases hpipe : s.toWebApp b with
      | nil => simp [step, hpipe]
      | cons msg rest =>
          simp only [step, hpipe, dispatchWebApp, handleData]
          split
          · split
            · exact le_rfl
            · split
              · split
                · exact reqId_setReply.ge
                · exact reqId_setReply.ge
              · exact le_rfl
          · exact le_rfl
  | readData b v maxSize =>
      simp only [step, readData]
      split
      · exact le_rfl
      · exact reqId_setReply.ge
  | abort b v =>
      simp only [step, abort]
      split
      · exact le_rfl
      · split
        · exact reqId_setReply.ge
        · exact reqId_setReply.ge
  | readNetwork =>
      cases hpipe : s.toNetwork with
      | nil => simp [step, hpipe]
      | cons msg rest =>
          simp only [step, hpipe, dispatchNetwork]
          split
          · exact le_rfl
          · split
            · split
              · exact le_rfl
              · split <;> exact le_rfl
            · exact le_rfl
  | signal i sig =>
      cases hr : s.requestQueue[i]? with
      | none => simp [step, hr]
      | some r =>
          simp only [step, hr]
          cases sig with
          | finished =>
              rw [stepRequest]
              split <;> exact le_rfl
          | _ => exact le_rfl

/-! ### Runs -/

/-- A request is made with an id that was not used before, and then it runs as if alone. -/
structure Inv (metaData : I32 → I32 → Bytes) (a : I32) (s : State) : Prop where
  unused : ∀ u, (s.webApps a).reqId ≤ u → view s a u = View.idle
  made : ∀ u, view s a u = View.idle ∨
    ∃ acts, Alone (requestOf metaData a u) (view s a u) (Response.run (requestOf metaData a u) acts)

theorem inv_start : Inv metaData a {} where
  unused _ _ := by simp [view, View.idle]
  made _ := Or.inl (by simp [view, View.idle])

theorem Inv.step {act : Action Bytes} (h : Inv metaData a s) (hact : ∀ msg, act ≠ .send a msg) :
    Inv metaData a (step metaData s act) where
  unused u hu := by
    refine idle_step hact ?_ (h.unused u ((reqId_step act).trans hu))
    rintro rfl rfl
    simp [Traffic.step, createRequest, setReply, setWebApp] at hu
  made u := by
    cases h.made u with
    | inl hidle =>
        by_cases hnew : act = .createRequest a ∧ (s.webApps a).reqId = u
        · obtain ⟨rfl, hu⟩ := hnew
          exact Or.inr ⟨[], alone_createRequest hidle hu⟩
        · exact Or.inl (idle_step hact (fun hact' hu => hnew ⟨hact', hu⟩) hidle)
    | inr halone =>
        obtain ⟨acts, halone⟩ := halone
        have hfresh : (s.webApps a).reqId ≠ u := by
          intro hu
          have hreply := halone.reply
          rw [h.unused u hu.le] at hreply
          cases hreply
        obtain ⟨acts', -, halone'⟩ := alone_step hact hfresh halone
        exact Or.inr ⟨acts ++ acts', by rwa [Response.run, List.foldl_append]⟩

theorem inv_run (h : Honest a as) : Inv metaData a (run metaData as) := by
  have hall : ∀ (as : List (Action Bytes)) (s : State), Inv metaData a s → Honest a as →
      Inv metaData a (as.foldl (Traffic.step metaData) s) := by
    intro as
    induction as with
    | nil => exact fun s hs _ => hs
    | cons act as ih =>
        intro s hs hhonest
        exact ih _ (hs.step fun msg => hhonest act List.mem_cons_self msg)
          fun act' hact' => hhonest act' (List.mem_cons_of_mem act hact')
  exact hall as {} inv_start h

/-- Reads of the reply are reads of the request alone. -/
theorem alone_foldl_readData {t : Response.State} (maxSizes : List ℕ)
    (h : Alone (requestOf metaData a u) (view s a u) t) :
    Alone (requestOf metaData a u) (view (maxSizes.foldl (fun s n => readData s a u n) s) a u)
      (maxSizes.foldl Response.read t) := by
  induction maxSizes generalizing s t with
  | nil => exact h
  | cons n maxSizes ih => exact ih (alone_readData h n)

/-- In every run, each request of an honest web app goes as if there were no other: what its
reply returns arrived for it, in this order, and all of that can be read at the end. -/
theorem apart_run (h : Honest a as) (hmade : ((run metaData as).webApps a).replies[u]? ≠ none) :
    Apart metaData (run metaData as) a u := by
  have hinv : Inv metaData a (run metaData as) := inv_run h
  cases hinv.made u with
  | inl hidle => exact absurd (congrArg View.reply hidle) hmade
  | inr halone =>
      obtain ⟨acts, halone⟩ := halone
      have hrecord : (run metaData as).record a u = _ := halone.record
      have hwhole := (Response.inv_run (requestOf metaData a u) acts).whole
      refine { alone := ⟨acts, halone⟩, returned := ?_, once := ?_, exhausted := ?_ }
      · rw [hrecord]
        exact hwhole.returned.trans hwhole.forwarded
      · rw [hrecord]
        exact hwhole.once
      · rw [hrecord]
        intro hnot hfinished maxSizes hpos hlength
        have hread := (alone_foldl_readData maxSizes halone).record
        change (State.record _ a u) = _ at hread
        rw [hread]
        exact (hwhole.exhausted hnot hfinished).2 maxSizes hpos hlength

/-- Two requests are answered in turns, while another web app tries to abort the first one. It is
finished, while the web app aborts the second one itself. -/
def crossing : List (Action Bytes) :=
  [.createRequest 1024, .createRequest 1024, .readNetwork, .readNetwork,
    .signal 1 (.arrive [2]), .signal 0 (.arrive [1]), .signal 1 .readyRead,
    .send 1025 { msgType := msgFetchUrlAbort, msgValue := 0 }, .readNetwork, .signal 0 .readyRead,
    .readWebApp 1024, .readWebApp 1024, .readWebApp 1024, .readWebApp 1024,
    .abort 1024 1, .signal 0 .finished, .readNetwork,
    .readWebApp 1024, .readWebApp 1024, .readData 1024 0 8]

theorem apart_run_crossing :
    (run (fun _ _ => []) crossing).record 1024 0 = ⟨[1], [1], 1, false⟩ ∧
      (run (fun _ _ => []) crossing).record 1024 1 = ⟨[2], [], 0, true⟩ ∧
      ∀ u ∈ [0, 1], Apart (fun _ _ => []) (run (fun _ _ => []) crossing) 1024 u := by
  refine ⟨by decide, by decide, fun u hu => apart_run (by simp [Honest, crossing]) ?_⟩
  revert u
  decide

end OpBrowser.Traffic
