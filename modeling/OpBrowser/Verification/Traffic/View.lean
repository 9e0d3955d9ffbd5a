import OpBrowser.Model.Traffic
import Mathlib.Data.List.TakeDrop

/-! # What a step does to one request

The view of a request is the part of the state that belongs to it. A step that is about
another request leaves it as it is. -/

namespace OpBrowser.Traffic

open Response

/-- The part of the state that belongs to the request of a web app with this id. -/
structure View where
  reply : Option Reply
  incoming : List Message
  outgoing : List Message
  requests : List NetworkRequest
  record : Record

/-- The message asks for the request or aborts it. -/
def own (a u : I32) (msg : Message) : Bool :=
  msg.srcId = a ∧ msg.msgValue = u ∧ (msg.msgType = msgFetchUrl ∨ msg.msgType = msgFetchUrlAbort)

/-- The key of a request in the queue of the manager. -/
def isKey (a u : I32) (r : NetworkRequest) : Bool := r.webappId = a ∧ r.urlId = u

def view (s : State) (a u : I32) : View where
  reply := (s.webApps a).replies[u]?
  incoming := (s.toWebApp a).filter (·.msgValue = u)
  outgoing := s.toNetwork.filter (own a u)
  requests := s.requestQueue.filter (isKey a u)
  record := s.record a u

/-- A request that nobody has asked for. -/
def View.idle : View := ⟨none, [], [], [], {}⟩

variable {s : State} {a b u v : I32}

/-! ### The parts of the state -/

section Parts

variable {msgs : List Message} {w : WebApp} {r : Reply} {f : Record → Record}

theorem view_writeTo_self (h : ∀ msg ∈ msgs, msg.msgValue = u) :
    view (writeTo s a msgs) a u =
      { view s a u with incoming := (view s a u).incoming ++ msgs } := by
  have hall : msgs.filter (·.msgValue = u) = msgs :=
    List.filter_eq_self.mpr fun msg hmsg => by simpa using h msg hmsg
  simp [view, writeTo, hall]

theorem view_writeTo_of_ne (hne : ¬ (b = a ∧ v = u)) (h : ∀ msg ∈ msgs, msg.msgValue = v) :
    view (writeTo s b msgs) a u = view s a u := by
  by_cases hb : b = a
  · subst hb
    have hnone : msgs.filter (·.msgValue = u) = [] := by
      rw [List.filter_eq_nil_iff]
      intro msg hmsg
      rw [h msg hmsg, decide_eq_true_eq]
      exact fun hv => hne ⟨rfl, hv⟩
    simp [view, writeTo, hnone]
  · simp [view, writeTo, Function.update_of_ne (Ne.symm hb)]

theorem view_setRecord_self :
    view (setRecord s a u f) a u = { view s a u with record := f (view s a u).record } := by
  simp [view, setRecord]

theorem view_setRecord_of_ne (hne : ¬ (b = a ∧ v = u)) :
    view (setRecord s b v f) a u = view s a u := by
  by_cases hb : b = a
  · subst hb
    have hv : u ≠ v := fun h => hne ⟨rfl, h.symm⟩
    simp [view, setRecord, Function.update_of_ne hv]
  · simp [view, setRecord, Function.update_of_ne (Ne.symm hb)]

theorem view_setReply_self :
    view (setReply s a u r) a u = { view s a u with reply := some r } := by
  simp [view, setReply, setWebApp]

theorem view_setReply_of_ne (hne : ¬ (b = a ∧ v = u)) :
    view (setReply s b v r) a u = view s a u := by
  by_cases hb : b = a
  · subst hb
    have hv : v ≠ u := fun h => hne ⟨rfl, h⟩
    simp [view, setReply, setWebApp, hv]
  · simp [view, setReply, setWebApp, Function.update_of_ne (Ne.symm hb)]

/-- Another id for the next request. -/
theorem view_setReqId (reqId : I32) :
    view (setWebApp s b { s.webApps b with reqId }) a u = view s a u := by
  by_cases hb : b = a
  · subst hb
    simp [view, setWebApp]
  · simp [view, setWebApp, Function.update_of_ne (Ne.symm hb)]

theorem view_toNetwork_append (msg : Message) :
    view { s with toNetwork := s.toNetwork ++ [msg] } a u =
      { view s a u with
        outgoing := (view s a u).outgoing ++ if own a u msg then [msg] else [] } := by
  by_cases hmsg : own a u msg = true
  · simp [view, hmsg]
  · simp [view, hmsg]

end Parts

/-! ### The queue of the manager -/

section Queue

variable {p : NetworkRequest → Bool} {l : List NetworkRequest} {i : ℕ} {r r' r₀ : NetworkRequest}

theorem split_at (h : l[i]? = some r) : l = l.take i ++ r :: l.drop (i + 1) := by
  obtain ⟨hi, rfl⟩ := List.getElem?_eq_some_iff.mp h
  rw [List.getElem_cons_drop, List.take_append_drop]

theorem filter_set_of_not (h : l[i]? = some r) (hr : p r = false) (hr' : p r' = false) :
    (l.set i r').filter p = l.filter p := by
  obtain ⟨hi, -⟩ := List.getElem?_eq_some_iff.mp h
  conv_rhs => rw [split_at h]
  rw [List.set_eq_take_append_cons_drop, if_pos hi]
  simp [hr, hr']

theorem filter_eraseIdx_of_not (h : l[i]? = some r) (hr : p r = false) :
    (l.eraseIdx i).filter p = l.filter p := by
  conv_rhs => rw [split_at h]
  rw [List.eraseIdx_eq_take_drop_succ]
  simp [hr]

/-- The only request with the key is the one at the place. -/
theorem filter_eq_singleton (h : l[i]? = some r) (hr : p r = true) (hl : l.filter p = [r₀]) :
    r₀ = r ∧ (l.take i).filter p = [] ∧ (l.drop (i + 1)).filter p = [] := by
  rw [split_at h, List.filter_append, List.filter_cons_of_pos hr] at hl
  have hlength := congrArg List.length hl
  simp only [List.length_append, List.length_cons, List.length_nil] at hlength
  have hfront : (l.take i).filter p = [] := List.length_eq_zero_iff.mp (by omega)
  have hback : (l.drop (i + 1)).filter p = [] := List.length_eq_zero_iff.mp (by omega)
  rw [hfront, hback, List.nil_append] at hl
  exact ⟨(List.singleton_inj.mp hl).symm, hfront, hback⟩

theorem filter_set (h : l[i]? = some r) (hr : p r = true) (hr' : p r' = true)
    (hl : l.filter p = [r₀]) : (l.set i r').filter p = [r'] := by
  obtain ⟨hi, -⟩ := List.getElem?_eq_some_iff.mp h
  obtain ⟨-, hfront, hback⟩ := filter_eq_singleton h hr hl
  rw [List.set_eq_take_append_cons_drop, if_pos hi]
  simp [hfront, hback, hr']

theorem filter_eraseIdx (h : l[i]? = some r) (hr : p r = true) (hl : l.filter p = [r₀]) :
    (l.eraseIdx i).filter p = [] := by
  obtain ⟨-, hfront, hback⟩ := filter_eq_singleton h hr hl
  rw [List.eraseIdx_eq_take_drop_succ]
  simp [hfront, hback]

end Queue

namespace NetworkRequest

variable {r : NetworkRequest}

@[simp] theorem sendMetaDataIfNeeded_request : r.sendMetaDataIfNeeded.1.request = r.request := by
  rw [sendMetaDataIfNeeded]
  split <;> rfl

@[simp] theorem forwardData_request : r.forwardData.1.request = r.request := by
  simp [forwardData]

theorem sendMetaDataIfNeeded_msgValue : ∀ msg ∈ r.sendMetaDataIfNeeded.2,
    msg.msgValue = r.urlId := by
  rw [sendMetaDataIfNeeded]
  split <;> simp [metaDataMsg, urlId]

theorem forwardData_msgValue : ∀ msg ∈ r.forwardData.2, msg.msgValue = r.urlId := by
  intro msg hmsg
  simp only [forwardData, List.mem_append] at hmsg
  cases hmsg with
  | inl hmsg => exact sendMetaDataIfNeeded_msgValue msg hmsg
  | inr hmsg =>
      split at hmsg
      · simp [List.mem_singleton.mp hmsg, dataMsg, urlId]
      · cases hmsg

theorem finish_msgValue : ∀ msg ∈ r.finish, msg.msgValue = r.urlId := by
  intro msg hmsg
  cases List.mem_append.mp hmsg with
  | inl hmsg => exact sendMetaDataIfNeeded_msgValue msg hmsg
  | inr hmsg => simp [List.mem_singleton.mp hmsg, dataMsg, urlId]

theorem abort_msgValue : ∀ msg ∈ r.abort, msg.msgValue = r.urlId :=
  finish_msgValue (r := { r with received := [] })

end NetworkRequest

/-! ### Steps about other requests -/

section Other

variable {metaData : I32 → I32 → Bytes} {i : ℕ} {r : NetworkRequest} {msg : Message}

theorem isKey_eq_false (hne : ¬ (r.webappId = a ∧ r.urlId = u)) : isKey a u r = false := by
  simpa [isKey] using hne

theorem view_updateRequest_of_ne (h : s.requestQueue[i]? = some r)
    (hne : ¬ (r.webappId = a ∧ r.urlId = u)) (r' : NetworkRequest × List Message)
    (hreq : r'.1.request = r.request) (hmsgs : ∀ msg ∈ r'.2, msg.msgValue = r.urlId) :
    view (updateRequest s i r') a u = view s a u := by
  have hwebappId : r'.1.webappId = r.webappId := congrArg Response.Request.srcId hreq
  have hurlId : r'.1.urlId = r.urlId := congrArg Response.Request.urlId hreq
  have hqueue : (s.requestQueue.set i r'.1).filter (isKey a u) = s.requestQueue.filter
      (isKey a u) :=
    filter_set_of_not h (isKey_eq_false hne) (isKey_eq_false (by rwa [hwebappId, hurlId]))
  rw [updateRequest, hwebappId, view_writeTo_of_ne hne hmsgs]
  simp [view, hqueue]

theorem view_removeRequest_of_ne (h : s.requestQueue[i]? = some r)
    (hne : ¬ (r.webappId = a ∧ r.urlId = u)) : view (removeRequest s i) a u = view s a u := by
  simp [view, removeRequest, filter_eraseIdx_of_not h (isKey_eq_false hne)]

theorem view_signal_of_ne (h : s.requestQueue[i]? = some r)
    (hne : ¬ (r.webappId = a ∧ r.urlId = u)) (sig : Signal Bytes) :
    view (stepRequest s i r sig) a u = view s a u := by
  cases sig with
  | arrive bytes =>
      rw [stepRequest, view_setRecord_of_ne hne]
      exact view_updateRequest_of_ne h hne _ rfl nofun
  | change metaData => exact view_updateRequest_of_ne h hne _ rfl nofun
  | metaDataChanged =>
      exact view_updateRequest_of_ne h hne _ NetworkRequest.sendMetaDataIfNeeded_request
        NetworkRequest.sendMetaDataIfNeeded_msgValue
  | readyRead =>
      exact view_updateRequest_of_ne h hne { r with announced := true }.forwardData
        NetworkRequest.forwardData_request NetworkRequest.forwardData_msgValue
  | finished =>
      rw [stepRequest]
      split
      · rw [view_writeTo_of_ne hne NetworkRequest.finish_msgValue]
        exact view_removeRequest_of_ne h hne
      · rfl

/-- The request that a message aborts. -/
theorem findIdx?_key
    (h : s.requestQueue.findIdx? (fun r => r.webappId = a ∧ r.urlId = u) = some i) :
    ∃ r, s.requestQueue[i]? = some r ∧ r.webappId = a ∧ r.urlId = u := by
  obtain ⟨hi, hkey, -⟩ := List.findIdx?_eq_some_iff_getElem.mp h
  exact ⟨_, List.getElem?_eq_getElem hi, by simpa using hkey⟩

/-- The network component reads a message that is not about the request. -/
theorem view_dispatchNetwork_of_not (hmsg : own a u msg = false) :
    view (dispatchNetwork s metaData msg) a u = view s a u := by
  rw [dispatchNetwork]
  split
  next htype =>
    have hkey : isKey a u
        { request := { urlId := msg.msgValue, srcId := msg.srcId
                       metaData := metaData msg.srcId msg.msgValue } } = false :=
      isKey_eq_false (by
        simpa [own, htype, NetworkRequest.webappId, NetworkRequest.urlId] using hmsg)
    simp [view, hkey]
  next =>
    split
    next htype =>
      split
      · rfl
      · rename_i i hi
        obtain ⟨r, hr, hwebappId, hurlId⟩ := findIdx?_key hi
        have hne : ¬ (r.webappId = a ∧ r.urlId = u) := by
          rw [hwebappId, hurlId]
          simpa [own, htype] using hmsg
        simp only [hr]
        rw [view_writeTo_of_ne hne NetworkRequest.abort_msgValue]
        exact view_removeRequest_of_ne hr hne
    next => rfl

/-- A web app reads a message that is not about the request. -/
theorem view_dispatchWebApp_of_ne (hne : ¬ (b = a ∧ msg.msgValue = u)) :
    view (dispatchWebApp s b msg) a u = view s a u := by
  rw [dispatchWebApp]
  split
  · rw [handleData]
    split
    · rfl
    · split
      · dsimp only
        split
        · rw [view_setRecord_of_ne hne, view_setReply_of_ne hne]
        · rw [view_setReply_of_ne hne]
      · rfl
  · rfl

theorem view_readData_of_ne (hne : ¬ (b = a ∧ v = u)) (maxSize : ℕ) :
    view (readData s b v maxSize) a u = view s a u := by
  rw [readData]
  split
  · rfl
  · rw [view_setRecord_of_ne hne, view_setReply_of_ne hne]

theorem view_abort_of_ne (hne : ¬ (b = a ∧ v = u)) : view (abort s b v) a u = view s a u := by
  have hown : own a u
      { srcId := b, dstId := networkId, msgType := msgFetchUrlAbort, msgValue := v } = false := by
    simpa [own] using hne
  rw [abort]
  split
  · rfl
  · dsimp only
    split
    · rw [view_toNetwork_append, hown, view_setReply_of_ne hne, view_setRecord_of_ne hne]
      simp
    · rw [view_setReply_of_ne hne, view_setRecord_of_ne hne]

theorem view_createRequest_of_ne (hne : ¬ (b = a ∧ (s.webApps b).reqId = u)) :
    view (createRequest s b) a u = view s a u := by
  have hown : own a u { srcId := b, dstId := networkId, msgType := msgFetchUrl
                        msgValue := (s.webApps b).reqId } = false := by
    simpa [own] using hne
  rw [createRequest]
  dsimp only
  rw [view_toNetwork_append, hown, view_setReqId, view_setReply_of_ne hne]
  simp

end Other

end OpBrowser.Traffic
