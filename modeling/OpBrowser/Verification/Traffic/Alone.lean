import OpBrowser.Verification.Response.Whole
import OpBrowser.Verification.Traffic.View

/-! # Every request runs as if it were alone

The view of a request of an honest web app is at any time the state that a run of this one
request has reached, whatever the other requests and the other web apps do. -/

namespace OpBrowser.Traffic

open Response

/-- The request in the queue of the manager, from its state alone. -/
def inQueue (q : Response.Request) (t : Response.State) : NetworkRequest where
  request := q
  metaDataSent := t.metaDataSent
  metaData := t.metaData
  received := t.received
  announced := t.announced

/-- How far a request is: on its way, in the queue of the manager, or gone from there. -/
inductive Phase (q : Response.Request) (v : View) (t : Response.State) : Prop where
  | sent (msg : Message) (htype : msg.msgType = msgFetchUrl)
      (houtgoing : v.outgoing = msg :: t.toNetwork) (hrequests : v.requests = [])
      (hreq : t.requested = true) (hnew : inQueue q t = { request := q })
  | queued (houtgoing : v.outgoing = t.toNetwork) (hrequests : v.requests = [inQueue q t])
      (hreq : t.requested = true)
  | gone (houtgoing : v.outgoing = t.toNetwork) (hrequests : v.requests = [])
      (hreq : t.requested = false)

/-- The view of a request is a state of the request alone. -/
structure Alone (q : Response.Request) (v : View) (t : Response.State) : Prop where
  reply : v.reply = some ⟨t.queued, t.reply⟩
  incoming : v.incoming = t.toWebApp
  aborts : ∀ msg ∈ t.toNetwork, msg.msgType = msgFetchUrlAbort
  record : v.record = ⟨t.body, t.returned, t.finishedSignals, t.aborted⟩
  phase : Phase q v t

variable {s : State} {a u : I32} {q : Response.Request} {t : Response.State}
    {metaData : I32 → I32 → Bytes}

/-- The key of a request. -/
def requestOf (metaData : I32 → I32 → Bytes) (a u : I32) : Response.Request :=
  { urlId := u, srcId := a, metaData := metaData a u }

/-! ### The web app -/

theorem alone_createRequest (h : view s a u = View.idle) (hid : (s.webApps a).reqId = u) :
    Alone q (view (createRequest s a) a u) { metaData := q.metaData } := by
  have hview : view (createRequest s a) a u =
      ⟨some {}, [], [{ srcId := a, dstId := networkId, msgType := msgFetchUrl, msgValue := u }],
        [], {}⟩ := by
    have hown : own a u { srcId := a, dstId := networkId, msgType := msgFetchUrl, msgValue := u } =
        true := by simp [own]
    rw [createRequest]
    dsimp only
    rw [hid, view_toNetwork_append, hown, view_setReqId, view_setReply_self, h]
    rfl
  rw [hview]
  exact
    { reply := rfl
      incoming := rfl
      aborts := by simp
      record := rfl
      phase := Phase.sent _ rfl rfl rfl rfl rfl }

theorem alone_readData (h : Alone q (view s a u) t) (maxSize : ℕ) :
    Alone q (view (readData s a u maxSize) a u) (Response.step q t (.readData maxSize)) := by
  have hreply : (s.webApps a).replies[u]? = some ⟨t.queued, t.reply⟩ := h.reply
  have hview : view (readData s a u maxSize) a u =
      { view s a u with
        reply := some ⟨t.queued, (t.reply.readData maxSize).2⟩
        record := ⟨t.body, t.returned ++ (t.reply.readData maxSize).1.getD [], t.finishedSignals,
          t.aborted⟩ } := by
    simp only [readData, hreply]
    rw [view_setRecord_self, view_setReply_self]
    dsimp only
    rw [h.record]
  rw [hview]
  refine { reply := rfl, incoming := h.incoming, aborts := h.aborts, record := rfl, phase := ?_ }
  cases h.phase with
  | sent msg htype houtgoing hrequests hreq hnew =>
      exact Phase.sent msg htype houtgoing hrequests hreq hnew
  | queued houtgoing hrequests hreq => exact Phase.queued houtgoing hrequests hreq
  | gone houtgoing hrequests hreq => exact Phase.gone houtgoing hrequests hreq

/-- The phase does not change when a message to the network component is appended. -/
theorem Phase.append {v v' : View} {t' : Response.State} {msg : Message} (h : Phase q v t)
    (houtgoing : v'.outgoing = v.outgoing ++ [msg]) (hrequests : v'.requests = v.requests)
    (hnetwork : t'.toNetwork = t.toNetwork ++ [msg]) (hreq : t'.requested = t.requested)
    (hqueue : inQueue q t' = inQueue q t) : Phase q v' t' := by
  cases h with
  | sent msg' htype hout hreqs hreq' hnew =>
      exact Phase.sent msg' htype (by rw [houtgoing, hout, hnetwork, List.cons_append])
        (hrequests.trans hreqs) (hreq.trans hreq') (hqueue.trans hnew)
  | queued hout hreqs hreq' =>
      exact Phase.queued (by rw [houtgoing, hout, hnetwork]) (by rw [hrequests, hreqs, hqueue])
        (hreq.trans hreq')
  | gone hout hreqs hreq' =>
      exact Phase.gone (by rw [houtgoing, hout, hnetwork]) (hrequests.trans hreqs)
          (hreq.trans hreq')

/-- Nor when nothing about the network component changes. -/
theorem Phase.congr {v v' : View} {t' : Response.State} (h : Phase q v t)
    (houtgoing : v'.outgoing = v.outgoing) (hrequests : v'.requests = v.requests)
    (hnetwork : t'.toNetwork = t.toNetwork) (hreq : t'.requested = t.requested)
    (hqueue : inQueue q t' = inQueue q t) : Phase q v' t' := by
  cases h with
  | sent msg htype hout hreqs hreq' hnew =>
      exact Phase.sent msg htype (by rw [houtgoing, hout, hnetwork]) (hrequests.trans hreqs)
        (hreq.trans hreq') (hqueue.trans hnew)
  | queued hout hreqs hreq' =>
      exact Phase.queued (by rw [houtgoing, hout, hnetwork]) (by rw [hrequests, hreqs, hqueue])
        (hreq.trans hreq')
  | gone hout hreqs hreq' =>
      exact Phase.gone (by rw [houtgoing, hout, hnetwork]) (hrequests.trans hreqs)
          (hreq.trans hreq')

theorem alone_abort (hq : q = requestOf metaData a u) (h : Alone q (view s a u) t) :
    Alone q (view (abort s a u) a u) (Response.step q t .abort) := by
  subst hq
  have hreply : (s.webApps a).replies[u]? = some ⟨t.queued, t.reply⟩ := h.reply
  by_cases hfinished : t.reply.state = .finished
  · have hview : view (abort s a u) a u =
        { view s a u with
          reply := some ⟨false, t.reply⟩
          record := ⟨t.body, t.returned, t.finishedSignals, true⟩ } := by
      simp only [abort, hreply, hfinished, ne_eq, not_true_eq_false, if_false]
      rw [view_setReply_self, view_setRecord_self, h.record]
    rw [hview, Response.step, Response.abort]
    simp only [hfinished, ne_eq, not_true_eq_false, if_false]
    exact { reply := rfl, incoming := h.incoming, aborts := h.aborts, record := rfl
            phase := h.phase.congr rfl rfl rfl rfl rfl }
  · have hown : own a u { srcId := a, dstId := networkId, msgType := msgFetchUrlAbort
                          msgValue := u } = true := by simp [own]
    have hview : view (abort s a u) a u =
        { view s a u with
          reply := some ⟨false, { t.reply with state := .aborted }⟩
          outgoing := (view s a u).outgoing ++
            [{ srcId := a, dstId := networkId, msgType := msgFetchUrlAbort, msgValue := u }]
          record := ⟨t.body, t.returned, t.finishedSignals, true⟩ } := by
      simp only [abort, hreply, hfinished, ne_eq, not_false_eq_true, if_true]
      rw [view_toNetwork_append, hown, view_setReply_self, view_setRecord_self, h.record]
      rfl
    rw [hview, Response.step, Response.abort]
    simp only [hfinished, ne_eq, not_false_eq_true, if_true]
    refine { reply := rfl, incoming := h.incoming, aborts := ?_, record := rfl
             phase := h.phase.append rfl rfl rfl rfl rfl }
    intro msg hmsg
    cases List.mem_append.mp hmsg with
    | inl hmsg => exact h.aborts msg hmsg
    | inr hmsg => rw [List.mem_singleton.mp hmsg]

/-- The web app reads a message of the request. -/
theorem alone_readWebApp (hq : q = requestOf metaData a u) (h : Alone q (view s a u) t)
    {msg : Message} {rest : List Message} (hpipe : s.toWebApp a = msg :: rest)
    (hvalue : msg.msgValue = u) :
    Alone q
      (view (dispatchWebApp { s with toWebApp := Function.update s.toWebApp a rest } a msg) a u)
      (Response.step q t .readWebApp) := by
  subst hq
  have hreply : (s.webApps a).replies[u]? = some ⟨t.queued, t.reply⟩ := h.reply
  have hincoming : t.toWebApp = msg :: rest.filter (·.msgValue = u) := by
    rw [← h.incoming]
    simp [view, hpipe, hvalue]
  have hrest : view { s with toWebApp := Function.update s.toWebApp a rest } a u =
      { view s a u with incoming := rest.filter (·.msgValue = u) } := by
    simp [view]
  have hskip : Alone (requestOf metaData a u)
      { view s a u with incoming := rest.filter (·.msgValue = u) }
      { t with toWebApp := rest.filter (·.msgValue = u) } :=
    { reply := h.reply, incoming := rfl, aborts := h.aborts, record := h.record
      phase := h.phase.congr rfl rfl rfl rfl rfl }
  simp only [Response.step, hincoming, Response.dispatchWebApp, requestOf, hvalue, and_true]
  by_cases htype : msg.msgType = msgReturnUrl
  · rw [dispatchWebApp, if_pos htype, if_pos htype, handleData, Response.handleData]
    simp only [hvalue, hreply]
    cases hqueued : t.queued with
    | false =>
        simp only [Bool.false_eq_true, if_false]
        rw [hrest]
        simpa only [hqueued, requestOf] using hskip
    | true =>
        simp only [if_true]
        by_cases hend : msg.payload.data.length = 0
        · rw [if_pos hend, if_pos hend, view_setRecord_self, view_setReply_self, hrest]
          refine { reply := rfl, incoming := rfl, aborts := h.aborts, record := ?_
                   phase := h.phase.congr rfl rfl rfl rfl rfl }
          dsimp only
          rw [h.record]
        · rw [if_neg hend, if_neg hend, view_setReply_self, hrest]
          exact { reply := rfl, incoming := rfl, aborts := h.aborts, record := h.record
                  phase := h.phase.congr rfl rfl rfl rfl rfl }
  · rw [dispatchWebApp, if_neg htype, if_neg htype, hrest]
    exact hskip

/-! ### The network component -/

theorem NetworkRequest.sendMetaDataIfNeeded_eq (r : NetworkRequest) : r.sendMetaDataIfNeeded =
    ({ r with metaDataSent := true }, metaDataMsgs r.request r.metaDataSent r.metaData) := by
  rw [NetworkRequest.sendMetaDataIfNeeded, metaDataMsgs]
  split
  next hsent => rw [← hsent]
  next => rfl

/-- The request at a place in the queue that has the key. -/
theorem Alone.at_place (h : Alone q (view s a u) t) {i : ℕ}
    {r : NetworkRequest} (hr : s.requestQueue[i]? = some r) (hkey : isKey a u r = true) :
    r = inQueue q t ∧ (view s a u).outgoing = t.toNetwork ∧
      (view s a u).requests = [r] ∧ t.requested = true := by
  have hmem : r ∈ (view s a u).requests := List.mem_filter.mpr ⟨List.mem_of_getElem? hr, hkey⟩
  cases h.phase with
  | sent msg htype houtgoing hrequests =>
      rw [hrequests] at hmem
      cases hmem
  | queued houtgoing hrequests hreq =>
      obtain ⟨heq, -⟩ := filter_eq_singleton hr hkey hrequests
      exact ⟨heq.symm, houtgoing, by rw [hrequests, heq], hreq⟩
  | gone houtgoing hrequests =>
      rw [hrequests] at hmem
      cases hmem

section Place

variable {i : ℕ} {r : NetworkRequest} {msgs : List Message}

/-- The request in the queue has changed and has written messages. -/
theorem alone_update (hq : q = requestOf metaData a u) (h : Alone q (view s a u) t)
    (hr : s.requestQueue[i]? = some r) (hkey : isKey a u r = true) (metaDataSent : Bool)
    (now received : Bytes) (announced : Bool) (hmsgs : ∀ msg ∈ msgs, msg.msgValue = u) :
    Alone q (view (updateRequest s i (⟨q, metaDataSent, now, received, announced⟩, msgs)) a u)
      { writeAll t msgs with metaDataSent, metaData := now, received, announced } := by
  obtain ⟨-, houtgoing, hrequests, hreq⟩ := h.at_place hr hkey
  have hself : q.srcId = a ∧ q.urlId = u := by
    rw [hq]
    exact ⟨rfl, rfl⟩
  have hkey' : isKey a u ⟨q, metaDataSent, now, received, announced⟩ = true := by
    simp [isKey, NetworkRequest.webappId, NetworkRequest.urlId, hself]
  have hview : view (updateRequest s i (⟨q, metaDataSent, now, received, announced⟩, msgs)) a u =
      { view s a u with
        incoming := (view s a u).incoming ++ msgs
        requests := [⟨q, metaDataSent, now, received, announced⟩] } := by
    rw [updateRequest]
    change view (writeTo _ q.srcId msgs) a u = _
    rw [hself.1, view_writeTo_self hmsgs]
    have hfilter := filter_set hr hkey hkey' hrequests
    simp [view, hfilter]
  rw [hview]
  exact { reply := h.reply, incoming := congrArg (· ++ msgs) h.incoming, aborts := h.aborts
          record := h.record, phase := Phase.queued houtgoing rfl hreq }

/-- The request has written its last messages and leaves the queue. -/
theorem alone_remove (h : Alone q (view s a u) t)
    (hr : s.requestQueue[i]? = some r) (hkey : isKey a u r = true) (received : Bytes)
    (hmsgs : ∀ msg ∈ msgs, msg.msgValue = u) :
    Alone q (view (writeTo (removeRequest s i) a msgs) a u)
      { writeAll t msgs with requested := false, received } := by
  obtain ⟨-, houtgoing, hrequests, -⟩ := h.at_place hr hkey
  have hview : view (writeTo (removeRequest s i) a msgs) a u =
      { view s a u with incoming := (view s a u).incoming ++ msgs, requests := [] } := by
    rw [view_writeTo_self hmsgs]
    have hfilter := filter_eraseIdx hr hkey hrequests
    simp [view, removeRequest, hfilter]
  rw [hview]
  exact { reply := h.reply, incoming := congrArg (· ++ msgs) h.incoming, aborts := h.aborts
          record := h.record, phase := Phase.gone houtgoing rfl rfl }

theorem NetworkRequest.finish_eq (r : NetworkRequest) : r.finish =
    metaDataMsgs r.request r.metaDataSent r.metaData ++ [dataMsg r.request []] := by
  rw [NetworkRequest.finish, NetworkRequest.sendMetaDataIfNeeded_eq]

theorem NetworkRequest.forwardData_eq (r : NetworkRequest) : r.forwardData =
    ({ r with metaDataSent := true, received := [] },
      metaDataMsgs r.request r.metaDataSent r.metaData ++
        if r.received = [] then [] else [dataMsg r.request r.received]) := by
  rw [NetworkRequest.forwardData, NetworkRequest.sendMetaDataIfNeeded_eq]
  by_cases hempty : r.received = [] <;> simp [hempty]

theorem alone_signal (hq : q = requestOf metaData a u) (h : Alone q (view s a u) t)
    (hr : s.requestQueue[i]? = some r) (hkey : isKey a u r = true) (sig : Signal Bytes) :
    ∃ act, act ≠ .readWebApp ∧ (∀ now, act = .change now ↔ sig = .change now) ∧
      Alone q (view (stepRequest s i r sig) a u) (Response.step q t act) := by
  obtain ⟨rfl, houtgoing, hrequests, hreq⟩ := h.at_place hr hkey
  have hwebappId : q.srcId = a := by rw [hq]; rfl
  have hurlId : q.urlId = u := by rw [hq]; rfl
  cases sig with
  | arrive bytes =>
      refine ⟨.arrive bytes, by simp, by simp, ?_⟩
      have hupdated := alone_update hq h hr hkey t.metaDataSent t.metaData
          (t.received ++ bytes) false
        (List.forall_mem_nil _)
      have hview : view (stepRequest s i (inQueue q t) (.arrive bytes)) a u =
          { view (updateRequest s i
              (⟨q, t.metaDataSent, t.metaData, t.received ++ bytes, false⟩, [])) a u with
            record := ⟨t.body ++ bytes, t.returned, t.finishedSignals, t.aborted⟩ } := by
        rw [stepRequest]
        change view (setRecord (updateRequest s i
          (⟨q, t.metaDataSent, t.metaData, t.received ++ bytes, false⟩, [])) q.srcId
            q.urlId _) a u = _
        rw [hwebappId, hurlId, view_setRecord_self, hupdated.record]
        rfl
      rw [hview, Response.step, if_pos hreq]
      exact { reply := hupdated.reply
              incoming := hupdated.incoming.trans (List.append_nil _)
              aborts := h.aborts
              record := rfl
              phase := hupdated.phase.congr rfl rfl rfl rfl rfl }
  | change now =>
      refine ⟨.change now, by simp, by simp, ?_⟩
      have hupdated := alone_update hq h hr hkey t.metaDataSent now t.received t.announced
        (List.forall_mem_nil _)
      rw [stepRequest, Response.step, if_pos hreq]
      exact { reply := hupdated.reply
              incoming := hupdated.incoming.trans (List.append_nil _)
              aborts := h.aborts
              record := hupdated.record
              phase := hupdated.phase.congr rfl rfl rfl rfl rfl }
  | metaDataChanged =>
      refine ⟨.metaDataChanged, by simp, by simp, ?_⟩
      have hmsgs := NetworkRequest.sendMetaDataIfNeeded_msgValue (r := inQueue q t)
      rw [NetworkRequest.sendMetaDataIfNeeded_eq] at hmsgs
      rw [stepRequest, NetworkRequest.sendMetaDataIfNeeded_eq, Response.step, if_pos hreq,
        Response.sendMetaDataIfNeeded_eq]
      exact alone_update hq h hr hkey true t.metaData t.received t.announced
        fun msg hmsg => (hmsgs msg hmsg).trans hurlId
  | readyRead =>
      refine ⟨.readyRead, by simp, by simp, ?_⟩
      have hmsgs := NetworkRequest.forwardData_msgValue
          (r := { inQueue q t with announced := true })
      rw [NetworkRequest.forwardData_eq] at hmsgs
      rw [stepRequest, NetworkRequest.forwardData_eq, Response.step, if_pos hreq,
          Response.forwardData_eq]
      exact alone_update hq h hr hkey true t.metaData [] true
        fun msg hmsg => (hmsgs msg hmsg).trans hurlId
  | finished =>
      refine ⟨.finished, by simp, by simp, ?_⟩
      have hmsgs := NetworkRequest.finish_msgValue (r := inQueue q t)
      rw [NetworkRequest.finish_eq] at hmsgs
      rw [stepRequest, Response.step]
      by_cases hannounced : (inQueue q t).announced = true
      · rw [if_pos hannounced, NetworkRequest.finish_eq, if_pos ⟨hreq, hannounced⟩,
          Response.finish_eq]
        change Alone q (view (writeTo (removeRequest s i) q.srcId _) a u) _
        rw [hwebappId]
        exact alone_remove h hr hkey t.received fun msg hmsg => (hmsgs msg hmsg).trans hurlId
      · rw [if_neg hannounced, if_neg fun hboth => hannounced hboth.2]
        exact h

end Place

/-- The network component reads a message about the request. -/
theorem alone_readNetwork (hq : q = requestOf metaData a u) (h : Alone q (view s a u) t)
    {msg : Message} {rest : List Message} (hpipe : s.toNetwork = msg :: rest)
    (hown : own a u msg = true) : ∃ acts : List Response.Action, acts <+: [.readNetwork] ∧
      Alone q (view (dispatchNetwork { s with toNetwork := rest } metaData msg) a u)
        (acts.foldl (Response.step q) t) := by
  have hwebappId : q.srcId = a := by rw [hq]; rfl
  have hurlId : q.urlId = u := by rw [hq]; rfl
  have hout : (view s a u).outgoing = msg :: rest.filter (own a u) := by simp [view, hpipe, hown]
  have hmsg : msg.srcId = a ∧ msg.msgValue = u := by
    have hkey : msg.srcId = a ∧ msg.msgValue = u ∧ _ := of_decide_eq_true hown
    exact ⟨hkey.1, hkey.2.1⟩
  have hne : ¬ msgFetchUrlAbort = msgFetchUrl := by decide
  cases h.phase with
  | sent msg' htype houtgoing hrequests hreq hnew =>
      -- the request comes into the queue
      rw [hout] at houtgoing
      obtain ⟨rfl, hrest⟩ := List.cons.inj houtgoing
      refine ⟨[], List.nil_prefix, ?_⟩
      have hview : view (dispatchNetwork { s with toNetwork := rest } metaData msg) a u =
          { view s a u with
            outgoing := rest.filter (own a u)
            requests := [{ request := q }] } := by
        have hkey : isKey a u { request := requestOf metaData a u } = true := by
          simp [isKey, requestOf, NetworkRequest.webappId, NetworkRequest.urlId]
        have hqueue : (s.requestQueue ++
            [({ request := requestOf metaData a u } : NetworkRequest)]).filter
            (isKey a u) = [{ request := requestOf metaData a u }] := by
          change s.requestQueue.filter (isKey a u) = [] at hrequests
          rw [List.filter_append, hrequests, List.filter_cons_of_pos hkey]
          rfl
        rw [dispatchNetwork, if_pos htype, hmsg.1, hmsg.2, hq]
        exact congrArg (View.mk _ _ _ · _) hqueue
      rw [hview]
      exact { reply := h.reply, incoming := h.incoming, aborts := h.aborts, record := h.record
              phase := Phase.queued hrest (by rw [List.foldl_nil, hnew]) hreq }
  | queued houtgoing hrequests hreq =>
      -- the request is aborted
      rw [hout] at houtgoing
      have htype : msg.msgType = msgFetchUrlAbort :=
        h.aborts msg (houtgoing ▸ List.mem_cons_self)
      refine ⟨[.readNetwork], List.prefix_rfl, ?_⟩
      have hrest : Alone q (view { s with toNetwork := rest } a u)
          { t with toNetwork := rest.filter (own a u) } :=
        { reply := h.reply, incoming := h.incoming, record := h.record
          aborts := fun msg' hmsg' => h.aborts msg' (houtgoing ▸ List.mem_cons_of_mem msg hmsg')
          phase := Phase.queued rfl hrequests hreq }
      have hsome : (s.requestQueue.findIdx? fun r => r.webappId = msg.srcId ∧
          r.urlId = msg.msgValue).isSome = true := by
        have hmem : inQueue q t ∈ s.requestQueue.filter (isKey a u) := by
          change _ ∈ (view s a u).requests
          rw [hrequests]
          exact List.mem_singleton_self _
        rw [List.findIdx?_isSome, List.any_eq_true, hmsg.1, hmsg.2]
        exact ⟨_, (List.mem_filter.mp hmem).1, (List.mem_filter.mp hmem).2⟩
      obtain ⟨i, hi⟩ := Option.isSome_iff_exists.mp hsome
      obtain ⟨r, hr, hr₁, hr₂⟩ := findIdx?_key hi
      have hkey : isKey a u r = true := by simp [isKey, hr₁, hr₂, hmsg.1, hmsg.2]
      obtain ⟨heq, -⟩ := hrest.at_place hr hkey
      have hmsgs := NetworkRequest.abort_msgValue (r := inQueue q t)
      rw [NetworkRequest.abort, NetworkRequest.finish_eq] at hmsgs
      have hstep : Response.step q t .readNetwork =
          abortRequest q { t with toNetwork := rest.filter (own a u) } := by
        rw [Response.step, ← houtgoing]
        simp only
        rw [Response.dispatchNetwork, if_pos ⟨htype, hreq, by rw [hmsg.1, hwebappId],
          by rw [hmsg.2, hurlId]⟩]
      rw [dispatchNetwork, if_neg (by rw [htype]; exact hne), if_pos htype]
      simp only [hi, hr]
      rw [List.foldl_cons, List.foldl_nil, hstep, abortRequest, Response.finish_eq, heq]
      change Alone q (view (writeTo _ q.srcId (NetworkRequest.abort (inQueue q t))) a u) _
      rw [hwebappId, NetworkRequest.abort, NetworkRequest.finish_eq]
      exact alone_remove hrest hr hkey [] fun msg' hmsg' => (hmsgs msg' hmsg').trans hurlId
  | gone houtgoing hrequests hreq =>
      -- nobody is left to be aborted
      rw [hout] at houtgoing
      have htype : msg.msgType = msgFetchUrlAbort :=
        h.aborts msg (houtgoing ▸ List.mem_cons_self)
      refine ⟨[.readNetwork], List.prefix_rfl, ?_⟩
      have hnone : s.requestQueue.findIdx? (fun r => r.webappId = msg.srcId ∧
          r.urlId = msg.msgValue) = none := by
        rw [List.findIdx?_eq_none_iff, hmsg.1, hmsg.2]
        intro r hr
        exact Bool.eq_false_of_not_eq_true (List.filter_eq_nil_iff.mp hrequests r hr)
      have hstep : Response.step q t .readNetwork =
          { t with toNetwork := rest.filter (own a u) } := by
        rw [Response.step, ← houtgoing]
        simp only
        rw [Response.dispatchNetwork, if_neg fun hall => by simp [hreq] at hall]
      rw [dispatchNetwork, if_neg (by rw [htype]; exact hne), if_pos htype]
      simp only [hnone]
      rw [List.foldl_cons, List.foldl_nil, hstep]
      exact { reply := h.reply, incoming := h.incoming, record := h.record
              aborts := fun msg' hmsg' => h.aborts msg' (houtgoing ▸ List.mem_cons_of_mem msg hmsg')
              phase := Phase.gone rfl hrequests hreq }

end OpBrowser.Traffic
