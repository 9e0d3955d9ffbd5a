import OpBrowser.Model.ReplyMetaData
import OpBrowser.Verification.Response.Whole

/-! # The metadata of one request

The metadata is the first message of a response. Until the web app has read it, the page sees
nothing of the response, and after that the reply does not change any more. -/

namespace OpBrowser.Replies

open Response

variable {q : QtLists}

/-! ### One request alone -/

/-- A page sees nothing of the response. -/
structure Quiet (t : Response.State) : Prop where
  returned : t.returned = []
  unread : t.reply.unread = []
  finishedSignals : t.finishedSignals = 0

/-- How far the metadata of a request is, and what the reply says. -/
inductive Stage (created : QNetworkReply q) (t : Response.State) (told : QNetworkReply q) :
    Prop where
  | waiting (hpipe : t.sent = t.toWebApp) (htold : told = created) (hquiet : Quiet t)
  | abandoned (hqueued : t.queued = false) (htold : told = created) (hquiet : Quiet t)
  | fed (msg : Message) (delivered : List Message) (hpipe : t.sent = msg :: delivered ++ t.toWebApp)
      (htype : msg.msgType = msgReturnUrlMetadata)
      (htold : told = created.feedMetaData msg.payload.data)

variable {created told : QNetworkReply q} {req : Response.Request} {t t' t'' : Response.State}

/-- What a step keeps that reads no message in the web app. -/
structure Kept (t t' : Response.State) : Prop where
  written : ∃ msgs, t'.sent = t.sent ++ msgs ∧ t'.toWebApp = t.toWebApp ++ msgs
  queued : t.queued = false → t'.queued = false
  quiet : Quiet t → Quiet t'

theorem Kept.trans (h : Kept t t') (h' : Kept t' t'') : Kept t t'' where
  written := by
    obtain ⟨msgs, hsent, hpipe⟩ := h.written
    obtain ⟨msgs', hsent', hpipe'⟩ := h'.written
    exact ⟨msgs ++ msgs', by rw [hsent', hsent, List.append_assoc],
      by rw [hpipe', hpipe, List.append_assoc]⟩
  queued hqueued := h'.queued (h.queued hqueued)
  quiet hquiet := h'.quiet (h.quiet hquiet)

/-- The two pipes and the web app are as before. -/
theorem Kept.of_eq (hsent : t'.sent = t.sent) (hpipe : t'.toWebApp = t.toWebApp)
    (hqueued : t'.queued = t.queued) (hreply : t'.reply = t.reply)
    (hreturned : t'.returned = t.returned) (hsignals : t'.finishedSignals = t.finishedSignals) :
    Kept t t' where
  written := ⟨[], by rw [hsent, List.append_nil], by rw [hpipe, List.append_nil]⟩
  queued h := hqueued.trans h
  quiet h := ⟨hreturned.trans h.returned, (congrArg _ hreply).trans h.unread,
    hsignals.trans h.finishedSignals⟩

theorem kept_writeAll (msgs : List Message) : Kept t (writeAll t msgs) where
  written := ⟨msgs, rfl, rfl⟩
  queued h := h
  quiet h := ⟨h.returned, h.unread, h.finishedSignals⟩

theorem Kept.finish (h : Kept t t') : Kept t (Response.finish req t') := by
  rw [finish_eq]
  exact (h.trans (kept_writeAll _)).trans (Kept.of_eq rfl rfl rfl rfl rfl rfl)

theorem kept_abort : Kept t (Response.abort req t) := by
  rw [Response.abort]
  dsimp only
  split
  · exact ⟨⟨[], (List.append_nil _).symm, (List.append_nil _).symm⟩, fun _ => rfl,
      fun h => ⟨h.returned, h.unread, h.finishedSignals⟩⟩
  · exact ⟨⟨[], (List.append_nil _).symm, (List.append_nil _).symm⟩, fun _ => rfl,
      fun h => ⟨h.returned, h.unread, h.finishedSignals⟩⟩

theorem kept_step {act : Response.Action} (hact : act ≠ .readWebApp) :
    Kept t (Response.step req t act) := by
  have hstay : Kept t t := Kept.of_eq rfl rfl rfl rfl rfl rfl
  cases act with
  | arrive bytes =>
      simp only [Response.step]
      split
      · exact Kept.of_eq rfl rfl rfl rfl rfl rfl
      · exact hstay
  | change metaData =>
      simp only [Response.step]
      split
      · exact Kept.of_eq rfl rfl rfl rfl rfl rfl
      · exact hstay
  | metaDataChanged =>
      simp only [Response.step]
      split
      · rw [sendMetaDataIfNeeded_eq]
        exact kept_writeAll _
      · exact hstay
  | readyRead =>
      simp only [Response.step]
      split
      · rw [forwardData_eq]
        exact ((Kept.of_eq rfl rfl rfl rfl rfl rfl).trans (kept_writeAll _)).trans
          (Kept.of_eq rfl rfl rfl rfl rfl rfl)
      · exact hstay
  | finished =>
      simp only [Response.step]
      split
      · exact hstay.finish
      · exact hstay
  | readNetwork =>
      simp only [Response.step]
      split
      · rw [Response.dispatchNetwork]
        split
        · exact Kept.finish (Kept.of_eq rfl rfl rfl rfl rfl rfl)
        · exact Kept.of_eq rfl rfl rfl rfl rfl rfl
      · exact hstay
  | readWebApp => exact absurd rfl hact
  | readData maxSize =>
      rw [Response.step, read_eq]
      refine ⟨⟨[], (List.append_nil _).symm, (List.append_nil _).symm⟩, fun h => h, fun h => ?_⟩
      refine ⟨?_, ?_, h.finishedSignals⟩
      · rw [h.returned, h.unread, List.take_nil, List.append_nil]
      · rw [OpNetworkReply.advance_unread, h.unread, List.drop_nil]
  | abort => exact kept_abort

theorem kept_foldl {acts : List Response.Action} (hacts : .readWebApp ∉ acts) :
    Kept t (acts.foldl (Response.step req) t) := by
  induction acts generalizing t with
  | nil => exact Kept.of_eq rfl rfl rfl rfl rfl rfl
  | cons act acts ih =>
      rw [List.mem_cons, not_or] at hacts
      exact (kept_step (Ne.symm hacts.1)).trans (ih hacts.2)

theorem Stage.kept (h : Stage created t told) (hkept : Kept t t') :
    Stage created t' told := by
  obtain ⟨msgs, hsent, hpipe'⟩ := hkept.written
  cases h with
  | waiting hpipe htold hquiet =>
      exact Stage.waiting (by rw [hsent, hpipe', hpipe]) htold (hkept.quiet hquiet)
  | abandoned hqueued htold hquiet =>
      exact Stage.abandoned (hkept.queued hqueued) htold (hkept.quiet hquiet)
  | fed msg delivered hpipe htype htold =>
      exact Stage.fed msg delivered (by rw [hsent, hpipe', hpipe, List.append_assoc]) htype htold

/-! ### What a request says of its `m_reply` -/

/-- A step sends no other metadata than those of the `m_reply` before it. -/
structure Tells (t t' : Response.State) : Prop where
  requested : t'.requested = true → t.requested = true
  metaData : ∀ msg ∈ t'.sent, msg.msgType = msgReturnUrlMetadata →
    msg ∈ t.sent ∨ t.requested = true ∧ msg.payload = .ofBytes t.metaData

theorem Tells.of_eq (hsent : t'.sent = t.sent) (hreq : t'.requested = t.requested) :
    Tells t t' where
  requested h := hreq.symm.trans h
  metaData _ hmsg _ := Or.inl (hsent ▸ hmsg)

theorem Tells.write (req : Response.Request) {msgs : List Message} (hreq : t.requested = true)
    (hsent : t'.sent = t.sent ++ (metaDataMsgs req t.metaDataSent t.metaData ++ msgs))
    (hmsgs : ∀ msg ∈ msgs, msg.msgType = msgReturnUrl) : Tells t t' where
  requested _ := hreq
  metaData msg hmsg htype := by
    rw [hsent, List.mem_append, List.mem_append] at hmsg
    rcases hmsg with hold | hmeta | hbody
    · exact Or.inl hold
    · rw [metaDataMsgs] at hmeta
      split at hmeta
      · cases hmeta
      · exact Or.inr ⟨hreq, by rw [List.mem_singleton.mp hmeta, metaDataMsg]⟩
    · rw [hmsgs msg hbody] at htype
      exact absurd htype (by decide)

theorem tells_step (act : Response.Action) : Tells t (Response.step req t act) := by
  have hstay : Tells t t := Tells.of_eq rfl rfl
  have hend : ∀ msg ∈ [dataMsg req []], msg.msgType = msgReturnUrl := by
    simp [dataMsg]
  cases act with
  | arrive bytes =>
      simp only [Response.step]
      split
      · exact Tells.of_eq rfl rfl
      · exact hstay
  | change metaData =>
      simp only [Response.step]
      split
      · exact Tells.of_eq rfl rfl
      · exact hstay
  | metaDataChanged =>
      simp only [Response.step]
      split
      next hreq =>
        rw [sendMetaDataIfNeeded_eq]
        exact Tells.write req hreq (by rw [writeAll, List.append_nil]) (List.forall_mem_nil _)
      next => exact hstay
  | readyRead =>
      simp only [Response.step]
      split
      next hreq =>
        rw [forwardData_eq]
        refine Tells.write req hreq rfl fun msg hmsg => ?_
        split at hmsg
        · cases hmsg
        · rw [List.mem_singleton.mp hmsg, dataMsg]
      next => exact hstay
  | finished =>
      simp only [Response.step]
      split
      next hreq =>
        rw [finish_eq]
        exact Tells.write req hreq.1 rfl hend
      next => exact hstay
  | readNetwork =>
      simp only [Response.step]
      split
      next hpipe =>
        rw [Response.dispatchNetwork]
        split
        next habort =>
          rw [abortRequest, finish_eq]
          exact Tells.write req habort.2.1 rfl hend
        next => exact Tells.of_eq rfl rfl
      next => exact hstay
  | readWebApp =>
      simp only [Response.step]
      split
      · rw [Response.dispatchWebApp, Response.handleData]
        split
        · split
          · exact Tells.of_eq rfl rfl
          · exact Tells.of_eq rfl rfl
        · exact Tells.of_eq rfl rfl
      · exact hstay
  | readData maxSize =>
      rw [Response.step, read_eq]
      exact Tells.of_eq rfl rfl
  | abort =>
      rw [Response.step, Response.abort]
      dsimp only
      split
      · exact Tells.of_eq rfl rfl
      · exact Tells.of_eq rfl rfl

/-- Nothing else changes the attributes, headers and error of `m_reply`. -/
theorem metaData_step {act : Response.Action} (hact : ∀ metaData, act ≠ .change metaData) :
    (Response.step req t act).metaData = t.metaData := by
  cases act with
  | change metaData => exact absurd rfl (hact metaData)
  | metaDataChanged =>
      simp only [Response.step, sendMetaDataIfNeeded_eq]
      split <;> rfl
  | readyRead =>
      simp only [Response.step, forwardData_eq]
      split <;> rfl
  | finished =>
      simp only [Response.step, finish_eq]
      split <;> rfl
  | readNetwork =>
      simp only [Response.step, Response.dispatchNetwork, abortRequest, finish_eq]
      split
      · split <;> rfl
      · rfl
  | readWebApp =>
      simp only [Response.step, Response.dispatchWebApp, Response.handleData]
      split
      · split
        · split <;> rfl
        · rfl
      · rfl
  | readData maxSize =>
      rw [Response.step, read_eq]
  | abort =>
      simp only [Response.step, Response.abort]
      split <;> rfl
  | arrive bytes =>
      simp only [Response.step]
      split <;> rfl

theorem metaData_foldl {acts : List Response.Action}
    (hacts : ∀ act ∈ acts, ∀ metaData, act ≠ .change metaData) :
    (acts.foldl (Response.step req) t).metaData = t.metaData := by
  induction acts generalizing t with
  | nil => rfl
  | cons act acts ih =>
      rw [List.foldl_cons, ih fun act' hact' => hacts act' (List.mem_cons_of_mem act hact')]
      exact metaData_step (hacts act List.mem_cons_self)

/-- One step at most says nothing but what the `m_reply` is before it. -/
theorem tells_foldl {acts : List Response.Action} (hshort : acts.length ≤ 1) :
    Tells t (acts.foldl (Response.step req) t) := by
  match acts with
  | [] => exact Tells.of_eq rfl rfl
  | [act] => exact tells_step act

/-! ### The web app reads a message -/

/-- The metadata is the first message, and the others hold the body. -/
theorem sent_cons {metaDataSent ended : Bool} {msg : Message} {msgs : List Message}
    (h : Response.Sent req metaDataSent ended (msg :: msgs)) :
    msg.msgType = msgReturnUrlMetadata ∧ ∀ msg' ∈ msgs, msg'.msgType = msgReturnUrl := by
  cases h.messages with
  | inl hnone => cases hnone.1
  | inr hsome =>
      obtain ⟨metaData, bodies, -, heq⟩ := hsome
      rw [List.append_assoc, List.singleton_append] at heq
      obtain ⟨rfl, hmsgs⟩ := List.cons.inj heq
      refine ⟨rfl, ?_⟩
      subst hmsgs
      intro msg' hmsg'
      cases List.mem_append.mp hmsg' with
      | inl hbody =>
          obtain ⟨data, -, rfl⟩ := List.mem_map.mp hbody
          rfl
      | inr hend =>
          cases ended with
          | false => simp at hend
          | true =>
              rw [if_pos rfl, List.mem_singleton] at hend
              rw [hend]
              rfl

theorem step_readWebApp (req : Response.Request) {msg : Message} {rest : List Message}
    (hnext : t.toWebApp = msg :: rest) :
    (Response.step req t .readWebApp).sent = t.sent ∧
      (Response.step req t .readWebApp).toWebApp = rest := by
  simp only [Response.step, hnext, Response.dispatchWebApp]
  split
  · rw [Response.handleData]
    split
    · exact ⟨rfl, rfl⟩
    · exact ⟨rfl, rfl⟩
  · exact ⟨rfl, rfl⟩

/-- Only a reply in the queue is fed with the metadata. -/
theorem Stage.readWebApp (hinv : Response.Inv req t) (h : Stage created t told)
    {msg : Message} {rest : List Message} (hnext : t.toWebApp = msg :: rest) :
    Stage created (Response.step req t .readWebApp)
      (if msg.msgType = msgReturnUrlMetadata ∧ t.queued = true then
        told.feedMetaData msg.payload.data else told) := by
  obtain ⟨hsent, hpipe'⟩ := step_readWebApp req hnext
  have hall := hinv.sent
  cases h with
  | waiting hpipe htold hquiet =>
      rw [hpipe, hnext] at hall
      obtain ⟨htype, -⟩ := sent_cons hall
      have hskip : Response.step req t .readWebApp = { t with toWebApp := rest } := by
        simp only [Response.step, hnext, Response.dispatchWebApp]
        exact if_neg (by simp [htype, msgReturnUrl, msgReturnUrlMetadata])
      cases hqueued : t.queued with
      | false =>
          rw [if_neg (by simp)]
          exact Stage.abandoned (by rw [hskip]; exact hqueued) htold
            (by rw [hskip]; exact ⟨hquiet.returned, hquiet.unread, hquiet.finishedSignals⟩)
      | true =>
          rw [if_pos ⟨htype, rfl⟩, htold]
          exact Stage.fed msg [] (by rw [hsent, hpipe', hpipe, hnext]; rfl) htype rfl
  | abandoned hqueued htold hquiet =>
      have hskip : Response.step req t .readWebApp = { t with toWebApp := rest } := by
        simp only [Response.step, hnext, Response.dispatchWebApp, Response.handleData, hqueued]
        simp
      rw [if_neg (by simp [hqueued]), hskip]
      exact Stage.abandoned hqueued htold ⟨hquiet.returned, hquiet.unread, hquiet.finishedSignals⟩
  | fed first delivered hpipe htype htold =>
      rw [hpipe, hnext] at hall
      have hbody := (sent_cons hall).2 msg (by simp)
      rw [if_neg (by simp [hbody, msgReturnUrl, msgReturnUrlMetadata])]
      exact Stage.fed first (delivered ++ [msg])
          (by rw [hsent, hpipe', hpipe, hnext]; simp) htype htold

end OpBrowser.Replies
