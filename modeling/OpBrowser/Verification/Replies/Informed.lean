import OpBrowser.Verification.Replies.ListStreams
import OpBrowser.Verification.Replies.RoundTrip
import OpBrowser.Verification.Replies.Stages
import OpBrowser.Verification.Traffic.Apart

/-! # Pages are informed before they read

When a page sees the first byte of a response or its end, the reply has the attributes, the
headers and the error that the `m_reply` of the same request had when they were sent. What
changes after that, such as an error in the middle of the body, does not reach the page. -/

namespace OpBrowser.Replies

open Response
open Traffic (view View Alone requestOf Reads isKey)

variable {q : QtLists} {url : I32 → I32 → q.QUrl} {m_reply : I32 → I32 → QNetworkReply q}
  {s : State q} {a u : I32} {r : QNetworkReply q} {act : Traffic.Action (QNetworkReply q)}
  {as : List (Traffic.Action (QNetworkReply q))}

/-- The page sees a byte of the response or its end. -/
def Sees (s : State q) (a u : I32) : Prop :=
  (s.traffic.record a u).returned ≠ [] ∨ (s.traffic.record a u).finishedSignals ≠ 0 ∨
    ∃ r, (s.traffic.webApps a).replies[u]? = some r ∧ r.reply.unread ≠ []

/-- Between the two states the metadata of the request are sent. -/
def Sends (s s' : State q) (a u : I32) : Prop :=
  ∃ msgs, (s'.traffic.toWebApp a).filter (·.msgValue = u) =
      (s.traffic.toWebApp a).filter (·.msgValue = u) ++ msgs ∧
    ∃ msg ∈ msgs, msg.msgType = msgReturnUrlMetadata

/-- The `m_reply` of the request as it was when its metadata were sent. -/
def Snapshot (url : I32 → I32 → q.QUrl) (m_reply : I32 → I32 → QNetworkReply q)
    (as : List (Traffic.Action (QNetworkReply q))) (a u : I32) (r : QNetworkReply q) : Prop :=
  ∃ as₁ act as₂, as = as₁ ++ act :: as₂ ∧ (run url m_reply as₁).m_reply a u = r ∧
    Sends (run url m_reply as₁) (run url m_reply (as₁ ++ [act])) a u

/-- What the reply says to a request that was made. -/
structure Informed (url : I32 → I32 → q.QUrl) (m_reply : I32 → I32 → QNetworkReply q)
    (as : List (Traffic.Action (QNetworkReply q))) (a u : I32) : Prop where
  sameUrl : ((run url m_reply as).reply a u).headers.url = url a u
  /-- Nothing of any other request, and of this one what it was at one time. -/
  whole : (run url m_reply as).reply a u = newReply url a u ∨
    ∃ r, Snapshot url m_reply as a u r ∧ Informs ((run url m_reply as).reply a u) r
  informed : Sees (run url m_reply as) a u →
    ∃ r, Snapshot url m_reply as a u r ∧ Informs ((run url m_reply as).reply a u) r
  once : ∀ r r', Snapshot url m_reply as a u r → Snapshot url m_reply as a u r' → r = r'

/-! ### One step -/

theorem traffic_step : (step url m_reply s act).traffic =
    Traffic.step (fun a u => (m_reply a u).metaData) s.traffic
      (act.map QNetworkReply.metaData) := by
  cases act with
  | readWebApp a =>
      cases hpipe : s.traffic.toWebApp a with
      | nil => simp [step, Traffic.Action.map, Traffic.step, hpipe]
      | cons msg rest =>
          have hsame : (dispatchWebApp s a msg).traffic = s.traffic := by
            rw [dispatchWebApp, handleMetaData]
            repeat' split
            all_goals rfl
          simp only [step, hpipe, hsame]
  | signal i sig =>
      cases sig with
      | change r =>
          cases hr : s.traffic.requestQueue[i]? with
          | none => simp [step, Traffic.Action.map, Traffic.Signal.map, Traffic.step, hr]
          | some entry => simp only [step, hr, change]
      | _ => rfl
  | _ => rfl

theorem reply_createRequest (a : I32) :
    (step url m_reply s (.createRequest a)).reply a (s.traffic.webApps a).reqId =
      newReply url a (s.traffic.webApps a).reqId := by
  simp [step, setReply]

theorem reply_setReply_of_ne {b v : I32} {r : QNetworkReply q} (hne : ¬ (b = a ∧ v = u)) :
    (setReply s b v r).reply a u = s.reply a u := by
  by_cases hb : b = a
  · subst hb
    have hv : u ≠ v := fun h => hne ⟨rfl, h.symm⟩
    simp [setReply, Function.update_of_ne hv]
  · simp [setReply, Function.update_of_ne (Ne.symm hb)]

/-- The web app reads a message of the request. -/
theorem reply_readWebApp {msg : Message} {rest : List Message} {r : Traffic.Reply}
    (hpipe : s.traffic.toWebApp a = msg :: rest) (hu : msg.msgValue = u)
    (hr : (s.traffic.webApps a).replies[u]? = some r) :
    (step url m_reply s (.readWebApp a)).reply a u =
      if msg.msgType = msgReturnUrlMetadata ∧ r.queued = true then
        (s.reply a u).feedMetaData msg.payload.data else s.reply a u := by
  subst hu
  simp only [step, hpipe, dispatchWebApp, handleMetaData, hr]
  by_cases htype : msg.msgType = msgReturnUrlMetadata
  · cases hqueued : r.queued with
    | false => simp [htype]
    | true => simp [htype, setReply]
  · simp [htype]

/-- The other steps leave the reply alone. -/
theorem reply_other (hmade : act = .createRequest a → (s.traffic.webApps a).reqId ≠ u)
    (hreads : ¬ Reads s.traffic a u (act.map QNetworkReply.metaData)) :
    (step url m_reply s act).reply a u = s.reply a u := by
  cases act with
  | createRequest b =>
      refine reply_setReply_of_ne ?_
      rintro ⟨rfl, hu⟩
      exact hmade rfl hu
  | readWebApp b =>
      cases hpipe : s.traffic.toWebApp b with
      | nil => simp [step, hpipe]
      | cons msg rest =>
          have hne : ¬ (b = a ∧ msg.msgValue = u) := by
            rintro ⟨rfl, hu⟩
            exact hreads ⟨rfl, msg, by simp [hpipe], hu⟩
          simp only [step, hpipe, dispatchWebApp, handleMetaData]
          split
          · split
            · rfl
            · split
              · exact reply_setReply_of_ne hne
              · rfl
          · rfl
  | signal i sig =>
      cases sig with
      | change r =>
          simp only [step]
          split <;> rfl
      | _ => rfl
  | _ => rfl

/-- A change of the `m_reply` of the request. -/
theorem m_reply_changed {now : Bytes}
    (h : Traffic.Changes s.traffic a u (act.map QNetworkReply.metaData) now) :
    ∃ i r, act = .signal i (.change r) ∧ r.metaData = now ∧
      (step url m_reply s act).m_reply a u = r := by
  obtain ⟨i, entry, hact, hentry, hkey⟩ := h
  have hself : entry.webappId = a ∧ entry.urlId = u := of_decide_eq_true hkey
  cases act with
  | signal j sig =>
      cases sig with
      | change r =>
          cases hact
          exact ⟨i, r, rfl, rfl, by simp [step, hentry, change, hself]⟩
      | _ => cases hact
  | _ => cases hact

theorem m_reply_other
    (h : ∀ now, ¬ Traffic.Changes s.traffic a u (act.map QNetworkReply.metaData) now) :
    (step url m_reply s act).m_reply a u = s.m_reply a u := by
  cases act with
  | createRequest b => rfl
  | readWebApp b =>
      simp only [step, dispatchWebApp, handleMetaData]
      repeat' split
      all_goals rfl
  | signal i sig =>
      cases sig with
      | change r =>
          cases hentry : s.traffic.requestQueue[i]? with
          | none => simp [step, hentry]
          | some entry =>
              have hne : ¬ (entry.webappId = a ∧ entry.urlId = u) := fun hself =>
                h r.metaData ⟨i, entry, rfl, hentry, decide_eq_true hself⟩
              simp only [step, hentry, change]
              by_cases hb : entry.webappId = a
              · have hv : u ≠ entry.urlId := fun hu => hne ⟨hb, hu.symm⟩
                rw [← hb, Function.update_self, Function.update_of_ne hv]
              · rw [Function.update_of_ne (Ne.symm hb)]
      | _ => rfl
  | _ => rfl

/-! ### Runs -/

theorem run_concat : run url m_reply (as ++ [act]) = step url m_reply (run url m_reply as) act :=
  List.foldl_concat ..

theorem snapshot_concat : Snapshot url m_reply (as ++ [act]) a u r ↔ Snapshot url m_reply as a u r ∨
    (run url m_reply as).m_reply a u = r ∧
      Sends (run url m_reply as) (run url m_reply (as ++ [act])) a u := by
  constructor
  · rintro ⟨as₁, act', as₂, heq, hr, hsends⟩
    cases List.eq_nil_or_concat' as₂ with
    | inl hnil =>
        subst hnil
        obtain ⟨rfl, hact⟩ := List.append_inj' heq rfl
        cases hact
        exact Or.inr ⟨hr, hsends⟩
    | inr hcons =>
        obtain ⟨as₃, last, rfl⟩ := hcons
        rw [← List.cons_append, ← List.append_assoc] at heq
        obtain ⟨rfl, -⟩ := List.append_inj' heq rfl
        exact Or.inl ⟨as₁, act', as₃, rfl, hr, hsends⟩
  · rintro (⟨as₁, act', as₂, rfl, hr, hsends⟩ | ⟨hr, hsends⟩)
    · exact ⟨as₁, act', as₂ ++ [act], by simp, hr, hsends⟩
    · exact ⟨as, act, [], rfl, hr, hsends⟩

/-- The steps of a request alone with the replies as they start. -/
abbrev ownRequest (m_reply : I32 → I32 → QNetworkReply q) (a u : I32) : Response.Request :=
  requestOf (fun a u => (m_reply a u).metaData) a u

/-- What holds of a request that was made, where `t` is its state alone. -/
structure Made (url : I32 → I32 → q.QUrl) (m_reply : I32 → I32 → QNetworkReply q)
    (as : List (Traffic.Action (QNetworkReply q))) (a u : I32) (t : Response.State) : Prop where
  alone : Alone (ownRequest m_reply a u) (view (run url m_reply as).traffic a u) t
  reached : Response.Inv (ownRequest m_reply a u) t
  stage : Stage (newReply url a u) t ((run url m_reply as).reply a u)
  now : t.requested = true → t.metaData = ((run url m_reply as).m_reply a u).metaData
  said : ∀ msg ∈ t.sent, msg.msgType = msgReturnUrlMetadata →
    ∃ r, Snapshot url m_reply as a u r ∧ msg.payload = .ofBytes r.metaData
  heard : ∀ r, Snapshot url m_reply as a u r → ∃ msg ∈ t.sent, msg.msgType = msgReturnUrlMetadata
  once : ∀ r r', Snapshot url m_reply as a u r → Snapshot url m_reply as a u r' → r = r'

/-- How far a request is. -/
inductive Known (url : I32 → I32 → q.QUrl) (m_reply : I32 → I32 → QNetworkReply q)
    (as : List (Traffic.Action (QNetworkReply q))) (a u : I32) : Prop where
  | idle (hview : view (run url m_reply as).traffic a u = View.idle)
      (hnew : (run url m_reply as).m_reply a u = m_reply a u)
      (hnone : ∀ r, ¬ Snapshot url m_reply as a u r)
  | made (t : Response.State) (hmade : Made url m_reply as a u t)

/-- The metadata are sent no second time. -/
theorem metaData_once {req : Response.Request} {metaDataSent ended : Bool}
    {msgs msgs' : List Message}
    (h : Response.Sent req metaDataSent ended (msgs ++ msgs')) {msg msg' : Message}
      (hmsg : msg ∈ msgs)
    (hmsg' : msg' ∈ msgs') : msg'.msgType = msgReturnUrl := by
  cases msgs with
  | nil => cases hmsg
  | cons first msgs => exact (sent_cons h).2 msg' (List.mem_append_right msgs hmsg')

/-- A step of a request that was made: what it writes goes into the pipe to the page, and the
metadata among it are those of the `m_reply` before the step. -/
theorem Made.step {t t' : Response.State} (h : Made url m_reply as a u t)
    (halone : Alone (ownRequest m_reply a u) (view (run url m_reply (as ++ [act])).traffic a u) t')
    (hreached : Response.Inv (ownRequest m_reply a u) t') (htells : Tells t t')
    (hstage : Stage (newReply url a u) t' ((run url m_reply (as ++ [act])).reply a u))
    (hnow : t'.requested = true →
      t'.metaData = ((run url m_reply (as ++ [act])).m_reply a u).metaData)
    (hwritten : ∃ msgs, t'.sent = t.sent ++ msgs ∧
      (t'.toWebApp = t.toWebApp ++ msgs ∨ msgs = [] ∧ ∃ msg, t.toWebApp = msg :: t'.toWebApp)) :
    Made url m_reply (as ++ [act]) a u t' := by
  obtain ⟨msgs, hsent, hpipe⟩ := hwritten
  have hsends : Sends (run url m_reply as) (run url m_reply (as ++ [act])) a u ↔
      ∃ msg ∈ msgs, msg.msgType = msgReturnUrlMetadata := by
    have hincoming : ((run url m_reply as).traffic.toWebApp a).filter
        (·.msgValue = u) = t.toWebApp :=
      h.alone.incoming
    have hincoming' : ((run url m_reply (as ++ [act])).traffic.toWebApp a).filter (·.msgValue = u) =
        t'.toWebApp := halone.incoming
    rw [Sends, hincoming, hincoming']
    rcases hpipe with hpipe | ⟨rfl, msg, hpipe⟩
    · simp [hpipe]
    · have hshort : ∀ msgs, t'.toWebApp ≠ t.toWebApp ++ msgs := by
        intro msgs heq
        have hlength := congrArg List.length heq
        rw [hpipe, List.length_append, List.length_cons] at hlength
        omega
      simp [hshort]
  have hall := hreached.sent
  rw [hsent] at hall
  refine ⟨halone, hreached, hstage, hnow, fun msg hmsg htype => ?_, fun r hr => ?_,
      fun r r' hr hr' => ?_⟩
  · rw [hsent, List.mem_append] at hmsg
    have hold : msg ∈ t.sent →
        ∃ r, Snapshot url m_reply (as ++ [act]) a u r ∧ msg.payload = .ofBytes r.metaData := by
      intro hmem
      obtain ⟨r, hr, hpayload⟩ := h.said msg hmem htype
      exact ⟨r, snapshot_concat.mpr (Or.inl hr), hpayload⟩
    cases hmsg with
    | inl hmsg => exact hold hmsg
    | inr hmsg =>
        cases htells.metaData msg (hsent ▸ List.mem_append_right t.sent hmsg) htype with
        | inl hmem => exact hold hmem
        | inr hpayload =>
            rw [h.now hpayload.1] at hpayload
            exact ⟨_, snapshot_concat.mpr (Or.inr ⟨rfl, hsends.mpr ⟨msg, hmsg, htype⟩⟩), hpayload.2⟩
  · cases snapshot_concat.mp hr with
    | inl hold =>
        obtain ⟨msg, hmsg, htype⟩ := h.heard r hold
        exact ⟨msg, hsent ▸ List.mem_append_left msgs hmsg, htype⟩
    | inr hnew =>
        obtain ⟨msg, hmsg, htype⟩ := hsends.mp hnew.2
        exact ⟨msg, hsent ▸ List.mem_append_right t.sent hmsg, htype⟩
  · have hclash : ∀ r, Snapshot url m_reply as a u r →
        ¬ Sends (run url m_reply as) (run url m_reply (as ++ [act])) a u := by
      intro r hr hnew
      obtain ⟨msg, hmsg, -⟩ := h.heard r hr
      obtain ⟨msg', hmsg', htype'⟩ := hsends.mp hnew
      rw [metaData_once hall hmsg hmsg'] at htype'
      exact absurd htype' (by decide)
    rcases snapshot_concat.mp hr with hold | hnew
    · rcases snapshot_concat.mp hr' with hold' | hnew'
      · exact h.once r r' hold hold'
      · exact absurd hnew'.2 (hclash r hold)
    · rcases snapshot_concat.mp hr' with hold' | hnew'
      · exact absurd hnew.2 (hclash r' hold')
      · exact hnew.1.symm.trans hnew'.1

/-- The `m_reply` alone and the one of the whole state change together. -/
theorem Made.now_step {t : Response.State} {acts : List Response.Action}
    (h : Made url m_reply as a u t)
    (hown : Traffic.OwnStep (run url m_reply as).traffic a u (act.map QNetworkReply.metaData) acts)
    (hreq : (acts.foldl (Response.step (ownRequest m_reply a u)) t).requested = true) :
    (acts.foldl (Response.step (ownRequest m_reply a u)) t).metaData =
      ((run url m_reply (as ++ [act])).m_reply a u).metaData := by
  have hbefore : t.requested = true := (tells_foldl hown.short).requested hreq
  rw [run_concat]
  by_cases hchange : ∃ now, Traffic.Changes (run url m_reply as).traffic a u
      (act.map QNetworkReply.metaData) now
  · obtain ⟨now, hnow⟩ := hchange
    have hmem : .change now ∈ acts := (hown.changes now).mpr hnow
    obtain ⟨own, rfl⟩ := List.length_eq_one_iff.mp
      (le_antisymm hown.short (List.length_pos_of_mem hmem))
    obtain rfl := List.mem_singleton.mp hmem
    obtain ⟨i, r, -, hr, (hself : (Replies.step url m_reply _ act).m_reply a u = r)⟩ :=
      m_reply_changed hnow
    rw [hself, hr, List.foldl_cons, List.foldl_nil, Response.step, if_pos hbefore]
  · rw [not_exists] at hchange
    rw [m_reply_other hchange, ← h.now hbefore]
    refine metaData_foldl fun own hmem now heq => ?_
    subst heq
    exact hchange now ((hown.changes now).mp hmem)

/-- A request is unused, and then it runs alone. -/
structure Inv (url : I32 → I32 → q.QUrl) (m_reply : I32 → I32 → QNetworkReply q)
    (as : List (Traffic.Action (QNetworkReply q))) (a : I32) : Prop where
  traffic : Traffic.Inv (fun a u => (m_reply a u).metaData) a (run url m_reply as).traffic
  known : ∀ u, Known url m_reply as a u

theorem inv_start : Inv url m_reply [] a where
  traffic := Traffic.inv_start
  known _ := Known.idle (by simp [run, view, View.idle]) rfl (by simp [Snapshot])

theorem map_ne_send (hact : ∀ msg, act ≠ .send a msg) (msg : Message) :
    act.map QNetworkReply.metaData ≠ .send a msg := by
  cases act with
  | send b msg' =>
      intro heq
      cases heq
      exact hact _ rfl
  | _ => simp [Traffic.Action.map]

/-- The web app reads a message of the request. -/
theorem Made.reads {t : Response.State} (h : Made url m_reply as a u t) {msg : Message}
    (hhead : msg ∈ ((run url m_reply as).traffic.toWebApp a).head?) (hu : msg.msgValue = u) :
    ∃ t', Made url m_reply (as ++ [.readWebApp a]) a u t' := by
  obtain ⟨rest, hpipe⟩ := List.head?_eq_some_iff.mp hhead
  have hnext : t.toWebApp = msg :: rest.filter (·.msgValue = u) := by
    have hincoming : ((run url m_reply as).traffic.toWebApp a).filter (·.msgValue = u) = _ :=
      h.alone.incoming
    rwa [hpipe, List.filter_cons_of_pos (by simp [hu]), eq_comm] at hincoming
  obtain ⟨hsent, hrest⟩ := step_readWebApp (ownRequest m_reply a u) hnext
  refine ⟨Response.step (ownRequest m_reply a u) t .readWebApp,
    h.step ?_ (h.reached.step .readWebApp) (tells_step .readWebApp) ?_ (fun hreq => ?_)
      ⟨[], by rw [hsent, List.append_nil], Or.inr ⟨rfl, msg, by rw [hrest, hnext]⟩⟩⟩
  · rw [run_concat, traffic_step]
    simp only [Traffic.Action.map, Traffic.step, hpipe]
    exact Traffic.alone_readWebApp rfl h.alone hpipe hu
  · rw [run_concat, reply_readWebApp hpipe hu h.alone.reply]
    exact Stage.readWebApp h.reached h.stage hnext
  · rw [metaData_step (by simp), run_concat,
      m_reply_other (Traffic.not_changes (by simp [Traffic.Action.map]))]
    exact h.now ((tells_step .readWebApp).requested hreq)

/-- Any other step. -/
theorem Made.other {t : Response.State} (h : Made url m_reply as a u t)
    (hact : ∀ msg, act ≠ .send a msg) (hfresh : ((run url m_reply as).traffic.webApps a).reqId ≠ u)
    (hreads : ¬ Reads (run url m_reply as).traffic a u (act.map QNetworkReply.metaData)) :
    ∃ t', Made url m_reply (as ++ [act]) a u t' := by
  obtain ⟨acts, hown, halone⟩ := Traffic.alone_step (map_ne_send hact) hfresh h.alone
  have hkept : Kept t (acts.foldl (Response.step (ownRequest m_reply a u)) t) :=
    kept_foldl fun hmem => hreads (hown.reads hmem)
  obtain ⟨msgs, hsent, hpipe⟩ := hkept.written
  refine ⟨_, h.step ?_ ?_ (tells_foldl hown.short) ?_ (h.now_step hown) ⟨msgs, hsent, Or.inl hpipe⟩⟩
  · rw [run_concat, traffic_step]
    exact halone
  · exact List.foldlRecOn acts (Response.step _) h.reached fun _ hinv own _ => hinv.step own
  · rw [run_concat, reply_other (fun _ => hfresh) hreads]
    exact h.stage.kept hkept

theorem Inv.known_step (h : Inv url m_reply as a) (hact : ∀ msg, act ≠ .send a msg) (u : I32) :
    Known url m_reply (as ++ [act]) a u := by
  have htraffic : (run url m_reply (as ++ [act])).traffic = _ :=
    (congrArg State.traffic run_concat).trans traffic_step
  cases h.known u with
  | idle hview hnew hnone =>
      have hchange : ∀ now, ¬ Traffic.Changes (run url m_reply as).traffic a u
          (act.map QNetworkReply.metaData) now := by
        rintro now ⟨i, entry, -, hentry, hkey⟩
        have hqueue := congrArg View.requests hview
        exact absurd (List.mem_filter.mpr ⟨List.mem_of_getElem? hentry, hkey⟩) (by
          change _ ∉ (view (run url m_reply as).traffic a u).requests
          rw [hqueue]
          exact List.not_mem_nil)
      have hnew' : (run url m_reply (as ++ [act])).m_reply a u = m_reply a u := by
        rw [run_concat, m_reply_other hchange, hnew]
      have hquiet : ((run url m_reply (as ++ [act])).traffic.toWebApp a).filter
          (·.msgValue = u) = [] →
          ∀ r, ¬ Snapshot url m_reply (as ++ [act]) a u r := by
        intro hempty r hr
        rcases snapshot_concat.mp hr with hold | ⟨-, msgs, hmsgs, msg, hmsg, -⟩
        · exact hnone r hold
        · rw [hempty, eq_comm, List.append_eq_nil_iff] at hmsgs
          rw [hmsgs.2] at hmsg
          cases hmsg
      by_cases hmake : act = .createRequest a ∧ ((run url m_reply as).traffic.webApps a).reqId = u
      · obtain ⟨rfl, rfl⟩ := hmake
        have halone := Traffic.alone_createRequest (q := ownRequest m_reply a
          ((run url m_reply as).traffic.webApps a).reqId) hview rfl
        have hsilent := hquiet (by
          have hincoming := halone.incoming
          rw [htraffic]
          exact hincoming)
        refine Known.made _ ⟨?_, Response.inv_start,
            Stage.waiting rfl ?_ ⟨rfl, rfl, rfl⟩, fun _ => ?_,
          nofun, fun r hr => absurd hr (hsilent r), fun r r' hr => absurd hr (hsilent r)⟩
        · rw [htraffic]
          exact halone
        · rw [run_concat]
          exact reply_createRequest a
        · rw [hnew']
          rfl
      · have hidle : view (run url m_reply (as ++ [act])).traffic a u = View.idle := by
          rw [htraffic]
          refine Traffic.idle_step (map_ne_send hact) (fun hact' hu => hmake ⟨?_, hu⟩) hview
          cases act <;> simp_all [Traffic.Action.map]
        exact Known.idle hidle hnew' (hquiet (congrArg View.incoming hidle))
  | made t hmade =>
      have hfresh : ((run url m_reply as).traffic.webApps a).reqId ≠ u := by
        intro hu
        have hidle := congrArg View.reply (h.traffic.unused u hu.le)
        rw [hmade.alone.reply] at hidle
        cases hidle
      by_cases hreads : Reads (run url m_reply as).traffic a u (act.map QNetworkReply.metaData)
      · obtain ⟨hread, msg, hhead, hu⟩ := hreads
        have hact' : act = .readWebApp a := by
          cases act <;> simp_all [Traffic.Action.map]
        subst hact'
        obtain ⟨t', hmade'⟩ := hmade.reads hhead hu
        exact Known.made t' hmade'
      · obtain ⟨t', hmade'⟩ := hmade.other hact hfresh hreads
        exact Known.made t' hmade'

theorem inv_run (h : Traffic.Honest a as) : Inv url m_reply as a := by
  induction as using List.reverseRecOn with
  | nil => exact inv_start
  | append_singleton as act ih =>
      have hinv := ih fun act' hact' => h act' (List.mem_append_left [act] hact')
      have hact := h act (by simp)
      refine ⟨?_, hinv.known_step hact⟩
      rw [run_concat, traffic_step]
      exact hinv.traffic.step (map_ne_send hact)

/-! ### What the page knows -/

/-- Every `m_reply` of a run is the first one or comes with a change. -/
theorem documented_run (hnew : Documented (m_reply a u))
    (hchange : ∀ i r, .signal i (.change r) ∈ as → Documented r) :
    Documented ((run url m_reply as).m_reply a u) := by
  induction as using List.reverseRecOn with
  | nil => exact hnew
  | append_singleton as act ih =>
      rw [run_concat]
      by_cases hstep : ∃ now, Traffic.Changes (run url m_reply as).traffic a u
          (act.map QNetworkReply.metaData) now
      · obtain ⟨now, hnow⟩ := hstep
        obtain ⟨i, r, rfl, -, hself⟩ := m_reply_changed hnow
        rw [hself]
        exact hchange i r (by simp)
      · rw [m_reply_other (not_exists.mp hstep)]
        exact ih fun i r hmem => hchange i r (List.mem_append_left _ hmem)

/-- Without a byte of the response or its end, there is nothing to see. -/
theorem not_sees {req : Response.Request} {t : Response.State}
    (h : Alone req (view s.traffic a u) t) (hquiet : Quiet t) : ¬ Sees s a u := by
  have hrecord : s.traffic.record a u = _ := h.record
  have hreply : (s.traffic.webApps a).replies[u]? = _ := h.reply
  rw [Sees, hrecord, hreply]
  rintro (hreturned | hsignals | ⟨r, hr, hunread⟩)
  · exact hreturned hquiet.returned
  · exact hsignals hquiet.finishedSignals
  · cases hr
    exact hunread hquiet.unread

/-- In every run, when a page sees anything of a response, the reply of an honest web app says
what the `m_reply` of the same request was when its metadata were sent. -/
theorem informed_run (hq : q.Lawful) (hnew : Documented (m_reply a u))
    (hchange : ∀ i r, .signal i (.change r) ∈ as → Documented r) (h : Traffic.Honest a as)
    (hmade : ((run url m_reply as).traffic.webApps a).replies[u]? ≠ none) :
    Informed url m_reply as a u := by
  cases (inv_run h : Inv url m_reply as a).known u with
  | idle hview => exact absurd (congrArg View.reply hview) hmade
  | made t hmade =>
      cases hmade.stage with
      | waiting hpipe htold hquiet =>
          exact ⟨by rw [htold]; rfl, Or.inl htold,
            fun hsees => absurd hsees (not_sees hmade.alone hquiet), hmade.once⟩
      | abandoned hqueued htold hquiet =>
          exact ⟨by rw [htold]; rfl, Or.inl htold,
            fun hsees => absurd hsees (not_sees hmade.alone hquiet), hmade.once⟩
      | fed msg delivered hpipe htype htold =>
          obtain ⟨r, hr, hpayload⟩ := hmade.said msg (by simp [hpipe]) htype
          have hdocumented : Documented r := by
            obtain ⟨as₁, act, as₂, rfl, rfl, -⟩ := hr
            exact documented_run hnew fun i r hmem => hchange i r (List.mem_append_left _ hmem)
          have hinforms := informs_feedMetaData hq hdocumented url a u
          have hurl := url_feedMetaData hq hdocumented (newReply url a u)
          have hdata : msg.payload.data = r.metaData := by rw [hpayload]; rfl
          rw [hdata] at htold
          rw [← htold] at hinforms hurl
          exact ⟨hurl, Or.inr ⟨r, hr, hinforms⟩, fun _ => ⟨r, hr, hinforms⟩, hmade.once⟩

/-- The attributes of a response with this status, over a connection without encryption. -/
def withStatus (status : ℤ) : ℕ → Streams.ListVariant
  | 0 => .other (.plain (.ofInt status))
  | 3 => .bool false
  | _ => .other (.plain .invalid)

theorem isContainer_withStatus (status : ℤ) (code : ℕ) :
    (withStatus status code).isContainer = false := by
  unfold withStatus
  split <;> rfl

def page (status error : ℤ) : QNetworkReply Streams.lists where
  headers :=
    { url := bytes "http://a/"
      rawHeaders := [(bytes "Content-Type", bytes "text/html")]
      named := by simp [bytes]
      distinct := by simp }
  attributes := withStatus status
  error

/-- One page is there and another one is not. The connection breaks in the middle of the first. -/
def pages : List (Traffic.Action (QNetworkReply Streams.lists)) :=
  [.createRequest 1024, .createRequest 1024, .readNetwork, .readNetwork,
    .signal 1 (.change (page 404 203)), .signal 1 .metaDataChanged,
      .signal 0 (.change (page 200 0)),
    .signal 0 (.arrive [1]), .signal 0 .readyRead, .signal 0 (.change (page 200 2)),
    .readWebApp 1024, .readWebApp 1024, .readWebApp 1024, .readData 1024 0 8]

theorem informed_run_pages :
    ((run (fun _ _ => bytes "http://a/") (fun _ _ => page 0 0) pages).m_reply 1024 0).error = 2 ∧
      ((run (fun _ _ => bytes "http://a/") (fun _ _ => page 0 0) pages).reply 1024 0).error = 0 ∧
      Informed (fun _ _ => bytes "http://a/") (fun _ _ => page 0 0) pages 1024 0 := by
  have hdocumented : ∀ status error : ℤ, error ∈ [0, 2, 203] → Documented (page status error) := by
    intro status error herror
    refine ⟨fun code _ => isContainer_withStatus status code, ?_⟩
    revert error
    simp [page]
  refine ⟨by decide +kernel, by decide +kernel,
    informed_run Streams.lists_lawful (hdocumented 0 0 (by simp)) ?_
      (by simp [Traffic.Honest, pages])
      (by decide)⟩
  intro i r hmem
  simp only [pages, List.mem_cons, List.not_mem_nil, or_false, reduceCtorEq, false_or,
    Traffic.Action.signal.injEq, Traffic.Signal.change.injEq, and_false] at hmem
  rcases hmem with ⟨-, rfl⟩ | ⟨-, rfl⟩ | ⟨-, rfl⟩ <;> exact hdocumented _ _ (by simp)

end OpBrowser.Replies
