import OpBrowser.Verification.Downloads.Served

/-! # What a step does to the downloads of a web app

The downloaders of a web app have ids of their own, so that each is served alone. -/

namespace OpBrowser.Downloads

open Response Storage
open Traffic (view View)

/-- What holds of the downloads of a web app. -/
structure Inv (metaData : I32 → I32 → Bytes) (a : I32) (s : State) : Prop where
  traffic : Traffic.Inv metaData a s.traffic
  served : ∀ u d, s.downloaders a u = some d →
    Serves (view s.traffic a u) d (stream (a, d.reqId) (s.taken ++ s.toStorage))
  used : ∀ u d, s.downloaders a u = some d → d.reqId < s.reqId a
  apart : ∀ u v d d', s.downloaders a u = some d → s.downloaders a v = some d' →
    d.reqId = d'.reqId → u = v
  unused : ∀ k, s.reqId a ≤ k → stream (a, k) (s.taken ++ s.toStorage) = []

variable {q : QtVariants} {info : I32 → I32 → ReplyInfo} {metaData : I32 → I32 → Bytes}
  {s s' : State} {a b u v : I32}

theorem inv_start : Inv metaData a {} where
  traffic := Traffic.inv_start
  served _ _ hd := by cases hd
  used _ _ hd := by cases hd
  apart _ _ _ _ hd := by cases hd
  unused _ _ := rfl

/-! ### Steps about other downloads -/

/-- Nothing happens to the downloads of the web app. -/
theorem Inv.other (h : Inv metaData a s) (htraffic : Traffic.Inv metaData a s'.traffic)
    (hsame : ∀ u d, s.downloaders a u = some d → Same (view s.traffic a u) (view s'.traffic a u))
    (hdownloaders : s'.downloaders a = s.downloaders a) (hreqId : s'.reqId a = s.reqId a)
    (hstream : ∀ k, stream (a, k) (s'.taken ++ s'.toStorage) =
      stream (a, k) (s.taken ++ s.toStorage)) : Inv metaData a s' where
  traffic := htraffic
  served u d hd := by
    rw [hdownloaders] at hd
    rw [hstream]
    exact (h.served u d hd).same (hsame u d hd)
  used u d hd := by
    rw [hdownloaders] at hd
    rw [hreqId]
    exact h.used u d hd
  apart u v d d' hd hd' := by
    rw [hdownloaders] at hd hd'
    exact h.apart u v d d' hd hd'
  unused k hk := by
    rw [hreqId] at hk
    rw [hstream]
    exact h.unused k hk

/-- A downloader has its reply. -/
theorem Inv.made (h : Inv metaData a s) {d : OpDownloader} (hd : s.downloaders a u = some d) :
    (s.traffic.webApps a).reqId ≠ u := by
  intro hu
  have hidle := h.traffic.unused u hu.le
  exact (h.served u d hd).made (congrArg View.reply hidle)

/-- A step of the requests that feeds no reply with a downloader. -/
theorem Inv.traffic_step (h : Inv metaData a s) {act : Traffic.Action Bytes}
    (hsend : ∀ msg, act ≠ .send a msg)
    (hread : ∀ u maxSize, act = .readData a u maxSize → s.downloaders a u = none)
    (hfeeds : ∀ b, act = .readWebApp b → ∀ u d, s.downloaders a u = some d →
      ¬ Feeds s.traffic a u b) :
    Inv metaData a { s with traffic := Traffic.step metaData s.traffic act } := by
  refine h.other (h.traffic.step hsend) (fun u d hd => ?_) rfl rfl fun _ => rfl
  refine same_step (fun _ => h.made hd) (fun maxSize hact => ?_) fun b hact => hfeeds b hact u d hd
  rw [hread u maxSize hact] at hd
  cases hd

/-- The downloader of another web app. -/
theorem Inv.serve_other (h : Inv metaData a s) (hb : b ≠ a) {t : Traffic.State} {reqId : I32 → I32}
    (htraffic : Traffic.Inv metaData a t)
    (hsame : ∀ u, Same (view s.traffic a u) (view t a u)) (hreqId : reqId a = s.reqId a)
    (d : OpDownloader × List Bytes) :
    Inv metaData a (serve { s with traffic := t, reqId } b v d) := by
  refine h.other htraffic (fun u _ _ => hsame u) ?_ hreqId fun k => ?_
  · exact Function.update_of_ne (Ne.symm hb) _ _
  · have hne : (b, d.1.reqId) ≠ (a, k) := fun heq => hb (congrArg Prod.fst heq)
    change stream (a, k) (s.taken ++ (s.toStorage ++ d.2.map (request b d.1.reqId))) = _
    rw [← List.append_assoc, stream_append_list, stream_request_of_ne hne, List.append_nil]

/-- The downloader of a request of the web app. -/
theorem Inv.serve_own (h : Inv metaData a s) {t : Traffic.State} {reqId : I32 → I32}
    {d : OpDownloader × List Bytes} (htraffic : Traffic.Inv metaData a t)
    (hothers : ∀ u, u ≠ v → ∀ d, s.downloaders a u = some d →
      Same (view s.traffic a u) (view t a u))
    (hown : Serves (view t a v) d.1 (stream (a, d.1.reqId) (s.taken ++ s.toStorage) ++ d.2))
    (hle : s.reqId a ≤ reqId a) (hlt : d.1.reqId < reqId a)
    (hapart : ∀ u, u ≠ v → ∀ d', s.downloaders a u = some d' → d'.reqId ≠ d.1.reqId) :
    Inv metaData a (serve { s with traffic := t, reqId } a v d) := by
  have hself : (serve { s with traffic := t, reqId } a v d).downloaders a v = some d.1 := by
    simp [serve]
  have hother : ∀ u, u ≠ v → (serve { s with traffic := t, reqId } a v d).downloaders a u =
      s.downloaders a u := by
    intro u hu
    simp [serve, hu]
  have hmsgs : ∀ k, stream (a, k) (s.taken ++ (s.toStorage ++ d.2.map (request a d.1.reqId))) =
      stream (a, k) (s.taken ++ s.toStorage) ++ if k = d.1.reqId then d.2 else [] := by
    intro k
    rw [← List.append_assoc, stream_append_list]
    by_cases hk : k = d.1.reqId
    · rw [if_pos hk, hk, stream_request_self]
    · have hne : (a, d.1.reqId) ≠ (a, k) := fun heq => hk (congrArg Prod.snd heq).symm
      rw [if_neg hk, stream_request_of_ne hne]
  constructor
  · exact htraffic
  · intro u d' hd'
    change Serves (view t a u) d' (stream (a, d'.reqId) (s.taken ++ (s.toStorage ++ _)))
    by_cases hu : u = v
    · subst hu
      rw [hself] at hd'
      cases hd'
      rw [hmsgs, if_pos rfl]
      exact hown
    · rw [hother u hu] at hd'
      rw [hmsgs, if_neg (hapart u hu d' hd'), List.append_nil]
      exact (h.served u d' hd').same (hothers u hu d' hd')
  · intro u d' hd'
    by_cases hu : u = v
    · subst hu
      rw [hself] at hd'
      cases hd'
      exact hlt
    · rw [hother u hu] at hd'
      exact (h.used u d' hd').trans_le hle
  · intro u w d₁ d₂ h₁ h₂ heq
    by_cases hu : u = v
    · by_cases hw : w = v
      · rw [hu, hw]
      · rw [hu, hself] at h₁
        rw [hother w hw] at h₂
        cases h₁
        exact absurd heq.symm (hapart w hw d₂ h₂)
    · rw [hother u hu] at h₁
      by_cases hw : w = v
      · rw [hw, hself] at h₂
        cases h₂
        exact absurd heq (hapart u hu d₁ h₁)
      · rw [hother w hw] at h₂
        exact h.apart u w d₁ d₂ h₁ h₂ heq
  · intro k hk
    change reqId a ≤ k at hk
    change stream (a, k) (s.taken ++ (s.toStorage ++ _)) = []
    have hne : k ≠ d.1.reqId := by
      rintro rfl
      exact absurd hlt (not_lt.mpr hk)
    rw [hmsgs, if_neg hne, List.append_nil]
    exact h.unused k (hle.trans hk)

/-! ### A reply is fed -/

theorem traffic_readAll {t : Traffic.State} (h : Traffic.Inv metaData a t) :
    Traffic.Inv metaData a (readAll b u t).2 := by
  rw [readAll]
  split
  · exact h
  · rename_i r hr
    have hstep : Traffic.Inv metaData a
        (Traffic.step metaData t (.readData b u r.reply.readBuffer.data.length)) := h.step (by simp)
    exact hstep

/-- The reply of a request that was made, as the request has it alone. -/
theorem Inv.alone (h : Inv metaData a s) {r : Traffic.Reply}
    (hr : (s.traffic.webApps a).replies[u]? = some r) : ∃ acts,
      Traffic.Alone (Traffic.requestOf metaData a u) (view s.traffic a u)
        (Response.run (Traffic.requestOf metaData a u) acts) ∧
      r = ⟨(Response.run (Traffic.requestOf metaData a u) acts).queued,
        (Response.run (Traffic.requestOf metaData a u) acts).reply⟩ := by
  cases h.traffic.made u with
  | inl hidle =>
      have hnone : (s.traffic.webApps a).replies[u]? = none := congrArg View.reply hidle
      rw [hr] at hnone
      cases hnone
  | inr halone =>
      obtain ⟨acts, halone⟩ := halone
      have hreply : (s.traffic.webApps a).replies[u]? = _ := halone.reply
      rw [hr] at hreply
      exact ⟨acts, halone, Option.some_inj.mp hreply⟩

/-- A reply that says so is finished, and only then. -/
theorem Inv.told (h : Inv metaData a s) {r : Traffic.Reply}
    (hr : (s.traffic.webApps a).replies[u]? = some r) :
    r.reply.state = .finished ↔ (s.traffic.record a u).finishedSignals ≠ 0 := by
  obtain ⟨acts, halone, rfl⟩ := h.alone hr
  have hrecord : s.traffic.record a u = _ := halone.record
  rw [hrecord]
  exact told_run _ acts

/-- A reply that is fed was not finished before. -/
theorem Inv.fed (h : Inv metaData a s) {msg : Message} {rest : List Message} {r : Traffic.Reply}
    (hpipe : s.traffic.toWebApp a = msg :: rest) (hu : msg.msgValue = u)
    (hr : (s.traffic.webApps a).replies[u]? = some r) (hqueued : r.queued = true) :
    (s.traffic.record a u).finishedSignals = 0 ∧ OpNetworkReply.Cursors r.reply := by
  obtain ⟨acts, halone, rfl⟩ := h.alone hr
  have hinv := Response.inv_run (Traffic.requestOf metaData a u) acts
  have hrecord : s.traffic.record a u = _ := halone.record
  refine ⟨?_, hinv.cursors⟩
  rw [hrecord]
  have hnot : (Response.run (Traffic.requestOf metaData a u) acts).aborted = false := by
    have hkept := hinv.queued.symm.trans hqueued
    simpa using hkept
  have hincoming : (s.traffic.toWebApp a).filter (·.msgValue = u) = _ := halone.incoming
  rw [hpipe, List.filter_cons_of_pos (by simp [hu])] at hincoming
  by_contra hsignals
  have honce := hinv.whole.once
  have hempty := ((hinv.finished hnot).mp (by dsimp only at hsignals; omega)).2
  rw [hempty] at hincoming
  cases hincoming

/-- What a web app has after it has read a message for a reply. -/
theorem view_fed (metaData : I32 → I32 → Bytes) {t : Traffic.State} {msg : Message}
    {rest : List Message} {r : Traffic.Reply} (hpipe : t.toWebApp a = msg :: rest)
    (hu : msg.msgValue = u) (htype : msg.msgType = msgReturnUrl)
    (hr : (t.webApps a).replies[u]? = some r) (hqueued : r.queued = true) :
    (view (Traffic.step metaData t (.readWebApp a)) a u).reply =
        some { r with reply := r.reply.feed msg.payload.data } ∧
      (view (Traffic.step metaData t (.readWebApp a)) a u).record =
        { t.record a u with
          finishedSignals :=
            if msg.payload.data.length = 0 then (t.record a u).finishedSignals + 1
            else (t.record a u).finishedSignals } := by
  subst hu
  simp only [Traffic.step, hpipe, Traffic.dispatchWebApp, htype, if_true, Traffic.handleData, hr,
    hqueued]
  split
  · rename_i hdata
    rw [Traffic.view_setRecord_self, Traffic.view_setReply_self]
    exact ⟨rfl, rfl⟩
  · rename_i hdata
    rw [Traffic.view_setReply_self]
    exact ⟨rfl, rfl⟩

/-- The downloader of a reply that is fed. -/
theorem Inv.signalled_own (h : Inv metaData a s) {msg : Message} {rest : List Message}
    {r : Traffic.Reply} (hpipe : s.traffic.toWebApp a = msg :: rest) (hu : msg.msgValue = u)
    (htype : msg.msgType = msgReturnUrl) (hr : (s.traffic.webApps a).replies[u]? = some r)
    (hqueued : r.queued = true) :
    Inv metaData a (signalled q info
      { s with traffic := Traffic.step metaData s.traffic (.readWebApp a) } a u
        msg.payload.data) := by
  have htraffic : Traffic.Inv metaData a (Traffic.step metaData s.traffic (.readWebApp a)) :=
    h.traffic.step (by simp)
  have hothers : ∀ v, v ≠ u → Same (view s.traffic a v)
      (view (Traffic.step metaData s.traffic (.readWebApp a)) a v) := by
    intro v hv
    refine same_readWebApp ?_
    rintro ⟨-, msg', rest', r', hpipe', hmsg', -⟩
    rw [hpipe] at hpipe'
    cases hpipe'
    exact hv (hmsg'.symm.trans hu)
  obtain ⟨hbefore, hcursors⟩ := h.fed hpipe hu hr hqueued
  obtain ⟨hreply, hrecord⟩ := view_fed metaData hpipe hu htype hr hqueued
  have hheld : (view s.traffic a u).reply.map (·.reply.unread) = some r.reply.unread := by
    simp [view, hr]
  rw [signalled]
  dsimp only
  cases hd : s.downloaders a u with
  | none =>
      refine h.traffic_step (by simp) (by simp) ?_
      rintro b - v d hv ⟨-, msg', rest', r', hpipe', hmsg', -⟩
      rw [hpipe] at hpipe'
      cases hpipe'
      rw [← hmsg', hu, hd] at hv
      cases hv
  | some d =>
      have hserved := h.served u d hd
      dsimp only
      split
      · rename_i hdata
        refine h.serve_own htraffic (fun v hv _ _ => hothers v hv) ?_ le_rfl (h.used u d hd) ?_
        · refine hserved.finish hbefore ?_ ?_ ?_
          · rw [hreply, hheld, List.length_eq_zero_iff.mp hdata]
            rfl
          · rw [hrecord]
            rfl
          · rw [hrecord, if_pos hdata]
            simp
        · intro v hv d' hd' heq
          exact hv (h.apart v u d' d hd' hd heq)
      · rename_i hdata
        have hne : msg.payload.data ≠ [] := fun hnil => hdata (by rw [hnil]; rfl)
        have hr' : ((Traffic.step metaData s.traffic (.readWebApp a)).webApps a).replies[u]? =
            some { r with reply := r.reply.feed msg.payload.data } := hreply
        have hunread := OpNetworkReply.feed_unread hcursors msg.payload.data
        obtain ⟨hread, hreadRecord⟩ := view_readAll hr'
        have hall : (readAll a u (Traffic.step metaData s.traffic (.readWebApp a))).1 =
            r.reply.unread ++ msg.payload.data := (readAll_bytes hr').trans hunread
        have hrecord' : (Traffic.step metaData s.traffic (.readWebApp a)).record a u = _ := hrecord
        rw [hall]
        refine h.serve_own ?_ (fun v hv d' hd' => ?_) ?_ le_rfl ?_ ?_
        · exact traffic_readAll htraffic
        · refine (hothers v hv).trans (Same.of_eq ?_)
          exact view_readAll_of_ne hv
        · rw [OpDownloader.downloadReadyRead_reqId]
          refine hserved.readyRead hne hbefore hheld hread ?_ ?_
          · rw [hreadRecord, hrecord', hunread]
            rfl
          · rw [hreadRecord, hrecord', if_neg hdata]
            rfl
        · rw [OpDownloader.downloadReadyRead_reqId]
          exact h.used u d hd
        · rw [OpDownloader.downloadReadyRead_reqId]
          intro v hv d' hd' heq
          exact hv (h.apart v u d' d hd' hd heq)

/-! ### A downloader is made -/

theorem Inv.newOpDownloader_own (h : Inv metaData a s)
    (hreturned : (s.traffic.record a u).returned = []) :
    Inv metaData a (newOpDownloader q info s a u) := by
  rw [newOpDownloader]
  split
  · exact h
  · rename_i r hr
    have htold := h.told hr
    have hempty : stream (a, s.reqId a) (s.taken ++ s.toStorage) = [] := h.unused _ le_rfl
    have hlt : s.reqId a < Function.update s.reqId a (s.reqId a + 1) a := by simp
    have hapart : ∀ v, v ≠ u → ∀ d', s.downloaders a v = some d' → d'.reqId ≠ s.reqId a :=
      fun v _ d' hd' => (h.used v d' hd').ne
    dsimp only
    by_cases hstate : r.reply.state = .finished
    · obtain ⟨hread, hreadRecord⟩ := view_readAll hr
      rw [hreturned, List.nil_append] at hreadRecord
      simp only [hstate, decide_true, if_true]
      rw [readAll_bytes hr]
      obtain ⟨bytes, hinit⟩ := OpDownloader.init_finished (headerOf q info a u) r.reply.unread
        (d := { reqId := s.reqId a, late := true
                waiting := (r.reply.readBuffer.seek r.reply.readIdx).bytesAvailable }) rfl
      rw [hinit]
      refine h.serve_own ?_ (fun v hv _ _ => Same.of_eq (view_readAll_of_ne hv)) ?_
          hlt.le hlt hapart
      · exact traffic_readAll h.traffic
      · rw [hempty, List.nil_append]
        refine Serves.sending _ _ rfl (Or.inl rfl) ?_ ?_ hread ?_
        · split
          · simp
          · rename_i hne
            simpa using hne
        · rw [hreadRecord]
          split
          · rename_i hnil
            exact hnil.symm
          · simp
        · rw [hreadRecord]
          exact ⟨fun _ => htold.mp hstate, fun _ => rfl⟩
    · simp only [hstate, decide_false, Bool.false_eq_true, if_false]
      refine h.serve_own h.traffic (fun v _ _ _ => Same.of_eq rfl) ?_ hlt.le hlt hapart
      dsimp only [OpDownloader.init]
      rw [if_neg Bool.false_ne_true]
      dsimp only
      rw [hempty, List.nil_append]
      refine Serves.waiting r.reply.unread rfl rfl ?_ ?_ hreturned ?_
      · exact OpNetworkReply.bytesAvailable_seek.symm
      · simp [view, hr]
      · exact iff_of_false Bool.false_ne_true fun hsignals => hstate (htold.mpr hsignals)

theorem Inv.newOpDownloader_other (h : Inv metaData a s) (hb : b ≠ a) :
    Inv metaData a (newOpDownloader q info s b u) := by
  have hreqId : Function.update s.reqId b (s.reqId b + 1) a = s.reqId a :=
    Function.update_of_ne (Ne.symm hb) _ _
  rw [newOpDownloader]
  split
  · exact h
  · rename_i r hr
    dsimp only
    split
    · exact h.serve_other hb (traffic_readAll h.traffic)
        (fun v => Same.of_eq (view_readAll_other hb)) hreqId _
    · exact h.serve_other hb h.traffic (fun v => Same.of_eq rfl) hreqId _

theorem Inv.signalled_other (h : Inv metaData a s) (hb : b ≠ a) (data : Bytes) :
    Inv metaData a (signalled q info s b u data) := by
  rw [signalled]
  split
  · exact h
  · split
    · exact h.serve_other hb h.traffic (fun v => Same.of_eq rfl) rfl _
    · exact h.serve_other hb (traffic_readAll h.traffic)
        (fun v => Same.of_eq (view_readAll_other hb)) rfl _

/-! ### All steps -/

theorem Inv.readWebApp (h : Inv metaData a s) :
    Inv metaData a (readWebApp q info metaData s b) := by
  have hquiet : (∀ u d, s.downloaders a u = some d → ¬ Feeds s.traffic a u b) →
      Inv metaData a { s with traffic := Traffic.step metaData s.traffic (.readWebApp b) } := by
    intro hnone
    refine h.traffic_step (by simp) (by simp) ?_
    intro b' hact
    cases hact
    exact hnone
  rw [Downloads.readWebApp]
  split
  · rename_i hpipe
    refine hquiet ?_
    rintro u d - ⟨rfl, msg, rest, r, hpipe', -⟩
    rw [hpipe] at hpipe'
    cases hpipe'
  · rename_i msg rest hpipe
    split
    · rename_i hr
      refine hquiet ?_
      rintro u d - ⟨rfl, msg', rest', r, hpipe', rfl, -, hr', -⟩
      rw [hpipe] at hpipe'
      cases hpipe'
      rw [hr] at hr'
      cases hr'
    · rename_i r hr
      split
      · rename_i hfeeds
        by_cases hb : b = a
        · subst hb
          exact h.signalled_own hpipe rfl hfeeds.1 hr hfeeds.2
        · refine (hquiet ?_).signalled_other hb _
          rintro u d - ⟨hba, -⟩
          exact hb hba
      · rename_i hfeeds
        refine hquiet ?_
        rintro u d - ⟨rfl, msg', rest', r', hpipe', rfl, htype, hr', hqueued⟩
        rw [hpipe] at hpipe'
        cases hpipe'
        rw [hr] at hr'
        cases hr'
        exact hfeeds ⟨htype, hqueued⟩

theorem Inv.downloadRequested (h : Inv metaData a s) :
    Inv metaData a (newOpDownloader q info
      { s with traffic := Traffic.createRequest s.traffic b } b (s.traffic.webApps b).reqId) := by
  have hcreated : Inv metaData a
      { s with traffic := Traffic.step metaData s.traffic (.createRequest b) } :=
    h.traffic_step (by simp) (by simp) (by simp)
  by_cases hb : b = a
  · subst hb
    refine hcreated.newOpDownloader_own ?_
    have hidle := h.traffic.unused _ le_rfl
    exact congrArg (fun v => v.record.returned) hidle
  · exact hcreated.newOpDownloader_other hb

/-- The web app does not write to other components by other ways. -/
def Action.Own (a : I32) (act : Action) : Prop :=
  ∀ msg, act ≠ .traffic (.send a msg) ∧ act ≠ .write a msg

theorem Inv.step (h : Inv metaData a s) {act : Action} (hact : act.Own a) :
    Inv metaData a (step q info metaData s act) := by
  cases act with
  | traffic act =>
      have hsend : ∀ msg, act ≠ .send a msg := fun msg heq => (hact msg).1 (by rw [heq])
      cases act with
      | readWebApp b => exact h.readWebApp
      | readData b u maxSize =>
          rw [Downloads.step]
          split
          · exact h
          · rename_i hnone
            have hfree : ∀ v n, (.readData b u maxSize : Traffic.Action Bytes) = .readData a v n →
                s.downloaders a v = none := by
              intro v n heq
              cases heq
              simpa using hnone
            have hstep : Inv metaData a
                { s with traffic := Traffic.step metaData s.traffic (.readData b u maxSize) } :=
              h.traffic_step hsend hfree (by simp)
            exact hstep
      | _ => exact h.traffic_step hsend (by simp) (by simp)
  | downloadRequested b => exact h.downloadRequested
  | handleUnsupportedContent b u =>
      rw [Downloads.step]
      split
      · rename_i hunread
        by_cases hb : b = a
        · subst hb
          exact h.newOpDownloader_own hunread.2
        · exact h.newOpDownloader_other hb
      · exact h
  | write b msg =>
      have hb : b ≠ a := by
        rintro rfl
        exact (hact msg).2 rfl
      refine h.other h.traffic (fun _ _ _ => Same.of_eq rfl) rfl rfl fun k => ?_
      have hne : (b, msg.msgValue) ≠ (a, k) := fun heq => hb (congrArg Prod.fst heq)
      change stream (a, k) (s.taken ++ (s.toStorage ++ [{ msg with srcId := b }])) = _
      rw [← List.append_assoc, stream_append, stream_of_ne_id hne, List.append_nil]
  | readStorage =>
      rw [Downloads.step]
      split
      · rename_i msg rest hpipe
        refine h.other h.traffic (fun _ _ _ => Same.of_eq rfl) rfl rfl fun k => ?_
        rw [hpipe, List.append_assoc, List.singleton_append]
      · exact h

end OpBrowser.Downloads
