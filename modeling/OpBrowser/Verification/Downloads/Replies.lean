import OpBrowser.Model.OpDownloader
import OpBrowser.Verification.Traffic.Apart

/-! # The replies that downloaders read

A downloader depends on the bytes that its reply holds, on those that were read and on the
signal `finished`. Few steps change these. -/

namespace OpBrowser.Downloads

open Response Traffic

/-! ### The end of a reply -/

/-- The reply is finished if and only if it has said so. -/
def Told (s : Response.State) : Prop := s.reply.state = .finished ↔ s.finishedSignals ≠ 0

section Alone

variable {q : Response.Request} {s : Response.State}

theorem Told.of_eq {s' : Response.State} (h : Told s) (hreply : s'.reply = s.reply)
    (hsignals : s'.finishedSignals = s.finishedSignals) : Told s' := by
  rw [Told, hreply, hsignals]
  exact h

theorem told_feed (h : Told s) (data : Bytes) : Told (Response.handleData s data) := by
  rw [Response.handleData]
  split
  · by_cases hdata : data.length = 0
    · simp [Told, OpNetworkReply.feed, hdata]
    · simpa [Told, OpNetworkReply.feed, hdata] using h
  · exact h

theorem told_abort (h : Told s) : Told (Response.abort q s) := by
  rw [Response.abort]
  dsimp only
  split
  · rename_i hne
    have hnone : s.finishedSignals = 0 := by
      by_contra hsignals
      exact hne (h.mpr hsignals)
    simp [Told, hnone]
  · exact h

theorem Told.step (h : Told s) (act : Response.Action) : Told (Response.step q s act) := by
  cases act with
  | arrive bytes =>
      simp only [Response.step]
      split
      · exact h
      · exact h
  | change metaData =>
      simp only [Response.step]
      split
      · exact h
      · exact h
  | metaDataChanged =>
      simp only [Response.step]
      split
      · rw [sendMetaDataIfNeeded_eq]
        exact h
      · exact h
  | readyRead =>
      simp only [Response.step]
      split
      · rw [forwardData_eq]
        exact h
      · exact h
  | finished =>
      simp only [Response.step]
      split
      · rw [finish_eq]
        exact h
      · exact h
  | readNetwork =>
      simp only [Response.step]
      split
      · rw [Response.dispatchNetwork]
        split
        · rw [abortRequest, finish_eq]
          exact h
        · exact h
      · exact h
  | readWebApp =>
      simp only [Response.step]
      split
      · rename_i msg rest hpipe
        rw [Response.dispatchWebApp]
        split
        · exact told_feed (s := { s with toWebApp := rest }) h msg.payload.data
        · exact h
      · exact h
  | readData maxSize =>
      rw [Response.step, read_eq]
      exact h
  | abort => exact told_abort h

theorem told_run (q : Response.Request) (acts : List Response.Action) :
    Told (Response.run q acts) :=
  List.foldlRecOn acts (Response.step q) (by simp [Told]) fun _ h act _ => h.step act

end Alone

/-! ### Steps that leave a reply alone -/

/-- What a downloader depends on has not changed. -/
structure Same (v v' : View) : Prop where
  unread : v'.reply.map (·.reply.unread) = v.reply.map (·.reply.unread)
  returned : v'.record.returned = v.record.returned
  finishedSignals : v'.record.finishedSignals = v.record.finishedSignals

theorem Same.of_eq {v v' : View} (h : v' = v) : Same v v' := by
  subst h
  exact ⟨rfl, rfl, rfl⟩

theorem Same.trans {v v' w : View} (h : Same v v') (h' : Same v' w) : Same v w where
  unread := h'.unread.trans h.unread
  returned := h'.returned.trans h.returned
  finishedSignals := h'.finishedSignals.trans h.finishedSignals

variable {metaData : I32 → I32 → Bytes} {s s' : Traffic.State} {a b u v : I32}

theorem Same.of_parts (hreplies : (s'.webApps a).replies[u]? = (s.webApps a).replies[u]?)
    (hrecord : s'.record = s.record) : Same (view s a u) (view s' a u) := by
  refine ⟨?_, ?_, ?_⟩
  · simp only [view, hreplies]
  · simp only [view, hrecord]
  · simp only [view, hrecord]

/-- The network component does not touch the web apps. -/
theorem same_dispatchNetwork (msg : Message) :
    Same (view s a u) (view (Traffic.dispatchNetwork s metaData msg) a u) := by
  rw [Traffic.dispatchNetwork]
  split
  · exact Same.of_parts rfl rfl
  · split
    · split
      · exact Same.of_parts rfl rfl
      · split
        · exact Same.of_parts rfl rfl
        · exact Same.of_parts rfl rfl
    · exact Same.of_parts rfl rfl

theorem same_signal (i : ℕ) (r : Traffic.NetworkRequest) (sig : Traffic.Signal Bytes) :
    Same (view s a u) (view (stepRequest s i r sig) a u) := by
  cases sig with
  | arrive bytes =>
      rw [stepRequest]
      by_cases hkey : r.webappId = a ∧ r.urlId = u
      · obtain ⟨rfl, rfl⟩ := hkey
        rw [view_setRecord_self]
        exact ⟨rfl, rfl, rfl⟩
      · rw [view_setRecord_of_ne hkey]
        exact Same.of_parts rfl rfl
  | change now => exact Same.of_parts rfl rfl
  | metaDataChanged => exact Same.of_parts rfl rfl
  | readyRead => exact Same.of_parts rfl rfl
  | finished =>
      rw [stepRequest]
      split
      · exact Same.of_parts rfl rfl
      · exact Same.of_eq rfl

theorem same_abort (b v : I32) : Same (view s a u) (view (Traffic.abort s b v) a u) := by
  by_cases hkey : b = a ∧ v = u
  · obtain ⟨rfl, rfl⟩ := hkey
    rw [Traffic.abort]
    split
    · exact Same.of_eq rfl
    · rename_i r hr
      have hreply : (view s b v).reply = some r := hr
      dsimp only
      split
      · rw [view_toNetwork_append, view_setReply_self, view_setRecord_self]
        exact ⟨by rw [hreply]; rfl, rfl, rfl⟩
      · rw [view_setReply_self, view_setRecord_self]
        exact ⟨by rw [hreply]; rfl, rfl, rfl⟩
  · exact Same.of_eq (view_abort_of_ne hkey)

/-- The message is for the buffer of the reply of this request. -/
def Feeds (s : Traffic.State) (a u b : I32) : Prop :=
  b = a ∧ ∃ msg rest r, s.toWebApp a = msg :: rest ∧ msg.msgValue = u ∧ msg.msgType = msgReturnUrl ∧
    (s.webApps a).replies[u]? = some r ∧ r.queued = true

theorem same_readWebApp (h : ¬ Feeds s a u b) :
    Same (view s a u) (view (Traffic.step metaData s (.readWebApp b)) a u) := by
  cases hpipe : s.toWebApp b with
  | nil => simpa only [Traffic.step, hpipe] using Same.of_eq rfl
  | cons msg rest =>
      simp only [Traffic.step, hpipe]
      by_cases hkey : b = a ∧ msg.msgValue = u
      · obtain ⟨rfl, rfl⟩ := hkey
        rw [Traffic.dispatchWebApp]
        split
        · rename_i htype
          rw [Traffic.handleData]
          split
          · exact Same.of_parts rfl rfl
          · rename_i r hr
            split
            · rename_i hqueued
              exact absurd ⟨rfl, msg, rest, r, hpipe, rfl, htype, hr, hqueued⟩ h
            · exact Same.of_parts rfl rfl
        · exact Same.of_parts rfl rfl
      · rw [view_dispatchWebApp_of_ne hkey]
        exact Same.of_parts rfl rfl

/-- Any other step leaves a reply that exists alone. -/
theorem same_step {act : Traffic.Action Bytes} (hmade : act = .createRequest a →
    (s.webApps a).reqId ≠ u)
    (hread : ∀ maxSize, act ≠ .readData a u maxSize)
    (hfeeds : ∀ b, act = .readWebApp b → ¬ Feeds s a u b) :
    Same (view s a u) (view (Traffic.step metaData s act) a u) := by
  cases act with
  | createRequest b =>
      refine Same.of_eq (view_createRequest_of_ne ?_)
      rintro ⟨rfl, hu⟩
      exact hmade rfl hu
  | cookiesForUrl b => exact Same.of_eq (view_setReqId _)
  | send b msg => exact Same.of_parts rfl rfl
  | readWebApp b => exact same_readWebApp (hfeeds b rfl)
  | readData b v maxSize =>
      refine Same.of_eq (view_readData_of_ne ?_ maxSize)
      rintro ⟨rfl, rfl⟩
      exact hread maxSize rfl
  | abort b v => exact same_abort b v
  | readNetwork =>
      simp only [Traffic.step]
      split
      · rename_i msg rest hpipe
        have hrest : Same (view s a u) (view { s with toNetwork := rest } a u) :=
          Same.of_parts rfl rfl
        exact hrest.trans (same_dispatchNetwork msg)
      · exact Same.of_eq rfl
  | signal i sig =>
      simp only [Traffic.step]
      split
      · exact same_signal i _ sig
      · exact Same.of_eq rfl

end OpBrowser.Downloads
