import OpBrowser.Library.Moves
import OpBrowser.Verification.Kernel.Handshake

/-! # The frames that the kernel passes on

A frame is taken out of its sender's pipe once. If it is for another component that the table
allows it to reach, it is put into that component's pipe at once, so the kernel neither
reorders nor repeats what a component says to another, and loses nothing that it says to
one of the four components of the start. -/

namespace OpBrowser

open Kernel

/-- The process that runs under this object id. -/
def pidOf (k : I32) : Pid :=
  if webappFirstId ≤ k then processOf k
  else if k = networkId then 1
  else if k = cookieId then 2
  else if k = storageId then 3
  else 4

/-- An object id that `main` or `preCreateWebApp` hands out. -/
def Object (k : I32) : Prop := k ∈ coreIds ∨ webappFirstId ≤ k

instance : DecidablePred Object := fun _ => inferInstanceAs (Decidable (_ ∨ _))

/-- What a frame says, without the fields that the kernel fills in. -/
def Message.said (m : Message) : Message := { m with srcId := 0, msgId := 0 }

/-- The kernel passed this frame on from one object to another. -/
def Sent.PassedOn (f : Sent) (src dst : I32) : Prop :=
  f.site = .handleMessage ∧ f.msg.srcId = src ∧ f.msg.dstId = dst

instance (f : Sent) (src dst : I32) : Decidable (f.PassedOn src dst) :=
  inferInstanceAs (Decidable (_ ∧ _))

/-- What the kernel passed on from one object to another. -/
def KState.passed (s : KState) (src dst : I32) : List Message :=
  (s.sent.filter fun f => f.PassedOn src dst).map fun f => f.msg.said

/-- What one object says to another in these frames, as far as the table allows it. -/
def speech (src dst : I32) (frames : List Message) : List Message :=
  (frames.filter fun m => m.dstId = dst ∧
    AccessControl.create.checkWrite { m with srcId := src } = true).map Message.said

/-- The frames that do not announce a web app. -/
def plain (frames : List Message) : List Message :=
  frames.filter fun m => m.msgType ≠ msgNewWebapp

/-- The way of the frames from one object to another: up to what is still in the sender's pipe
they were passed on in order, each once at most. One of the four components gets all of
them, except that a handler may take a web app's announcement for itself. -/
structure Relays (written : List Message) (s : KState) (src dst : I32)
    (read : List Message) : Prop where
  pipe : written = read ++ s.unread (pidOf src)
  order : (s.passed src dst).Sublist (speech src dst read)
  whole : dst ∈ coreIds → s.replayMode = false →
    plain (s.passed src dst) = plain (speech src dst read)

variable {s t u : KState} {src dst k : I32}

/-! ### Object ids and process numbers -/

/-- Every process has the number of its object id. -/
structure Named (s : KState) : Prop extends Numbered s where
  core : ∀ (a : Addr) (p : Process), s.procs[a]? = some p → p.objectId < webappFirstId →
    p.pid = pidOf p.objectId

theorem Named.pid_eq (h : Named s) {a : Addr} {p : Process} (hp : s.procs[a]? = some p) :
    p.pid = pidOf p.objectId := by
  by_cases hweb : webappFirstId ≤ p.objectId
  · rw [h.number a p hp hweb, pidOf, if_pos hweb]
  · exact h.core a p hp (not_le.mp hweb)

theorem pidOf_core : ∀ k ∈ coreIds, ∀ n ∈ coreIds, pidOf k = pidOf n → k = n := by decide

theorem pidOf_core_lt : ∀ k ∈ coreIds, pidOf k < 5 := by decide

theorem pidOf_injective (hk : Object k) {n : I32} (hn : Object n)
    (h : pidOf k = pidOf n) : k = n := by
  have hweb : ∀ {i : I32}, webappFirstId ≤ i → pidOf i = (i - webappFirstId).toNat + 5 :=
    fun hi => if_pos hi
  cases hk with
  | inl hk =>
      cases hn with
      | inl hn => exact pidOf_core k hk n hn h
      | inr hn =>
          have hlt := pidOf_core_lt k hk
          rw [h, hweb hn] at hlt
          lia
  | inr hk =>
      cases hn with
      | inl hn =>
          have hlt := pidOf_core_lt n hn
          rw [← h, hweb hk] at hlt
          lia
      | inr hn =>
          rw [hweb hk, hweb hn] at h
          lia

theorem Object.ne_kernel (h : Object k) : k ≠ kernelId := by
  rintro rfl
  exact absurd h (by decide)

theorem Inv.object (h : Inv .idle s) {a : Addr} {p : Process} (hp : s.procs[a]? = some p) :
    Object p.objectId :=
  (h.registry.ids a p.objectId (by rw [KState.objectAt, hp, Option.map_some])).imp_right And.left

/-! ### What a handler leaves alone -/

/-- What every handler keeps, apart from the frame that it is handed: processes keep their
numbers, only announcements are taken out of pipes, the replay mode is not left and the
four components stay in the table. -/
structure Onward (s t : KState) : Prop where
  named : Named s → Named t
  unread : ∀ pid, ∃ done, s.unread pid = done ++ t.unread pid ∧ ∀ m ∈ done, m.msgType = msgNewWebapp
  replay : t.replayMode = false → s.replayMode = false
  core : ∀ k ∈ coreIds, s.procMap[k]? ≠ none → t.procMap[k]? ≠ none

theorem Onward.of_same (hnamed : Named s → Named t) (hunread : t.unread = s.unread)
    (hreplay : t.replayMode = s.replayMode)
    (hcore : ∀ k ∈ coreIds, s.procMap[k]? ≠ none → t.procMap[k]? ≠ none) : Onward s t where
  named := hnamed
  unread _ := ⟨[], by rw [hunread]; rfl, by simp⟩
  replay h := hreplay ▸ h
  core := hcore

theorem Onward.refl (s : KState) : Onward s s := .of_same id rfl rfl fun _ _ => id

theorem Onward.trans (h : Onward s t) (h' : Onward t u) : Onward s u where
  named hs := h'.named (h.named hs)
  unread pid := by
    obtain ⟨done, hdone, hnew⟩ := h.unread pid
    obtain ⟨done', hdone', hnew'⟩ := h'.unread pid
    refine ⟨done ++ done', by rw [hdone, hdone', List.append_assoc], fun m hm => ?_⟩
    cases List.mem_append.mp hm with
    | inl hm => exact hnew m hm
    | inr hm => exact hnew' m hm
  replay hu := h.replay (h'.replay hu)
  core k hk hs := h'.core k hk (h.core k hk hs)

instance : IsPreorder KState Onward where
  refl := Onward.refl
  trans _ _ _ := Onward.trans

theorem Named.of_procs (h : Named s) (hoff : t.webAppIdOffset = s.webAppIdOffset)
    (hnext : t.nextPid = s.nextPid)
    (hprocs : ∀ (a : Addr) (q : Process), t.procs[a]? = some q →
      ∃ p, s.procs[a]? = some p ∧ q.pid = p.pid ∧ q.objectId = p.objectId) : Named t where
  toNumbered := h.toNumbered.of_procs hoff hnext hprocs
  core a q hq hlow := by
    obtain ⟨p, hp, hpid, hid⟩ := hprocs a q hq
    rw [hpid, hid, h.core a p hp (hid ▸ hlow)]

theorem Named.fork (h : Named s) : Named s.withSpare where
  toNumbered := h.toNumbered.fork
  core a q hq hlow := by
    cases getElem?_forked hq with
    | inl hq =>
        have hoff := h.offset
        rw [hq.2.2.1] at hlow
        lia
    | inr hq => exact h.core a q hq hlow

/-- A change to records other than the processes, to the counters or to the frames written. -/
theorem Onward.of_rest (hoff : t.webAppIdOffset = s.webAppIdOffset) (hnext : t.nextPid = s.nextPid)
    (hprocs : t.procs = s.procs) (hunread : t.unread = s.unread)
    (hreplay : t.replayMode = s.replayMode)
    (hmap : t.procMap = s.procMap) : Onward s t :=
  .of_same (fun h => h.of_procs hoff hnext fun _ q hq => ⟨q, hprocs ▸ hq, rfl, rfl⟩) hunread hreplay
    fun _ _ h => hmap ▸ h

theorem Onward.writeProc (s : KState) (a : Addr) {f : Process → Process}
    (hpid : ∀ p, (f p).pid = p.pid) (hid : ∀ p, (f p).objectId = p.objectId) :
    Onward s (s.writeProc a f) := by
  refine .of_same (fun h => h.of_procs rfl rfl fun b q hq => ?_) rfl rfl fun _ _ h => h
  obtain ⟨p, hp, rfl⟩ := getElem?_writeProc hq
  refine ⟨p, hp, ?_, ?_⟩
  · split <;> simp [hpid]
  · split <;> simp [hid]

/-- A process that is none of the four components ends. -/
theorem Onward.drop {a : Addr} (hweb : webappFirstId ≤ k) (killList : OrdMap Pid (I32 × ℤ)) :
    Onward s (s.drop k a killList) := by
  refine .of_same (fun h => h.of_procs rfl rfl fun b q hq =>
      ⟨q, ((getElem?_drop b q).mp hq).2, rfl, rfl⟩)
    rfl rfl fun n hn hs => ?_
  have hne : k ≠ n := (lt_of_lt_of_le (lt_of_mem_coreIds n hn) hweb).ne'
  change (s.procMap.erase k)[n]? ≠ none
  rwa [OrdMap.getElem?_erase, if_neg hne]

theorem Onward.withSpare (s : KState) : Onward s s.withSpare := by
  refine .of_same Named.fork rfl rfl fun n _ hs => ?_
  change (s.procMap.insert _ _)[n]? ≠ none
  rw [OrdMap.getElem?_insert]
  split
  · simp
  · exact hs

theorem Onward.spared (s : KState) : Onward s s.spared := by
  unfold KState.spared
  split
  · exact .withSpare s
  · exact .refl s

/-! ### Small operations -/

section Moves

variable {a w : Addr}

theorem deref_moves : Moves Onward (deref a) := .bind .get fun _ => .require _ _

theorem derefApp_moves : Moves Onward (derefApp w) := .bind .get fun _ => .require _ _

theorem procOf_moves : Moves Onward (procOf w) := .bind derefApp_moves fun _ => .require _ _

theorem updateProc_moves {f : Process → Process} (hpid : ∀ p, (f p).pid = p.pid)
    (hid : ∀ p, (f p).objectId = p.objectId) : Moves Onward (updateProc a f) :=
  .bind deref_moves fun _ => .modify fun s => .writeProc s a hpid hid

theorem updateApp_moves {f : WebAppProcess → WebAppProcess} : Moves Onward (updateApp w f) :=
  .bind derefApp_moves fun _ => .modify fun _ => .of_rest rfl rfl rfl rfl rfl rfl

theorem newApp_moves {r : WebAppProcess} : Moves Onward (newApp r) :=
  .get_bind fun _ => .of_rest rfl rfl rfl rfl rfl rfl

theorem nextMsgId_moves : Moves Onward nextMsgId :=
  .get_bind fun _ => .of_rest rfl rfl rfl rfl rfl rfl

theorem writeMessageKernel_moves {site : Site} {fd : ℕ} {msg : Message} :
    Moves Onward (writeMessageKernel site fd msg) := by
  refine .modify fun s => ?_
  split
  · exact .of_rest rfl rfl rfl rfl rfl rfl
  · exact .refl s

theorem addToWebAppList_moves : Moves Onward (addToWebAppList w) := by
  refine .bind derefApp_moves fun r => ?_
  cases r.proc with
  | none => exact .pure _
  | some a =>
      exact .bind deref_moves fun _ => .bind .get fun _ => .bind (.ensure _ _) fun _ =>
        .modify fun _ => .of_rest rfl rfl rfl rfl rfl rfl

theorem hitLoop_moves (policy : MatchPolicy) (dn : DomainName) (l : List Addr) :
    Moves Onward (hitLoop policy dn l) := by
  induction l with
  | nil => exact .pure _
  | cons a rest ih =>
      exact .bind deref_moves fun _ => .ite (.pure _) (.bind ih fun _ => .pure _)

theorem hit_moves (url : Bytes) : Moves Onward (hit url) :=
  .bind .get fun _ => .bind (hitLoop_moves _ _ _) fun _ =>
    .bind (.modify fun _ => .of_rest rfl rfl rfl rfl rfl rfl) fun _ => .pure _

/-- The first frame of a web app's pipe is an announcement, or the handler stops. -/
theorem awaitClient_moves : Moves Onward (awaitClient w a) := by
  refine .bind deref_moves fun p s => ?_
  rw [Outcome.bind, readMessageKernel, Outcome.bind, Outcome.get]
  cases hu : s.unread p.pid with
  | nil => trivial
  | cons m rest =>
      dsimp only
      rw [Outcome.bind, Outcome.set, Outcome.pure, Outcome.bind, Outcome.ensure]
      refine ⟨fun htype => ?_, fun _ => trivial⟩
      have hread : Onward s (s.setUnread p.pid rest) := by
        refine ⟨fun h => { h with }, fun pid => ?_, id, fun _ _ h => h⟩
        by_cases hpid : pid = p.pid
        · subst hpid
          exact ⟨[m], by simp [KState.setUnread, hu], by simpa using htype⟩
        · exact ⟨[], by simp [KState.setUnread, hpid], by simp⟩
      have hnote : Moves Onward (do
          updateApp w fun a => { a with client := m.msgValue }
          updateProc a fun p => { p with clientId := some m.msgValue }) :=
        .bind updateApp_moves fun _ => updateProc_moves (fun _ => rfl) fun _ => rfl
      exact (hnote _).mono (fun _ _ h => hread.trans h) fun _ _ h => h

theorem preCreateWebApp_moves : Moves Onward preCreateWebApp := by
  intro s
  by_cases hc : s.cachedWebApp = none
  · by_cases hroom : s.Room
    · have hfork : Outcome preCreateWebApp s (fun _ t => t = s.withSpare) fun _ _ => True := by
        simp [preCreateWebApp, createProc, spawn_of_room hroom, newApp, addToProcMap, deref, hc,
          KState.addApp, KState.setSpare]
        exact fun _ => rfl
      exact hfork.mono (fun _ _ ht => ht ▸ .withSpare s) fun _ _ h => h
    · rw [preCreateWebApp, Outcome.bind, Outcome.get, if_pos hc, Outcome.bind,
        createProc_outcome_full hroom]
      trivial
  · rw [preCreateWebApp, Outcome.bind, Outcome.get, if_neg hc]
    exact .refl s

theorem spareWebApp_moves : Moves Onward spareWebApp :=
  .bind preCreateWebApp_moves fun _ => .bind .get fun _ => .require _ _

theorem takeProc_moves (url : Bytes) : Moves Onward (takeProc url) := by
  refine .bind (hit_moves url) fun o => ?_
  cases o with
  | none =>
      exact .bind spareWebApp_moves fun _ =>
        .bind (.modify fun _ => .of_rest rfl rfl rfl rfl rfl rfl) fun _ => .pure _
  | some a =>
      exact .bind deref_moves fun _ => .bind (.require _ _) fun _ => newApp_moves

theorem prepNewProc_moves (containerId requester : I32) (url : Bytes) :
    Moves Onward (prepNewProc containerId requester url) := by
  refine .bind (takeProc_moves url) fun w => .bind addToWebAppList_moves fun _ =>
    .bind updateApp_moves fun _ => .bind .get fun s => .ite ?_ (.pure _)
  cases s.webAppList[requester]? with
  | none => exact .pure _
  | some app =>
      exact .bind (.require _ _) fun _ => .bind derefApp_moves fun _ =>
        .bind updateApp_moves fun _ => .pure _

theorem stringOfData_moves (data : Payload) : Moves Onward (stringOfData data) :=
  .bind (.ensure _ _) fun _ => .bind (.ensure _ _) fun _ => .pure _

theorem tellUi_moves : Moves Onward (tellUi w a) :=
  .bind derefApp_moves fun _ => .bind deref_moves fun _ => .bind nextMsgId_moves fun _ =>
    .bind .get fun _ => .bind writeMessageKernel_moves fun _ => .ite preCreateWebApp_moves (.pure _)

theorem announce_moves : Moves Onward (announce w a) :=
  .bind derefApp_moves fun _ => .ite (.bind awaitClient_moves fun _ => tellUi_moves) tellUi_moves

theorem handleNewUrl_moves (containerId requester : I32) (data : Payload) (urlId : I32) :
    Moves Onward (handleNewUrl containerId requester data urlId) := by
  refine .ite (.bind (stringOfData_moves data) fun url => ?_) (.pure _)
  exact .bind (prepNewProc_moves _ _ url) fun _ => .bind procOf_moves fun _ =>
    .bind (updateProc_moves (fun _ => rfl) fun _ => rfl) fun _ => .bind deref_moves fun _ =>
      .bind nextMsgId_moves fun _ => .bind writeMessageKernel_moves fun _ => announce_moves

theorem handleInit_moves (msg : Message) : Moves Onward (handleInit a msg) := by
  refine .bind .get fun s => .ite ?_ (.pure _)
  cases s.cachedWebApp with
  | none => exact .pure _
  | some w =>
      exact .bind derefApp_moves fun _ => .ite (.bind (.ensure _ _) fun _ =>
        .bind updateApp_moves fun _ => updateProc_moves (fun _ => rfl) fun _ => rfl) (.pure _)

theorem handleUpdateContainer_moves (containerId webAppId : I32) :
    Moves Onward (handleUpdateContainer containerId webAppId) := by
  refine .bind .get fun s => ?_
  cases s.webAppList[webAppId]? with
  | none => exact .pure _
  | some app => exact .bind (.require _ _) fun _ => updateApp_moves

theorem handleEmbedFrame_moves (msg : Message) : Moves Onward (handleEmbedFrame msg) :=
  .bind .get fun _ => writeMessageKernel_moves

end Moves

/-! ### Handlers -/

/-- What is left of a close: the cache may evict its oldest web app. -/
theorem closeRunning_onward (h : Inv .idle s) {w a r p} (hr : Runs s k w r a p) :
    Outcome (closeRunning a w) s (fun _ t => Onward s t) fun _ _ => True := by
  by_cases hlt : s.cache.entries.length < s.cache.size
  · rw [closeRunning_room hr hlt]
    exact .of_rest rfl rfl rfl rfl rfl rfl
  cases he : s.cache.entries with
  | nil =>
      rw [closeRunning_alone h hr (not_lt.mp hlt) he]
      trivial
  | cons e rest =>
      obtain ⟨q, hq, -, -, hweb, -⟩ := h.oldest he
      rw [closeRunning_full h hr (not_lt.mp hlt) he hq]
      have hsend : Onward s ((s.setEntries rest).bumpMsgId.send (closeFrame s q)) :=
        .of_rest rfl rfl rfl rfl rfl rfl
      have hbury := hsend.trans (.drop (a := e) hweb (s.killList.insert q.pid (q.objectId, s.now)))
      exact hbury.trans (.of_rest rfl rfl rfl rfl rfl rfl)

theorem handleCloseWebApp_onward (h : Inv .idle s) (containerId webAppId : I32) :
    Outcome (handleCloseWebApp containerId webAppId) s (fun _ t => Onward s t) fun _ _ => True := by
  by_cases hacc : s.accepts containerId webAppId = true
  · obtain ⟨w, r, a, p, hr⟩ := h.accepted hacc
    rw [handleCloseWebApp_accepted hr hacc]
    have hhide : Onward s (s.hide containerId webAppId w p) := .of_rest rfl rfl rfl rfl rfl rfl
    exact (closeRunning_onward (h.hide containerId webAppId w p) (hr.hide containerId)).mono
      (fun _ _ ht => hhide.trans ht) fun _ _ h => h
  · rw [handleCloseWebApp_refused h hacc]
    exact .refl s

theorem handleReplayWebApp_onward (h : Inv .idle s) (webAppId : I32) :
    Outcome (handleReplayWebApp webAppId) s (fun _ t => Onward s t) fun _ _ => True := by
  by_cases hl : s.webAppList[webAppId]? = none
  · by_cases hroom : ¬ s.Sparable
    · exact (handleReplayWebApp_full h hroom hl).mpr trivial
    have hroom := not_not.mp hroom
    obtain ⟨w, r, a, p, hw, hr, hrp, hp, -⟩ := h.spare_records hroom
    have hweb : webappFirstId ≤ p.objectId := by
      obtain ⟨k, hk, hweb, -⟩ := (h.spared hroom).placement.spare_proc
        ⟨w, hw, by rw [KState.appProc, hr, Option.bind_some, hrp]⟩
      rw [KState.objectAt, hp, Option.map_some] at hk
      exact Option.some.inj hk ▸ hweb
    rw [handleReplayWebApp_free h hroom hl hw hr hrp hp]
    have hspare : Onward s (s.spared.setSpare none) :=
      (Onward.spared s).trans (.of_rest rfl rfl rfl rfl rfl rfl)
    exact (hspare.trans (.drop hweb s.spared.killList)).trans (.of_rest rfl rfl rfl rfl rfl rfl)
  · rw [handleReplayWebApp, Outcome.bind, Outcome.get, Outcome.bind, Outcome.ensure]
    exact ⟨fun h => absurd h hl, fun _ => trivial⟩

theorem handleSyscall_onward (h : Inv .idle s) (a : Addr) (msg : Message) :
    Outcome (handleSyscall a msg) s (fun _ t => Onward s t) fun _ _ => True := by
  rw [handleSyscall, Outcome.bind, Outcome.get, Outcome.ite]
  refine ⟨fun _ => ?_, fun _ => ?_⟩
  · have hnew : Moves Onward (do
        modify fun s => { s with newUrlId := s.newUrlId + 1 }
        handleNewUrl msg.msgValue msg.srcId msg.payload s.newUrlId) :=
      .bind (.modify fun _ => .of_rest rfl rfl rfl rfl rfl rfl) fun _ => handleNewUrl_moves _ _ _ _
    exact Moves.ite hnew (.pure _) s
  rw [Outcome.ite]
  refine ⟨fun _ => handleInit_moves msg s, fun _ => ?_⟩
  rw [Outcome.ite]
  refine ⟨fun _ => handleUpdateContainer_moves _ _ s, fun _ => ?_⟩
  rw [Outcome.ite]
  refine ⟨fun _ => handleCloseWebApp_onward h _ _, fun _ => ?_⟩
  rw [Outcome.ite]
  refine ⟨fun _ => ?_, fun _ => ?_⟩
  · rw [Outcome.bind]
    refine (handleReplayWebApp_onward h msg.msgValue).mono (fun _ t ht => ?_) fun _ _ h => h
    refine ht.trans ⟨fun h => h.of_procs rfl rfl fun _ q hq => ⟨q, hq, rfl, rfl⟩,
      fun _ => ⟨[], rfl, by simp⟩, fun h => absurd h (by simp), fun _ _ h => h⟩
  · exact Moves.ite (.pure _) (.ite (handleEmbedFrame_moves msg) (.throw _)) s

theorem reap_onward (h : Inv .idle s) (pid : Pid) :
    Outcome (reap pid) s (fun _ t => Onward s t) fun _ _ => True := by
  cases hk : s.killList[pid]? with
  | some killed =>
      obtain ⟨a, ui, hm, hp⟩ := h.uiEntry
      rw [reap_killed hm hp hk]
      exact .of_rest rfl rfl rfl rfl rfl rfl
  | none =>
      rw [reap, Outcome.bind, Outcome.get, hk]
      dsimp only
      cases findByPid s pid with
      | none => exact .refl s
      | some k =>
          dsimp only
          rw [Outcome.ite]
          refine ⟨fun _ => ?_, fun _ => ?_⟩
          · exact (handleUnexpectedClose_outcome h k).mono (fun _ _ h => h.elim)
              fun _ _ _ => trivial
          · rw [Outcome.bind, killProcs, Outcome.modify, Outcome.throw']
            trivial

theorem reapAll_onward (pids : List Pid) (h : Inv .idle s) :
    Outcome (reapAll pids) s (fun _ t => Onward s t) fun _ _ => True := by
  induction pids generalizing s with
  | nil => exact Onward.refl s
  | cons pid pids ih =>
      rw [reapAll, Outcome.bind]
      refine ((reap_onward h pid).and (reap_outcome h pid)).mono (fun _ t ht => ?_)
          fun _ _ _ => trivial
      exact (ih ht.2.inv).mono (fun _ _ hu => ht.1.trans hu) fun _ _ h => h

theorem sigchldHandler_onward (h : Inv .idle s) (pids : List Pid) :
    Outcome (sigchldHandler pids) s (fun _ t => Onward s t) fun _ _ => True := by
  rw [sigchldHandler, Outcome.bind]
  refine (reapAll_onward pids h).mono (fun _ t ht => ?_) fun _ _ h => h
  exact ht.trans (.of_rest rfl rfl rfl rfl rfl rfl)

/-! ### What was passed on -/

section Frames

variable {written read frames frames' : List Message} {m : Message}

theorem speech_append :
    speech src dst (frames ++ frames') = speech src dst frames ++ speech src dst frames' := by
  simp [speech]

theorem plain_append : plain (frames ++ frames') = plain frames ++ plain frames' :=
  List.filter_append ..

theorem speech_singleton : speech src dst [m] =
    if m.dstId = dst ∧ AccessControl.create.checkWrite { m with srcId := src } = true then [m.said]
    else [] := by
  rw [speech, List.filter_cons, List.filter_nil]
  by_cases h : m.dstId = dst ∧ AccessControl.create.checkWrite { m with srcId := src } = true
  · rw [if_pos (decide_eq_true h), if_pos h, List.map_singleton]
  · rw [if_neg (by simpa using h), if_neg h, List.map_nil]

/-- Nothing plain is lost with announcements. -/
theorem plain_speech (h : ∀ m ∈ frames, m.msgType = msgNewWebapp) :
    plain (speech src dst frames) = [] := by
  refine List.filter_eq_nil_iff.mpr fun m hm => ?_
  obtain ⟨m', hm', rfl⟩ := List.mem_map.mp hm
  have htype : m'.said.msgType = msgNewWebapp := h m' (List.mem_of_mem_filter hm')
  simp [htype]

theorem passed_of_wrote (h : Wrote (fun f => ¬ (f.site = .handleMessage ∧ f.msg.srcId = src)) s t) :
    t.passed src dst = s.passed src dst := by
  obtain ⟨new, hsent, hnew⟩ := h
  have hnone : new.filter (fun f => f.PassedOn src dst) = [] := by
    refine List.filter_eq_nil_iff.mpr fun f hf hpassed => hnew f hf ?_
    obtain ⟨hsite, hsrc, -⟩ := of_decide_eq_true hpassed
    exact ⟨hsite, hsrc⟩
  rw [KState.passed, KState.passed, hsent, List.filter_append, hnone, List.append_nil]

theorem passed_send (fd : ℕ) : (s.send ⟨.handleMessage, fd, m⟩).passed src dst =
    s.passed src dst ++ if m.srcId = src ∧ m.dstId = dst then [m.said] else [] := by
  rw [KState.passed, KState.passed, KState.send, List.filter_append, List.map_append,
      List.filter_cons,
    List.filter_nil]
  by_cases h : m.srcId = src ∧ m.dstId = dst
  · rw [if_pos (by simpa [Sent.PassedOn] using h), if_pos h, List.map_singleton]
  · rw [if_neg (by simpa [Sent.PassedOn] using h), if_neg h, List.map_nil]

theorem Relays.onward (h : Relays written s src dst read) (hmove : Onward s t)
    (hpassed : t.passed src dst = s.passed src dst) : ∃ read', Relays written t src dst read' := by
  obtain ⟨done, hdone, hnew⟩ := hmove.unread (pidOf src)
  refine ⟨read ++ done, ?_, ?_, fun hdst hreplay => ?_⟩
  · rw [h.pipe, hdone, List.append_assoc]
  · rw [hpassed, speech_append]
    exact h.order.trans (List.sublist_append_left ..)
  · rw [hpassed, h.whole hdst (hmove.replay hreplay), speech_append, plain_append,
      plain_speech hnew,
      List.append_nil]

theorem Relays.append (h : Relays written s src dst read) (hunread : t.unread (pidOf src) =
    s.unread (pidOf src) ++ [m]) (hsent : t.sent = s.sent) (hreplay : t.replayMode = s.replayMode) :
    Relays (written ++ [m]) t src dst read where
  pipe := by rw [h.pipe, hunread, List.append_assoc]
  order := by
    rw [KState.passed, hsent]
    exact h.order
  whole hdst ht := by
    rw [KState.passed, hsent]
    exact h.whole hdst (hreplay ▸ ht)

/-- The first frame of the pipe is read, and passed on if it is to be. -/
theorem Relays.next (h : Relays written s src dst read) {rest new : List Message}
    (hu : s.unread (pidOf src) = m :: rest) (hunread : t.unread (pidOf src) = rest)
    (hreplay : t.replayMode = s.replayMode) (hpassed : t.passed src dst = s.passed src dst ++ new)
    (hnew : new.Sublist (speech src dst [m]))
    (hwhole : dst ∈ coreIds → s.replayMode = false → new = speech src dst [m]) :
    Relays written t src dst (read ++ [m]) where
  pipe := by rw [h.pipe, hu, hunread, List.append_assoc, List.singleton_append]
  order := by
    rw [hpassed, speech_append]
    exact h.order.append hnew
  whole hdst ht := by
    have hs : s.replayMode = false := hreplay ▸ ht
    rw [hpassed, speech_append, plain_append, plain_append, h.whole hdst hs, hwhole hdst hs]

end Frames

/-- What holds of every kernel that runs. -/
structure Relaying (written : Pid → List Message) (s : KState) : Prop where
  named : Named s
  core : ∀ k ∈ coreIds, s.procMap[k]? ≠ none
  relays : ∀ src dst, Object src → ∃ read, Relays (written (pidOf src)) s src dst read

section Relaying

variable {written : Pid → List Message}

theorem Relaying.onward (h : Relaying written s) (hmove : Onward s t)
    (hpassed : ∀ src dst, Object src → t.passed src dst = s.passed src dst) :
      Relaying written t where
  named := hmove.named h.named
  core k hk := hmove.core k hk (h.core k hk)
  relays src dst hsrc := by
    obtain ⟨read, hread⟩ := h.relays src dst hsrc
    exact hread.onward hmove (hpassed src dst hsrc)

theorem Relaying.write (h : Relaying written s) (n : Pid) (msg : Message) :
    Relaying (Function.update written n (written n ++ [msg]))
      (s.setUnread n (s.unread n ++ [msg])) where
  named := { h.named with }
  core := h.core
  relays src dst hsrc := by
    obtain ⟨read, hread⟩ := h.relays src dst hsrc
    refine ⟨read, ?_⟩
    by_cases hn : pidOf src = n
    · subst hn
      rw [Function.update_self]
      exact hread.append (by simp [KState.setUnread]) rfl rfl
    · rw [Function.update_of_ne hn]
      exact ⟨by simpa [KState.setUnread, hn] using hread.pipe, hread.order, hread.whole⟩

/-- The first frame of this process is read; the others' pipes and frames are as before. -/
theorem Relaying.next (h : Relaying written s) {a : Addr} {p : Process} (hp : s.procs[a]? = some p)
    (hobj : Object p.objectId) {m : Message} {rest : List Message} (hu : s.unread p.pid = m :: rest)
    (hunread : t.unread = Function.update s.unread p.pid rest) (hnamed : Named t)
    (hmap : t.procMap = s.procMap) (hreplay : t.replayMode = s.replayMode)
    (hothers : ∀ src dst, src ≠ p.objectId → t.passed src dst = s.passed src dst)
    (hown : ∀ dst, ∃ new, t.passed p.objectId dst = s.passed p.objectId dst ++ new ∧
      new.Sublist (speech p.objectId dst [m]) ∧
      (dst ∈ coreIds → s.replayMode = false → new = speech p.objectId dst [m])) :
    Relaying written t where
  named := hnamed
  core k hk := hmap ▸ h.core k hk
  relays src dst hsrc := by
    obtain ⟨read, hread⟩ := h.relays src dst hsrc
    have hpid := h.named.pid_eq hp
    by_cases hk : src = p.objectId
    · subst hk
      obtain ⟨new, hpassed, hnew, hwhole⟩ := hown dst
      rw [hpid] at hu hunread
      exact ⟨read ++ [m], hread.next hu (by simp [hunread]) hreplay hpassed hnew hwhole⟩
    · have hne : pidOf src ≠ p.pid := fun heq => hk (pidOf_injective hsrc hobj (heq.trans hpid))
      refine ⟨read, ?_, ?_, fun hdst ht => ?_⟩
      · rw [hunread, Function.update_of_ne hne]
        exact hread.pipe
      · rw [hothers src dst hk]
        exact hread.order
      · rw [hothers src dst hk]
        exact hread.whole hdst (hreplay ▸ ht)

/-- A system call passes nothing on. -/
theorem not_passed_of_syscall {msg : Message} {f : Sent} (hf : SyscallFrame s t msg f)
    (hsrc : src ≠ kernelId) : ¬ (f.site = .handleMessage ∧ f.msg.srcId = src) := by
  intro hpassed
  rcases hf with hf | hf | hf | ⟨-, rfl⟩
  · exact hsrc (hpassed.2.symm.trans hf.src)
  · exact hsrc (hpassed.2.symm.trans hf.src)
  · exact absurd (hpassed.1.symm.trans hf.site) (by decide)
  · have hsite : Site.handleEmbedFrame = .handleMessage := hpassed.1
    cases hsite

theorem Relaying.syscall (h : Relaying written s) (hinv : Inv .idle s) (a : Addr) (msg : Message) :
    Outcome (handleSyscall a msg) s (fun _ t => Relaying written t) fun _ _ => True := by
  refine ((handleSyscall_onward hinv a msg).and (handleSyscall_spec hinv)).mono (fun _ t ht => ?_)
    fun _ _ _ => trivial
  obtain ⟨hmove, -, -, hwrote⟩ := ht
  refine h.onward hmove fun src dst hsrc => passed_of_wrote (hwrote.mono fun f hf => ?_)
  exact not_passed_of_syscall hf hsrc.ne_kernel

/-- Where a message that is not for the kernel goes. -/
theorem route_passes (h : Inv .idle s) (hcore : ∀ k ∈ coreIds, s.procMap[k]? ≠ none) (a : Addr)
    {msg : Message} (hd : msg.dstId ≠ kernelId) :
    Outcome (route a msg) s (fun _ t =>
      t = s ∧ (msg.dstId ∈ coreIds → s.replayMode = false →
        ¬ AccessControl.create.checkWrite msg = true) ∨
        ∃ fd, t = s.send ⟨.handleMessage, fd, msg⟩ ∧ AccessControl.create.checkWrite msg = true)
      fun _ _ => True := by
  rw [route, Outcome.bind, Outcome.get, if_neg hd]
  cases hm : s.procMap[msg.dstId]? with
  | none => exact .inl ⟨rfl, fun hdst => absurd hm (hcore _ hdst)⟩
  | some b =>
      obtain ⟨q, hq, -⟩ := h.registered hm
      dsimp only
      rw [Outcome.bind, deref_outcome hq, Outcome.ite]
      refine ⟨fun _ => ?_, fun hlive => .inl
          ⟨rfl, fun _ hreplay => absurd hreplay (by simpa using hlive)⟩⟩
      rw [writeMessageKernel, Outcome.modify, h.registry.acc]
      split
      next hc => exact .inr ⟨_, rfl, hc⟩
      next hc => exact .inl ⟨rfl, fun _ _ => hc⟩

/-- The state after a frame was read, whatever becomes of the frame. -/
theorem Relaying.message (h : Relaying written s) (hinv : Inv .idle s) {a : Addr} {p : Process}
    (hp : s.procs[a]? = some p) :
    Outcome (handleMessage a) s (fun _ t => Relaying written t) fun _ _ => True := by
  have hobj := hinv.object hp
  rw [handleMessage_outcome_route hinv hp]
  cases hu : s.unread p.pid with
  | nil =>
      have hr : s.received p = ({}, s) := by simp [KState.received, hu]
      have hd : ({} : Message).dstId = kernelId := rfl
      rw [hr, route, Outcome.bind, Outcome.get, if_pos hd]
      exact h.syscall hinv a {}
  | cons m rest =>
      have hr : s.received p = (stamp s p m, s.bumpMsgId.setUnread p.pid rest) := by
        simp [KState.received, hu]
      have hinv' : Inv .idle (s.bumpMsgId.setUnread p.pid rest) := hinv.bumpMsgId.setUnread _ _
      have hnamed : Named (s.bumpMsgId.setUnread p.pid rest) := { h.named with }
      rw [hr]
      by_cases hd : (stamp s p m).dstId = kernelId
      · rw [route, Outcome.bind, Outcome.get, if_pos hd]
        refine Relaying.syscall ?_ hinv' a _
        refine h.next hp hobj hu rfl hnamed rfl rfl (fun _ _ _ => rfl) fun dst => ?_
        refine ⟨[], (List.append_nil _).symm, List.nil_sublist _, fun hdst _ => ?_⟩
        have hne : m.dstId ≠ dst := by
          rintro rfl
          exact absurd (hd ▸ hdst : kernelId ∈ coreIds) (by decide)
        rw [speech_singleton, if_neg fun h => hne h.1]
      · refine (route_passes hinv' h.core a hd).mono (fun _ t ht => ?_) fun _ _ h => h
        cases ht with
        | inl ht =>
            obtain ⟨rfl, hdrop⟩ := ht
            refine h.next hp hobj hu rfl hnamed rfl rfl (fun _ _ _ => rfl) fun dst => ?_
            refine ⟨[], (List.append_nil _).symm, List.nil_sublist _, fun hdst hreplay => ?_⟩
            rw [speech_singleton, if_neg]
            intro hpass
            exact hdrop (hpass.1 ▸ hdst) hreplay hpass.2
        | inr ht =>
            obtain ⟨fd, rfl, hpass⟩ := ht
            have hsrc : (stamp s p m).srcId = p.objectId := rfl
            refine h.next hp hobj hu rfl { hnamed with } rfl rfl (fun src dst hne => ?_)
                fun dst => ?_
            · rw [passed_send, if_neg fun h => hne (h.1.symm.trans hsrc), List.append_nil]
              rfl
            · have hnew : (if (stamp s p m).srcId = p.objectId ∧ (stamp s p m).dstId = dst then
                  [(stamp s p m).said] else []) = speech p.objectId dst [m] := by
                rw [speech_singleton]
                exact if_congr ⟨fun h => ⟨h.2, hpass⟩, fun h => ⟨hsrc, h.1⟩⟩ rfl rfl
              exact ⟨_, passed_send fd, hnew ▸ List.Sublist.refl _, fun _ _ => hnew⟩

/-- A handler that stops passes nothing on in its last step. -/
def Passes (written : Pid → List Message) (x : Op Unit) (s : KState) : Prop :=
  Outcome x s (fun _ t => Relaying written t) fun _ t =>
    ∀ src dst, Object src → t.passed src dst = s.passed src dst

theorem Relaying.handleMessage (h : Relaying written s) (hinv : Inv .idle s) {a : Addr}
    {p : Process}
    (hp : s.procs[a]? = some p) : Passes written (handleMessage a) s := by
  refine ((h.message hinv hp).and (handleMessage_outcome hinv hp)).mono (fun _ _ ht => ht.1) ?_
  intro _ t ht src dst hsrc
  obtain ⟨-, hd, -, -, -, hwrote⟩ := ht
  refine passed_of_wrote (hwrote.mono fun f hf => ?_)
  cases hf with
  | inl hf => exact not_passed_of_syscall hf.2 hsrc.ne_kernel
  | inr hf => exact absurd hd hf.1

theorem Relaying.perform (h : Relaying written s) (hinv : Inv .idle s) {e : Event}
    (he : ∀ pid msg, e ≠ .write pid msg) : Passes written (perform e) s := by
  cases e with
  | write pid msg => exact absurd rfl (he pid msg)
  | die pid => exact h.onward (.of_rest rfl rfl rfl rfl rfl rfl) fun _ _ _ => rfl
  | tick now => exact h.onward (.of_rest rfl rfl rfl rfl rfl rfl) fun _ _ _ => rfl
  | handle k =>
      rw [Passes, Kernel.perform, Outcome.bind, Outcome.get]
      cases hm : s.procMap[k]? with
      | none => exact h
      | some a =>
          obtain ⟨p, hp, -⟩ := hinv.registered hm
          exact h.handleMessage hinv hp
  | sigchld pids =>
      have hkernel : ∀ {t : KState}, Wrote KernelFrame s t → ∀ src dst, Object src →
          t.passed src dst = s.passed src dst := by
        intro t hwrote src dst hsrc
        refine passed_of_wrote (hwrote.mono fun f hf hpassed => ?_)
        exact hsrc.ne_kernel (hpassed.2.symm.trans hf.src)
      refine ((sigchldHandler_onward hinv pids).and (sigchldHandler_outcome hinv pids)).mono ?_ ?_
      · exact fun _ t ht => h.onward ht.1 (hkernel ht.2.2)
      · exact fun _ t ht => hkernel ht.2.1

end Relaying

/-! ### Runs -/

/-- The numbers of the four components are those of the processes that `main` forks in turn. -/
theorem pid_atLoop {isCrawler : Bool} {fdLimit : ℕ} {uiFd : ℕ} {a : Addr} {p : Process}
    (hp : (atLoop isCrawler fdLimit uiFd).procs[a]? = some p) : p.pid = pidOf p.objectId := by
  rcases getElem?_forked hp with ⟨-, hpid, hid, -⟩ | hp
  · rw [hpid, hid]
    rfl
  rcases getElem?_forked hp with ⟨-, hpid, hid, -⟩ | hp
  · rw [hpid, hid]
    rfl
  rcases getElem?_forked hp with ⟨-, hpid, hid, -⟩ | hp
  · rw [hpid, hid]
    rfl
  rcases getElem?_forked hp with ⟨-, hpid, hid, -⟩ | hp
  · rw [hpid, hid]
    rfl
  · cases hp

theorem relaying_atLoop {isCrawler : Bool} {fdLimit uiFd : ℕ}
    (hinv : Inv .idle (atLoop isCrawler fdLimit uiFd)) :
    Relaying (written []) (atLoop isCrawler fdLimit uiFd).spared := by
  have hnamed : Named (atLoop isCrawler fdLimit uiFd) := by
    refine ⟨⟨le_refl 0, rfl, fun a p hp hweb => ?_, hinv.registry.pids, hinv.registry.distinct⟩,
      fun a p hp _ => pid_atLoop hp⟩
    rw [pid_atLoop hp, pidOf, if_pos hweb]
  have hloop : Relaying (written []) (atLoop isCrawler fdLimit uiFd) := by
    refine ⟨hnamed, fun k hk => ?_, fun src dst _ => ⟨[], rfl, List.Sublist.refl _, fun _ _ => rfl⟩⟩
    simp only [coreIds, List.mem_cons, List.not_mem_nil, or_false] at hk
    rcases hk with rfl | rfl | rfl | rfl <;> simp [atLoop, components, KState.forked, blank]
  refine hloop.onward (.spared _) fun src dst _ => ?_
  rw [KState.passed, KState.passed, Quiet.spared.sent]

/-- What the kernel passes on from one object to another. It is in order and without repetition
all the time, and complete as far as `Relays` says while the kernel runs. Each frame goes, with
the kernel's stamp, into the pipe of the object that it is for when its sender is handled. -/
structure InOrder (m : Machine) (es : List Event) (src dst : I32) : Prop where
  order : ((m.run es).state.passed src dst).Sublist (speech src dst (written es (pidOf src)))
  delivered : ∀ f ∈ (m.run es).state.sent, f.PassedOn src dst →
    ∃ es₁ es₂ p msg, es = es₁ ++ .handle src :: es₂ ∧ ReadFrom (m.run es₁).state src p msg ∧
      f.msg = stamp (m.run es₁).state p msg ∧ (m.run es₁).state.LeadsTo f.fd dst
  whole : (m.run es).fault = none →
    ∃ read, Relays (written es (pidOf src)) (m.run es).state src dst read

/-- A frame that is passed on goes into the pipe of the object that it is for. -/
theorem Mediated.delivered {e : Event} {f : Sent} (h : Mediated s e f) (hf : f.PassedOn src dst) :
    e = .handle src ∧ ∃ p m, ReadFrom s src p m ∧ f.msg = stamp s p m ∧ s.LeadsTo f.fd dst := by
  obtain ⟨hsite, hsrc, hdst⟩ := hf
  cases h with
  | kernel _ own => exact absurd (.inl hsite) own
  | notice site => exact absurd (hsite.symm.trans site) (by decide)
  | embed _ _ frame =>
      rw [frame] at hsite
      cases hsite
  | relay read _ frame source target =>
      obtain rfl := source.symm.trans hsrc
      exact ⟨rfl, _, _, read, frame, hdst ▸ target⟩

/-- A kernel that has stopped, or one in which all is in order. -/
structure RelayingUpTo (written : Pid → List Message) (m : Machine) : Prop where
  running : m.fault = none → Relaying written m.state
  order : ∀ src dst, Object src →
    (m.state.passed src dst).Sublist (speech src dst (written (pidOf src)))

theorem Relaying.order {written : Pid → List Message} (h : Relaying written s) (hsrc : Object src) :
    (s.passed src dst).Sublist (speech src dst (written (pidOf src))) := by
  obtain ⟨read, hread⟩ := h.relays src dst hsrc
  rw [hread.pipe, speech_append]
  exact hread.order.trans (List.sublist_append_left ..)

theorem RelayingUpTo.step {es : List Event} {m : Machine} (h : RelayingUpTo (written es) m)
    (hm : Sound m) (e : Event) : RelayingUpTo (written (es ++ [e])) (m.step e) := by
  have hgrow : ∀ src dst, (speech src dst (written es (pidOf src))).Sublist
      (speech src dst (written (es ++ [e]) (pidOf src))) := by
    intro src dst
    rw [written_append, speech_append]
    exact List.sublist_append_left ..
  cases hf : m.fault with
  | some f =>
      rw [step_of_fault hf]
      exact ⟨fun hnone => absurd (hf.symm.trans hnone) (by simp),
        fun src dst hsrc => (h.order src dst hsrc).trans (hgrow src dst)⟩
  | none =>
      have hstep : Outcome (perform e) m.state (fun _ t => Relaying (written (es ++ [e])) t)
          fun _ t => ∀ src dst, Object src → t.passed src dst = m.state.passed src dst := by
        by_cases he : ∃ pid msg, e = .write pid msg
        · obtain ⟨pid, msg, rfl⟩ := he
          rw [written_concat_write]
          exact (h.running hf).write pid msg
        · have he : ∀ pid msg, e ≠ .write pid msg := fun pid msg heq => he ⟨pid, msg, heq⟩
          rw [written_concat he]
          exact (h.running hf).perform (hm hf) he
      cases exec_outcome hf hstep with
      | inl hok => exact ⟨fun _ => hok.2, fun _ _ hsrc => hok.2.order hsrc⟩
      | inr hstop =>
          obtain ⟨f, hsome, hpassed⟩ := hstop
          refine ⟨fun hnone => absurd (hsome.symm.trans hnone) (by simp), fun src dst hsrc => ?_⟩
          change ((m.exec (perform e)).state.passed src dst).Sublist _
          rw [hpassed src dst hsrc]
          exact (h.order src dst hsrc).trans (hgrow src dst)

/-- In every run the kernel passes on what one object says to another in the order in which it was
said and without repetition, puts each frame into the pipe of the one that it is for, and loses
nothing of what is said to the network, the cookie store, the storage or the UI, except
announcements that it took for itself. -/
theorem relays_run (isCrawler : Bool) (fdLimit : ℕ) (es : List Event) {src : I32}
    (hsrc : Object src) (dst : I32) : InOrder (boot isCrawler fdLimit) es src dst := by
  have hdelivered : ∀ f ∈ ((boot isCrawler fdLimit).run es).state.sent, f.PassedOn src dst →
      ∃ es₁ es₂ p msg, es = es₁ ++ .handle src :: es₂ ∧
        ReadFrom ((boot isCrawler fdLimit).run es₁).state src p msg ∧
        f.msg = stamp ((boot isCrawler fdLimit).run es₁).state p msg ∧
        ((boot isCrawler fdLimit).run es₁).state.LeadsTo f.fd dst := by
    intro f hf hpassed
    obtain ⟨es₁, e, es₂, hes, hinv, hframe⟩ := sent_run isCrawler fdLimit es hf
    obtain ⟨rfl, p, m, hread, hstamp, hto⟩ := (mediated_of_eventFrame hinv hframe).delivered hpassed
    exact ⟨es₁, es₂, p, m, hes, hread, hstamp, hto⟩
  rcases unpeopled_boot isCrawler fdLimit with ⟨-, uiFd, hinv, -, -, hstate⟩ | ⟨hstop, hcore⟩
  · have hrun : RelayingUpTo (written es) ((boot isCrawler fdLimit).run es) := by
      clear hdelivered
      induction es using List.reverseRecOn with
      | nil =>
          have hboot : Relaying (written []) (boot isCrawler fdLimit).state :=
            hstate ▸ relaying_atLoop hinv
          exact ⟨fun _ => hboot, fun _ _ hsrc => hboot.order hsrc⟩
      | append_singleton es e ih =>
          rw [run_concat]
          exact ih.step (sound_run isCrawler fdLimit es) e
    exact ⟨hrun.order src dst hsrc, hdelivered,
        fun hnone => (hrun.running hnone).relays src dst hsrc⟩
  · have hsame : (boot isCrawler fdLimit).run es = boot isCrawler fdLimit := run_of_fault hstop es
    refine ⟨?_, hdelivered, fun hnone => ?_⟩
    · rw [hsame, KState.passed, hcore.sent]
      exact List.nil_sublist _
    · rw [hsame, hstop] at hnone
      cases hnone

/-- A web app fetches two pages, and is not allowed to send the network a message of the UI. -/
theorem relays_run_fetches :
    let es : List Event := [
      .write 5 { msgType := msgNewWebapp, msgValue := 77 },
      .write 5 { dstId := networkId, msgType := msgFetchUrl, msgValue := 1 },
      .write 5 { dstId := networkId, msgType := msgUiMsg, msgValue := 2 },
      .handle 1024, .handle 1024,
      .write 5 { dstId := networkId, msgType := msgFetchUrl, msgValue := 3 },
      .handle 1024, .handle 1024]
    ((boot false 1024).run es).state.passed 1024 networkId = [
        { dstId := networkId, msgType := msgFetchUrl, msgValue := 1 },
        { dstId := networkId, msgType := msgFetchUrl, msgValue := 3 }] ∧
      InOrder (boot false 1024) es 1024 networkId := by
  intro es
  exact ⟨by decide +kernel, relays_run false 1024 es (by decide) networkId⟩

end OpBrowser
