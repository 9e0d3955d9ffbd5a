import OpBrowser.Verification.Kernel.Handlers

/-! # The kernel loop

What one event does to a kernel that meets the invariant, and what holds in every
state that a run reaches. -/

namespace OpBrowser

open Kernel

variable {s : KState}

/-! ### System calls -/

/-- The message types with a case in `handleSyscall`. -/
def syscalls : List I32 :=
  [msgNewUrl, msgNewWebapp, msgUpdataContainer, msgWebappClose, msgReplayWebapp,
    msgLogBehaviorData, msgLogUserInput, msgEmbedFrame]

/-- When `handleSyscall` returns. -/
@[mk_iff] structure SyscallOk (s : KState) (proc : Addr) (msg : Message) : Prop where
  newUrl : msg.msgType = msgNewUrl → s.isCrawler = false ∨ msg.srcId = uiId →
    s.NewUrlOk msg.msgValue msg.payload
  newWebapp : msg.msgType = msgNewWebapp → s.InitOk proc
  close : msg.msgType = msgWebappClose → s.CloseOk msg.msgValue (atoi msg.stringData)
  replay : msg.msgType = msgReplayWebapp → s.ReplayOk msg.msgValue
  known : msg.msgType ∈ syscalls

/-- The frames that a system call writes. -/
def SyscallFrame (s t : KState) (msg : Message) (f : Sent) : Prop :=
  KernelFrame f ∨ IsHandOver msg.payload f ∨ IsNotice s t f ∨
    msg.msgType = msgEmbedFrame ∧ f = ⟨.handleEmbedFrame, s.uiFd, msg⟩

/-- A null pointer is followed, a freed record is read, or an assertion about one of the
tables of processes fails. -/
def tableFaults : List Fault := [.nullDeref, .useAfterFree, .tableAssert]

theorem not_table_of_url : ∀ e ∈ urlFaults, e ∉ tableFaults := by decide

/-- The system calls that can meet one of these faults. -/
def BreaksTables (s : KState) (msg : Message) : Prop :=
  msg.msgType = msgWebappClose ∧ ¬ s.CloseOk msg.msgValue (atoi msg.stringData) ∨
    msg.msgType = msgReplayWebapp ∧ s.webAppList[msg.msgValue]? ≠ none

instance (s : KState) (msg : Message) : Decidable (BreaksTables s msg) :=
  inferInstanceAs (Decidable (_ ∨ _))

theorem Inv.setNewUrlId {ph : Phase} (h : Inv ph s) (newUrlId : I32) :
    Inv ph { s with newUrlId } :=
  h.of_same ⟨rfl, rfl, rfl, rfl, rfl, rfl, rfl, rfl, rfl, rfl, rfl, rfl, fun _ => Iff.rfl⟩

theorem Inv.setReplayMode {ph : Phase} (h : Inv ph s) (replayMode : Bool) :
    Inv ph { s with replayMode } :=
  h.of_same ⟨rfl, rfl, rfl, rfl, rfl, rfl, rfl, rfl, rfl, rfl, rfl, rfl, fun _ => Iff.rfl⟩

/-- What a case of `handleSyscall` is to do. -/
def SyscallSpec (s : KState) (proc : Addr) (msg : Message) (x : Op Unit) : Prop :=
  Outcome x s (fun _ t => Inv .idle t ∧ SyscallOk s proc msg ∧ Wrote (SyscallFrame s t msg) s t)
    fun e t => ¬ SyscallOk s proc msg ∧ t.OneLabel ∧ (e ∈ tableFaults → BreaksTables s msg) ∧
      Wrote (SyscallFrame s t msg) s t

section Syscalls

variable {proc : Addr} {msg : Message}

theorem newUrl_spec (h : Inv .idle s) (ht : msg.msgType = msgNewUrl)
    (hsrc : s.isCrawler = false ∨ msg.srcId = uiId) :
    SyscallSpec s proc msg (do
      modify fun s => { s with newUrlId := s.newUrlId + 1 }
      handleNewUrl msg.msgValue msg.srcId msg.payload s.newUrlId) := by
  have hok : SyscallOk s proc msg ↔ s.NewUrlOk msg.msgValue msg.payload := by
    simp +decide [syscallOk_iff, ht, hsrc]
  have hboth : ∀ {t : KState} {f g : Sent}, t.sent = s.sent ++ [f, g] → IsHandOver msg.payload f →
      IsNotice { s with newUrlId := s.newUrlId + 1 } t g → Wrote (SyscallFrame s t msg) s t := by
    intro t f g hsent hf hg
    refine ⟨[f, g], hsent, ?_⟩
    have hnotice : IsNotice s t g := ⟨hg.site, hg.fd, hg.dst, hg.type, hg.before, hg.after⟩
    simpa [SyscallFrame] using And.intro (.inr (.inl hf)) (.inr (.inr (.inl hnotice)))
  rw [SyscallSpec, hok, Outcome.bind, Outcome.modify]
  refine (handleNewUrl_outcome (h.setNewUrlId _) msg.msgValue msg.srcId msg.payload
    s.newUrlId).mono ?_ ?_
  · rintro - t ⟨ht', hnew, hsent⟩
    refine ⟨ht', hnew, ?_⟩
    rcases hsent with hsent | ⟨f, g, hsent, hf, hg⟩
    · exact .of_eq hsent
    · exact hboth hsent hf hg
  · rintro e t ⟨he, hnew, hlabel, hsent⟩
    refine ⟨hnew, hlabel, fun hf => absurd hf (not_table_of_url e he), ?_⟩
    rcases hsent with hsent | ⟨f, hsent, hf⟩ | ⟨f, g, hsent, hf, hg⟩
    · exact .of_eq hsent
    · exact ⟨[f], hsent, by simpa [SyscallFrame] using .inr (.inl hf)⟩
    · exact hboth hsent hf hg

theorem newWebapp_spec (h : Inv .idle s) (ht : msg.msgType = msgNewWebapp) :
    SyscallSpec s proc msg (handleInit proc msg) := by
  have hok : SyscallOk s proc msg ↔ s.InitOk proc := by simp +decide [syscallOk_iff, ht]
  rw [SyscallSpec, hok]
  refine (handleInit_outcome h proc msg).mono ?_ ?_
  · rintro - t ⟨ht', hinit, hsent⟩
    exact ⟨ht', hinit ht, .of_eq hsent⟩
  · rintro e t ⟨rfl, hinit, rfl⟩
    exact ⟨fun hall => hinit fun _ => hall, h.labelled.pair, fun hf => absurd hf (by decide),
      .of_eq rfl⟩

theorem updataContainer_spec (h : Inv .idle s) (ht : msg.msgType = msgUpdataContainer) :
    SyscallSpec s proc msg (handleUpdateContainer msg.msgValue (atoi msg.stringData)) := by
  have hok : SyscallOk s proc msg := by simp +decide [syscallOk_iff, ht]
  refine (handleUpdateContainer_outcome h _ _).mono ?_ fun _ _ h => h.elim
  rintro - t ⟨ht', hsent⟩
  exact ⟨ht', hok, .of_eq hsent⟩

theorem webappClose_spec (h : Inv .idle s) (ht : msg.msgType = msgWebappClose) :
    SyscallSpec s proc msg (handleCloseWebApp msg.msgValue (atoi msg.stringData)) := by
  have hok : SyscallOk s proc msg ↔ s.CloseOk msg.msgValue (atoi msg.stringData) := by
    simp +decide [syscallOk_iff, ht]
  rw [SyscallSpec, hok]
  refine (handleCloseWebApp_outcome h _ _).mono ?_ ?_
  · rintro - t ⟨ht', hclose, hsent⟩
    exact ⟨ht', hclose, hsent.mono fun f hf => .inl hf⟩
  · rintro e t ⟨rfl, hclose, hsent⟩
    refine ⟨hclose, ?_, fun _ => .inl ⟨ht, hclose⟩, hsent.mono fun f hf => .inl hf⟩
    intro f g hf hg
    exact h.labelled.pair f g ((hsent.handed f).mp hf) ((hsent.handed g).mp hg)

theorem replayWebapp_spec (h : Inv .idle s) (ht : msg.msgType = msgReplayWebapp) :
    SyscallSpec s proc msg (do
      handleReplayWebApp msg.msgValue
      modify fun s => { s with replayMode := true }) := by
  have hok : SyscallOk s proc msg ↔ s.ReplayOk msg.msgValue := by
    simp +decide [syscallOk_iff, ht]
  rw [SyscallSpec, hok, Outcome.bind]
  refine (handleReplayWebApp_outcome h msg.msgValue).mono ?_ ?_
  · rintro - t ⟨ht', hfree, hsent⟩
    exact ⟨ht'.setReplayMode true, hfree, .of_eq hsent⟩
  · rintro e t ⟨hwhy, hused, rfl⟩
    refine ⟨hused, h.labelled.pair, fun hfault => ?_, .of_eq rfl⟩
    cases hwhy with
    | inl he =>
        rw [he] at hfault
        exact absurd hfault (by decide)
    | inr hlisted => exact .inr ⟨ht, hlisted⟩

theorem log_spec (h : Inv .idle s) (ht : msg.msgType = msgLogBehaviorData ∨
    msg.msgType = msgLogUserInput) :
    SyscallSpec s proc msg (pure ()) := by
  have hok : SyscallOk s proc msg := by
    cases ht with
    | inl ht => simp +decide [syscallOk_iff, ht]
    | inr ht => simp +decide [syscallOk_iff, ht]
  exact ⟨h, hok, .of_eq rfl⟩

theorem embedFrame_spec (h : Inv .idle s) (ht : msg.msgType = msgEmbedFrame) :
    SyscallSpec s proc msg (handleEmbedFrame msg) := by
  have hok : SyscallOk s proc msg := by simp +decide [syscallOk_iff, ht]
  refine (handleEmbedFrame_outcome h msg).mono ?_ fun _ _ h => h.elim
  rintro - t ⟨ht', hsent⟩
  exact ⟨ht', hok, hsent.mono fun f hf => .inr (.inr (.inr ⟨ht, hf⟩))⟩

theorem handleSyscall_spec (h : Inv .idle s) : SyscallSpec s proc msg (handleSyscall proc msg) := by
  rw [SyscallSpec, handleSyscall, Outcome.bind, Outcome.get]
  split
  · rename_i ht
    split
    · rename_i hsrc
      exact newUrl_spec h ht (by simpa using hsrc)
    · rename_i hsrc
      have hok : SyscallOk s proc msg := by
        simp only [Bool.or_eq_true, Bool.not_eq_true', decide_eq_true_eq] at hsrc
        simp +decide [syscallOk_iff, ht, hsrc]
      exact ⟨h, hok, .of_eq rfl⟩
  · rename_i h₁
    split
    · exact newWebapp_spec h ‹_›
    · rename_i h₂
      split
      · exact updataContainer_spec h ‹_›
      · rename_i h₃
        split
        · exact webappClose_spec h ‹_›
        · rename_i h₄
          split
          · exact replayWebapp_spec h ‹_›
          · rename_i h₅
            split
            · exact log_spec h ‹_›
            · rename_i h₆
              split
              · exact embedFrame_spec h ‹_›
              · -- the dispatch table has no other case
                refine ⟨fun hok => ?_, h.labelled.pair, fun hf => absurd hf (by decide), .of_eq rfl⟩
                have hknown := hok.known
                simp only [syscalls, List.mem_cons, List.not_mem_nil] at hknown
                tauto

end Syscalls

/-! ### One message -/

theorem Inv.id_pos {ph : Phase} (h : Inv ph s) {a : Addr} {k : I32} (ha : s.objectAt a = some k) :
    0 < k := by
  have hcore : ∀ k ∈ coreIds, 0 < k := by decide
  rcases h.registry.ids a k ha with hk | hk
  · exact hcore k hk
  · exact lt_of_lt_of_le (by decide) hk.1

/-- A frame as the kernel sees it: its source and its number are the kernel's. -/
def stamp (s : KState) (p : Process) (m : Message) : Message :=
  { m with srcId := p.objectId, msgId := if s.msgId ≥ 0 then s.msgId else m.msgId }

/-- The message that `handleMessage` works on, and the state without it. -/
def KState.received (s : KState) (p : Process) : Message × KState :=
  match s.unread p.pid with
  | [] => ({}, s)
  | m :: rest => (stamp s p m, s.bumpMsgId.setUnread p.pid rest)

theorem nextMessage_outcome {p : Process} (hp : 0 < p.objectId) {Q E} :
    Outcome (nextMessage p) s Q E ↔ Q (s.received p).1 (s.received p).2 := by
  rw [nextMessage, Outcome.bind, Outcome.get]
  cases hu : s.unread p.pid with
  | nil => simp [KState.received, hu]
  | cons m rest =>
      have hu' : s.bumpMsgId.unread p.pid = m :: rest := hu
      rw [if_neg (by simp), Outcome.bind, nextMsgId_outcome, readMessageKernel, Outcome.bind,
        Outcome.get, hu']
      dsimp only
      rw [Outcome.bind, Outcome.set, Outcome.pure, if_pos (le_of_lt hp)]
      simp [KState.received, stamp, hu]

/-- A component is handled by working on its next message. -/
theorem handleMessage_outcome_route (h : Inv .idle s) {proc : Addr} {p : Process}
    (hp : s.procs[proc]? = some p) {Q E} :
    Outcome (handleMessage proc) s Q E ↔
      Outcome (route proc (s.received p).1) (s.received p).2 Q E := by
  have hobj : s.objectAt proc = some p.objectId := by rw [KState.objectAt, hp, Option.map_some]
  rw [handleMessage, Outcome.bind, deref_outcome hp, Outcome.bind,
    nextMessage_outcome (h.id_pos hobj)]

theorem Inv.received (h : Inv .idle s) (p : Process) : Inv .idle (s.received p).2 := by
  unfold KState.received
  split
  · exact h
  · exact h.bumpMsgId.setUnread _ _

/-- Reading a frame changes the pipe and the counter of the messages only. -/
theorem received_field {α : Type} (field : KState → α) (hbump : ∀ t, field t.bumpMsgId = field t)
    (hunread : ∀ t pid frames, field (KState.setUnread t pid frames) = field t) (p : Process) :
    field (s.received p).2 = field s := by
  unfold KState.received
  split
  · rfl
  · rw [hunread, hbump]

@[simp] theorem received_sent (p : Process) : (s.received p).2.sent = s.sent :=
  received_field KState.sent (fun _ => rfl) (fun _ _ _ => rfl) p

@[simp] theorem received_procMap (p : Process) : (s.received p).2.procMap = s.procMap :=
  received_field KState.procMap (fun _ => rfl) (fun _ _ _ => rfl) p

@[simp] theorem received_procs (p : Process) : (s.received p).2.procs = s.procs :=
  received_field KState.procs (fun _ => rfl) (fun _ _ _ => rfl) p

@[simp] theorem received_uiFd (p : Process) : (s.received p).2.uiFd = s.uiFd :=
  received_field KState.uiFd (fun _ => rfl) (fun _ _ _ => rfl) p

@[simp] theorem received_webAppList (p : Process) : (s.received p).2.webAppList = s.webAppList :=
  received_field KState.webAppList (fun _ => rfl) (fun _ _ _ => rfl) p

@[simp] theorem received_replayMode (p : Process) : (s.received p).2.replayMode = s.replayMode :=
  received_field KState.replayMode (fun _ => rfl) (fun _ _ _ => rfl) p

/-- A frame that is passed on to the process registered under its destination. -/
structure Relayed (s : KState) (msg : Message) (f : Sent) : Prop where
  site : f.site = .handleMessage
  live : s.replayMode = false
  frame : f.msg = msg
  allowed : AccessControl.create.checkWrite msg = true
  target : ∃ (a : Addr) (q : Process), s.procMap[msg.dstId]? = some a ∧ s.procs[a]? = some q ∧
    q.objectId = msg.dstId ∧ f.fd = q.inFd

/-- What is not for the kernel is passed on or dropped. -/
theorem route_relay_outcome (h : Inv .idle s) (proc : Addr) {msg : Message}
    (hd : msg.dstId ≠ kernelId) :
    Outcome (route proc msg) s (fun _ t => t = s ∨ ∃ f, Relayed s msg f ∧ t = s.send f)
      fun _ _ => False := by
  rw [route, Outcome.bind, Outcome.get, if_neg hd]
  cases hm : s.procMap[msg.dstId]? with
  | none => exact .inl rfl
  | some a =>
      obtain ⟨q, hq, hid⟩ := Option.map_eq_some_iff.mp ((h.registry.keyed _ a).mp hm)
      dsimp only
      rw [Outcome.bind, deref_outcome hq, Outcome.ite]
      refine ⟨fun hlive => ?_, fun _ => .inl rfl⟩
      have hlive : s.replayMode = false := by simpa using hlive
      rw [writeMessageKernel, Outcome.modify]
      split
      next hc =>
        rw [h.registry.acc] at hc
        exact .inr ⟨_, ⟨rfl, hlive, rfl, hc, a, q, hm, hq, hid, rfl⟩, rfl⟩
      next => exact .inl rfl

theorem route_outcome (h : Inv .idle s) (proc : Addr) {msg : Message} (hd : msg.dstId ≠ kernelId) :
    Outcome (route proc msg) s (fun _ t => Inv .idle t ∧ Wrote (Relayed s msg) s t)
      fun _ _ => False := by
  refine (route_relay_outcome h proc hd).mono ?_ fun _ _ h => h
  intro _ t ht
  cases ht with
  | inl ht =>
      rw [ht]
      exact ⟨h, .of_eq rfl⟩
  | inr ht =>
      obtain ⟨f, hf, rfl⟩ := ht
      refine ⟨h.send fun hsite => absurd (hf.site.symm.trans hsite) (by decide), [f], rfl, ?_⟩
      simpa using hf

/-- The frames that one message leads to. -/
def MessageFrame (s t : KState) (msg : Message) (f : Sent) : Prop :=
  msg.dstId = kernelId ∧ SyscallFrame s t msg f ∨ msg.dstId ≠ kernelId ∧ Relayed s msg f

theorem handleMessage_outcome (h : Inv .idle s) {proc : Addr} {p : Process}
    (hp : s.procs[proc]? = some p) :
    Outcome (handleMessage proc) s
      (fun _ t => Inv .idle t ∧
        ((s.received p).1.dstId = kernelId → SyscallOk (s.received p).2 proc (s.received p).1) ∧
        Wrote (MessageFrame (s.received p).2 t (s.received p).1) s t)
      fun e t => (s.received p).1.dstId = kernelId ∧
        ¬ SyscallOk (s.received p).2 proc (s.received p).1 ∧ t.OneLabel ∧
        (e ∈ tableFaults → BreaksTables (s.received p).2 (s.received p).1) ∧
        Wrote (MessageFrame (s.received p).2 t (s.received p).1) s t := by
  have hinv := h.received p
  have hsent : ∀ {P : Sent → Prop} {t : KState}, Wrote P (s.received p).2 t → Wrote P s t :=
    fun hw => (Wrote.of_eq (received_sent p)).trans hw
  rw [handleMessage_outcome_route h hp]
  by_cases hd : (s.received p).1.dstId = kernelId
  · rw [route, Outcome.bind, Outcome.get, if_pos hd]
    refine Outcome.mono (handleSyscall_spec hinv) ?_ ?_
    · rintro - t ⟨ht, hok, hw⟩
      exact ⟨ht, fun _ => hok, hsent (hw.mono fun f hf => .inl ⟨hd, hf⟩)⟩
    · rintro e t ⟨hok, hlabel, hfault, hw⟩
      exact ⟨hd, hok, hlabel, hfault, hsent (hw.mono fun f hf => .inl ⟨hd, hf⟩)⟩
  · refine (route_outcome hinv proc hd).mono ?_ fun _ _ h => h.elim
    rintro - t ⟨ht, hw⟩
    exact ⟨ht, fun h => absurd h hd, hsent (hw.mono fun f hf => .inr ⟨hd, hf⟩)⟩

/-! ### Reported deaths -/

theorem findByPid_eq_some {pid : Pid} {k : I32} (h : findByPid s pid = some k) :
    ∃ (a : Addr) (p : Process), s.procMap[k]? = some a ∧ s.procs[a]? = some p ∧ p.pid = pid := by
  obtain ⟨⟨k', a⟩, he, rfl⟩ := Option.map_eq_some_iff.mp h
  have hmem := OrdMap.mem_toList.mp (List.mem_of_find?_eq_some he)
  have hpid := List.find?_some he
  obtain ⟨p, hp, hpid⟩ := Option.map_eq_some_iff.mp (of_decide_eq_true hpid)
  exact ⟨a, p, hmem, hp, hpid⟩

theorem Inv.unkill {ph : Phase} (h : Inv ph s) (pid : Pid) :
    Inv ph { s with killList := s.killList.erase pid } := by
  refine ⟨{ h.registry with killed := ?_ }, { h.placement with }, { h.labelled with }, h.ui⟩
  intro n e he
  rw [OrdMap.getElem?_erase] at he
  split at he
  · cases he
  · exact h.registry.killed n e he

/-- What is preserved when a death is taken note of. -/
structure Reaped (s t : KState) : Prop where
  inv : Inv .idle t
  procs : t.procs = s.procs
  frames : Wrote KernelFrame s t

/-- The frame that reports an exit to the UI. -/
def exitFrame (s : KState) (ui : Process) (objectId : I32) : Sent where
  site := .sigchldHandler
  fd := ui.inFd
  msg :=
    { srcId := kernelId, dstId := uiId, msgId := s.msgId, msgType := msgWebAppExited
      msgValue := objectId }

theorem kernelFrame_exitFrame (s : KState) (ui : Process) (objectId : I32) :
    KernelFrame (exitFrame s ui objectId) :=
  ⟨rfl, by rintro ⟨⟩, (by decide : msgWebAppExited ≠ msgNewWebapp), by rintro (⟨⟨⟩⟩ | ⟨⟨⟩⟩)⟩

/-- The death of a process on the kill list is only told to the UI. -/
theorem reap_killed {a : Addr} {ui : Process} (hm : s.procMap[uiId]? = some a)
    (hp : s.procs[a]? = some ui) {pid : Pid} {killed : I32 × ℤ}
    (hk : s.killList[pid]? = some killed) {Q : Unit → KState → Prop} {E : Fault → KState → Prop} :
    Outcome (reap pid) s Q E ↔
      Q () { s.bumpMsgId.send (exitFrame s ui killed.1) with
        killList := s.killList.erase pid } := by
  rw [reap, Outcome.bind, Outcome.get, hk]
  dsimp only
  rw [Outcome.bind, nextMsgId_outcome, Outcome.bind, hm, Outcome.require_some, Outcome.bind,
    deref_outcome (s := s.bumpMsgId) hp, Outcome.bind,
    writeMessageKernel_outcome (AccessControl.checkWrite_of_kernel_src rfl), Outcome.modify]
  exact Iff.rfl

/-- The UI stands in the table under its own id. -/
theorem Inv.uiEntry (h : Inv .idle s) :
    ∃ (a : Addr) (ui : Process), s.procMap[uiId]? = some a ∧ s.procs[a]? = some ui := by
  obtain ⟨a, ui, hp, hid, -⟩ := h.ui (by simp)
  refine ⟨a, ui, (h.registry.keyed _ a).mpr ?_, hp⟩
  rw [KState.objectAt, hp, Option.map_some, hid]

theorem reap_outcome (h : Inv .idle s) (pid : Pid) :
    Outcome (reap pid) s (fun _ t => Reaped s t)
      fun e t => Wrote KernelFrame s t ∧ (e ∈ tableFaults → ∃ (a : Addr) (p : Process),
        s.procs[a]? = some p ∧ webappFirstId ≤ p.objectId ∧ p.pid = pid) := by
  cases hk : s.killList[pid]? with
  | some killed =>
      obtain ⟨a, ui, hm, hp⟩ := h.uiEntry
      rw [reap_killed hm hp hk]
      have hkernel := kernelFrame_exitFrame s ui killed.1
      have hsend : Inv .idle (s.bumpMsgId.send (exitFrame s ui killed.1)) :=
        h.bumpMsgId.send fun hsite => absurd hsite hkernel.site
      exact ⟨hsend.unkill pid, rfl, [exitFrame s ui killed.1], rfl, by simpa using hkernel⟩
  | none =>
      rw [reap, Outcome.bind, Outcome.get, hk]
      dsimp only
      cases hf : findByPid s pid with
      | none => exact ⟨h, rfl, .of_eq rfl⟩
      | some k =>
          obtain ⟨a, p, hm, hp, hpid⟩ := findByPid_eq_some hf
          have hid : p.objectId = k := by
            have hobj := (h.registry.keyed k a).mp hm
            rw [KState.objectAt, hp, Option.map_some] at hobj
            exact Option.some.inj hobj
          dsimp only
          rw [Outcome.ite]
          refine ⟨fun hweb => ?_, fun _ => ?_⟩
          · refine (handleUnexpectedClose_outcome h k).mono (fun _ _ h => h.elim) ?_
            rintro e t ⟨-, hsent⟩
            exact ⟨.of_eq hsent, fun _ => ⟨a, p, hp, hid ▸ hweb, hpid⟩⟩
          · rw [Outcome.bind, killProcs, Outcome.modify, Outcome.throw']
            exact ⟨.of_eq rfl, fun hfault => absurd hfault (by decide)⟩

theorem reapAll_outcome (pids : List Pid) : ∀ {s : KState}, Inv .idle s →
    Outcome (reapAll pids) s (fun _ t => Reaped s t)
      fun e t => Wrote KernelFrame s t ∧ (e ∈ tableFaults → ∃ (a : Addr) (p : Process),
        s.procs[a]? = some p ∧ webappFirstId ≤ p.objectId ∧ p.pid ∈ pids) := by
  induction pids with
  | nil => exact fun h => ⟨h, rfl, .of_eq rfl⟩
  | cons pid pids ih =>
      intro s h
      rw [reapAll, Outcome.bind]
      refine (reap_outcome h pid).mono ?_ ?_
      · rintro - t ht
        refine (ih ht.inv).mono ?_ ?_
        · rintro - u hu
          exact ⟨hu.inv, hu.procs.trans ht.procs, ht.frames.trans hu.frames⟩
        · rintro e u ⟨hw, hfault⟩
          refine ⟨ht.frames.trans hw, fun he => ?_⟩
          obtain ⟨a, p, hp, hweb, hmem⟩ := hfault he
          exact ⟨a, p, ht.procs ▸ hp, hweb, List.mem_cons_of_mem _ hmem⟩
      · rintro e t ⟨hw, hfault⟩
        refine ⟨hw, fun he => ?_⟩
        obtain ⟨a, p, hp, hweb, hpid⟩ := hfault he
        exact ⟨a, p, hp, hweb, hpid ▸ List.mem_cons_self⟩

theorem sigchldHandler_outcome (h : Inv .idle s) (pids : List Pid) :
    Outcome (sigchldHandler pids) s (fun _ t => Inv .idle t ∧ Wrote KernelFrame s t)
      fun e t => Wrote KernelFrame s t ∧ (e ∈ tableFaults → ∃ (a : Addr) (p : Process),
        s.procs[a]? = some p ∧ webappFirstId ≤ p.objectId ∧ p.pid ∈ pids) := by
  rw [sigchldHandler, Outcome.bind]
  refine (reapAll_outcome pids h).mono ?_ fun _ _ h => h
  rintro - t ht
  exact ⟨ht.inv.of_same ⟨rfl, rfl, rfl, rfl, rfl, rfl, rfl, rfl, rfl, rfl, rfl, rfl,
    fun _ => Iff.rfl⟩, ht.frames⟩

end OpBrowser
