import OpBrowser.Verification.Kernel.Runs

/-! # Complete mediation

Which frames the kernel writes, whose name they bear and where they go. -/

namespace OpBrowser

open Kernel

/-- The kernel takes this frame out of the pipe of the process registered as `k`. -/
structure ReadFrom (s : KState) (k : I32) (p : Process) (m : Message) : Prop where
  registered : ∃ a, s.procMap[k]? = some a ∧ s.procs[a]? = some p
  id : p.objectId = k
  head : (s.unread p.pid).head? = some m

/-- The descriptor leads into the pipe of the process registered as `k`. -/
def KState.LeadsTo (s : KState) (fd : ℕ) (k : I32) : Prop :=
  ∃ a p, s.procMap[k]? = some a ∧ s.procs[a]? = some p ∧ p.objectId = k ∧ fd = p.inFd ∧
    s.fds.slot fd = some (endOf p.pid .inPipe .write)

/-- Why this event may write this frame. -/
inductive Mediated (s : KState) : Event → Sent → Prop where
  | kernel {e : Event} {f : Sent} (src : f.msg.srcId = kernelId) (own : ¬ f.Forwarded) :
      Mediated s e f
  | notice {e : Event} {f : Sent} (site : f.site = .handleNewUrl)
      (type : f.msg.msgType = msgNewWebapp) (toUi : s.LeadsTo f.fd uiId) : Mediated s e f
  | embed {k : I32} {p : Process} {m : Message} {f : Sent} (read : ReadFrom s k p m)
      (type : m.msgType = msgEmbedFrame) (frame : f = ⟨.handleEmbedFrame, s.uiFd, stamp s p m⟩)
      (toUi : s.LeadsTo f.fd uiId) : Mediated s (.handle k) f
  | relay {k : I32} {p : Process} {m : Message} {f : Sent} (read : ReadFrom s k p m)
      (site : f.site = .handleMessage) (frame : f.msg = stamp s p m) (source : f.msg.srcId = k)
      (target : s.LeadsTo f.fd f.msg.dstId)
      (allowed : AccessControl.create.Registered k f.msg.dstId f.msg.msgType) :
      Mediated s (.handle k) f

variable {s t : KState} {f : Sent}

/-! ### Descriptors -/

theorem Inv.leadsTo (h : Inv .idle s) {k : I32} {a : Addr} {p : Process}
    (hm : s.procMap[k]? = some a) (hp : s.procs[a]? = some p) : s.LeadsTo p.inFd k := by
  obtain ⟨q, hq, hid⟩ := h.registered hm
  rw [hp] at hq
  cases hq
  exact ⟨a, p, hm, hp, hid, rfl, h.registry.inFds a p hp⟩

theorem Inv.uiFd_leadsTo (h : Inv .idle s) : s.LeadsTo s.uiFd uiId := by
  obtain ⟨a, p, hp, hid, hfd⟩ := h.ui (by simp)
  rw [hfd]
  refine h.leadsTo ((h.registry.keyed uiId a).mpr ?_) hp
  rw [KState.objectAt, hp, Option.map_some, hid]

/-- A descriptor leads to one process. -/
theorem Inv.leadsTo_unique (h : Inv .idle s) {fd : ℕ} {k n : I32} (hk : s.LeadsTo fd k)
    (hn : s.LeadsTo fd n) : k = n := by
  obtain ⟨a, p, -, hp, rfl, -, hslot⟩ := hk
  obtain ⟨b, q, -, hq, rfl, -, hslot'⟩ := hn
  rw [hslot] at hslot'
  have hpid : p.pid = q.pid := by simpa [endOf] using hslot'
  obtain rfl := h.registry.distinct a b p q hp hq hpid
  rw [hp] at hq
  cases hq
  rfl

/-! ### One message -/

/-- The message that is handled is the stamped head of the pipe, or a blank one. -/
theorem received_cases (p : Process) : (s.received p).1 = {} ∨
    ∃ m, (s.unread p.pid).head? = some m ∧ (s.received p).1 = stamp s p m := by
  unfold KState.received
  cases s.unread p.pid with
  | nil => exact .inl rfl
  | cons m rest => exact .inr ⟨m, rfl, rfl⟩

theorem mediated_of_eventFrame (h : Inv .idle s) {e : Event} (hf : EventFrame s t e f) :
    Mediated s e f := by
  cases e with
  | write pid msg => exact hf.elim
  | die pid => exact hf.elim
  | tick now => exact hf.elim
  | sigchld pids => exact .kernel (KernelFrame.src hf) (KernelFrame.own hf)
  | handle k =>
      obtain ⟨a, p, hm, hp, hid, hf⟩ := hf
      rcases hf with ⟨-, hf⟩ | ⟨hd, hf⟩
      · rcases hf with hf | hf | hf | ⟨htype, rfl⟩
        · exact .kernel hf.src hf.own
        · refine .kernel hf.src fun hcopy => ?_
          rw [Sent.Forwarded, hf.site] at hcopy
          exact absurd hcopy (by decide)
        · refine .notice hf.site hf.type ?_
          rw [hf.fd, received_uiFd]
          exact h.uiFd_leadsTo
        · rcases received_cases (s := s) p with hr | ⟨m, hhead, hr⟩
          · rw [hr] at htype
            exact absurd htype (by decide)
          · rw [received_uiFd, hr]
            rw [hr] at htype
            exact .embed ⟨⟨a, hm, hp⟩, hid, hhead⟩ htype rfl h.uiFd_leadsTo
      · rcases received_cases (s := s) p with hr | ⟨m, hhead, hr⟩
        · rw [hr] at hd
          exact absurd rfl hd
        · have hsrc : f.msg.srcId = k := by rw [hf.frame, hr, ← hid]; rfl
          have hne : f.msg.srcId ≠ kernelId := by
            have hpos := h.id_pos ((h.registry.keyed k a).mp hm)
            rw [hsrc]
            exact hpos.ne'
          obtain ⟨b, q, hmq, hq, hqid, hfd⟩ := hf.target
          rw [received_procMap] at hmq
          rw [received_procs] at hq
          have hallowed := hf.allowed
          rw [← hf.frame] at hallowed hd hmq
          rw [AccessControl.checkWrite_of_ne hne hd, hsrc] at hallowed
          refine .relay ⟨⟨a, hm, hp⟩, hid, hhead⟩ hf.site (hf.frame.trans hr) hsrc ?_ hallowed
          rw [hfd]
          exact h.leadsTo hmq hq

/-- No pair of the table leads from a web app to a web app. -/
theorem not_registered_webapps {k n type : I32} (hk : webappFirstId ≤ k) (hn : webappFirstId ≤ n) :
    ¬ AccessControl.create.Registered k n type := by
  rintro ⟨chk, hc, -⟩
  have hnone : AccessControl.create.lookup (webappFirstId, webappFirstId) = none := by decide
  rw [AccessControl.getACC, AccessControl.classOf, AccessControl.classOf, if_pos hk, if_pos hn,
    hnone] at hc
  cases hc

/-- What is read from a web app and written again does not go to a web app. -/
theorem Mediated.not_to_webapp (h : Inv .idle s) {k : I32} (hf : Mediated s (.handle k) f)
    (hk : webappFirstId ≤ k) (hcopy : f.Forwarded) {n : I32} (hn : webappFirstId ≤ n) :
    ¬ s.LeadsTo f.fd n := by
  have hui : uiId < webappFirstId := by decide
  intro hto
  cases hf with
  | kernel src own => exact own hcopy
  | notice site type toUi => exact absurd (h.leadsTo_unique toUi hto ▸ hn) (not_le.mpr hui)
  | embed read type frame toUi => exact absurd (h.leadsTo_unique toUi hto ▸ hn) (not_le.mpr hui)
  | relay read site frame source target allowed =>
      have hdst : f.msg.dstId = n := h.leadsTo_unique target hto
      exact not_registered_webapps hk (hdst ▸ hn) allowed

/-! ### Runs -/

/-- Every frame that the kernel writes is one of its own making, an embedded frame for the
UI or a stamped one that the table allows, and what it reads from the pipe of one web app it
writes into the pipe of no other. -/
theorem mediated_run (isCrawler : Bool) (fdLimit : ℕ) (es : List Event) {f : Sent}
    (hf : f ∈ ((boot isCrawler fdLimit).run es).state.sent) :
    ∃ es₁ e es₂, es = es₁ ++ e :: es₂ ∧
      Mediated ((boot isCrawler fdLimit).run es₁).state e f ∧
      ∀ k p m, e = .handle k → ReadFrom ((boot isCrawler fdLimit).run es₁).state k p m →
        webappFirstId ≤ k → f.Forwarded →
          ∀ n, webappFirstId ≤ n → ¬ ((boot isCrawler fdLimit).run es₁).state.LeadsTo f.fd n := by
  obtain ⟨es₁, e, es₂, hes, hinv, hframe⟩ := sent_run isCrawler fdLimit es hf
  have hmediated := mediated_of_eventFrame hinv hframe
  refine ⟨es₁, e, es₂, hes, hmediated, ?_⟩
  rintro k p m rfl - hk hcopy n hn
  exact hmediated.not_to_webapp hinv hk hcopy hn

/-- A web app that claims to be the kernel. -/
theorem mediated_run_relay :
    let es : List Event :=
      [.write 5 { srcId := kernelId, dstId := uiId, msgType := msgUiMsg }, .handle 1024]
    let f : Sent := ⟨.handleMessage, 10,
      { srcId := 1024, dstId := uiId, msgId := 1, msgType := msgUiMsg }⟩
    f ∈ ((boot false 1024).run es).state.sent ∧ ∃ es₁ e es₂, es = es₁ ++ e :: es₂ ∧
      Mediated ((boot false 1024).run es₁).state e f ∧
      ∀ k p m, e = .handle k → ReadFrom ((boot false 1024).run es₁).state k p m →
        webappFirstId ≤ k → f.Forwarded →
          ∀ n, webappFirstId ≤ n → ¬ ((boot false 1024).run es₁).state.LeadsTo f.fd n := by
  intro es f
  have hf : f ∈ ((boot false 1024).run es).state.sent := by decide
  exact ⟨hf, mediated_run false 1024 es hf⟩

end OpBrowser
