import OpBrowser.Verification.Kernel.Mediation

/-! # Announcements of web apps

The UI takes every `MSG_NEW_WEBAPP` frame as the kernel's word. -/

namespace OpBrowser

open Kernel

variable {s t : KState} {f : Sent}

/-- The event passes on an announcement that a web app wrote itself. -/
def Announces (s : KState) : Event → Prop
  | .handle k => s.replayMode = false ∧ webappFirstId ≤ k ∧
      ∃ p m, ReadFrom s k p m ∧ m.dstId = uiId ∧ m.msgType = msgNewWebapp
  | _ => False

/-- Only web apps may send announcements, and only to the UI. -/
theorem registered_newWebapp {src dst : I32}
    (h : AccessControl.create.Registered src dst msgNewWebapp) :
    webappFirstId ≤ src ∧ dst = uiId := by
  have hentries : ∀ e ∈ AccessControl.create, msgNewWebapp ∈ e.2.messages →
      e.1 = (webappFirstId, uiId) := by decide
  obtain ⟨chk, hc, hmem⟩ := h
  obtain ⟨before, after, hacc, -⟩ := List.lookup_eq_some_iff.mp hc
  have hkey := hentries _ (hacc ▸ List.mem_append_right before (List.mem_cons_self ..)) hmem
  obtain ⟨hsrc, hdst⟩ := Prod.mk.inj hkey
  unfold AccessControl.classOf at hsrc hdst
  split at hsrc
  · refine ⟨‹_›, ?_⟩
    split at hdst
    · exact absurd hdst (by decide)
    · exact hdst
  · exact absurd hsrc.ge ‹_›

/-- An announcement comes out of `handleNewUrl` unless the event passes one on. -/
theorem notice_of_eventFrame (h : Inv .idle s) {e : Event} (hf : EventFrame s t e f)
    (htype : f.msg.msgType = msgNewWebapp) (he : ¬ Announces s e) : IsNotice s t f := by
  cases e with
  | write pid msg => exact hf.elim
  | die pid => exact hf.elim
  | tick now => exact hf.elim
  | sigchld pids => exact absurd htype (KernelFrame.type hf)
  | handle k =>
      obtain ⟨a, p, hm, hp, hid, ⟨-, hf⟩ | ⟨hd, hf⟩⟩ := hf
      · rcases hf with hf | hf | hf | ⟨hembed, rfl⟩
        · exact absurd htype hf.type
        · rw [hf.type] at htype
          exact absurd htype (by decide)
        · refine ⟨hf.site, ?_, hf.dst, hf.type, ?_, hf.after⟩
          · rw [hf.fd, received_uiFd]
          · rw [← received_webAppList p, hf.before]
        · rw [hembed] at htype
          exact absurd htype (by decide)
      · rcases received_cases (s := s) p with hr | ⟨m, hhead, hr⟩
        · rw [hr] at hd
          exact absurd rfl hd
        · have hallowed := hf.allowed
          have hlive := hf.live
          have htype' := hf.frame ▸ htype
          rw [hr] at hallowed hd htype'
          rw [received_replayMode] at hlive
          have hpos := h.id_pos ((h.registry.keyed k a).mp hm)
          have hsrc : (stamp s p m).srcId = k := hid
          rw [AccessControl.checkWrite_of_ne (by rw [hsrc]; exact hpos.ne') hd, hsrc, htype']
            at hallowed
          obtain ⟨hweb, hui⟩ := registered_newWebapp hallowed
          exact absurd ⟨hlive, hweb, p, m, ⟨⟨a, hm, hp⟩, hid, hhead⟩, hui, htype'⟩ he

/-! ### Runs -/

/-- Every announcement was built by `handleNewUrl` in a step that listed its source. -/
def OnlyNotices (m : Machine) (es : List Event) : Prop :=
  ∀ f ∈ (m.run es).state.sent, f.msg.msgType = msgNewWebapp →
    ∃ es₁ e es₂, es = es₁ ++ e :: es₂ ∧
      IsNotice (m.run es₁).state (m.run (es₁ ++ [e])).state f

/-- Unless the kernel handles an announcement that a web app wrote for the UI, the
kernel's own announcements are the only ones. -/
theorem onlyNotices_run (isCrawler : Bool) (fdLimit : ℕ) (es : List Event)
    (h : Along (fun m e => ¬ Announces m.state e) Machine.step (boot isCrawler fdLimit) es) :
    OnlyNotices (boot isCrawler fdLimit) es := by
  intro f hf htype
  obtain ⟨es₁, e, es₂, rfl, hinv, hframe⟩ := sent_run isCrawler fdLimit es hf
  have hquiet := (Along.append.mp h).2.1
  exact ⟨es₁, e, es₂, rfl, notice_of_eventFrame hinv hframe htype hquiet⟩

/-- A URL is opened, and the new web app is announced. -/
theorem onlyNotices_run_newUrl :
    let es : List Event := [
      .write 4
        { msgType := msgNewUrl, msgValue := 1, payload := .ofBytes (bytes "http://a.com/\x00") },
      .write 5 { msgType := msgNewWebapp, msgValue := 77 },
      .handle uiId]
    Along (fun m e => ¬ Announces m.state e) Machine.step (boot false 1024) es ∧
      OnlyNotices (boot false 1024) es := by
  intro es
  have h : Along (fun m e => ¬ Announces m.state e) Machine.step (boot false 1024) es :=
    ⟨fun h => h, fun h => h, fun h => absurd h.2.1 (by decide), trivial⟩
  exact ⟨h, onlyNotices_run false 1024 es h⟩

/-- The spare web app announces itself before it was ever listed. -/
theorem forged_notice : ¬ OnlyNotices (boot false 1024)
    [.write 5 { dstId := uiId, msgType := msgNewWebapp, msgValue := 77 }, .handle 1024] := by
  intro h
  obtain ⟨es₁, e, es₂, hes, hnotice⟩ := h ⟨.handleMessage, 10,
    { srcId := 1024, dstId := uiId, msgId := 1, msgType := msgNewWebapp, msgValue := 77 }⟩
    (by decide) rfl
  exact absurd hnotice.site (by decide)

end OpBrowser
