import OpBrowser.Verification.Kernel.Homes
import OpBrowser.Verification.Kernel.Processes

/-! # Rules for the kernel's small operations

Following a pointer to a record that is known to be there, and the operations
that read or write one field. -/

namespace OpBrowser

open Kernel

variable {ph : Phase} {s : KState}

/-! ### Pointers to known records -/

section Pointers

variable {E : Fault → KState → Prop} {a w : Addr} {p : Process} {r : WebAppProcess}

theorem deref_outcome (hp : s.procs[a]? = some p) {Q} : Outcome (deref a) s Q E ↔ Q p s := by
  simp [deref, hp]

theorem derefApp_outcome (hr : s.apps[w]? = some r) {Q} : Outcome (derefApp w) s Q E ↔ Q r s := by
  simp [derefApp, hr]

theorem procOf_outcome (hr : s.apps[w]? = some r) (hp : r.proc = some a) {Q} :
    Outcome (procOf w) s Q E ↔ Q a s := by
  simp [procOf, derefApp, hr, hp]

theorem updateProc_outcome (hp : s.procs[a]? = some p) (f : Process → Process) {Q} :
    Outcome (updateProc a f) s Q E ↔ Q ⟨⟩ (s.writeProc a f) := by
  simp [updateProc, deref, hp]

theorem updateApp_outcome (hr : s.apps[w]? = some r) (f : WebAppProcess → WebAppProcess) {Q} :
    Outcome (updateApp w f) s Q E ↔ Q ⟨⟩ (s.writeApp w f) := by
  simp [updateApp, derefApp, hr]

theorem addToWebAppList_outcome (hr : s.apps[w]? = some r) (hrp : r.proc = some a)
    (hp : s.procs[a]? = some p) (hl : s.webAppList[p.objectId]? = none) {Q} :
    Outcome (addToWebAppList w) s Q E ↔ Q ⟨⟩ (s.list p.objectId w) := by
  have hl' : ¬ p.objectId ∈ s.webAppList := by simpa using hl
  simp [addToWebAppList, derefApp, deref, hr, hrp, hp, hl']

theorem removeFromWebAppList_outcome (hr : s.apps[w]? = some r) (hrp : r.proc = some a)
    (hp : s.procs[a]? = some p) (hl : s.webAppList[p.objectId]? = some (some w)) {Q} :
    Outcome (removeFromWebAppList w) s Q E ↔ Q ⟨⟩ (s.unlist p.objectId) := by
  simp [removeFromWebAppList, derefApp, deref, hr, hrp, hp, hl]

theorem deleteApp_outcome (hr : s.apps[w]? = some r) {Q} :
    Outcome (deleteApp w) s Q E ↔ Q ⟨⟩ (s.freeApp w) := by
  simp [deleteApp, derefApp, hr]

end Pointers

/-! ### Counters and frames -/

theorem handed_congr {t : KState} (h : t.sent = s.sent) (f : Sent) : t.Handed f ↔ s.Handed f := by
  rw [KState.Handed, h, KState.Handed]

theorem nextMsgId_outcome {Q E} :
    Outcome nextMsgId s Q E ↔ Q s.msgId s.bumpMsgId := by
  simp [nextMsgId]

theorem writeMessageKernel_outcome {site : Site} {fd : ℕ} {msg : Message} {Q E}
    (hw : s.accessControl.checkWrite msg = true) :
    Outcome (writeMessageKernel site fd msg) s Q E ↔
      Q ⟨⟩ (s.send ⟨site, fd, msg⟩) := by
  simp [writeMessageKernel, hw]

/-! ### Records of listed web apps -/

/-- Every listed web app has its record. -/
theorem Inv.listed_record (h : Inv ph s) {k : I32} {e : Option Addr}
    (hl : s.webAppList[k]? = some e) : ∃ w r a p, e = some w ∧ s.apps[w]? = some r ∧
      r.proc = some a ∧ s.procs[a]? = some p ∧ p.objectId = k := by
  obtain ⟨-, w, a, rfl, hw, ha, -⟩ := h.placement.listed k e hl
  obtain ⟨r, hr, hrp⟩ := Option.bind_eq_some_iff.mp hw
  obtain ⟨p, hp, hpk⟩ := Option.map_eq_some_iff.mp ha
  exact ⟨w, r, a, p, rfl, hr, hrp, hp, hpk⟩

end OpBrowser
