import Mathlib.Data.Finset.Card
import OpBrowser.Verification.Kernel.Changes

/-! # Descriptors that stay open

`createProc` closes the ends of the two pipes that are the child's. The two others
are closed by nobody, also not when the child's process leaves the tables. -/

namespace OpBrowser

open Kernel

/-! ### Open pipes -/

def Slot.ofPipe (s : Slot) : Bool :=
  match s.desc with
  | .pipe .. => true
  | .inherited _ => false

/-- The descriptor numbers at which an end of a pipe is open. -/
def FdTable.pipes (t : FdTable) : Finset ℕ :=
  (Finset.range t.length).filter fun fd => (t.slot fd).any Slot.ofPipe

theorem FdTable.mem_pipes {t : FdTable} {fd : ℕ} :
    fd ∈ t.pipes ↔ ∃ s, t.slot fd = some s ∧ s.ofPipe = true := by
  rw [FdTable.pipes, Finset.mem_filter, Finset.mem_range, Option.any_eq_true]
  refine ⟨And.right, fun h => ⟨?_, h⟩⟩
  obtain ⟨s, hs, -⟩ := h
  by_contra hlen
  rw [FdTable.slot, List.getElem?_eq_none (not_lt.mp hlen)] at hs
  cases hs

/-- A new child costs the kernel two descriptors, the two that its record bears. -/
structure SpawnPipes (t : FdTable) (ends : Spawned) : Prop where
  pipes : ends.parent.pipes = insert ends.inFd (insert ends.outFd t.pipes)
  inFd : ends.inFd ∉ insert ends.outFd t.pipes
  outFd : ends.outFd ∉ t.pipes

theorem spawn_pipes {limit : ℕ} {t : FdTable} {child : ℕ} {ends : Spawned}
    (h : spawn limit t child = some ends) : SpawnPipes t ends := by
  obtain ⟨inRead, inWrite, outRead, outWrite, spec⟩ := spawn_spec h
  obtain ⟨-, hin, hout, -⟩ := spec.free
  have hlt := spec.ascending
  have hclosed : ∀ {fd}, t.slot fd = none → fd ∉ t.pipes := by
    intro fd hfd hmem
    obtain ⟨s, hs, -⟩ := FdTable.mem_pipes.mp hmem
    rw [hfd] at hs
    cases hs
  refine ⟨?_, ?_, ?_⟩
  · rw [spec.inFd, spec.outFd]
    ext fd
    rw [FdTable.mem_pipes, spec.parent, Finset.mem_insert, Finset.mem_insert, FdTable.mem_pipes]
    split_ifs with h₁ h₂
    · simp [h₁, endOf, Slot.ofPipe]
    · simp [h₂, endOf, Slot.ofPipe]
    · simp [h₁, h₂]
  · rw [spec.inFd, spec.outFd, Finset.mem_insert]
    intro h
    cases h with
    | inl h => omega
    | inr h => exact hclosed hin h
  · rw [spec.outFd]
    exact hclosed hout

/-! ### The kernel's pipes -/

/-- The kernel has two pipe ends open for each process in `procMap`, and no others. -/
structure NoLeak (s : KState) : Prop where
  exact : ∀ fd, fd ∈ s.fds.pipes ↔ ∃ (k : I32) (a : Addr) (p : Process),
    s.procMap[k]? = some a ∧ s.procs[a]? = some p ∧ (fd = p.inFd ∨ fd = p.outFd)
  count : s.fds.pipes.card = 2 * s.procMap.size

/-- The same of a kernel that has not given away the next object id. -/
structure Tidy (s : KState) : Prop extends NoLeak s where
  fresh : ∀ k : I32, s.webAppIdOffset + webappFirstId ≤ k → s.procMap[k]? = none

variable {s t : KState}

/-- Two states with the same processes have the same pipes. -/
theorem Tidy.of_records (h : Tidy s) (hmap : t.procMap = s.procMap) (hfds : t.fds = s.fds)
    (hoff : t.webAppIdOffset = s.webAppIdOffset)
    (hprocs : ∀ a : Addr, (t.procs[a]?).map (fun p => (p.inFd, p.outFd)) =
      (s.procs[a]?).map fun p => (p.inFd, p.outFd)) : Tidy t := by
  have hends : ∀ (a : Addr) (fd : ℕ),
      (∃ p : Process, t.procs[a]? = some p ∧ (fd = p.inFd ∨ fd = p.outFd)) ↔
        ∃ p : Process, s.procs[a]? = some p ∧ (fd = p.inFd ∨ fd = p.outFd) := by
    intro a fd
    have hmem := congrArg (fun o => ∃ e ∈ o, fd = e.1 ∨ fd = e.2) (hprocs a)
    simpa using hmem
  refine ⟨⟨fun fd => ?_, ?_⟩, ?_⟩
  · rw [hfds, hmap, h.exact]
    simp only [exists_and_left, hends]
  · rw [hfds, hmap, h.count]
  · rw [hoff, hmap]
    exact h.fresh

theorem Tidy.writeProc (h : Tidy s) (a : Addr) {f : Process → Process}
    (hin : ∀ p, (f p).inFd = p.inFd) (hout : ∀ p, (f p).outFd = p.outFd) :
    Tidy (s.writeProc a f) := by
  refine h.of_records rfl rfl rfl fun b => ?_
  rw [KState.writeProc, Heap.getElem?_write]
  split
  · rw [Option.map_map]
    exact congrArg (Option.map · s.procs[b]?) (funext fun p => by simp [hin, hout])
  · rfl

theorem Tidy.heard (h : Tidy s) (w a : Addr) (client : I32) : Tidy (s.heard w a client) := by
  have happ : Tidy (s.writeApp w fun r => { r with client }) := { h with }
  exact happ.writeProc a (fun _ => rfl) fun _ => rfl

theorem Tidy.fork (h : Tidy s) (hroom : s.Room) {k off : I32} (hk : s.procMap[k]? = none)
    (hoff : s.webAppIdOffset ≤ off) (hlt : k < off + webappFirstId) :
    Tidy { s.forked k with webAppIdOffset := off } := by
  have hspawn := spawn_pipes (spawn_of_room hroom)
  refine ⟨⟨fun fd => ?_, ?_⟩, fun n hn => ?_⟩
  · change fd ∈ s.ends.parent.pipes ↔ ∃ (n : I32) (b : Addr) (p : Process),
      (s.forked k).procMap[n]? = some b ∧ (s.forked k).procs[b]? = some p ∧
        (fd = p.inFd ∨ fd = p.outFd)
    rw [hspawn.pipes, Finset.mem_insert, Finset.mem_insert, h.exact]
    simp only [KState.forked, Heap.getElem?_alloc, OrdMap.getElem?_insert]
    constructor
    · intro hfd
      rcases hfd with hfd | hfd | ⟨n, b, p, hm, hp, hfd⟩
      · exact ⟨k, s.procs.next, _, if_pos rfl, if_pos rfl, .inl hfd⟩
      · exact ⟨k, s.procs.next, _, if_pos rfl, if_pos rfl, .inr hfd⟩
      · refine ⟨n, b, p, ?_, ?_, hfd⟩
        · rwa [if_neg]
          rintro rfl
          simp [hm] at hk
        · rwa [if_neg (Heap.ne_next_of_getElem? hp).symm]
    · intro hfd
      obtain ⟨n, b, p, hm, hp, hfd⟩ := hfd
      split at hp
      next =>
        cases hp
        exact hfd.imp_right .inl
      next hb =>
        split at hm
        next => exact absurd (Option.some.inj hm) hb
        next => exact .inr (.inr ⟨n, b, p, hm, hp, hfd⟩)
  · change s.ends.parent.pipes.card = 2 * (s.procMap.insert k s.procs.next).size
    rw [hspawn.pipes, Finset.card_insert_of_notMem hspawn.inFd,
      Finset.card_insert_of_notMem hspawn.outFd, h.count, Std.ExtTreeMap.size_insert,
        if_neg (by simpa using hk)]
    omega
  · change off + webappFirstId ≤ n at hn
    change (s.procMap.insert k s.procs.next)[n]? = none
    rw [OrdMap.getElem?_insert, if_neg (by lia)]
    exact h.fresh n (by lia)

/-- While no process leaves the tables, a handler keeps the pipes as they should be. -/
theorem Tidy.change {X : I32 → Prop} (h : Tidy s) (hc : Change X False s t) : Tidy t := by
  cases hc with
  | book hk => exact h.of_records hk.procMap hk.fds hk.webAppIdOffset fun a => by rw [hk.procs]
  | send => exact { h with }
  | hear => exact Tidy.heard (s := s.setUnread _ _) { h with } _ _ _
  | mishear => exact { h with }
  | fork _ room =>
      have hfork : Tidy { s.forked (s.webAppIdOffset + webappFirstId) with
          webAppIdOffset := s.webAppIdOffset + 1 } :=
        h.fork room (h.fresh _ (le_refl _)) (by lia) (by lia)
      exact { hfork with }
  | unspare => exact { h with }
  | unpark => exact { h with }
  | list => exact { h with }
  | tab => exact { h with }
  | label => exact h.writeProc _ (fun _ => rfl) fun _ => rfl
  | park => exact { h with }
  | forget => exact { h with }
  | drop lossy => exact lossy.elim
  | free => exact { h with }

theorem Tidy.changes {X : I32 → Prop} (h : Tidy s) (hc : Changes X False s t) : Tidy t := by
  induction hc with
  | refl => exact h
  | tail _ hstep ih => exact ih.change hstep

/-! ### Events -/

/-- The event ends no process: it is neither a close under a full cache, nor a replay,
nor the reported death of a listed web app. -/
def Keeps (s : KState) : Event → Prop
  | .handle k => ∀ (a : Addr) (p : Process), s.procMap[k]? = some a → s.procs[a]? = some p →
      (s.received p).1.dstId = kernelId → ¬ Loses (s.received p).2 (s.received p).1
  | .sigchld pids => ¬ Bereaves s pids
  | _ => True

theorem Tidy.handleSyscall (ht : Tidy s) (h : Inv .idle s) {a : Addr} {p : Process}
    (hp : s.procs[a]? = some p) {msg : Message} (hkeep : ¬ Loses s msg) :
    Outcome (handleSyscall a msg) s (fun _ t => Tidy t) fun _ t => Tidy t := by
  by_cases hinit : msg.msgType = msgNewWebapp ∧ s.Spare a
  · obtain ⟨htype, w, hw, hwa⟩ := hinit
    obtain ⟨r, hr, hrp⟩ := Option.bind_eq_some_iff.mp hwa
    rw [handleSyscall_outcome_init htype, handleInit_outcome_spare hw hr hrp hp htype]
    exact ⟨fun _ => ht.heard w a _, fun _ => ht⟩
  · have hch : Makes (fun _ => True) False (Kernel.handleSyscall a msg) s :=
      handleSyscall_changes h (fun htype hs => hinit ⟨htype, hs⟩) (fun _ _ => trivial)
        (fun _ _ => trivial) hkeep
    exact hch.mono (fun _ _ hc => ht.changes hc) fun _ _ hc => ht.changes hc.changes

theorem Tidy.received (h : Tidy s) (p : Process) : Tidy (s.received p).2 := by
  unfold KState.received
  split
  · exact h
  · exact { h with }

theorem Tidy.perform (ht : Tidy s) (h : Inv .idle s) {e : Event} (he : Keeps s e) :
    Outcome (perform e) s (fun _ t => Tidy t) fun _ t => Tidy t := by
  cases e with
  | write pid msg => exact { ht with }
  | die pid => exact { ht with }
  | tick now => exact { ht with }
  | sigchld pids =>
      have hch : Makes (fun _ => True) False (sigchldHandler pids) s :=
        sigchldHandler_changes h (fun _ => trivial) pids he
      exact hch.mono (fun _ _ hc => ht.changes hc) fun _ _ hc => ht.changes hc.changes
  | handle k =>
      rw [Kernel.perform, Outcome.bind, Outcome.get]
      cases hm : s.procMap[k]? with
      | none => exact ht
      | some a =>
          obtain ⟨p, hp, hid⟩ := h.registered hm
          have hinv := h.received p
          have hread : Tidy (s.received p).2 := ht.received p
          dsimp only
          rw [handleMessage_outcome_route h hp]
          by_cases hd : (s.received p).1.dstId = kernelId
          · rw [route, Outcome.bind, Outcome.get, if_pos hd]
            refine hread.handleSyscall hinv (a := a) (p := p) ?_ (he a p hm hp hd)
            rw [received_procs, hp]
          · refine (route_relay_outcome hinv a hd).mono ?_ fun _ _ h => h.elim
            intro _ t hrelay
            cases hrelay with
            | inl hrelay => exact hrelay ▸ hread
            | inr hrelay =>
                obtain ⟨f, -, rfl⟩ := hrelay
                exact { hread with }

/-! ### Runs -/

theorem Tidy.forkCore (h : Tidy s) (hroom : s.Room) {k : I32} (hcore : k ∈ coreIds)
    (hk : s.procMap[k]? = none) (hoff : 0 ≤ s.webAppIdOffset) : Tidy (s.forked k) := by
  have hlow := lt_of_mem_coreIds k hcore
  exact h.fork hroom hk (le_refl s.webAppIdOffset) (by lia)

theorem pipes_startTable : startTable.pipes = ∅ := by decide

theorem tidy_blank (isCrawler : Bool) (fdLimit : ℕ) : Tidy (blank isCrawler fdLimit) := by
  refine ⟨⟨fun fd => ?_, rfl⟩, fun k _ => by simp [blank]⟩
  rw [show (blank isCrawler fdLimit).fds.pipes = ∅ from pipes_startTable]
  simp [blank]

theorem tidy_boot (isCrawler : Bool) (fdLimit : ℕ) : Tidy (boot isCrawler fdLimit).state := by
  rcases boot_cases isCrawler fdLimit (P := Tidy) (tidy_blank isCrawler fdLimit)
    (fun s k hcore hk hoff hroom h => h.forkCore hroom hcore hk hoff.ge)
    (fun s uiFd cache h => { h with }) with ⟨-, uiFd, -, htidy, hroom, hstate⟩ | ⟨-, htidy⟩
  · exact hstate ▸ htidy.changes (X := fun _ => True) (changes_spared hroom)
  · exact htidy

/-- While no process leaves the tables the kernel leaks no descriptor. -/
theorem noLeak_run (isCrawler : Bool) (fdLimit : ℕ) (es : List Event)
    (h : Along (fun m e => m.fault = none → Keeps m.state e) Machine.step
      (boot isCrawler fdLimit) es) :
    ∀ es', es' <+: es → NoLeak ((boot isCrawler fdLimit).run es').state := by
  intro es' hpre
  obtain ⟨rest, rfl⟩ := hpre
  have hrun : Sound ((boot isCrawler fdLimit).run es') ∧
      Tidy ((boot isCrawler fdLimit).run es').state := by
    refine Along.invariant (I := fun m => Sound m ∧ Tidy m.state) (Along.append.mp h).1
      ⟨sound_boot isCrawler fdLimit, tidy_boot isCrawler fdLimit⟩ ?_
    intro m e hm he
    obtain ⟨hsound, htidy⟩ := hm
    refine ⟨hsound.step e, ?_⟩
    cases hf : m.fault with
    | some f => rwa [step_of_fault hf]
    | none =>
        cases exec_outcome hf (htidy.perform (hsound hf) (he hf)) with
        | inl hok => exact hok.2
        | inr hstop =>
            obtain ⟨-, -, ht⟩ := hstop
            exact ht
  exact hrun.2.toNoLeak

/-- The event of handling the component registered under this id, in terms of its record. -/
theorem keeps_handle {k : I32} {a : Addr} {p : Process} (hm : s.procMap[k]? = some a)
    (hp : s.procs[a]? = some p)
    (h : (s.received p).1.dstId = kernelId → ¬ Loses (s.received p).2 (s.received p).1) :
    Keeps s (.handle k) := by
  intro a' p' hm' hp'
  obtain rfl := Option.some.inj (hm.symm.trans hm')
  obtain rfl := Option.some.inj (hp.symm.trans hp')
  exact h

/-- The `n`-th of several pages, each of a site of its own, is opened and closed. -/
def visit (n : ℕ) : List Event := [
  .write 4
    { msgType := msgNewUrl, msgValue := 1
      payload := .ofBytes (bytes "http://" ++ decimal n ++ bytes ".com/\x00") },
  .write (5 + n) { msgType := msgNewWebapp, msgValue := 77 },
  .handle uiId,
  .write 4 { msgType := msgWebappClose, msgValue := 1, payload := .ofBytes (decimal (1024 + n)) },
  .handle uiId]

/-- A page is opened and closed. -/
theorem noLeak_run_visit :
    Along (fun m e => m.fault = none → Keeps m.state e) Machine.step (boot false 1024) (visit 0) ∧
      ∀ es', es' <+: visit 0 → NoLeak ((boot false 1024).run es').state := by
  let ui : Process := { inFd := 10, outFd := 11, pid := 4, objectId := uiId }
  have h : Along (fun m e => m.fault = none → Keeps m.state e) Machine.step (boot false 1024)
      (visit 0) := by
    refine ⟨fun _ => trivial, fun _ => trivial,
      fun _ => keeps_handle (a := 3) (p := ui) ?_ ?_ fun _ => ?_, fun _ => trivial,
      fun _ => keeps_handle (a := 3) (p := ui) ?_ ?_ fun _ => ?_, trivial⟩
    all_goals decide +kernel
  exact ⟨h, noLeak_run false 1024 (visit 0) h⟩

/-- The eleventh page to be closed drives the first one out of the cache. The kernel runs
on with the pipes of sixteen processes, one of which has left its tables. -/
theorem eviction_leaks :
    ((boot false 1024).run ((List.range 11).flatMap visit)).fault = none ∧
      ¬ NoLeak ((boot false 1024).run ((List.range 11).flatMap visit)).state := by
  refine ⟨by decide +kernel, fun h => ?_⟩
  exact absurd h.count (by decide +kernel)

end OpBrowser
