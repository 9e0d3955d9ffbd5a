import OpBrowser.Verification.Kernel.Loop

/-! # Exits and lingering processes

A process that was told to close stays on the kill list until it exits, and is to be killed
once it has lingered there for four seconds. -/

namespace OpBrowser

open Kernel

variable {s t : KState} {ui : Process} {a : Addr} {pids : List Pid}

/-- The UI is told the object id of each exited child, in the order in which they are reported. -/
def TellsExits (s : KState) (ui : Process) (pids : List Pid) (t : KState) : Prop :=
  ∃ frames, t.sent = s.sent ++ frames ∧
    (∀ f ∈ frames, f.fd = ui.inFd ∧ f.msg.dstId = uiId ∧ f.msg.msgType = msgWebAppExited) ∧
    frames.map (fun f => some f.msg.msgValue) =
      pids.map fun pid => s.killList[pid]?.map Prod.fst

/-- The exited children, and no other process, leave the kill list. -/
def RemovesExits (s : KState) (pids : List Pid) (t : KState) : Prop :=
  ∀ pid, t.killList[pid]? = if pid ∈ pids then none else s.killList[pid]?

/-- Of what is left on the kill list, exactly the processes that meet `p` in the number of
seconds for which they were there are killed. -/
def Kills (p : ℤ → Prop) (s t : KState) : Prop :=
  ∃ killed : List Pid, t.signals = s.signals ++ killed.map (·, .sigkill) ∧
    ∀ pid, pid ∈ killed ↔
      ∃ objectId since, t.killList[pid]? = some (objectId, since) ∧ p (s.now - since)

/-- What the handler should do about these exits. -/
structure GracePeriod (s : KState) (ui : Process) (pids : List Pid) (t : KState) : Prop where
  told : TellsExits s ui pids t
  removed : RemovesExits s pids t
  forced : Kills (4 ≤ ·) s t

/-! ### Reaping -/

theorem reapAll_killed (hm : s.procMap[uiId]? = some a) (hp : s.procs[a]? = some ui)
    (hnodup : pids.Nodup) (hlisted : ∀ pid ∈ pids, s.killList[pid]? ≠ none) :
    Outcome (reapAll pids) s
      (fun _ t => TellsExits s ui pids t ∧ RemovesExits s pids t ∧ t.signals = s.signals ∧
        t.now = s.now) fun _ _ => False := by
  induction pids generalizing s with
  | nil => exact ⟨⟨[], by simp, by simp, rfl⟩, fun _ => rfl, rfl, rfl⟩
  | cons pid pids ih =>
      obtain ⟨hfirst, hnodup⟩ := List.nodup_cons.mp hnodup
      obtain ⟨killed, hk⟩ := Option.ne_none_iff_exists'.mp (hlisted pid List.mem_cons_self)
      rw [reapAll, Outcome.bind, reap_killed hm hp hk]
      have hrest : ∀ n ∈ pids, (s.killList.erase pid)[n]? = s.killList[n]? := by
        intro n hn
        rw [OrdMap.getElem?_erase, if_neg (ne_of_mem_of_not_mem hn hfirst).symm]
      refine (ih (s := { s.bumpMsgId.send (exitFrame s ui killed.1) with
        killList := s.killList.erase pid }) hm hp hnodup fun n hn => ?_).mono ?_ fun _ _ h => h
      · change (s.killList.erase pid)[n]? ≠ none
        rw [hrest n hn]
        exact hlisted n (List.mem_cons_of_mem _ hn)
      rintro - t ⟨⟨frames, hsent, hto, hids⟩, hremoved, hsignals, hnow⟩
      refine ⟨⟨exitFrame s ui killed.1 :: frames, ?_, ?_, ?_⟩, ?_, hsignals, hnow⟩
      · rw [hsent]
        exact List.append_assoc s.sent [_] frames
      · intro f hf
        cases hf with
        | head => exact ⟨rfl, rfl, rfl⟩
        | tail _ hf => exact hto f hf
      · rw [List.map_cons, List.map_cons, hids, hk]
        refine congrArg (_ :: ·) (List.map_congr_left fun n hn => ?_)
        rw [← hrest n hn]
      · intro n
        rw [hremoved n]
        change (if n ∈ pids then none else (s.killList.erase pid)[n]?) = _
        rw [OrdMap.getElem?_erase]
        by_cases heq : pid = n
        · simp [heq]
        · simp [heq, Ne.symm heq]

/-- What the handler does: the exits are as they should be, but it kills the processes that
were told to close less than four seconds ago. -/
theorem sigchldHandler_killed (hm : s.procMap[uiId]? = some a) (hp : s.procs[a]? = some ui)
    (hnodup : pids.Nodup) (hlisted : ∀ pid ∈ pids, s.killList[pid]? ≠ none) :
    Outcome (sigchldHandler pids) s
      (fun _ t => TellsExits s ui pids t ∧ RemovesExits s pids t ∧ Kills (· < 4) s t)
      fun _ _ => False := by
  rw [sigchldHandler, Outcome.bind]
  refine (reapAll_killed hm hp hnodup hlisted).mono ?_ fun _ _ h => h
  rintro - t ⟨htold, hremoved, hsignals, hnow⟩
  rw [Outcome.modify]
  refine ⟨htold, hremoved, (t.killList.toList.filter fun e => decide (e.2.2 > t.now - 4)).map
    Prod.fst, ?_, fun pid => ?_⟩
  · rw [← hsignals, List.map_map]
    rfl
  · constructor
    · intro hmem
      obtain ⟨⟨n, objectId, since⟩, he, rfl⟩ := List.mem_map.mp hmem
      obtain ⟨he, hsince⟩ := List.mem_filter.mp he
      refine ⟨objectId, since, OrdMap.mem_toList.mp he, ?_⟩
      have hlate : since > t.now - 4 := of_decide_eq_true hsince
      omega
    · rintro ⟨objectId, since, he, hsince⟩
      refine List.mem_map.mpr ⟨(pid, objectId, since), List.mem_filter.mpr ⟨?_, ?_⟩, rfl⟩
      · exact OrdMap.mem_toList.mpr he
      · rw [decide_eq_true_iff]
        change since > t.now - 4
        omega

/-! ### The grace period -/

/-- A process that is left on the kill list passes one of the two tests and not both. -/
theorem not_kills_of_left {pid : Pid} (hleft : t.killList[pid]? ≠ none) (h : Kills (· < 4) s t) :
    ¬ Kills (4 ≤ ·) s t := by
  rintro ⟨killed', hsignals', hkilled'⟩
  obtain ⟨killed, hsignals, hkilled⟩ := h
  obtain ⟨⟨objectId, since⟩, hk⟩ := Option.ne_none_iff_exists'.mp hleft
  have hsame : killed = killed' := by
    rw [hsignals] at hsignals'
    exact List.map_injective_iff.mpr (fun _ _ h => (Prod.mk.inj h).1)
      (List.append_cancel_left hsignals')
  have hboth := (hkilled pid).symm.trans (hsame ▸ hkilled' pid)
  simp only [hk, Option.some.injEq, Prod.mk.injEq] at hboth
  by_cases hage : s.now - since < 4
  · obtain ⟨-, since', ⟨-, rfl⟩, hlong⟩ := hboth.mp ⟨objectId, since, ⟨rfl, rfl⟩, hage⟩
    omega
  · obtain ⟨-, since', ⟨-, rfl⟩, hshort⟩ :=
      hboth.mpr ⟨objectId, since, ⟨rfl, rfl⟩, not_lt.mp hage⟩
    omega

/-- **The grace period.** The handler does what it should exactly if nothing is left on the
kill list: whatever is left it judges the wrong way round. -/
theorem gracePeriod_iff (hm : s.procMap[uiId]? = some a) (hp : s.procs[a]? = some ui)
    (hnodup : pids.Nodup) (hlisted : ∀ pid ∈ pids, s.killList[pid]? ≠ none) :
    (∃ t, sigchldHandler pids s = .ok () t ∧ GracePeriod s ui pids t) ↔
      ∀ pid, s.killList[pid]? ≠ none → pid ∈ pids := by
  obtain ⟨⟨⟩, t, hrun, htold, hremoved, hkills⟩ :=
    (sigchldHandler_killed hm hp hnodup hlisted).exists_ok
  constructor
  · rintro ⟨t', hrun', hgrace⟩ pid hpid
    rw [hrun] at hrun'
    cases hrun'
    by_contra hleft
    have hstays : t.killList[pid]? ≠ none := by rwa [hremoved, if_neg hleft]
    exact not_kills_of_left hstays hkills hgrace.forced
  · intro hall
    have hnone : ∀ pid : Pid, t.killList[pid]? = none := by
      intro pid
      rw [hremoved]
      split
      · rfl
      · rename_i hleft
        exact Decidable.not_not.mp fun hpid => hleft (hall pid hpid)
    obtain ⟨killed, hsignals, hkilled⟩ := hkills
    refine ⟨t, hrun, htold, hremoved, killed, hsignals, fun pid => ?_⟩
    rw [hkilled, hnone]
    simp

/-- The record of the UI. -/
def uiProcess : Process := { inFd := 3, outFd := 4, pid := 1, objectId := uiId }

/-- A kernel with its UI and a process that was told to close a moment ago. -/
def oneClosing : KState where
  isCrawler := false
  cache := ⟨10, .sopMatch, []⟩
  fds := []
  fdLimit := 1024
  procs := Heap.empty.alloc uiProcess
  procMap := (∅ : OrdMap I32 Addr).insert uiId 0
  killList := (∅ : OrdMap Pid (I32 × ℤ)).insert 7 (webappFirstId, 100)
  now := 100

theorem procMap_oneClosing : oneClosing.procMap[uiId]? = some 0 := by
  simp [oneClosing]

theorem procs_oneClosing : oneClosing.procs[0]? = some uiProcess := by
  rw [oneClosing, Heap.getElem?_alloc]
  rfl

theorem killList_oneClosing (pid : Pid) :
    oneClosing.killList[pid]? = if 7 = pid then some (webappFirstId, 100) else none := by
  rw [oneClosing, OrdMap.getElem?_insert]
  rfl

theorem gracePeriod_iff_exited :
    ∃ t, sigchldHandler [7] oneClosing = .ok () t ∧ GracePeriod oneClosing uiProcess [7] t := by
  refine (gracePeriod_iff procMap_oneClosing procs_oneClosing (List.nodup_singleton 7) ?_).mpr ?_
  · simp [killList_oneClosing]
  · intro pid hpid
    rw [killList_oneClosing] at hpid
    simp only [ne_eq, ite_eq_right_iff, reduceCtorEq, imp_false, not_not] at hpid
    simp [hpid]

/-- It is killed at once. -/
theorem closing_process_killed :
    ¬ ∃ t, sigchldHandler [] oneClosing = .ok () t ∧
      GracePeriod oneClosing uiProcess [] t := by
  rintro ⟨t, hrun, hgrace⟩
  obtain ⟨-, hremoved, hkills⟩ := Outcome.of_ok hrun
    (sigchldHandler_killed procMap_oneClosing procs_oneClosing List.nodup_nil (by simp))
  have hstays : t.killList[7]? ≠ none := by
    rw [hremoved, killList_oneClosing]
    simp
  exact not_kills_of_left hstays hkills hgrace.forced

end OpBrowser
