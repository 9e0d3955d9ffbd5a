import OpBrowser.Verification.Kernel.Announcements
import OpBrowser.Verification.Kernel.Changes

/-! # How the kernel learns of a web app's window

A web app announces its window in the first frame that it writes. The frame is read by the
kernel's loop or by the handler that hands the web app out, whichever comes first, and the
window id is kept in two records. A handler that waits for the frame stops the machine; what
it does once the frame is there is the run in which the frame was written before. -/

namespace OpBrowser

open Kernel

/-- The process that `preCreateWebApp` makes for this object id. -/
def processOf (k : I32) : Pid := (k - webappFirstId).toNat + 5

/-- The first frame announces a window to the kernel, and no other frame does. -/
def Honest : List Message → Prop
  | [] => True
  | m :: rest => m.dstId = kernelId ∧ m.msgType = msgNewWebapp ∧ m.msgValue ≠ 0 ∧
      ∀ m' ∈ rest, m'.msgType ≠ msgNewWebapp

instance : DecidablePred Honest
  | [] => inferInstanceAs (Decidable True)
  | _ :: _ => inferInstanceAs (Decidable (_ ∧ _))

/-- What a process with this much left in its pipe has told the kernel: nothing, or its
first frame was taken out of the pipe and the window id is that frame's. -/
def Consumed (written unread : List Message) : Option I32 → Prop
  | none => unread = written
  | some client => ∃ m done, written = m :: (done ++ unread) ∧ m.msgValue = client

/-- The window id that the source of this frame announced. -/
def Announced (written : Pid → List Message) (f : Sent) : Prop :=
  webappFirstId ≤ f.msg.srcId ∧ ∃ m, (written (processOf f.msg.srcId)).head? = some m ∧
    m.msgType = msgNewWebapp ∧
    m.msgValue = f.msg.msgValue

/-- The announcements that the UI gets. -/
def KState.Noticed (s : KState) (f : Sent) : Prop :=
  f ∈ s.sent ∧ f.msg.msgType = msgNewWebapp ∧ f.msg.dstId = uiId

/-! ### Two lists of frames -/

section Frames

variable {written unread : List Message} {client : Option I32} {m : Message}

theorem Honest.of_append {l l' : List Message} (h : Honest (l ++ l')) : Honest l := by
  cases l with
  | nil => trivial
  | cons m rest =>
      obtain ⟨hdst, htype, hvalue, hrest⟩ := h
      exact ⟨hdst, htype, hvalue, fun m' hm' => hrest m' (List.mem_append_left l' hm')⟩

theorem Consumed.append (h : Consumed written unread client) (m : Message) :
    Consumed (written ++ [m]) (unread ++ [m]) client := by
  cases client with
  | none => exact congrArg (· ++ [m]) h
  | some client =>
      obtain ⟨m', done, hw, hvalue⟩ := h
      exact ⟨m', done, by rw [hw]; simp, hvalue⟩

/-- The frame of a process whose window is known is not its first one. -/
theorem Consumed.later (h : Consumed written (m :: unread) client) (hknown : client ≠ none)
    (hw : Honest written) : Consumed written unread client ∧ m.msgType ≠ msgNewWebapp := by
  cases client with
  | none => exact absurd rfl hknown
  | some client =>
      obtain ⟨m', done, rfl, hvalue⟩ := h
      exact ⟨⟨m', done ++ [m], by simp, hvalue⟩, hw.2.2.2 m (by simp)⟩

/-- The frame of a process whose window is not known is its first one. -/
theorem Consumed.first (h : Consumed written (m :: unread) none) (hw : Honest written) :
    m.dstId = kernelId ∧ m.msgType = msgNewWebapp ∧ Consumed written unread (some m.msgValue) := by
  obtain rfl : m :: unread = written := h
  exact ⟨hw.1, hw.2.1, m, [], rfl, rfl⟩

/-- A known window id is the first frame's, so it is not 0. -/
theorem Consumed.announced {v : I32} (h : Consumed written unread (some v)) (hw : Honest written) :
    ∃ m, written.head? = some m ∧ m.msgType = msgNewWebapp ∧ m.msgValue = v ∧ v ≠ 0 := by
  obtain ⟨m, done, rfl, rfl⟩ := h
  exact ⟨m, rfl, hw.2.1, rfl, hw.2.2.1⟩

theorem Consumed.unknown (h : Consumed written unread client) (hw : Honest written)
    (hzero : client.getD 0 = 0) : client = none := by
  cases client with
  | none => rfl
  | some v =>
      obtain ⟨m, -, -, -, hne⟩ := h.announced hw
      exact absurd hzero hne

end Frames

/-! ### The records of web apps -/

/-- Process numbers and object ids count the same processes. -/
structure Numbered (s : KState) : Prop where
  offset : 0 ≤ s.webAppIdOffset
  next : s.nextPid = processOf (s.webAppIdOffset + webappFirstId)
  number : ∀ (a : Addr) (p : Process), s.procs[a]? = some p → webappFirstId ≤ p.objectId →
    p.pid = processOf p.objectId
  pids : ∀ (a : Addr) (p : Process), s.procs[a]? = some p → p.pid < s.nextPid
  distinct : ∀ (a b : Addr) (p q : Process), s.procs[a]? = some p → s.procs[b]? = some q →
    p.pid = q.pid → a = b

/-- A process has one web app record at most, and none while it waits in the cache. -/
structure Owned (s : KState) : Prop where
  one : ∀ (v w : Addr) (r r' : WebAppProcess) (a : Addr), s.apps[v]? = some r →
    s.apps[w]? = some r' →
    r.proc = some a → r'.proc = some a → v = w
  old : ∀ (w : Addr) (r : WebAppProcess) (a : Addr), s.apps[w]? = some r → r.proc = some a →
    a < s.procs.next
  parked : ∀ a ∈ s.cache.entries, a < s.procs.next ∧
    ∀ (w : Addr) (r : WebAppProcess), s.apps[w]? = some r → r.proc ≠ some a
  nodup : s.cache.entries.Nodup

variable {s t : KState} {X : I32 → Prop} {L : Prop}

theorem Numbered.of_procs (h : Numbered s) (hoff : t.webAppIdOffset = s.webAppIdOffset)
    (hnext : t.nextPid = s.nextPid)
    (hprocs : ∀ (a : Addr) (q : Process), t.procs[a]? = some q →
      ∃ p, s.procs[a]? = some p ∧ q.pid = p.pid ∧ q.objectId = p.objectId) : Numbered t where
  offset := by
    rw [hoff]
    exact h.offset
  next := by rw [hnext, hoff, h.next]
  number a q hq hweb := by
    obtain ⟨p, hp, hpid, hid⟩ := hprocs a q hq
    rw [hpid, hid, h.number a p hp (hid ▸ hweb)]
  pids a q hq := by
    obtain ⟨p, hp, hpid, -⟩ := hprocs a q hq
    rw [hpid, hnext]
    exact h.pids a p hp
  distinct a b q q' hq hq' heq := by
    obtain ⟨p, hp, hpid, -⟩ := hprocs a q hq
    obtain ⟨p', hp', hpid', -⟩ := hprocs b q' hq'
    exact h.distinct a b p p' hp hp' (hpid.symm.trans (heq.trans hpid'))

theorem Numbered.writeProc (h : Numbered s) (a : Addr) {f : Process → Process}
    (hpid : ∀ p, (f p).pid = p.pid) (hid : ∀ p, (f p).objectId = p.objectId) :
    Numbered (s.writeProc a f) := by
  refine h.of_procs rfl rfl fun b q hq => ?_
  obtain ⟨p, hp, rfl⟩ := getElem?_writeProc hq
  refine ⟨p, hp, ?_, ?_⟩
  · split <;> simp [hpid]
  · split <;> simp [hid]

theorem Numbered.heard (h : Numbered s) (w a : Addr) (client : I32) :
    Numbered (s.heard w a client) := by
  have happ : Numbered (s.writeApp w fun r => { r with client }) := { h with }
  exact happ.writeProc a (fun _ => rfl) fun _ => rfl

theorem Numbered.fork (h : Numbered s) : Numbered s.withSpare := by
  have hoff := h.offset
  have hnew : ∀ {b : Addr} {q : Process}, s.withSpare.procs[b]? = some q →
      (b = s.procs.next ∧ q.pid = s.nextPid ∧ q.objectId = s.webAppIdOffset + webappFirstId) ∨
        s.procs[b]? = some q :=
    fun hq => (getElem?_forked hq).imp_left fun hq => ⟨hq.1, hq.2.1, hq.2.2.1⟩
  have hnext : s.withSpare.nextPid = s.nextPid + 1 := rfl
  refine ⟨?_, ?_, ?_, ?_, ?_⟩
  · change 0 ≤ s.webAppIdOffset + 1
    lia
  · change s.nextPid + 1 = processOf (s.webAppIdOffset + 1 + webappFirstId)
    rw [h.next, processOf, processOf]
    lia
  · intro b q hq hweb
    cases hnew hq with
    | inl hq => rw [hq.2.1, hq.2.2, h.next]
    | inr hq => exact h.number b q hq hweb
  · intro b q hq
    rw [hnext]
    cases hnew hq with
    | inl hq => lia
    | inr hq => exact Nat.lt_succ_of_lt (h.pids b q hq)
  · intro b c q q' hq hq' heq
    cases hnew hq with
    | inl hb =>
        cases hnew hq' with
        | inl hc => rw [hb.1, hc.1]
        | inr hc =>
            have hlt := h.pids c q' hc
            lia
    | inr hb =>
        cases hnew hq' with
        | inl hc =>
            have hlt := h.pids b q hb
            lia
        | inr hc => exact h.distinct b c q q' hb hc heq

theorem Numbered.change (h : Numbered s) (hc : Change X L s t) : Numbered t := by
  cases hc with
  | book hk => exact h.of_procs hk.webAppIdOffset hk.nextPid fun a q hq =>
    ⟨q, hk.procs ▸ hq, rfl, rfl⟩
  | send => exact { h with }
  | hear => exact Numbered.heard (s := s.setUnread _ _) { h with } _ _ _
  | mishear => exact { h with }
  | fork => exact h.fork
  | unspare => exact { h with }
  | unpark => exact { h with }
  | list => exact { h with }
  | tab => exact { h with }
  | label => exact h.writeProc _ (fun _ => rfl) fun _ => rfl
  | park => exact { h with }
  | forget => exact { h with }
  | drop =>
      exact h.of_procs rfl rfl fun b q hq => ⟨q, ((getElem?_drop b q).mp hq).2, rfl, rfl⟩
  | free => exact { h with }

theorem Owned.writeApp (h : Owned s) (v : Addr) {f : WebAppProcess → WebAppProcess}
    (hf : ∀ r, (f r).proc = r.proc) : Owned (s.writeApp v f) := by
  have hback : ∀ {w : Addr} {r' : WebAppProcess}, (s.writeApp v f).apps[w]? = some r' →
      ∃ r, s.apps[w]? = some r ∧ r'.proc = r.proc := by
    intro w r' hr'
    rw [KState.writeApp, Heap.getElem?_write] at hr'
    split at hr'
    next =>
      obtain ⟨r, hr, rfl⟩ := Option.map_eq_some_iff.mp hr'
      exact ⟨r, hr, hf r⟩
    next => exact ⟨r', hr', rfl⟩
  refine ⟨?_, ?_, ?_, h.nodup⟩
  · intro w w' r r' a hr hr' ha ha'
    obtain ⟨q, hq, he⟩ := hback hr
    obtain ⟨q', hq', he'⟩ := hback hr'
    exact h.one w w' q q' a hq hq' (he ▸ ha) (he' ▸ ha')
  · intro w r a hr ha
    obtain ⟨q, hq, he⟩ := hback hr
    exact h.old w q a hq (he ▸ ha)
  · intro a ha
    refine ⟨(h.parked a ha).1, fun w r hr hra => ?_⟩
    obtain ⟨q, hq, he⟩ := hback hr
    exact (h.parked a ha).2 w q hq (he ▸ hra)

theorem Owned.heard (h : Owned s) (w a : Addr) (client : I32) : Owned (s.heard w a client) :=
  { h.writeApp w (f := fun r => { r with client }) fun _ => rfl with }

/-- A new record of a process that has none yet. -/
theorem Owned.alloc (h : Owned s) {r : WebAppProcess} {a : Addr} (ha : r.proc = some a)
    (hold : a < t.procs.next) (hnone : ∀ (w : Addr) (r' : WebAppProcess), s.apps[w]? = some r' →
      r'.proc ≠ some a)
    (happs : t.apps = s.apps.alloc r) (hnext : s.procs.next ≤ t.procs.next)
    (hcache : ∀ b ∈ t.cache.entries, b ∈ s.cache.entries ∧ b ≠ a) (hnodup : t.cache.entries.Nodup) :
    Owned t := by
  have hcases : ∀ {w : Addr} {r' : WebAppProcess}, t.apps[w]? = some r' →
      w = s.apps.next ∧ r' = r ∨ s.apps[w]? = some r' := by
    intro w r' hr'
    rw [happs, Heap.getElem?_alloc] at hr'
    split at hr'
    next hw => exact .inl ⟨hw.symm, (Option.some.inj hr').symm⟩
    next => exact .inr hr'
  refine ⟨?_, ?_, ?_, hnodup⟩
  · intro w w' q q' b hq hq' hb hb'
    rcases hcases hq with ⟨rfl, rfl⟩ | hq
    · rcases hcases hq' with ⟨rfl, rfl⟩ | hq'
      · rfl
      · rw [Option.some.inj (hb.symm.trans ha)] at hb'
        exact absurd hb' (hnone w' q' hq')
    · rcases hcases hq' with ⟨rfl, rfl⟩ | hq'
      · rw [Option.some.inj (hb'.symm.trans ha)] at hb
        exact absurd hb (hnone w q hq)
      · exact h.one w w' q q' b hq hq' hb hb'
  · intro w q b hq hb
    rcases hcases hq with ⟨rfl, rfl⟩ | hq
    · rw [Option.some.inj (hb.symm.trans ha)]
      exact hold
    · exact lt_of_lt_of_le (h.old w q b hq hb) hnext
  · intro b hb
    obtain ⟨hmem, hne⟩ := hcache b hb
    refine ⟨lt_of_lt_of_le (h.parked b hmem).1 hnext, fun w q hq hqb => ?_⟩
    rcases hcases hq with ⟨rfl, rfl⟩ | hq
    · exact hne (Option.some.inj (hqb.symm.trans ha))
    · exact (h.parked b hmem).2 w q hq hqb

/-- Fewer records, and other entries of the cache. -/
theorem Owned.of_apps (h : Owned s) (hnext : s.procs.next ≤ t.procs.next)
    (happs : ∀ (w : Addr) (r : WebAppProcess), t.apps[w]? = some r → s.apps[w]? = some r)
    (hcache : ∀ a ∈ t.cache.entries, a < t.procs.next ∧
      ∀ (w : Addr) (r : WebAppProcess), t.apps[w]? = some r → r.proc ≠ some a)
    (hnodup : t.cache.entries.Nodup) : Owned t where
  one v w r r' a hr hr' := h.one v w r r' a (happs v r hr) (happs w r' hr')
  old w r a hr ha := lt_of_lt_of_le (h.old w r a (happs w r hr) ha) hnext
  parked := hcache
  nodup := hnodup

theorem Owned.freeApp (h : Owned s) (v : Addr) : Owned (s.freeApp v) := by
  have hback : ∀ (w : Addr) (r : WebAppProcess), (s.freeApp v).apps[w]? = some r →
      s.apps[w]? = some r := by
    intro w r hr
    rw [KState.freeApp, Heap.getElem?_free] at hr
    split at hr
    next => cases hr
    next => exact hr
  refine h.of_apps (le_refl _) hback (fun a ha => ⟨(h.parked a ha).1, fun w r hr => ?_⟩) h.nodup
  exact (h.parked a ha).2 w r (hback w r hr)

/-- A process whose web app record is freed may wait in the cache. -/
theorem Owned.park (h : Owned s) {k w r a p} (hr : Runs s k w r a p) :
    Owned (((s.setEntries (s.cache.entries ++ [a])).unlist k).freeApp w) := by
  have hback : ∀ (v : Addr) (r' : WebAppProcess), (s.apps.free w)[v]? = some r' →
      v ≠ w ∧ s.apps[v]? = some r' := by
    intro v r' hr'
    rw [Heap.getElem?_free] at hr'
    split at hr'
    next => cases hr'
    next hne => exact ⟨Ne.symm hne, hr'⟩
  refine h.of_apps (le_refl _) (fun v r' hr' => (hback v r' hr').2) ?_ ?_
  · intro b hb
    have hb : b ∈ s.cache.entries ++ [a] := hb
    rw [List.mem_append, List.mem_singleton] at hb
    cases hb with
    | inl hb => exact ⟨(h.parked b hb).1, fun v r' hr' => (h.parked b hb).2 v r' (hback v r' hr').2⟩
    | inr hb =>
        subst hb
        refine ⟨h.old w r b hr.app hr.proc, fun v r' hr' hrb => ?_⟩
        obtain ⟨hne, hr'⟩ := hback v r' hr'
        exact hne (h.one v w r' r b hr' hr.app hrb hr.proc)
  · refine List.nodup_append.mpr ⟨h.nodup, List.nodup_singleton a, ?_⟩
    rintro b hb c hc rfl
    rw [List.mem_singleton] at hc
    exact (h.parked b hb).2 w r hr.app (hc ▸ hr.proc)

theorem Owned.fork (h : Owned s) : Owned s.withSpare := by
  refine h.alloc (a := s.procs.next) rfl (Nat.lt_succ_self _) ?_ rfl (Nat.le_succ _) ?_ h.nodup
  · intro w r hr hra
    exact absurd (h.old w r _ hr hra) (lt_irrefl _)
  · intro b hb
    exact ⟨hb, (h.parked b hb).1.ne⟩

theorem Owned.unpark (h : Owned s) {pre post : List Addr} {a : Addr}
    (he : s.cache.entries = pre ++ a :: post) (client : I32) :
    Owned ((s.setEntries (pre ++ post)).addApp { proc := some a, client }) := by
  have hmem : a ∈ s.cache.entries := by simp [he]
  have hnodup : a ∉ pre ++ post ∧ (pre ++ post).Nodup :=
    List.nodup_cons.mp (List.nodup_middle.mp (he ▸ h.nodup))
  refine h.alloc (a := a) rfl (h.parked a hmem).1 (h.parked a hmem).2 rfl (le_refl _) ?_ hnodup.2
  intro b hb
  have hb : b ∈ pre ++ post := hb
  refine ⟨?_, fun heq => hnodup.1 (heq ▸ hb)⟩
  rw [he, List.mem_append, List.mem_cons]
  exact (List.mem_append.mp hb).imp_right .inr

theorem Owned.change (h : Owned s) (hc : Change X L s t) : Owned t := by
  cases hc with
  | book hk =>
      refine h.of_apps (by rw [hk.procs]) (fun w r hr => hk.apps ▸ hr) ?_ (hk.cache ▸ h.nodup)
      rw [hk.cache, hk.procs, hk.apps]
      exact h.parked
  | send => exact { h with }
  | hear => exact Owned.heard (s := s.setUnread _ _) { h with } _ _ _
  | mishear => exact { h with }
  | fork => exact h.fork
  | unspare => exact { h with }
  | unpark entries => exact h.unpark entries _
  | list => exact { h with }
  | tab => exact h.writeApp _ fun _ => rfl
  | label => exact { h with }
  | park runs => exact h.park runs
  | forget entries =>
      refine h.of_apps (le_refl _) (fun _ _ hr => hr) (fun b hb => h.parked b ?_) ?_
      · rw [entries]
        exact List.mem_cons_of_mem _ hb
      · exact (List.nodup_cons.mp (entries ▸ h.nodup)).2
  | drop => exact { h with }
  | free => exact h.freeApp _

/-! ### What the records say about the pipes -/

/-- The records of the web apps agree with the frames that were written. -/
structure Told (written : Pid → List Message) (s : KState) : Prop where
  numbered : Numbered s
  owned : Owned s
  -- nothing was read from the pipe of a process that is still to come
  fresh : ∀ pid, s.nextPid ≤ pid → s.unread pid = written pid
  consumed : ∀ (a : Addr) (p : Process), s.procs[a]? = some p → webappFirstId ≤ p.objectId →
    Consumed (written p.pid) (s.unread p.pid) p.clientId
  copies : ∀ w r a p, Pair s w r a p → webappFirstId ≤ p.objectId → r.client = p.clientId.getD 0
  notices : ∀ f, s.Noticed f → Announced written f

section Told

variable {written : Pid → List Message}

/-- Two states with the same pipes, frames and records. -/
theorem Told.of_records (h : Told written s) (hnumbered : Numbered t) (howned : Owned t)
    (hnext : t.nextPid = s.nextPid) (hunread : t.unread = s.unread) (hsent : t.sent = s.sent)
    (hprocs : ∀ (a : Addr) (q : Process), t.procs[a]? = some q → ∃ p, s.procs[a]? = some p ∧
      q.pid = p.pid ∧ q.objectId = p.objectId ∧ q.clientId = p.clientId)
    (happs : ∀ (w : Addr) (r' : WebAppProcess), t.apps[w]? = some r' → ∃ r, s.apps[w]? = some r ∧
      r'.proc = r.proc ∧ r'.client = r.client) : Told written t where
  numbered := hnumbered
  owned := howned
  fresh := by
    rw [hnext, hunread]
    exact h.fresh
  consumed a q hq hweb := by
    obtain ⟨p, hp, hpid, hid, hclient⟩ := hprocs a q hq
    rw [hunread, hpid, hclient]
    exact h.consumed a p hp (hid ▸ hweb)
  copies w r' a q hpair hweb := by
    obtain ⟨p, hp, -, hid, hclient⟩ := hprocs a q hpair.record
    obtain ⟨r, hr, hproc, hrclient⟩ := happs w r' hpair.app
    rw [hrclient, hclient]
    exact h.copies w r a p ⟨hr, hproc ▸ hpair.proc, hp⟩ (hid ▸ hweb)
  notices f hf := h.notices f ⟨hsent ▸ hf.1, hf.2⟩

theorem Told.book (h : Told written s) (hk : Kept s t) : Told written t := by
  have hbook : Change (fun _ => True) True s t := .book hk
  refine h.of_records (h.numbered.change hbook) (h.owned.change hbook) hk.nextPid hk.unread
      hk.sent ?_ ?_
  · exact fun a q hq => ⟨q, hk.procs ▸ hq, rfl, rfl, rfl⟩
  · exact fun w r hr => ⟨r, hk.apps ▸ hr, rfl, rfl⟩

theorem Told.send (h : Told written s) {f : Sent}
    (hf : f.msg.msgType = msgNewWebapp → f.msg.dstId = uiId → Announced written f) :
    Told written (s.send f) := by
  refine { h with
    numbered := { h.numbered with }, owned := { h.owned with }, copies := ?_, notices := ?_ }
  · exact fun w r a p hpair => h.copies w r a p ⟨hpair.app, hpair.proc, hpair.record⟩
  · intro g hg
    obtain ⟨hmem, htype, hdst⟩ := hg
    cases List.mem_append.mp hmem with
    | inl hmem => exact h.notices g ⟨hmem, htype, hdst⟩
    | inr hmem =>
        rw [List.mem_singleton.mp hmem] at htype hdst ⊢
        exact hf htype hdst

/-- A truthful announcement carries the window id that its source announced. -/
theorem Told.announced (h : Told written s) (hw : ∀ pid, 4 < pid → Honest (written pid)) {f : Sent}
    (hf : Truthful s f) (htype : f.msg.msgType = msgNewWebapp) (hdst : f.msg.dstId = uiId) :
    Announced written f := by
  obtain ⟨w, r, a, p, hpair, hweb, hid, hclient, hknown⟩ := hf htype hdst
  obtain ⟨v, hv⟩ := Option.ne_none_iff_exists'.mp hknown
  have hnumber := h.numbered.number a p hpair.record hweb
  have hconsumed := h.consumed a p hpair.record hweb
  rw [hv] at hconsumed
  obtain ⟨m, hhead, hmtype, hvalue, -⟩ :=
    hconsumed.announced (hw _ (by rw [hnumber, processOf]; lia))
  refine ⟨hid ▸ hweb, m, ?_, hmtype, ?_⟩
  · rw [← hid, ← hnumber, hhead]
  · rw [hvalue, ← hclient, h.copies w r a p hpair hweb, hv, Option.getD_some]

/-- The next frame of a process whose window is known is read. -/
theorem Told.read (h : Told written s) (hw : ∀ pid, 4 < pid → Honest (written pid)) {a : Addr}
    {p : Process} {m : Message} {rest : List Message} (hp : s.procs[a]? = some p)
    (hu : s.unread p.pid = m :: rest) (hknown : webappFirstId ≤ p.objectId → p.clientId ≠ none) :
    Told written (s.setUnread p.pid rest) := by
  refine { h with
    numbered := { h.numbered with }, owned := { h.owned with }, fresh := ?_,
    consumed := ?_, copies := ?_ }
  · intro pid hpid
    have hne : pid ≠ p.pid := (lt_of_lt_of_le (h.numbered.pids a p hp) hpid).ne'
    exact (Function.update_of_ne hne ..).trans (h.fresh pid hpid)
  · intro b q hq hweb
    change Consumed _ (Function.update s.unread p.pid rest q.pid) _
    have hold := h.consumed b q hq hweb
    by_cases hpid : q.pid = p.pid
    · obtain rfl := h.numbered.distinct b a q p hq hp hpid
      obtain rfl := Option.some.inj (hq.symm.trans hp)
      rw [hu] at hold
      rw [Function.update_self]
      have hhonest := hw q.pid (by rw [h.numbered.number b q hp hweb, processOf]; lia)
      exact (hold.later (hknown hweb) hhonest).1
    · rw [Function.update_of_ne hpid]
      exact hold
  · exact fun w r b q hpair => h.copies w r b q ⟨hpair.app, hpair.proc, hpair.record⟩

theorem Told.unknown (h : Told written s) (hw : ∀ pid, 4 < pid → Honest (written pid)) {w r a p}
    (hpair : Pair s w r a p) (hweb : webappFirstId ≤ p.objectId) (hzero : r.client = 0) :
    p.clientId = none ∧ Honest (written p.pid) ∧ s.unread p.pid = written p.pid := by
  have hhonest : Honest (written p.pid) :=
    hw _ (by rw [h.numbered.number a p hpair.record hweb, processOf]; lia)
  have hconsumed := h.consumed a p hpair.record hweb
  have hnone := hconsumed.unknown hhonest ((h.copies w r a p hpair hweb).symm.trans hzero)
  rw [hnone] at hconsumed
  exact ⟨hnone, hhonest, hconsumed⟩

/-- What is read instead of a window id is never something else. -/
theorem Told.not_misheard (h : Told written s) (hw : ∀ pid, 4 < pid → Honest (written pid)) :
    ¬ Misheard s := by
  intro hmis
  obtain ⟨w, r, a, p, m, hpair, hweb, hzero, hhead, htype⟩ := hmis
  obtain ⟨-, hhonest, hunread⟩ := h.unknown hw hpair hweb hzero
  rw [hunread] at hhead
  obtain ⟨rest, hwritten⟩ := List.head?_eq_some_iff.mp hhead
  rw [hwritten] at hhonest
  exact htype hhonest.2.1

/-- A window id is read and noted. -/
theorem Told.hear (h : Told written s) (hw : ∀ pid, 4 < pid → Honest (written pid)) {w r a p}
    {m : Message} {rest : List Message} (hpair : Pair s w r a p) (hweb : webappFirstId ≤ p.objectId)
    (hzero : r.client = 0) (hu : s.unread p.pid = m :: rest) :
    Told written ((s.setUnread p.pid rest).heard w a m.msgValue) := by
  obtain ⟨-, hhonest, hunread⟩ := h.unknown hw hpair hweb hzero
  have hfirst := (Consumed.first (hu.symm.trans hunread) hhonest).2.2
  have hread : Numbered (s.setUnread p.pid rest) := { h.numbered with }
  have hheld : Owned (s.setUnread p.pid rest) := { h.owned with }
  refine ⟨hread.heard w a _, hheld.heard w a _, ?_, ?_, ?_, h.notices⟩
  · intro pid hpid
    have hne : pid ≠ p.pid := (lt_of_lt_of_le (h.numbered.pids a p hpair.record) hpid).ne'
    exact (Function.update_of_ne hne ..).trans (h.fresh pid hpid)
  · intro b q hq hwebq
    obtain ⟨q', hq', rfl⟩ := getElem?_writeProc hq
    change Consumed _ (Function.update s.unread p.pid rest _) _
    by_cases hb : a = b
    · subst hb
      obtain rfl := Option.some.inj (hpair.record.symm.trans hq')
      simp only [if_true, Function.update_self]
      exact hfirst
    · have hpid : q'.pid ≠ p.pid := fun he =>
        hb (h.numbered.distinct a b p q' hpair.record hq' he.symm)
      simp only [if_neg hb] at hwebq ⊢
      rw [Function.update_of_ne hpid]
      exact h.consumed b q' hq' hwebq
  · intro v r' b q hpair' hwebq
    obtain ⟨q', hq', rfl⟩ := getElem?_writeProc hpair'.record
    have happ := hpair'.app
    change (s.apps.write w fun r => { r with client := m.msgValue })[v]? = some r' at happ
    rw [Heap.getElem?_write] at happ
    split at happ
    next hv =>
      subst hv
      rw [hpair.app] at happ
      obtain rfl := Option.some.inj happ
      obtain rfl := Option.some.inj (hpair.proc.symm.trans hpair'.proc)
      rw [if_pos rfl, Option.getD_some]
    next hv =>
      have hb : a ≠ b := by
        rintro rfl
        exact hv (h.owned.one w v r r' a hpair.app happ hpair.proc hpair'.proc)
      simp only [if_neg hb] at hwebq ⊢
      exact h.copies v r' b q' ⟨happ, hpair'.proc, hq'⟩ hwebq

theorem Told.fork (h : Told written s) : Told written s.withSpare := by
  refine ⟨h.numbered.fork, h.owned.fork, ?_, ?_, ?_, h.notices⟩
  · intro pid hpid
    exact h.fresh pid (Nat.le_of_succ_le hpid)
  · intro b q hq hweb
    change (s.procs.alloc _)[b]? = some q at hq
    rw [Heap.getElem?_alloc] at hq
    split at hq
    next =>
      obtain rfl := Option.some.inj hq
      exact h.fresh s.nextPid (le_refl _)
    next => exact h.consumed b q hq hweb
  · intro w r b q hpair hweb
    have hq := hpair.record
    have hr := hpair.app
    change (s.procs.alloc _)[b]? = some q at hq
    change (s.apps.alloc _)[w]? = some r at hr
    rw [Heap.getElem?_alloc] at hq hr
    split at hr
    next =>
      obtain rfl := Option.some.inj hr
      obtain rfl := Option.some.inj hpair.proc
      rw [if_pos rfl] at hq
      obtain rfl := Option.some.inj hq
      rfl
    next =>
      have hold := h.owned.old w r b hr hpair.proc
      rw [if_neg hold.ne'] at hq
      exact h.copies w r b q ⟨hr, hpair.proc, hq⟩ hweb

/-- A cached process gets a new web app record. -/
theorem Told.unpark (h : Told written s) {pre post : List Addr} {a : Addr} {p : Process}
    {client : I32}
    (he : s.cache.entries = pre ++ a :: post) (hp : s.procs[a]? = some p)
    (hknown : p.clientId = some client) :
    Told written ((s.setEntries (pre ++ post)).addApp { proc := some a, client }) := by
  refine { h with
    numbered := { h.numbered with }, owned := h.owned.unpark he client, copies := ?_ }
  intro w r b q hpair hweb
  have hr := hpair.app
  change (s.apps.alloc _)[w]? = some r at hr
  rw [Heap.getElem?_alloc] at hr
  split at hr
  next =>
    obtain rfl := Option.some.inj hr
    obtain rfl := Option.some.inj hpair.proc
    obtain rfl := Option.some.inj (hp.symm.trans hpair.record)
    rw [hknown, Option.getD_some]
  next => exact h.copies w r b q ⟨hr, hpair.proc, hpair.record⟩ hweb

theorem Told.change (h : Told written s) (hw : ∀ pid, 4 < pid → Honest (written pid))
    (hc : Change X L s t) : Told written t := by
  have hnumbered := h.numbered.change hc
  have howned := h.owned.change hc
  have hproc : ∀ (a : Addr) (q : Process), s.procs[a]? = some q → ∃ p, s.procs[a]? = some p ∧
      q.pid = p.pid ∧ q.objectId = p.objectId ∧ q.clientId = p.clientId :=
    fun a q hq => ⟨q, hq, rfl, rfl, rfl⟩
  have happ : ∀ (w : Addr) (r' : WebAppProcess), s.apps[w]? = some r' → ∃ r, s.apps[w]? = some r ∧
      r'.proc = r.proc ∧ r'.client = r.client :=
    fun w r hr => ⟨r, hr, rfl, rfl⟩
  have hfree : ∀ (v w : Addr) (r' : WebAppProcess), (s.apps.free v)[w]? = some r' →
      s.apps[w]? = some r' := by
    intro v w r' hr'
    rw [Heap.getElem?_free] at hr'
    split at hr'
    next => cases hr'
    next => exact hr'
  cases hc with
  | book hk => exact h.book hk
  | send addressed truthful => exact h.send fun htype hdst => h.announced hw truthful htype hdst
  | hear pair touched web unknown unread => exact h.hear hw pair web unknown unread
  | mishear pair web unknown unread type =>
      exact absurd ⟨_, _, _, _, _, pair, web, unknown, by rw [unread]; rfl, type⟩
          (h.not_misheard hw)
  | fork => exact h.fork
  | unspare => exact h.of_records hnumbered howned rfl rfl rfl hproc happ
  | unpark entries record known => exact h.unpark entries record known
  | list => exact h.of_records hnumbered howned rfl rfl rfl hproc happ
  | @tab v =>
      refine h.of_records hnumbered howned rfl rfl rfl hproc fun w r' hr' => ?_
      rw [KState.writeApp, Heap.getElem?_write] at hr'
      split at hr'
      next =>
        obtain ⟨r, hr, rfl⟩ := Option.map_eq_some_iff.mp hr'
        exact ⟨r, hr, rfl, rfl⟩
      next => exact happ w r' hr'
  | label =>
      refine h.of_records hnumbered howned rfl rfl rfl (fun b q hq => ?_) happ
      obtain ⟨p, hp, rfl⟩ := getElem?_writeProc hq
      exact ⟨p, hp, by split <;> rfl, by split <;> rfl, by split <;> rfl⟩
  | park =>
      exact h.of_records hnumbered howned rfl rfl rfl hproc fun w r' hr' =>
        happ w r' (hfree _ w r' hr')
  | forget => exact h.of_records hnumbered howned rfl rfl rfl hproc happ
  | drop =>
      refine h.of_records hnumbered howned rfl rfl rfl (fun b q hq => ?_) happ
      exact hproc b q ((getElem?_drop b q).mp hq).2
  | free =>
      exact h.of_records hnumbered howned rfl rfl rfl hproc fun w r' hr' =>
        happ w r' (hfree _ w r' hr')

theorem Told.changes (h : Told written s) (hw : ∀ pid, 4 < pid → Honest (written pid))
    (hc : Changes X L s t) : Told written t := by
  induction hc with
  | refl => exact h
  | tail _ hstep ih => exact ih.change hw hstep

/-- A handler stops with neither of the two assertions. -/
theorem Told.stops (h : Told written s) (hw : ∀ pid, 4 < pid → Honest (written pid)) {e : Fault}
    (hs : Stops X L s e t) : Told written t ∧ e ≠ .clientAssert ∧ e ≠ .initAssert := by
  refine ⟨h.changes hw hs.changes, hs.client, fun he => ?_⟩
  obtain ⟨u, hu, hmis⟩ := hs.init he
  exact (h.changes hw hu).not_misheard hw hmis

/-! ### Events -/

/-- A component writes a frame. -/
theorem Told.write (h : Told written s) (n : Pid) (msg : Message) :
    Told (Function.update written n (written n ++ [msg]))
      (s.setUnread n (s.unread n ++ [msg])) := by
  refine ⟨{ h.numbered with }, { h.owned with }, ?_, ?_, ?_, ?_⟩
  · intro pid hpid
    have hold := h.fresh pid hpid
    change Function.update s.unread n (s.unread n ++ [msg]) pid = _
    by_cases hn : pid = n
    · subst hn
      rw [Function.update_self, Function.update_self, hold]
    · rw [Function.update_of_ne hn, Function.update_of_ne hn, hold]
  · intro a p hp hweb
    have hold := h.consumed a p hp hweb
    change Consumed _ (Function.update s.unread n (s.unread n ++ [msg]) p.pid) _
    by_cases hn : p.pid = n
    · rw [hn, Function.update_self, Function.update_self, ← hn]
      exact hold.append msg
    · rw [Function.update_of_ne hn, Function.update_of_ne hn]
      exact hold
  · exact fun w r a p hpair => h.copies w r a p ⟨hpair.app, hpair.proc, hpair.record⟩
  · intro f hf
    obtain ⟨hweb, m, hhead, hm⟩ := h.notices f hf
    refine ⟨hweb, m, ?_, hm⟩
    by_cases hn : processOf f.msg.srcId = n
    · obtain ⟨rest, hrest⟩ := List.head?_eq_some_iff.mp hhead
      rw [hn, Function.update_self, ← hn, hrest]
      rfl
    · rw [Function.update_of_ne hn, hhead]

/-- A kernel that works stays one whose records agree with the frames that were written, and
one that stops does not stop at the two assertions. -/
def Keeping (written : Pid → List Message) (x : Op Unit) (s : KState) : Prop :=
  Outcome x s (fun _ t => Told written t) fun e t =>
    Told written t ∧ e ≠ .clientAssert ∧ e ≠ .initAssert

theorem Told.keeping (h : Told written s) (hw : ∀ pid, 4 < pid → Honest (written pid)) {x : Op Unit}
    (hx : Makes X L x s) : Keeping written x s :=
  hx.mono (fun _ _ hc => h.changes hw hc) fun _ _ hs => h.stops hw hs

/-- A message is worked on that is not the announcement of a web app. -/
theorem Told.route (h : Told written s) (hw : ∀ pid, 4 < pid → Honest (written pid))
    (hinv : Inv .idle s) {a : Addr} {p : Process} (hp : s.procs[a]? = some p) {msg : Message}
    (hsrc : msg.srcId = p.objectId) (htype : webappFirstId ≤ p.objectId →
      msg.msgType ≠ msgNewWebapp) :
    Keeping written (route a msg) s := by
  have hobj : s.objectAt a = some p.objectId := by rw [KState.objectAt, hp, Option.map_some]
  by_cases hd : msg.dstId = kernelId
  · rw [Keeping, Kernel.route, Outcome.bind, Outcome.get, if_pos hd]
    refine h.keeping (X := fun _ => True) (L := True) hw (handleSyscall_changes hinv ?_
      (fun _ _ => trivial) (fun _ _ => trivial) fun _ => trivial)
    intro hnew hs
    obtain ⟨k, hk, hweb, -⟩ := hinv.placement.spare_proc hs
    exact htype (Option.some.inj (hobj.symm.trans hk) ▸ hweb) hnew
  · refine (route_relay_outcome hinv a hd).mono ?_ fun _ _ h => h.elim
    intro _ t hrelay
    cases hrelay with
    | inl hrelay => exact hrelay ▸ h
    | inr hrelay =>
        obtain ⟨f, hf, rfl⟩ := hrelay
        refine h.send fun hnew hdst => ?_
        rw [hf.frame] at hnew
        have hallowed := hf.allowed
        rw [AccessControl.checkWrite_of_ne (by rw [hsrc]; exact (hinv.id_pos hobj).ne')
            hd, hsrc, hnew]
          at hallowed
        exact absurd hnew (htype (registered_newWebapp hallowed).1)

/-- Between two handlers only the spare web app has not announced its window yet. -/
theorem Inv.spare_of_unknown (h : Inv .idle s) {a : Addr} {p : Process} (hp : s.procs[a]? = some p)
    (hweb : webappFirstId ≤ p.objectId) (hnone : p.clientId = none) : s.Spare a := by
  have hobj : s.objectAt a = some p.objectId := by rw [KState.objectAt, hp, Option.map_some]
  have hclient : s.clientAt a = none := by rw [KState.clientAt, hp, Option.bind_some, hnone]
  rcases h.placement.placed_home (by simp) hobj hweb with hl | hparked | hspare
  · obtain ⟨e, he⟩ := Option.ne_none_iff_exists'.mp hl
    obtain ⟨-, -, b, -, -, hb, hcl⟩ := h.placement.listed_known (by simp) he
    rw [h.registry.objectAt_inj hb hobj] at hcl
    exact absurd hclient hcl
  · obtain ⟨-, -, -, -, hcl⟩ := h.placement.parked a hparked
    exact absurd hclient hcl
  · exact hspare

theorem Told.handleMessage (h : Told written s) (hw : ∀ pid, 4 < pid → Honest (written pid))
    (hinv : Inv .idle s) {a : Addr} {p : Process} (hp : s.procs[a]? = some p) :
    Keeping written (handleMessage a) s := by
  rw [Keeping, handleMessage_outcome_route hinv hp]
  cases hu : s.unread p.pid with
  | nil =>
      -- nothing is read, and a blank message is worked on
      have hr : s.received p = ({}, s) := by simp [KState.received, hu]
      have hd : ({} : Message).dstId = kernelId := rfl
      have htype : ({} : Message).msgType ≠ msgNewWebapp := by decide
      rw [hr, Kernel.route, Outcome.bind, Outcome.get, if_pos hd]
      exact h.keeping (X := fun _ => True) (L := True) hw (handleSyscall_changes hinv
        (fun hnew => absurd hnew htype) (fun _ _ => trivial) (fun _ _ => trivial) fun _ => trivial)
  | cons m rest =>
      have hr : s.received p = (stamp s p m, s.bumpMsgId.setUnread p.pid rest) := by
        simp [KState.received, hu]
      have hinv' : Inv .idle (s.bumpMsgId.setUnread p.pid rest) := hinv.bumpMsgId.setUnread _ _
      have hbump : Told written s.bumpMsgId := h.book kept_bumpMsgId
      rw [hr]
      by_cases hknown : webappFirstId ≤ p.objectId → p.clientId ≠ none
      · refine (hbump.read hw hp hu hknown).route hw hinv' hp rfl fun hweb => ?_
        have hconsumed := h.consumed a p hp hweb
        rw [hu] at hconsumed
        have hhonest := hw p.pid (by rw [h.numbered.number a p hp hweb, processOf]; lia)
        exact (hconsumed.later (hknown hweb) hhonest).2
      · obtain ⟨hweb, hnone⟩ : webappFirstId ≤ p.objectId ∧ p.clientId = none := by
          simpa only [Classical.not_imp, not_not] using hknown
        obtain ⟨w, hcached, hwa⟩ := hinv.spare_of_unknown hp hweb hnone
        obtain ⟨r, hr, hrp⟩ := Option.bind_eq_some_iff.mp hwa
        have hhonest := hw p.pid (by rw [h.numbered.number a p hp hweb, processOf]; lia)
        have hconsumed := h.consumed a p hp hweb
        rw [hu, hnone] at hconsumed
        obtain ⟨hdst, htype, -⟩ := hconsumed.first hhonest
        have hzero : r.client = 0 := by rw [h.copies w r a p ⟨hr, hrp, hp⟩ hweb, hnone]; rfl
        have hd : (stamp s p m).dstId = kernelId := hdst
        have hnew : (stamp s p m).msgType = msgNewWebapp := htype
        rw [Kernel.route, Outcome.bind, Outcome.get, if_pos hd, handleSyscall_outcome_init hnew,
          handleInit_outcome_spare (s := s.bumpMsgId.setUnread p.pid rest) hcached hr hrp hp hnew]
        exact ⟨fun _ => hbump.hear (m := m) hw ⟨hr, hrp, hp⟩ hweb hzero hu,
            fun hne => absurd hzero hne⟩

theorem Told.perform (h : Told written s) (hw : ∀ pid, 4 < pid → Honest (written pid))
    (hinv : Inv .idle s) {e : Event} (he : ∀ pid msg, e ≠ .write pid msg) :
    Keeping written (perform e) s := by
  cases e with
  | write pid msg => exact absurd rfl (he pid msg)
  | die pid =>
      exact h.book ⟨rfl, rfl, rfl, rfl, rfl, rfl, rfl, rfl, rfl, rfl, rfl, rfl⟩
  | tick now =>
      exact h.book ⟨rfl, rfl, rfl, rfl, rfl, rfl, rfl, rfl, rfl, rfl, rfl, rfl⟩
  | sigchld pids =>
      exact h.keeping (X := fun _ => True) (L := True) hw
        (sigchldHandler_changes hinv (fun _ => trivial) pids fun _ => trivial)
  | handle k =>
      rw [Keeping, Kernel.perform, Outcome.bind, Outcome.get]
      cases hm : s.procMap[k]? with
      | none => exact h
      | some a =>
          obtain ⟨p, hp, -⟩ := hinv.registered hm
          exact h.handleMessage hw hinv hp

end Told

/-! ### Runs -/

/-- The frames that this process writes in a run, in order. -/
def written (es : List Event) (pid : Pid) : List Message :=
  es.filterMap fun
    | .write n msg => if n = pid then some msg else none
    | _ => none

/-- The start-up handshake. Neither assertion has failed. While the kernel runs, the init frame
of every web app in the tables is still in its pipe, or it was taken out once and both records
bear its window id; only that of the spare web app may still be in its pipe. The announcements
that the UI got carry the ids that their sources announced. -/
structure Handshake (written : Pid → List Message) (m : Machine) : Prop where
  client : m.fault ≠ some .clientAssert
  init : m.fault ≠ some .initAssert
  number : ∀ (a : Addr) (p : Process), m.state.procs[a]? = some p → webappFirstId ≤ p.objectId →
    p.pid = processOf p.objectId
  consumed : m.fault = none → ∀ (a : Addr) (p : Process), m.state.procs[a]? = some p →
    webappFirstId ≤ p.objectId → Consumed (written p.pid) (m.state.unread p.pid) p.clientId
  known : m.fault = none → ∀ (a : Addr) (p : Process), m.state.procs[a]? = some p →
    webappFirstId ≤ p.objectId → ¬ m.state.Spare a → p.clientId ≠ none
  copies : ∀ w r a p, Pair m.state w r a p → webappFirstId ≤ p.objectId →
    r.client = p.clientId.getD 0
  notices : ∀ f, m.state.Noticed f → Announced written f

theorem written_append (es es' : List Event) (pid : Pid) :
    written (es ++ es') pid = written es pid ++ written es' pid :=
  List.filterMap_append

theorem written_concat_write (es : List Event) (n : Pid) (msg : Message) :
    written (es ++ [.write n msg]) = Function.update (written es) n (written es n ++ [msg]) := by
  funext pid
  by_cases hn : n = pid
  · subst hn
    simp [written]
  · rw [Function.update_of_ne (Ne.symm hn)]
    simp [written, hn]

theorem written_concat {es : List Event} {e : Event} (he : ∀ pid msg, e ≠ .write pid msg) :
    written (es ++ [e]) = written es := by
  funext pid
  cases e with
  | write n msg => exact absurd rfl (he n msg)
  | die | tick | handle | sigchld => simp [written]

/-- Before the first web app is made there are records of the components only. -/
structure Unpeopled (s : KState) : Prop where
  core : ∀ (a : Addr) (p : Process), s.procs[a]? = some p → p.objectId < webappFirstId
  apps : ∀ w : Addr, s.apps[w]? = none
  sent : s.sent = []

/-- The kernel has stopped with components only, or it has come to its loop. -/
theorem unpeopled_boot (isCrawler : Bool) (fdLimit : ℕ) :
    ((boot isCrawler fdLimit).fault = none ∧
      ∃ uiFd, Inv .idle (atLoop isCrawler fdLimit uiFd) ∧
        Unpeopled (atLoop isCrawler fdLimit uiFd) ∧
        (atLoop isCrawler fdLimit uiFd).Sparable ∧
          (boot isCrawler fdLimit).state = (atLoop isCrawler fdLimit uiFd).spared) ∨
      (boot isCrawler fdLimit).fault = some .pipeAssert ∧
        Unpeopled (boot isCrawler fdLimit).state := by
  refine boot_cases isCrawler fdLimit ⟨?_, fun _ => rfl, rfl⟩ ?_ fun _ _ _ h => { h with }
  · rintro a p ⟨⟩
  · intro s k hcore _ _ _ h
    refine { h with core := fun a p hp => ?_ }
    rcases getElem?_forked hp with ⟨-, -, hid, -⟩ | hp
    · exact hid ▸ lt_of_mem_coreIds k hcore
    · exact h.core a p hp

theorem told_atLoop {isCrawler : Bool} {fdLimit uiFd : ℕ}
    (hinv : Inv .idle (atLoop isCrawler fdLimit uiFd))
    (hcore : Unpeopled (atLoop isCrawler fdLimit uiFd))
    (hroom : (atLoop isCrawler fdLimit uiFd).Sparable) :
    Told (written []) (atLoop isCrawler fdLimit uiFd).spared := by
  have hnone : ∀ {P : Prop} (a : Addr) (p : Process),
      (atLoop isCrawler fdLimit uiFd).procs[a]? = some p →
      webappFirstId ≤ p.objectId → P :=
    fun a p hp hweb => absurd (hcore.core a p hp) (not_lt.mpr hweb)
  have happs := hcore.apps
  have hloop : Told (written []) (atLoop isCrawler fdLimit uiFd) := by
    refine ⟨⟨le_refl 0, rfl, fun a p hp hweb => hnone a p hp hweb, hinv.registry.pids,
      hinv.registry.distinct⟩, ⟨?_, ?_, ?_, .nil⟩, fun _ _ => rfl,
        fun a p hp hweb => hnone a p hp hweb,
      fun w r a p hpair hweb => hnone a p hpair.record hweb, ?_⟩
    · intro v w r r' a hr
      rw [happs] at hr
      cases hr
    · intro w r a hr
      rw [happs] at hr
      cases hr
    · intro a ha
      cases ha
    · intro f hf
      cases hf.1
  exact hloop.changes (X := fun _ => True) (L := True) (fun _ _ => trivial) (changes_spared hroom)

/-- Up to the point at which the kernel stops, its records agree with what was written. -/
structure ToldUpTo (es : List Event) (m : Machine) : Prop where
  told : ∃ es₀ rest, es = es₀ ++ rest ∧ (m.fault = none → rest = []) ∧ Told (written es₀) m.state
  client : m.fault ≠ some .clientAssert
  init : m.fault ≠ some .initAssert

theorem ToldUpTo.step {es : List Event} {m : Machine} (h : ToldUpTo es m) (hm : Sound m) (e : Event)
    (hw : ∀ pid, 4 < pid → Honest (written (es ++ [e]) pid)) : ToldUpTo (es ++ [e]) (m.step e) := by
  obtain ⟨es₀, rest, rfl, hrest, htold⟩ := h.told
  cases hf : m.fault with
  | some f =>
      rw [step_of_fault hf]
      refine ⟨⟨es₀, rest ++ [e], by simp, fun hnone => ?_, htold⟩, h.client, h.init⟩
      rw [hf] at hnone
      cases hnone
  | none =>
      obtain rfl := hrest hf
      rw [List.append_nil] at hw ⊢
      have hw₀ : ∀ pid, 4 < pid → Honest (written es₀ pid) := by
        intro pid hpid
        have happend := hw pid hpid
        rw [written_append] at happend
        exact happend.of_append
      have hstep : Keeping (written (es₀ ++ [e])) (perform e) m.state := by
        by_cases he : ∃ pid msg, e = .write pid msg
        · obtain ⟨pid, msg, rfl⟩ := he
          rw [written_concat_write]
          exact htold.write pid msg
        · have he : ∀ pid msg, e ≠ .write pid msg := fun pid msg heq => he ⟨pid, msg, heq⟩
          rw [written_concat he]
          exact htold.perform hw₀ (hm hf) he
      cases exec_outcome hf hstep with
      | inl hok =>
          obtain ⟨hnone, ht⟩ := hok
          refine ⟨⟨es₀ ++ [e], [], by simp, fun _ => rfl, ht⟩, ?_, ?_⟩
          · exact fun hsome => absurd (hnone.symm.trans hsome) (by simp)
          · exact fun hsome => absurd (hnone.symm.trans hsome) (by simp)
      | inr hstop =>
          obtain ⟨f, hsome, ht, hclient, hinit⟩ := hstop
          refine ⟨⟨es₀ ++ [e], [], by simp, fun _ => rfl, ht⟩, ?_, ?_⟩
          · exact fun he => hclient (Option.some.inj (hsome.symm.trans he))
          · exact fun he => hinit (Option.some.inj (hsome.symm.trans he))

/-- A kernel that has stopped before its first web app has broken no promise to any. -/
theorem Unpeopled.handshake {es : List Event} {m : Machine} (h : Unpeopled m.state)
    (hm : m.fault = some .pipeAssert) : Handshake (written es) m where
  client hf := by
    rw [hm] at hf
    cases hf
  init hf := by
    rw [hm] at hf
    cases hf
  number a p hp hweb := absurd (h.core a p hp) (not_lt.mpr hweb)
  consumed hnone := by
    rw [hm] at hnone
    cases hnone
  known hnone := by
    rw [hm] at hnone
    cases hnone
  copies _ _ a p hpair hweb := absurd (h.core a p hpair.record) (not_lt.mpr hweb)
  notices f hf := by
    have hmem := hf.1
    rw [h.sent] at hmem
    cases hmem

/-- When every web app announces its window first and only then, neither assertion fails, each
init frame is taken out of its pipe once and the UI gets the ids that the web apps announced. -/
theorem handshake_run (isCrawler : Bool) (fdLimit : ℕ) (es : List Event)
    (h : ∀ pid, 4 < pid → Honest (written es pid)) :
    Handshake (written es) ((boot isCrawler fdLimit).run es) := by
  rcases unpeopled_boot isCrawler fdLimit with ⟨hboot, uiFd, hinv, hcore, hroom, hstate⟩ |
    ⟨hstop, hcore⟩
  swap
  · rw [run_of_fault hstop]
    exact hcore.handshake hstop
  have htold : ToldUpTo es ((boot isCrawler fdLimit).run es) := by
    induction es using List.reverseRecOn with
    | nil =>
        refine ⟨⟨[], [], rfl, fun _ => rfl, hstate ▸ told_atLoop hinv hcore hroom⟩, ?_, ?_⟩
        · exact fun hsome => absurd (hboot.symm.trans hsome) (by simp)
        · exact fun hsome => absurd (hboot.symm.trans hsome) (by simp)
    | append_singleton es e ih =>
        rw [run_concat]
        refine (ih fun pid hpid => ?_).step (sound_run isCrawler fdLimit es) e h
        have happend := h pid hpid
        rw [written_append] at happend
        exact happend.of_append
  obtain ⟨es₀, rest, rfl, hrest, ht⟩ := htold.told
  refine ⟨htold.client, htold.init, ht.numbered.number, ?_, ?_, ht.copies, ?_⟩
  · intro hnone a p hp hweb
    obtain rfl := hrest hnone
    rw [show written (es₀ ++ []) = written es₀ by rw [List.append_nil]]
    exact ht.consumed a p hp hweb
  · intro hnone a p hp hweb hspare hunknown
    exact hspare ((sound_run isCrawler fdLimit _ hnone).spare_of_unknown hp hweb hunknown)
  · intro f hf
    obtain ⟨hweb, m, hhead, hm⟩ := ht.notices f hf
    obtain ⟨tail, htail⟩ := List.head?_eq_some_iff.mp hhead
    refine ⟨hweb, m, ?_, hm⟩
    rw [written_append, htail]
    rfl

/-- The first web app's window is learnt by the loop, and the second one's by the handler that
hands it out. The first one is closed and handed out again. -/
theorem handshake_run_reuse :
    let es : List Event := [
      .write 5 { msgType := msgNewWebapp, msgValue := 77 },
      .handle 1024,
      .write 4
        { msgType := msgNewUrl, msgValue := 2, payload := .ofBytes (bytes "http://a.com/\x00") },
      .handle uiId,
      .write 6 { msgType := msgNewWebapp, msgValue := 78 },
      .write 4
        { msgType := msgNewUrl, msgValue := 3, payload := .ofBytes (bytes "http://b.com/\x00") },
      .handle uiId,
      .write 4 { msgType := msgWebappClose, msgValue := 2, payload := .ofBytes (bytes "1024\x00") },
      .handle uiId,
      .write 4
        { msgType := msgNewUrl, msgValue := 4, payload := .ofBytes (bytes "http://a.com/x\x00") },
      .handle uiId]
    (∀ pid, 4 < pid → Honest (written es pid)) ∧
      Handshake (written es) ((boot false 1024).run es) := by
  intro es
  have h : ∀ pid, 4 < pid → Honest (written es pid) := by
    intro pid hpid
    match pid with
    | 5 | 6 => decide
    | n + 7 =>
        have hnone : written es (n + 7) = [] := by simp [written, es]
        rw [hnone]
        trivial
  exact ⟨h, handshake_run false 1024 es h⟩

end OpBrowser
