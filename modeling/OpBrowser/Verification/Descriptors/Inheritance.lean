import Mathlib.Data.Finset.Card
import Mathlib.Data.Finset.Range
import OpBrowser.Model.Descriptors

/-! # Which descriptors a child inherits

The kernel keeps one end of each of a child's two pipes open, and nothing closes
those ends in the children that are made later. -/

namespace OpBrowser

namespace FdTable

/-! ### One entry at a time -/

@[simp] theorem slot_put (t : FdTable) (fd fd' : ℕ) (s : Option Slot) :
    (t.put fd s).slot fd' = if fd' = fd then s else t.slot fd' := by
  have hpad : ∀ n, ((t ++ List.replicate n none)[fd']?).join = t.slot fd' := by
    intro n
    by_cases h : fd' < t.length
    · simp [slot, List.getElem?_append_left h]
    · have hnone : t[fd']? = none := List.getElem?_eq_none (by omega)
      rw [List.getElem?_append_right (by omega), List.getElem?_replicate, slot, hnone]
      split <;> rfl
  rw [slot, put, List.getElem?_set]
  by_cases h : fd = fd'
  · subst h
    have hlen : fd < (t ++ List.replicate (fd + 1 - t.length) (none : Option Slot)).length := by
      simp only [List.length_append, List.length_replicate]
      omega
    simp only [if_true, hlen, Option.join_some]
  · rw [if_neg h, if_neg (Ne.symm h), hpad]

@[simp] theorem slot_close (t : FdTable) (fd fd' : ℕ) :
    (t.close fd).slot fd' = if fd' = fd then none else t.slot fd' := slot_put ..

theorem slot_lowestFree (t : FdTable) : t.slot t.lowestFree = none := by
  by_cases h : t.lowestFree < t.length
  · have hnone : (t.get ⟨t.lowestFree, h⟩).isNone = true := List.findIdx_getElem (w := h)
    simp only [slot, List.getElem?_eq_getElem h, Option.join_some]
    simpa using hnone
  · rw [slot, List.getElem?_eq_none (by omega)]
    rfl

theorem slot_of_lt_lowestFree {t : FdTable} {fd : ℕ} (h : fd < t.lowestFree) :
    t.slot fd ≠ none := by
  have hlen : fd < t.length := Nat.lt_of_lt_of_le h List.findIdx_le_length
  have hsome := List.not_of_lt_findIdx h
  simp only [slot, List.getElem?_eq_getElem hlen, Option.join_some]
  exact Option.isSome_iff_ne_none.mp (by simpa using hsome)

/-- Filling the lowest free number moves the lowest free number up. -/
theorem lt_lowestFree_put (t : FdTable) (s : Slot) :
    t.lowestFree < (t.put t.lowestFree (some s)).lowestFree := by
  by_contra h
  have hfree := slot_lowestFree (t.put t.lowestFree (some s))
  rw [slot_put] at hfree
  split at hfree
  · cases hfree
  · exact slot_of_lt_lowestFree (by omega) hfree

theorem slot_dup2 (t : FdTable) {fd newFd : ℕ} {s : Slot} (h : t.slot fd = some s)
    (hs : s.cloexec = false) (fd' : ℕ) :
    (t.dup2 fd newFd).slot fd' = if fd' = newFd then some s else t.slot fd' := by
  unfold dup2
  split
  · rename_i he
    subst he
    split
    · rename_i he'
      rw [he', h]
    · rfl
  · obtain ⟨desc, cloexec⟩ := s
    cases hs
    simp [h]

/-! ### Room below the limit -/

/-- How many numbers below the limit are not in use. -/
def room (t : FdTable) (limit : ℕ) : ℕ :=
  ((Finset.range limit).filter fun fd => t.slot fd = none).card

theorem lowestFree_lt_iff {t : FdTable} {limit : ℕ} : t.lowestFree < limit ↔ 1 ≤ t.room limit := by
  rw [room, Nat.one_le_iff_ne_zero, ← Nat.pos_iff_ne_zero, Finset.card_pos]
  constructor
  · intro h
    exact ⟨t.lowestFree, by simpa using ⟨h, slot_lowestFree t⟩⟩
  · rintro ⟨fd, hfd⟩
    obtain ⟨hlt, hfree⟩ := by simpa using hfd
    by_contra hle
    exact slot_of_lt_lowestFree (by omega) hfree

/-- An end that is opened takes one number. -/
theorem room_put {t : FdTable} {limit fd : ℕ} (hlt : fd < limit) (hfree : t.slot fd = none)
    (s : Slot) : (t.put fd (some s)).room limit = t.room limit - 1 := by
  have hset : ((Finset.range limit).filter fun n => (t.put fd (some s)).slot n = none) =
      ((Finset.range limit).filter fun n => t.slot n = none).erase fd := by
    ext n
    simp only [Finset.mem_filter, Finset.mem_erase, slot_put]
    by_cases hn : n = fd <;> simp [hn]
  rw [room, hset, Finset.card_erase_of_mem (by simpa using ⟨hlt, hfree⟩), room]

/-- An end that is closed gives its number back. -/
theorem room_close {t : FdTable} {limit fd : ℕ} (hlt : fd < limit) (hopen : t.slot fd ≠ none) :
    (t.close fd).room limit = t.room limit + 1 := by
  have hset : ((Finset.range limit).filter fun n => (t.close fd).slot n = none) =
      insert fd ((Finset.range limit).filter fun n => t.slot n = none) := by
    ext n
    simp only [Finset.mem_filter, Finset.mem_insert, slot_close, Finset.mem_range]
    by_cases hn : n = fd
    · simp [hn, hlt]
    · simp [hn]
  rw [room, hset, Finset.card_insert_of_notMem (by simp [hopen]), room]

theorem slot_exec (t : FdTable) (fd : ℕ) :
    t.exec.slot fd = (t.slot fd).filter fun s => !s.cloexec := by
  simp only [exec, slot, List.getElem?_map]
  cases t[fd]? with
  | none => rfl
  | some s =>
      cases s with
      | none => rfl
      | some s => cases hs : s.cloexec <;> simp [Option.filter, hs]

end FdTable

open FdTable

/-! ### One call of `createProc` -/

/-- An end of one of the pipes made for this child. -/
def endOf (child : ℕ) (channel : Channel) (side : Side) : Slot :=
  ⟨.pipe child channel side, false⟩

theorem pipe_eq (limit : ℕ) (t : FdTable) (child : ℕ) (channel : Channel) :
    t.pipe limit child channel =
      let u := t.put t.lowestFree (some (endOf child channel .read))
      if u.lowestFree < limit then
        some (u.put u.lowestFree (some (endOf child channel .write)), t.lowestFree, u.lowestFree)
      else none := rfl

/-- The two numbers of a pipe: free before, in ascending order, below the limit. -/
structure PipeSpec (limit : ℕ) (t : FdTable) (child : ℕ) (channel : Channel) (u : FdTable)
    (r w : ℕ) : Prop where
  free : t.slot r = none ∧ t.slot w = none
  ascending : r < w
  below : w < limit
  full : ∀ fd ≤ w, u.slot fd ≠ none
  slot : ∀ fd, u.slot fd =
    if fd = w then some (endOf child channel .write)
    else if fd = r then some (endOf child channel .read)
    else t.slot fd
  room : u.room limit + 2 = t.room limit

theorem pipe_spec {limit : ℕ} {t u : FdTable} {child : ℕ} {channel : Channel} {r w : ℕ}
    (h : t.pipe limit child channel = some (u, r, w)) : PipeSpec limit t child channel u r w := by
  rw [pipe_eq] at h
  obtain ⟨hlt, heq⟩ := Option.ite_none_right_eq_some.mp h
  cases heq
  have hrw := lt_lowestFree_put t (endOf child channel .read)
  have hr := slot_lowestFree t
  have hw := slot_lowestFree (t.put t.lowestFree (some (endOf child channel .read)))
  have hfirst := room_put (hrw.trans hlt) hr (endOf child channel .read)
  have hsecond := room_put hlt hw (endOf child channel .write)
  have hone := lowestFree_lt_iff.mp hlt
  refine ⟨⟨hr, ?_⟩, hrw, hlt, fun fd hfd => ?_, fun fd => ?_, ?_⟩
  · rwa [slot_put, if_neg (by lia)] at hw
  · exact slot_of_lt_lowestFree (Nat.lt_of_le_of_lt hfd (lt_lowestFree_put _ _))
  · rw [slot_put, slot_put]
  · lia

/-- A pipe takes two numbers. -/
theorem pipe_eq_none {limit : ℕ} {t : FdTable} {child : ℕ} {channel : Channel} :
    t.pipe limit child channel = none ↔ t.room limit < 2 := by
  have hrw := lt_lowestFree_put t (endOf child channel .read)
  have hput : t.lowestFree < limit →
      (t.put t.lowestFree (some (endOf child channel .read))).room limit = t.room limit - 1 :=
    fun h => room_put h (slot_lowestFree t) _
  have hr : t.lowestFree < limit ↔ 1 ≤ t.room limit := lowestFree_lt_iff
  have hw : (t.put t.lowestFree (some (endOf child channel .read))).lowestFree < limit ↔
      1 ≤ (t.put t.lowestFree (some (endOf child channel .read))).room limit := lowestFree_lt_iff
  rw [pipe_eq]
  dsimp only
  rw [ite_eq_right_iff]
  constructor
  · intro h
    by_contra hroom
    have hlt := hr.mpr (by lia)
    cases h (hw.mpr (by rw [hput hlt]; lia))
  · intro hroom hlt
    have hone := hw.mp hlt
    rw [hput (by lia)] at hone
    lia

/-- The four numbers of the two pipes: free before the call, in ascending order,
and all else untouched. Two of them stay in use. -/
structure SpawnSpec (limit : ℕ) (t : FdTable) (child : ℕ) (ends : Spawned)
    (inRead inWrite outRead outWrite : ℕ) : Prop where
  free : t.slot inRead = none ∧ t.slot inWrite = none ∧ t.slot outRead = none ∧
    t.slot outWrite = none
  ascending : inRead < inWrite ∧ inWrite < outRead ∧ outRead < outWrite
  inFd : ends.inFd = inWrite
  outFd : ends.outFd = outRead
  parent : ∀ fd, ends.parent.slot fd =
    if fd = inWrite then some (endOf child .inPipe .write)
    else if fd = outRead then some (endOf child .outPipe .read)
    else t.slot fd
  child : ∀ fd, ends.child.slot fd =
    if fd = stdoutFileno then some (endOf child .outPipe .write)
    else if fd = stdinFileno then some (endOf child .inPipe .read)
    else if fd = inRead then some (endOf child .inPipe .read)
    else if fd = inWrite then some (endOf child .inPipe .write)
    else if fd = outRead then some (endOf child .outPipe .read)
    else if fd = outWrite then some (endOf child .outPipe .write)
    else (t.slot fd).filter fun s => !s.cloexec
  room : ends.parent.room limit + 2 = t.room limit

/-- What a call that gets both of its pipes leaves behind. -/
theorem spawn_spec {limit : ℕ} {t : FdTable} {child : ℕ} {ends : Spawned}
    (h : spawn limit t child = some ends) :
    ∃ inRead inWrite outRead outWrite,
      SpawnSpec limit t child ends inRead inWrite outRead outWrite := by
  obtain ⟨⟨t₁, r, w⟩, hin, h⟩ := Option.bind_eq_some_iff.mp h
  obtain ⟨⟨t₂, r', w'⟩, hout, h⟩ := Option.bind_eq_some_iff.mp h
  cases h
  have spec := pipe_spec hin
  have spec' := pipe_spec hout
  have hrw := spec.ascending
  have hrw' := spec'.ascending
  have hnew : ∀ {fd}, t₁.slot fd = none → w < fd ∧ t.slot fd = none := by
    intro fd hfd
    have hlt : w < fd := not_le.mp fun hle => spec.full fd hle hfd
    refine ⟨hlt, ?_⟩
    rwa [spec.slot, if_neg (by lia), if_neg (by lia)] at hfd
  have hr' := hnew spec'.free.1
  have hw' := hnew spec'.free.2
  have hslot : ∀ fd, t₂.slot fd =
      if fd = w' then some (endOf child .outPipe .write)
      else if fd = r' then some (endOf child .outPipe .read)
      else if fd = w then some (endOf child .inPipe .write)
      else if fd = r then some (endOf child .inPipe .read)
      else t.slot fd := by
    intro fd
    rw [spec'.slot, spec.slot]
  refine ⟨r, w, r', w', ⟨spec.free.1, spec.free.2, hr'.2, hw'.2⟩, ⟨hrw, hr'.1, hrw'⟩, rfl, rfl,
    fun fd => ?_, fun fd => ?_, ?_⟩
  · change ((t₂.close r).close w').slot fd = _
    have hr := spec.free.1
    rw [slot_close, slot_close, hslot]
    split_ifs <;> first | rfl | omega | simp_all
  · change ((t₂.dup2 r stdinFileno).dup2 w' stdoutFileno).exec.slot fd = _
    have hread : t₂.slot r = some (endOf child .inPipe .read) := by
      rw [hslot, if_neg (by omega), if_neg (by omega), if_neg (by omega), if_pos rfl]
    have hwrite : (t₂.dup2 r stdinFileno).slot w' = some (endOf child .outPipe .write) := by
      have hne : w' ≠ stdinFileno := by
        have : stdinFileno = 0 := rfl
        omega
      rw [slot_dup2 _ hread rfl, if_neg hne, hslot, if_pos rfl]
    rw [slot_exec, slot_dup2 _ hwrite rfl, slot_dup2 _ hread rfl, hslot]
    split_ifs <;> first | rfl | omega
  · change ((t₂.close r).close w').room limit + 2 = _
    have hbelow := spec.below
    have hbelow' := spec'.below
    have hopen : t₂.slot r ≠ none := by
      rw [hslot, if_neg (by omega), if_neg (by omega), if_neg (by omega), if_pos rfl]
      exact Option.some_ne_none _
    have hopen' : (t₂.close r).slot w' ≠ none := by
      rw [slot_close, if_neg (by omega), hslot, if_pos rfl]
      exact Option.some_ne_none _
    rw [room_close hbelow' hopen', room_close (by omega) hopen]
    have hroom := spec.room
    have hroom' := spec'.room
    omega

/-- A call takes four numbers. -/
theorem spawn_eq_none {limit : ℕ} {t : FdTable} {child : ℕ} :
    spawn limit t child = none ↔ t.room limit < 4 := by
  rw [spawn]
  cases hin : t.pipe limit child .inPipe with
  | none =>
      have hroom := pipe_eq_none.mp hin
      simpa using Nat.lt_of_lt_of_le hroom (by decide)
  | some first =>
      obtain ⟨t₁, r, w⟩ := first
      have hroom := (pipe_spec hin).room
      cases hout : t₁.pipe limit child .outPipe with
      | none =>
          have hfew := pipe_eq_none.mp hout
          simp [hout]
          omega
      | some second =>
          have hroom' := (pipe_spec hout).room
          simp [hout]
          omega

/-- The numbers that the kernel keeps are new ones, and what was open stays open. -/
theorem slot_spawn_parent {limit : ℕ} {t : FdTable} {child : ℕ} {ends : Spawned}
    (hspawn : spawn limit t child = some ends) {fd : ℕ} {s : Slot} (h : t.slot fd = some s) :
    ends.parent.slot fd = some s := by
  obtain ⟨inRead, inWrite, outRead, outWrite, spec⟩ := spawn_spec hspawn
  rw [spec.parent, if_neg, if_neg, h]
  · rintro rfl
    simp [spec.free] at h
  · rintro rfl
    simp [spec.free] at h

/-- Beyond the two standard numbers a child inherits whatever the kernel has open. -/
theorem slot_spawn_child {limit : ℕ} {t : FdTable} {child : ℕ} {ends : Spawned}
    (hspawn : spawn limit t child = some ends) {fd : ℕ} {s : Slot} (h : t.slot fd = some s)
    (hs : s.cloexec = false) (hfd : 2 ≤ fd) : ends.child.slot fd = some s := by
  obtain ⟨inRead, inWrite, outRead, outWrite, spec⟩ := spawn_spec hspawn
  have hnew : ∀ n, t.slot n = none → fd ≠ n := by
    rintro n hn rfl
    simp [hn] at h
  obtain ⟨h₁, h₂, h₃, h₄⟩ := spec.free
  have hin : fd ≠ stdinFileno := by simp only [stdinFileno]; omega
  have hout : fd ≠ stdoutFileno := by simp only [stdoutFileno]; omega
  rw [spec.child, if_neg hout, if_neg hin, if_neg (hnew _ h₁), if_neg (hnew _ h₂),
    if_neg (hnew _ h₃), if_neg (hnew _ h₄), h]
  simp [Option.filter, hs]

/-! ### Any number of calls -/

/-- Every pipe end in this table belongs to a pipe of this child. -/
def OwnEnds (child : ℕ) (t : FdTable) : Prop :=
  ∀ fd s c channel side, t.slot fd = some s → s.desc = .pipe c channel side → c = child

/-- No child starts with an end of a pipe of another one. -/
def NoBackDoor (children : List (ℕ × FdTable)) : Prop := ∀ e ∈ children, OwnEnds e.1 e.2

/-- The first child has nothing but its own ends: it is forked while the kernel
holds no others. -/
theorem ownEnds_first {limit : ℕ} {t : FdTable} {child : ℕ} {ends : Spawned}
    (ht : ∀ fd s c channel side, t.slot fd = some s → s.desc ≠ .pipe c channel side)
    (hspawn : spawn limit t child = some ends) : OwnEnds child ends.child := by
  obtain ⟨inRead, inWrite, outRead, outWrite, spec⟩ := spawn_spec hspawn
  intro fd s c channel side h hd
  rw [spec.child] at h
  split_ifs at h
  all_goals first
    | (obtain rfl := Option.some.inj h; cases hd; rfl)
    | exact absurd hd (ht fd s c channel side (Option.filter_eq_some_iff.mp h).1)

/-- The kernel's copy of the first child's output pipe stands in the second child. -/
theorem not_ownEnds_second {limit : ℕ} {t : FdTable} {first second : ℕ} {ends ends' : Spawned}
    (hspawn : spawn limit t first = some ends)
    (hspawn' : spawn limit ends.parent second = some ends')
    (hne : first ≠ second) : ¬ OwnEnds second ends'.child := by
  intro hown
  obtain ⟨inRead, inWrite, outRead, outWrite, spec⟩ := spawn_spec hspawn
  have hlt := spec.ascending
  have hout : ends.parent.slot outRead = some (endOf first .outPipe .read) := by
    rw [spec.parent, if_neg (by omega), if_pos rfl]
  have hchild := slot_spawn_child hspawn' hout rfl (by omega)
  exact hne (hown outRead _ first .outPipe .read hchild rfl)

/-- **Back doors.** The children of a sequence of `createProc` calls are isolated
exactly when there is at most one of them: at most one call, or no room for a second
child below the limit. -/
theorem noBackDoor_spawnAll_iff (limit : ℕ) (t : FdTable)
    (ht : ∀ fd s c channel side, t.slot fd = some s → s.desc ≠ .pipe c channel side)
    (first n : ℕ) : NoBackDoor (spawnAll limit t first n) ↔ n ≤ 1 ∨ t.room limit < 6 := by
  cases n with
  | zero => simp [NoBackDoor, spawnAll]
  | succ n =>
      cases hspawn : spawn limit t first with
      | none =>
          have hroom := spawn_eq_none.mp hspawn
          simp only [spawnAll, hspawn, NoBackDoor, List.not_mem_nil, false_imp_iff, implies_true,
            true_iff]
          omega
      | some ends =>
          have hown := ownEnds_first ht hspawn
          obtain ⟨_, _, _, _, spec⟩ := spawn_spec hspawn
          have hroom := spec.room
          cases n with
          | zero => simpa [spawnAll, hspawn, NoBackDoor] using hown
          | succ n =>
              cases hspawn' : spawn limit ends.parent (first + 1) with
              | none =>
                  have hfew := spawn_eq_none.mp hspawn'
                  have hone : NoBackDoor (spawnAll limit t first (n + 2)) := by
                    simpa [spawnAll, hspawn, hspawn', NoBackDoor] using hown
                  exact iff_of_true hone (.inr (by omega))
              | some ends' =>
                  have hmany : ¬ ends.parent.room limit < 4 := fun hfew => by
                    rw [spawn_eq_none.mpr hfew] at hspawn'
                    cases hspawn'
                  refine iff_of_false (fun h => ?_) (by omega)
                  simp only [NoBackDoor, spawnAll, hspawn, hspawn', List.forall_mem_cons] at h
                  exact not_ownEnds_second hspawn hspawn' (by omega) h.2.1

theorem startTable_pure (fd : ℕ) (s : Slot) (c : ℕ) (channel : Channel) (side : Side)
    (h : startTable.slot fd = some s) : s.desc ≠ .pipe c channel side := by
  have : startTable = [some ⟨.inherited 0, false⟩, some ⟨.inherited 1, false⟩,
    some ⟨.inherited 2, false⟩] := by decide
  rw [this] at h
  match fd with
  | 0 | 1 | 2 =>
      cases h
      simp
  | fd + 3 => simp [slot] at h

theorem noBackDoor_startTable_one : NoBackDoor (spawnAll 1024 startTable 1 1) :=
  (noBackDoor_spawnAll_iff 1024 startTable startTable_pure 1 1).mpr (.inl (by decide))

/-- The second core component starts with the kernel's write end of the first one's
input pipe, at number 4. -/
theorem backDoor_of_two_calls : ¬ NoBackDoor (spawnAll 1024 startTable 1 2) := by
  intro h
  obtain ⟨ends, hspawn⟩ : ∃ ends, spawn 1024 startTable 1 = some ends := ⟨_, rfl⟩
  obtain ⟨ends', hspawn'⟩ : ∃ ends', spawn 1024 ends.parent 2 = some ends' := by
    cases hspawn
    exact ⟨_, rfl⟩
  simp only [NoBackDoor, spawnAll, hspawn, hspawn', List.forall_mem_cons] at h
  exact not_ownEnds_second hspawn hspawn' (by decide) h.2.1

end OpBrowser
