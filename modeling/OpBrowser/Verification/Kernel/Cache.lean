import OpBrowser.Library.FifoCache
import OpBrowser.Verification.Kernel.Handlers

/-! # The cache of web apps over its calls

The calls of `store` and `hit` among whatever else the kernel does. The contents of the
cache agree with the log of its calls, and every call does what a cache that gives up
what was stored first should do. -/

namespace OpBrowser

open Kernel FifoCache

variable {s t : KState} {a e : Addr} {log : List (FifoCache.Event Addr)} {url : Bytes}

/-! ### The tables of processes -/

/-- Every process that is alive stands in `procMap` and not in the kill list, and two of them
have two process numbers. -/
structure ProcTables (s : KState) : Prop where
  registered : ∀ (a : Addr) (p : Process), s.procs[a]? = some p → s.procMap[p.objectId]? = some a
  alive : ∀ (a : Addr) (p : Process), s.procs[a]? = some p → s.killList[p.pid]? = none
  distinct : ∀ (a b : Addr) (p q : Process), s.procs[a]? = some p → s.procs[b]? = some q →
    p.pid = q.pid → a = b

/-- The kernel keeps its tables so. -/
theorem Registry.procTables (h : Registry s) : ProcTables s where
  registered a p hp := by
    apply (h.keyed p.objectId a).mpr
    rw [KState.objectAt, hp]
    rfl
  alive a p hp := by
    by_contra hkill
    obtain ⟨v, hv⟩ := Option.ne_none_iff_exists'.mp hkill
    exact (h.killed p.pid v hv).2 a p hp rfl
  distinct := h.distinct

/-- The process is alive. -/
def Live (s : KState) (a : Addr) : Prop := ∃ p, s.procs[a]? = some p

theorem ProcTables.bury (h : ProcTables s) {p : Process} (hp : s.procs[a]? = some p) :
    ProcTables (s.bury a p) := by
  have hkeep (b : Addr) (q : Process) (hq : (s.bury a p).procs[b]? = some q) :
      a ≠ b ∧ s.procs[b]? = some q := by
    simpa [KState.bury] using hq
  constructor
  case registered =>
    intro b q hq
    obtain ⟨hne, hq⟩ := hkeep b q hq
    have hobject : p.objectId ≠ q.objectId := by
      intro heq
      have hsame := h.registered a p hp
      rw [heq, h.registered b q hq] at hsame
      exact hne (Option.some.inj hsame).symm
    simp [KState.bury, hobject, h.registered b q hq]
  case alive =>
    intro b q hq
    obtain ⟨hne, hq⟩ := hkeep b q hq
    have hpid : p.pid ≠ q.pid := fun heq => hne (h.distinct a b p q hp hq heq)
    have halive := h.alive b q hq
    simp only [KState.bury, OrdMap.getElem?_insert, if_neg hpid, halive]
  case distinct =>
    intro b c q r hq hr
    exact h.distinct b c q r (hkeep b q hq).2 (hkeep c r hr).2

/-! ### `hit` -/

/-- The process bears a label that suits the URL under the policy of the cache. -/
def Suits (s : KState) (url : Bytes) (a : Addr) : Prop :=
  ∃ p, s.procs[a]? = some p ∧
    WebAppCache.matches s.cache.matchPolicy (.ofUrl url) p = true

/-- What `hit` should do: it takes the first entry that suits the URL, and nothing else. -/
def HitSpec (s : KState) (url : Bytes) (r : Option Addr) (t : KState) : Prop :=
  (r = none ∧ t = s ∧ ∀ a ∈ s.cache.entries, ¬ Suits s url a) ∨
    ∃ x a y, s.cache.entries = x ++ a :: y ∧ (∀ b ∈ x, ¬ Suits s url b) ∧ Suits s url a ∧
      r = some a ∧ t = s.setEntries (x ++ y)

theorem hitLoop_spec (url : Bytes) {l : List Addr} (hl : ∀ a ∈ l, Live s a) :
    Outcome (hitLoop s.cache.matchPolicy (.ofUrl url) l) s (fun r t => t = s ∧
      ((r = (none, l) ∧ ∀ a ∈ l, ¬ Suits s url a) ∨
        ∃ x a y, l = x ++ a :: y ∧ (∀ b ∈ x, ¬ Suits s url b) ∧ Suits s url a ∧
          r = (some a, x ++ y))) fun _ _ => False := by
  induction l with
  | nil => simp [hitLoop]
  | cons b l ih =>
      obtain ⟨p, hp⟩ := hl b (by simp)
      rw [hitLoop, Outcome.bind, deref_outcome hp]
      by_cases hm : WebAppCache.matches s.cache.matchPolicy (.ofUrl url) p = true
      · rw [if_pos hm]
        exact ⟨rfl, Or.inr ⟨[], b, l, rfl, by simp, ⟨p, hp, hm⟩, rfl⟩⟩
      · have hb : ¬ Suits s url b := by
          intro hsuits
          obtain ⟨q, hq, hqm⟩ := hsuits
          rw [Option.some.inj (hp.symm.trans hq)] at hm
          exact hm hqm
        rw [if_neg hm, Outcome.bind]
        apply (ih fun a ha => hl a (by simp [ha])).mono _ fun _ _ h => h
        intro r t h
        obtain ⟨rfl, h⟩ := h
        refine ⟨rfl, ?_⟩
        rcases h with ⟨rfl, hnone⟩ | ⟨x, a, y, rfl, hx, ha, rfl⟩
        · exact Or.inl ⟨rfl, by simpa [hb] using hnone⟩
        · exact Or.inr ⟨b :: x, a, y, rfl, by simpa [hb] using hx, ha, rfl⟩

theorem hit_spec (url : Bytes) (hl : ∀ a ∈ s.cache.entries, Live s a) :
    Outcome (hit url) s (HitSpec s url) fun _ _ => False := by
  rw [hit, Outcome.bind, Outcome.get, Outcome.bind]
  apply (hitLoop_spec url hl).mono _ fun _ _ h => h
  intro r t h
  obtain ⟨rfl, h⟩ := h
  rw [Outcome.bind, Outcome.modify, Outcome.pure]
  rcases h with ⟨rfl, hnone⟩ | ⟨x, a, y, he, hx, ha, rfl⟩
  · exact Or.inl ⟨rfl, rfl, hnone⟩
  · exact Or.inr ⟨x, a, y, he, hx, ha, rfl, rfl⟩

/-! ### `store` -/

/-- What `store` should do: it puts the entry behind the others, and if there are too many
of them, the first one has to go. It is told so once, goes on the kill list and leaves
`procMap`. -/
def StoreSpec (s : KState) (a : Addr) (t : KState) : Prop :=
  if s.cache.entries.length < s.cache.size then t = s.setEntries (s.cache.entries ++ [a])
  else ∃ e rest p, s.cache.entries ++ [a] = e :: rest ∧ s.procs[e]? = some p ∧
    t = ((((s.setEntries rest).bumpMsgId).send (closeFrame s p)).bury e p)

theorem live_of_mem_append (ha : Live s a) (hl : ∀ b ∈ s.cache.entries, Live s b) :
    ∀ b ∈ s.cache.entries ++ [a], Live s b := by
  intro b hb
  rcases List.mem_append.mp hb with hb | hb
  · exact hl b hb
  · rw [List.mem_singleton.mp hb]
    exact ha

theorem store_spec (h : ProcTables s) (ha : Live s a) (hl : ∀ b ∈ s.cache.entries, Live s b) :
    Outcome (store a) s (fun _ t => StoreSpec s a t) fun _ _ => False := by
  by_cases hroom : s.cache.entries.length < s.cache.size
  · rw [store_outcome_room hroom, StoreSpec, if_pos hroom]
  · obtain ⟨e, rest, he⟩ : ∃ e rest, s.cache.entries ++ [a] = e :: rest :=
      List.exists_cons_of_ne_nil (by simp)
    have hmem : e ∈ s.cache.entries ++ [a] := by simp [he]
    obtain ⟨p, hp⟩ := live_of_mem_append ha hl e hmem
    rw [store_outcome_full (by omega) he hp (h.registered e p hp) (h.alive e p hp), StoreSpec,
      if_neg hroom]
    exact ⟨e, rest, p, he, hp, rfl⟩

/-! ### Runs -/

/-- The processes that a call of `store` has taken out of the cache. -/
def gone (s : KState) (a : Addr) (t : KState) : List Addr :=
  (s.cache.entries ++ [a]).filter (· ∉ t.cache.entries)

/-- Calls of `store` and `hit` from an empty cache of any size and policy, and between them
whatever the kernel does to everything but the cache and the processes in it. -/
inductive Caching : List (FifoCache.Event Addr) → KState → Prop where
  | start {s : KState} (hempty : s.cache.entries = []) (htables : ProcTables s) : Caching [] s
  | store {log : List (FifoCache.Event Addr)} {s t : KState} {a : Addr} (h : Caching log s)
      (hlive : Live s a) (hnew : a ∉ s.cache.entries) (hstore : store a s = .ok ⟨⟩ t) :
      Caching (log ++ .stored a :: (gone s a t).map .evicted) t
  | hit {log : List (FifoCache.Event Addr)} {s t : KState} {url : Bytes} {r : Option Addr}
      (h : Caching log s) (hhit : hit url s = .ok r t) :
      Caching (log ++ r.toList.map .returned) t
  | other {log : List (FifoCache.Event Addr)} {s t : KState} (h : Caching log s)
      (hcache : t.cache = s.cache) (htables : ProcTables t)
      (hlive : ∀ a ∈ s.cache.entries, Live t a) : Caching log t

/-- What holds between two calls. -/
structure Accounted (log : List (FifoCache.Event Addr)) (s : KState) : Prop where
  tables : ProcTables s
  live : ∀ a ∈ s.cache.entries, Live s a
  bounded : s.cache.entries.length ≤ s.cache.size
  agrees : Agrees log s.cache.entries

theorem Accounted.store_room (h : Accounted log s) (ha : Live s a) (hnew : a ∉ s.cache.entries)
    (hroom : s.cache.entries.length < s.cache.size)
    (ht : t = s.setEntries (s.cache.entries ++ [a])) :
    Accounted (log ++ .stored a :: (gone s a t).map .evicted) t := by
  subst ht
  have hgone : gone s a (s.setEntries (s.cache.entries ++ [a])) = [] := by
    rw [gone, List.filter_eq_nil_iff]
    intro b hb
    rw [decide_eq_true_iff, not_not]
    exact hb
  rw [hgone]
  constructor
  case tables => exact ⟨h.tables.registered, h.tables.alive, h.tables.distinct⟩
  case live => exact live_of_mem_append ha h.live
  case bounded =>
    change (s.cache.entries ++ [a]).length ≤ s.cache.size
    rw [List.length_append, List.length_singleton]
    omega
  case agrees => exact h.agrees.store hnew

theorem Accounted.store_full {e : Addr} {rest : List Addr} {p : Process} (h : Accounted log s)
    (ha : Live s a) (hnew : a ∉ s.cache.entries) (he : s.cache.entries ++ [a] = e :: rest)
    (hp : s.procs[e]? = some p)
    (ht : t = ((((s.setEntries rest).bumpMsgId).send (closeFrame s p)).bury e p)) :
    Accounted (log ++ .stored a :: (gone s a t).map .evicted) t := by
  have hagrees := h.agrees.store hnew
  have hentries : t.cache.entries = rest := by
    rw [ht]
    rfl
  have hnodup := hagrees.nodup
  rw [he, List.nodup_cons] at hnodup
  have hgone : gone s a t = [e] := by
    rw [gone, he, hentries, List.filter_cons_of_pos (by simpa using hnodup.1),
      List.filter_eq_nil_iff.mpr (by simp)]
  have hbounded := congrArg List.length he
  rw [List.length_append, List.length_singleton, List.length_cons] at hbounded
  rw [hgone]
  constructor
  case tables =>
    have htables : ProcTables (((s.setEntries rest).bumpMsgId).send (closeFrame s p)) :=
      ⟨h.tables.registered, h.tables.alive, h.tables.distinct⟩
    rw [ht]
    exact htables.bury hp
  case live =>
    intro b hb
    rw [hentries] at hb
    have hne : e ≠ b := fun heq => hnodup.1 (heq ▸ hb)
    have hmem : b ∈ s.cache.entries ++ [a] := by simp [he, hb]
    obtain ⟨q, hq⟩ := live_of_mem_append ha h.live b hmem
    have hprocs : t.procs = s.procs.free e := by
      rw [ht]
      rfl
    refine ⟨q, ?_⟩
    rw [hprocs, Heap.getElem?_free, if_neg hne, hq]
  case bounded =>
    have hsize : t.cache.size = s.cache.size := by
      rw [ht]
      rfl
    have hle := h.bounded
    rw [hentries, hsize]
    omega
  case agrees =>
    rw [he] at hagrees
    rw [hentries]
    simpa using hagrees.remove (x := []) (Or.inr rfl)

theorem Accounted.store (h : Accounted log s) (ha : Live s a) (hnew : a ∉ s.cache.entries)
    (hspec : StoreSpec s a t) : Accounted (log ++ .stored a :: (gone s a t).map .evicted) t := by
  rw [StoreSpec] at hspec
  split at hspec
  · rename_i hroom
    exact h.store_room ha hnew hroom hspec
  · obtain ⟨e, rest, p, he, hp, ht⟩ := hspec
    exact h.store_full ha hnew he hp ht

theorem Accounted.hit {r : Option Addr} (h : Accounted log s) (hspec : HitSpec s url r t) :
    Accounted (log ++ r.toList.map .returned) t := by
  rcases hspec with ⟨rfl, rfl, -⟩ | ⟨x, a, y, he, -, -, rfl, rfl⟩
  · simpa using h
  · have hagrees := h.agrees
    have hbounded := h.bounded
    have hlive := h.live
    rw [he] at hagrees hbounded hlive
    constructor
    case tables => exact ⟨h.tables.registered, h.tables.alive, h.tables.distinct⟩
    case live =>
      intro b hb
      exact hlive b (((List.sublist_cons_self a y).append_left x).subset hb)
    case bounded =>
      change (x ++ y).length ≤ s.cache.size
      simp only [List.length_append, List.length_cons] at hbounded ⊢
      omega
    case agrees => exact hagrees.remove (Or.inl rfl)

theorem Caching.accounted (h : Caching log s) : Accounted log s := by
  induction h with
  | start hempty htables =>
      constructor
      case tables => exact htables
      all_goals simp [hempty, agrees_nil]
  | store _ hlive hnew hstore ih =>
      have hspec := Outcome.of_ok (Q := fun _ t => StoreSpec _ _ t) hstore
        (store_spec ih.tables hlive ih.live)
      exact ih.store hlive hnew hspec
  | hit _ hhit ih => exact ih.hit (Outcome.of_ok hhit (hit_spec _ ih.live))
  | other _ hcache htables hlive ih =>
      constructor
      case tables => exact htables
      all_goals rw [hcache]
      case live => exact hlive
      case bounded => exact ih.bounded
      case agrees => exact ih.agrees

/-- A bounded cache that gives up what was stored first and loses nothing. -/
structure FirstStoredFirstOut (log : List (FifoCache.Event Addr)) (s : KState) : Prop where
  bounded : s.cache.entries.length ≤ s.cache.size
  agrees : Agrees log s.cache.entries
  hit : ∀ url, ∃ r t, Kernel.hit url s = .ok r t ∧ HitSpec s url r t
  store : ∀ a, Live s a → a ∉ s.cache.entries → ∃ t, Kernel.store a s = .ok ⟨⟩ t ∧ StoreSpec s a t

/-- **The cache.** After every run of its calls it is within its bound and agrees with the
log, and the next call does what it should. -/
theorem firstStoredFirstOut_run (log : List (FifoCache.Event Addr)) (s : KState)
    (h : Caching log s) : FirstStoredFirstOut log s := by
  have haccounted := h.accounted
  constructor
  case bounded => exact haccounted.bounded
  case agrees => exact haccounted.agrees
  case hit => exact fun url => (hit_spec url haccounted.live).exists_ok
  case store =>
    intro a ha _
    obtain ⟨r, t, hrun, hspec⟩ := (store_spec haccounted.tables ha haccounted.live).exists_ok
    exact ⟨t, hrun, hspec⟩

/-- The process of the `n`-th page. -/
def pageProcess (n : ℕ) (url : String) : Process :=
  { inFd := 2 * n + 3, outFd := 2 * n + 4, pid := n + 1, objectId := webappFirstId + n
    label := .ofUrl (bytes url) }

/-- A kernel with the processes of three pages and a cache for two. -/
def threePages : KState where
  isCrawler := false
  cache := ⟨2, .sopMatch, []⟩
  fds := []
  fdLimit := 1024
  procs := ((Heap.empty.alloc (pageProcess 0 "http://a.com/")).alloc
    (pageProcess 1 "http://b.com/")).alloc (pageProcess 2 "http://c.com/")
  procMap := (((∅ : OrdMap I32 Addr).insert webappFirstId 0).insert (webappFirstId + 1) 1).insert
    (webappFirstId + 2) 2

theorem procTables_threePages : ProcTables threePages := by
  have hthree (a : Addr) (p : Process) (hp : threePages.procs[a]? = some p) :
      (a = 0 ∨ a = 1 ∨ a = 2) ∧ p.pid = a + 1 ∧ p.objectId = webappFirstId + a := by
    have hnone : (Heap.empty : Heap Process)[a]? = none := Heap.empty.fresh a (Nat.zero_le a)
    simp only [threePages, Heap.getElem?_alloc, hnone] at hp
    split_ifs at hp with h₂ h₁ h₀
    · cases hp
      exact ⟨.inr (.inr h₂.symm), h₂ ▸ rfl, h₂ ▸ rfl⟩
    · cases hp
      exact ⟨.inr (.inl h₁.symm), h₁ ▸ rfl, h₁ ▸ rfl⟩
    · cases hp
      exact ⟨.inl h₀.symm, h₀ ▸ rfl, h₀ ▸ rfl⟩
  constructor
  · intro a p hp
    obtain ⟨ha, -, hid⟩ := hthree a p hp
    rw [hid]
    rcases ha with rfl | rfl | rfl <;> decide
  · intro a p hp
    simp [threePages]
  · intro a b p q hp hq hpid
    rw [(hthree a p hp).2.1, (hthree b q hq).2.1] at hpid
    exact Nat.succ.inj hpid

/-- The third page drives the first one out, and is found behind the second one. -/
theorem firstStoredFirstOut_run_third :
    ∃ s, Caching [.stored 0, .stored 1, .stored 2, .evicted 0, .returned 2] s ∧
      s.cache.entries = [1] ∧
      FirstStoredFirstOut [.stored 0, .stored 1, .stored 2, .evicted 0, .returned 2] s := by
  have h₀ : Caching [] threePages := .start rfl procTables_threePages
  have h₁ : Caching [.stored 0] (threePages.setEntries [0]) :=
    h₀.store (a := 0) ⟨_, rfl⟩ (by decide) rfl
  have h₂ : Caching [.stored 0, .stored 1] (threePages.setEntries [0, 1]) :=
    h₁.store (a := 1) ⟨_, rfl⟩ (by decide) rfl
  have h₃ : Caching [.stored 0, .stored 1, .stored 2, .evicted 0]
      (((threePages.setEntries [1, 2]).bumpMsgId.send
        (closeFrame threePages (pageProcess 0 "http://a.com/"))).bury 0
          (pageProcess 0 "http://a.com/")) :=
    h₂.store (a := 2) ⟨_, rfl⟩ (by decide) rfl
  have h₄ : Caching [.stored 0, .stored 1, .stored 2, .evicted 0, .returned 2]
      ((((threePages.setEntries [1, 2]).bumpMsgId.send
        (closeFrame threePages (pageProcess 0 "http://a.com/"))).bury 0
          (pageProcess 0 "http://a.com/")).setEntries [1]) :=
    h₃.hit (r := some 2) (show hit (bytes "http://c.com/x") _ = .ok _ _ from rfl)
  exact ⟨_, h₄, rfl, firstStoredFirstOut_run _ _ h₄⟩

end OpBrowser
