import OpBrowser.Verification.ObjectStore.Steps
import Mathlib.Data.List.DropRight

/-! # Objects are shown to their owners and to whom the owners allow

What the store answers is a matter of the messages before: the last one that stored the object,
and those since then in which its owner has allowed others to read it. -/

namespace OpBrowser.ObjectStore

open Db (shown)

/-! ### The history of an object -/

/-- The message stores the object. -/
def storesTo (owner : I32) (name : Bytes) (m : Message) : Bool :=
  m.msgType = msgStoreObject ∧ m.srcId = owner ∧ nameOf m.stringData = name

/-- The owner allows a user to read the object. -/
def allows (user owner : I32) (name : Bytes) (m : Message) : Bool :=
  m.msgType = msgObjectAddAclUser ∧ m.msgValue = user ∧ m.srcId = owner ∧ m.stringData = name

variable (db : Db) (history : List Message) (user owner : I32) (name : Bytes)

/-- The object as it was stored last, or as it was at the start. -/
def lastStored : Option Bytes :=
  match (history.filter (storesTo owner name)).getLast? with
  | some m => some (dataOf m.stringData)
  | none => db.lookup owner name

/-- How often the owner has allowed the user to read the object since it was stored. -/
def allowances : ℕ :=
  (history.rtakeWhile fun m => !storesTo owner name m).countP (allows user owner name) +
    if history.any (storesTo owner name) then 0 else db.permissions user owner name

/-- What the store does for the next message. -/
structure Answers (db : Db) (history : List Message) (s : State) (m : Message) : Prop where
  /-- A text needs a colon and data behind the first one. The name may be empty. -/
  store : m.msgType = msgStoreObject → (handleMessage s m ≠ none ↔
    ∃ name obj, colon ∉ name ∧ obj ≠ [] ∧ m.stringData = name ++ colon :: obj)
  own : m.msgType = msgRetrvObject → colon ∉ m.stringData → handleMessage s m =
    some { s with replies := s.replies ++
      [replyTo m (shown m.srcId m.stringData (lastStored db history m.srcId m.stringData))] }
  /-- An object of another component. A second permission for the same user ends the store. -/
  other : m.msgType = msgRetrvObject → ∀ name ownerStr owner, colon ∉ name →
    m.stringData = name ++ colon :: ownerStr → scanInt ownerStr = some owner → handleMessage s m =
      if allowances db history m.srcId owner name = 0 then
        some { s with replies := s.replies ++ [replyTo m []] }
      else if allowances db history m.srcId owner name = 1 then
        some { s with replies := s.replies ++
          [replyTo m (shown owner name (lastStored db history owner name))] }
      else none
  /-- And so does a text that names no owner. -/
  malformed : m.msgType = msgRetrvObject → ∀ name ownerStr, colon ∉ name →
    m.stringData = name ++ colon :: ownerStr → scanInt ownerStr = none → handleMessage s m = none

variable {db history user owner name} {msgs : List Message} {m : Message} {s s' : State}

/-! ### One message -/

theorem lastStored_append : lastStored db (history ++ [m]) owner name =
    if storesTo owner name m then some (dataOf m.stringData)
    else lastStored db history owner name := by
  cases hm : storesTo owner name m with
  | true => simp [lastStored, hm]
  | false => simp [lastStored, hm]

theorem allowances_append : allowances db (history ++ [m]) user owner name =
    if storesTo owner name m then 0
    else allowances db history user owner name + if allows user owner name m then 1 else 0 := by
  cases hm : storesTo owner name m with
  | true => simp [allowances, hm]
  | false =>
      simp only [allowances, List.rtakeWhile_concat, hm, Bool.not_false, if_true,
        List.countP_append, List.any_append, List.any_cons, List.any_nil, Bool.or_false,
        List.countP_singleton, Bool.false_eq_true, if_false]
      omega

/-- The tables say what the history says. -/
structure Recorded (db₀ : Db) (history : List Message) (db : Db) : Prop where
  lookup : ∀ owner name, db.lookup owner name = lastStored db₀ history owner name
  permissions : ∀ user owner name,
    db.permissions user owner name = allowances db₀ history user owner name

theorem recorded_start : Recorded db [] db where
  lookup _ _ := rfl
  permissions _ _ _ := (Nat.zero_add _).symm

/-- A message that neither stores an object nor allows to read one. -/
theorem Recorded.other (h : Recorded db history s.db) (hstore : m.msgType ≠ msgStoreObject)
    (hallow : m.msgType ≠ msgObjectAddAclUser) : Recorded db (history ++ [m]) s.db where
  lookup owner name := by
    have hm : storesTo owner name m = false := by simp [storesTo, hstore]
    rw [lastStored_append, hm, h.lookup]
    rfl
  permissions user owner name := by
    have hm : storesTo owner name m = false := by simp [storesTo, hstore]
    have hallows : allows user owner name m = false := by simp [allows, hallow]
    rw [allowances_append, hm, hallows, h.permissions]
    rfl

theorem Recorded.step (h : Recorded db history s.db) (hhandled : Handled s m s') :
    Recorded db (history ++ [m]) s'.db := by
  cases hhandled with
  | store name obj htype hname hobj hdata =>
      have hm : ∀ o n, storesTo o n m = decide (o = m.srcId ∧ n = name) := by
        intro o n
        simp [storesTo, htype, hdata, hname, eq_comm]
      constructor
      · intro o n
        rw [lastStored_append, hm, Db.lookup_put, h.lookup, hdata, dataOf_cut hname]
        simp
      · intro u o n
        have hallows : allows u o n m = false := by
          simp [allows, htype, msgStoreObject, msgObjectAddAclUser]
        rw [allowances_append, hm, Db.permissions_put, h.permissions, hallows]
        simp
  | retrv object htype hobject =>
      exact h.other (by rw [htype]; decide) (by rw [htype]; decide)
  | allow htype =>
      have hm : ∀ o n, storesTo o n m = false := by
        intro o n
        simp [storesTo, htype, msgStoreObject, msgObjectAddAclUser]
      constructor
      · intro o n
        rw [lastStored_append, hm, Db.lookup_addAclUser, h.lookup]
        rfl
      · intro u o n
        rw [allowances_append, hm, Db.permissions_addAclUser, h.permissions]
        simp [allows, htype]
  | other hstore hretrv hallow => exact h.other hstore hallow

/-! ### Runs -/

theorem run_append : run db (history ++ [m]) =
    (run db history).bind fun s => handleMessage s m := by
  rw [run, run, List.foldlM_append]
  cases List.foldlM handleMessage { db := db.init } history with
  | none => rfl
  | some s => simp

theorem recorded_run (h : run db history = some s) : Recorded db.init history s.db := by
  induction history using List.reverseRecOn generalizing s with
  | nil =>
      cases h
      exact recorded_start
  | append_singleton history m ih =>
      rw [run_append] at h
      obtain ⟨s₁, hrun, hstep⟩ := Option.bind_eq_some_iff.mp h
      exact (ih hrun).step (handled_of_handleMessage hstep)

/-- In every run, a component is shown its own objects and those that their owners have allowed
it to read since they were stored, each as it was stored last. -/
theorem shown_run (h : run db history = some s) (m : Message) : Answers db.init history s m := by
  have hrecorded := recorded_run h
  constructor
  · intro htype
    constructor
    · intro hsome
      obtain ⟨s', hs'⟩ := Option.ne_none_iff_exists'.mp hsome
      cases handled_of_handleMessage hs' with
      | store name obj htype hname hobj hdata => exact ⟨name, obj, hname, hobj, hdata⟩
      | retrv object htype' => exact absurd (htype.symm.trans htype') (by decide)
      | allow htype' => exact absurd (htype.symm.trans htype') (by decide)
      | other hstore => exact absurd htype hstore
    · rintro ⟨name, obj, hname, hobj, hdata⟩
      rw [handleMessage_of_handled (Handled.store name obj htype hname hobj hdata)]
      exact Option.some_ne_none _
  · intro htype hnone
    rw [handleMessage_retrv htype, Db.retrvObject_own hnone, hrecorded.lookup]
    rfl
  · intro htype name ownerStr owner hname hdata hscan
    rw [handleMessage_retrv htype, hdata, Db.retrvObject_other hname, hscan, Option.bind_some,
      hrecorded.permissions, hrecorded.lookup]
    split
    · rfl
    · split
      · rfl
      · rfl
  · intro htype name ownerStr hname hdata hscan
    rw [handleMessage_retrv htype, hdata, Db.retrvObject_other hname, hscan]
    rfl

/-- A web app stores a page and allows another one to read it. -/
def lending : List Message :=
  [{ srcId := 1024, msgType := msgStoreObject, payload := .ofBytes (bytes "page:text") },
    { srcId := 1024, msgType := msgObjectAddAclUser, msgValue := 1025
      payload := .ofBytes (bytes "page") }]

theorem shown_run_lending : Answers (Db.init {}) lending
    { db := { objectStore := [⟨1024, bytes "page", bytes "text"⟩]
              objectAcl := [⟨1025, 1024, bytes "page"⟩] } }
    { srcId := 1025, msgType := msgRetrvObject, payload := .ofBytes (bytes "page:1024") } :=
  shown_run (by decide) _

end OpBrowser.ObjectStore
