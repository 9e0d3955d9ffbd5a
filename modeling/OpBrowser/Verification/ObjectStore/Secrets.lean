import OpBrowser.Verification.ObjectStore.Steps
import Mathlib.Data.List.Basic

/-! # What a component cannot see in the object store

Components that allow a user nothing are hidden from it. The replies to the user are those of a
run without any message of a hidden component. -/

namespace OpBrowser.ObjectStore

open Db (shown)

variable {hidden : I32 → Bool} {u : I32} {db db' : Db} {s s' t t' : State} {m : Message}
  {msgs : List Message}

/-- The replies to a user. -/
def repliesTo (u : I32) (s : State) : List Message := s.replies.filter fun m => m.dstId = u

/-- Two databases that the user cannot tell apart, of which the second one has no permission
from a hidden component. -/
structure Alike (hidden : I32 → Bool) (u : I32) (db db' : Db) : Prop where
  lookup : ∀ o, hidden o = false → ∀ n, db'.lookup o n = db.lookup o n
  permissions : ∀ o, hidden o = false → ∀ v n, db'.permissions v o n = db.permissions v o n
  secret : ∀ o, hidden o = true → ∀ n, db.permissions u o n = 0
  empty : ∀ o, hidden o = true → ∀ v n, db'.permissions v o n = 0

/-- Two states that the user cannot tell apart. -/
structure Indistinct (hidden : I32 → Bool) (u : I32) (s t : State) : Prop where
  alike : Alike hidden u s.db t.db
  replies : repliesTo u t = repliesTo u s

theorem repliesTo_append (object : Bytes) :
    repliesTo u { s with replies := s.replies ++ [replyTo m object] } =
      repliesTo u s ++ if m.srcId = u then [replyTo m object] else [] := by
  rw [repliesTo, List.filter_append]
  by_cases hm : m.srcId = u
  · simp [repliesTo, replyTo, hm]
  · simp [repliesTo, replyTo, hm]

/-! ### Messages of hidden components -/

/-- A hidden component allows the user nothing. -/
def Keeps (hidden : I32 → Bool) (u : I32) (m : Message) : Prop :=
  hidden m.srcId = true → m.msgType = msgObjectAddAclUser → m.msgValue ≠ u

theorem Indistinct.skip (h : Indistinct hidden u s t) (hu : hidden u = false)
    (hm : hidden m.srcId = true) (hkeeps : Keeps hidden u m) (hhandled : Handled s m s') :
    Indistinct hidden u s' t := by
  have hne : ∀ o, hidden o = false → o ≠ m.srcId := by
    rintro o ho rfl
    rw [hm] at ho
    cases ho
  cases hhandled with
  | store name obj htype hname hobj hdata =>
      refine ⟨⟨?_, ?_, ?_, h.alike.empty⟩, h.replies⟩
      · intro o ho n
        rw [Db.lookup_put, if_neg fun hkey => hne o ho hkey.1]
        exact h.alike.lookup o ho n
      · intro o ho v n
        rw [Db.permissions_put, if_neg fun hkey => hne o ho hkey.1]
        exact h.alike.permissions o ho v n
      · intro o ho n
        rw [Db.permissions_put, h.alike.secret o ho, ite_self]
  | retrv object htype hobject =>
      refine ⟨h.alike, ?_⟩
      rw [repliesTo_append, if_neg (hne u hu).symm, List.append_nil]
      exact h.replies
  | allow htype =>
      refine ⟨⟨h.alike.lookup, ?_, ?_, h.alike.empty⟩, h.replies⟩
      · intro o ho v n
        rw [Db.permissions_addAclUser, if_neg fun hkey => hne o ho hkey.2.1.symm]
        exact h.alike.permissions o ho v n
      · intro o ho n
        rw [Db.permissions_addAclUser, if_neg fun hkey => hkeeps hm htype hkey.1]
        exact h.alike.secret o ho n
  | other => exact h

/-! ### Messages of the others -/

/-- The object that is shown differs only if it belongs to a hidden component, and then it is not
shown to the user. -/
theorem Alike.retrvObject (h : Alike hidden u db db') {a : I32} (ha : hidden a = false)
    {name object : Bytes} (hobject : db.retrvObject a name = some object) :
    ∃ object', db'.retrvObject a name = some object' ∧ (a = u → object' = object) := by
  obtain hnone | ⟨name, ownerStr, hname, rfl⟩ := cut_or name
  · rw [Db.retrvObject_own hnone] at hobject ⊢
    cases hobject
    exact ⟨_, rfl, fun _ => by rw [h.lookup a ha]⟩
  · rw [Db.retrvObject_other hname] at hobject ⊢
    cases hscan : scanInt ownerStr with
    | none =>
        rw [hscan] at hobject
        cases hobject
    | some owner =>
        rw [hscan, Option.bind_some] at hobject
        rw [Option.bind_some]
        cases howner : hidden owner with
        | false =>
            refine ⟨object, ?_, fun _ => rfl⟩
            rw [h.permissions owner howner, h.lookup owner howner]
            exact hobject
        | true =>
            rw [h.empty owner howner, if_pos rfl]
            refine ⟨[], rfl, ?_⟩
            rintro rfl
            rw [h.secret owner howner, if_pos rfl] at hobject
            exact Option.some_inj.mp hobject

theorem Indistinct.follow (h : Indistinct hidden u s t) (hm : hidden m.srcId = false)
    (hhandled : Handled s m s') : ∃ t', Handled t m t' ∧ Indistinct hidden u s' t' := by
  have hne : ∀ o, hidden o = true → o ≠ m.srcId := by
    rintro o ho rfl
    rw [hm] at ho
    cases ho
  cases hhandled with
  | store name obj htype hname hobj hdata =>
      refine ⟨_, Handled.store name obj htype hname hobj hdata, ⟨?_, ?_, ?_, ?_⟩, h.replies⟩
      · intro o ho n
        rw [Db.lookup_put, Db.lookup_put, h.alike.lookup o ho]
      · intro o ho v n
        rw [Db.permissions_put, Db.permissions_put, h.alike.permissions o ho]
      · intro o ho n
        rw [Db.permissions_put, h.alike.secret o ho, ite_self]
      · intro o ho v n
        rw [Db.permissions_put, h.alike.empty o ho, ite_self]
  | retrv object htype hobject =>
      obtain ⟨object', hobject', hsame⟩ := h.alike.retrvObject hm hobject
      refine ⟨_, Handled.retrv object' htype hobject', h.alike, ?_⟩
      rw [repliesTo_append, repliesTo_append, h.replies]
      by_cases hu : m.srcId = u
      · rw [if_pos hu, if_pos hu, hsame hu]
      · rw [if_neg hu, if_neg hu]
  | allow htype =>
      refine ⟨_, Handled.allow htype, ⟨h.alike.lookup, ?_, ?_, ?_⟩, h.replies⟩
      · intro o ho v n
        rw [Db.permissions_addAclUser, Db.permissions_addAclUser, h.alike.permissions o ho]
      · intro o ho n
        rw [Db.permissions_addAclUser, if_neg fun hkey => hne o ho hkey.2.1.symm]
        exact h.alike.secret o ho n
      · intro o ho v n
        rw [Db.permissions_addAclUser, if_neg fun hkey => hne o ho hkey.2.1.symm]
        exact h.alike.empty o ho v n
  | other hstore hretrv hallow => exact ⟨t, Handled.other hstore hretrv hallow, h⟩

/-! ### Runs -/

/-- The permissions from web apps do not outlive a session. -/
theorem permissions_init {v o : I32} {n : Bytes} (ho : webappFirstId ≤ o) :
    db.init.permissions v o n = 0 := by
  rw [Db.permissions, Db.init, List.countP_filter, List.countP_eq_zero]
  intro r _ hr
  simp only [Bool.and_eq_true, decide_eq_true_eq] at hr
  obtain ⟨⟨-, rfl, -⟩, hkept⟩ := hr
  exact hkept (Or.inl ho)

theorem indistinct_foldlM (h : Indistinct hidden u s t) (hu : hidden u = false)
    (hkeeps : ∀ m ∈ msgs, Keeps hidden u m) (hrun : msgs.foldlM handleMessage s = some s') :
    ∃ t', (msgs.filter fun m => !hidden m.srcId).foldlM handleMessage t = some t' ∧
      Indistinct hidden u s' t' := by
  induction msgs generalizing s t with
  | nil =>
      cases hrun
      exact ⟨t, rfl, h⟩
  | cons m msgs ih =>
      rw [List.foldlM_cons] at hrun
      obtain ⟨s₁, hstep, hrest⟩ := Option.bind_eq_some_iff.mp hrun
      have hhandled := handled_of_handleMessage hstep
      have hkept := fun m' hm' => hkeeps m' (List.mem_cons_of_mem m hm')
      cases hm : hidden m.srcId with
      | true =>
          rw [List.filter_cons_of_neg (by simp [hm])]
          exact ih (h.skip hu hm (hkeeps m List.mem_cons_self) hhandled) hkept hrest
      | false =>
          obtain ⟨t₁, hhandled', h₁⟩ := h.follow hm hhandled
          rw [List.filter_cons_of_pos (by simp [hm]), List.foldlM_cons,
            handleMessage_of_handled hhandled']
          exact ih h₁ hkept hrest

/-- In every run that does not end, the messages of web apps that allow a user nothing make no
difference to the replies that it gets. -/
theorem secret_run (hidden : I32 → Bool) (hhidden : ∀ a, hidden a = true → webappFirstId ≤ a)
    (hu : hidden u = false) (hkeeps : ∀ m ∈ msgs, Keeps hidden u m) (h : run db msgs = some s) :
    ∃ t, run db (msgs.filter fun m => !hidden m.srcId) = some t ∧
      repliesTo u t = repliesTo u s := by
  have hstart : Indistinct hidden u { db := db.init } { db := db.init } :=
    { alike :=
        { lookup := fun _ _ _ => rfl
          permissions := fun _ _ _ _ => rfl
          secret := fun o ho _ => permissions_init (hhidden o ho)
          empty := fun o ho _ _ => permissions_init (hhidden o ho) }
      replies := rfl }
  obtain ⟨t, hrun, hend⟩ := indistinct_foldlM hstart hu hkeeps h
  exact ⟨t, hrun, hend.replies⟩

/-- A web app tries to read what another one shows to a third one only. -/
def prying : List Message :=
  [{ srcId := 1024, msgType := msgStoreObject, payload := .ofBytes (bytes "page:text") },
    { srcId := 1024, msgType := msgObjectAddAclUser, msgValue := 1026
      payload := .ofBytes (bytes "page") },
    { srcId := 1025, msgType := msgObjectAddAclUser, msgValue := 1025
      payload := .ofBytes (bytes "page") },
    { srcId := 1025, msgType := msgRetrvObject, payload := .ofBytes (bytes "page:1024") }]

theorem secret_run_prying : ∃ t,
    run {} (prying.filter fun m => !decide (m.srcId = 1024)) = some t ∧
      repliesTo 1025 t = repliesTo 1025
        { db :=
            { objectStore := [⟨1024, bytes "page", bytes "text"⟩]
              objectAcl := [⟨1026, 1024, bytes "page"⟩, ⟨1025, 1025, bytes "page"⟩] }
          replies := [{ srcId := storageId, dstId := 1025, msgType := msgRetrvObject }] } :=
  secret_run (fun a => decide (a = 1024)) (by simp [webappFirstId]) (by decide)
    (by simp [Keeps, prying]) (by decide)

end OpBrowser.ObjectStore
