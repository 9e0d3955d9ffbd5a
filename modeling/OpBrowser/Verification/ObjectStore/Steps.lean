import OpBrowser.Verification.ObjectStore.Tables

/-! # What the object store does for a message -/

namespace OpBrowser.ObjectStore

variable {s s' : State} {m : Message}

/-- The reply to a request for an object. -/
def replyTo (m : Message) (object : Bytes) : Message :=
  { srcId := storageId, dstId := m.srcId, msgType := msgRetrvObject, msgValue := m.msgValue
    payload := .ofBytes object }

/-- What can happen when a message is handled and no `assert` fails. -/
inductive Handled (s : State) (m : Message) : State → Prop where
  | store (name obj : Bytes) (htype : m.msgType = msgStoreObject) (hname : colon ∉ name)
      (hobj : obj ≠ []) (hdata : m.stringData = name ++ colon :: obj) :
      Handled s m { s with db := s.db.put m.srcId name obj }
  | retrv (object : Bytes) (htype : m.msgType = msgRetrvObject)
      (hobject : s.db.retrvObject m.srcId m.stringData = some object) :
      Handled s m { s with replies := s.replies ++ [replyTo m object] }
  | allow (htype : m.msgType = msgObjectAddAclUser) :
      Handled s m { s with db := s.db.addAclUser m.msgValue m.srcId m.stringData }
  | other (hstore : m.msgType ≠ msgStoreObject) (hretrv : m.msgType ≠ msgRetrvObject)
      (hallow : m.msgType ≠ msgObjectAddAclUser) : Handled s m s

theorem handleMessage_store (htype : m.msgType = msgStoreObject) : handleMessage s m =
    (s.db.storeObject m.srcId m.stringData).map fun db => { s with db } := by
  rw [handleMessage, if_pos htype]
  cases s.db.storeObject m.srcId m.stringData <;> rfl

theorem handleMessage_retrv (htype : m.msgType = msgRetrvObject) : handleMessage s m =
    (s.db.retrvObject m.srcId m.stringData).map fun object =>
      { s with replies := s.replies ++ [replyTo m object] } := by
  rw [handleMessage, if_neg (by rw [htype]; decide), if_pos htype]
  cases s.db.retrvObject m.srcId m.stringData <;> rfl

theorem handled_of_handleMessage (h : handleMessage s m = some s') : Handled s m s' := by
  by_cases hstore : m.msgType = msgStoreObject
  · rw [handleMessage_store hstore] at h
    obtain hnone | ⟨name, obj, hname, hdata⟩ := cut_or m.stringData
    · rw [Db.storeObject_of_not hnone] at h
      cases h
    · rw [hdata, Db.storeObject_cut hname] at h
      by_cases hobj : obj = []
      · rw [if_pos hobj] at h
        cases h
      · rw [if_neg hobj] at h
        cases h
        exact Handled.store name obj hstore hname hobj hdata
  · by_cases hretrv : m.msgType = msgRetrvObject
    · rw [handleMessage_retrv hretrv] at h
      obtain ⟨object, hobject, rfl⟩ := Option.map_eq_some_iff.mp h
      exact Handled.retrv object hretrv hobject
    · rw [handleMessage, if_neg hstore, if_neg hretrv] at h
      by_cases hallow : m.msgType = msgObjectAddAclUser
      · rw [if_pos hallow] at h
        cases h
        exact Handled.allow hallow
      · rw [if_neg hallow] at h
        cases h
        exact Handled.other hstore hretrv hallow

theorem handleMessage_of_handled (h : Handled s m s') : handleMessage s m = some s' := by
  cases h with
  | store name obj htype hname hobj hdata =>
      rw [handleMessage_store htype, hdata, Db.storeObject_cut hname, if_neg hobj]
      rfl
  | retrv object htype hobject =>
      rw [handleMessage_retrv htype, hobject]
      rfl
  | allow htype =>
      rw [handleMessage, if_neg (by rw [htype]; decide), if_neg (by rw [htype]; decide),
        if_pos htype]
  | other hstore hretrv hallow => rw [handleMessage, if_neg hstore, if_neg hretrv, if_neg hallow]

end OpBrowser.ObjectStore
