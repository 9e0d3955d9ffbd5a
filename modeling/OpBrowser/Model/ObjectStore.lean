import OpBrowser.Model.Message

/-! # The object store (log_storage/Storage.cpp)

Components store objects under names of their own and allow other components to read them.
The two tables of the database are lists of rows. The kernel puts the id of the sender into
every message.

The component is not built: its `writeMessage(replyfd)` is older than `Message::writeMessage()`
of kernel/Message.h. What it does is modelled as it is written. -/

namespace OpBrowser.ObjectStore

/-- A row of `object_store`, of which the owner and the name are the primary key. -/
structure Object where
  owner : I32
  name : Bytes
  data : Bytes
  deriving DecidableEq, Repr

/-- A row of `object_acl`, which has no key. -/
structure Permission where
  user : I32
  owner : I32
  name : Bytes
  deriving DecidableEq, Repr

/-- The database. -/
structure Db where
  objectStore : List Object := []
  objectAcl : List Permission := []
  deriving DecidableEq, Repr

def colon : UInt8 := byte ':'

/-- `sscanf(str, "%d", &n)`: nothing if there is no number. -/
def scanInt (str : Bytes) : Option I32 :=
  let rest := (cStr str).dropWhile isSpace
  let digits :=
    if rest.head? = some (byte '-') ∨ rest.head? = some (byte '+') then rest.tail else rest
  if (digits.head?.map isDigit).getD false then some (atoi str) else none

namespace Db

variable (db : Db)

/-- `init`: what was left of web apps is cleared. -/
def init : Db where
  objectStore := db.objectStore.filter fun r => ¬ r.owner ≥ webappFirstId
  objectAcl := db.objectAcl.filter fun r => ¬ (r.owner ≥ webappFirstId ∨ r.user ≥ webappFirstId)

def addAclUser (user owner : I32) (name : Bytes) : Db :=
  { db with objectAcl := db.objectAcl ++ [⟨user, owner, name⟩] }

/-- The `count(*)` of `hasPermission`. -/
def permissions (user owner : I32) (name : Bytes) : ℕ :=
  db.objectAcl.countP fun r => r.user = user ∧ r.owner = owner ∧ r.name = name

/-- `hasPermission`. There is no result if an `assert` fails, here and below. -/
def hasPermission (user owner : I32) (name : Bytes) : Option Bool := do
  let ret := db.permissions user owner name
  guard (ret = 0 ∨ ret = 1)
  return ret > 0

/-- What `retrvObject` selects, with the name and the owner in front. -/
def select (owner : I32) (name : Bytes) : Bytes :=
  match db.objectStore.find? fun r => r.owner = owner ∧ r.name = name with
  | some r => name ++ [colon] ++ decimal owner ++ [colon] ++ r.data
  | none => []

def retrvObject (owner : I32) (name : Bytes) : Option Bytes :=
  match name.idxOf? colon with
  -- an object that is not owned
  | some loc => do
      let user := owner
      let ownerStr := name.drop (loc + 1)
      let name := name.take loc
      guard (ownerStr.length > 0)
      let owner ← scanInt ownerStr
      if ← db.hasPermission user owner name then return db.select owner name else return []
  | none => some (db.select owner name)

def storeObject (owner : I32) (data : Bytes) : Option Db := do
  let loc ← data.idxOf? colon
  -- no empty objects
  guard (loc < data.length - 1)
  let name := data.take loc
  let obj := data.drop (loc + 1)
  return {
    objectStore := (db.objectStore.filter fun r => ¬ (r.owner = owner ∧ r.name = name)) ++
      [⟨owner, name, obj⟩]
    -- the permissions for an old object of the same name
    objectAcl := db.objectAcl.filter fun r => ¬ (r.owner = owner ∧ r.name = name) }

end Db

/-- The database and the replies so far. -/
structure State where
  db : Db := {}
  replies : List Message := []
  deriving DecidableEq, Repr

/-- `handleMessage`, for the objects. -/
def handleMessage (s : State) (m : Message) : Option State :=
  if m.msgType = msgStoreObject then do
    let db ← s.db.storeObject m.srcId m.stringData
    return { s with db }
  else if m.msgType = msgRetrvObject then do
    let object ← s.db.retrvObject m.srcId m.stringData
    let reply : Message :=
      { srcId := storageId, dstId := m.srcId, msgType := msgRetrvObject, msgValue := m.msgValue
        payload := .ofBytes object }
    return { s with replies := s.replies ++ [reply] }
  else if m.msgType = msgObjectAddAclUser then
    some { s with db := s.db.addAclUser m.msgValue m.srcId m.stringData }
  else some s

/-- The loop of `main`, from the database of an earlier session. -/
def run (db : Db) (msgs : List Message) : Option State :=
  msgs.foldlM handleMessage { db := db.init }

end OpBrowser.ObjectStore
