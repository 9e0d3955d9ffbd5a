import OpBrowser.Library.Service
import OpBrowser.Model.CookieManager

/-! # The cookie component as one server

Seen from the clients, the cookie component with the kernel around it is the server of the
library: every client has a link of its own, and the kernel decides whose message is next. -/

namespace OpBrowser.Cookies

variable {q : QtCookies} {s : State q} {a : I32}

/-! ### Requests of the store -/

/-- The request of the store that a message stands for. -/
def request (q : QtCookies) (e : Message × ℤ) : Option CookieStore.Request :=
  let (msg, now) := e
  let (var, data) := q.read msg.payload.data
  let url := q.parts (q.toUrl var)
  if msg.msgType = msgCookieSet ∨ msg.msgType = msgDomCookieSet then
    let (var, _) := q.read data
    some (.set (q.parseCookies (q.toString var).toLatin1) url now)
  else if msg.msgType = msgCookieGet ∨ msg.msgType = msgDomCookieGet then some (.get url now)
  else none

/-- The table after these messages, as the store alone would have it. -/
def tableAfter (q : QtCookies) (db : List Row) (history : List (Message × ℤ)) : List Row :=
  (history.filterMap (request q)).foldl (CookieStore.handle q.toCookieEnv) db

theorem tableAfter_append (db : List Row) (history more : List (Message × ℤ)) :
    tableAfter q (tableAfter q db history) more = tableAfter q db (history ++ more) := by
  simp [tableAfter]

theorem dispatchMsg_table (db : List Row) (msg : Message) (now : ℤ) :
    (dispatchMsg q db msg now).1 = tableAfter q db [(msg, now)] := by
  rw [dispatchMsg, tableAfter, List.filterMap_cons, request]
  split
  · dsimp only
    split
    · rfl
    next hempty =>
      rw [not_not] at hempty
      simp [CookieStore.handle, CookieStore.setCookiesFromUrl, hempty]
  · split
    · rfl
    · rfl

/-! ### The server and its links -/

/-- What the cookie component does with a message of a client. -/
def serve (q : QtCookies) (db : List Row) (_ : I32) (msg : Message) (now : ℤ) :
    List Row × Option Message :=
  dispatchMsg q db msg now

theorem after_eq (db : List Row) (history : List (Message × ℤ)) :
    Service.after (serve q) db (history.map fun e => (e.1.srcId, e.1, e.2)) =
      tableAfter q db history := by
  induction history generalizing db with
  | nil => rfl
  | cons e history ih =>
      change Service.after (serve q) (dispatchMsg q db e.1 e.2).1 _ = _
      rw [ih, dispatchMsg_table, tableAfter_append]
      rfl

/-- Who may write to the cookie component, and what. -/
theorem checks_to_cookie : ∀ e ∈ AccessControl.create, e.1.2 = cookieId →
    e.1.1 = webappFirstId ∧ e.2.messages = [msgDomCookieSet, msgDomCookieGet] ∨
      e.1.1 = networkId ∧ e.2.messages = [msgCookieSet, msgCookieGet] := by
  decide

theorem getACC_cookie {src : I32} {chk : AccessControlCheck}
    (h : AccessControl.create.getACC src cookieId = some chk) :
    webappFirstId ≤ src ∧ chk.messages = [msgDomCookieSet, msgDomCookieGet] ∨
      src = networkId ∧ chk.messages = [msgCookieSet, msgCookieGet] := by
  rw [AccessControl.getACC, List.lookup_eq_some_iff] at h
  obtain ⟨front, back, hcreate, -⟩ := h
  have hmem : ((AccessControl.classOf src, AccessControl.classOf cookieId), chk) ∈
      AccessControl.create := by simp [hcreate]
  have hclass := checks_to_cookie _ hmem rfl
  dsimp only [AccessControl.classOf] at hclass
  split at hclass
  next hweb => exact hclass.imp (fun h => ⟨hweb, h.2⟩) fun h => absurd h.1 (by decide)
  next hcore => exact hclass.imp (fun h => absurd h.1.ge hcore) id

/-- The reply that carries these cookies. -/
def replyMsg (q : QtCookies) (msg : Message) (cookies : List QNetworkCookie) : Message :=
  { srcId := cookieId
    dstId := msg.srcId
    msgType := if msg.msgType = msgDomCookieGet then msgDomCookieGetReturn else msgCookieGetReturn
    msgValue := msg.msgValue
    payload := .ofBytes (q.write (q.ofString (cookieStr q cookies))) }

/-- Only requests for cookies have a reply. -/
theorem dispatchMsg_reply {msg reply : Message} {db : List Row} {now : ℤ}
    (h : (dispatchMsg q db msg now).2 = some reply) :
    (msg.msgType = msgCookieGet ∨ msg.msgType = msgDomCookieGet) ∧
      reply = replyMsg q msg (CookieStore.cookiesForUrl q.toCookieEnv db
        (q.parts (q.toUrl (q.read msg.payload.data).1)) now).1 := by
  rw [dispatchMsg] at h
  split at h
  · dsimp only at h
    split at h <;> cases h
  · split at h
    next hget => exact ⟨hget, (Option.some_injective _ h).symm⟩
    next => cases h

theorem exists_reply {msg : Message} (db : List Row) (now : ℤ)
    (hget : msg.msgType = msgCookieGet ∨ msg.msgType = msgDomCookieGet) :
    ∃ cookies, (dispatchMsg q db msg now).2 = some (replyMsg q msg cookies) := by
  have hset : ¬ (msg.msgType = msgCookieSet ∨ msg.msgType = msgDomCookieSet) := by
    obtain hget | hget := hget <;> rw [hget] <;> decide
  rw [dispatchMsg, if_neg hset, if_pos hget]
  exact ⟨_, rfl⟩

/-- The kernel passes on the reply to a message that it has passed on. -/
theorem checkWrite_reply {msg : Message} (cookies : List QNetworkCookie)
    (h : forCookies msg = true)
    (hget : msg.msgType = msgCookieGet ∨ msg.msgType = msgDomCookieGet) :
    AccessControl.create.checkWrite (replyMsg q msg cookies) = true := by
  obtain ⟨hdst, hcheck⟩ := Bool.and_eq_true_iff.mp h
  have hdst : msg.dstId = cookieId := of_decide_eq_true hdst
  by_cases hkernel : msg.srcId = kernelId
  · simp [AccessControl.checkWrite, replyMsg, hkernel]
  · rw [AccessControl.checkWrite_of_ne hkernel (by rw [hdst]; decide), hdst] at hcheck
    obtain ⟨chk, hchk, hallowed⟩ := hcheck
    have hcookie : (replyMsg q msg cookies).srcId ≠ kernelId := show cookieId ≠ kernelId by decide
    rw [AccessControl.checkWrite_of_ne hcookie hkernel]
    obtain ⟨hweb, hmessages⟩ | ⟨hnetwork, hmessages⟩ := getACC_cookie hchk
    · rw [hmessages] at hallowed
      have htype : msg.msgType = msgDomCookieGet := by
        simp only [List.mem_cons, List.not_mem_nil, or_false] at hallowed
        obtain hset | hget := hallowed
        · rw [hset] at hget
          exact absurd hget (by decide)
        · exact hget
      refine ⟨⟨cookieId, webappFirstId, [msgDomCookieGetReturn]⟩, ?_, ?_⟩
      · rw [AccessControl.getACC, replyMsg]
        dsimp only
        rw [show AccessControl.classOf msg.srcId = webappFirstId from if_pos hweb]
        decide
      · simp [replyMsg, htype]
    · rw [hmessages] at hallowed
      have htype : msg.msgType = msgCookieGet := by
        simp only [List.mem_cons, List.not_mem_nil, or_false] at hallowed
        obtain hset | hget := hallowed
        · rw [hset] at hget
          exact absurd hget (by decide)
        · exact hget
      refine ⟨⟨cookieId, networkId, [msgCookieGetReturn]⟩, ?_, ?_⟩
      · rw [replyMsg, hnetwork]
        dsimp only
        decide
      · have hne : msgCookieGet ≠ msgDomCookieGet := by decide
        simp [replyMsg, htype, hne]

/-! ### The kernel between the links -/

/-- The links of the library, as they are made of the pipes. A message that the kernel will
drop is not on its way. -/
structure Serves (s : State q) (t : Service.State I32 Message Message ℤ (List Row)) : Prop where
  store : t.store = s.db
  sent : ∀ a, t.sent a = ((s.toKernel a).map (stamp a)).filter forCookies
  inbox : t.inbox = s.toCookie.map fun msg => (msg.srcId, msg)
  outbox : t.outbox = s.fromCookie.map fun msg => (msg.dstId, msg)
  arriving : t.arriving = s.toClient
  history : t.history = s.history.map fun e => (e.1.srcId, e.1, e.2)
  incoming : ∀ msg ∈ s.toCookie, forCookies msg = true
  outgoing : ∀ msg ∈ s.fromCookie, stamp cookieId msg = msg ∧
    AccessControl.create.checkWrite msg = true

/-- What the library does when a client writes this message. -/
def asks (a : I32) (msg : Message) : List (Service.Action I32 Message ℤ) :=
  if forCookies (stamp a msg) then [.ask a (stamp a msg)] else []

/-- What the library does in a step. -/
def moves (s : State q) : Action q.QUrl → List (Service.Action I32 Message ℤ)
  | .setCookiesFromUrl a cookieList url => asks a (Call.msg q a (.setCookiesFromUrl cookieList url))
  | .cookiesForUrl a url => asks a (Call.msg q a (.cookiesForUrl (s.clients a).reqId url))
  | .send a msg => asks a msg
  | .relay a =>
      if (s.toKernel a).head?.any fun msg => forCookies (stamp a msg) then [.relay a] else []
  | .relayReply => [.deliver]
  | .readCookie now => [.serve now]
  | .readClient a => [.receive a]
  | .takeId _ | .takeCookies _ _ => []

variable {t : Service.State I32 Message Message ℤ (List Row)}

namespace Serves

variable (h : Serves s t)

include h

theorem on_write (a : I32) (msg : Message) :
    Serves (write s a msg) ((asks a msg).foldl (Service.step (serve q)) t) := by
  rw [asks]
  split
  next hfor =>
    refine { h with sent := fun a' => ?_ }
    simp only [List.foldl_cons, List.foldl_nil, Service.step, write, Function.update_apply]
    split
    next heq => simp [heq, h.sent, hfor]
    next => exact h.sent a'
  next hfor =>
    refine { h with sent := fun a' => ?_ }
    simp only [List.foldl_nil, write, Function.update_apply]
    split
    next heq => simp [heq, h.sent, hfor]
    next => exact h.sent a'

theorem on_relay (a : I32) :
    Serves (step s (.relay a)) ((moves s (.relay a)).foldl (Service.step (serve q)) t) := by
  have hsent := h.sent a
  cases hpipe : s.toKernel a with
  | nil => simpa [step, moves, hpipe] using h
  | cons msg rest =>
      rw [hpipe] at hsent
      by_cases hfor : forCookies (stamp a msg)
      · have hsent' : t.sent a = stamp a msg :: ((rest.map (stamp a)).filter forCookies) := by
          simp [hsent, hfor]
        simp only [step, moves, hpipe, hfor, List.head?_cons, Option.any_some, if_true,
          List.foldl_cons, List.foldl_nil, Service.step, hsent']
        refine { h with sent := fun a' => ?_, inbox := ?_, incoming := ?_ }
        · simp only [Function.update_apply]
          split
          next heq => rw [heq]
          next => exact h.sent a'
        · simp [h.inbox, stamp]
        · intro msg' hmsg'
          obtain hmsg' | hmsg' := List.mem_append.mp hmsg'
          · exact h.incoming msg' hmsg'
          · rwa [List.mem_singleton.mp hmsg']
      · have hsent' : t.sent a = (rest.map (stamp a)).filter forCookies := by
          simp [hsent, hfor]
        simp only [step, moves, hpipe, hfor, List.head?_cons, Option.any_some, if_false,
          Bool.false_eq_true, List.foldl_nil]
        refine { h with sent := fun a' => ?_ }
        simp only [Function.update_apply]
        split
        next heq => rw [heq, hsent']
        next => exact h.sent a'

theorem on_readCookie (now : ℤ) :
    Serves (step s (.readCookie now)) (Service.step (serve q) t (.serve now)) := by
  have hinbox := h.inbox
  cases hpipe : s.toCookie with
  | nil =>
      rw [hpipe] at hinbox
      simpa [step, Service.step, hpipe, hinbox] using h
  | cons msg rest =>
      rw [hpipe] at hinbox
      have hfor : forCookies msg = true := h.incoming msg (by simp [hpipe])
      simp only [step, hpipe, Service.step, hinbox, List.map_cons, serve, h.store]
      refine { h with store := rfl, inbox := rfl, outbox := ?_, history := ?_, incoming := ?_,
                      outgoing := ?_ }
      · cases hreply : (dispatchMsg q s.db msg now).2 with
        | none => simp [h.outbox]
        | some reply =>
            obtain ⟨-, rfl⟩ := dispatchMsg_reply hreply
            simp [h.outbox, replyMsg]
      · simp [h.history]
      · exact fun msg' hmsg' => h.incoming msg' (by simp [hpipe, hmsg'])
      · intro msg' hmsg'
        obtain hmsg' | hmsg' := List.mem_append.mp hmsg'
        · exact h.outgoing msg' hmsg'
        · obtain ⟨hget, rfl⟩ := dispatchMsg_reply (Option.mem_toList.mp hmsg')
          exact ⟨rfl, checkWrite_reply _ hfor hget⟩

theorem on_relayReply : Serves (step s .relayReply) (Service.step (serve q) t .deliver) := by
  have houtbox := h.outbox
  cases hpipe : s.fromCookie with
  | nil =>
      rw [hpipe] at houtbox
      simpa [step, Service.step, hpipe, houtbox] using h
  | cons msg rest =>
      rw [hpipe] at houtbox
      obtain ⟨hstamp, hcheck⟩ := h.outgoing msg (by simp [hpipe])
      simp only [step, hpipe, hstamp, hcheck, if_true, Service.step, houtbox, List.map_cons]
      refine { h with outbox := rfl, arriving := by rw [h.arriving], outgoing := ?_ }
      exact fun msg' hmsg' => h.outgoing msg' (by simp [hpipe, hmsg'])

theorem on_readClient (a : I32) :
    Serves (step s (.readClient a)) (Service.step (serve q) t (.receive a)) := by
  have harriving : t.arriving a = s.toClient a := congrFun h.arriving a
  cases hpipe : s.toClient a with
  | nil =>
      rw [hpipe] at harriving
      simpa [step, Service.step, hpipe, harriving] using h
  | cons msg rest =>
      rw [hpipe] at harriving
      simp only [step, hpipe, Service.step, harriving]
      split
      · exact { h with arriving := by simp [setClient, h.arriving] }
      · exact { h with arriving := by simp [h.arriving] }

/-- The pipes, the kernel and the cookie component do what the library does. -/
theorem step (x : Action q.QUrl) :
    Serves (Cookies.step s x) ((moves s x).foldl (Service.step (serve q)) t) := by
  cases x with
  | setCookiesFromUrl a cookieList url => exact { h.on_write a _ with }
  | cookiesForUrl a url => exact { h.on_write a _ with }
  | takeId a => exact { h with }
  | send a msg => exact h.on_write a msg
  | relay a => exact h.on_relay a
  | relayReply => exact h.on_relayReply
  | readCookie now => exact h.on_readCookie now
  | readClient a => exact h.on_readClient a
  | takeCookies a reqId => exact { h with }

end Serves

end OpBrowser.Cookies
