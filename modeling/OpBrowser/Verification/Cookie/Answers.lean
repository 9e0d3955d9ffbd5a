import OpBrowser.Verification.Cookie.Lookup
import OpBrowser.Verification.Cookie.Serving
import OpBrowser.Verification.Storage.Streams

/-! # What the clients of the cookie component see -/

namespace OpBrowser.Cookies

variable {q : QtCookies} {s : State q}
    {t : Service.State I32 Message Message ℤ (List Row)} {a : I32}

/-! ### The calls of a client -/

/-- The id of a request for cookies. -/
def Call.id {QUrl : Type} : Call QUrl → Option I32
  | .cookiesForUrl reqId _ => some reqId
  | .setCookiesFromUrl _ _ => none

/-- The message of a call, as the kernel passes it on. -/
def Call.stamped (q : QtCookies) (a : I32) (c : Call q.QUrl) : Message := stamp a (c.msg q a)

/-- The kernel lets every message of the network component and of a web app through. -/
theorem forCookies_call (ha : a = networkId ∨ webappFirstId ≤ a) (c : Call q.QUrl) :
    forCookies (c.stamped q a) = true := by
  have hne : a ≠ kernelId := by
    obtain rfl | hweb := ha
    · decide
    · exact (lt_of_lt_of_le (by decide : kernelId < webappFirstId) hweb).ne'
  have hdst : (c.stamped q a).dstId = cookieId := by cases c <;> rfl
  rw [forCookies, Bool.and_eq_true, decide_eq_true_eq]
  refine ⟨hdst, (AccessControl.checkWrite_of_ne hne (by rw [hdst]; decide)).mpr ?_⟩
  rw [hdst]
  change AccessControl.create.Registered a cookieId _
  obtain rfl | hweb := ha
  · refine ⟨⟨networkId, cookieId, [msgCookieSet, msgCookieGet]⟩, by decide, ?_⟩
    cases c <;> simp [Call.stamped, stamp, Call.msg]
  · have hcore : a ≠ networkId :=
      (lt_of_lt_of_le (by decide : networkId < webappFirstId) hweb).ne'
    refine ⟨⟨webappFirstId, cookieId, [msgDomCookieSet, msgDomCookieGet]⟩, ?_, ?_⟩
    · rw [AccessControl.getACC, show AccessControl.classOf a = webappFirstId from if_pos hweb]
      decide
    · cases c <;> simp [Call.stamped, stamp, Call.msg, hcore]

/-- The text of a reply, as `handleCookieMap` reads it. -/
def replyText (q : QtCookies) (msg : Message) : QString := q.toString (q.read msg.payload.data).1

/-- The answer to a call has this id and this text. -/
def IsReply (a : I32) (reqId : I32) (msg : Message) : Prop :=
  msg.msgType = returnType a ∧ msg.msgValue = reqId

/-! ### Steps of others -/

theorem setClient_self : setClient s a (s.clients a) = s := by
  simp [setClient]

theorem asked_asks {b : I32} (hb : b ≠ a) (msg : Message) :
    ((asks b msg).foldl (Service.step (serve q)) t).asked a = t.asked a := by
  rw [asks]
  split
  · simp [Service.step, Ne.symm hb]
  · rfl

theorem got_asks (b : I32) (msg : Message) :
    ((asks b msg).foldl (Service.step (serve q)) t).got = t.got := by
  rw [asks]
  split <;> rfl

theorem relay_clients (b : I32) :
    (step s (.relay b)).called = s.called ∧ (step s (.relay b)).clients = s.clients := by
  rw [step]
  split
  · dsimp only
    split <;> exact ⟨rfl, rfl⟩
  · exact ⟨rfl, rfl⟩

theorem relayReply_clients :
    (step s .relayReply).called = s.called ∧ (step s .relayReply).clients = s.clients := by
  rw [step]
  split
  · dsimp only
    split <;> exact ⟨rfl, rfl⟩
  · exact ⟨rfl, rfl⟩

theorem readCookie_clients (now : ℤ) : (step s (.readCookie now)).called = s.called ∧
    (step s (.readCookie now)).clients = s.clients := by
  rw [step]
  split <;> exact ⟨rfl, rfl⟩

theorem readClient_clients {b : I32} (hb : b ≠ a) : (step s (.readClient b)).called = s.called ∧
    (step s (.readClient b)).clients a = s.clients a := by
  rw [step]
  split
  · dsimp only
    split
    · exact ⟨rfl, by simp [setClient, Ne.symm hb]⟩
    · exact ⟨rfl, rfl⟩
  · exact ⟨rfl, rfl⟩

/-! ### What a client keeps -/

/-- The answers that a client has got are in its map until a call takes them. -/
structure Keeps (a : I32) (s : State q) (t : Service.State I32 Message Message ℤ (List Row)) :
    Prop where
  asked : t.asked a = (s.called a).map (Call.stamped q a)
  fresh : ∀ reqId ∈ (s.called a).filterMap Call.id, reqId < (s.clients a).reqId
  distinct : ((s.called a).filterMap Call.id).Nodup
  inMap : ∀ reqId text, (s.clients a).cookieMap[reqId]? = some text →
    ∃ msg ∈ t.got a, IsReply a reqId msg ∧ text = replyText q msg
  returned : ∀ e ∈ (s.clients a).returned,
    ∃ msg ∈ t.got a, IsReply a e.1 msg ∧ e.2 = q.parseCookies (replyText q msg).toLatin1
  kept : ∀ msg ∈ t.got a, msg.msgType = returnType a →
    (s.clients a).cookieMap[msg.msgValue]? ≠ none ∨
      msg.msgValue ∈ (s.clients a).returned.map Prod.fst

namespace Keeps

variable (h : Keeps a s t)

include h

/-- Nothing has changed for the client. -/
theorem congr {s' : State q} {t' : Service.State I32 Message Message ℤ (List Row)}
    (hcalled : s'.called a = s.called a) (hclient : s'.clients a = s.clients a)
    (hasked : t'.asked a = t.asked a) (hgot : t'.got a = t.got a) : Keeps a s' t' := by
  constructor
  · rw [hasked, hcalled, h.asked]
  · rw [hcalled, hclient]
    exact h.fresh
  · rw [hcalled]
    exact h.distinct
  · rw [hclient, hgot]
    exact h.inMap
  · rw [hclient, hgot]
    exact h.returned
  · rw [hclient, hgot]
    exact h.kept

/-- A call that asks for nothing, or for an id that the client has just taken. -/
theorem on_call (ha : a = networkId ∨ webappFirstId ≤ a) {c : Call q.QUrl} {n : I32}
    (hid : ∀ reqId ∈ c.id, reqId = (s.clients a).reqId ∧ (s.clients a).reqId < n)
    (hn : (s.clients a).reqId ≤ n) :
    Keeps a (call (setClient s a { s.clients a with reqId := n }) a c)
      ((asks a (c.msg q a)).foldl (Service.step (serve q)) t) := by
  have hfor : forCookies (stamp a (c.msg q a)) = true := forCookies_call ha c
  rw [asks, if_pos hfor]
  constructor
  · simp [Service.step, call, write, setClient, h.asked, Call.stamped]
  · intro reqId hmem
    simp only [call, write, setClient, Function.update_self, List.filterMap_append,
      List.mem_append] at hmem ⊢
    obtain hmem | hmem := hmem
    · exact (h.fresh reqId hmem).trans_le hn
    · have hmem : reqId ∈ c.id := by simpa using hmem
      obtain ⟨rfl, hlt⟩ := hid reqId hmem
      exact hlt
  · simp only [call, write, setClient, Function.update_self, List.filterMap_append]
    rw [List.nodup_append]
    refine ⟨h.distinct, ?_, ?_⟩
    · cases hc : c.id with
      | none => simp [hc]
      | some reqId => simp [hc]
    · intro reqId hmem reqId' hmem' heq
      have hmem' : reqId' ∈ c.id := by simpa using hmem'
      obtain ⟨rfl, -⟩ := hid reqId' hmem'
      exact (h.fresh reqId hmem).ne heq
  · simpa [Service.step, call, write, setClient] using h.inMap
  · simpa [Service.step, call, write, setClient] using h.returned
  · simpa [Service.step, call, write, setClient] using h.kept

theorem on_takeId :
    Keeps a (setClient s a { s.clients a with reqId := (s.clients a).reqId + 1 }) t := by
  constructor
  · exact h.asked
  · intro reqId hmem
    simp only [setClient, Function.update_self]
    exact (h.fresh reqId hmem).trans (Int.lt_succ _)
  · exact h.distinct
  · simpa [setClient] using h.inMap
  · simpa [setClient] using h.returned
  · simpa [setClient] using h.kept

theorem on_readClient (harriving : t.arriving a = s.toClient a) :
    Keeps a (step s (.readClient a)) (Service.step (serve q) t (.receive a)) := by
  cases hpipe : s.toClient a with
  | nil =>
      rw [hpipe] at harriving
      simpa [step, Service.step, hpipe, harriving] using h
  | cons msg rest =>
      rw [hpipe] at harriving
      simp only [step, hpipe, Service.step, harriving]
      by_cases htype : msg.msgType = returnType a
      · rw [if_pos htype]
        constructor
        · exact h.asked
        · simpa [setClient, handleCookieMap] using h.fresh
        · exact h.distinct
        · intro reqId text hmap
          simp only [setClient, Function.update_self, handleCookieMap,
            OrdMap.getElem?_insert] at hmap ⊢
          split at hmap
          next heq =>
            exact ⟨msg, by simp, ⟨htype, heq⟩, (Option.some_injective _ hmap).symm⟩
          next =>
            obtain ⟨msg', hmem, hreply⟩ := h.inMap reqId text hmap
            exact ⟨msg', by simp [hmem], hreply⟩
        · intro e he
          have he' : e ∈ (s.clients a).returned := by simpa [setClient, handleCookieMap] using he
          obtain ⟨msg', hmem, hreply⟩ := h.returned e he'
          exact ⟨msg', by simp [hmem], hreply⟩
        · intro msg' hmem htype'
          simp only [setClient, Function.update_self, handleCookieMap, OrdMap.getElem?_insert,
            List.mem_append, List.mem_singleton] at hmem ⊢
          obtain hmem | rfl := hmem
          · split
            next => exact Or.inl (by simp)
            next => exact h.kept msg' hmem htype'
          · exact Or.inl (by simp)
      · rw [if_neg htype]
        constructor
        · exact h.asked
        · exact h.fresh
        · exact h.distinct
        · intro reqId text hmap
          obtain ⟨msg', hmem, hreply⟩ := h.inMap reqId text hmap
          exact ⟨msg', by simp [hmem], hreply⟩
        · intro e he
          obtain ⟨msg', hmem, hreply⟩ := h.returned e he
          exact ⟨msg', by simp [hmem], hreply⟩
        · intro msg' hmem htype'
          simp only [Function.update_self, List.mem_append, List.mem_singleton] at hmem
          obtain hmem | rfl := hmem
          · exact h.kept msg' hmem htype'
          · exact absurd htype' htype

theorem on_takeCookies (reqId : I32) :
    Keeps a (setClient s a (takeCookies q (s.clients a) reqId)) t := by
  rw [takeCookies]
  split
  next text htext =>
    obtain ⟨msg, hmem, hreply, htext'⟩ := h.inMap reqId text htext
    constructor
    · exact h.asked
    · simpa [setClient] using h.fresh
    · exact h.distinct
    · intro reqId' text' hmap
      simp only [setClient, Function.update_self, OrdMap.getElem?_erase] at hmap
      split at hmap
      next => cases hmap
      next => exact h.inMap reqId' text' hmap
    · intro e he
      simp only [setClient, Function.update_self, List.mem_append, List.mem_singleton] at he
      obtain he | rfl := he
      · exact h.returned e he
      · exact ⟨msg, hmem, hreply, by rw [htext']⟩
    · intro msg' hmem' htype'
      simp only [setClient, Function.update_self, OrdMap.getElem?_erase, List.map_append,
        List.map_cons, List.map_nil, List.mem_append, List.mem_singleton]
      by_cases heq : reqId = msg'.msgValue
      · exact Or.inr (Or.inr heq.symm)
      · rw [if_neg heq]
        exact (h.kept msg' hmem' htype').imp_right Or.inl
  next =>
    simp only [setClient, Function.update_eq_self]
    exact h

/-- A call of another client. -/
theorem on_other {b : I32} (hb : b ≠ a) (c : Call q.QUrl) (w : Client) :
    Keeps a (call (setClient s b w) b c) ((asks b (c.msg q b)).foldl (Service.step (serve q)) t) :=
  h.congr (by simp [call, setClient, Ne.symm hb]) (by simp [call, write, setClient, Ne.symm hb])
    (asked_asks hb _) (by rw [got_asks])

theorem step (ha : a = networkId ∨ webappFirstId ≤ a) (hserves : Serves s t)
    {x : Action q.QUrl} (hx : ∀ msg, x ≠ .send a msg) :
    Keeps a (Cookies.step s x) ((moves s x).foldl (Service.step (serve q)) t) := by
  cases x with
  | setCookiesFromUrl b cookieList url =>
      have hself : setClient s b { s.clients b with reqId := (s.clients b).reqId } = s :=
        setClient_self
      by_cases hb : b = a
      · subst hb
        have hcall := h.on_call ha (c := .setCookiesFromUrl cookieList url)
          (n := (s.clients b).reqId) (by simp [Call.id]) le_rfl
        rwa [hself] at hcall
      · have hcall := h.on_other hb (.setCookiesFromUrl cookieList url) (s.clients b)
        rwa [setClient_self] at hcall
  | cookiesForUrl b url =>
      by_cases hb : b = a
      · subst hb
        exact h.on_call ha (c := .cookiesForUrl (s.clients b).reqId url)
          (n := (s.clients b).reqId + 1) (by simp [Call.id]) (by simp)
      · exact h.on_other hb _ _
  | takeId b =>
      by_cases hb : b = a
      · subst hb
        exact h.on_takeId
      · exact h.congr rfl (by simp [Cookies.step, setClient, Ne.symm hb]) rfl rfl
  | send b msg =>
      have hb : b ≠ a := by
        rintro rfl
        exact hx msg rfl
      exact h.congr rfl rfl (asked_asks hb msg) (by rw [moves, got_asks])
  | relay b =>
      obtain ⟨hcalled, hclients⟩ := relay_clients (s := s) b
      refine h.congr (congrFun hcalled a) (congrFun hclients a) ?_ ?_
      · rw [moves]
        split <;> simp
      · rw [moves]
        split <;> simp
  | relayReply =>
      obtain ⟨hcalled, hclients⟩ := relayReply_clients (s := s)
      exact h.congr (congrFun hcalled a) (congrFun hclients a) (by simp [moves]) (by simp [moves])
  | readCookie now =>
      obtain ⟨hcalled, hclients⟩ := readCookie_clients (s := s) now
      exact h.congr (congrFun hcalled a) (congrFun hclients a) (by simp [moves]) (by simp [moves])
  | readClient b =>
      by_cases hb : b = a
      · subst hb
        exact h.on_readClient (congrFun hserves.arriving b)
      · obtain ⟨hcalled, hclient⟩ := readClient_clients (s := s) hb
        exact h.congr (congrFun hcalled a) hclient (by simp [moves])
          (Service.got_receive_of_ne (serve q) t hb)
  | takeCookies b reqId =>
      by_cases hb : b = a
      · subst hb
        exact h.on_takeCookies reqId
      · exact h.congr rfl (by simp [Cookies.step, setClient, Ne.symm hb]) rfl rfl

end Keeps

/-! ### Runs -/

/-- The web app `a` runs the code of the repository. -/
def Honest (a : I32) (as : List (Action q.QUrl)) : Prop := ∀ msg, .send a msg ∉ as

/-- The messages of this client, in the order in which they were dispatched. -/
def messagesOf (a : I32) (history : List (Message × ℤ)) : List Message :=
  (history.map Prod.fst).filter fun msg => msg.srcId = a

/-- What the client sees of the one table for all clients. -/
structure Answered (db : List Row) (s : State q) (a : I32) : Prop where
  /-- The table is that of the store alone after all requests that were dispatched. -/
  table : s.db = tableAfter q db s.history
  /-- The calls of the client were dispatched in their order. -/
  order : messagesOf a s.history <+: (s.called a).map (Call.stamped q a)
  /-- No two calls of `cookiesForUrl` have the same id. -/
  distinct : ((s.called a).filterMap Call.id).Nodup
  /-- A call of `cookiesForUrl` returns what the store has after all earlier calls of the
  client, and whatever calls of others were dispatched before it. -/
  returned : ∀ e ∈ (s.clients a).returned, ∃ earlier url later before now rest,
    s.called a = earlier ++ .cookiesForUrl e.1 url :: later ∧
      s.history = before ++ (Call.stamped q a (.cookiesForUrl e.1 url), now) :: rest ∧
      messagesOf a before = earlier.map (Call.stamped q a) ∧
      e.2 = q.parseCookies (cookieStr q (CookieStore.cookiesForUrl q.toCookieEnv
        (tableAfter q db before) (q.parts url) now).1).toLatin1
  /-- Once nothing is on its way, every call was dispatched and every answer is there. -/
  settled : s.toKernel a = [] → (∀ msg ∈ s.toCookie, msg.srcId ≠ a) →
    (∀ msg ∈ s.fromCookie, msg.dstId ≠ a) → s.toClient a = [] →
      messagesOf a s.history = (s.called a).map (Call.stamped q a) ∧
        ∀ reqId ∈ (s.called a).filterMap Call.id, (s.clients a).cookieMap[reqId]? ≠ none ∨
          reqId ∈ (s.clients a).returned.map Prod.fst

section Answered

variable {db : List Row}

theorem ofClient_requests (history : List (Message × ℤ)) :
    Service.ofClient a (Service.requests (history.map fun e => (e.1.srcId, e.1, e.2))) =
      messagesOf a history := by
  simp [Service.ofClient, Service.requests, messagesOf, List.filter_map, Function.comp_def]

theorem ofClient_eq_nil {msgs : List Message} {f : Message → I32} (h : ∀ msg ∈ msgs, f msg ≠ a) :
    Service.ofClient a (msgs.map fun msg => (f msg, msg)) = [] := by
  simpa [Service.ofClient, List.filter_map] using h

/-- Where the last element of a prefix comes from. -/
theorem exists_of_prefix_map {α β : Type*} {f : α → β} {l : List α} {l' : List β} {b : β}
    (h : l' ++ [b] <+: l.map f) :
    ∃ earlier c later, l = earlier ++ c :: later ∧ l' = earlier.map f ∧ b = f c := by
  obtain ⟨rest, hrest⟩ := h
  rw [List.append_assoc] at hrest
  obtain ⟨earlier, more, rfl, hearlier, hmore⟩ := List.map_eq_append_iff.mp hrest.symm
  obtain ⟨c, later, rfl, hc, -⟩ := List.map_eq_cons_iff.mp hmore
  exact ⟨earlier, c, later, rfl, hearlier.symm, hc.symm⟩

theorem stamped_cookiesForUrl_type (reqId : I32) (url : q.QUrl) :
    (Call.stamped q a (.cookiesForUrl reqId url)).msgType =
      if a = networkId then msgCookieGet else msgDomCookieGet := rfl

/-- The reply to a call of `cookiesForUrl` is for `handleCookieMap`. -/
theorem isReply_replyMsg (reqId : I32) (url : q.QUrl) (cookies : List QNetworkCookie) :
    IsReply a reqId (replyMsg q (Call.stamped q a (.cookiesForUrl reqId url)) cookies) := by
  refine ⟨?_, rfl⟩
  rw [replyMsg, returnType, stamped_cookiesForUrl_type]
  by_cases ha : a = networkId
  · rw [if_pos ha, if_pos ha]
    rfl
  · rw [if_neg ha, if_neg ha]
    rfl

theorem cookiesForUrl_of_type {c : Call q.QUrl}
    (h : (c.stamped q a).msgType = msgCookieGet ∨ (c.stamped q a).msgType = msgDomCookieGet) :
    ∃ reqId url, c = .cookiesForUrl reqId url := by
  cases c with
  | cookiesForUrl reqId url => exact ⟨reqId, url, rfl⟩
  | setCookiesFromUrl cookieList url =>
      have htype : (Call.stamped q a (.setCookiesFromUrl cookieList url)).msgType =
          if a = networkId then msgCookieSet else msgDomCookieSet := rfl
      rw [htype] at h
      split at h <;> exact absurd h (by decide)

theorem read_write (hq : q.toQtVariants.Lawful) (v : q.QVariant) :
    q.read (q.write v) = (v, []) := by
  simpa using hq.read_write v []

theorem replyText_replyMsg (hq : q.toQtVariants.Lawful) (msg : Message)
    (cookies : List QNetworkCookie) :
      replyText q (replyMsg q msg cookies) = cookieStr q cookies := by
  rw [replyText]
  change q.toString (q.read (q.write (q.ofString (cookieStr q cookies)))).1 = _
  rw [read_write hq, hq.toString_ofString]

theorem url_stamped (hq : q.toQtVariants.Lawful) (reqId : I32) (url : q.QUrl) :
    q.toUrl (q.read (Call.stamped q a (.cookiesForUrl reqId url)).payload.data).1 = url := by
  change q.toUrl (q.read (q.write (q.ofUrl url))).1 = url
  rw [read_write hq, hq.toUrl_ofUrl]

/-- What a reply that the client has got says, and what came before its call. -/
theorem reply_of_got (hq : q.toQtVariants.Lawful) (hseq : Service.Sequential (serve q) db t)
    (hserves : Serves s t) (hkeeps : Keeps a s t) {msg : Message} (hgot : msg ∈ t.got a) :
    ∃ earlier url later before now rest,
      s.called a = earlier ++ .cookiesForUrl msg.msgValue url :: later ∧
        s.history = before ++ (Call.stamped q a (.cookiesForUrl msg.msgValue url), now) :: rest ∧
        messagesOf a before = earlier.map (Call.stamped q a) ∧
        replyText q msg = cookieStr q (CookieStore.cookiesForUrl q.toCookieEnv
          (tableAfter q db before) (q.parts url) now).1 := by
  obtain ⟨before', req, now, rest', hhistory, hreply, hprefix⟩ := hseq.got_answer hgot
  rw [hserves.history] at hhistory
  obtain ⟨before, more, hsplit, rfl, hmore⟩ := List.map_eq_append_iff.mp hhistory
  obtain ⟨e, rest, rfl, he, -⟩ := List.map_eq_cons_iff.mp hmore
  obtain ⟨req', now'⟩ := e
  simp only [Prod.mk.injEq] at he
  obtain ⟨-, rfl, rfl⟩ := he
  rw [ofClient_requests, hkeeps.asked] at hprefix
  obtain ⟨earlier, c, later, hcalled, hbefore, rfl⟩ := exists_of_prefix_map hprefix
  rw [after_eq] at hreply
  obtain ⟨hget, rfl⟩ := dispatchMsg_reply hreply
  obtain ⟨reqId, url, rfl⟩ := cookiesForUrl_of_type hget
  refine ⟨earlier, url, later, before, now', rest, hcalled, hsplit, hbefore, ?_⟩
  rw [replyText_replyMsg hq, url_stamped hq]

/-- Once everything has arrived, the client has got the reply to each of its calls. -/
theorem got_of_call (hserves : Serves s t) {reqId : I32} {url : q.QUrl}
    (hgot : t.got a = Service.ofClient a (Service.answers (serve q) db t.history))
    (hmem : Call.stamped q a (.cookiesForUrl reqId url) ∈ messagesOf a s.history) :
    ∃ msg ∈ t.got a, IsReply a reqId msg := by
  obtain ⟨hmem, -⟩ := List.mem_filter.mp hmem
  obtain ⟨e, hmem, he⟩ := List.mem_map.mp hmem
  obtain ⟨before, rest, hsplit⟩ := List.append_of_mem hmem
  have htype : e.1.msgType = msgCookieGet ∨ e.1.msgType = msgDomCookieGet := by
    rw [he, stamped_cookiesForUrl_type]
    split
    · exact Or.inl rfl
    · exact Or.inr rfl
  obtain ⟨cookies, hreply⟩ := exists_reply (q := q) (tableAfter q db before) e.2 htype
  rw [he] at hreply
  refine ⟨replyMsg q (Call.stamped q a (.cookiesForUrl reqId url)) cookies, ?_,
    isReply_replyMsg _ _ _⟩
  rw [hgot, Service.mem_ofClient, Service.mem_answers]
  refine ⟨before.map fun e => (e.1.srcId, e.1, e.2), Call.stamped q a (.cookiesForUrl reqId url),
    e.2, rest.map fun e => (e.1.srcId, e.1, e.2), ?_, ?_⟩
  · rw [hserves.history, hsplit, List.map_append, List.map_cons, he]
    rfl
  · rw [after_eq]
    exact hreply

/-- What the server of the library has answered, as the client knows it. -/
theorem answered (hq : q.toQtVariants.Lawful) (hseq : Service.Sequential (serve q) db t)
    (hserves : Serves s t) (hkeeps : Keeps a s t) : Answered db s a := by
  have horder : messagesOf a s.history <+: (s.called a).map (Call.stamped q a) := by
    have hprefix := hseq.prefix_asked a
    rwa [hserves.history, ofClient_requests, hkeeps.asked] at hprefix
  refine { table := ?_, order := horder, distinct := hkeeps.distinct, returned := ?_,
           settled := ?_ }
  · rw [← hserves.store, hseq.store, hserves.history, after_eq]
  · intro e he
    obtain ⟨msg, hgot, ⟨-, hid⟩, htext⟩ := hkeeps.returned e he
    rw [htext, ← hid]
    obtain ⟨earlier, url, later, before, now, rest, hcalled, hhistory, hbefore, hreply⟩ :=
      reply_of_got hq hseq hserves hkeeps hgot
    exact ⟨earlier, url, later, before, now, rest, hcalled, hhistory, hbefore, by rw [hreply]⟩
  · intro hkernel hcookie hreplies hclient
    have hsettled := hseq.settled (c := a)
      (by rw [hserves.sent, hkernel]; rfl)
      (by rw [hserves.inbox]; exact ofClient_eq_nil hcookie)
      (by rw [hserves.arriving, hclient])
      (by rw [hserves.outbox]; exact ofClient_eq_nil hreplies)
    obtain ⟨hasked, hgot⟩ := hsettled
    have hall : messagesOf a s.history = (s.called a).map (Call.stamped q a) := by
      rw [← hkeeps.asked, hasked, hserves.history, ofClient_requests]
    refine ⟨hall, fun reqId hid => ?_⟩
    obtain ⟨c, hcalled, hc⟩ := List.mem_filterMap.mp hid
    cases c with
    | setCookiesFromUrl cookieList url => cases hc
    | cookiesForUrl reqId' url =>
        cases hc
        have hmem : Call.stamped q a (.cookiesForUrl reqId url) ∈ messagesOf a s.history := by
          rw [hall]
          exact List.mem_map_of_mem hcalled
        obtain ⟨msg, hmsg, htype, rfl⟩ := got_of_call hserves hgot hmem
        exact hkeeps.kept msg hmsg htype

end Answered

theorem serves_start {db : List Row} :
    Serves (q := q) { db } (Service.State.start db) where
  store := rfl
  sent _ := rfl
  inbox := rfl
  outbox := rfl
  arriving := rfl
  history := rfl
  incoming := List.forall_mem_nil _
  outgoing := List.forall_mem_nil _

theorem keeps_start {db : List Row} : Keeps (q := q) a { db } (Service.State.start db) where
  asked := rfl
  fresh := List.forall_mem_nil _
  distinct := List.nodup_nil
  inMap reqId text h := by simp at h
  returned := List.forall_mem_nil _
  kept := List.forall_mem_nil _

theorem keeps_run (db : List Row) (as : List (Action q.QUrl))
    (ha : a = networkId ∨ webappFirstId ≤ a) (h : Honest a as) :
    ∃ t, Service.Sequential (serve q) db t ∧ Serves (run db as) t ∧ Keeps a (run db as) t := by
  have hall : ∀ (as : List (Action q.QUrl)) (s : State q)
      (t : Service.State I32 Message Message ℤ (List Row)), Service.Sequential (serve q) db t →
      Serves s t → Keeps a s t → Honest a as →
      ∃ t, Service.Sequential (serve q) db t ∧ Serves (as.foldl step s) t ∧
        Keeps a (as.foldl step s) t := by
    intro as
    induction as with
    | nil => exact fun s t hseq hserves hkeeps _ => ⟨t, hseq, hserves, hkeeps⟩
    | cons x as ih =>
        intro s t hseq hserves hkeeps hhonest
        have hx : ∀ msg, x ≠ .send a msg := by
          rintro msg rfl
          exact hhonest msg List.mem_cons_self
        exact ih _ _ (hseq.steps (moves s x)) (hserves.step x) (hkeeps.step ha hserves hx)
          fun msg hmem => hhonest msg (List.mem_cons_of_mem x hmem)
  exact hall as _ _ Service.Sequential.init serves_start keeps_start h

/-- Whatever the other web apps send and in whatever order the kernel takes the messages, a
client that runs the code of the repository sees one store that serves its calls in order. -/
theorem answered_run (hq : q.toQtVariants.Lawful) (db : List Row) (as : List (Action q.QUrl))
    (ha : a = networkId ∨ webappFirstId ≤ a) (h : Honest a as) : Answered db (run db as) a := by
  obtain ⟨t, hseq, hserves, hkeeps⟩ := keeps_run db as ha h
  exact answered hq hseq hserves hkeeps

/-- Qt, as far as two hosts of a site and its cookie need it. -/
def siteQt : QtCookies where
  toQtVariants := Streams.variants
  toCookieEnv := CookieStore.sortedEnv
  parts (url : Bytes) :=
    if url = bytes "http://mail.site.com" then CookieStore.mailUrl else CookieStore.newsUrl

/-- A web app sets a cookie and asks for it, while another one writes what is not allowed. -/
def siteVisit : List (Action siteQt.QUrl) :=
  [.setCookiesFromUrl 1024 [CookieStore.siteCookie] (bytes "http://mail.site.com"),
    .send 1025 { dstId := cookieId, msgType := msgCookieSet },
    .cookiesForUrl 1024 (bytes "http://news.site.com"), .relay 1025, .relay 1024, .relay 1024,
    .readCookie 1, .readCookie 1, .relayReply, .readClient 1024, .takeCookies 1024 0]

theorem answered_run_visit :
    ((run [] siteVisit).clients 1024).returned = [(0, [CookieStore.siteCookieStored])] ∧
      Answered [] (run [] siteVisit) 1024 :=
  ⟨by decide +kernel, answered_run Streams.variants_lawful [] siteVisit (Or.inr (by decide))
    (by simp [Honest, siteVisit])⟩

end OpBrowser.Cookies
