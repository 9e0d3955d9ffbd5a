import OpBrowser.Library.Heap
import OpBrowser.Model.Access
import OpBrowser.Model.CookieStore
import OpBrowser.Model.Variants

/-! # The cookie component and its clients (cookie/CookieManager.cpp)

The network component (network/Manager.cpp) and the web apps (webapp/op2/OpNetwork.cpp) set
and get cookies through the kernel, which puts the id of the sender into every message and
checks the message. The database may hold rows from earlier sessions. -/

namespace OpBrowser

/-- What the component uses of Qt, with the parts of a URL as the store reads them. -/
structure QtCookies extends QtVariants, CookieEnv where
  parts : QUrl → OpBrowser.QUrl

namespace Cookies

variable (q : QtCookies)

/-- The raw forms of the cookies, joined by a comma and a space. -/
def cookieStr (cookies : List QNetworkCookie) : QString :=
  [QString.comma, 32].intercalate
    (cookies.map fun cookie => QString.fromAscii (q.toRawForm cookie))

/-! ### The cookie component -/

/-- `CookieManager::dispatchMsg`: the table afterwards, and the reply. -/
def dispatchMsg (db : List Row) (msg : Message) (now : ℤ) : List Row × Option Message :=
  if msg.msgType = msgCookieSet ∨ msg.msgType = msgDomCookieSet then
    let (var, data) := q.read msg.payload.data
    let url := q.toUrl var
    let (var, _) := q.read data
    let cookies := q.parseCookies (q.toString var).toLatin1
    if cookies ≠ [] then
      ((CookieStore.setCookiesFromUrl q.toCookieEnv db cookies (q.parts url) now).1, none)
    else (db, none)
  else if msg.msgType = msgCookieGet ∨ msg.msgType = msgDomCookieGet then
    let (var, _) := q.read msg.payload.data
    let (cookies, db) :=
      CookieStore.cookiesForUrl q.toCookieEnv db (q.parts (q.toUrl var)) now
    let retType :=
      if msg.msgType = msgDomCookieGet then msgDomCookieGetReturn else msgCookieGetReturn
    (db, some
      { srcId := cookieId
        dstId := msg.srcId
        msgType := retType
        msgValue := msg.msgValue
        payload := .ofBytes (q.write (q.ofString (cookieStr q cookies))) })
  else (db, none)

/-! ### The clients -/

/-- A call of a client. The id of a request stands in its message. -/
inductive Call (QUrl : Type) where
  | setCookiesFromUrl (cookieList : List QNetworkCookie) (url : QUrl)
  | cookiesForUrl (reqId : I32) (url : QUrl)

/-- The message that a call writes: that of `Manager` in the network component, and that of
`OpNetwork` in a web app. -/
def Call.msg (a : I32) : Call q.QUrl → Message
  | .setCookiesFromUrl cookieList url =>
      { srcId := if a = networkId then networkId else -1
        dstId := cookieId
        msgType := if a = networkId then msgCookieSet else msgDomCookieSet
        payload := .ofBytes (q.write (q.ofUrl url) ++
          q.write (q.ofString (cookieStr q cookieList))) }
  | .cookiesForUrl reqId url =>
      { srcId := if a = networkId then networkId else -1
        dstId := cookieId
        msgType := if a = networkId then msgCookieGet else msgDomCookieGet
        msgValue := reqId
        payload := .ofBytes (q.write (q.ofUrl url)) }

/-- The answer for which `dispatchMsg` of a client calls `handleCookieMap`. -/
def returnType (a : I32) : I32 :=
    if a = networkId then msgCookieGetReturn else msgDomCookieGetReturn

/-- What a client keeps for its calls of `cookiesForUrl`. -/
structure Client where
  reqId : I32 := 0
  cookieMap : OrdMap I32 QString := ∅
  -- what the calls have returned
  returned : List (I32 × List QNetworkCookie) := []

/-- `handleCookieMap` -/
def handleCookieMap (w : Client) (msg : Message) : Client :=
  let (var, _) := q.read msg.payload.data
  { w with cookieMap := w.cookieMap.insert msg.msgValue (q.toString var) }

/-- The end of `cookiesForUrl`, which waits until its answer is in the map. -/
def takeCookies (w : Client) (reqId : I32) : Client :=
  match w.cookieMap[reqId]? with
  | some text =>
      { w with
        cookieMap := w.cookieMap.erase reqId
        returned := w.returned ++ [(reqId, q.parseCookies text.toLatin1)] }
  | none => w

/-! ### All of them -/

structure State where
  db : List Row
  clients : I32 → Client := fun _ => {}
  -- the pipes to and from the kernel
  toKernel : I32 → List Message := fun _ => []
  toCookie : List Message := []
  fromCookie : List Message := []
  toClient : I32 → List Message := fun _ => []
  -- what was called, and what was dispatched at which time, in this order
  called : I32 → List (Call q.QUrl) := fun _ => []
  history : List (Message × ℤ) := []

variable {q}

variable (s : State q)

def setClient (a : I32) (w : Client) : State q :=
  { s with clients := Function.update s.clients a w }

/-- A client writes a message. -/
def write (a : I32) (msg : Message) : State q :=
  { s with toKernel := Function.update s.toKernel a (s.toKernel a ++ [msg]) }

def call (a : I32) (c : Call q.QUrl) : State q :=
  { write s a (c.msg q a) with called := Function.update s.called a (s.called a ++ [c]) }

/-- The kernel has read a message of this component. -/
def stamp (a : I32) (msg : Message) : Message := { msg with srcId := a }

/-- The message goes on to the cookie component. -/
def forCookies (msg : Message) : Bool :=
  msg.dstId = cookieId && AccessControl.create.checkWrite msg

/-- What can happen next. -/
inductive Action (QUrl : Type) where
  | setCookiesFromUrl (a : I32) (cookieList : List QNetworkCookie) (url : QUrl)
  | cookiesForUrl (a : I32) (url : QUrl)
  /-- Another request of the client takes an id. -/
  | takeId (a : I32)
  /-- A web app that runs other code writes what it likes. -/
  | send (a : I32) (msg : Message)
  /-- The kernel reads the pipe of a client, or that of the cookie component. -/
  | relay (a : I32)
  | relayReply
  /-- The cookie component reads a message. -/
  | readCookie (now : ℤ)
  | readClient (a : I32)
  /-- A call of `cookiesForUrl` looks for its answer. -/
  | takeCookies (a reqId : I32)

def step (s : State q) : Action q.QUrl → State q
  | .setCookiesFromUrl a cookieList url => call s a (.setCookiesFromUrl cookieList url)
  | .cookiesForUrl a url =>
      let w := s.clients a
      call (setClient s a { w with reqId := w.reqId + 1 }) a (.cookiesForUrl w.reqId url)
  | .takeId a => setClient s a { s.clients a with reqId := (s.clients a).reqId + 1 }
  | .send a msg => write s a msg
  | .relay a =>
      match s.toKernel a with
      | msg :: rest =>
          let s := { s with toKernel := Function.update s.toKernel a rest }
          if forCookies (stamp a msg) then { s with toCookie := s.toCookie ++ [stamp a msg] } else s
      | [] => s
  | .relayReply =>
      match s.fromCookie with
      | msg :: rest =>
          let s := { s with fromCookie := rest }
          if AccessControl.create.checkWrite (stamp cookieId msg) then
            { s with
              toClient := Function.update s.toClient msg.dstId
                (s.toClient msg.dstId ++ [stamp cookieId msg]) }
          else s
      | [] => s
  | .readCookie now =>
      match s.toCookie with
      | msg :: rest =>
          let (db, reply) := dispatchMsg q s.db msg now
          { s with
            db
            toCookie := rest
            fromCookie := s.fromCookie ++ reply.toList
            history := s.history ++ [(msg, now)] }
      | [] => s
  | .readClient a =>
      match s.toClient a with
      | msg :: rest =>
          let s := { s with toClient := Function.update s.toClient a rest }
          if msg.msgType = returnType a then setClient s a (handleCookieMap q (s.clients a) msg)
          else s
      | [] => s
  | .takeCookies a reqId => setClient s a (Cookies.takeCookies q (s.clients a) reqId)

/-- A run that starts with this table. -/
def run (db : List Row) (as : List (Action q.QUrl)) : State q := as.foldl step { db }

end Cookies

end OpBrowser
