import OpBrowser.Model.Dispatcher

/-! # Waiting for cookies in a web app (webapp/op2/OpNetwork.cpp)

The dispatcher of `OpNetwork` among the other callers of `reqId`, with a record of the
requests for cookies and of what their calls have returned. -/

namespace OpBrowser.Dispatch

/-- `OpNetwork`, and what became of the requests for cookies. -/
structure OpNetwork where
  net : State := {}
  -- the ids of the requests, in the order in which they were sent
  requests : List I32 := []
  -- how many of them the cookie component has answered
  answered : ℕ := 0
  -- what the calls of `cookiesForUrl` have returned
  returned : List (I32 × Bytes) := []

namespace OpNetwork

/-- What can happen next. -/
inductive Event where
  /-- In the dispatcher. -/
  | own (a : Action)
  /-- `createRequest` takes a request id. -/
  | createRequest
  /-- The event loop runs a script that asks for cookies. -/
  | script
  deriving DecidableEq, Repr

def IsReply (msg : Message) : Prop := msg.msgType = msgDomCookieGetReturn

instance (msg : Message) : Decidable (IsReply msg) := inferInstanceAs (Decidable (_ = _))

variable (w : OpNetwork)

/-- The call of `cookiesForUrl`, with a note of its request. -/
def ask : OpNetwork :=
  { w with net := cookiesForUrl w.net, requests := w.requests ++ [w.net.reqId] }

/-- The end of a wait, with a note of what the call returns. -/
def reply (reqId : I32) (cookieStr : Bytes) : OpNetwork :=
  { w with
    net := replied .opNetwork w.net reqId
    returned := w.returned ++ [(reqId, cookieStr)] }

/-- One step of the innermost call. -/
def advance : OpNetwork :=
  match w.net.stack with
  | .wait reqId :: _ =>
      match w.net.cookieMap[reqId]? with
      | some cookieStr => reply w reqId cookieStr
      | none => w
  | _ => { w with net := Dispatch.advance .opNetwork w.net }

def step : Event → OpNetwork
  | .own .advance => advance w
  | .own .ask =>
      match w.net.stack with
      | .dispatchMsg msg :: _ => if IsReply msg then w else ask w
      | _ => w
  | .own (.arrive msg) =>
      { w with
        net := Dispatch.step .opNetwork w.net (.arrive msg)
        answered := if IsReply msg then w.answered + 1 else w.answered }
  | .own a => { w with net := Dispatch.step .opNetwork w.net a }
  | .createRequest => { w with net := { w.net with reqId := w.net.reqId + 1 } }
  | .script => if looping w.net then ask w else w

/-- A run from the start of the web app. -/
def run (es : List Event) : OpNetwork := es.foldl step {}

end OpNetwork

end OpBrowser.Dispatch
