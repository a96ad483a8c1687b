import TableGateway.Http.Inquiry
import TableGateway.Service.Run

/-!
# Answers

A server answers every request with one response. A failure of the service is a response of its
own, and `HEAD` has the response to `GET` without the text of its body.
-/

namespace TableGateway

namespace Server

open Json

variable (s : Server)

/-- The name under which the program reports itself. -/
def programName : String := "dbrest"

def programVersion : String := "0.1.0"

def healthResponse : Response := .json 200 (.object [(some "status", .text "ok")])

/-- Both pools are asked, even if the first one does not answer. -/
def readyResponse : Action Response := do
  let reader ← answers .read
  let writer ← answers .write
  let word (up : Bool) : Document := .text (if up then "ok" else "unavailable")
  let up := reader && writer
  pure
    (.json (if up then 200 else 503)
      (.object
        [(some "status", .text (if up then "ok" else "degraded")), (some "reader", word reader),
          (some "writer", word writer)]))

def versionResponse : Response :=
  .json 200
    (.object
      [(some "name", .text programName), (some "version", .text programVersion),
        (some "entities", .number (.int s.catalog.entities.length))])

/-- The caller as the gate sees it. -/
def trusted (p : Principal) : Principal := if s.trustRoleHeaders then p else { p with roles := [] }

def answerCall (p : Principal) (place : Call.Place) (call : Call) : Action Response := do
  let task ← Action.ofExcept (s.prepare (s.trusted p) place call)
  s.run place task

def answer (p : Principal) : Inquiry → Action Response
  | .health => pure healthResponse
  | .ready => readyResponse
  | .version => pure s.versionResponse
  | .call place call => s.answerCall p place call

def respondTo (p : Principal) (inquiry : Inquiry) : StateM Session Response := do
  match ← (s.answer p inquiry).run with
  | .ok response => pure response
  | .error e => pure (.ofError e)

def respond (r : Request) : StateM Session Response := do
  match r.inquiry s.maxBodyBytes with
  | .error refusal => pure refusal.response
  | .ok inquiry =>
    let response ← s.respondTo r.principal inquiry
    pure (if r.method = "HEAD" then response.withoutText else response)

end Server

end TableGateway
