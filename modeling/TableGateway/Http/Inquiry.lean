import TableGateway.Http.Request
import TableGateway.Http.Route
import TableGateway.Service.Response
import TableGateway.Service.Task

/-!
# Inquiries

What a request asks for. A request that asks for nothing sensible is refused with a status alone:
because of its declared length, its path, its method, or the bytes of its path, and then because of
the type, the length or the text of a body that has to be JSON.
-/

namespace TableGateway

inductive Inquiry
  | health
  | ready
  | version
  | call (place : Call.Place) (call : Call)

inductive Refusal
  | tooLong
  | noRoute
  | badMethod (allowed : List String)
  | badPath
  | notJson
  | badJson
deriving DecidableEq, Repr

def Refusal.response : Refusal → Response
  | .tooLong => { status := 413 }
  | .noRoute => { status := 404 }
  | .badMethod allowed => { status := 405, allow := some (",".intercalate allowed) }
  | .badPath => { status := 400 }
  | .notJson => { status := 415 }
  | .badJson => { status := 400 }

namespace Request

def segment (cs : List Char) : Except Refusal String :=
  match Uri.decodeSegment? cs with
  | some s => .ok s
  | none => .error .badPath

/-- The first JSON value of the body; what follows it is not looked at. -/
def json (r : Request) (most : Nat) : Except Refusal Json :=
  if !r.saysJson then .error .notJson
  else if r.bodyLimit most < r.body.utf8ByteSize then .error .tooLong
  else
    match Json.readFirstValue? r.body with
    | some body => .ok body
    | none => .error .badJson

def parameters (r : Request) : List (String × String) := Uri.parameters (Uri.query r.target)

def collectionCall (r : Request) (most : Nat) : Except Refusal Call :=
  match r.method with
  | "POST" => (r.json most).map .create
  | "PATCH" => (r.json most).map .patchMany
  | "OPTIONS" => .ok .options
  | _ => .ok (.list r.parameters)

def resourceCall (r : Request) (most : Nat) (id : String) : Except Refusal Call :=
  match r.method with
  | "PUT" => (r.json most).map (.replace id)
  | "PATCH" => (r.json most).map (.patchOne id)
  | "DELETE" => .ok (.delete id)
  | _ => .ok (.read id r.parameters)

def inquiryOn (r : Request) (most : Nat) : Route → Except Refusal Inquiry
  | .health => .ok .health
  | .ready => .ok .ready
  | .version => .ok .version
  | .collection domain entity => do
    let place : Call.Place := { domain := ← segment domain, entity := ← segment entity }
    .ok (.call place (← r.collectionCall most))
  | .resource domain entity id => do
    let place : Call.Place := { domain := ← segment domain, entity := ← segment entity }
    .ok (.call place (← r.resourceCall most (← segment id)))

/-- What is asked of a server that reads at most `most` bytes of a body. -/
def inquiry (r : Request) (most : Nat) : Except Refusal Inquiry :=
  if r.declaredLength?.any fun n => most < n then .error .tooLong
  else
    match Route.ofPath? (Uri.path r.target) with
    | none => .error .noRoute
    | some route =>
      if route.methods.contains r.method then r.inquiryOn most route
      else .error (.badMethod route.methods)

end Request

end TableGateway
