import TableGateway.Audit.Log
import TableGateway.Query.Plan

/-!
# Settings

The settings of the server, read from variables. A blank variable counts as missing; numbers may
have blanks around them.
-/

namespace TableGateway

structure Settings where
  writerUrl : String
  readerUrl : String
  catalogPath : String
  grantsPath : Option String
  bindAddress : String
  limits : PagingLimits
  audit : AuditTable
  timeoutSeconds : Nat
  maxBodyBytes : Nat
  trustRoleHeaders : Bool
deriving DecidableEq, Repr

inductive SettingFault
  | missing
  | notNumber (value : String)
  | notBoolean (value : String)
  | badLimits (greatest : Int)
deriving DecidableEq, Repr

structure SettingError where
  key : String
  fault : SettingFault
deriving DecidableEq, Repr

def SettingFault.message : SettingFault → String
  | .missing => "must be set"
  | .notNumber value => s!"'{value}' is not a valid number"
  | .notBoolean value => s!"'{value}' is not a boolean"
  | .badLimits greatest => s!"must be between 1 and the max record limit ({greatest})"

def SettingError.message (e : SettingError) : String :=
  s!"invalid setting {e.key}: {e.fault.message}"

namespace Settings

abbrev Variables := List (String × String)

namespace Variables

/-- The value that was set last, unless it is blank. -/
def get? (vs : Variables) (key : String) : Option String :=
  ((vs.reverse.find? fun v => v.1 = key).map Prod.snd).filter fun s => !Text.isBlankText s

def number {α : Type} (vs : Variables) (key : String) (default : α)
    (read : List Char → Option α) : Except SettingError α :=
  match vs.get? key with
  | none => .ok default
  | some s =>
    match read (Text.trim s.toList) with
    | some n => .ok n
    | none => .error ⟨key, .notNumber s⟩

def flag (vs : Variables) (key : String) (default : Bool) : Except SettingError Bool :=
  match vs.get? key with
  | none => .ok default
  | some s =>
    match Text.lowered (Text.trimmed s) with
    | "true" | "1" | "yes" => .ok true
    | "false" | "0" | "no" => .ok false
    | _ => .error ⟨key, .notBoolean s⟩

def required (vs : Variables) (key : String) : Except SettingError String :=
  match vs.get? key with
  | some s => .ok s
  | none => .error ⟨key, .missing⟩

def limits (vs : Variables) : Except SettingError PagingLimits := do
  let defaults : PagingLimits := {}
  let least ← vs.number "DBREST_MIN_RECORD_LIMIT" defaults.least Numeral.readInt64?
  let greatest ← vs.number "DBREST_MAX_RECORD_LIMIT" defaults.greatest Numeral.readInt64?
  if least < 1 ∨ greatest < least then
    .error ⟨"DBREST_MIN_RECORD_LIMIT", .badLimits greatest⟩
  else .ok ⟨least, greatest⟩

end Variables

def ofVariables (vs : Variables) : Except SettingError Settings := do
  let writerUrl ← vs.required "DATABASE_URL"
  let limits ← vs.limits
  let defaultTable : AuditTable := {}
  let timeoutSeconds ← vs.number "DBREST_REQUEST_TIMEOUT_SECS" 30 Numeral.readUInt64?
  let maxBodyBytes ← vs.number "DBREST_MAX_BODY_BYTES" (2 * 1024 * 1024) Numeral.readUInt64?
  let trustRoleHeaders ← vs.flag "DBREST_TRUST_ROLE_HEADERS" true
  .ok
    { writerUrl
      readerUrl := (vs.get? "DATABASE_READ_URL").getD writerUrl
      catalogPath := (vs.get? "DBREST_CATALOG_PATH").getD "catalog.json"
      grantsPath := vs.get? "DBREST_GRANTS_PATH"
      bindAddress := (vs.get? "DBREST_BIND_ADDR").getD "0.0.0.0:3000"
      limits
      audit :=
        { schema := (vs.get? "DBREST_AUDIT_SCHEMA").getD defaultTable.schema
          table := (vs.get? "DBREST_AUDIT_TABLE").getD defaultTable.table }
      timeoutSeconds
      maxBodyBytes
      trustRoleHeaders }

end Settings

end TableGateway
