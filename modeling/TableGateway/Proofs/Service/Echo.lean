import TableGateway.Proofs.Json.Ascii
import TableGateway.Proofs.Service.Failure
import TableGateway.Proofs.Service.Record

/-!
# Patches that are echoed

The response to a patch that was applied lists its operations in a header, as JSON in which all
characters beyond ASCII are escaped. Of the control characters, JSON escapes all but the last one in
ASCII, and no header can hold this one. So a patch with it in a path or a value is applied, but not
echoed; all other patches that are applied are echoed.
-/

namespace TableGateway

open Json (IsAscii inAscii readValue?)

namespace PatchOperation

variable {os : List PatchOperation} {text : String}

/-- A text that can be the value of a header, and that is read as the operations are when they are
written out. -/
structure IsEchoedBy (os : List PatchOperation) (text : String) : Prop where
  ascii : ∀ c ∈ text.toList, IsAscii c
  visible : text.toList.all Request.isVisible = true
  read : ∃ body, readValue? (listToDocument os).toText = some body ∧ readValue? text = some body

theorem headerText?_eq_some_iff :
    headerText? os = some text ↔
      '\x7f' ∉ (listToDocument os).write ∧
        text = String.ofList (inAscii (listToDocument os).write) := by
  rw [← Json.delete_mem_inAscii_iff, headerText?]
  change (if (inAscii (listToDocument os).write).contains '\x7f' = true then none
    else some (String.ofList (inAscii (listToDocument os).write))) = some text ↔ _
  split
  · next hDelete => simp [List.contains_iff_mem.mp hDelete]
  · next hDelete =>
    have hNot : '\x7f' ∉ inAscii (listToDocument os).write := fun hMem =>
      hDelete (List.contains_iff_mem.mpr hMem)
    rw [and_iff_right hNot, Option.some.injEq, eq_comm]

theorem isSome_headerText?_iff :
    (headerText? os).isSome = true ↔ '\x7f' ∉ (listToDocument os).write := by
  rw [Option.isSome_iff_exists]
  constructor
  · rintro ⟨text, hText⟩
    exact (headerText?_eq_some_iff.mp hText).1
  · intro h
    exact ⟨_, headerText?_eq_some_iff.mpr ⟨h, rfl⟩⟩

theorem isVisible_of_isPrintable {c : Char} (hPrintable : ' ' ≤ c) (hAscii : IsAscii c)
    (hDelete : c ≠ '\x7f') : Request.isVisible c = true := by
  have hBound : c.toNat < 128 := hAscii
  have hNot : c.toNat ≠ 127 := fun hEq => hDelete (Char.toNat_inj.mp hEq)
  have hTop : c ≤ '~' := by
    change c.toNat ≤ 126
    omega
  simp [Request.isVisible, hPrintable, hTop]

theorem isEchoedBy_headerText? (hValues : ∀ o ∈ os, ∀ v ∈ o.value, v.Denotes ∧ v.depth ≤ 125)
    (h : headerText? os = some text) : IsEchoedBy os text := by
  obtain ⟨hDelete, rfl⟩ := headerText?_eq_some_iff.mp h
  have hAscii : ∀ c ∈ inAscii (listToDocument os).write, IsAscii c := fun c =>
    Json.isAscii_of_mem_inAscii
  constructor
  case ascii =>
    rw [String.toList_ofList]
    exact hAscii
  case visible =>
    have hPrintable := Json.isPrintable_inAscii (listToDocument os).isPrintable_write
    rw [← Json.delete_mem_inAscii_iff] at hDelete
    rw [String.toList_ofList, List.all_eq_true]
    intro c hc
    apply isVisible_of_isPrintable (hPrintable c hc) (hAscii c hc)
    rintro rfl
    exact hDelete hc
  case read =>
    have hDenotes : (listToDocument os).Denotes :=
      denotes_listToDocument fun o ho v hv => (hValues o ho v hv).1
    have hShallow : (listToDocument os).depth ≤ Json.Document.maxDepth :=
      depth_listToDocument_le.mpr fun o ho v hv => (hValues o ho v hv).2
    obtain ⟨body, hBody⟩ :=
      Option.isSome_iff_exists.mp (Json.Document.isSome_readValue?_toText hDenotes hShallow)
    exact ⟨body, hBody, (Json.Document.readValue?_inAscii hDenotes).trans hBody⟩

end PatchOperation

theorem Exchange.patchChanges_ofRun (r : Request) (run : Except ServiceError Response × Session) :
    (Exchange.ofRun r run).response.patchChanges = (Response.ofOutcome run.1).patchChanges := by
  rw [ofRun]
  dsimp only
  split <;> rfl

namespace Server

open PatchOperation (headerText? listToDocument)

variable {s : Server} {p : Principal} {place : Call.Place}

theorem operations_of_prepare {call : Call} {task : Task} (hCall : call.operation = .patch)
    (h : s.prepare p place call = .ok task) :
    ∃ os e rows, call.operations = .ok os ∧ task = .patch e os rows := by
  obtain ⟨id, hPrepare⟩ := s.exists_preparePatch_eq p place hCall
  rw [hPrepare] at h
  obtain ⟨os, hOperations, h⟩ := Outcome.bind_eq_ok_iff.mp h
  obtain ⟨-, e, rows, -, -, -, -, rfl⟩ := preparePatch_eq_ok h
  exact ⟨os, e, rows, Outcome.mapError_eq_ok_iff.mp hOperations, rfl⟩

theorem patchChanges_runPatch {e : Entity} {os : List PatchOperation}
    {rows : List (SubPatch × Mutation)} {σ τ : Session} {response : Response}
    (h : (s.runPatch place e os rows).on σ = (.ok response, τ)) :
    response.patchChanges = headerText? os := by
  obtain ⟨patched, _, -, h⟩ := Action.on_bind_eq_ok_iff.mp h
  cases h
  rfl

theorem patchChanges_exchange {db : Database} {r : Request} {call : Call}
    (hCall : call.operation = .patch)
    (hInquiry : r.inquiry s.maxBodyBytes = .ok (.call place call))
    (hSuccess : (s.exchange db r).response.isSuccess = true) :
    ∃ os, call.operations = .ok os ∧
      (s.exchange db r).response.patchChanges = headerText? os := by
  cases hPrepare : s.prepare (s.trusted r.principal) place call with
  | error e =>
    rw [exchange_of_failure hInquiry hPrepare, Exchange.isSuccess_ofRun] at hSuccess
    cases (Response.isSuccess_ofError e).symm.trans hSuccess
  | ok task =>
    obtain ⟨os, e, rows, hOperations, rfl⟩ := operations_of_prepare hCall hPrepare
    have hEq : s.exchange db r =
        .ofRun r ((s.runPatch place e os rows).on { database := db }) :=
      exchange_of_task hInquiry hPrepare
    refine ⟨os, hOperations, ?_⟩
    rw [hEq, Exchange.isSuccess_ofRun] at hSuccess
    rw [hEq, Exchange.patchChanges_ofRun]
    cases hRun : (s.runPatch place e os rows).on { database := db } with
    | mk outcome τ =>
      rw [hRun] at hSuccess
      cases outcome with
      | error e => cases (Response.isSuccess_ofError e).symm.trans hSuccess
      | ok response => exact patchChanges_runPatch hRun

/-- The operations of a patch are carried out as the changes that it is split into. -/
theorem requests_of_operations {e : Entity} {cs : List (Change e)} {call : Call}
    {os : List PatchOperation} (hCall : call.operation = .patch)
    (hOperations : call.operations = .ok os)
    (h : call.rowRequests = .ok (cs.map Change.request)) :
    cs.map Change.request = (SubPatch.parts os).map .patch := by
  have hRequests : call.rowRequests = call.subPatches.map fun subs => subs.map .patch := by
    cases call with
    | patchMany | patchOne => rfl
    | _ => cases hCall
  rw [hRequests, Call.subPatches, hOperations] at h
  obtain ⟨subs, hSplit, hMap⟩ := Outcome.map_eq_ok_iff.mp h
  obtain ⟨-, rfl⟩ := SubPatch.split_eq_ok_iff.mp hSplit
  exact hMap.symm

/-- A patch that was applied is echoed, unless there is a character in it that no header can hold.
What is echoed are the operations that were carried out, one row after the other. -/
theorem patch_is_echoed_iff (s : Server) (db : Database) (r : Request)
    (hMethod : r.method = "PATCH") (hSuccess : (s.exchange db r).response.isSuccess = true) :
    ∃ (place : Call.Place) (call : Call) (os : List PatchOperation) (e : Entity)
      (cs : List (Change e)),
      r.inquiry s.maxBodyBytes = .ok (.call place call) ∧ call.operations = .ok os ∧
      cs.map Change.request = (SubPatch.parts os).map .patch ∧
      (s.exchange db r).log = .begin :: s.transcript place db cs ++ [.commit] ∧
      ((s.exchange db r).response.patchChanges.isSome = true ↔
        '\x7f' ∉ (listToDocument os).toText.toList) ∧
      ∀ text, (s.exchange db r).response.patchChanges = some text →
        PatchOperation.IsEchoedBy os text := by
  obtain ⟨inside, hTransacts, hInside⟩ := @transacts_of_method s db r (by simp [hMethod])
  have hCommits := hTransacts.succeeds_iff.mp hSuccess
  obtain ⟨place, call, e, cs, hInquiry, -, hRequests, -, rfl⟩ := hInside hCommits
  have hCall : call.operation = .patch := by
    have hMethods := (Request.inquiry_call hInquiry).2
    rw [hMethod] at hMethods
    cases call <;> simp [Call.methods, Call.operation] at hMethods ⊢
  obtain ⟨os, hOperations, hChanges⟩ := patchChanges_exchange hCall hInquiry hSuccess
  have hValues := (Request.isRead_of_inquiry hInquiry).value_of_operations hOperations
  refine ⟨place, call, os, e, cs, hInquiry, hOperations,
    requests_of_operations hCall hOperations hRequests, hTransacts.committed hCommits, ?_, ?_⟩
  · rw [hChanges, Json.Document.toText, String.toList_ofList]
    exact PatchOperation.isSome_headerText?_iff
  · intro text hText
    exact PatchOperation.isEchoedBy_headerText? hValues (hChanges.symm.trans hText)

def sampleNaming (name : String) : PatchOperation :=
  { sampleOperation "/a/Name" with value := some (.text name) }

/-- The sample item is given a name. -/
def sampleNamed (name : String) : Request :=
  { samplePatch with
    body := "[\x7b\"op\":\"replace\",\"path\":\"/Name\",\"value\":\"" ++ name ++ "\"\x7d]" }

def sampleNames (name : String) : Json :=
  .array [.object [("op", .text "replace"), ("path", .text "/Name"), ("value", .text name)]]

theorem inquiry_sampleNamed {name : String} (hName : name = "Zoë 😀" ∨ name = "\x7f") :
    (sampleNamed name).inquiry 100 =
      .ok (.call samplePlace (.patchOne "a" (sampleNames name))) := by
  have hJson : (sampleNamed name).json 100 = .ok (sampleNames name) := by
    have hType : (sampleNamed name).saysJson = true := by
      change samplePatch.saysJson = true
      decide +kernel
    have hLength : ¬ (sampleNamed name).bodyLimit 100 < (sampleNamed name).body.utf8ByteSize := by
      rcases hName with rfl | rfl <;> decide +kernel
    have hTokens : Json.tokens (sampleNamed name).body.toList =
        [.openArray, .openObject, .text (some "op"), .colon, .text (some "replace"), .comma,
          .text (some "path"), .colon, .text (some "/Name"), .comma, .text (some "value"), .colon,
          .text (some name), .closeObject, .closeArray] := by
      rcases hName with rfl | rfl <;>
        simp [sampleNamed, Json.tokens_cons, Json.scanToken, Json.scanString, Json.isSpace,
          Json.characters?, Json.tokens]
    refine json_of_tokens hType hLength hTokens ?_
    simp only [Json.Document.ofTokens?, Json.Document.itemsOfTokens?,
      Json.Document.membersOfTokens?]
    rcases hName with rfl | rfl <;> rfl
  have hCall : (sampleNamed name).resourceCall 100 "a" =
      .ok (.patchOne "a" (sampleNames name)) := by
    change ((sampleNamed name).json 100).map (Call.patchOne "a") = _
    rw [hJson]
    rfl
  refine inquiry_of_target rfl ?_ rfl hCall
  change samplePatch.declaredLength? = none
  decide +kernel

theorem operations_sampleNames {name : String} (hName : name = "Zoë 😀" ∨ name = "\x7f") :
    (Call.patchOne "a" (sampleNames name)).operations = .ok [sampleNaming name] := by
  rcases hName with rfl | rfl <;> rfl

theorem response_sampleNamed {name : String} (hName : name = "Zoë 😀" ∨ name = "\x7f") :
    (patchableShop.exchange sampleRows (sampleNamed name)).response.isSuccess = true ∧
      (patchableShop.exchange sampleRows (sampleNamed name)).response.patchChanges =
        headerText? [sampleNaming name] := by
  have hPrincipal : (sampleNamed name).principal = { user := some "carol" } := by
    change samplePatch.principal = _
    decide +kernel
  obtain ⟨task, hPrepare, hRun⟩ : ∃ task,
      patchableShop.prepare (patchableShop.trusted (sampleNamed name).principal) samplePlace
        (.patchOne "a" (sampleNames name)) = .ok task ∧
      (Response.ofOutcome
        ((patchableShop.run samplePlace task).on { database := sampleRows }).1).isSuccess =
          true := by
    rw [hPrincipal]
    rcases hName with rfl | rfl <;> exact ⟨_, rfl, rfl⟩
  have hSuccess :
      (patchableShop.exchange sampleRows (sampleNamed name)).response.isSuccess = true := by
    rw [exchange_of_task (inquiry_sampleNamed hName) hPrepare, Exchange.isSuccess_ofRun]
    exact hRun
  obtain ⟨os, hOperations, hChanges⟩ :=
    patchChanges_exchange rfl (inquiry_sampleNamed hName) hSuccess
  cases hOperations.symm.trans (operations_sampleNames hName)
  exact ⟨hSuccess, hChanges⟩

/-- A name beyond ASCII, and beyond the first plane, is echoed. -/
theorem sampleNamed_is_echoed :
    (sampleNamed "Zoë 😀").method = "PATCH" ∧
      (patchableShop.exchange sampleRows (sampleNamed "Zoë 😀")).response.isSuccess = true ∧
      ∃ text,
        (patchableShop.exchange sampleRows (sampleNamed "Zoë 😀")).response.patchChanges =
          some text ∧
        PatchOperation.IsEchoedBy [sampleNaming "Zoë 😀"] text := by
  obtain ⟨hSuccess, -⟩ := response_sampleNamed (.inl rfl)
  refine ⟨rfl, hSuccess, ?_⟩
  obtain ⟨place, call, os, e, cs, hInquiry, hOperations, -, -, hSome, hEchoed⟩ :=
    patch_is_echoed_iff patchableShop sampleRows (sampleNamed "Zoë 😀") rfl hSuccess
  cases hInquiry.symm.trans (inquiry_sampleNamed (.inl rfl))
  cases hOperations.symm.trans (operations_sampleNames (.inl rfl))
  obtain ⟨text, hText⟩ := Option.isSome_iff_exists.mp (hSome.mpr (by decide +kernel))
  exact ⟨text, hText, hEchoed text hText⟩

/-- A patch with the last control character is applied, and its operations are not echoed. -/
theorem controlName_is_not_echoed :
    (sampleNamed "\x7f").method = "PATCH" ∧
      (patchableShop.exchange sampleRows (sampleNamed "\x7f")).response.isSuccess = true ∧
      (patchableShop.exchange sampleRows (sampleNamed "\x7f")).response.patchChanges = none := by
  obtain ⟨hSuccess, hChanges⟩ := response_sampleNamed (.inr rfl)
  refine ⟨rfl, hSuccess, ?_⟩
  rw [hChanges]
  decide +kernel

end Server

end TableGateway
