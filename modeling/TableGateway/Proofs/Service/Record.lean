import TableGateway.Proofs.Patch.Plain
import TableGateway.Proofs.Patch.Reread
import TableGateway.Proofs.Service.Atomicity

/-!
# Records of changes

What is recorded of a change is a patch, and the row that was changed should be found in it again.
A part of a patch is recorded with the paths that it came with. Other changes are recorded with
paths of their own, in which ids and keys stand as they are: they are found again when nothing in
them is taken for a slash or for an escape, and the values are not nested too deep to be read.
-/

namespace TableGateway

open PatchOperation (listToDocument ofCreated ofReplaced ofDeleted segments rawSegments readText?
  readText?_toText IsAbout isAbout_iff)

/-- What a column can hold: integers have 64 bits. -/
def Cell.InRange : Cell → Prop
  | .int16 n | .int32 n | .int64 n => -2 ^ 63 ≤ n ∧ n < 2 ^ 63
  | _ => True

def Reply.InRange : Reply → Prop
  | .rows _ content => ∀ cells ∈ content, ∀ c ∈ cells, c.InRange
  | _ => True

namespace Json

theorem denotes_ofInt {n : Int} (h : -2 ^ 63 ≤ n ∧ n < 2 ^ 63) : (ofInt n).Denotes := by
  constructor
  · exact h.1
  · omega

theorem denotes_ofBinary64 (x : Binary64) : (ofBinary64 x).Denotes := by
  rw [ofBinary64]
  split
  · next hFinite => exact hFinite
  · trivial

end Json

theorem Cell.denotes_toJson {c : Cell} (h : c.InRange) : c.toJson.Denotes := by
  cases c with
  | int16 | int32 | int64 => exact Json.denotes_ofInt h
  | float32 | float64 => exact Json.denotes_ofBinary64 _
  | json s =>
    rw [toJson]
    cases hRead : Json.readValue? s with
    | none => trivial
    | some j => exact (Json.of_readValue? hRead).1
  | date days =>
    rw [toJson, dateJson]
    split <;> trivial
  | timestamp micros | timestampTz micros =>
    rw [toJson, instantJson]
    split <;> trivial
  | _ => trivial

theorem Reply.denotes_row {reply : Reply} (h : reply.InRange) : reply.row.Denotes := by
  cases reply with
  | affected | refused => trivial
  | rows columns content =>
    cases content with
    | nil => trivial
    | cons cells content =>
      have hCells : ∀ c ∈ cells, c.InRange := h cells List.mem_cons_self
      change (rowJson columns cells).Denotes
      rw [rowJson, Json.ofMembers, Json.denotes_object]
      intro m hm
      have hValue : m.2 ∈ cells.map Cell.toJson :=
        (List.of_mem_zip (Json.mem_of_mem_sortMembers hm)).2
      obtain ⟨c, hc, hEq⟩ := List.mem_map.mp hValue
      exact hEq ▸ Cell.denotes_toJson (hCells c hc)

namespace Call

def body? : Call → Option Json
  | .create body | .replace _ body | .patchMany body | .patchOne _ body => some body
  | .list _ | .read .. | .delete _ | .options => none

/-- Its body was read from a text. -/
def IsRead (call : Call) : Prop :=
  ∀ body ∈ call.body?, body.Denotes ∧ body.depth ≤ Json.Document.maxDepth

/-- The values of a patch stay when an id is put in front of the paths. -/
theorem IsRead.value_of_operations {call : Call} {os : List PatchOperation} (hRead : call.IsRead)
    (h : call.operations = .ok os) : ∀ o ∈ os, ∀ v ∈ o.value, v.Denotes ∧ v.depth ≤ 125 := by
  cases call with
  | patchMany body =>
    obtain ⟨hDenotes, hDepth⟩ := hRead body rfl
    exact PatchOperation.value_of_readAll h hDenotes hDepth
  | patchOne id body =>
    obtain ⟨given, hGiven, rfl⟩ := Outcome.map_eq_ok_iff.mp h
    obtain ⟨hDenotes, hDepth⟩ := hRead body rfl
    rw [List.forall_mem_map]
    exact PatchOperation.value_of_readAll hGiven hDenotes hDepth
  | _ =>
    cases h
    exact nofun

end Call

namespace Request

variable {r : Request} {most : Nat} {call : Call}

theorem of_json {body : Json} (h : r.json most = .ok body) :
    body.Denotes ∧ body.depth ≤ Json.Document.maxDepth := by
  rw [json] at h
  split at h
  · cases h
  · split at h
    · cases h
    · split at h
      · next found hFound =>
        cases h
        exact Json.of_readFirstValue? hFound
      · cases h

theorem isRead_of_none (h : call.body? = none) : call.IsRead := by
  intro body hBody
  rw [h] at hBody
  cases hBody

theorem isRead_of_json {ofBody : Json → Call} (hBody : ∀ body, (ofBody body).body? = some body)
    (h : (r.json most).map ofBody = .ok call) : call.IsRead := by
  obtain ⟨body, hRead, rfl⟩ := Outcome.map_eq_ok_iff.mp h
  intro found hFound
  rw [hBody] at hFound
  cases hFound
  exact of_json hRead

theorem isRead_of_collectionCall (h : r.collectionCall most = .ok call) : call.IsRead := by
  rw [collectionCall] at h
  split at h
  · exact isRead_of_json (fun _ => rfl) h
  · exact isRead_of_json (fun _ => rfl) h
  · cases h
    exact isRead_of_none rfl
  · cases h
    exact isRead_of_none rfl

theorem isRead_of_resourceCall {id : String} (h : r.resourceCall most id = .ok call) :
    call.IsRead := by
  rw [resourceCall] at h
  split at h
  · exact isRead_of_json (fun _ => rfl) h
  · exact isRead_of_json (fun _ => rfl) h
  · cases h
    exact isRead_of_none rfl
  · cases h
    exact isRead_of_none rfl

theorem isRead_of_inquiryOn {route : Route} {place : Call.Place}
    (h : r.inquiryOn most route = .ok (.call place call)) : call.IsRead := by
  cases route with
  | health | ready | version => cases h
  | collection domain entity =>
    obtain ⟨_, -, h⟩ := Outcome.bind_eq_ok_iff.mp h
    obtain ⟨_, -, h⟩ := Outcome.bind_eq_ok_iff.mp h
    obtain ⟨found, hCall, h⟩ := Outcome.bind_eq_ok_iff.mp h
    cases h
    exact isRead_of_collectionCall hCall
  | resource domain entity segment =>
    obtain ⟨_, -, h⟩ := Outcome.bind_eq_ok_iff.mp h
    obtain ⟨_, -, h⟩ := Outcome.bind_eq_ok_iff.mp h
    obtain ⟨_, -, h⟩ := Outcome.bind_eq_ok_iff.mp h
    obtain ⟨found, hCall, h⟩ := Outcome.bind_eq_ok_iff.mp h
    cases h
    exact isRead_of_resourceCall hCall

theorem isRead_of_inquiry {place : Call.Place} (h : r.inquiry most = .ok (.call place call)) :
    call.IsRead := by
  rw [inquiry] at h
  split at h
  · cases h
  · split at h
    · cases h
    · split at h
      · exact isRead_of_inquiryOn h
      · cases h

end Request

namespace RowRequest

variable {e : Entity} {q : RowRequest} {reply : Reply}

/-- What it holds can be written down, and an operation in it is on the row that it is about. -/
def IsSound : RowRequest → Prop
  | .create _ | .delete _ => True
  | .replace _ body => body.Denotes
  | .patch sub => ∀ o ∈ sub.operations, o.id = sub.id ∧ ∀ v ∈ o.value, v.Denotes ∧ v.depth ≤ 125

theorem isSound_of_split {os : List PatchOperation} {subs : List SubPatch}
    (h : SubPatch.split os = .ok subs)
    (hValues : ∀ o ∈ os, ∀ v ∈ o.value, v.Denotes ∧ v.depth ≤ 125) :
    ∀ sub ∈ subs, (patch sub).IsSound := by
  obtain ⟨-, rfl⟩ := SubPatch.split_eq_ok_iff.mp h
  intro sub hSub o ho
  obtain ⟨first, -, rfl⟩ := SubPatch.mem_parts_iff.mp hSub
  obtain ⟨hMem, hId⟩ := List.mem_filter.mp ho
  exact ⟨of_decide_eq_true hId, hValues o hMem⟩

theorem isSound_of_operations {call : Call} {os : List PatchOperation} {qs : List RowRequest}
    (hOperations : call.operations = .ok os)
    (hValues : ∀ o ∈ os, ∀ v ∈ o.value, v.Denotes ∧ v.depth ≤ 125)
    (h : call.subPatches.map (fun subs => subs.map patch) = .ok qs) : ∀ q ∈ qs, q.IsSound := by
  obtain ⟨subs, hSubs, rfl⟩ := Outcome.map_eq_ok_iff.mp h
  rw [Call.subPatches, hOperations] at hSubs
  intro q hq
  obtain ⟨sub, hSub, rfl⟩ := List.mem_map.mp hq
  exact isSound_of_split hSubs hValues sub hSub

theorem isSound_of_rowRequests {call : Call} {qs : List RowRequest} (hRead : call.IsRead)
    (h : call.rowRequests = .ok qs) : ∀ q ∈ qs, q.IsSound := by
  cases call with
  | list | read | options =>
    cases h
    exact nofun
  | create body =>
    intro q hq
    cases body with
    | array bodies =>
      cases h
      obtain ⟨body, -, rfl⟩ := List.mem_map.mp hq
      trivial
    | _ =>
      cases h
      obtain rfl := List.mem_singleton.mp hq
      trivial
  | replace id body =>
    cases h
    intro q hq
    obtain rfl := List.mem_singleton.mp hq
    exact (hRead body rfl).1
  | delete id =>
    cases h
    intro q hq
    obtain rfl := List.mem_singleton.mp hq
    trivial
  | patchMany | patchOne =>
    obtain ⟨subs, hSubs, -⟩ := Outcome.map_eq_ok_iff.mp h
    obtain ⟨os, hOperations, -⟩ := Outcome.bind_eq_ok_iff.mp hSubs
    exact isSound_of_operations hOperations (hRead.value_of_operations hOperations) h

/-- The text is a patch of the row alone. What is replaced is found in it by the id and the key. -/
def IsRecordedBy (e : Entity) (reply : Reply) (text : String) (q : RowRequest) : Prop :=
  IsAbout (q.resource e reply) text ∧
    ∀ id body, q = .replace id body →
      ∃ os, readText? text = some os ∧ os.map segments = body.members.map fun m => [id, m.1]

/-- What is put into paths stands there as it is, and no value is nested too deep. -/
def IsPlain (e : Entity) (reply : Reply) : RowRequest → Prop
  | .create _ => PatchOperation.IsPlain (e.keyText reply.row) ∧ reply.row.depth ≤ 125
  | .replace id body => ∀ m ∈ body.members,
    PatchOperation.IsPlain id ∧ PatchOperation.IsPlain m.1 ∧ m.2.depth ≤ 125
  | .patch _ => True
  | .delete id => PatchOperation.IsPlain id

theorem isAbout_ofCreated {id : String} {row : Json} (h : row.Denotes) (hId : id ≠ "") :
    IsAbout id (listToDocument (ofCreated id row)).toText ↔
      PatchOperation.IsPlain id ∧ row.depth ≤ 125 := by
  have hValues : ∀ o ∈ ofCreated id row, ∀ v ∈ o.value, v.Denotes := by
    intro o ho v hv
    obtain rfl := List.mem_singleton.mp ho
    cases hv
    exact h
  rw [isAbout_iff hValues hId, ofCreated, List.forall_mem_singleton, List.forall_mem_singleton,
    PatchOperation.id_eq_iff rfl, and_comm]
  simp

theorem isAbout_ofDeleted {id : String} (hId : id ≠ "") :
    IsAbout id (listToDocument (ofDeleted id)).toText ↔ PatchOperation.IsPlain id := by
  have hValues : ∀ o ∈ ofDeleted id, ∀ v ∈ o.value, v.Denotes := by
    intro o ho v hv
    obtain rfl := List.mem_singleton.mp ho
    cases hv
  rw [isAbout_iff hValues hId, ofDeleted, List.forall_mem_singleton, List.forall_mem_singleton,
    PatchOperation.id_eq_iff rfl]
  simp

theorem map_segments_ofReplaced (id : String) (members : List (String × Json)) :
    (ofReplaced id members).map segments =
      members.map fun m => rawSegments id ++ rawSegments m.1 := by
  rw [ofReplaced, List.map_map]
  exact List.map_congr_left fun m _ => PatchOperation.segments_of_id_key rfl

theorem isRecorded_ofReplaced {id : String} {members : List (String × Json)}
    (h : ∀ m ∈ members, m.2.Denotes) (hId : id ≠ "") :
    (IsAbout id (listToDocument (ofReplaced id members)).toText ∧
      ∃ os, readText? (listToDocument (ofReplaced id members)).toText = some os ∧
        os.map segments = members.map fun m => [id, m.1]) ↔
      ∀ m ∈ members,
        PatchOperation.IsPlain id ∧ PatchOperation.IsPlain m.1 ∧ m.2.depth ≤ 125 := by
  have hValues : ∀ o ∈ ofReplaced id members, ∀ v ∈ o.value, v.Denotes := by
    intro o ho v hv
    obtain ⟨m, hm, rfl⟩ := List.mem_map.mp ho
    cases hv
    exact h m hm
  have hDepths : (∀ o ∈ ofReplaced id members, ∀ v ∈ o.value, v.depth ≤ 125) ↔
      ∀ m ∈ members, m.2.depth ≤ 125 := by
    rw [ofReplaced, List.forall_mem_map]
    simp
  have hSegments : (ofReplaced id members).map segments = (members.map fun m => [id, m.1]) ↔
      ∀ m ∈ members, PatchOperation.IsPlain id ∧ PatchOperation.IsPlain m.1 := by
    rw [map_segments_ofReplaced, List.map_inj_left]
    exact forall₂_congr fun m _ => PatchOperation.rawSegments_append id m.1
  constructor
  · rintro ⟨hAbout, os, hRead, hFound⟩ m hm
    have hShallow := ((isAbout_iff hValues hId).mp hAbout).1
    obtain ⟨os', hReread, hPaths⟩ := readText?_toText hValues hShallow
    obtain rfl := Option.some.inj (hRead.symm.trans hReread)
    rw [PatchOperation.map_segments_of_paths hPaths, hSegments] at hFound
    exact ⟨(hFound m hm).1, (hFound m hm).2, hDepths.mp hShallow m hm⟩
  · intro hPlain
    have hShallow := hDepths.mpr fun m hm => (hPlain m hm).2.2
    have hFound := hSegments.mpr fun m hm => ⟨(hPlain m hm).1, (hPlain m hm).2.1⟩
    obtain ⟨os, hRead, hPaths⟩ := readText?_toText hValues hShallow
    refine ⟨(isAbout_iff hValues hId).mpr ⟨hShallow, ?_⟩, os, hRead, ?_⟩
    · intro o ho
      have hMem : o.segments ∈ members.map fun m => [id, m.1] :=
        hFound ▸ List.mem_map_of_mem ho
      obtain ⟨m, -, hEq⟩ := List.mem_map.mp hMem
      rw [PatchOperation.id, ← hEq]
      rfl
    · rw [PatchOperation.map_segments_of_paths hPaths, hFound]

/-- A row is found again in what was recorded of it exactly when its record is plain. -/
theorem isRecordedBy_iff (hSound : q.IsSound) (hReply : reply.InRange)
    (hId : q.resource e reply ≠ "") :
    q.IsRecordedBy e reply (listToDocument (q.operations e reply)).toText ↔ q.IsPlain e reply := by
  cases q with
  | create body =>
    rw [IsRecordedBy, and_iff_left nofun]
    exact isAbout_ofCreated (Reply.denotes_row hReply) hId
  | replace id body =>
    have hMembers : ∀ m ∈ body.members, m.2.Denotes := by
      cases body with
      | object members => exact Json.denotes_object.mp hSound
      | _ => exact nofun
    refine Iff.trans ?_ (isRecorded_ofReplaced hMembers hId)
    constructor
    · rintro ⟨hAbout, hFound⟩
      exact ⟨hAbout, hFound id body rfl⟩
    · rintro ⟨hAbout, hFound⟩
      refine ⟨hAbout, ?_⟩
      rintro _ _ ⟨⟩
      exact hFound
  | patch sub =>
    rw [IsRecordedBy, and_iff_left nofun]
    have hValues : ∀ o ∈ sub.operations, ∀ v ∈ o.value, v.Denotes :=
      fun o ho v hv => ((hSound o ho).2 v hv).1
    refine iff_of_true ((isAbout_iff hValues hId).mpr ⟨?_, ?_⟩) trivial
    · exact fun o ho v hv => ((hSound o ho).2 v hv).2
    · exact fun o ho => (hSound o ho).1
  | delete id =>
    rw [IsRecordedBy, and_iff_left nofun]
    exact isAbout_ofDeleted hId

end RowRequest

namespace Server

/-- Of all changes that are committed, whatever the database answers, those with a plain record are
found again in the audit log, and no others. -/
theorem records_are_read_back (s : Server) (db : Database) (r : Request)
    (hMethod : r.method ∈ ["POST", "PUT", "PATCH", "DELETE"])
    (hCommits : db.commits (s.exchange db r).log) :
    ∃ (place : Call.Place) (call : Call) (e : Entity) (cs : List (Change e)),
      r.inquiry s.maxBodyBytes = .ok (.call place call) ∧
      s.catalog.entity? place.domain place.entity = some e ∧
      call.rowRequests = .ok (cs.map Change.request) ∧
      (s.exchange db r).log = .begin :: s.transcript place db cs ++ [.commit] ∧
      ∀ c ∈ cs, ∀ reply : Reply, reply.InRange → c.request.resource e reply ≠ "" →
        (c.request.IsRecordedBy e reply (s.eventOf place e c.request reply).patch ↔
          c.request.IsPlain e reply) := by
  obtain ⟨inside, hTransacts, hInside⟩ := @transacts_of_method s db r hMethod
  obtain ⟨place, call, e, cs, hInquiry, hEntity, hRequests, -, rfl⟩ := hInside hCommits
  refine ⟨place, call, e, cs, hInquiry, hEntity, hRequests, hTransacts.committed hCommits, ?_⟩
  intro c hc reply hReply hId
  have hSound : c.request.IsSound := RowRequest.isSound_of_rowRequests
    (Request.isRead_of_inquiry hInquiry) hRequests _ (List.mem_map_of_mem hc)
  exact RowRequest.isRecordedBy_iff hSound hReply hId

/-- The deletion of the sample item is found again. -/
theorem sampleDeletion_is_read_back :
    (sampleRequest "DELETE").method ∈ ["POST", "PUT", "PATCH", "DELETE"] ∧
    Database.commits { replies := [.affected 1] }
      (sampleShop.exchange { replies := [.affected 1] } (sampleRequest "DELETE")).log ∧
    (RowRequest.delete "a").IsRecordedBy sampleItems (.affected 1)
      (sampleShop.eventOf samplePlace sampleItems (.delete "a") (.affected 1)).patch := by
  have hLog : (sampleShop.exchange { replies := [.affected 1] } (sampleRequest "DELETE")).log =
      [.begin, .statement .write sampleDeletion, .statement .write sampleRecord, .commit] := by
    rw [exchange_sampleDeletion]
    rfl
  have hMethod : (sampleRequest "DELETE").method ∈ ["POST", "PUT", "PATCH", "DELETE"] := by decide
  have hCommits : Database.commits { replies := [.affected 1] }
      (sampleShop.exchange { replies := [.affected 1] } (sampleRequest "DELETE")).log :=
    ⟨by simp [hLog], rfl⟩
  refine ⟨hMethod, hCommits, ?_⟩
  obtain ⟨place, call, e, cs, hInquiry, hEntity, hRequests, -, hRecords⟩ :=
    records_are_read_back _ _ _ hMethod hCommits
  have hSame : Inquiry.call place call = .call samplePlace (.delete "a") :=
    Except.ok.inj (hInquiry.symm.trans (inquiry_sampleRequest (by decide) rfl))
  cases hSame
  cases hEntity
  cases cs with
  | nil => cases hRequests
  | cons c cs =>
    have hRequest : c.request = .delete "a" := (List.cons.inj (Except.ok.inj hRequests)).1.symm
    have hRecord := hRecords c List.mem_cons_self (.affected 1) trivial
    rw [hRequest] at hRecord
    exact (hRecord (by decide)).mpr ⟨by decide, by decide⟩

/-- The sample shop, in which a user may delete every item. -/
def clearableShop : Server :=
  { sampleShop with gate := [⟨.user "carol", "shop", some "items", none, "delete"⟩] }

def slashRequest : Request := { sampleRequest "DELETE" with target := "/shop/items/a%2Fb" }

def slashDeletion : Statement :=
  Mutation.rowDeletion .postgres sampleItems sampleKey (.text "a/b")

theorem exchange_slashRequest (db : Database) :
    clearableShop.exchange db slashRequest =
      .ofRun slashRequest
        ((clearableShop.run samplePlace (.delete sampleItems "a/b" slashDeletion)).on
          { database := db }) := by
  have hRoute : Route.ofPath? (Uri.path slashRequest.target) =
      some (.resource "shop".toList "items".toList "a%2Fb".toList) := by decide
  have hId : Uri.decodeSegment? "a%2Fb".toList = some "a/b" := by decide +kernel
  have hInquiry : slashRequest.inquiry 100 = .ok (.call samplePlace (.delete "a/b")) :=
    inquiry_of_route hRoute hId (by decide +kernel) (by decide) rfl
  have hPrincipal : slashRequest.principal = { user := some "carol" } :=
    principal_sampleRequest "DELETE"
  have hPrepare : clearableShop.prepare (clearableShop.trusted slashRequest.principal)
      samplePlace (.delete "a/b") = .ok (.delete sampleItems "a/b" slashDeletion) := by
    rw [hPrincipal]
    rfl
  exact exchange_of_task hInquiry hPrepare

/-- The deletion of the item `a/b` is recorded, but as one of the item `a`. -/
theorem slashDeletion_is_not_read_back :
    ∃ event : AuditEvent,
      event.id = "a/b" ∧
      (clearableShop.exchange { replies := [.affected 1] } slashRequest).log =
        [.begin, .statement .write slashDeletion,
          .statement .write (clearableShop.audit.insert .postgres event), .commit] ∧
      PatchOperation.IsAbout "a" event.patch ∧ ¬ PatchOperation.IsAbout "a/b" event.patch := by
  have hValues : ∀ o ∈ ofDeleted "a/b", ∀ v ∈ o.value, v.Denotes := by
    rintro o ho v hv
    obtain rfl := List.mem_singleton.mp ho
    cases hv
  refine ⟨clearableShop.eventOf samplePlace sampleItems (.delete "a/b") (.affected 1), rfl,
    ?_, ?_, ?_⟩
  · rw [exchange_slashRequest]
    rfl
  · exact (isAbout_iff hValues (by decide)).mpr ⟨by decide, by decide⟩
  · intro hAbout
    exact absurd ((isAbout_iff hValues (by decide)).mp hAbout).2 (by decide)

end Server

end TableGateway
