import TableGateway.Proofs.Patch.Path
import TableGateway.Proofs.Service.Permission

/-!
# Patches of one resource

A patch that is sent to one resource is carried out with the id in front of all its paths. It stays
in the resource exactly when each path is empty or begins with a slash; any other path goes on where
the id ends, and so names another resource.
-/

namespace TableGateway

namespace SubPatch

variable {id : String} {os : List PatchOperation} {subs : List SubPatch}

theorem split_inResource_iff (h : split (os.map (PatchOperation.inResource id)) = .ok subs) :
    subs = [] ∨ subs = [⟨id, os.map (PatchOperation.inResource id)⟩] ↔
      ∀ o ∈ os, o.isAnchored = true := by
  obtain ⟨-, rfl⟩ := split_eq_ok_iff.mp h
  constructor
  · intro hSubs o ho
    have hMem : part (os.map (PatchOperation.inResource id)) (o.inResource id).id ∈
        parts (os.map (PatchOperation.inResource id)) :=
      mem_parts_iff.mpr ⟨_, List.mem_map_of_mem ho, rfl⟩
    rcases hSubs with hNone | hOne
    · rw [hNone] at hMem
      cases hMem
    · rw [hOne, List.mem_singleton, part] at hMem
      exact PatchOperation.id_inResource_eq_iff.mp (SubPatch.mk.inj hMem).1
  · intro hAnchored
    cases os with
    | nil => exact .inl rfl
    | cons o os =>
      refine .inr (parts_eq_singleton (List.cons_ne_nil _ _) fun inside hInside => ?_)
      obtain ⟨o, ho, rfl⟩ := List.mem_map.mp hInside
      exact PatchOperation.id_inResource_eq_iff.mpr (hAnchored o ho)

theorem id_of_split_inResource (hAnchored : ∀ o ∈ os, o.isAnchored = true)
    (h : split (os.map (PatchOperation.inResource id)) = .ok subs) : ∀ sub ∈ subs, sub.id = id := by
  rcases (split_inResource_iff h).mpr hAnchored with rfl | rfl
  · exact nofun
  · exact fun sub hSub => congrArg SubPatch.id (List.mem_singleton.mp hSub)

end SubPatch

namespace Server

/-- A command by which no resource but this one is changed or recorded as changed. -/
inductive Confines (s : Server) (e : Entity) (id : String) : Sent → Prop
  | keyed {statement : Statement} (hKeyed : statement.IsKeyedBy e id) :
    Confines s e id (.statement .write statement)
  | recorded {event : AuditEvent} (hId : event.id = id) :
    Confines s e id (.statement .write (s.audit.insert .postgres event))
  | bracket {c : Sent} (hBracket : c ∈ [.begin, .commit, .rollback]) : Confines s e id c

theorem confines_of_arranges {s : Server} {db : Database} {place : Call.Place} {e : Entity}
    {id : String} {body : Json} {os : List PatchOperation} {task : Task}
    (hArranges : s.Arranges place e (.patchOne id body) task)
    (hRead : PatchOperation.readAll body = .ok os) (hAnchored : ∀ o ∈ os, o.isAnchored = true) :
    ∀ c ∈ ((s.run place task).on { database := db }).2.log, s.Confines e id c := by
  intro c hc
  cases hArranges with
  | @changes _ _ cs _ _ hRequests hRun =>
    have hPatched : ∀ d ∈ cs,
        d.request.id? = some id ∧ ∀ reply, d.request.resource e reply = id := by
      obtain ⟨subs, hSubs, hMap⟩ := Outcome.map_eq_ok_iff.mp hRequests
      have hSplit : SubPatch.split (os.map (PatchOperation.inResource id)) = .ok subs := by
        rw [Call.subPatches, Call.operations, hRead] at hSubs
        exact hSubs
      intro d hd
      obtain ⟨sub, hSub, hRequest⟩ := List.mem_map.mp (hMap ▸ List.mem_map_of_mem hd)
      have hId := SubPatch.id_of_split_inResource hAnchored hSplit sub hSub
      rw [← hRequest]
      exact ⟨congrArg some hId, fun _ => hId⟩
    obtain hBracket | ⟨d, hd, rfl | ⟨reply, rfl⟩⟩ := hRun.sends.mem_log db c hc
    · exact .bracket hBracket
    · exact .keyed (d.makes.isKeyedBy (hPatched d hd).1)
    · exact .recorded ((hPatched d hd).2 reply)

/-- A patch of one resource is split into nothing or one part exactly when its paths are anchored,
and then nothing that is sent is about another resource. -/
theorem patch_stays_in_resource (id : String) (os : List PatchOperation) :
    (∀ subs, SubPatch.split (os.map (PatchOperation.inResource id)) = .ok subs →
      (subs = [] ∨ subs = [⟨id, os.map (PatchOperation.inResource id)⟩] ↔
        ∀ o ∈ os, o.isAnchored = true)) ∧
    ∀ (s : Server) (db : Database) (r : Request) (place : Call.Place) (body : Json),
      r.inquiry s.maxBodyBytes = .ok (.call place (.patchOne id body)) →
      PatchOperation.readAll body = .ok os → (∀ o ∈ os, o.isAnchored = true) →
      ∀ c ∈ (s.exchange db r).log,
        ∃ e, s.catalog.entity? place.domain place.entity = some e ∧ s.Confines e id c := by
  refine ⟨fun subs h => SubPatch.split_inResource_iff h, ?_⟩
  intro s db r place body hInquiry hRead hAnchored c hc
  cases hPrepare : s.prepare (s.trusted r.principal) place (.patchOne id body) with
  | error e =>
    rw [exchange_of_failure hInquiry hPrepare] at hc
    cases hc
  | ok task =>
    rw [exchange_of_task hInquiry hPrepare] at hc
    obtain ⟨e, hFound, hArranges⟩ := arranges_of_prepare hPrepare
    exact ⟨e, hFound, confines_of_arranges hArranges hRead hAnchored c hc⟩

def sampleOperation (path : String) : PatchOperation where
  kind := .replace
  path
  value := some (.text "x")

def sampleDocument : Json :=
  .array [.object [("op", .text "replace"), ("path", .text "/Name"), ("value", .text "x")]]

def samplePatch : Request :=
  { sampleRequest "PATCH" with
    headers := [("x-user-id", "carol"), ("content-type", "application/json")]
    body := "[\x7b\"op\":\"replace\",\"path\":\"/Name\",\"value\":\"x\"\x7d]" }

/-- A shop in which a user may change one item. -/
def patchableShop : Server :=
  { sampleShop with gate := [⟨.user "carol", "shop", some "items", some "a", "patch"⟩] }

/-- A body that is cut into tokens is read from them. -/
theorem json_of_tokens {r : Request} {most : Nat} {ts : List Json.Token} {v : Json}
    (hType : r.saysJson = true) (hLength : ¬ r.bodyLimit most < r.body.utf8ByteSize)
    (hTokens : Json.tokens r.body.toList = ts)
    (hRead : ((Json.Document.ofTokens? ts).map Prod.fst).bind (Json.Document.valueWithin? 0) =
      some v) : r.json most = .ok v := by
  have hFirst : Json.readFirstValue? r.body = some v := by
    rw [Json.readFirstValue?, Json.Document.readFirst?, hTokens, hRead]
  simp [Request.json, hType, hLength, hFirst]

theorem json_samplePatch : samplePatch.json 100 = .ok sampleDocument := by
  have hType : samplePatch.saysJson = true := by decide +kernel
  have hLength : ¬ samplePatch.bodyLimit 100 < samplePatch.body.utf8ByteSize := by decide +kernel
  have hTokens : Json.tokens samplePatch.body.toList =
      [.openArray, .openObject, .text (some "op"), .colon, .text (some "replace"), .comma,
        .text (some "path"), .colon, .text (some "/Name"), .comma, .text (some "value"), .colon,
        .text (some "x"), .closeObject, .closeArray] := by
    simp [samplePatch, Json.tokens_cons, Json.scanToken, Json.scanString, Json.isSpace,
      Json.characters?, Json.tokens]
  refine json_of_tokens hType hLength hTokens ?_
  simp only [Json.Document.ofTokens?, Json.Document.itemsOfTokens?, Json.Document.membersOfTokens?]
  rfl

theorem inquiry_samplePatch :
    samplePatch.inquiry 100 = .ok (.call samplePlace (.patchOne "a" sampleDocument)) := by
  have hCall : samplePatch.resourceCall 100 "a" = .ok (.patchOne "a" sampleDocument) := by
    change (samplePatch.json 100).map (Call.patchOne "a") = _
    rw [json_samplePatch]
    rfl
  exact inquiry_of_target rfl (by decide +kernel) (by decide) hCall

/-- What is found where the sample item is looked for. -/
def sampleRows : Database := { replies := [.rows ["Code"] [[.text "a"]]] }

theorem log_samplePatch :
    (patchableShop.exchange sampleRows samplePatch).log.getLast? = some .commit := by
  have hPrincipal : samplePatch.principal = { user := some "carol" } := by decide +kernel
  obtain ⟨task, hPrepare, hLast⟩ : ∃ task,
      patchableShop.prepare (patchableShop.trusted samplePatch.principal) samplePlace
        (.patchOne "a" sampleDocument) = .ok task ∧
      ((patchableShop.run samplePlace task).on { database := sampleRows }).2.log.getLast? =
        some .commit := by
    rw [hPrincipal]
    exact ⟨_, rfl, rfl⟩
  rw [exchange_of_task inquiry_samplePatch hPrepare]
  exact hLast

/-- An anchored path stays in the resource, whatever is sent. -/
theorem sampleOperation_stays_in_resource :
    (∃ subs, SubPatch.split ([sampleOperation "/Name"].map (PatchOperation.inResource "7")) =
        .ok subs ∧
      (subs = [] ∨
        subs = [⟨"7", [sampleOperation "/Name"].map (PatchOperation.inResource "7")⟩])) ∧
    (patchableShop.exchange sampleRows samplePatch).log.getLast? = some .commit ∧
    ∀ c ∈ (patchableShop.exchange sampleRows samplePatch).log,
      patchableShop.Confines sampleItems "a" c := by
  refine ⟨⟨_, rfl, ?_⟩, log_samplePatch, fun c hc => ?_⟩
  · exact ((patch_stays_in_resource "7" [sampleOperation "/Name"]).1 _ rfl).mpr (by decide)
  · obtain ⟨e, hFound, hConfines⟩ := (patch_stays_in_resource "a" [sampleOperation "/Name"]).2
      patchableShop sampleRows samplePatch samplePlace sampleDocument inquiry_samplePatch rfl
      (by decide) c hc
    cases hFound
    exact hConfines

/-- A path that is not anchored leads from the resource 7 to the resource 78. -/
theorem sampleOperation_escapes :
    ∃ subs, SubPatch.split ([sampleOperation "8/Name"].map (PatchOperation.inResource "7")) =
        .ok subs ∧
      subs.map SubPatch.id = ["78"] ∧
      ¬ (subs = [] ∨
        subs = [⟨"7", [sampleOperation "8/Name"].map (PatchOperation.inResource "7")⟩]) := by
  refine ⟨_, rfl, rfl, ?_⟩
  rintro (hNone | hOne)
  · cases hNone
  · exact absurd (congrArg (List.map SubPatch.id) hOne) (by decide)

end Server

end TableGateway
