import TableGateway.Proofs.Query.Scope
import TableGateway.Proofs.Service.Permission

/-!
# What reads reach

The gate is asked about the entity in the path of a request. A read selects from this entity, and
besides it only from those that the include of the request leads to, along foreign keys. About them
the gate is not asked.
-/

namespace TableGateway

variable {catalog : Catalog} {d : Dialect} {e : Entity} {children : List Entity} {js : List Join}

namespace Mention

def isDeclaration : Mention → Bool
  | .declares .. => true
  | _ => false

theorem Resolves.not_isDeclaration {m : Mention} {declared : List Entity}
    (h : m.Resolves declared) : m.isDeclaration = false := by
  cases m with
  | declares => cases h
  | _ => rfl

theorem isDeclaration_declaration (d : Dialect) (schema table : String) :
    (d.declaration schema table).isDeclaration = true := rfl

theorem filter_isDeclaration_eq_nil {ms : List Mention}
    (h : ∀ m ∈ ms, m.isDeclaration = false) : ms.filter isDeclaration = [] := by
  apply List.filter_eq_nil_iff.mpr
  intro m hm
  rw [h m hm]
  exact Bool.false_ne_true

end Mention

theorem SelectItem.not_isDeclaration (item : SelectItem) : item.mention.isDeclaration = false := by
  cases item <;> rfl

/-- The tables in the statement are those of the entities, one after the other. -/
def Statement.Reads (s : Statement) (es : List Entity) : Prop :=
  s.mentions.filter Mention.isDeclaration = es.map fun x => s.dialect.declaration x.schema x.name

theorem Join.Path.declarations (h : Path catalog e children js) (d : Dialect) :
    (js.flatMap (Join.mentions d)).filter Mention.isDeclaration =
      children.map fun x => d.declaration x.schema x.name := by
  induction h with
  | nil => rfl
  | @cons parent child children j js isEntity hop rest ih =>
    have hFirst : (j.mentions d).filter Mention.isDeclaration =
        [d.declaration child.schema child.name] := by
      cases hop with
      | own | back => rfl
    rw [List.flatMap_cons, List.filter_append, hFirst, ih]
    rfl

namespace Statement

open Draft

theorem reads_selection {fields : Draft} {behind : List Draft} {before : List Mention}
    (hPath : Join.Path catalog e children js) (hFields : Legible d fields)
    (hBefore : fields.Mentions before) (hPlain : ∀ m ∈ before, m.isDeclaration = false)
    (hBehind : ∀ a ∈ behind, RefersTo d [e] a) :
    Reads ⟨d, spaced ([[.keyword .SELECT], fields, [.keyword .FROM], e.source d js] ++ behind)⟩
      (e :: children) := by
  obtain ⟨after, hAfter, hResolves⟩ := exists_reads hBehind
  -- Nothing is declared before the source or behind it.
  have hLast : ∀ m ∈ after, m.isDeclaration = false := fun m hm =>
    (hResolves m hm).not_isDeclaration
  rw [Reads, mentions_selection _ _ hFields (fun a ha => (hBehind a ha).legible) hBefore hAfter,
    List.filter_append, List.filter_append, Mention.filter_isDeclaration_eq_nil hPlain,
    Mention.filter_isDeclaration_eq_nil hLast, List.append_nil, List.nil_append,
    List.filter_cons_of_pos (Mention.isDeclaration_declaration _ _ _), hPath.declarations]
  rfl

end Statement

namespace QueryPlan

variable {limits : PagingLimits} {o : QueryOptions} {q : QueryPlan}

/-- The statements that read by a compiled query. -/
inductive Makes (d : Dialect) (e : Entity) (q : QueryPlan) : Statement → Prop
  | page : Makes d e q (Statement.list d e q).select
  | count : Makes d e q (Statement.list d e q).count
  | row {id : String} {statement : Statement} (hRead : Statement.read d e q id = .ok statement) :
    Makes d e q statement

theorem Makes.reads {statement : Statement} (h : q.Makes d e statement)
    (hPath : Join.Path catalog e children q.joins) (hCompile : compile catalog e limits o = .ok q) :
    statement.Reads (e :: children) := by
  have hPlain : ∀ m ∈ (e.selected d q.fields).map SelectItem.mention, m.isDeclaration = false :=
    List.forall_mem_map.mpr fun item _ => item.not_isDeclaration
  have hWhere : ∀ a ∈ Statement.predicate d q.filter, Draft.RefersTo d [e] a :=
    Statement.refersTo_predicate (resolves_filter hCompile)
  have hKeys : ∀ k ∈ e.ordering q.sort, k.mention.Resolves [e] :=
    SortKey.resolves_ordering (resolves_sort hCompile)
  cases h with
  | page =>
    exact Statement.reads_selection hPath (e.legible_projection d q.fields)
      (e.mentions_projection d q.fields) hPlain (Statement.refersTo_page q.paging hWhere hKeys)
  | count =>
    have hCount : Draft.RefersTo d [] (.keyword .COUNT :: Draft.enclosed [.mark .star]) :=
      Statement.refersTo_count
    exact Statement.reads_selection hPath hCount.legible Mention.reads_star (List.forall_mem_nil _)
      hWhere
  | row hRead =>
    obtain ⟨key, v, hKey, -, rfl⟩ := Statement.read_eq_ok hRead
    exact Statement.reads_selection hPath (e.legible_projection d q.fields)
      (e.mentions_projection d q.fields) hPlain
      (Statement.refersTo_key v (List.mem_of_find?_eq_some hKey))

theorem children_of_no_include (hPath : Join.Path catalog e children q.joins)
    (hCompile : compile catalog e limits o = .ok q) (hNone : o.includes = none) :
    children = [] := by
  have hJoins := (compile_eq_ok hCompile).1
  rw [hNone] at hJoins
  have hEmpty : q.joins = [] := (Except.ok.inj hJoins).symm
  rw [hEmpty] at hPath
  cases hPath
  rfl

end QueryPlan

theorem Gate.effective_congr (gate : Gate) (p : Principal) {t t' : Target}
    (hDomain : Text.sameName t.domain t'.domain = true)
    (hEntity : Text.sameName t.entity t'.entity = true) (hId : t.id = t'.id) :
    gate.effective p t = gate.effective p t' := by
  have hCovers (g : Grant) : g.covers t = g.covers t' := by
    have hDomains := Text.sameName_eq_true_iff.mp hDomain
    have hEntities := Text.sameName_eq_true_iff.mp hEntity
    simp only [Grant.covers, Text.sameName, hDomains, hEntities, hId]
  simp only [effective, Grant.permission, hCovers]

namespace Call

/-- The id and the parameters of a call that reads; a list has no id. -/
def reading? : Call → Option (Option String × List (String × String))
  | .list parameters => some (none, parameters)
  | .read id parameters => some (some id, parameters)
  | _ => none

theorem targetIds_of_reading {call : Call} {id : Option String}
    {parameters : List (String × String)} (h : call.reading? = some (id, parameters)) :
    call.targetIds = .ok [id] := by
  cases call with
  | list | read =>
    cases h
    rfl
  | _ => cases h

end Call

namespace Server

variable {s : Server} {db : Database} {r : Request} {p : Principal} {place : Call.Place}
  {call : Call} {id : Option String} {parameters : List (String × String)} {task : Task}

/-- What is permitted by the names in a path is permitted by the entity's own names. -/
theorem Permits.of_entity? (h : s.Permits p place call id) (hValid : s.catalog.Valid)
    (hFound : s.catalog.entity? place.domain place.entity = some e) :
    s.Permits p ⟨e.schema, e.name⟩ call id := by
  obtain ⟨-, hSchema, hName⟩ := hValid.of_entity? hFound
  have hSame : s.gate.effective p ⟨e.schema, e.name, id⟩ =
      s.gate.effective p ⟨place.domain, place.entity, id⟩ :=
    s.gate.effective_congr p hSchema hName rfl
  intro c hc
  change (s.gate.effective p ⟨e.schema, e.name, id⟩).holds c = true
  rw [hSame]
  exact h c hc

theorem plan_eq_ok {q : QueryPlan} (h : s.plan e parameters = .ok q) :
    ∃ o, QueryOptions.ofParameters parameters = .ok o ∧
      QueryPlan.compile s.catalog e s.limits o = .ok q := by
  obtain ⟨o, hOptions, hPlan⟩ := Outcome.bind_eq_ok_iff.mp h
  exact ⟨o, Outcome.mapError_eq_ok_iff.mp hOptions, Outcome.mapError_eq_ok_iff.mp hPlan⟩

/-- A call that reads has a plan, and all that is sent for it are statements of this plan. -/
theorem exists_plan (hReading : call.reading? = some (id, parameters))
    (hPrepare : s.prepare p place call = .ok task) :
    ∃ (e : Entity) (o : QueryOptions) (q : QueryPlan),
      s.catalog.entity? place.domain place.entity = some e ∧
      QueryOptions.ofParameters parameters = .ok o ∧
      QueryPlan.compile s.catalog e s.limits o = .ok q ∧
      ∀ db, ∀ c ∈ ((s.run place task).on { database := db }).2.log,
        ∃ statement, c = .statement .read statement ∧ q.Makes .postgres e statement := by
  cases call with
  | list found =>
    cases hReading
    obtain ⟨-, -, h⟩ := Outcome.bind_eq_ok_iff.mp hPrepare
    obtain ⟨e, hEntity, h⟩ := Outcome.bind_eq_ok_iff.mp h
    obtain ⟨q, hPlan, h⟩ := Outcome.bind_eq_ok_iff.mp h
    cases h
    obtain ⟨o, hOptions, hCompile⟩ := plan_eq_ok hPlan
    refine ⟨e, o, q, lookUp_eq_ok hEntity, hOptions, hCompile, ?_⟩
    intro db c hc
    obtain rfl | rfl := (runList_sends _ _).mem_log db c hc
    · exact ⟨_, rfl, .page⟩
    · exact ⟨_, rfl, .count⟩
  | read found parameters =>
    cases hReading
    obtain ⟨-, -, h⟩ := Outcome.bind_eq_ok_iff.mp hPrepare
    obtain ⟨e, hEntity, h⟩ := Outcome.bind_eq_ok_iff.mp h
    obtain ⟨q, hPlan, h⟩ := Outcome.bind_eq_ok_iff.mp h
    obtain ⟨statement, hRead, h⟩ := Outcome.bind_eq_ok_iff.mp h
    cases h
    obtain ⟨o, hOptions, hCompile⟩ := plan_eq_ok hPlan
    refine ⟨e, o, q, lookUp_eq_ok hEntity, hOptions, hCompile, ?_⟩
    intro db c hc
    obtain rfl := (runRead_sends _ _ _).mem_log db c hc
    exact ⟨statement, rfl, .row (Outcome.mapError_eq_ok_iff.mp hRead)⟩
  | _ => cases hReading

/-- Whatever is sent for a read, the caller may read the entity that stands behind `FROM`, by its
own names. All other tables are those that the include leads to. -/
theorem reads_reach_permitted {text : String} (hLoad : Catalog.load text = .ok s.catalog)
    (hInquiry : r.inquiry s.maxBodyBytes = .ok (.call place call))
    (hReading : call.reading? = some (id, parameters)) (hSent : (s.exchange db r).log ≠ []) :
    ∃ (e : Entity) (o : QueryOptions) (q : QueryPlan) (children : List Entity),
      s.catalog.entity? place.domain place.entity = some e ∧
      s.Permits (s.trusted r.principal) ⟨e.schema, e.name⟩ call id ∧
      QueryOptions.ofParameters parameters = .ok o ∧
      QueryPlan.compile s.catalog e s.limits o = .ok q ∧
      Join.Path s.catalog e children q.joins ∧
      (o.includes = none → children = []) ∧
      ∀ c ∈ (s.exchange db r).log,
        ∃ statement, c = .statement .read statement ∧ statement.Reads (e :: children) := by
  have hValid := Catalog.valid_of_load hLoad
  cases hPrepare : s.prepare (s.trusted r.principal) place call with
  | error error =>
    rw [exchange_of_failure hInquiry hPrepare] at hSent
    exact absurd rfl hSent
  | ok task =>
    have hGuards := s.prepare_guarded (s.trusted r.principal) place call
    rw [hPrepare] at hGuards
    obtain ⟨ids, hTargets, hAllows⟩ := authorizeAll_eq_ok_iff.mp hGuards.eq_ok_of_ok
    rw [Call.targetIds_of_reading hReading] at hTargets
    cases hTargets
    have hPermits := permits_of_allows (hAllows id (List.mem_singleton_self id))
    obtain ⟨e, o, q, hEntity, hOptions, hCompile, hStatements⟩ := exists_plan hReading hPrepare
    obtain ⟨children, hPath, -⟩ :=
      QueryPlan.exists_path hValid (hValid.of_entity? hEntity).1 hCompile
    refine ⟨e, o, q, children, hEntity, hPermits.of_entity? hValid hEntity, hOptions, hCompile,
      hPath, QueryPlan.children_of_no_include hPath hCompile, ?_⟩
    intro c hc
    rw [exchange_of_task hInquiry hPrepare] at hc
    obtain ⟨statement, hSame, hMakes⟩ := hStatements db c hc
    exact ⟨statement, hSame, hMakes.reads hPath hCompile⟩

/-- A server on which a user may search the customers, and nothing else. -/
def salesDesk : Server :=
  { sampleShop with
    catalog := Join.sampleSchemas
    gate := [⟨.user "carol", "sales", some "customers", none, "search"⟩] }

/-- The customers with their orders, in another spelling of the names. -/
def orderRequest : Request where
  method := "GET"
  target := "/Sales/Customers?include=orders"
  headers := [("x-user-id", "carol")]

def orderPlace : Call.Place := ⟨"Sales", "Customers"⟩

def orderCall : Call := .list [("include", "orders")]

def orderPlan : QueryPlan where
  filter := none
  sort := []
  fields := [.wildcard "t_customers"]
  joins := [.between (Join.sampleCustomers "sales") Join.sampleOrders Join.sampleId
    Join.sampleReference]
  paging := ⟨25, 0⟩

theorem inquiry_orderRequest : orderRequest.inquiry 100 = .ok (.call orderPlace orderCall) := by
  have hRoute : Route.ofPath? (Uri.path orderRequest.target) =
      some (.collection "Sales".toList "Customers".toList) := by decide
  have hDomain : Uri.decodeSegment? "Sales".toList = some "Sales" := by decide +kernel
  have hEntity : Uri.decodeSegment? "Customers".toList = some "Customers" := by decide +kernel
  have hParameters : orderRequest.parameters = [("include", "orders")] := by decide +kernel
  have hLength : orderRequest.declaredLength? = none := by decide +kernel
  have hCall : orderRequest.collectionCall 100 = .ok orderCall := by
    change Except.ok (Call.list orderRequest.parameters) = _
    rw [hParameters]
    rfl
  have hInquiryOn : orderRequest.inquiryOn 100
      (.collection "Sales".toList "Customers".toList) = .ok (.call orderPlace orderCall) := by
    simp only [Request.inquiryOn, Request.segment, hDomain, hEntity, hCall]
    rfl
  simp only [Request.inquiry, hLength, hRoute, hInquiryOn]
  rw [if_neg (by simp)]
  exact if_pos (by decide)

def orderStatements : ListStatements :=
  Statement.list .postgres (Join.sampleCustomers "sales") orderPlan

theorem principal_orderRequest : orderRequest.principal = { user := some "carol" } := by
  decide +kernel

theorem log_orderRequest :
    (salesDesk.exchange {} orderRequest).log =
      [.statement .read orderStatements.select, .statement .read orderStatements.count] := by
  have hPrepare : salesDesk.prepare (salesDesk.trusted orderRequest.principal) orderPlace
      orderCall = .ok (.list orderStatements 0) := by
    rw [principal_orderRequest]
    rfl
  rw [exchange_of_task inquiry_orderRequest hPrepare]
  rfl

theorem orderRequest_reaches_permitted :
    Catalog.load Join.sampleSchemas.toText = .ok salesDesk.catalog ∧
    orderRequest.inquiry 100 = .ok (.call orderPlace orderCall) ∧
    orderCall.reading? = some (none, [("include", "orders")]) ∧
    (salesDesk.exchange {} orderRequest).log ≠ [] ∧
    ∃ (e : Entity) (q : QueryPlan) (children : List Entity),
      salesDesk.catalog.entity? "Sales" "Customers" = some e ∧
      salesDesk.Permits { user := some "carol" } ⟨e.schema, e.name⟩ orderCall none ∧
      Join.Path salesDesk.catalog e children q.joins ∧
      ∀ c ∈ (salesDesk.exchange {} orderRequest).log,
        ∃ statement, c = .statement .read statement ∧ statement.Reads (e :: children) := by
  have hSent : (salesDesk.exchange {} orderRequest).log ≠ [] := by simp [log_orderRequest]
  obtain ⟨e, o, q, children, hEntity, hPermits, -, -, hPath, -, hReads⟩ :=
    reads_reach_permitted Join.load_sampleSchemas inquiry_orderRequest rfl hSent
  rw [principal_orderRequest] at hPermits
  exact ⟨Join.load_sampleSchemas, inquiry_orderRequest, rfl, hSent, e, q, children, hEntity,
    hPermits, hPath, hReads⟩

/-- The orders are joined to the customers for a user who may not search the orders. -/
theorem orders_are_read_without_permission :
    Catalog.load Join.sampleSchemas.toText = .ok salesDesk.catalog ∧
    orderRequest.inquiry 100 = .ok (.call orderPlace orderCall) ∧
    Join.sampleOrders ∈ salesDesk.catalog.entities ∧
    (∃ statement, Sent.statement .read statement ∈ (salesDesk.exchange {} orderRequest).log ∧
      statement.Reads [Join.sampleCustomers "sales", Join.sampleOrders]) ∧
    ¬ salesDesk.Permits (salesDesk.trusted orderRequest.principal)
      ⟨Join.sampleOrders.schema, Join.sampleOrders.name⟩ orderCall none := by
  have hPath : Join.Path Join.sampleSchemas (Join.sampleCustomers "sales") [Join.sampleOrders]
      orderPlan.joins :=
    .cons (by decide) (.back (by decide) (by decide) (by decide) (fun _ => rfl) rfl) (.nil _)
  have hCompile : QueryPlan.compile Join.sampleSchemas (Join.sampleCustomers "sales") {}
      { includes := some "orders" } = .ok orderPlan := rfl
  refine ⟨Join.load_sampleSchemas, inquiry_orderRequest, by decide, ?_, ?_⟩
  · refine ⟨orderStatements.select, ?_, QueryPlan.Makes.page.reads hPath hCompile⟩
    rw [log_orderRequest]
    exact List.mem_cons_self
  · rw [principal_orderRequest]
    intro hPermits
    exact absurd (hPermits .search List.mem_cons_self) (by decide)

end Server

end TableGateway
