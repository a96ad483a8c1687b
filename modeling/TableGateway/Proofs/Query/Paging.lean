import Mathlib.Order.Defs.LinearOrder
import TableGateway.Proofs.Query.Rows
import TableGateway.Proofs.Sql.Page

/-!
# Pages of lists

An engine arranges the rows of a list by its keys, and rows that tie in any way, for each page anew.
The primary key of the entity, which comes last, tells apart what comes from different rows of the
entity. So the pages together have every row once where no row of the entity is selected twice. An
include along a foreign key of the child selects it once for every child; then the pages repeat some
rows and leave out others.
-/

namespace TableGateway

variable {α : Type}

namespace SortKey

def cell (k : SortKey) (r : JoinedRow α) : α := r k.aliasName k.column

/-- No key tells the rows apart. -/
def Tie (keys : List SortKey) (a b : JoinedRow α) : Prop := ∀ k ∈ keys, k.cell a = k.cell b

variable [LinearOrder α]

def Precedes (k : SortKey) (a b : JoinedRow α) : Prop :=
  match k.direction with
  | .ascending => k.cell a < k.cell b
  | .descending => k.cell b < k.cell a

/-- The first of the keys that tells the rows apart does not put `b` before `a`. -/
def InOrder : List SortKey → JoinedRow α → JoinedRow α → Prop
  | [], _, _ => True
  | k :: keys, a, b => k.Precedes a b ∨ k.cell a = k.cell b ∧ InOrder keys a b

variable {k : SortKey} {keys : List SortKey} {a b c : JoinedRow α}

theorem precedes_or (k : SortKey) (a b : JoinedRow α) :
    k.Precedes a b ∨ k.cell a = k.cell b ∨ k.Precedes b a := by
  rw [Precedes, Precedes]
  cases k.direction with
  | ascending => exact lt_trichotomy _ _
  | descending => exact (lt_trichotomy (k.cell b) (k.cell a)).imp_right (Or.imp_left Eq.symm)

theorem Precedes.trans (hLeft : k.Precedes a b) (hRight : k.Precedes b c) : k.Precedes a c := by
  rw [Precedes] at *
  cases hDirection : k.direction with
  | ascending =>
    simp only [hDirection] at *
    exact hLeft.trans hRight
  | descending =>
    simp only [hDirection] at *
    exact hRight.trans hLeft

theorem Precedes.cell_ne (h : k.Precedes a b) : k.cell a ≠ k.cell b := by
  rw [Precedes] at h
  split at h
  · exact h.ne
  · exact h.ne'

theorem Precedes.congr {a' b' : JoinedRow α} (h : k.Precedes a b) (hLeft : k.cell a = k.cell a')
    (hRight : k.cell b = k.cell b') : k.Precedes a' b' := by
  rw [Precedes] at *
  rwa [← hLeft, ← hRight]

theorem inOrder_total (keys : List SortKey) (a b : JoinedRow α) :
    InOrder keys a b ∨ InOrder keys b a := by
  induction keys with
  | nil => exact .inl trivial
  | cons k keys ih =>
    obtain hBefore | hEq | hBehind := k.precedes_or a b
    · exact .inl (.inl hBefore)
    · exact ih.imp (fun h => .inr ⟨hEq, h⟩) (fun h => .inr ⟨hEq.symm, h⟩)
    · exact .inr (.inl hBehind)

theorem InOrder.trans (hLeft : InOrder keys a b) (hRight : InOrder keys b c) :
    InOrder keys a c := by
  induction keys with
  | nil => trivial
  | cons k keys ih =>
    rcases hLeft with hLeft | ⟨hLeft, hRestLeft⟩ <;>
      rcases hRight with hRight | ⟨hRight, hRestRight⟩
    · exact .inl (hLeft.trans hRight)
    · exact .inl (hLeft.congr rfl hRight)
    · exact .inl (hRight.congr hLeft.symm rfl)
    · exact .inr ⟨hLeft.trans hRight, ih hRestLeft hRestRight⟩

theorem Tie.inOrder (h : Tie keys a b) : InOrder keys a b := by
  induction keys with
  | nil => trivial
  | cons k keys ih =>
    rw [Tie, List.forall_mem_cons] at h
    exact .inr ⟨h.1, ih h.2⟩

theorem InOrder.tie (hLeft : InOrder keys a b) (hRight : InOrder keys b a) : Tie keys a b := by
  induction keys with
  | nil => exact nofun
  | cons k keys ih =>
    rw [Tie, List.forall_mem_cons]
    rcases hLeft with hLeft | ⟨hLeft, hRestLeft⟩ <;>
      rcases hRight with hRight | ⟨hRight, hRestRight⟩
    · exact absurd rfl (hLeft.trans hRight).cell_ne
    · exact absurd hRight.symm hLeft.cell_ne
    · exact absurd hLeft.symm hRight.cell_ne
    · exact ⟨hLeft, ih hRestLeft hRestRight⟩

structure Arranges (keys : List SortKey) (rows arranged : List (JoinedRow α)) : Prop where
  perm : arranged.Perm rows
  inOrder : arranged.Pairwise (InOrder keys)

theorem exists_arranges (keys : List SortKey) (rows : List (JoinedRow α)) :
    ∃ arranged, Arranges keys rows arranged := by
  classical
  let le (a b : JoinedRow α) : Bool := InOrder keys a b
  have hTrans (a b c : JoinedRow α) (hLeft : le a b = true) (hRight : le b c = true) :
      le a c = true :=
    decide_eq_true ((of_decide_eq_true hLeft).trans (of_decide_eq_true hRight))
  have hTotal (a b : JoinedRow α) : (le a b || le b a) = true := by
    simpa [le] using inOrder_total keys a b
  exact ⟨rows.mergeSort le, List.mergeSort_perm rows le,
    (List.pairwise_mergeSort hTrans hTotal rows).imp of_decide_eq_true⟩

/-- Where no rows tie, there is but one arrangement. -/
theorem Arranges.unique {rows l l' : List (JoinedRow α)}
    (hTies : ∀ a ∈ rows, ∀ b ∈ rows, Tie keys a b → a = b) (h : Arranges keys rows l)
    (h' : Arranges keys rows l') : l = l' := by
  refine List.Perm.eq_of_pairwise (fun a b ha hb hLeft hRight => ?_) h.inOrder h'.inOrder
    (h.perm.trans h'.perm.symm)
  exact hTies a (h.perm.subset ha) b (h'.perm.subset hb) (hLeft.tie hRight)

end SortKey

namespace Paging

variable {β : Type}

/-- The page of rows that an engine has arranged. -/
def page (p : Paging) (rows : List β) : List β := (rows.drop p.offset.toNat).take p.limit.toNat

/-- The page with this number, from zero on. -/
def turned (p : Paging) (n : Nat) : Paging := ⟨p.limit, n * p.limit⟩

theorem flatMap_page_turned {p : Paging} (hLimit : 0 ≤ p.limit) (rows : List β) (n : Nat) :
    ((List.range n).flatMap fun i => (p.turned i).page rows) = rows.take (n * p.limit.toNat) := by
  have hPage (i : Nat) :
      (p.turned i).page rows = (rows.drop (i * p.limit.toNat)).take p.limit.toNat := by
    have hOffset : (i * p.limit).toNat = i * p.limit.toNat := by
      obtain ⟨m, hm⟩ := Int.eq_ofNat_of_zero_le hLimit
      rw [hm]
      exact Int.toNat_natCast (i * m)
    rw [page, turned, hOffset]
  induction n with
  | zero => simp
  | succ n ih =>
    rw [List.range_succ, List.flatMap_append, ih, List.flatMap_singleton, hPage, Nat.succ_mul,
      List.take_add]

end Paging

theorem Entity.exists_key_mem_ordering {e : Entity} {key : Column} (h : e.primaryKey? = some key)
    (sort : List SortKey) :
    ∃ k ∈ e.ordering sort, k.aliasName = e.aliasName ∧ k.column = key.name := by
  rw [ordering, h]
  dsimp only
  split
  · next hLast =>
    obtain ⟨k, hk, hKey⟩ := (Option.any_eq_true _ _).mp hLast
    rw [Bool.and_eq_true, decide_eq_true_eq, decide_eq_true_eq] at hKey
    exact ⟨k, List.mem_of_getLast? hk, hKey⟩
  · exact ⟨_, List.mem_append_right sort (List.mem_singleton_self _), rfl, rfl⟩

namespace QueryPlan

def turned (q : QueryPlan) (n : Nat) : QueryPlan := { q with paging := q.paging.turned n }

/-- However an engine arranges the rows for each of the pages, all pages together have every row
once. -/
def PagesCover [LinearOrder α] (q : QueryPlan) (keys : List SortKey)
    (rows : List (JoinedRow α)) : Prop :=
  ∀ arranged : Nat → List (JoinedRow α), (∀ i, SortKey.Arranges keys rows (arranged i)) →
    ∀ n : Nat, rows.length ≤ n * q.paging.limit.toNat →
      ((List.range n).flatMap fun i => (q.turned i).paging.page (arranged i)).Perm rows

variable {catalog : Catalog} {e : Entity} {limits : PagingLimits} {o : QueryOptions}
  {q : QueryPlan} {key : Column}

theorem pagesCover_of_unique [LinearOrder α] {keys : List SortKey} {rows : List (JoinedRow α)}
    (hLimit : 0 ≤ q.paging.limit)
    (hTies : ∀ a ∈ rows, ∀ b ∈ rows, SortKey.Tie keys a b → a = b) : q.PagesCover keys rows := by
  intro arranged hArranged n hEnough
  have hSame (i : Nat) : arranged i = arranged 0 := (hArranged i).unique hTies (hArranged 0)
  have hPages : ((List.range n).flatMap fun i => (q.turned i).paging.page (arranged i)) =
      (List.range n).flatMap fun i => (q.paging.turned i).page (arranged 0) :=
    List.flatMap_congr fun i _ => by rw [hSame i]; rfl
  rw [hPages, Paging.flatMap_page_turned hLimit, List.take_of_length_le]
  · exact (hArranged 0).perm
  · rwa [(hArranged 0).perm.length_eq]

/-- The next pages are asked for by the offset alone. -/
theorem compile_turned (h : compile catalog e limits o = .ok q) (hLimit : 0 ≤ q.paging.limit)
    (n : Nat) :
    compile catalog e limits { o with offset := some (n * q.paging.limit) } =
      .ok (q.turned n) := by
  obtain ⟨hJoins, hFields, hFilter, hSort, hPaging⟩ := compile_parts_iff.mp h
  have hOffset : 0 ≤ n * q.paging.limit := Int.mul_nonneg (Int.natCast_nonneg n) hLimit
  refine compile_parts_iff.mpr ⟨hJoins, hFields, hFilter, hSort, ?_⟩
  rw [turned, Paging.turned, Paging.compile, Option.getD_some, max_eq_left hOffset, ← hPaging]
  rfl

theorem alias_of_mem_ordering (h : compile catalog e limits o = .ok q) :
    ∀ k ∈ e.ordering q.sort, k.aliasName = e.aliasName := by
  have hResolves : ∀ k ∈ e.ordering q.sort, k.mention.Resolves [e] :=
    SortKey.resolves_ordering (resolves_sort h)
  intro k hk
  obtain ⟨x, hx, hAlias, -⟩ := hResolves k hk
  rw [← hAlias, List.mem_singleton.mp hx]

theorem tie_iff_base [DecidableEq α] {E : Engine α} {contents : Contents α}
    (hCompile : compile catalog e limits o = .ok q)
    (hOrdering : ∃ k ∈ e.ordering q.sort, k.aliasName = e.aliasName ∧ k.column = key.name)
    (hAliases : ∀ j ∈ q.joins, j.childAlias ≠ e.aliasName)
    (hIdentifies : contents.Identifies e key) :
    ∀ a ∈ q.selected E contents e, ∀ b ∈ q.selected E contents e,
      SortKey.Tie (e.ordering q.sort) a b ↔ a e.aliasName = b e.aliasName := by
  intro a ha b hb
  constructor
  · intro hTie
    obtain ⟨k, hk, hAlias, hColumn⟩ := hOrdering
    have hCells : a e.aliasName key.name = b e.aliasName key.name := by
      rw [← hAlias, ← hColumn]
      exact hTie k hk
    exact List.inj_on_of_nodup_map hIdentifies (base_of_mem_selected hAliases ha)
      (base_of_mem_selected hAliases hb) hCells
  · intro hBase k hk
    rw [SortKey.cell, SortKey.cell, alias_of_mem_ordering hCompile k hk, hBase]

/-- Rows tie only when they come from the same row of the entity. So where the includes find at most
one row each, no rows tie, and the pages together have all rows that are counted. -/
theorem pages_are_complete [LinearOrder α] {text : String}
    (hLoad : Catalog.load text = .ok catalog) (hEntity : e ∈ catalog.entities)
    (hKey : e.primaryKey? = some key) (hCompile : compile catalog e limits o = .ok q)
    (hLimit : 0 < q.paging.limit) (E : Engine α) (contents : Contents α)
    (hUnique : ∀ x ∈ catalog.entities, q.Involves e x →
      ∀ k, x.primaryKey? = some k → contents.Identifies x k) :
    (∀ n : Nat,
      compile catalog e limits { o with offset := some (n * q.paging.limit) } =
        .ok (q.turned n) ∧
      ∀ d, (Statement.list d e (q.turned n)).PagesBy (e.ordering q.sort) (q.turned n).paging) ∧
    (∀ a ∈ q.selected E contents e, ∀ b ∈ q.selected E contents e,
      SortKey.Tie (e.ordering q.sort) a b ↔ a e.aliasName = b e.aliasName) ∧
    (∃ arranged, SortKey.Arranges (e.ordering q.sort) (q.selected E contents e) arranged) ∧
    ((∀ j ∈ q.joins, j.IsOnKey catalog ∨ j.FindsOne E contents) →
      (q.selected E contents e).Pairwise (fun a b => ¬ SortKey.Tie (e.ordering q.sort) a b) ∧
      q.PagesCover (e.ordering q.sort) (q.selected E contents e)) := by
  obtain ⟨children, hPath, hNodup⟩ := exists_path (Catalog.valid_of_load hLoad) hEntity hCompile
  have hAliases := hPath.childAlias_ne hNodup
  have hIdentifies := hUnique e hEntity (.inl rfl) key hKey
  have hOrdering := Entity.exists_key_mem_ordering hKey q.sort
  have hTies := tie_iff_base hCompile hOrdering hAliases hIdentifies (E := E)
  refine ⟨fun n => ⟨compile_turned hCompile hLimit.le n, fun d => ?_⟩, hTies,
    SortKey.exists_arranges _ _, fun hJoins => ?_⟩
  · obtain ⟨k, hk, -⟩ := hOrdering
    exact Statement.pagesBy_list d (q := q.turned n) (List.ne_nil_of_mem hk) hLimit.le
      (Int.mul_nonneg (Int.natCast_nonneg n) hLimit.le)
  · have hOnes : ∀ j ∈ q.joins, j.FindsOne E contents := fun j hj =>
      (hJoins j hj).elim
        (fun ⟨child, hChild, hSchema, hTable, k, hPrimary, hColumn⟩ =>
          Join.findsOne_of_identifies hSchema hTable hColumn
            (hUnique child hChild (.inr ⟨j, hj, hSchema, hTable⟩) k hPrimary)) id
    have hBases := nodup_base_selected hIdentifies hAliases hOnes
    have hApart := List.pairwise_map.mp hBases
    refine ⟨hApart.imp_of_mem fun ha hb hNe hTie => hNe ((hTies _ ha _ hb).mp hTie),
      pagesCover_of_unique hLimit.le fun a ha b hb hTie => ?_⟩
    exact List.inj_on_of_nodup_map hBases ha hb ((hTies a ha b hb).mp hTie)

def sampleRow (id customer : Nat) : TableRow Nat := fun column =>
  if column = "ID" then id else if column = "CustomerID" then customer else 0

/-- The customer 1 with the orders 10 and 11. -/
def sampleContents : Contents Nat := fun schema table =>
  if schema ≠ "sales" then []
  else if table = "customers" then [sampleRow 1 0]
  else if table = "orders" then [sampleRow 10 1, sampleRow 11 1]
  else []

def sampleEngine : Engine Nat := ⟨0, fun _ _ => none⟩

theorem identifies_sampleContents :
    ∀ x ∈ Join.sampleSchemas.entities, ∀ k, x.primaryKey? = some k →
      sampleContents.Identifies x k := by
  have hKeys : ∀ x ∈ Join.sampleSchemas.entities, x.primaryKey? = some Join.sampleId := by decide
  have hNodup : ∀ x ∈ Join.sampleSchemas.entities,
      ((sampleContents x.schema x.name).map fun row => row Join.sampleId.name).Nodup := by decide
  intro x hx k hk
  cases hk.symm.trans (hKeys x hx)
  exact hNodup x hx

/-- One order after the other, each with its customer. -/
def sampleOrderPages : QueryPlan where
  filter := none
  sort := []
  fields := [.wildcard "t_orders"]
  joins := [.between Join.sampleOrders (Join.sampleCustomers "sales") Join.sampleReference
    Join.sampleId]
  paging := ⟨1, 0⟩

theorem sampleOrders_are_covered :
    Catalog.load Join.sampleSchemas.toText = .ok Join.sampleSchemas ∧
    Join.sampleOrders ∈ Join.sampleSchemas.entities ∧
    Join.sampleOrders.primaryKey? = some Join.sampleId ∧
    compile Join.sampleSchemas Join.sampleOrders {}
      { includes := some "customers", limit := some 1 } = .ok sampleOrderPages ∧
    (∀ x ∈ Join.sampleSchemas.entities, sampleOrderPages.Involves Join.sampleOrders x →
      ∀ k, x.primaryKey? = some k → sampleContents.Identifies x k) ∧
    (sampleOrderPages.selected sampleEngine sampleContents Join.sampleOrders).length = 2 ∧
    sampleOrderPages.PagesCover (Join.sampleOrders.ordering [])
      (sampleOrderPages.selected sampleEngine sampleContents Join.sampleOrders) := by
  have hEntity : Join.sampleOrders ∈ Join.sampleSchemas.entities := by decide
  have hKey : Join.sampleOrders.primaryKey? = some Join.sampleId := by decide
  have hCompile : compile Join.sampleSchemas Join.sampleOrders {}
      { includes := some "customers", limit := some 1 } = .ok sampleOrderPages := rfl
  have hUnique : ∀ x ∈ Join.sampleSchemas.entities, sampleOrderPages.Involves Join.sampleOrders x →
      ∀ k, x.primaryKey? = some k → sampleContents.Identifies x k :=
    fun x hx _ => identifies_sampleContents x hx
  have hComplete := pages_are_complete Join.load_sampleSchemas hEntity hKey hCompile (by decide)
    sampleEngine sampleContents hUnique
  have hJoins : ∀ j ∈ sampleOrderPages.joins,
      j.IsOnKey Join.sampleSchemas ∨ j.FindsOne sampleEngine sampleContents :=
    List.forall_mem_singleton.mpr (.inl
      ⟨Join.sampleCustomers "sales", by decide, rfl, rfl, Join.sampleId, by decide, rfl⟩)
  exact ⟨Join.load_sampleSchemas, hEntity, hKey, hCompile, hUnique, rfl, (hComplete.2.2.2 hJoins).2⟩

/-- The customer once for each of the orders, with the number of the order. -/
def sampleCustomerPages : QueryPlan where
  filter := none
  sort := []
  fields := [.column "t_customers" "ID" none .integer,
    .column "t_orders" "ID" (some "orders.ID") .integer]
  joins := [.between (Join.sampleCustomers "sales") Join.sampleOrders Join.sampleId
    Join.sampleReference]
  paging := ⟨1, 0⟩

/-- Both rows of the customer tie, and two pages can be about the same order. -/
theorem sampleCustomers_are_repeated :
    Catalog.load Join.sampleSchemas.toText = .ok Join.sampleSchemas ∧
    Join.sampleCustomers "sales" ∈ Join.sampleSchemas.entities ∧
    (Join.sampleCustomers "sales").primaryKey? = some Join.sampleId ∧
    compile Join.sampleSchemas (Join.sampleCustomers "sales") {}
      { fields := some "ID,orders.ID", includes := some "orders", limit := some 1 } =
        .ok sampleCustomerPages ∧
    (∀ x ∈ Join.sampleSchemas.entities, ∀ k, x.primaryKey? = some k →
      sampleContents.Identifies x k) ∧
    ¬ (sampleCustomerPages.selected sampleEngine sampleContents
      (Join.sampleCustomers "sales")).Pairwise
        (fun a b => ¬ SortKey.Tie ((Join.sampleCustomers "sales").ordering []) a b) ∧
    ¬ sampleCustomerPages.PagesCover ((Join.sampleCustomers "sales").ordering [])
      (sampleCustomerPages.selected sampleEngine sampleContents
        (Join.sampleCustomers "sales")) := by
  have hOrders : (sampleCustomerPages.selected sampleEngine sampleContents
      (Join.sampleCustomers "sales")).map (fun r => r "t_orders" "ID") = [10, 11] := by decide
  have hCustomers : (sampleCustomerPages.selected sampleEngine sampleContents
      (Join.sampleCustomers "sales")).map (fun r => r "t_customers" "ID") = [1, 1] := by decide
  obtain ⟨a, b, hRows⟩ := List.length_eq_two.mp
    (show (sampleCustomerPages.selected sampleEngine sampleContents
      (Join.sampleCustomers "sales")).length = 2 from rfl)
  rw [hRows] at hOrders hCustomers ⊢
  simp only [List.map_cons, List.map_nil, List.cons.injEq, and_true] at hOrders hCustomers
  have hTie : SortKey.Tie ((Join.sampleCustomers "sales").ordering []) a b := by
    intro k hk
    obtain rfl := List.mem_singleton.mp hk
    exact hCustomers.1.trans hCustomers.2.symm
  have hTieBack : SortKey.Tie ((Join.sampleCustomers "sales").ordering []) b a :=
    fun k hk => (hTie k hk).symm
  refine ⟨Join.load_sampleSchemas, by decide, by decide, rfl, identifies_sampleContents,
    fun hApart => (List.pairwise_pair.mp hApart) hTie, fun hCover => ?_⟩
  -- The second page is taken from the rows in the other order.
  have hPages := hCover (fun i => if i = 0 then [a, b] else [b, a]) (fun i => ?_) 2 le_rfl
  · have hIds := hPages.map fun r => r "t_orders" "ID"
    change [a "t_orders" "ID", a "t_orders" "ID"].Perm
      [a "t_orders" "ID", b "t_orders" "ID"] at hIds
    rw [hOrders.1, hOrders.2] at hIds
    exact absurd hIds (by decide)
  · split
    · exact ⟨.refl _, List.pairwise_pair.mpr hTie.inOrder⟩
    · exact ⟨.swap .., List.pairwise_pair.mpr hTieBack.inOrder⟩

end QueryPlan

end TableGateway
