import Mathlib
import Pantheon.Sql.Select

/-!
# LIMIT and OFFSET

The rows behind the limit are cut off before the offset is skipped, so the offset
counts against the limit.  A SELECT without a FROM clause is not paged at all.  In a
UNION the two clauses belong to the SELECT that they stand in.
-/

set_option autoImplicit false

namespace Pantheon.Sql

variable {params : List Value} {limit offset : Expr} {n m : Nat} {select : SelectStmt}
  {result : QueryResult}

/-! ## The two truncations -/

section Rows

variable {Row : Type}

/-- Where the order of the truncations makes no difference. -/
def OrderIrrelevant (length limit offset : Nat) : Prop :=
  offset = 0 ∨ limit = 0 ∨ length ≤ offset ∨ length ≤ limit

theorem drop_take_eq_take_drop_iff (rows : List Row) (limit offset : Nat) :
    (rows.take limit).drop offset = (rows.drop offset).take limit ↔
      OrderIrrelevant rows.length limit offset := by
  constructor
  · intro same
    have lengths := congrArg List.length same
    rw [List.length_drop, List.length_take, List.length_take, List.length_drop] at lengths
    unfold OrderIrrelevant
    omega
  · intro irrelevant
    rcases irrelevant with first | nothing | beyond | whole
    · rw [first, List.drop_zero, List.drop_zero]
    · rw [nothing, List.take_zero, List.take_zero, List.drop_nil]
    · have short : (rows.take limit).length ≤ offset := by
        rw [List.length_take]
        omega
      rw [List.drop_of_length_le short, List.drop_of_length_le beyond, List.take_nil]
    · have short : (rows.drop offset).length ≤ limit := by
        rw [List.length_drop]
        omega
      rw [List.take_of_length_le whole, List.take_of_length_le short]

/-- Behind the first page there is nothing, so the pages are the result where the first is. -/
theorem pages_eq_iff (rows : List Row) {limit pages : Nat} (enough : rows.length ≤ pages * limit) :
    ((List.range pages).flatMap fun page => (rows.take limit).drop (page * limit)) = rows ↔
      rows.length ≤ limit := by
  have later : ∀ page, ((List.range (page + 1)).flatMap fun page =>
      (rows.take limit).drop (page * limit)) = rows.take limit := by
    intro page
    induction page with
    | zero => simp
    | succ page ih =>
        have short : (rows.take limit).length ≤ (page + 1) * limit := by
          rw [List.length_take, Nat.succ_mul]
          omega
        rw [List.range_succ, List.flatMap_append, ih, List.flatMap_singleton,
          List.drop_of_length_le short, List.append_nil]
  cases pages with
  | zero =>
      have empty : rows = [] := List.length_eq_zero_iff.mp (by omega)
      simp [empty]
  | succ pages => rw [later, List.take_eq_self_iff]

end Rows

/-! ## Statements -/

section

variable (lib : Library) (db : Database)

/-- The expression of LIMIT or OFFSET stands for this number of rows. -/
def CountsTo (params : List Value) (expr : Expr) (count : Nat) : Prop :=
  ∀ other, evalCount lib params expr other = .ok count

theorem countsTo_of_int {expr : Expr} {number : Int}
    (counted : eval lib { RowContext.empty with params := params } expr = .ok (.int number)) :
    CountsTo lib params expr number.toNat := by
  intro other
  rw [evalCount, counted]
  rfl

theorem limitRows_of_counts
    (limited : CountsTo lib params limit n) (skipped : CountsTo lib params offset m)
    (rows : List RowContext) :
    limitRows lib params (some limit) (some offset) rows = .ok ((rows.take n).drop m) := by
  simp only [limitRows, limited _, skipped _]
  rfl

def SelectStmt.paged (select : SelectStmt) (limit offset : Option Expr) : SelectStmt :=
  { select with union := none, limit := limit, offset := offset }

def rowsBeforePaging (ev : Evaluator) (select : SelectStmt) (schema : Option TableSchema)
    (rows : List RowContext) : Except String (List FieldDescription × List RowContext) := do
  let fields ← buildFields lib select.projections schema
  let rows := filterRows lib ev select.where_ rows
  let rows ← if isAggregateQuery lib select then executeAggregation lib ev select schema rows
    else .ok rows
  let rows ← applyWindowFunctions lib ev select rows
  .ok (fields, sortRows lib ev select.orderBy rows)

theorem finishSelect_eq (ev : Evaluator) (params : List Value) (select : SelectStmt)
    (schema : Option TableSchema) (rows : List RowContext) :
    finishSelect lib ev params select schema rows =
      (do
        let (fields, rows) ← rowsBeforePaging lib ev select schema rows
        let rows ← limitRows lib params select.limit select.offset rows
        let rows := rows.map (projectRow lib ev select.projections)
        .ok ⟨fields, rows, "SELECT " ++ toString rows.length⟩) := by
  unfold finishSelect rowsBeforePaging
  cases buildFields lib select.projections schema with
  | error message => rfl
  | ok fields =>
      by_cases grouped : isAggregateQuery lib select = true
      · simp only [grouped, if_true, bind, Except.bind]
        cases executeAggregation lib ev select schema (filterRows lib ev select.where_ rows) with
        | error message => rfl
        | ok rows =>
            dsimp only
            cases applyWindowFunctions lib ev select rows <;> rfl
      · simp only [if_neg grouped, bind, Except.bind]
        cases applyWindowFunctions lib ev select (filterRows lib ev select.where_ rows) <;> rfl

theorem finishSelect_paged {ev : Evaluator}
    {schema : Option TableSchema} {rows : List RowContext}
    (limited : CountsTo lib params limit n)
    (skipped : CountsTo lib params offset m)
    (whole : finishSelect lib ev params (select.paged none none) schema rows = .ok result) :
    ∃ tag, finishSelect lib ev params (select.paged (some limit) (some offset)) schema rows =
      .ok ⟨result.fields, (result.rows.take n).drop m, tag⟩ := by
  have before : ∀ limit offset, rowsBeforePaging lib ev (select.paged limit offset) schema rows =
      rowsBeforePaging lib ev select schema rows := fun _ _ => rfl
  rw [finishSelect_eq, before] at whole
  rw [finishSelect_eq, before]
  cases sorted : rowsBeforePaging lib ev select schema rows with
  | error message =>
      rw [sorted] at whole
      cases whole
  | ok found =>
      obtain ⟨fields, rows⟩ := found
      rw [sorted] at whole
      cases whole
      have cut := limitRows_of_counts lib limited skipped rows
      let cells := rows.map (projectRow lib ev select.projections)
      refine ⟨"SELECT " ++ toString ((cells.take n).drop m).length, ?_⟩
      simp only [SelectStmt.paged, bind, Except.bind, cut, List.map_drop, List.map_take, cells]

/-- Where paging the rows of a statement is what its two clauses say. -/
def PagingAgrees (select : SelectStmt) (length limit offset : Nat) : Prop :=
  if select.from_.isSome then OrderIrrelevant length limit offset else offset = 0 ∧ 0 < limit

instance (select : SelectStmt) (length limit offset : Nat) :
    Decidable (PagingAgrees select length limit offset) := by
  unfold PagingAgrees OrderIrrelevant
  infer_instance

theorem executeProjectionOnly_paged (ev : Evaluator) (params : List Value) (select : SelectStmt)
    (limit offset : Option Expr) :
    executeProjectionOnly lib ev params (select.paged limit offset) =
      executeProjectionOnly lib ev params select := rfl

theorem executeProjectionOnly_length {ev : Evaluator}
    (ran : executeProjectionOnly lib ev params select = .ok result) :
    result.rows.length = 1 := by
  unfold executeProjectionOnly at ran
  simp only [bind, Except.bind] at ran
  split at ran
  · cases ran
  · cases ran
    rfl

theorem executeFrom_paged {order : TableRef → Option TableSchema → List Join → List Nat}
    {run : Runner} {txn : Option TxnView} {ctes after : CteContext} {outer : List OuterRow}
    (ran : executeFrom lib db order run txn ctes outer params (select.paged none none) =
      .ok (after, result)) :
    (select.from_.isSome = false ∧ result.rows.length = 1 ∧ ∀ limit offset,
        executeFrom lib db order run txn ctes outer params (select.paged limit offset) =
          .ok (after, result)) ∨
      (select.from_.isSome = true ∧ ∃ schema rows,
        finishSelect lib (evaluator lib run) params (select.paged none none) schema rows =
            .ok result ∧
          ∀ limit offset page,
            finishSelect lib (evaluator lib run) params (select.paged limit offset) schema rows =
              .ok page →
            executeFrom lib db order run txn ctes outer params (select.paged limit offset) =
              .ok (after, page)) := by
  unfold executeFrom at ran ⊢
  have ctesKept : ∀ limit offset, (select.paged limit offset).ctes = select.ctes := fun _ _ => rfl
  have fromKept : ∀ limit offset, (select.paged limit offset).from_ = select.from_ := fun _ _ => rfl
  have whereKept : ∀ limit offset, (select.paged limit offset).where_ = select.where_ :=
    fun _ _ => rfl
  simp only [ctesKept, fromKept, whereKept, executeProjectionOnly_paged, bind, Except.bind] at ran ⊢
  cases withs : select.ctes.foldlM (materializeCte run txn outer params) ctes with
  | error message =>
      rw [withs] at ran
      cases ran
  | ok ctes =>
      simp only [withs] at ran ⊢
      cases clause : select.from_ with
      | none =>
          simp only [clause] at ran ⊢
          cases projected : executeProjectionOnly lib (evaluator lib run) params select with
          | error message =>
              rw [projected] at ran
              cases ran
          | ok projection =>
              rw [projected] at ran
              cases ran
              exact Or.inl ⟨rfl, executeProjectionOnly_length lib projected, fun _ _ => rfl⟩
      | some source =>
          simp only [clause] at ran ⊢
          cases joined : resolveFrom lib db
              (fun schema => order source.primary schema source.joins) run txn ctes outer params
              select.where_ source with
          | error message =>
              rw [joined] at ran
              cases ran
          | ok found =>
              simp only [joined] at ran ⊢
              generalize found.rows.map (fun values => ({ RowContext.new values found.schema with
                outer := outer, params := params, tableScopes := found.scopes } : RowContext)) =
                rows at ran ⊢
              cases finished : finishSelect lib (evaluator lib run) params (select.paged none none)
                  found.schema rows with
              | error message =>
                  rw [finished] at ran
                  cases ran
              | ok whole =>
                  rw [finished] at ran
                  cases ran
                  refine Or.inr ⟨rfl, found.schema, rows, finished, ?_⟩
                  intro limit offset page paged
                  rw [paged]

/-- Pages from OFFSET 0 on in steps of the limit make up the result only where the first
of them does. -/
theorem pages_partition_iff {fuel : Nat} {txn : Option TxnView} {ctes after : CteContext}
    {outer : List OuterRow} {offsets : Nat → Expr} {pages : Nat}
    (limited : CountsTo lib params limit n)
    (skipped : ∀ page, CountsTo lib params (offsets page) (page * n))
    (given : select.from_.isSome = true)
    (whole : execute lib db (fuel + 1) txn ctes outer params (select.paged none none) =
      .ok (after, result)) (enough : result.rows.length ≤ pages * n) :
    ∃ results : Nat → QueryResult,
      (∀ page, execute lib db (fuel + 1) txn ctes outer params
        (select.paged (some limit) (some (offsets page))) = .ok (after, results page)) ∧
      (((List.range pages).flatMap fun page => (results page).rows) = result.rows ↔
        result.rows.length ≤ n) := by
  rcases executeFrom_paged lib db whole with ⟨bare, _⟩ | ⟨_, schema, rows, finished, same⟩
  · rw [given] at bare
    cases bare
  · have each : ∀ page, ∃ tag, execute lib db (fuel + 1) txn ctes outer params
        (select.paged (some limit) (some (offsets page))) =
          .ok (after, ⟨result.fields, (result.rows.take n).drop (page * n), tag⟩) := by
      intro page
      obtain ⟨tag, paged⟩ := finishSelect_paged lib limited (skipped page) finished
      exact ⟨tag, same _ _ _ paged⟩
    choose tags ran using each
    exact ⟨fun page => ⟨result.fields, (result.rows.take n).drop (page * n), tags page⟩, ran,
      pages_eq_iff result.rows enough⟩

end

/-! ## Three rows -/

/-- `t` has the numbers 1 to 3 in one column. -/
def threeRowsDatabase : Database where
  table := fun name =>
    { schema := some ⟨name, [⟨"x", .int8⟩]⟩
      rows := [49, 50, 51].map fun digit => ([digit], [0, 0, 0, 1, digit])
      estimate := none
      indexLookup := fun _ => none
      spatialQuery := fun _ => none
      timeRangeQuery := fun _ => none }
  virtualTable := fun _ => none
  tableFunction := fun _ _ => .error "no such function"

/-- `SELECT * FROM t`. -/
def selectAll : SelectStmt where
  ctes := []
  distinct := false
  projections := [.wildcard]
  from_ := some ⟨⟨"t", none, none, none⟩, []⟩
  where_ := none
  groupBy := []
  having := none
  orderBy := []
  limit := none
  offset := none
  union := none

def countOf (number : Int) : Expr := .literal (.int number)

theorem countOf_countsTo (number : Int) :
    CountsTo Library.basic [] (countOf number) number.toNat :=
  countsTo_of_int Library.basic rfl

theorem selectAll_rows :
    execute Library.basic threeRowsDatabase 1 none [] [] [] (selectAll.paged none none) =
      .ok ([], ⟨[.simple "x" 20], [[some [49]], [some [50]], [some [51]]], "SELECT 3"⟩) := rfl

end Pantheon.Sql
