import Mathlib
import Pantheon.Sql.Decimal
import Pantheon.Sql.Select

/-!
# Recursive CTEs: `materialize_cte`

The recursive term is run on the rows of the round before it until a round is empty.
The rows of all rounds are the result, in their order; a CTE that has not come to an
empty round within the limit is an error.
-/

set_option autoImplicit false

namespace Pantheon.Sql

open Pantheon.Lib

variable {term : SelectStmt} {rounds : Nat → CteContext × List Row} {last number bound : Nat}

section

variable (run : Runner) (txn : Option TxnView) (outer : List OuterRow) (params : List Value)

def recursiveRound (name : String) (schema : TableSchema) (term : SelectStmt)
    (before : CteContext × List Row) : Except String (CteContext × List Row) := do
  let (ctes, result) ← run txn ((name, before.2, schema) :: before.1) outer params term
  .ok (ctes, result.rows)

def iterationLimit (name : String) : String :=
  "recursive CTE \"" ++ name ++ "\" exceeded iteration limit"

variable {run txn outer params}

theorem recursiveCte_succ {name : String} {schema : TableSchema} {fuel : Nat}
    {ctes : CteContext} {working all : List Row} {next : CteContext × List Row}
    (ran : recursiveRound run txn outer params name schema term (ctes, working) = .ok next) :
    recursiveCte run txn outer params name schema term (fuel + 1) ctes working all =
      if next.2.isEmpty then .ok ((name, all, schema) :: next.1)
      else recursiveCte run txn outer params name schema term fuel next.1 next.2
        (all ++ next.2) := by
  rw [recursiveCte]
  unfold recursiveRound at ran
  cases result : run txn ((name, working, schema) :: ctes) outer params term with
  | error message =>
      rw [result] at ran
      cases ran
  | ok found =>
      rw [result] at ran
      cases ran
      rfl

theorem recursiveCte_rounds {name : String} {schema : TableSchema} :
    ∀ (fuel last first : Nat) (all : List Row), 0 < last →
      (∀ k < last, recursiveRound run txn outer params name schema term (rounds (first + k)) =
        .ok (rounds (first + k + 1))) →
      (∀ k, 0 < k → k < last → (rounds (first + k)).2 ≠ []) → (rounds (first + last)).2 = [] →
      recursiveCte run txn outer params name schema term fuel (rounds first).1 (rounds first).2
          all =
        if last ≤ fuel then
          .ok ((name, all ++ (List.range (last - 1)).flatMap (fun k => (rounds (first + k + 1)).2),
            schema) :: (rounds (first + last)).1)
        else .error (iterationLimit name) := by
  intro fuel
  induction fuel with
  | zero =>
      intro last first all positive _ _ _
      rw [if_neg (by omega)]
      rfl
  | succ fuel ih =>
      intro last first all positive each more ends
      have ran := each 0 positive
      rw [Nat.add_zero] at ran
      rw [recursiveCte_succ ran]
      by_cases final : last = 1
      · subst final
        rw [ends, if_pos List.isEmpty_nil, if_pos (by omega)]
        simp
      · have nonempty : (rounds (first + 1)).2.isEmpty = false :=
          List.isEmpty_eq_false_iff.mpr (more 1 (by omega) (by omega))
        have shift : ∀ k, first + 1 + k = first + (k + 1) := by
          intro k
          omega
        have rest := ih (last - 1) (first + 1) (all ++ (rounds (first + 1)).2) (by omega)
          (fun k below => by
            have here := each (k + 1) (by omega)
            rw [shift]
            exact here)
          (fun k above below => by
            rw [shift]
            exact more (k + 1) (by omega) (by omega))
          (by
            rw [shift, Nat.sub_add_cancel positive]
            exact ends)
        have range : List.range (last - 1) = 0 :: (List.range (last - 1 - 1)).map Nat.succ := by
          have more_ : last - 1 = (last - 1 - 1) + 1 := by omega
          rw [more_, List.range_succ_eq_map, Nat.add_sub_cancel]
        rw [nonempty, if_neg (by decide), rest, shift, Nat.sub_add_cancel positive, range,
          List.flatMap_cons, List.flatMap_map, List.append_assoc]
        have same : (last - 1 ≤ fuel) = (last ≤ fuel + 1) := by
          rw [eq_iff_iff]
          omega
        simp only [same, shift, Nat.add_zero, Nat.succ_eq_add_one, Nat.add_assoc]

variable (run txn outer params)

/-- The rounds of a recursive CTE up to the first empty one after the base. -/
structure RoundsEnd (name : String) (schema : TableSchema) (term : SelectStmt)
    (rounds : Nat → CteContext × List Row) (last : Nat) : Prop where
  positive : 0 < last
  each : ∀ k < last, recursiveRound run txn outer params name schema term (rounds k) =
    .ok (rounds (k + 1))
  more : ∀ k, 0 < k → k < last → (rounds k).2 ≠ []
  ends : (rounds last).2 = []

def allRows (rounds : Nat → CteContext × List Row) (last : Nat) : List Row :=
  (List.range last).flatMap fun k => (rounds k).2

/-- The rows that a row brings in the next round, where a round is that of each of its rows. -/
def RowByRow (derives : Row → Row → Prop) (rounds : Nat → CteContext × List Row) (last : Nat) :
    Prop :=
  ∀ k < last, ∀ row, row ∈ (rounds (k + 1)).2 ↔ ∃ source ∈ (rounds k).2, derives source row

variable {run txn outer params}

theorem mem_allRows {row : Row} :
    row ∈ allRows rounds last ↔ ∃ k < last, row ∈ (rounds k).2 := by
  simp [allRows]

theorem allRows_isLeast {derives : Row → Row → Prop}
    (positive : 0 < last) (ends : (rounds last).2 = [])
    (rowByRow : RowByRow derives rounds last) :
    IsLeast {rows : Set Row | (∀ row ∈ (rounds 0).2, row ∈ rows) ∧
        ∀ source ∈ rows, ∀ row, derives source row → row ∈ rows}
      {row | row ∈ allRows rounds last} := by
  refine ⟨⟨?_, ?_⟩, ?_⟩
  · intro row member
    exact mem_allRows.mpr ⟨0, positive, member⟩
  · intro source member row derived
    obtain ⟨k, below, found⟩ := mem_allRows.mp member
    have next := (rowByRow k below row).mpr ⟨source, found, derived⟩
    by_cases final : k + 1 = last
    · rw [final, ends] at next
      cases next
    · exact mem_allRows.mpr ⟨k + 1, by omega, next⟩
  · intro rows closed row member
    obtain ⟨k, below, found⟩ := mem_allRows.mp member
    clear member
    induction k generalizing row with
    | zero => exact closed.1 row found
    | succ k ih =>
        obtain ⟨source, earlier, derived⟩ := (rowByRow k (by omega) row).mp found
        exact closed.2 source (ih (by omega) earlier) row derived

/-- A recursive CTE whose rounds come to an end has the rows of all of them within the limit,
and is the error of the limit beyond it.  Where no row comes twice, and the term is run row by
row, these are the rows of the least fixpoint, each once. -/
theorem recursive_cte_evaluates {cte : Cte} {op : UnionOp}
    {ctes start : CteContext} {base : QueryResult}
    (recursive : cte.recursive = true)
    (shape : cte.subquery.union = some (op, term))
    (first : run txn ctes outer params { cte.subquery with union := none } = .ok (start, base))
    (begins : rounds 0 = (start, base.rows))
    (run_ : RoundsEnd run txn outer params cte.name (cteSchema cte base.fields) term rounds last)
    (distinct : op = .unionAll ∨ (allRows rounds last).Nodup) :
    (materializeCte run txn outer params ctes cte =
      if last ≤ recursiveRounds then
        .ok ((cte.name, allRows rounds last, cteSchema cte base.fields) :: (rounds last).1)
      else .error (iterationLimit cte.name)) ∧
    (op = .union → ∀ derives, RowByRow derives rounds last →
      (allRows rounds last).Nodup ∧
        IsLeast {rows : Set Row | (∀ row ∈ base.rows, row ∈ rows) ∧
            ∀ source ∈ rows, ∀ row, derives source row → row ∈ rows}
          {row | row ∈ allRows rounds last}) := by
  constructor
  · have loop : recursiveCte run txn outer params cte.name (cteSchema cte base.fields) term
        recursiveRounds (rounds 0).1 (rounds 0).2 base.rows = _ :=
      recursiveCte_rounds recursiveRounds last 0 base.rows run_.positive
      (fun k below => by
        rw [Nat.zero_add]
        exact run_.each k below)
      (fun k above below => by
        rw [Nat.zero_add]
        exact run_.more k above below)
      (by
        rw [Nat.zero_add]
        exact run_.ends)
    have gathered : base.rows ++ (List.range (last - 1)).flatMap (fun k => (rounds (0 + k + 1)).2) =
        allRows rounds last := by
      have range : List.range last = 0 :: (List.range (last - 1)).map Nat.succ := by
        rw [← List.range_succ_eq_map, Nat.sub_add_cancel run_.positive]
      rw [allRows, range, List.flatMap_cons, begins, List.flatMap_map]
      simp only [Nat.zero_add, Nat.succ_eq_add_one]
    rw [gathered, begins, Nat.zero_add] at loop
    simp only [materializeCte, shape, recursive, if_true, first, bind, Except.bind, loop]
  · intro union derives rowByRow
    have nodup : (allRows rounds last).Nodup := by
      rcases distinct with all | nodup
      · rw [all] at union
        cases union
      · exact nodup
    have least := allRows_isLeast run_.positive run_.ends rowByRow
    rw [begins] at least
    exact ⟨nodup, least⟩

end

/-! ## Counting -/

def emptyDatabase : Database where
  table := fun _ => ⟨none, [], none, fun _ => none, fun _ => none, fun _ => none⟩
  virtualTable := fun _ => none
  tableFunction := fun _ _ => .error "no such function"

/-- `SELECT item AS n FROM source WHERE condition`. -/
def selectOne (item : Expr) (source : Option TableWithJoins) (condition : Option Expr) :
    SelectStmt where
  ctes := []
  distinct := false
  projections := [.expr item (some "n")]
  from_ := source
  where_ := condition
  groupBy := []
  having := none
  orderBy := []
  limit := none
  offset := none
  union := none

/-- `SELECT n + 1 AS n FROM r WHERE n < bound`. -/
def countTerm (bound : Int) : SelectStmt :=
  selectOne (.binaryOp .add (.ident "n") (.literal (.int 1)))
    (some ⟨⟨"r", none, none, none⟩, []⟩)
    (some (.binaryOp .lt (.ident "n") (.literal (.int bound))))

/-- `WITH RECURSIVE r AS (SELECT 0 AS n op SELECT n + 1 AS n FROM r WHERE n < bound)`. -/
def countTo (op : UnionOp) (bound : Int) : Cte where
  name := "r"
  columns := []
  subquery := { selectOne (.literal (.int 0)) none none with union := some (op, countTerm bound) }
  recursive := true

def countSchema : TableSchema := ⟨"r", [⟨"n", .int8⟩]⟩

def countRow (number : Nat) : Row := [some (utf8Bytes (toString (number : Int)))]

abbrev runEmpty : Runner := execute Library.basic emptyDatabase 1

def countRounds (bound : Nat) : Nat → CteContext × List Row
  | 0 => ([], [countRow 0])
  | k + 1 => (("r", (countRounds bound k).2, countSchema) :: (countRounds bound k).1,
      if k < bound then [countRow (k + 1)] else [])

def countContext (number : Nat) : RowContext :=
  { RowContext.new (countRow number) (some countSchema) with tableScopes := [⟨"r", 0, 1⟩] }

theorem resolveColumn_n (small : number < 2 ^ 62) (db : Option Subqueries) :
    resolveColumn Library.basic { countContext number with db := db } none "n" =
      .ok (.int number) := by
  have read : Value.fromBytes Library.basic (some (utf8Bytes (toString (number : Int)))) = _ :=
    fromBytes_toString Library.basic (by omega) (by omega)
  exact congrArg Except.ok read

theorem eval_below (small : number < 2 ^ 62) (db : Option Subqueries) :
    eval Library.basic { countContext number with db := db }
        (.binaryOp .lt (.ident "n") (.literal (.int bound))) =
      .ok (.bool (decide (number < bound))) := by
  simp only [eval, resolveColumn_n small, bind, Except.bind, Literal.value, evalBinary, comparesAs,
    valueCompare, Except.ok.injEq, Value.bool.injEq]
  by_cases below : number < bound
  · have order : compare (number : Int) bound = .lt := compare_lt_iff_lt.mpr (by omega)
    rw [order, decide_eq_true below]
    rfl
  · have order : compare (number : Int) bound ≠ .lt := by
      rw [ne_eq, compare_lt_iff_lt]
      omega
    rw [decide_eq_false below]
    exact beq_eq_false_iff_ne.mpr order

theorem evalBinary_next (small : number < 2 ^ 62) :
    evalBinary Library.basic .add (.int number) (.int 1) = .ok (.int (number + 1 : Nat)) := by
  have sum : checkI64 ((number : Int) + 1) = some ((number : Int) + 1) :=
    checkI64_of_range (by omega) (by omega)
  rw [evalBinary, evalArithmetic, checkedI64, sum, Nat.cast_succ]

theorem ok_bind {First Second : Type} (value : First) (next : First → Except String Second) :
    (Except.ok value >>= next) = next value := rfl

theorem eval_next (small : number < 2 ^ 62) (db : Option Subqueries) :
    eval Library.basic { countContext number with db := db }
        (.binaryOp .add (.ident "n") (.literal (.int 1))) =
      .ok (.int (number + 1 : Nat)) := by
  simp only [eval, resolveColumn_n small]
  rw [ok_bind, ok_bind, Literal.value, evalBinary_next small]

theorem countRound (ctes : CteContext) (small : number < 2 ^ 62) :
    recursiveRound runEmpty none [] [] "r" countSchema (countTerm bound)
        (ctes, [countRow number]) =
      .ok (("r", [countRow number], countSchema) :: ctes,
        if number < bound then [countRow (number + 1)] else []) := by
  have joined : resolveFrom Library.basic emptyDatabase
      (fun schema => joinOrder emptyDatabase ⟨"r", none, none, none⟩ schema [])
      (execute Library.basic emptyDatabase 0) none
      (("r", [countRow number], countSchema) :: ctes) [] [] (countTerm bound).where_ ⟨⟨"r", none, none, none⟩, []⟩ =
      .ok ⟨("r", [countRow number], countSchema) :: ctes, some countSchema, [countRow number],
        [⟨"r", 0, 1⟩]⟩ := rfl
  have finished : ∃ result, finishSelect Library.basic
      (evaluator Library.basic (execute Library.basic emptyDatabase 0)) [] (countTerm bound)
      (some countSchema) [countContext number] = .ok result ∧
        result.rows = if number < bound then [countRow (number + 1)] else [] := by
    have tested : evaluator Library.basic (execute Library.basic emptyDatabase 0)
        (countContext number) (.binaryOp .lt (.ident "n") (.literal (.int bound))) =
        .ok (.bool (decide (number < bound))) := eval_below small _
    have next : evaluator Library.basic (execute Library.basic emptyDatabase 0)
        (countContext number) (.binaryOp .add (.ident "n") (.literal (.int 1))) =
        .ok (.int (number + 1 : Nat)) := eval_next small _
    have plain : isAggregateQuery Library.basic (countTerm bound) = false := rfl
    have unwindowed : ∀ ev rows, applyWindowFunctions Library.basic ev (countTerm bound) rows =
        .ok rows := fun _ _ => rfl
    have kept : filterRows Library.basic (evaluator Library.basic
        (execute Library.basic emptyDatabase 0)) (countTerm bound).where_ [countContext number] =
        if number < bound then [countContext number] else [] := by
      simp only [filterRows, countTerm, selectOne, List.filter_cons, tested, Value.isTruthy,
        decide_eq_true_eq, List.filter_nil]
    have projected : projectRow Library.basic (evaluator Library.basic
        (execute Library.basic emptyDatabase 0)) (countTerm bound).projections
        (countContext number) = countRow (number + 1) := by
      simp only [projectRow, countTerm, selectOne, List.flatMap_cons, next, List.flatMap_nil,
        List.append_nil]
      rfl
    simp only [finishSelect, kept, plain, unwindowed]
    by_cases below : number < bound
    · rw [if_pos below, if_pos below]
      exact ⟨_, rfl, congrArg (fun row => [row]) projected⟩
    · rw [if_neg below, if_neg below]
      exact ⟨_, rfl, rfl⟩
  obtain ⟨result, ran, rows⟩ := finished
  have executed : runEmpty none (("r", [countRow number], countSchema) :: ctes) [] []
      (countTerm bound) = .ok (("r", [countRow number], countSchema) :: ctes, result) := by
    have from_ : runEmpty none (("r", [countRow number], countSchema) :: ctes) [] []
        (countTerm bound) = (do
          let joined ← resolveFrom Library.basic emptyDatabase
            (fun schema => joinOrder emptyDatabase ⟨"r", none, none, none⟩ schema [])
            (execute Library.basic emptyDatabase 0) none
            (("r", [countRow number], countSchema) :: ctes) [] [] (countTerm bound).where_
            ⟨⟨"r", none, none, none⟩, []⟩
          let rows := joined.rows.map fun values =>
            ({ RowContext.new values joined.schema with
              outer := [], params := [], tableScopes := joined.scopes } : RowContext)
          let result ← finishSelect Library.basic
            (evaluator Library.basic (execute Library.basic emptyDatabase 0)) [] (countTerm bound)
            joined.schema rows
          .ok (joined.ctes, result)) := rfl
    rw [from_, joined]
    change (do
      let result ← finishSelect Library.basic
        (evaluator Library.basic (execute Library.basic emptyDatabase 0)) [] (countTerm bound)
        (some countSchema) [countContext number]
      .ok (("r", [countRow number], countSchema) :: ctes, result)) = _
    rw [ran]
    rfl
  simp only [recursiveRound, executed, bind, Except.bind, rows]

theorem countRounds_rows : ∀ k ≤ bound,
    (countRounds bound k).2 = [countRow k] := by
  intro k within
  cases k with
  | zero => rfl
  | succ k => simp only [countRounds, if_pos (show k < bound by omega)]

theorem countRounds_end (small : bound < 2 ^ 62) :
    RoundsEnd runEmpty none [] [] "r" countSchema (countTerm bound) (countRounds bound)
      (bound + 1) where
  positive := Nat.succ_pos bound
  each := by
    intro k below
    have rows := countRounds_rows k (Nat.lt_succ_iff.mp below)
    have state : countRounds bound k = ((countRounds bound k).1, [countRow k]) := by rw [← rows]
    rw [state, countRound _ (by omega), countRounds, rows]
  more := by
    intro k _ below
    rw [countRounds_rows k (Nat.lt_succ_iff.mp below)]
    exact List.cons_ne_nil _ _
  ends := by simp only [countRounds, if_neg (Nat.lt_irrefl bound)]

theorem countTo_first (op : UnionOp) (bound : Nat) :
    runEmpty none [] [] [] { (countTo op bound).subquery with union := none } =
      .ok ([], ⟨[.simple "n" 20], [countRow 0], "SELECT 1"⟩) := rfl

/-- The rows that counting to three brings after each other. -/
def Follows (source row : Row) : Prop :=
  ∃ k < 3, source = countRow k ∧ row = countRow (k + 1)

theorem follows_rowByRow : RowByRow Follows (countRounds 3) 4 := by
  intro k below row
  have apart : ∀ k < 4, ∀ j < 3, countRow k = countRow j → k = j := by decide +kernel
  simp only [countRounds, countRounds_rows k (Nat.lt_succ_iff.mp below), List.mem_singleton,
    exists_eq_left]
  constructor
  · intro member
    split_ifs at member with less
    · exact ⟨k, less, rfl, List.mem_singleton.mp member⟩
    · cases member
  · rintro ⟨j, less, same, rfl⟩
    cases apart k below j less same
    rw [if_pos less]
    exact List.mem_cons_self

theorem countTo_three :
    (∀ op, (materializeCte runEmpty none [] [] [] (countTo op 3)).map
        (fun ctes => ctes.lookup "r") =
      .ok (some ([countRow 0, countRow 1, countRow 2, countRow 3], countSchema))) ∧
    IsLeast {rows : Set Row | (∀ row ∈ [countRow 0], row ∈ rows) ∧
        ∀ source ∈ rows, ∀ row, Follows source row → row ∈ rows}
      {row | row ∈ allRows (countRounds 3) 4} := by
  have counted (op : UnionOp) : materializeCte runEmpty none [] [] [] (countTo op (3 : Nat)) = _ ∧ _ :=
    recursive_cte_evaluates rfl rfl (countTo_first op 3) rfl (countRounds_end (by decide))
      (Or.inr (by decide +kernel))
  refine ⟨fun op => ?_, ((counted .union).2 rfl Follows follows_rowByRow).2⟩
  have rows := (counted op).1
  rw [if_pos (by decide)] at rows
  exact congrArg (Except.map fun ctes => List.lookup "r" ctes) rows

/-- Counting to 20,000 comes to an end, but not within the limit. -/
theorem counting_past_the_limit :
    ¬ ∀ (cte : Cte) (term : SelectStmt) (start : CteContext) (base : QueryResult)
      (rounds : Nat → CteContext × List Row) (last : Nat), cte.recursive = true →
      cte.subquery.union = some (.unionAll, term) →
      runEmpty none [] [] [] { cte.subquery with union := none } = .ok (start, base) →
      rounds 0 = (start, base.rows) →
      RoundsEnd runEmpty none [] [] cte.name (cteSchema cte base.fields) term rounds last →
      materializeCte runEmpty none [] [] [] cte =
        .ok ((cte.name, allRows rounds last, cteSchema cte base.fields) :: (rounds last).1) := by
  intro claimed
  have all := claimed (countTo .unionAll (20000 : Nat)) _ _ _ (countRounds 20000) 20001 rfl rfl
    (countTo_first .unionAll 20000) rfl (countRounds_end (by decide))
  have limited : materializeCte runEmpty none [] [] [] (countTo .unionAll (20000 : Nat)) = _ :=
    (recursive_cte_evaluates rfl rfl (countTo_first .unionAll 20000) rfl
      (countRounds_end (by decide)) (Or.inl rfl)).1
  rw [limited, if_neg (by decide)] at all
  cases all

end Pantheon.Sql
