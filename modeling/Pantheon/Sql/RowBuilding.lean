import Mathlib
import Pantheon.Sql.Dml

/-!
# The expression behind a cell

INSERT fills a column with the last value that was listed for it, or else with its
default; UPDATE with the last of its assignments.  What a cell holds is what that one
expression evaluates to, and the canonical form of a vector is NULL only for NULL.
-/

set_option autoImplicit false

namespace Pantheon.Sql

open Pantheon.Lib Pantheon.Keystone

/-! ## Setting cells one after another -/

theorem bind_eq_ok {First Second : Type} {first : Except String First}
    {next : First → Except String Second} {result : Second} (ran : first >>= next = .ok result) :
    ∃ value, first = .ok value ∧ next value = .ok result := by
  cases first with
  | error error => cases ran
  | ok value => exact ⟨value, rfl, ran⟩

section Folds

variable {State Item Element : Type} {step : State → Item → Except String State}

theorem foldlM_set {items : List Item} {start final : State}
    (folded : items.foldlM step start = .ok final) (cells : State → List Element)
    (place : Item → Option Nat) (value : Item → Except String Element)
    (steps : ∀ state item next, step state item = .ok next →
      place item = none ∧ cells next = cells state ∨
        ∃ index cell, place item = some index ∧ value item = .ok cell ∧
          cells next = (cells state).set index cell) :
    (cells final).length = (cells start).length ∧ ∀ index < (cells start).length,
      match (items.filter fun item => place item = some index).getLast? with
      | none => (cells final)[index]? = (cells start)[index]?
      | some item => ∃ cell, value item = .ok cell ∧ (cells final)[index]? = some cell := by
  induction items using List.reverseRecOn generalizing final with
  | nil =>
      cases folded
      exact ⟨rfl, fun _ _ => rfl⟩
  | append_singleton items item ih =>
      rw [List.foldlM_append] at folded
      obtain ⟨middle, earlier, rest⟩ := bind_eq_ok folded
      rw [List.foldlM_cons] at rest
      obtain ⟨last, stepped, same⟩ := bind_eq_ok rest
      cases same
      obtain ⟨width, before⟩ := ih earlier
      rcases steps middle item final stepped with ⟨nowhere, same⟩ | ⟨other, cell, there, given, set⟩
      · rw [same]
        refine ⟨width, fun index inside => ?_⟩
        have skipped : [item].filter (fun item => place item = some index) = [] := by
          simp [nowhere]
        rw [List.filter_append, skipped, List.append_nil]
        exact before index inside
      · rw [set, List.length_set]
        refine ⟨width, fun index inside => ?_⟩
        rw [List.filter_append]
        by_cases here : other = index
        · subst here
          have kept : [item].filter (fun item => place item = some other) = [item] := by
            simp [there]
          rw [kept, List.getLast?_concat]
          exact ⟨cell, given, List.getElem?_set_self (by omega)⟩
        · have skipped : [item].filter (fun item => place item = some index) = [] := by
            simp [there, here]
          rw [skipped, List.append_nil, List.getElem?_set_ne here]
          exact before index inside

theorem foldlM_steps {items : List Item} : ∀ {start final : State},
    items.foldlM step start = .ok final → ∀ item ∈ items, ∃ state next,
      step state item = .ok next := by
  induction items with
  | nil =>
      intro start final _ item member
      exact absurd member List.not_mem_nil
  | cons head items ih =>
      intro start final folded item member
      rw [List.foldlM_cons] at folded
      obtain ⟨next, stepped, rest⟩ := bind_eq_ok folded
      rcases List.mem_cons.mp member with rfl | later
      · exact ⟨start, next, stepped⟩
      · exact ih rest item later

theorem mapM_eq_ok {value : Item → Except String Element} {items : List Item} :
    ∀ {results : List Element}, items.mapM value = .ok results →
      List.Forall₂ (fun item result => value item = .ok result) items results := by
  induction items with
  | nil =>
      intro results ran
      cases ran
      exact List.Forall₂.nil
  | cons item items ih =>
      intro results ran
      rw [List.mapM_cons] at ran
      obtain ⟨first, evaluated, ran⟩ := bind_eq_ok ran
      obtain ⟨rest, others, same⟩ := bind_eq_ok ran
      cases same
      exact List.Forall₂.cons evaluated (ih others)

end Folds

/-! ## The canonical form of a vector -/

section Rows

variable (env : DmlLibrary)

theorem normalizeVectorCells_congr (table : TableDef) {left right : Row} {index : Nat}
    (same : left[index]? = right[index]?) :
    (normalizeVectorCells env table left)[index]? =
      (normalizeVectorCells env table right)[index]? := by
  simp only [normalizeVectorCells, List.getElem?_map, List.getElem?_zipIdx, same]

theorem normalizeVectorCells_null (table : TableDef) (cells : Row) (index : Nat) :
    (normalizeVectorCells env table cells)[index]?.join = none ↔ cells[index]?.join = none := by
  simp only [normalizeVectorCells, List.getElem?_map, List.getElem?_zipIdx]
  rcases cells[index]? with _ | _ | data
  · exact Iff.rfl
  · simp
  · simp only [Option.map_some, Option.join_some]
    split_ifs <;> simp

end Rows

namespace Server

variable (env : DmlLibrary)

/-! ## UPDATE -/

/-- The last assignment to a column, with its place in the list. -/
def lastAssignment (table : TableDef) (assignments : List (String × Expr)) (index : Nat) :
    Option ((String × Expr) × Nat) :=
  (assignments.zipIdx.filter fun assignment =>
    table.columnPosition assignment.1.1 = some index).getLast?

/-- The cell that the assignments give a column, before vectors are brought into form: the
old one when none of them is to it. -/
def assignedCell (around : Surroundings) (table : TableDef) (assignments : List (String × Expr))
    (number : Nat) (row : Row) (index : Nat) : Except String Cell :=
  match lastAssignment table assignments index with
  | none => .ok row[index]?.join
  | some assignment =>
      evaluateCell env around number (RowContext.new row (some table.schema)) (assignment.2 + 1)
        assignment.1.2

theorem updatedCells_spec {around : Surroundings} {table : TableDef}
    {assignments : List (String × Expr)} {number : Nat} {row cells : Row}
    (updated : updatedCells env around table assignments number row = .ok cells) :
    ∃ assigned : Row, cells = normalizeVectorCells env table assigned ∧
      assigned.length = row.length ∧ ∀ index < row.length,
        assignedCell env around table assignments number row index =
          .ok assigned[index]?.join := by
  obtain ⟨assigned, folded, canonical⟩ := bind_eq_ok updated
  cases canonical
  obtain ⟨width, set⟩ := foldlM_set folded (fun cells : Row => cells)
    (fun assignment : (String × Expr) × Nat => table.columnPosition assignment.1.1)
    (fun assignment => evaluateCell env around number (RowContext.new row (some table.schema))
      (assignment.2 + 1) assignment.1.2)
    (fun cells assignment next stepped => Or.inr (by
      cases position : table.columnPosition assignment.1.1 with
      | none =>
          rw [position] at stepped
          cases stepped
      | some place =>
          rw [position] at stepped
          obtain ⟨cell, evaluated, set⟩ := bind_eq_ok stepped
          cases set
          exact ⟨place, cell, rfl, evaluated, rfl⟩))
  refine ⟨assigned, rfl, width, fun index inside => ?_⟩
  have last := set index inside
  unfold assignedCell lastAssignment
  split at last
  · rename_i nowhere
    rw [nowhere, last]
  · rename_i assignment found
    obtain ⟨cell, evaluated, held⟩ := last
    rw [found, held]
    exact evaluated

/-! ## INSERT -/

/-- The last value listed for a column, with its place among the row's expressions. -/
def listedValue (table : TableDef) (columns : List String) (values : List Expr) (index : Nat) :
    Option (Nat × Expr) :=
  if columns = [] then values[index]?.map fun value => (index, value)
  else
    (((columns.zip values).zipIdx.filter fun entry =>
      table.columnPosition entry.1.1 = some index).getLast?).map fun entry => (entry.2, entry.1.2)

/-- The expression that fills a column of a new row: the value listed for it, or else its
default.  A column without either is left NULL. -/
def filledBy (table : TableDef) (columns : List String) (values : List Expr) (index : Nat) :
    Option (Nat × Except String Expr) :=
  match listedValue table columns values index with
  | some listed => some (listed.1, .ok listed.2)
  | none => (table.columns[index]?.bind TableColumn.default).map fun parsed =>
      (values.length + index, parsed)

theorem provideStep_eq_ok {table : TableDef} {evaluate : Nat → Expr → Except String Cell}
    {state next : Row × List Bool} {entry : (String × Expr) × Nat}
    (stepped : (match table.columnPosition entry.1.1 with
      | none => (.error ("column \"" ++ entry.1.1 ++ "\" does not exist") :
          Except String (Row × List Bool))
      | some index => do
          let cell ← evaluate entry.2 entry.1.2
          .ok (state.1.set index cell, state.2.set index true)) = .ok next) :
    ∃ index cell, table.columnPosition entry.1.1 = some index ∧
      evaluate entry.2 entry.1.2 = .ok cell ∧
      next = (state.1.set index cell, state.2.set index true) := by
  cases position : table.columnPosition entry.1.1 with
  | none =>
      rw [position] at stepped
      cases stepped
  | some index =>
      rw [position] at stepped
      obtain ⟨cell, evaluated, set⟩ := bind_eq_ok stepped
      cases set
      exact ⟨index, cell, rfl, evaluated, rfl⟩

theorem provideCells_spec {table : TableDef} {columns : List String} {values : List Expr}
    {evaluate : Nat → Expr → Except String Cell} {provided : Row × List Bool}
    (given : provideCells table columns evaluate values = .ok provided) :
    provided.1.length = table.columns.length ∧ ∀ index < table.columns.length,
      match listedValue table columns values index with
      | none => provided.1[index]? = some none ∧ provided.2[index]? = some false
      | some listed => provided.2[index]? = some true ∧
          ∃ cell, evaluate listed.1 listed.2 = .ok cell ∧ provided.1[index]? = some cell := by
  unfold provideCells at given
  unfold listedValue
  by_cases all : columns = []
  · simp only [if_pos all] at given ⊢
    split_ifs at given with width
    have widths : values.length = table.columns.length := not_not.mp width
    obtain ⟨cells, evaluated, same⟩ := bind_eq_ok given
    cases same
    obtain ⟨lengths, each⟩ := List.forall₂_iff_get.mp (mapM_eq_ok evaluated)
    rw [List.length_zipIdx] at lengths
    refine ⟨lengths.symm.trans widths, fun index inside => ?_⟩
    have listed : index < values.length := by omega
    have held : index < cells.length := by omega
    have filled := each index (by simpa using listed) held
    rw [List.getElem?_eq_getElem listed, List.getElem?_eq_getElem held]
    refine ⟨by simp [inside], cells[index], ?_, rfl⟩
    simpa using filled
  · simp only [if_neg all] at given ⊢
    split_ifs at given with width
    -- the columns of the list, and which of them were given
    obtain ⟨cellsWidth, cellsSet⟩ := foldlM_set given Prod.fst
      (fun entry : (String × Expr) × Nat => table.columnPosition entry.1.1)
      (fun entry => evaluate entry.2 entry.1.2) (fun state entry next stepped => by
        obtain ⟨index, cell, position, evaluated, rfl⟩ := provideStep_eq_ok stepped
        exact Or.inr ⟨index, cell, position, evaluated, rfl⟩)
    obtain ⟨_, flagsSet⟩ := foldlM_set given Prod.snd
      (fun entry : (String × Expr) × Nat => table.columnPosition entry.1.1)
      (fun _ => .ok true) (fun state entry next stepped => by
        obtain ⟨index, cell, position, evaluated, rfl⟩ := provideStep_eq_ok stepped
        exact Or.inr ⟨index, true, position, rfl, rfl⟩)
    rw [List.length_replicate] at cellsWidth cellsSet flagsSet
    refine ⟨cellsWidth, fun index inside => ?_⟩
    have cell := cellsSet index inside
    have flag := flagsSet index inside
    cases found : ((columns.zip values).zipIdx.filter fun entry =>
        table.columnPosition entry.1.1 = some index).getLast? with
    | none =>
        rw [found] at cell flag
        rw [cell, flag]
        simp [inside]
    | some entry =>
        rw [found] at cell flag
        obtain ⟨marked, same, flag⟩ := flag
        cases same
        exact ⟨flag, cell⟩

theorem fillStep_eq_ok {evaluate : Nat → Expr → Except String Cell} {first : Nat}
    {given : List Bool} {cells next : Row} {column : TableColumn × Nat}
    (stepped : (if given[column.2]?.getD false then (.ok cells : Except String Row)
      else
        match column.1.default with
        | some parsed => do
            let expr ← parsed
            let cell ← evaluate (first + column.2) expr
            .ok (cells.set column.2 cell)
        | none =>
            if column.1.nullable then .ok cells
            else .error ("column \"" ++ column.1.name ++ "\" is NOT NULL and has no default")) =
      .ok next) :
    given[column.2]?.getD false = true ∧ next = cells ∨
      given[column.2]?.getD false = false ∧ column.1.default = none ∧
        column.1.nullable = true ∧ next = cells ∨
      given[column.2]?.getD false = false ∧ ∃ parsed expr cell,
        column.1.default = some parsed ∧ parsed = .ok expr ∧
        evaluate (first + column.2) expr = .ok cell ∧ next = cells.set column.2 cell := by
  cases held : given[column.2]?.getD false with
  | true =>
      rw [held, if_pos rfl] at stepped
      cases stepped
      exact Or.inl ⟨rfl, rfl⟩
  | false =>
      rw [held, if_neg (by decide)] at stepped
      cases default : column.1.default with
      | none =>
          simp only [default] at stepped
          split_ifs at stepped with nullable
          cases stepped
          exact Or.inr (Or.inl ⟨rfl, rfl, nullable, rfl⟩)
      | some parsed =>
          simp only [default] at stepped
          obtain ⟨expr, read, stepped⟩ := bind_eq_ok stepped
          obtain ⟨cell, evaluated, set⟩ := bind_eq_ok stepped
          cases set
          exact Or.inr (Or.inr ⟨rfl, parsed, expr, cell, rfl, read, evaluated, rfl⟩)

theorem fillDefaults_spec {table : TableDef} {evaluate : Nat → Expr → Except String Cell}
    {first : Nat} {provided : Row × List Bool} {filled : Row}
    (full : fillDefaults table evaluate first provided = .ok filled) :
    filled.length = provided.1.length ∧
      ∀ (index : Nat) (column : TableColumn), table.columns[index]? = some column →
        index < provided.1.length →
        if provided.2[index]?.getD false = true then filled[index]? = provided.1[index]?
        else match column.default with
          | none => filled[index]? = provided.1[index]? ∧ column.nullable = true
          | some parsed => ∃ expr cell, parsed = .ok expr ∧
              evaluate (first + index) expr = .ok cell ∧ filled[index]? = some cell := by
  unfold fillDefaults at full
  obtain ⟨width, set⟩ := foldlM_set full (fun cells : Row => cells)
    (fun column : TableColumn × Nat =>
      if provided.2[column.2]?.getD false = false ∧ column.1.default.isSome = true then
        some column.2 else none)
    (fun column => column.1.default.getD (.error "") >>= evaluate (first + column.2))
    (fun cells column next stepped => by
      rcases fillStep_eq_ok stepped with ⟨given, rfl⟩ | ⟨_, default, _, rfl⟩ |
        ⟨given, parsed, expr, cell, default, read, evaluated, rfl⟩
      · exact Or.inl ⟨by simp [given], rfl⟩
      · exact Or.inl ⟨by simp [default], rfl⟩
      · refine Or.inr ⟨column.2, cell, by simp [given, default], ?_, rfl⟩
        simp only [default, read]
        exact evaluated)
  refine ⟨width, fun index column there inside => ?_⟩
  have listed : (column, index) ∈ table.columns.zipIdx := by
    rw [List.mem_zipIdx_iff_getElem?]
    exact there
  have last := set index inside
  cases found : (table.columns.zipIdx.filter fun column =>
      (if provided.2[column.2]?.getD false = false ∧ column.1.default.isSome = true then
        some column.2 else none) = some index).getLast? with
  | none =>
      rw [found] at last
      have nowhere := List.getLast?_eq_none_iff.mp found
      rw [List.filter_eq_nil_iff] at nowhere
      have unfilled := nowhere (column, index) listed
      obtain ⟨state, next, stepped⟩ := foldlM_steps full (column, index) listed
      rcases fillStep_eq_ok stepped with ⟨given, _⟩ |
        ⟨given, absent, nullable, _⟩ | ⟨given, parsed, _, _, present, _⟩
      · rw [if_pos given]
        exact last
      · rw [if_neg (by simp [given]), absent]
        exact ⟨last, nullable⟩
      · exact absurd (decide_eq_true (if_pos ⟨given, by rw [present]; rfl⟩)) unfilled
  | some other =>
      rw [found] at last
      obtain ⟨member, there'⟩ := List.mem_filter.mp (List.mem_of_getLast? found)
      simp only [decide_eq_true_eq] at there'
      split_ifs at there' with both
      cases there'
      have same : other.1 = column := by
        have held := List.mem_zipIdx_iff_getElem?.mp member
        exact Option.some.inj (held.symm.trans there)
      obtain ⟨given, present⟩ := both
      obtain ⟨parsed, default⟩ := Option.isSome_iff_exists.mp present
      obtain ⟨cell, evaluated, held⟩ := last
      rw [if_neg (by simp [given]), ← same, default]
      simp only [default] at evaluated
      obtain ⟨expr, read, evaluated⟩ := bind_eq_ok evaluated
      exact ⟨expr, cell, read, evaluated, held⟩

/-- A new row has a cell for each column: NULL in a nullable column that nothing fills, and
elsewhere what the expression evaluates to. -/
theorem insertCells_spec {around : Surroundings} {table : TableDef} {columns : List String}
    {number : Nat} {values : List Expr} {cells : Row}
    (resolved : insertCells env around table columns number values = .ok cells) :
    ∃ filled : Row, cells = normalizeVectorCells env table filled ∧
      filled.length = table.columns.length ∧
      ∀ (index : Nat) (column : TableColumn), table.columns[index]? = some column →
        match filledBy table columns values index with
        | none => filled[index]?.join = none ∧ column.nullable = true
        | some (position, parsed) => ∃ expr, parsed = .ok expr ∧
            evaluateCell env around number RowContext.empty position expr =
              .ok filled[index]?.join := by
  unfold insertCells resolveInsertRow at resolved
  obtain ⟨provided, given, resolved⟩ := bind_eq_ok resolved
  obtain ⟨filled, full, canonical⟩ := bind_eq_ok resolved
  cases canonical
  obtain ⟨providedWidth, listed⟩ := provideCells_spec given
  obtain ⟨width, filling⟩ := fillDefaults_spec full
  refine ⟨filled, rfl, width.trans providedWidth, fun index column there => ?_⟩
  obtain ⟨inside, _⟩ := List.getElem?_eq_some_iff.mp there
  have value := listed index inside
  have cell := filling index column there (by omega)
  unfold filledBy
  cases found : listedValue table columns values index with
  | some entry =>
      rw [found] at value
      obtain ⟨flag, given, evaluated, held⟩ := value
      rw [flag, Option.getD_some, if_pos rfl] at cell
      refine ⟨entry.2, rfl, ?_⟩
      rw [cell, held]
      exact evaluated
  | none =>
      rw [found] at value
      obtain ⟨unset, flag⟩ := value
      rw [flag, Option.getD_some, if_neg (by decide)] at cell
      rw [there, Option.bind_some]
      cases default : column.default with
      | none =>
          rw [default] at cell
          obtain ⟨kept, nullable⟩ := cell
          rw [kept, unset]
          exact ⟨rfl, nullable⟩
      | some parsed =>
          rw [default] at cell
          obtain ⟨expr, result, read, evaluated, held⟩ := cell
          refine ⟨expr, read, ?_⟩
          rw [held]
          exact evaluated

end Server

end Pantheon.Sql
