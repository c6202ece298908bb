import Mathlib
import Pantheon.Keystone.StoredRows
import Pantheon.Sql.Copy
import Pantheon.Sql.RowBuilding

/-!
# One row by COPY and by INSERT

COPY goes to `Database::write` for every row.  INSERT resolves the row, checks it, and
goes to the transaction of its session.
-/

set_option autoImplicit false

namespace Pantheon.Sql

open Pantheon.Lib Pantheon.Keystone

variable {ETag : Type} [DecidableEq ETag] (env : DmlLibrary)

/-! ## The same state -/

/-- The engine with its store, and the open transactions: what any session can read now or
after a COMMIT or ROLLBACK. -/
def SameState (left right : Server ETag) : Prop :=
  left.database.host = right.database.host ∧ left.database.handles = right.database.handles

/-- Two servers that differ at most in the change feed and in the record of calls. -/
structure Server.Alike (left right : Server ETag) : Prop where
  host : left.database.host = right.database.host
  handles : left.database.handles = right.database.handles
  role : left.database.role = right.database.role
  tables : left.tables = right.tables
  binaryJson : left.binaryJson = right.binaryJson

namespace Server

omit [DecidableEq ETag] in
theorem Alike.symm {left right : Server ETag} (alike : left.Alike right) : right.Alike left :=
  ⟨alike.host.symm, alike.handles.symm, alike.role.symm, alike.tables.symm, alike.binaryJson.symm⟩

omit [DecidableEq ETag] in
theorem Alike.trans {left middle right : Server ETag} (first : left.Alike middle)
    (second : middle.Alike right) : left.Alike right :=
  ⟨first.host.trans second.host, first.handles.trans second.handles,
    first.role.trans second.role, first.tables.trans second.tables,
    first.binaryJson.trans second.binaryJson⟩

omit [DecidableEq ETag] in
theorem Alike.refl (server : Server ETag) : server.Alike server := ⟨rfl, rfl, rfl, rfl, rfl⟩

omit [DecidableEq ETag] in
theorem publishCdcEvent_frame (server : Server ETag) (event : CdcEvent) (fails : Bool) :
    (server.publishCdcEvent event fails).database = server.database ∧
      (server.publishCdcEvent event fails).tables = server.tables ∧
      (server.publishCdcEvent event fails).binaryJson = server.binaryJson := by
  unfold publishCdcEvent
  split_ifs <;> exact ⟨rfl, rfl, rfl⟩

/-- `Database::write` of a row. -/
def directWrite (server : Server ETag) (io : Io) (table : TableDef) (cells : Row) :
    Keystone.Database ETag × Except DatabaseError Unit :=
  server.database.autocommit io table.name (rowKeyOf table cells)
    (some (buildRowValue env.serde table.schema server.binaryJson cells))

theorem directWrite_frame (server : Server ETag) (io : Io) (table : TableDef) (cells : Row) :
    (server.directWrite env io table cells).1.handles = server.database.handles ∧
      (server.directWrite env io table cells).1.role = server.database.role :=
  server.database.autocommit_frame io _ _ _

theorem directWrite_reader (server : Server ETag) (reader : server.database.role = .reader)
    (io : Io) (table : TableDef) (cells : Row) :
    Alike { server with database := (server.directWrite env io table cells).1 } server ∧
      (server.directWrite env io table cells).2.isOk = false := by
  obtain ⟨handles, role⟩ := server.directWrite_frame env io table cells
  obtain ⟨host, refused⟩ := server.database.autocommit_reader reader io table.name
    (rowKeyOf table cells) (some (buildRowValue env.serde table.schema server.binaryJson cells))
  refine ⟨⟨host, handles, role, rfl, rfl⟩, ?_⟩
  rw [directWrite, refused]
  rfl

theorem directWrite_congr {left right : Server ETag} (alike : left.Alike right) (io : Io)
    {table : TableDef} {cells other : Row} (key : rowKeyOf table cells = rowKeyOf table other)
    (value : buildRowValue env.serde table.schema right.binaryJson cells =
      buildRowValue env.serde table.schema right.binaryJson other) :
    Alike { left with database := (left.directWrite env io table cells).1 }
        { right with database := (right.directWrite env io table other).1 } ∧
      (left.directWrite env io table cells).2 = (right.directWrite env io table other).2 := by
  obtain ⟨leftHandles, leftRole⟩ := left.directWrite_frame env io table cells
  obtain ⟨rightHandles, rightRole⟩ := right.directWrite_frame env io table other
  have same := Database.autocommit_congr alike.host alike.role io table.name (rowKeyOf table other)
    (some (buildRowValue env.serde table.schema right.binaryJson other))
  have exact : (left.directWrite env io table cells).1.host =
        (right.directWrite env io table other).1.host ∧
      (left.directWrite env io table cells).2 = (right.directWrite env io table other).2 := by
    rw [directWrite, directWrite, alike.binaryJson, key, value]
    exact same
  exact ⟨⟨exact.1, leftHandles.trans (alike.handles.trans rightHandles.symm),
    leftRole.trans (alike.role.trans rightRole.symm), alike.tables, alike.binaryJson⟩, exact.2⟩

/-- The row an INSERT writes, when it gets past the checks. -/
def acceptedCells (server : Server ETag) (session : Option Nat) (around : Surroundings)
    (table : TableDef) (columns : List String) (number : Nat) (values : List Expr) :
    Except String Row := do
  let cells ← insertCells env around table columns number values
  server.checkRow env session table cells none
  .ok cells

theorem insertRow_rejected {server : Server ETag} {session : Option Nat} {around : Surroundings}
    {table : TableDef} {columns : List String} {number : Nat} {values : List Expr} {error : String}
    (rejected : server.acceptedCells env session around table columns number values =
      .error error) :
    server.insertRow env session around table columns number values = (server, .error error) := by
  unfold acceptedCells at rejected
  unfold insertRow
  cases resolved : insertCells env around table columns number values with
  | error message =>
      rw [resolved] at rejected
      cases rejected
      rfl
  | ok cells =>
      rw [resolved] at rejected
      cases checked : server.checkRow env session table cells none with
      | error message =>
          simp only [bind, Except.bind, checked] at rejected
          cases rejected
          simp only [checked]
      | ok =>
          simp only [bind, Except.bind, checked] at rejected
          cases rejected

theorem insertRow_accepted {server : Server ETag} {session : Option Nat} {around : Surroundings}
    {table : TableDef} {columns : List String} {number : Nat} {values : List Expr} {cells : Row}
    (accepted : server.acceptedCells env session around table columns number values = .ok cells) :
    server.insertRow env session around table columns number values =
      server.writeRow env session around number table .insert (rowKeyOf table cells) none cells := by
  unfold acceptedCells at accepted
  unfold insertRow
  cases resolved : insertCells env around table columns number values with
  | error message =>
      rw [resolved] at accepted
      cases accepted
  | ok resolvedCells =>
      rw [resolved] at accepted
      cases checked : server.checkRow env session table resolvedCells none with
      | error message =>
          simp only [bind, Except.bind, checked] at accepted
          cases accepted
      | ok =>
          simp only [bind, Except.bind, checked] at accepted
          cases accepted
          simp only [checked]

/-! ## One row -/

section Row

variable {env} {left right : Server ETag} {session : Option Nat} {around : Surroundings}
  {table : TableDef} {columns : List String} {target : List Nat} {number : Nat} {row : TextRow}

variable (env session around table columns target number row) in
/-- When the copy of a row does what its INSERT does.  `right` is the server that has run
the INSERT of the rows before. -/
inductive CopyRepeats (right : Server ETag) : Prop where
  /-- Both refuse a row of another width. -/
  | otherWidth (width : row.cells.length ≠ target.length)
  /-- A reader refuses both, unless the INSERT would be staged. -/
  | refused (reader : right.database.role = .reader)
      (unstaged : session = none ∨ ∃ error,
        right.acceptedCells env session around table columns number row.values = .error error)
  /-- Outside a transaction INSERT accepts the row, and stores what the line says with NULL
  in the other columns. -/
  | inserted (outside : session = none) (cells : Row)
      (accepted : right.acceptedCells env session around table columns number row.values =
        .ok cells)
      (key : rowKeyOf table cells = rowKeyOf table (copiedCells table target row.cells))
      (value : buildRowValue env.serde table.schema right.binaryJson cells =
        buildRowValue env.serde table.schema right.binaryJson
          (copiedCells table target row.cells))

theorem positions_of_targetColumns (listed : columns ≠ [])
    (found : targetColumns table columns = .ok target) :
    List.Forall₂ (fun name index => table.columnPosition name = some index) columns target := by
  rw [targetColumns, if_neg listed] at found
  refine (mapM_eq_ok found).imp fun name index held => ?_
  split at held
  · cases held
  · rename_i known
    cases held
    exact known

variable (env around number) in
theorem insertCells_width (found : targetColumns table columns = .ok target)
    (width : row.cells.length ≠ target.length) : ∃ error,
      insertCells env around table columns number row.values = .error error := by
  have values : row.values.length = row.cells.length := by
    rw [TextRow.values, TextRow.cells, List.length_map, List.length_map]
  unfold insertCells resolveInsertRow provideCells
  by_cases all : columns = []
  · rw [targetColumns, if_pos all] at found
    cases found
    rw [List.length_range] at width
    rw [if_pos all, if_pos (values ▸ width)]
    exact ⟨_, rfl⟩
  · rw [← (positions_of_targetColumns all found).length_eq] at width
    rw [if_neg all, if_pos fun same => width (values.symm.trans same.symm)]
    exact ⟨_, rfl⟩

theorem foldlM_error {State Item : Type} {step : State → Item → Except String State} {item : Item}
    (fails : ∀ state, ∃ error, step state item = .error error) {items : List Item}
    (member : item ∈ items) : ∀ start, ∃ error, items.foldlM step start = .error error := by
  induction items with
  | nil => exact absurd member List.not_mem_nil
  | cons head items ih =>
      intro start
      rw [List.foldlM_cons]
      rcases List.mem_cons.mp member with same | later
      · obtain ⟨error, failed⟩ := fails start
        exact ⟨error, by rw [← same, failed]; rfl⟩
      · cases stepped : step start head with
        | error error => exact ⟨error, rfl⟩
        | ok next => exact ih later next

theorem bind_error {First Second : Type} {first : Except String First}
    {next : First → Except String Second} (fails : ∃ error, first = .error error) :
    ∃ error, first >>= next = .error error := by
  obtain ⟨error, failed⟩ := fails
  exact ⟨error, by rw [failed]; rfl⟩

theorem unknown_of_targetColumns {message : String}
    (unknown : targetColumns table columns = .error message) :
    columns ≠ [] ∧ ∃ name ∈ columns, table.columnPosition name = none := by
  unfold targetColumns at unknown
  split_ifs at unknown with all
  refine ⟨all, ?_⟩
  by_contra known
  push Not at known
  clear all
  induction columns with
  | nil => cases unknown
  | cons name columns ih =>
      rw [List.mapM_cons] at unknown
      cases position : table.columnPosition name with
      | none => exact known name List.mem_cons_self position
      | some index =>
          simp only [position, bind, Except.bind] at unknown
          split at unknown
          · rename_i error failed
            cases unknown
            exact ih failed fun other member => known other (List.mem_cons_of_mem _ member)
          · cases unknown

variable (env around number) in
theorem insertCells_unknown {message : String}
    (unknown : targetColumns table columns = .error message) (values : List Expr) : ∃ error,
      insertCells env around table columns number values = .error error := by
  obtain ⟨listed, name, member, missing⟩ := unknown_of_targetColumns unknown
  unfold insertCells resolveInsertRow provideCells
  rw [if_neg listed]
  by_cases widths : columns.length ≠ values.length
  · rw [if_pos widths]
    exact ⟨_, rfl⟩
  · rw [if_neg widths]
    have same : columns.length = values.length := not_not.mp widths
    obtain ⟨position, inside, exact⟩ := List.getElem_of_mem member
    have within : position < values.length := by omega
    have entry : ((name, values[position]), position) ∈ (columns.zip values).zipIdx := by
      rw [List.mem_zipIdx_iff_getElem?, List.getElem?_zip_eq_some]
      refine ⟨?_, List.getElem?_eq_getElem within⟩
      rw [← exact]
      exact List.getElem?_eq_getElem inside
    apply bind_error
    refine foldlM_error (fun state => ?_) entry _
    simp only [missing]
    exact ⟨_, rfl⟩

variable (env session around table number) in
theorem writeRow_spec (server : Server ETag) (op : CdcOp) (key : Bytes)
    (before : Option Row) (cells : Row) :
    let written := server.database.txnWrite session (around.io number) table.name key
      (buildRowValue env.serde table.schema server.binaryJson cells)
    let outcome := server.writeRow env session around number table op key before cells
    outcome.1.database = written.1 ∧ outcome.1.tables = server.tables ∧
      outcome.1.binaryJson = server.binaryJson ∧ outcome.2.isOk = written.2.isOk := by
  simp only [writeRow]
  cases server.database.txnWrite session (around.io number) table.name key
      (buildRowValue env.serde table.schema server.binaryJson cells) with
  | mk database result =>
      cases result with
      | error error => exact ⟨rfl, rfl, rfl, rfl⟩
      | ok =>
          obtain ⟨sameDatabase, sameTables, sameJson⟩ := publishCdcEvent_frame
            { server with database := database } _ (around.publishFails number)
          exact ⟨sameDatabase, sameTables, sameJson, rfl⟩

variable (env around table number) in
theorem insertCopyRow_spec (server : Server ETag) (width : row.cells.length = target.length) :
    let written := server.directWrite env (around.io number) table
      (copiedCells table target row.cells)
    let copied := server.insertCopyRow env around number table target row.cells
    copied.1 = { server with database := written.1 } ∧ copied.2.isOk = written.2.isOk := by
  simp only [insertCopyRow, directWrite, width, ne_eq, not_true_eq_false, if_false]
  cases server.database.autocommit (around.io number) table.name
      (rowKeyOf table (copiedCells table target row.cells))
      (some (buildRowValue env.serde table.schema server.binaryJson
        (copiedCells table target row.cells))) with
  | mk database result => cases result <;> exact ⟨rfl, rfl⟩

variable (env around table number) in
theorem insertCopyRow_width (server : Server ETag) (width : row.cells.length ≠ target.length) :
    ∃ error, server.insertCopyRow env around number table target row.cells =
      (server, .error error) :=
  ⟨_, if_pos width⟩

variable (env around table target number row) in
theorem insertCopyRow_reader (server : Server ETag) (reader : server.database.role = .reader) :
    let copied := server.insertCopyRow env around number table target row.cells
    copied.1.Alike server ∧ copied.2.isOk = false := by
  by_cases width : row.cells.length = target.length
  · obtain ⟨exact, ok⟩ := server.insertCopyRow_spec env around table number width
    obtain ⟨alike, refused⟩ := server.directWrite_reader env reader (around.io number) table
      (copiedCells table target row.cells)
    refine ⟨?_, ok.trans refused⟩
    rw [exact]
    exact alike
  · obtain ⟨error, exact⟩ := server.insertCopyRow_width env around table number width
    simp only [exact]
    exact ⟨Alike.refl server, rfl⟩

theorem insertRow_outside (server : Server ETag) {cells : Row}
    (accepted : server.acceptedCells env none around table columns number row.values = .ok cells) :
    let written := server.directWrite env (around.io number) table cells
    let inserted := server.insertRow env none around table columns number row.values
    inserted.1.Alike { server with database := written.1 } ∧ inserted.2.isOk = written.2.isOk := by
  obtain ⟨database, tables, binaryJson, ok⟩ := server.writeRow_spec env none around table number
    .insert (rowKeyOf table cells) none cells
  simp only [insertRow_accepted env accepted]
  refine ⟨⟨?_, ?_, ?_, tables, binaryJson⟩, ok⟩
  all_goals
    rw [database]
    rfl

variable (env around table columns number row) in
theorem insertRow_reader (server : Server ETag) (reader : server.database.role = .reader) :
    let inserted := server.insertRow env none around table columns number row.values
    inserted.1.Alike server ∧ inserted.2.isOk = false := by
  cases accepted : server.acceptedCells env none around table columns number row.values with
  | error message =>
      simp only [insertRow_rejected env accepted]
      exact ⟨Alike.refl server, rfl⟩
  | ok cells =>
      obtain ⟨written, ok⟩ := server.insertRow_outside accepted
      obtain ⟨alike, refused⟩ := server.directWrite_reader env reader (around.io number) table cells
      exact ⟨written.trans alike, ok.trans refused⟩

variable (env session around number) in
omit [DecidableEq ETag] in
theorem rejected_of_width (found : targetColumns table columns = .ok target)
    (width : row.cells.length ≠ target.length) (server : Server ETag) : ∃ error,
      server.acceptedCells env session around table columns number row.values = .error error := by
  obtain ⟨error, resolved⟩ := insertCells_width env around number found width
  refine ⟨error, ?_⟩
  rw [Server.acceptedCells, resolved]
  rfl

theorem copy_step (found : targetColumns table columns = .ok target) (alike : left.Alike right)
    (repeats : right.CopyRepeats env session around table columns target number row) :
    let copied := left.insertCopyRow env around number table target row.cells
    let inserted := right.insertRow env session around table columns number row.values
    copied.1.Alike inserted.1 ∧ copied.2.isOk = inserted.2.isOk := by
  cases repeats with
  | otherWidth width =>
      obtain ⟨copyError, copied⟩ := left.insertCopyRow_width env around table number width
      obtain ⟨error, rejected⟩ := rejected_of_width env session around number found width right
      simp only [copied, insertRow_rejected env rejected]
      exact ⟨alike, rfl⟩
  | refused reader unstaged =>
      obtain ⟨same, refused⟩ := left.insertCopyRow_reader env around table target number row
        (alike.role.trans reader)
      rcases unstaged with outside | rejected
      · subst outside
        obtain ⟨sameRight, refusedRight⟩ := right.insertRow_reader env around table columns number
          row reader
        exact ⟨(same.trans alike).trans sameRight.symm, refused.trans refusedRight.symm⟩
      · obtain ⟨error, rejected⟩ := rejected
        simp only [insertRow_rejected env rejected]
        exact ⟨same.trans alike, refused⟩
  | inserted outside cells accepted key value =>
      subst outside
      have width : row.cells.length = target.length := by
        by_contra other
        obtain ⟨error, rejected⟩ := rejected_of_width env none around number found other right
        rw [accepted] at rejected
        cases rejected
      obtain ⟨copied, ok⟩ := left.insertCopyRow_spec env around table number width
      obtain ⟨inserted, insertedOk⟩ := right.insertRow_outside accepted
      obtain ⟨written, result⟩ := directWrite_congr env alike (around.io number) key.symm
        value.symm
      refine ⟨Alike.trans ?_ inserted.symm, ?_⟩
      · rw [copied]
        exact written
      · rw [ok, insertedOk, result]

theorem copy_step_only (alike : left.Alike right) (append : (around.io number).append = none)
    (same : SameState (left.insertCopyRow env around number table target row.cells).1
      (right.insertRow env session around table columns number row.values).1)
    (ok : (left.insertCopyRow env around number table target row.cells).2.isOk =
      (right.insertRow env session around table columns number row.values).2.isOk) :
    right.CopyRepeats env session around table columns target number row := by
  by_cases width : row.cells.length = target.length
  · by_cases reader : right.database.role = .reader
    · apply CopyRepeats.refused reader
      cases session with
      | none => exact Or.inl rfl
      | some index =>
          right
          cases accepted : right.acceptedCells env (some index) around table columns number
              row.values with
          | error message => exact ⟨message, rfl⟩
          | ok cells =>
              have refused := (left.insertCopyRow_reader env around table target number row
                (alike.role.trans reader)).2
              rw [refused, insertRow_accepted env accepted] at ok
              have written := right.writeRow_spec env (some index) around table number .insert
                (rowKeyOf table cells) none cells
              rw [written.2.2.2] at ok
              cases ok
    · obtain ⟨copied, _⟩ := left.insertCopyRow_spec env around table number width
      have logged := left.database.autocommit_history (fun is => reader (alike.role.symm.trans is))
        append table.name (rowKeyOf table (copiedCells table target row.cells))
        (some (buildRowValue env.serde table.schema left.binaryJson
          (copiedCells table target row.cells)))
      have history := congrArg Host.history same.1
      rw [copied] at history
      have grown := logged.symm.trans history
      cases accepted : right.acceptedCells env session around table columns number row.values with
      | error message =>
          rw [insertRow_rejected env accepted, alike.host] at grown
          have lengths := congrArg List.length grown
          simp at lengths
      | ok cells =>
          have written := right.writeRow_spec env session around table number .insert
            (rowKeyOf table cells) none cells
          rw [insertRow_accepted env accepted, written.1] at grown
          cases session with
          | some index =>
              have lengths := congrArg List.length grown
              rw [alike.host] at lengths
              simp [Database.txnWrite, Database.restage] at lengths
          | none =>
              refine CopyRepeats.inserted rfl cells accepted ?_ ?_
              all_goals
                have written := right.database.autocommit_history reader append table.name
                  (rowKeyOf table cells)
                  (some (buildRowValue env.serde table.schema right.binaryJson cells))
                have commits := grown.trans written
                rw [alike.host, alike.binaryJson] at commits
                have entries := (Commit.mk.inj (List.singleton_inj.mp
                  (List.append_cancel_left commits))).2
                obtain ⟨_, key, value⟩ := BatchEntry.mk.inj (List.singleton_inj.mp entries)
              · exact (List.append_cancel_left key).symm
              · exact (Option.some.inj value).symm
  · exact CopyRepeats.otherWidth width

end Row

end Server

/-! ## Rows that INSERT resolves to the cells of their line -/

section Resolved

variable {env : DmlLibrary} {around : Surroundings} {table : TableDef} {columns : List String}
  {target : List Nat} {number : Nat} {row : TextRow}

def EvaluatesTexts (env : DmlLibrary) (around : Surroundings) : Prop :=
  ∀ number position text, Server.evaluateCell env around number RowContext.empty position
    (TextRow.literal text) = .ok (text.map utf8Bytes)

/-- What a column that is not in the target gets from INSERT is NULL. -/
def TakesNull (env : DmlLibrary) (around : Surroundings) (number position : Nat)
    (column : TableColumn) : Prop :=
  match column.default with
  | none => column.nullable = true
  | some parsed => ∃ expr, parsed = .ok expr ∧
      Server.evaluateCell env around number RowContext.empty position expr = .ok none

theorem getElem?_foldl_set_of_notMem {index : Nat} : ∀ {target : List Nat}, index ∉ target →
    ∀ raw cells : Row, ((target.zip raw).foldl (fun cells entry => cells.set entry.1 entry.2)
      cells)[index]? = cells[index]? := by
  intro target
  induction target with
  | nil => intro _ raw cells; rfl
  | cons position target ih =>
      intro absent raw cells
      rw [List.mem_cons, not_or] at absent
      cases raw with
      | nil => rfl
      | cons cell raw =>
          rw [List.zip_cons_cons, List.foldl_cons, ih absent.2, List.getElem?_set_ne]
          exact Ne.symm absent.1

theorem getElem?_foldl_set_true {index : Nat} (target : List Nat) : ∀ flags : List Bool,
    index < flags.length →
      (target.foldl (fun flags position => flags.set position true) flags)[index]? =
        if index ∈ target then some true else flags[index]? := by
  induction target with
  | nil => exact fun flags _ => (if_neg List.not_mem_nil).symm
  | cons position target ih =>
      intro flags inside
      rw [List.foldl_cons, ih _ (by rwa [List.length_set]), List.getElem?_set]
      by_cases same : position = index
      · simp [same, inside]
      · simp [same, Ne.symm same]

theorem foldl_set_range (raw : Row) : ∀ front rest : Row, rest.length = raw.length →
    ((List.range' front.length raw.length).zip raw).foldl
      (fun cells entry => cells.set entry.1 entry.2) (front ++ rest) = front ++ raw := by
  induction raw with
  | nil =>
      intro front rest length
      rw [List.length_nil] at length
      rw [List.eq_nil_of_length_eq_zero length]
      rfl
  | cons cell raw ih =>
      intro front rest length
      cases rest with
      | nil => exact absurd length (Nat.succ_ne_zero _).symm
      | cons head rest =>
          have placed : (front ++ head :: rest).set front.length cell = (front ++ [cell]) ++ rest := by
            rw [List.set_append_right _ _ (le_refl _), Nat.sub_self, List.set_cons_zero,
              List.append_assoc, List.singleton_append]
          have later := ih (front ++ [cell]) rest (Nat.succ.inj length)
          rw [List.length_append, List.length_singleton] at later
          rw [List.length_cons, List.range'_succ, List.zip_cons_cons, List.foldl_cons, placed, later,
            List.append_assoc, List.singleton_append]

theorem mapM_literals (texts : List (Option String)) (evaluates : EvaluatesTexts env around) :
    ∀ start, ((texts.map TextRow.literal).zipIdx start).mapM
        (fun value => Server.evaluateCell env around number RowContext.empty value.2 value.1) =
      .ok (texts.map (Option.map utf8Bytes)) := by
  induction texts with
  | nil => intro start; rfl
  | cons text texts ih =>
      intro start
      rw [List.map_cons, List.zipIdx_cons, List.mapM_cons, evaluates number start text, ih]
      rfl

variable (table target) in
theorem foldlM_named
    {step : Row × List Bool → (String × Expr) × Nat → Except String (Row × List Bool)}
    (steps : ∀ provided name index text position, table.columnPosition name = some index →
      step provided ((name, TextRow.literal text), position) =
        .ok (provided.1.set index (text.map utf8Bytes), provided.2.set index true))
    {names : List String}
    (positions : List.Forall₂ (fun name index => table.columnPosition name = some index) names
      target) :
    ∀ (texts : List (Option String)) (start : Nat) (provided : Row × List Bool),
      ((names.zip (texts.map TextRow.literal)).zipIdx start).foldlM step provided =
        .ok ((target.zip (texts.map (Option.map utf8Bytes))).foldl
            (fun cells entry => cells.set entry.1 entry.2) provided.1,
          (target.take texts.length).foldl (fun flags position => flags.set position true)
            provided.2) := by
  induction positions with
  | nil =>
      intro texts start provided
      rw [List.take_nil]
      rfl
  | cons position _ ih =>
      intro texts start provided
      cases texts with
      | nil => rfl
      | cons text texts =>
          rw [List.map_cons, List.zip_cons_cons, List.zipIdx_cons, List.foldlM_cons,
            steps _ _ _ _ _ position]
          exact ih texts (start + 1) _

variable (number) in
theorem provideCells_copied (evaluates : EvaluatesTexts env around)
    (found : targetColumns table columns = .ok target)
    (width : row.cells.length = target.length) : ∃ flags : List Bool,
      provideCells table columns (Server.evaluateCell env around number RowContext.empty)
          row.values = .ok (copiedCells table target row.cells, flags) ∧
        ∀ index < table.columns.length, flags[index]? = some (decide (index ∈ target)) := by
  have values : row.values.length = row.cells.length := by
    rw [TextRow.values, TextRow.cells, List.length_map, List.length_map]
  unfold provideCells
  by_cases all : columns = []
  · unfold targetColumns at found
    rw [if_pos all] at found
    cases found
    rw [List.length_range] at width
    rw [if_pos all, if_neg (by omega), TextRow.values, mapM_literals row.texts evaluates 0]
    refine ⟨List.replicate table.columns.length true, ?_, ?_⟩
    · have copied : copiedCells table (List.range table.columns.length) row.cells = row.cells := by
        have placed := foldl_set_range row.cells [] (List.replicate table.columns.length none)
          (by rw [List.length_replicate, width])
        rw [List.length_nil, width, ← List.range_eq_range', List.nil_append, List.nil_append]
          at placed
        exact placed
      rw [copied]
      rfl
    · intro index inside
      rw [List.getElem?_replicate, if_pos inside, decide_eq_true (List.mem_range.mpr inside)]
  · rw [if_neg all, if_neg (by
      rw [not_not, values, width]
      exact (Server.positions_of_targetColumns all found).length_eq)]
    refine ⟨target.foldl (fun flags position => flags.set position true)
      (List.replicate table.columns.length false), ?_, ?_⟩
    · have texts : row.texts.length = target.length := by
        rw [← width, TextRow.cells, List.length_map]
      rw [TextRow.values, foldlM_named table target ?_
        (Server.positions_of_targetColumns all found), texts, List.take_length]
      · rfl
      · intro provided name index text position known
        simp only [known, evaluates number position text]
        rfl
    · intro index inside
      rw [getElem?_foldl_set_true _ _ (by rwa [List.length_replicate]), List.getElem?_replicate,
        if_pos inside]
      split_ifs with member <;> simp [member]

theorem foldlM_fixed {State Item : Type} {step : State → Item → Except String State}
    {state : State} {items : List Item} (fixed : ∀ item ∈ items, step state item = .ok state) :
    items.foldlM step state = .ok state := by
  induction items with
  | nil => rfl
  | cons item items ih =>
      rw [List.foldlM_cons, fixed item List.mem_cons_self]
      exact ih fun other member => fixed other (List.mem_cons_of_mem _ member)

/-- Where the columns that are left out take NULL and the vectors are canonical, INSERT
resolves a row to the cells of its line. -/
theorem insertCells_copied (evaluates : EvaluatesTexts env around)
    (found : targetColumns table columns = .ok target)
    (width : row.cells.length = target.length)
    (omitted : ∀ column ∈ table.columns.zipIdx, column.2 ∉ target →
      TakesNull env around number (row.values.length + column.2) column.1)
    (vectors : normalizeVectorCells env table (copiedCells table target row.cells) =
      copiedCells table target row.cells) :
    Server.insertCells env around table columns number row.values =
      .ok (copiedCells table target row.cells) := by
  obtain ⟨flags, provided, given⟩ := provideCells_copied number evaluates found width
  have filled : fillDefaults table (Server.evaluateCell env around number RowContext.empty)
      row.values.length (copiedCells table target row.cells, flags) =
        .ok (copiedCells table target row.cells) := by
    apply foldlM_fixed
    intro column member
    have inside : column.2 < table.columns.length := (List.mem_zipIdx' member).1
    by_cases flagged : flags[column.2]?.getD false = true
    · exact if_pos flagged
    · have absent : column.2 ∉ target := by
        intro targeted
        rw [given column.2 inside, decide_eq_true targeted] at flagged
        exact flagged rfl
      have empty : (copiedCells table target row.cells)[column.2]? = some none := by
        rw [copiedCells, getElem?_foldl_set_of_notMem absent, List.getElem?_replicate,
          if_pos inside]
      have takes := omitted column member absent
      rw [if_neg flagged]
      unfold TakesNull at takes
      cases default : column.1.default with
      | none =>
          rw [default] at takes
          exact if_pos takes
      | some parsed =>
          rw [default] at takes
          obtain ⟨expr, parsedOk, evaluated⟩ := takes
          obtain ⟨within, value⟩ := List.getElem?_eq_some_iff.mp empty
          have unchanged := List.set_getElem_self within
          rw [value] at unchanged
          simp only [parsedOk, bind, Except.bind, evaluated, unchanged]
  unfold Server.insertCells resolveInsertRow
  rw [provided]
  simp only [bind, Except.bind]
  rw [filled]
  simp only [vectors]

theorem copyRepeats_of_checked {ETag : Type} {server : Server ETag}
    (evaluates : EvaluatesTexts env around) (found : targetColumns table columns = .ok target)
    (width : row.cells.length = target.length)
    (omitted : ∀ column ∈ table.columns.zipIdx, column.2 ∉ target →
      TakesNull env around number (row.values.length + column.2) column.1)
    (vectors : normalizeVectorCells env table (copiedCells table target row.cells) =
      copiedCells table target row.cells)
    (checked : server.checkRow env none table (copiedCells table target row.cells) none = .ok ()) :
    server.CopyRepeats env none around table columns target number row := by
  refine .inserted rfl (copiedCells table target row.cells) ?_ rfl rfl
  rw [Server.acceptedCells, insertCells_copied evaluates found width omitted vectors]
  simp only [bind, Except.bind, checked]

/-- The converse: a row that INSERT resolves to NULL wherever the line says NULL. -/
theorem of_insertCells (evaluates : EvaluatesTexts env around)
    (found : targetColumns table columns = .ok target)
    (width : row.cells.length = target.length) {cells : Row}
    (resolved : Server.insertCells env around table columns number row.values = .ok cells)
    (null : ∀ index : Nat, (copiedCells table target row.cells)[index]?.join = none →
      cells[index]?.join = none) :
    (∀ column ∈ table.columns.zipIdx, column.2 ∉ target →
      TakesNull env around number (row.values.length + column.2) column.1) ∧
      cells = normalizeVectorCells env table (copiedCells table target row.cells) := by
  obtain ⟨flags, provided, given⟩ := provideCells_copied number evaluates found width
  unfold Server.insertCells resolveInsertRow at resolved
  obtain ⟨_, same, resolved⟩ := bind_eq_ok resolved
  cases provided.symm.trans same
  obtain ⟨filled, full, canonical⟩ := bind_eq_ok resolved
  cases canonical
  obtain ⟨filledWidth, filling⟩ := Server.fillDefaults_spec full
  dsimp only at filledWidth filling
  have copiedWidth : (copiedCells table target row.cells).length = table.columns.length :=
    (Server.provideCells_spec provided).1
  have omitted : ∀ (index : Nat) column, table.columns[index]? = some column → index ∉ target →
      TakesNull env around number (row.values.length + index) column ∧
        filled[index]? = (copiedCells table target row.cells)[index]? := by
    intro index column there absent
    obtain ⟨inside, _⟩ := List.getElem?_eq_some_iff.mp there
    have cell := filling index column there (by rwa [copiedWidth])
    have empty : (copiedCells table target row.cells)[index]? = some none := by
      rw [copiedCells, getElem?_foldl_set_of_notMem absent, List.getElem?_replicate,
        if_pos inside]
    rw [given index inside, decide_eq_false absent, if_neg (by decide)] at cell
    unfold TakesNull
    cases default : column.default with
    | none =>
        rw [default] at cell
        exact ⟨cell.2, cell.1⟩
    | some parsed =>
        rw [default] at cell
        obtain ⟨expr, result, read, evaluated, held⟩ := cell
        have gone := (normalizeVectorCells_null env table filled index).mp
          (null index (by rw [empty]; rfl))
        rw [held, Option.join_some] at gone
        subst gone
        exact ⟨⟨expr, read, evaluated⟩, held.trans empty.symm⟩
  refine ⟨fun column member absent => (omitted column.2 column.1
    (List.mem_zipIdx_iff_getElem?.mp member) absent).1,
    congrArg _ (List.ext_getElem? fun index => ?_)⟩
  cases there : table.columns[index]? with
  | none =>
      have outside := List.getElem?_eq_none_iff.mp there
      rw [List.getElem?_eq_none (by omega), List.getElem?_eq_none (by omega)]
  | some column =>
      obtain ⟨inside, _⟩ := List.getElem?_eq_some_iff.mp there
      by_cases targeted : index ∈ target
      · have cell := filling index column there (by rwa [copiedWidth])
        rwa [given index inside, decide_eq_true targeted, Option.getD_some, if_pos rfl] at cell
      · exact (omitted index column there targeted).2

/-- Outside a transaction, on a node that writes, a row whose cells are stored in fewer than
2^31 bytes each is copied as INSERT inserts it exactly where the columns left out take NULL, the
vectors are canonical and the checks pass. -/
theorem copyRepeats_iff {ETag : Type} {server : Server ETag}
    (writer : server.database.role ≠ .reader) (evaluates : EvaluatesTexts env around)
    (found : targetColumns table columns = .ok target) (width : row.cells.length = target.length)
    (short : ∀ cells, cells = copiedCells table target row.cells ∨
      server.acceptedCells env none around table columns number row.values = .ok cells →
      ∀ cell ∈ storedCells env.serde table.schema server.binaryJson cells, ∀ data ∈ cell,
        data.length < 2 ^ 31) :
    server.CopyRepeats env none around table columns target number row ↔
      (∀ column ∈ table.columns.zipIdx, column.2 ∉ target →
        TakesNull env around number (row.values.length + column.2) column.1) ∧
      normalizeVectorCells env table (copiedCells table target row.cells) =
        copiedCells table target row.cells ∧
      server.checkRow env none table (copiedCells table target row.cells) none = .ok () := by
  refine ⟨fun repeats => ?_, fun ⟨omitted, vectors, checked⟩ =>
    copyRepeats_of_checked evaluates found width omitted vectors checked⟩
  cases repeats with
  | otherWidth other => exact absurd width other
  | refused reader => exact absurd reader writer
  | inserted _ cells accepted _ value =>
      rw [buildRowValue_eq, buildRowValue_eq] at value
      have stored := encodeRowCells_inj (short cells (Or.inr accepted)) (short _ (Or.inl rfl)) value
      have each : ∀ index : Nat, cells[index]?.map (Option.map (storedCell env.serde
          server.binaryJson table.schema.columns[index]?)) =
            (copiedCells table target row.cells)[index]?.map (Option.map (storedCell env.serde
              server.binaryJson table.schema.columns[index]?)) := by
        intro index
        have same := congrArg (fun cells : Row => cells[index]?) stored
        simpa only [storedCells, List.getElem?_map, List.getElem?_zipIdx, Option.map_map,
          Function.comp_def, Nat.zero_add] using same
      have null : ∀ index : Nat, (copiedCells table target row.cells)[index]?.join = none →
          cells[index]?.join = none := by
        intro index empty
        have same := each index
        revert same empty
        rcases cells[index]? with _ | _ | _ <;>
          rcases (copiedCells table target row.cells)[index]? with _ | _ | _ <;> simp
      obtain ⟨_, resolved, accepted⟩ := bind_eq_ok accepted
      obtain ⟨_, checked, same⟩ := bind_eq_ok accepted
      cases same
      obtain ⟨omitted, canonical⟩ := of_insertCells evaluates found width resolved null
      have vectors : normalizeVectorCells env table (copiedCells table target row.cells) =
          copiedCells table target row.cells := by
        refine List.ext_getElem? fun index => ?_
        by_cases vector : table.schema.columns[index]?.map ColumnDef.colType = some .vector
        · obtain ⟨column, there, type⟩ := Option.map_eq_some_iff.mp vector
          have plain : storedCell env.serde server.binaryJson table.schema.columns[index]? = id := by
            funext data
            simp [storedCell, isJsonColumn, there, type]
          have same := each index
          rw [plain, Option.map_id, Option.map_id] at same
          rw [← canonical]
          exact same
        · simp only [normalizeVectorCells, List.getElem?_map, List.getElem?_zipIdx]
          cases (copiedCells table target row.cells)[index]? with
          | none => rfl
          | some cell => exact congrArg some (if_neg (by rwa [Nat.zero_add]))
      exact ⟨omitted, vectors, (canonical.trans vectors) ▸ checked⟩

end Resolved

end Pantheon.Sql
