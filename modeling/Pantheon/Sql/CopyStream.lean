import Mathlib
import Pantheon.Sql.CopyInsert

/-!
# The rows that a COPY stream brings

The bytes of any rows, cut into messages anywhere, bring the same rows in the same
order.  Only a line with its end mark is a row: what the buffer holds at the end of the
copy is dropped.
-/

set_option autoImplicit false

namespace Pantheon.Sql

open Pantheon.Lib Pantheon.Keystone

/-! ## Rows as bytes -/

def textCells (row : List (Option String)) : Row := row.map (Option.map utf8Bytes)

def rowChars (row : List (Option String)) : List Char :=
  List.intercalate ['\t'] (row.map cellChars)

def rowLine (row : List (Option String)) : Bytes := utf8Bytes (String.ofList (rowChars row))

/-- The cells that `insert_copy_line` finds in a line. -/
def lineCells (line : Bytes) : Row :=
  ((fromUtf8Lossy line).toList.splitOn '\t').map decodeCopyCell

theorem encodeCopyLine_rowLine (row : List (Option String)) :
    encodeCopyLine (textCells row) = rowLine row ++ [10] := by
  cases row with
  | nil => rfl
  | cons first others => exact encodeCopyLine_chars ⟨first, others⟩

theorem newline_notMem_rowLine (row : List (Option String)) : 10 ∉ rowLine row := by
  cases row with
  | nil => exact List.not_mem_nil
  | cons first others => exact newline_notMem_utf8Bytes (newline_notMem_lineChars ⟨first, others⟩)

theorem lineCells_rowLine {row : List (Option String)} (some_ : row ≠ []) :
    lineCells (rowLine row) = textCells row := by
  obtain ⟨first, others, rfl⟩ := List.exists_cons_of_ne_nil some_
  rw [lineCells, rowLine, fromUtf8Lossy_utf8Bytes, String.toList_ofList]
  exact decode_lineChars ⟨first, others⟩

theorem lineCells_rowLine_nil : lineCells (rowLine []) = [some []] := by decide

theorem lineCells_rowLine_iff (row : List (Option String)) :
    lineCells (rowLine row) = textCells row ↔ row ≠ [] := by
  constructor
  · rintro same rfl
    rw [lineCells_rowLine_nil] at same
    exact absurd same (by simp [textCells])
  · exact lineCells_rowLine

/-- What `encode_copy_line` gives for the rows, with the last newline or without it. -/
def copyStream (rows : List (List (Option String))) (newline : Bool) : Bytes :=
  let bytes := rows.flatMap fun row => encodeCopyLine (textCells row)
  if newline then bytes else bytes.dropLast

def endedRows (rows : List (List (Option String))) (newline : Bool) :
    List (List (Option String)) :=
  if newline then rows else rows.dropLast

theorem copyStream_lines (rows : List (List (Option String))) (newline : Bool) :
    ∃ rest, 10 ∉ rest ∧ copyStream rows newline =
      ((endedRows rows newline).map rowLine).flatMap (fun line => line ++ [10]) ++ rest := by
  have ended : ∀ rows : List (List (Option String)),
      (rows.flatMap fun row => encodeCopyLine (textCells row)) =
        (rows.map rowLine).flatMap fun line => line ++ [10] := by
    intro rows
    rw [List.flatMap_map]
    exact List.flatMap_congr fun row _ => encodeCopyLine_rowLine row
  cases newline with
  | true => exact ⟨[], List.not_mem_nil, by rw [List.append_nil]; exact ended rows⟩
  | false =>
      rcases List.eq_nil_or_concat rows with rfl | ⟨front, last, rfl⟩
      · exact ⟨[], List.not_mem_nil, rfl⟩
      · refine ⟨rowLine last, newline_notMem_rowLine last, ?_⟩
        simp only [copyStream, endedRows, Bool.false_eq_true, if_false, List.concat_eq_append,
          List.dropLast_concat, List.flatMap_append, List.flatMap_singleton, ended front]
        rw [encodeCopyLine_rowLine, ← List.append_assoc, List.dropLast_concat]

variable {rows : List (List (Option String))} {newline : Bool}

theorem endedRows_eq
    (complete : newline = true ∨ rows = []) : endedRows rows newline = rows := by
  rcases complete with rfl | rfl
  · rfl
  · cases newline <;> rfl

theorem length_endedRows_le (rows : List (List (Option String))) (newline : Bool) :
    (endedRows rows newline).length ≤ rows.length := by
  cases newline with
  | true => exact le_rfl
  | false =>
      change rows.dropLast.length ≤ rows.length
      rw [List.length_dropLast]
      exact Nat.sub_le _ _

theorem length_endedRows (rows : List (List (Option String))) (newline : Bool) :
    (endedRows rows newline).length = rows.length ↔ newline = true ∨ rows = [] := by
  cases newline with
  | true => simp [endedRows]
  | false =>
      cases rows with
      | nil => simp [endedRows]
      | cons row rows => simp [endedRows]

/-! ## The calls of the loop -/

section

variable {ETag : Type} [DecidableEq ETag] (env : DmlLibrary) (around : Surroundings)
  (table : TableDef) (target : List Nat)

/-- `copyLine`, with the cells of the rows that `insert_copy_line` was called for so far. -/
def loggedLine (state : CopyProgress ETag × List Row) (line : Bytes) :
    CopyProgress ETag × List Row :=
  (copyLine env around table target state.1 line,
    match state.1.failed with
    | some _ => state.2
    | none => state.2 ++ [lineCells line])

/-- The rows that the loop calls `insert_copy_line` for until the copy ends. -/
def copyCalls : List CopyMessage → (CopyProgress ETag × List Row) × Bytes → List Row
  | [], state => state.1.2
  | .data bytes :: messages, state =>
      copyCalls messages (feed 10 (loggedLine env around table target) state bytes)
  | .done :: _, state => state.1.2
  | .fail _ :: _, state => state.1.2
  | .other :: messages, state => copyCalls messages state

/-- Inserting rows of cells one after the other, up to the first that fails. -/
def Server.insertCellRows (server : Server ETag) (number : Nat) (rows : List Row) :
    Server ETag × Except String Unit :=
  Server.eachRow (fun server number row =>
    server.insertCopyRow env around number table target row) number rows server

/-- The log is kept beside the loop and changes nothing. -/
theorem copyLine_loggedLine (lines : List Bytes) : ∀ state : CopyProgress ETag × List Row,
    (lines.foldl (loggedLine env around table target) state).1 =
      lines.foldl (copyLine env around table target) state.1 := by
  induction lines with
  | nil => intro state; rfl
  | cons line lines ih => intro state; exact ih _

/-- Any message takes both loops from a state to the same state. -/
theorem feed_loggedLine (state : (CopyProgress ETag × List Row) × Bytes) (bytes : Bytes) :
    ((feed 10 (loggedLine env around table target) state bytes).1.1,
        (feed 10 (loggedLine env around table target) state bytes).2) =
      feed 10 (copyLine env around table target) (state.1.1, state.2) bytes := by
  simp only [feed, copyLine_loggedLine]

theorem loggedLine_failed {state : CopyProgress ETag × List Row} {message : String}
    (failed : state.1.failed = some message) (lines : List Bytes) :
    lines.foldl (loggedLine env around table target) state = state := by
  induction lines with
  | nil => rfl
  | cons line lines ih =>
      have skipped : loggedLine env around table target state line = state := by
        simp only [loggedLine, copyLine, failed]
      rw [List.foldl_cons, skipped, ih]

/-- The calls are for the first lines, and for all of them exactly if no insertion but the
last one fails. -/
theorem loggedLine_calls (lines : List Bytes) : ∀ (server : Server ETag) (number : Nat)
    (log : List Row), ∃ calls,
      (lines.foldl (loggedLine env around table target) (⟨server, number, none⟩, log)).2 =
          log ++ calls ∧
        calls <+: lines.map lineCells ∧
        (calls.length = lines.length ↔ (server.insertCellRows env around table target number
          (lines.map lineCells).dropLast).2.isOk = true) := by
  induction lines with
  | nil =>
      intro server number log
      exact ⟨[], (List.append_nil log).symm, List.prefix_rfl, iff_of_true rfl rfl⟩
  | cons line lines ih =>
      intro server number log
      have called : server.insertCopyLine env around number table target (fromUtf8Lossy line) =
          server.insertCopyRow env around number table target (lineCells line) := rfl
      rw [List.foldl_cons]
      cases outcome : server.insertCopyRow env around number table target (lineCells line) with
      | mk next result =>
          cases result with
          | error message =>
              have logged : loggedLine env around table target (⟨server, number, none⟩, log) line =
                  (⟨next, number, some message⟩, log ++ [lineCells line]) := by
                simp only [loggedLine, copyLine, called, outcome]
              refine ⟨[lineCells line], ?_, ?_, ?_⟩
              · rw [logged, loggedLine_failed env around table target rfl]
              · exact List.prefix_append [lineCells line] (lines.map lineCells)
              · cases lines with
                | nil => exact iff_of_true rfl rfl
                | cons other lines =>
                    refine iff_of_false (by simp) ?_
                    simp [Server.insertCellRows, Server.eachRow, outcome, Except.isOk,
                      Except.toBool]
          | ok =>
              have logged : loggedLine env around table target (⟨server, number, none⟩, log) line =
                  (⟨next, number + 1, none⟩, log ++ [lineCells line]) := by
                simp only [loggedLine, copyLine, called, outcome]
              obtain ⟨calls, exact, first, whole⟩ := ih next (number + 1) (log ++ [lineCells line])
              refine ⟨lineCells line :: calls, ?_, ?_, ?_⟩
              · rw [logged, exact, List.append_assoc, List.singleton_append]
              · exact (List.cons_prefix_cons).mpr ⟨rfl, first⟩
              · rw [List.length_cons, List.length_cons, Nat.add_right_cancel_iff, whole]
                cases lines with
                | nil => exact iff_of_true rfl rfl
                | cons other lines =>
                    simp only [Server.insertCellRows, List.map_cons, List.dropLast_cons_cons,
                      Server.eachRow, outcome]

variable (ETag) in
theorem copyCalls_pieces (pieces : List Bytes) :
    ∀ state : (CopyProgress ETag × List Row) × Bytes,
      copyCalls env around table target (pieces.map CopyMessage.data ++ [.done]) state =
        (pieces.foldl (feed 10 (loggedLine env around table target)) state).1.2 := by
  induction pieces with
  | nil => intro state; rfl
  | cons piece pieces ih => intro state; exact ih _

theorem copyCalls_stream (server : Server ETag)
    {pieces : List Bytes} (stream : pieces.flatten = copyStream rows newline) :
    copyCalls env around table target (pieces.map CopyMessage.data ++ [.done])
        ((⟨server, 0, none⟩, []), []) =
      (((endedRows rows newline).map rowLine).foldl (loggedLine env around table target)
        (⟨server, 0, none⟩, [])).2 := by
  obtain ⟨rest, unfinished, lines⟩ := copyStream_lines rows newline
  have whole : ∀ line ∈ (endedRows rows newline).map rowLine, 10 ∉ line := by
    intro line member
    obtain ⟨row, _, rfl⟩ := List.mem_map.mp member
    exact newline_notMem_rowLine row
  rw [copyCalls_pieces, foldl_feed 10 _ pieces _ [] List.not_mem_nil, stream, lines, feed,
    List.nil_append, takeLines_lines_rest 10 whole unfinished]

/-- For every list of rows and every cut of their bytes into messages: the rows are inserted
as they were exactly if none is without cells, the last has its newline, and none before
the last is refused. -/
theorem copy_stream_iff (server : Server ETag)
    {pieces : List Bytes} (stream : pieces.flatten = copyStream rows newline) :
    copyCalls env around table target (pieces.map CopyMessage.data ++ [.done])
        ((⟨server, 0, none⟩, []), []) = rows.map textCells ↔
      (∀ row ∈ rows, row ≠ []) ∧ (newline = true ∨ rows = []) ∧
        (server.insertCellRows env around table target 0
          (rows.map textCells).dropLast).2.isOk = true := by
  obtain ⟨calls, exact, first, whole⟩ := loggedLine_calls env around table target
    ((endedRows rows newline).map rowLine) server 0 []
  rw [copyCalls_stream env around table target server stream, exact, List.nil_append]
  rw [List.length_map] at whole
  have inserted : (∀ row ∈ rows, row ≠ []) →
      (rows.map rowLine).map lineCells = rows.map textCells := by
    intro some_
    rw [List.map_map]
    exact List.map_congr_left fun row member => lineCells_rowLine (some_ row member)
  constructor
  · intro same
    have count : calls.length = rows.length := by rw [same, List.length_map]
    have shorter := first.length_le
    rw [List.length_map, List.length_map] at shorter
    have longest := length_endedRows_le rows newline
    have complete := (length_endedRows rows newline).mp (by omega)
    rw [endedRows_eq complete] at first whole
    have all : calls = (rows.map rowLine).map lineCells :=
      first.eq_of_length (by rw [count, List.length_map, List.length_map])
    have some_ : ∀ row ∈ rows, row ≠ [] := by
      intro row member
      have cells := List.map_inj_left.mp ((List.map_map ..).symm.trans (all.symm.trans same)) row
        member
      exact (lineCells_rowLine_iff row).mp cells
    refine ⟨some_, complete, ?_⟩
    rw [← inserted some_]
    exact whole.mp count
  · rintro ⟨some_, complete, accepted⟩
    rw [endedRows_eq complete] at first whole
    rw [← inserted some_] at accepted ⊢
    refine first.eq_of_length ?_
    rw [List.length_map, List.length_map]
    exact whole.mpr accepted

end

/-- A row of one text with a newline in it, cut inside of its escape. -/
theorem row_cut_in_escape :
    copyCalls plainLibrary plainSurroundings notesTable [0]
        ([[97, 92], [110, 98, 10]].map CopyMessage.data ++ [.done])
        ((⟨notesServer, 0, none⟩, []), []) =
      [[some "a\nb"]].map textCells := by
  have stream : ([[97, 92], [110, 98, 10]] : List Bytes).flatten =
      copyStream [[some "a\nb"]] true := by decide
  exact (copy_stream_iff plainLibrary plainSurroundings notesTable [0] notesServer stream).mpr
    ⟨by decide, Or.inl rfl, rfl⟩

/-- Without its newline the last row is lost. -/
theorem unended_row_is_lost :
    ([[97]] : List Bytes).flatten = copyStream [[some "a"]] false ∧
      copyCalls plainLibrary plainSurroundings notesTable [0]
          ([[97]].map CopyMessage.data ++ [.done]) ((⟨notesServer, 0, none⟩, []), []) = [] ∧
      [[some "a"]].map textCells ≠ [] := by
  refine ⟨by decide, rfl, by simp⟩

end Pantheon.Sql
