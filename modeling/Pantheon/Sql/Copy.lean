import Mathlib
import Pantheon.Lib.Lines
import Pantheon.Sql.Dml

/-!
# COPY FROM STDIN: `executor/copy.rs` and `handle_copy_in` of `wire/session.rs`

The client sends the rows as lines of text, cut into messages anywhere.  Each line is
written on its own as soon as it is complete; after the first line that fails the
others are skipped, and a line without an end is dropped.
-/

set_option autoImplicit false

namespace Pantheon.Sql

open Pantheon.Lib Pantheon.Keystone

/-! ## The text format -/

/-- Behind a backslash only `t`, `n` and `r` stand for another character. -/
def unescapeChar (char : Char) : Char :=
  if char = 't' then '\t' else if char = 'n' then '\n' else if char = 'r' then '\r' else char

def unescapeText : List Char → List Char
  | [] => []
  | char :: rest =>
      if char = '\\' then
        match rest with
        | [] => []
        | marked :: rest => unescapeChar marked :: unescapeText rest
      else char :: unescapeText rest

def decodeCopyCell (raw : List Char) : Cell :=
  if raw = ['\\', 'N'] then none else some (utf8Bytes (String.ofList (unescapeText raw)))

def escapeByte (byte : UInt8) : Bytes :=
  if byte = 9 then [92, 116]
  else if byte = 10 then [92, 110]
  else if byte = 13 then [92, 114]
  else if byte = 92 then [92, 92]
  else [byte]

def encodeCopyCell : Cell → Bytes
  | none => [92, 78]
  | some data => data.flatMap escapeByte

def encodeCopyLine (row : Row) : Bytes := List.intercalate [9] (row.map encodeCopyCell) ++ [10]

/-! ## One line -/

def targetColumns (table : TableDef) (columns : List String) : Except String (List Nat) :=
  if columns = [] then .ok (List.range table.columns.length)
  else
    columns.mapM fun name =>
      match table.columnPosition name with
      | none => .error ("column \"" ++ name ++ "\" does not exist")
      | some index => .ok index

/-- Columns that are not in the target are NULL. -/
def copiedCells (table : TableDef) (target : List Nat) (raw : Row) : Row :=
  (target.zip raw).foldl (fun cells entry => cells.set entry.1 entry.2)
    (List.replicate table.columns.length none)

section

variable {ETag : Type} [DecidableEq ETag] (env : DmlLibrary)

namespace Server

/-- The row goes to `Database::write`: outside any transaction, and unchecked. -/
def insertCopyRow (server : Server ETag) (around : Surroundings) (number : Nat) (table : TableDef)
    (target : List Nat) (raw : Row) : Server ETag × Except String Unit :=
  if raw.length ≠ target.length then
    (server, .error ("COPY: expected " ++ toString target.length ++ " columns, got " ++
      toString raw.length))
  else
    let cells := copiedCells table target raw
    match server.database.autocommit (around.io number) table.name (rowKeyOf table cells)
        (some (buildRowValue env.serde table.schema server.binaryJson cells)) with
    | (database, .error error) => ({ server with database := database }, .error error.message)
    | (database, .ok ()) => ({ server with database := database }, .ok ())

def insertCopyLine (server : Server ETag) (around : Surroundings) (number : Nat) (table : TableDef)
    (target : List Nat) (line : String) : Server ETag × Except String Unit :=
  server.insertCopyRow env around number table target
    ((line.toList.splitOn '\t').map decodeCopyCell)

end Server

/-! ## The messages of a COPY -/

inductive CopyMessage where
  | data (bytes : Bytes)
  | done
  | fail (message : String)
  | other
deriving DecidableEq

/-- `closed` is a connection that ends before the client ends the copy. -/
inductive CopyReply where
  | commandComplete (tag : String)
  | error (code message : String)
  | closed
deriving DecidableEq

structure CopyProgress (ETag : Type) where
  server : Server ETag
  rowCount : Nat
  failed : Option String

def copyLine (around : Surroundings) (table : TableDef) (target : List Nat)
    (progress : CopyProgress ETag) (line : Bytes) : CopyProgress ETag :=
  match progress.failed with
  | some _ => progress
  | none =>
      match progress.server.insertCopyLine env around progress.rowCount table target
          (fromUtf8Lossy line) with
      | (server, .ok ()) => ⟨server, progress.rowCount + 1, none⟩
      | (server, .error error) => ⟨server, progress.rowCount, some error⟩

def CopyProgress.reply (progress : CopyProgress ETag) : CopyReply :=
  match progress.failed with
  | some message => .error "22P04" message
  | none => .commandComplete ("COPY " ++ toString progress.rowCount)

def copyMessages (around : Surroundings) (table : TableDef) (target : List Nat) :
    List CopyMessage → CopyProgress ETag × Bytes → Server ETag × CopyReply
  | [], state => (state.1.server, .closed)
  | .data bytes :: messages, state =>
      copyMessages around table target messages
        (feed 10 (copyLine env around table target) state bytes)
  | .done :: _, state => (state.1.server, state.1.reply)
  | .fail message :: _, state =>
      (state.1.server, .error "22P04" ("COPY aborted by client: " ++ message))
  | .other :: messages, state => copyMessages around table target messages state

def Server.handleCopyIn (server : Server ETag) (around : Surroundings) (copy : CopyStmt)
    (messages : List CopyMessage) : Server ETag × CopyReply :=
  match server.getTable copy.table with
  | none => (server, .error "42P01" ("table \"" ++ copy.table ++ "\" does not exist"))
  | some table =>
      match targetColumns table copy.columns with
      | .error message => (server, .error "42P01" message)
      | .ok target => copyMessages env around table target messages (⟨server, 0, none⟩, [])

end

/-! ## Rows of text -/

/-- NULL or a text for each target column; a row of VALUES has at least one. -/
structure TextRow where
  first : Option String
  others : List (Option String)
deriving DecidableEq

namespace TextRow

def texts (row : TextRow) : List (Option String) := row.first :: row.others

def cells (row : TextRow) : Row := row.texts.map (Option.map utf8Bytes)

def literal : Option String → Expr
  | none => .literal .null
  | some text => .literal (.text text)

def values (row : TextRow) : List Expr := row.texts.map literal

end TextRow

def copyText (rows : List TextRow) : Bytes := rows.flatMap fun row => encodeCopyLine row.cells

/-! ## A line is read back -/

def escapeChar (char : Char) : List Char :=
  if char = '\t' then ['\\', 't']
  else if char = '\n' then ['\\', 'n']
  else if char = '\r' then ['\\', 'r']
  else if char = '\\' then ['\\', '\\']
  else [char]

def cellChars : Option String → List Char
  | none => ['\\', 'N']
  | some text => text.toList.flatMap escapeChar

def lineChars (row : TextRow) : List Char := List.intercalate ['\t'] (row.texts.map cellChars)

theorem char_of_toNat {char other : Char} (same : char.toNat = other.toNat) : char = other :=
  Char.ext (UInt32.toNat_inj.mp same)

theorem toNat_ascii {char : Char} (ascii : char.toNat < 128) :
    (UInt8.ofNat char.toNat).toNat = char.toNat := by
  rw [UInt8.toNat_ofNat', Nat.mod_eq_of_lt (by omega)]

theorem flatMap_escapeByte (char : Char) :
    (String.utf8EncodeChar char).flatMap escapeByte =
      (escapeChar char).flatMap String.utf8EncodeChar := by
  by_cases ascii : char.toNat < 128
  · by_cases tab : char = '\t'
    · rw [tab]
      decide
    by_cases newline : char = '\n'
    · rw [newline]
      decide
    by_cases carriage : char = '\r'
    · rw [carriage]
      decide
    by_cases backslash : char = '\\'
    · rw [backslash]
      decide
    have differs : ∀ (code : UInt8) (other : Char), other.toNat = code.toNat → char ≠ other →
        UInt8.ofNat char.toNat ≠ code := by
      intro code other named distinct same
      apply distinct
      apply char_of_toNat
      rw [named, ← same, toNat_ascii ascii]
    have kept : escapeByte (UInt8.ofNat char.toNat) = [UInt8.ofNat char.toNat] := by
      unfold escapeByte
      rw [if_neg (differs 9 '\t' rfl tab), if_neg (differs 10 '\n' rfl newline),
        if_neg (differs 13 '\r' rfl carriage), if_neg (differs 92 '\\' rfl backslash)]
    have plain : escapeChar char = [char] := by
      unfold escapeChar
      rw [if_neg tab, if_neg newline, if_neg carriage, if_neg backslash]
    rw [plain, utf8EncodeChar_ascii ascii, List.flatMap_singleton, List.flatMap_singleton, kept,
      utf8EncodeChar_ascii ascii]
  · have above := utf8EncodeChar_above (Nat.le_of_not_lt ascii)
    have distinct : ∀ other : Char, other.toNat < 128 → char ≠ other := by
      intro other small same
      rw [same] at ascii
      exact ascii small
    have plain : escapeChar char = [char] := by
      unfold escapeChar
      rw [if_neg (distinct '\t' (by decide)), if_neg (distinct '\n' (by decide)),
        if_neg (distinct '\r' (by decide)), if_neg (distinct '\\' (by decide))]
    have kept : ∀ byte ∈ String.utf8EncodeChar char, escapeByte byte = [byte] := by
      intro byte member
      have large := above byte member
      have other : ∀ code : UInt8, code.toNat < 128 → byte ≠ code := by
        intro code small same
        rw [same] at large
        omega
      unfold escapeByte
      rw [if_neg (other 9 (by decide)), if_neg (other 10 (by decide)), if_neg (other 13 (by decide)),
        if_neg (other 92 (by decide))]
    rw [plain, List.flatMap_singleton, List.flatMap_congr kept]
    exact List.flatMap_singleton' _

theorem encodeCopyCell_text (text : Option String) :
    encodeCopyCell (text.map utf8Bytes) = (cellChars text).flatMap String.utf8EncodeChar := by
  cases text with
  | none => decide
  | some text =>
      have chars : utf8Bytes text = text.toList.flatMap String.utf8EncodeChar := by
        rw [← utf8Bytes_ofList, String.ofList_toList]
      rw [Option.map_some, encodeCopyCell, chars, List.flatMap_assoc, cellChars, List.flatMap_assoc]
      exact List.flatMap_congr fun char _ => flatMap_escapeByte char

theorem flatMap_intercalate {Item Other : Type} (convert : Item → List Other) (sep : List Item)
    (parts : List (List Item)) :
    (List.intercalate sep parts).flatMap convert =
      List.intercalate (sep.flatMap convert) (parts.map fun part => part.flatMap convert) := by
  induction parts with
  | nil => rfl
  | cons part parts ih =>
      cases parts with
      | nil => simp
      | cons next parts =>
          rw [List.intercalate_cons_cons, List.flatMap_append, List.flatMap_append, ih]
          simp [List.intercalate_cons_cons]

theorem encodeCopyLine_chars (row : TextRow) :
    encodeCopyLine row.cells = utf8Bytes (String.ofList (lineChars row)) ++ [10] := by
  rw [utf8Bytes_ofList, lineChars, flatMap_intercalate, encodeCopyLine, TextRow.cells, List.map_map,
    List.map_map]
  congr 2
  exact List.map_congr_left fun text _ => encodeCopyCell_text text

theorem special_notMem_escapeChar (char special : Char) (control : special = '\t' ∨ special = '\n') :
    special ∉ escapeChar char := by
  unfold escapeChar
  split_ifs with tab newline carriage backslash
  all_goals
    rcases control with same | same
    all_goals rw [same]
  all_goals simp_all [eq_comm]

theorem special_notMem_cellChars (text : Option String) (special : Char)
    (control : special = '\t' ∨ special = '\n') : special ∉ cellChars text := by
  cases text with
  | none =>
      rcases control with same | same
      all_goals
        rw [same]
        decide
  | some text =>
      rw [cellChars, List.mem_flatMap]
      intro found
      obtain ⟨char, _, member⟩ := found
      exact special_notMem_escapeChar char special control member

theorem newline_notMem_lineChars (row : TextRow) : '\n' ∉ lineChars row := by
  have parts : ∀ part ∈ row.texts.map cellChars, '\n' ∉ part := by
    intro part member
    obtain ⟨text, _, exact⟩ := List.mem_map.mp member
    rw [← exact]
    exact special_notMem_cellChars text '\n' (Or.inr rfl)
  unfold lineChars
  generalize row.texts.map cellChars = cells at parts
  induction cells with
  | nil => exact List.not_mem_nil
  | cons cell cells ih =>
      have head := parts cell List.mem_cons_self
      have tail := ih fun part member => parts part (List.mem_cons_of_mem _ member)
      cases cells with
      | nil => simpa using head
      | cons next cells =>
          rw [List.intercalate_cons_cons, List.mem_append, List.mem_append, not_or, not_or]
          exact ⟨⟨head, by decide⟩, tail⟩

theorem newline_notMem_utf8Bytes {chars : List Char} (plain : '\n' ∉ chars) :
    10 ∉ utf8Bytes (String.ofList chars) := by
  rw [utf8Bytes_ofList, List.mem_flatMap]
  intro found
  obtain ⟨char, member, encoded⟩ := found
  by_cases ascii : char.toNat < 128
  · rw [utf8EncodeChar_ascii ascii, List.mem_singleton] at encoded
    have newline : char = '\n' := by
      apply char_of_toNat
      rw [← toNat_ascii ascii, ← encoded]
      rfl
    exact plain (newline ▸ member)
  · have large := utf8EncodeChar_above (Nat.le_of_not_lt ascii) 10 encoded
    exact absurd large (by decide)

theorem unescapeText_escapeChar (char : Char) (rest : List Char) :
    unescapeText (escapeChar char ++ rest) = char :: unescapeText rest := by
  unfold escapeChar
  split_ifs with tab newline carriage backslash
  · rw [tab]
    rfl
  · rw [newline]
    rfl
  · rw [carriage]
    rfl
  · rw [backslash]
    rfl
  · rw [List.singleton_append, unescapeText.eq_def]
    exact if_neg backslash

theorem unescapeText_escaped (chars : List Char) :
    unescapeText (chars.flatMap escapeChar) = chars := by
  induction chars with
  | nil => rfl
  | cons char chars ih => rw [List.flatMap_cons, unescapeText_escapeChar, ih]

theorem escaped_ne_null (chars : List Char) : chars.flatMap escapeChar ≠ ['\\', 'N'] := by
  intro same
  have unescaped := unescapeText_escaped chars
  rw [same] at unescaped
  rw [← unescaped] at same
  exact absurd same (by decide)

theorem decodeCopyCell_cellChars (text : Option String) :
    decodeCopyCell (cellChars text) = text.map utf8Bytes := by
  cases text with
  | none => rfl
  | some text =>
      rw [cellChars, decodeCopyCell, if_neg (escaped_ne_null _), unescapeText_escaped,
        String.ofList_toList]
      rfl

theorem decode_lineChars (row : TextRow) :
    ((lineChars row).splitOn '\t').map decodeCopyCell = row.cells := by
  have parts : ∀ part ∈ row.texts.map cellChars, '\t' ∉ part := by
    intro part member
    obtain ⟨text, _, exact⟩ := List.mem_map.mp member
    rw [← exact]
    exact special_notMem_cellChars text '\t' (Or.inl rfl)
  rw [lineChars, List.splitOn_intercalate '\t' parts (by simp [TextRow.texts]), List.map_map,
    TextRow.cells]
  exact List.map_congr_left fun text _ => decodeCopyCell_cellChars text

/-! ## A copy works through its rows -/

section

variable {ETag : Type} [DecidableEq ETag] (env : DmlLibrary) {around : Surroundings}
  {table : TableDef} {target : List Nat}

variable (around table target) in
theorem insertCopyLine_row (server : Server ETag) (number : Nat) (row : TextRow) :
    server.insertCopyLine env around number table target
        (fromUtf8Lossy (utf8Bytes (String.ofList (lineChars row)))) =
      server.insertCopyRow env around number table target row.cells := by
  rw [fromUtf8Lossy_utf8Bytes, Server.insertCopyLine, String.toList_ofList, decode_lineChars]

theorem foldl_copyLine_failed (progress : CopyProgress ETag) {message : String}
    (failed : progress.failed = some message) (lines : List Bytes) :
    lines.foldl (copyLine env around table target) progress = progress := by
  induction lines with
  | nil => rfl
  | cons line lines ih =>
      have skipped : copyLine env around table target progress line = progress := by
        simp only [copyLine, failed]
      rw [List.foldl_cons, skipped, ih]

/-- The rows one after the other, up to the first that fails. -/
def Server.copyRows (server : Server ETag) (around : Surroundings) (table : TableDef)
    (target : List Nat) (number : Nat) (rows : List TextRow) : Server ETag × Except String Unit :=
  Server.eachRow (fun server number row =>
    server.insertCopyRow env around number table target row.cells) number rows server

variable (around table target) in
theorem foldl_copyLine (rows : List TextRow) : ∀ (server : Server ETag) (number : Nat),
    let progress := (rows.map fun row => utf8Bytes (String.ofList (lineChars row))).foldl
      (copyLine env around table target) ⟨server, number, none⟩
    let outcome := server.copyRows env around table target number rows
    progress.server = outcome.1 ∧ progress.failed.isNone = outcome.2.isOk := by
  induction rows with
  | nil =>
      intro server number
      exact ⟨rfl, rfl⟩
  | cons row rows ih =>
      intro server number
      have written := insertCopyLine_row env around table target server number row
      rw [List.map_cons, List.foldl_cons]
      simp only [Server.copyRows, Server.eachRow, copyLine, written]
      cases outcome : server.insertCopyRow env around number table target row.cells with
      | mk next result =>
          cases result with
          | ok => exact ih next (number + 1)
          | error message =>
              rw [foldl_copyLine_failed env _ rfl]
              exact ⟨rfl, rfl⟩

theorem copyMessages_pieces (pieces : List Bytes) : ∀ state : CopyProgress ETag × Bytes,
    copyMessages env around table target (pieces.map CopyMessage.data ++ [.done]) state =
      ((pieces.foldl (feed 10 (copyLine env around table target)) state).1.server,
        (pieces.foldl (feed 10 (copyLine env around table target)) state).1.reply) := by
  induction pieces with
  | nil => intro state; rfl
  | cons piece pieces ih =>
      intro state
      exact ih _

end

def CopyReply.isComplete : CopyReply → Bool
  | commandComplete _ => true
  | _ => false

theorem copyText_lines (rows : List TextRow) :
    copyText rows = (rows.map fun row => utf8Bytes (String.ofList (lineChars row))).flatMap
      fun line => line ++ [10] := by
  rw [List.flatMap_map]
  exact List.flatMap_congr fun row _ => encodeCopyLine_chars row

/-- However the text of the rows is cut into messages, the copy inserts the rows one after
the other. -/
theorem handleCopyIn_text {ETag : Type} [DecidableEq ETag] (env : DmlLibrary)
    {server : Server ETag} (around : Surroundings) {copy : CopyStmt} {table : TableDef}
    {target : List Nat} (found : server.getTable copy.table = some table)
    (columns : targetColumns table copy.columns = .ok target) (rows : List TextRow)
    {pieces : List Bytes} (stream : pieces.flatten = copyText rows) :
    let reply := server.handleCopyIn env around copy (pieces.map CopyMessage.data ++ [.done])
    let outcome := server.copyRows env around table target 0 rows
    reply.1 = outcome.1 ∧ reply.2.isComplete = outcome.2.isOk := by
  have whole : ∀ line ∈ rows.map fun row => utf8Bytes (String.ofList (lineChars row)),
      10 ∉ line := by
    intro line member
    obtain ⟨row, _, exact⟩ := List.mem_map.mp member
    rw [← exact]
    exact newline_notMem_utf8Bytes (newline_notMem_lineChars row)
  have consumed := foldl_feed_lines 10 (copyLine env around table target) ⟨server, 0, none⟩ whole
    (stream.trans (copyText_lines rows))
  have progress := foldl_copyLine env around table target rows server 0
  simp only [Server.handleCopyIn, found, columns]
  rw [copyMessages_pieces, consumed]
  refine ⟨progress.1, ?_⟩
  rw [← progress.2]
  unfold CopyProgress.reply
  cases (List.foldl (copyLine env around table target) ⟨server, 0, none⟩
    (rows.map fun row => utf8Bytes (String.ofList (lineChars row)))).failed <;> rfl

end Pantheon.Sql
