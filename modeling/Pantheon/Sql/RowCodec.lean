import Mathlib
import Pantheon.Keystone.Jsonb
import Pantheon.Sql.Select

/-!
# Stored rows

A row is stored as its cells, each behind its length; the length of NULL is -1.
There are two writers, `build_row_value` and `encode_row_cells`, and three readers,
`parse_rows`, `decode_column` and `decode_row_cells`.  A JSON cell may be stored in
its binary form, which every reader turns back into text.
-/

set_option autoImplicit false

namespace Pantheon.Sql

open Pantheon.Lib Pantheon.Keystone

variable (serde : Serde)

/-! ## Writers -/

def cellBytes : Cell → Bytes
  | some data => beBytes 4 data.length ++ data
  | none => beBytes 4 (2 ^ 32 - 1)

def isJsonColumn (column : Option ColumnDef) : Bool :=
  (column.map fun column => decide (column.colType = .json)).getD false

def storedCell (binaryJson : Bool) (column : Option ColumnDef) (data : Bytes) : Bytes :=
  if binaryJson && isJsonColumn column then Jsonb.encodeCell serde data else data

def buildRowValue (schema : TableSchema) (binaryJson : Bool) (cells : Row) : Bytes :=
  cells.zipIdx.flatMap fun cell =>
    cellBytes (cell.1.map (storedCell serde binaryJson schema.columns[cell.2]?))

def encodeRowCells (cells : Row) : Bytes := cells.flatMap cellBytes

/-! ## Readers -/

/-- A cell in binary form as text, every other cell as it is; nothing where the decoder
panics. -/
def readCell (cell : Bytes) : Option Bytes := (Jsonb.decodeCell serde cell).map (·.getD cell)

/-- The cells of a value; nothing where the decoder of a cell panics. -/
def decodeCells : Nat → Bytes → Option Row
  | 0, _ => some []
  | fuel + 1, value =>
      if value.length < 4 then some []
      else
        let length := signed 4 (ofBe (value.take 4))
        let rest := value.drop 4
        if length < 0 then (decodeCells fuel rest).map (none :: ·)
        else if rest.length < length.toNat then some [none]
        else do
          let cell ← readCell serde (rest.take length.toNat)
          let cells ← decodeCells fuel (rest.drop length.toNat)
          some (some cell :: cells)

def decodeRowCells (value : Bytes) : Option Row := decodeCells serde value.length value

/-- The cell at index `idx`, when the value begins with the cell at index `i`; only that
cell is decoded. -/
def decodeColumnFrom : Nat → Nat → Nat → Bytes → Option Cell
  | 0, _, _, _ => some none
  | fuel + 1, i, idx, value =>
      if value.length < 4 then some none
      else
        let length := signed 4 (ofBe (value.take 4))
        let rest := value.drop 4
        if length < 0 then
          if i = idx then some none else decodeColumnFrom fuel (i + 1) idx rest
        else if rest.length < length.toNat then some none
        else if i = idx then (readCell serde (rest.take length.toNat)).map some
        else decodeColumnFrom fuel (i + 1) idx (rest.drop length.toNat)

def decodeColumn (value : Bytes) (idx : Nat) : Option Cell :=
  decodeColumnFrom serde value.length 0 idx value

/-- What `parse_rows` is given for a cell is what the decoder answers, where it does. -/
def Decodes (decodeJsonb : Bytes → Option Bytes) : Prop :=
  ∀ cell answer, Jsonb.decodeCell serde cell = some answer → decodeJsonb cell = answer

/-! ## The readers agree -/

section Agreement

variable {serde} {lib : Library}

theorem parseCells_of_decodeCells (jsonb : Decodes serde lib.decodeJsonb) :
    ∀ (fuel : Nat) (value : Bytes) (row : Row), decodeCells serde fuel value = some row →
      parseCells lib fuel value = row := by
  intro fuel
  induction fuel with
  | zero =>
      intro value row read
      exact Option.some.inj read
  | succ fuel ih =>
      intro value row read
      rw [decodeCells] at read
      rw [parseCells]
      by_cases short : value.length < 4
      · rw [if_pos short] at read ⊢
        exact Option.some.inj read
      rw [if_neg short] at read ⊢
      by_cases negative : signed 4 (ofBe (value.take 4)) < 0
      · simp only [if_pos negative] at read ⊢
        obtain ⟨cells, others, rfl⟩ := Option.map_eq_some_iff.mp read
        rw [ih _ _ others]
      simp only [if_neg negative] at read ⊢
      by_cases truncated : (value.drop 4).length < (signed 4 (ofBe (value.take 4))).toNat
      · rw [if_pos truncated] at read
        rw [if_neg (not_le.mpr truncated)]
        exact Option.some.inj read
      rw [if_neg truncated] at read
      rw [if_pos (not_lt.mp truncated)]
      obtain ⟨cell, answer, read⟩ := Option.bind_eq_some_iff.mp read
      obtain ⟨cells, others, whole⟩ := Option.bind_eq_some_iff.mp read
      obtain ⟨decoded, decodes, rfl⟩ := Option.map_eq_some_iff.mp answer
      rw [jsonb _ _ decodes, ih _ _ others]
      exact Option.some.inj whole

theorem decodeColumnFrom_eq : ∀ (fuel : Nat) (value : Bytes) (row : Row),
    decodeCells serde fuel value = some row → ∀ i idx, i ≤ idx →
      decodeColumnFrom serde fuel i idx value = some row[idx - i]?.join := by
  intro fuel
  induction fuel with
  | zero =>
      intro value row read i idx _
      cases Option.some.inj read
      rfl
  | succ fuel ih =>
      intro value row read i idx before
      have later : i ≠ idx → i + 1 ≤ idx ∧ idx - i = idx - (i + 1) + 1 := by
        intro other
        omega
      rw [decodeCells] at read
      rw [decodeColumnFrom]
      by_cases short : value.length < 4
      · rw [if_pos short] at read ⊢
        cases Option.some.inj read
        rfl
      rw [if_neg short] at read ⊢
      by_cases negative : signed 4 (ofBe (value.take 4)) < 0
      · simp only [if_pos negative] at read ⊢
        obtain ⟨cells, others, rfl⟩ := Option.map_eq_some_iff.mp read
        by_cases here : i = idx
        · rw [if_pos here, here, Nat.sub_self]
          rfl
        · obtain ⟨next, position⟩ := later here
          rw [if_neg here, position, List.getElem?_cons_succ]
          exact ih _ _ others _ _ next
      simp only [if_neg negative] at read ⊢
      by_cases truncated : (value.drop 4).length < (signed 4 (ofBe (value.take 4))).toNat
      · rw [if_pos truncated] at read ⊢
        cases Option.some.inj read
        cases idx - i <;> rfl
      rw [if_neg truncated] at read ⊢
      obtain ⟨cell, answer, read⟩ := Option.bind_eq_some_iff.mp read
      obtain ⟨cells, others, whole⟩ := Option.bind_eq_some_iff.mp read
      cases Option.some.inj whole
      by_cases here : i = idx
      · rw [if_pos here, here, Nat.sub_self, answer]
        rfl
      · obtain ⟨next, position⟩ := later here
        rw [if_neg here, position, List.getElem?_cons_succ]
        exact ih _ _ others _ _ next

end Agreement

/-! ## Reading what was written -/

def storedCells (schema : TableSchema) (binaryJson : Bool) (cells : Row) : Row :=
  cells.zipIdx.map fun cell =>
    cell.1.map (storedCell serde binaryJson schema.columns[cell.2]?)

theorem buildRowValue_eq (schema : TableSchema) (binaryJson : Bool) (cells : Row) :
    buildRowValue serde schema binaryJson cells =
      encodeRowCells (storedCells serde schema binaryJson cells) := by
  rw [encodeRowCells, storedCells, List.flatMap_map]
  rfl

theorem length_le_encodeRowCells (cells : Row) : cells.length ≤ (encodeRowCells cells).length := by
  induction cells with
  | nil => exact Nat.zero_le _
  | cons cell cells ih =>
      rw [encodeRowCells] at ih ⊢
      rw [List.flatMap_cons, List.length_append, List.length_cons]
      cases cell with
      | none => rw [cellBytes, beBytes_length]; omega
      | some data => rw [cellBytes, List.length_append, beBytes_length]; omega

section Reading

variable {lib : Library}

theorem cellHeader (number : Nat) (fits : number < 2 ^ 32) (rest : Bytes) :
    ¬(beBytes 4 number ++ rest).length < 4 ∧
      ofBe ((beBytes 4 number ++ rest).take 4) = number ∧
      (beBytes 4 number ++ rest).drop 4 = rest := by
  have width := beBytes_length 4 number
  refine ⟨?_, ?_, List.drop_left' width⟩
  · rw [List.length_append, width]
    omega
  · rw [List.take_left' width]
    exact ofBe_beBytes_of_lt 4 number (by omega)

theorem parseCells_null (fuel : Nat) (rest : Bytes) :
    parseCells lib (fuel + 1) (cellBytes none ++ rest) = none :: parseCells lib fuel rest := by
  obtain ⟨long, length, after⟩ := cellHeader (2 ^ 32 - 1) (by decide) rest
  rw [cellBytes, parseCells, if_neg long, length, after]
  rfl

theorem parseCells_data (fuel : Nat) {data : Bytes} (small : data.length < 2 ^ 31)
    (rest : Bytes) :
    parseCells lib (fuel + 1) (cellBytes (some data) ++ rest) =
      some ((lib.decodeJsonb data).getD data) :: parseCells lib fuel rest := by
  obtain ⟨long, length, after⟩ := cellHeader data.length (by omega) (data ++ rest)
  have positive : signed 4 data.length = data.length := by
    rw [signed, if_pos (by omega)]
  have nonneg : ¬(data.length : Int) < 0 := by omega
  have whole : (data.length : Int).toNat ≤ (data ++ rest).length := by
    rw [List.length_append]
    omega
  rw [cellBytes, List.append_assoc, parseCells, if_neg long, length, after]
  simp only [positive, if_neg nonneg, if_pos whole]
  rw [Int.toNat_natCast, List.take_left, List.drop_left]

theorem decodeCells_null (fuel : Nat) (rest : Bytes) :
    decodeCells serde (fuel + 1) (cellBytes none ++ rest) =
      (decodeCells serde fuel rest).map (none :: ·) := by
  obtain ⟨long, length, after⟩ := cellHeader (2 ^ 32 - 1) (by decide) rest
  rw [cellBytes, decodeCells, if_neg long, length, after]
  rfl

theorem decodeCells_data (fuel : Nat) {data text : Bytes} (small : data.length < 2 ^ 31)
    (answer : readCell serde data = some text) (rest : Bytes) :
    decodeCells serde (fuel + 1) (cellBytes (some data) ++ rest) =
      (decodeCells serde fuel rest).map (some text :: ·) := by
  obtain ⟨long, length, after⟩ := cellHeader data.length (by omega) (data ++ rest)
  have positive : signed 4 data.length = data.length := by
    rw [signed, if_pos (by omega)]
  have nonneg : ¬(data.length : Int) < 0 := by omega
  have whole : ¬(data ++ rest).length < (data.length : Int).toNat := by
    rw [List.length_append]
    omega
  rw [cellBytes, List.append_assoc, decodeCells, if_neg long, length, after]
  simp only [positive, if_neg nonneg, if_neg whole]
  rw [Int.toNat_natCast, List.take_left, List.drop_left, answer]
  cases decodeCells serde fuel rest <;> rfl

theorem decodeCells_encodeRowCells : ∀ (cells : Row) (fuel : Nat),
    (∀ cell ∈ cells, ∀ data ∈ cell, data.length < 2 ^ 31 ∧ readCell serde data ≠ none) →
    cells.length ≤ fuel →
    decodeCells serde fuel (encodeRowCells cells) =
      some (cells.map (Option.map fun data => (readCell serde data).getD data)) := by
  intro cells
  induction cells with
  | nil =>
      intro fuel _ _
      cases fuel <;> rfl
  | cons cell cells ih =>
      intro fuel answers enough
      cases fuel with
      | zero => simp at enough
      | succ fuel =>
          have others := ih fuel
            (fun other member => answers other (List.mem_cons_of_mem _ member))
            (by simpa using enough)
          have first : encodeRowCells (cell :: cells) = cellBytes cell ++ encodeRowCells cells :=
            List.flatMap_cons ..
          rw [first]
          cases cell with
          | none =>
              rw [decodeCells_null, others]
              rfl
          | some data =>
              obtain ⟨small, answered⟩ := answers _ (List.mem_cons_self ..) data rfl
              obtain ⟨text, held⟩ := Option.ne_none_iff_exists'.mp answered
              rw [decodeCells_data serde fuel small held, others]
              simp only [Option.map_some, List.map_cons, held, Option.getD_some]

theorem parseCells_encodeRowCells : ∀ (cells : Row) (fuel : Nat),
    (∀ cell ∈ cells, ∀ data ∈ cell, data.length < 2 ^ 31) → cells.length ≤ fuel →
    parseCells lib fuel (encodeRowCells cells) =
      cells.map fun cell => cell.map fun data => (lib.decodeJsonb data).getD data := by
  intro cells
  induction cells with
  | nil =>
      intro fuel _ _
      cases fuel <;> rfl
  | cons cell cells ih =>
      intro fuel sizes enough
      cases fuel with
      | zero => simp at enough
      | succ fuel =>
          have others := ih fuel (fun other member => sizes other (List.mem_cons_of_mem _ member))
            (by simpa using enough)
          have first : encodeRowCells (cell :: cells) = cellBytes cell ++ encodeRowCells cells :=
            List.flatMap_cons ..
          rw [first]
          cases cell with
          | none =>
              rw [parseCells_null, others]
              rfl
          | some data =>
              rw [parseCells_data fuel (sizes _ (List.mem_cons_self ..) data rfl), others]
              rfl

theorem encodeRowCells_inj {left right : Row}
    (leftShort : ∀ cell ∈ left, ∀ data ∈ cell, data.length < 2 ^ 31)
    (rightShort : ∀ cell ∈ right, ∀ data ∈ cell, data.length < 2 ^ 31)
    (same : encodeRowCells left = encodeRowCells right) : left = right := by
  have back : ∀ cells : Row, (∀ cell ∈ cells, ∀ data ∈ cell, data.length < 2 ^ 31) →
      parseCells { Library.basic with decodeJsonb := fun _ => none } (encodeRowCells cells).length
        (encodeRowCells cells) = cells := by
    intro cells short
    rw [parseCells_encodeRowCells cells _ short (length_le_encodeRowCells cells)]
    simp
  rw [← back left leftShort, ← back right rightShort, same]

end Reading

/-! ## The whole codec -/

/-- What a reader returns for a cell: a JSON cell in binary form as the compact text of
its value, every other cell as it was written. -/
def canonicalCell (binaryJson : Bool) (column : Option ColumnDef) (data : Bytes) : Bytes :=
  if binaryJson && isJsonColumn column then ((serde.fromSlice data).map serde.toVec).getD data
  else data

def canonicalCells (schema : TableSchema) (binaryJson : Bool) (cells : Row) : Row :=
  cells.zipIdx.map fun cell =>
    cell.1.map (canonicalCell serde binaryJson schema.columns[cell.2]?)

/-- The stored form has a length that fits; bytes stored as they are do not begin with the
marker; the integers of a JSON value are those of an `i64`. -/
structure CellFits (binaryJson : Bool) (column : Option ColumnDef) (data : Bytes) : Prop where
  size : (storedCell serde binaryJson column data).length < 2 ^ 31
  unmarked : (binaryJson && isJsonColumn column) = false ∨ serde.fromSlice data = none →
    Jsonb.isBinaryCell data = false
  integers : (binaryJson && isJsonColumn column) = true → ∀ value,
    serde.fromSlice data = some value → value.Numbers JsonNumber.Exact

variable {serde}

theorem readCell_storedCell {binaryJson : Bool} {column : Option ColumnDef} {data : Bytes}
    (fits : CellFits serde binaryJson column data) :
    readCell serde (storedCell serde binaryJson column data) =
      some (canonicalCell serde binaryJson column data) := by
  obtain ⟨size, unmarked, integers⟩ := fits
  rw [storedCell] at size ⊢
  rw [canonicalCell, readCell]
  cases binary : binaryJson && isJsonColumn column with
  | false =>
      have raw := Jsonb.decodeCell_of_unmarked serde (unmarked (Or.inl binary))
      rw [if_neg (by decide), if_neg (by decide), raw]
      rfl
  | true =>
      rw [binary, if_pos rfl] at size
      rw [if_pos rfl, if_pos rfl]
      cases parsed : serde.fromSlice data with
      | none =>
          have raw := Jsonb.decodeCell_of_unmarked serde (unmarked (Or.inr parsed))
          have stored : Jsonb.encodeCell serde data = data := by
            simp only [Jsonb.encodeCell, parsed]
          rw [stored, raw]
          rfl
      | some value =>
          rw [Jsonb.decodeCell_encodeCell serde parsed (integers binary value parsed) (by omega)]
          rfl

/-- On a row that was written each of the three readers returns its cells, JSON in its
compact text. -/
theorem row_codec_agreement (serde : Serde) (lib : Library)
    (jsonb : Decodes serde lib.decodeJsonb) (key : Bytes) (schema : TableSchema)
    (binaryJson : Bool) (cells : Row)
    (fits : ∀ cell ∈ cells.zipIdx, ∀ data ∈ cell.1,
      CellFits serde binaryJson schema.columns[cell.2]? data) :
    parseRow lib (key, buildRowValue serde schema binaryJson cells) =
        canonicalCells serde schema binaryJson cells ∧
      decodeRowCells serde (buildRowValue serde schema binaryJson cells) =
        some (canonicalCells serde schema binaryJson cells) ∧
      ∀ idx, decodeColumn serde (buildRowValue serde schema binaryJson cells) idx =
        some (canonicalCells serde schema binaryJson cells)[idx]?.join := by
  have read : decodeRowCells serde (buildRowValue serde schema binaryJson cells) =
      some (canonicalCells serde schema binaryJson cells) := by
    have stored : ∀ cell ∈ storedCells serde schema binaryJson cells, ∀ data ∈ cell,
        data.length < 2 ^ 31 ∧ readCell serde data ≠ none := by
      intro cell member data held
      obtain ⟨indexed, inside, rfl⟩ := List.mem_map.mp member
      obtain ⟨written, given, rfl⟩ := Option.map_eq_some_iff.mp held
      have whole := fits indexed inside written given
      exact ⟨whole.size, by rw [readCell_storedCell whole]; exact Option.some_ne_none _⟩
    rw [decodeRowCells, buildRowValue_eq,
      decodeCells_encodeRowCells serde _ _ stored (length_le_encodeRowCells _), storedCells,
      canonicalCells, List.map_map]
    refine congrArg some (List.map_congr_left fun cell member => ?_)
    rw [Function.comp_apply, Option.map_map]
    cases content : cell.1 with
    | none => rfl
    | some data =>
        have read := readCell_storedCell (fits cell member data content)
        rw [Option.map_some, Option.map_some, Function.comp_apply, read]
        rfl
  exact ⟨parseCells_of_decodeCells jsonb _ _ _ read, read, fun idx =>
    decodeColumnFrom_eq _ _ _ read 0 idx (Nat.zero_le _)⟩

def serdeOne : Serde where
  fromSlice text := if text = [32, 49] ∨ text = [49] then some (.number (.posInt 1)) else none
  toVec _ := [49]
  wellFormed := by
    intro text value parsed
    split_ifs at parsed
    cases Option.some.inj parsed
    show 1 < 2 ^ 64
    decide

def libraryOne : Library :=
  { Library.basic with decodeJsonb := fun cell => (Jsonb.decodeCell serdeOne cell).join }

theorem decodes_libraryOne : Decodes serdeOne libraryOne.decodeJsonb := by
  intro cell answer decoded
  show (Jsonb.decodeCell serdeOne cell).join = answer
  rw [decoded]
  rfl

def jsonAndText : TableSchema := ⟨"t", [⟨"doc", .json⟩, ⟨"note", .text⟩, ⟨"name", .text⟩]⟩

/-- The blank of a JSON cell in binary form is gone. -/
theorem blank_not_preserved :
    ¬∀ (binaryJson : Bool) (cells : Row),
      (∀ cell ∈ cells, ∀ data ∈ cell, data.length < 2 ^ 31) →
      parseRow libraryOne ([], buildRowValue serdeOne jsonAndText binaryJson cells) = cells := by
  intro same
  have kept := same true [some [32, 49], none, some [97]] (by decide)
  revert kept
  decide +kernel

theorem row_codec_one :
    let cells : Row := [some [32, 49], none, some [97]]
    let value := buildRowValue serdeOne jsonAndText true cells
    parseRow libraryOne ([], value) = [some [49], none, some [97]] ∧
      decodeRowCells serdeOne value = some [some [49], none, some [97]] ∧
      ∀ idx, decodeColumn serdeOne value idx = some [some [49], none, some [97]][idx]?.join := by
  refine row_codec_agreement serdeOne libraryOne decodes_libraryOne [] jsonAndText true _ ?_
  intro cell member data held
  fin_cases member
  · cases Option.some.inj held
    refine ⟨by decide +kernel, by decide, ?_⟩
    intro _ value parsed
    cases Option.some.inj parsed
    show 1 < 2 ^ 63
    decide
  · cases held
  · cases Option.some.inj held
    refine ⟨by decide +kernel, by decide, ?_⟩
    intro binary
    exact absurd binary (by decide)

end Pantheon.Sql
