import Mathlib
import Pantheon.Lib.Hex
import Pantheon.Sql.Join
import Pantheon.Sql.StoredValues

/-!
# Hash joins against nested loops

A hash join is the nested loop of another predicate: the two keys are there and
have the same bytes.  So it agrees with the nested loop of the ON clause exactly
when the two predicates do.  They differ on NULL keys, which the evaluator's `=`
finds equal to each other, on values that compare as equal with different bytes
or the other way round, and on names that mean another column in the joined row.
-/

set_option autoImplicit false

namespace Pantheon.Sql

open Pantheon.Lib

/-! ## The predicate of a join decides it -/

theorem loopJoin_congr {joinType : JoinType} {matched matched' : Row → Row → Bool}
    {leftRows rightRows : List Row} (leftWidth rightWidth : Nat)
    (same : ∀ leftRow ∈ leftRows, ∀ rightRow ∈ rightRows,
      matched leftRow rightRow = matched' leftRow rightRow) :
    loopJoin joinType matched leftWidth rightWidth leftRows rightRows =
      loopJoin joinType matched' leftWidth rightWidth leftRows rightRows := by
  have byLeft : ∀ leftRow ∈ leftRows,
      rightRows.filter (matched leftRow) = rightRows.filter (matched' leftRow) :=
    fun leftRow member => List.filter_congr (same leftRow member)
  have byRight : ∀ rightRow ∈ rightRows, leftRows.filter (fun leftRow => matched leftRow rightRow) =
      leftRows.filter fun leftRow => matched' leftRow rightRow :=
    fun rightRow member => List.filter_congr fun leftRow leftMember =>
      same leftRow leftMember rightRow member
  cases joinType with
  | cross => rfl
  | inner => exact joinLeft_congr same
  | full => exact joinLeft_congr same
  | left => exact List.flatMap_congr fun leftRow member => by rw [byLeft leftRow member]
  | right => exact List.flatMap_congr fun rightRow member => by rw [byRight rightRow member]

theorem paddedRight_pair_length (width : Nat) (leftRow rightRow : Row) (hit : Row → Bool) :
    (paddedRight width leftRow ([rightRow, rightRow].filter hit)).length =
      if hit rightRow then 2 else 1 := by
  by_cases found : hit rightRow = true
  · simp [paddedRight, found]
  · simp [paddedRight, found]

theorem paddedLeft_pair_length (width : Nat) (rightRow leftRow : Row) (hit : Row → Bool) :
    (paddedLeft width rightRow ([leftRow, leftRow].filter hit)).length =
      if hit leftRow then 2 else 1 := by
  by_cases found : hit leftRow = true
  · simp [paddedLeft, found]
  · simp [paddedLeft, found]

theorem matched_eq_of_ite {hit hit' : Bool} {many few : Nat} (apart : many ≠ few)
    (same : (if hit then many else few) = if hit' then many else few) : hit = hit' := by
  cases hit <;> cases hit' <;> simp_all

theorem matched_of_loopJoin_perm {joinType : JoinType} (paired : joinType ≠ .cross)
    {matched matched' : Row → Row → Bool} (leftWidth rightWidth : Nat) {leftRow : Row}
    (same : ∀ leftRows rightRows, (∀ row ∈ leftRows, row = leftRow) →
      (loopJoin joinType matched leftWidth rightWidth leftRows rightRows).Perm
        (loopJoin joinType matched' leftWidth rightWidth leftRows rightRows))
    (rightRow : Row) : matched leftRow rightRow = matched' leftRow rightRow := by
  have inner : (nestedInner matched [leftRow] [rightRow]).length =
      (nestedInner matched' [leftRow] [rightRow]).length →
      matched leftRow rightRow = matched' leftRow rightRow := by
    intro lengths
    have single : ∀ hit : Row → Row → Bool, (nestedInner hit [leftRow] [rightRow]).length =
        if hit leftRow rightRow then 1 else 0 := by
      intro hit
      by_cases found : hit leftRow rightRow = true
      · simp [nestedInner, found]
      · simp [nestedInner, found]
    rw [single, single] at lengths
    exact matched_eq_of_ite Nat.one_ne_zero lengths
  cases joinType with
  | cross => exact absurd rfl paired
  | inner => exact inner (same [leftRow] [rightRow] (by simp)).length_eq
  | full => exact inner (same [leftRow] [rightRow] (by simp)).length_eq
  | left =>
      have lengths := (same [leftRow] [rightRow, rightRow] (by simp)).length_eq
      simp only [loopJoin, nestedLeft, List.flatMap_cons, List.flatMap_nil, List.append_nil,
        paddedRight_pair_length] at lengths
      exact matched_eq_of_ite (by decide) lengths
  | right =>
      have lengths := (same [leftRow, leftRow] [rightRow] (by simp)).length_eq
      simp only [loopJoin, nestedRight, List.flatMap_cons, List.flatMap_nil, List.append_nil,
        paddedLeft_pair_length] at lengths
      exact matched_eq_of_ite (by decide) lengths

/-! ## Values whose bytes are equal when they are -/

/-- Two key values that `=` and a comparison of their bytes judge alike: not NULL on both
sides; floats without a single NaN and without the two zeros; a number and a float that print
alike if they are equal; and values of kinds that are never equal do not print alike. -/
def KeysAlike (lib : Library) : Value → Value → Prop
  | .null, .null => False
  | .null, _ | _, .null => True
  | .int _, .int _ | .text _, .text _ | .bool _, .bool _ => True
  | .float left, .float right =>
      Doubles.isNan left = Doubles.isNan right ∧
        (Doubles.isNan left = false → Doubles.rank left = Doubles.rank right → left = right)
  | .int number, .float bits | .float bits, .int number =>
      Doubles.isNan bits = false ∧
        (Doubles.rank bits = Doubles.rankOf number → Doubles.text bits = toString number)
  | left, right => left.toWireBytes lib.withTexts ≠ right.toWireBytes lib.withTexts

section Values

variable {lib : Library}

def sameBytes (lib : Library) (left right : Value) : Bool :=
  (left.toWireBytes lib).isSome && decide (right.toWireBytes lib = left.toWireBytes lib)

theorem sameBytes_text {left right : Value} {leftText rightText : String}
    (leftBytes : left.toWireBytes lib = some (utf8Bytes leftText))
    (rightBytes : right.toWireBytes lib = some (utf8Bytes rightText)) :
    sameBytes lib left right = true ↔ rightText = leftText := by
  rw [sameBytes, leftBytes, rightBytes]
  simp [utf8Bytes_injective.eq_iff]

theorem sameBytes_comm (left right : Value) :
    sameBytes lib left right = sameBytes lib right left := by
  unfold sameBytes
  cases left.toWireBytes lib <;> cases right.toWireBytes lib <;> simp [eq_comm]

theorem keysAlike_comm {left right : Value} : KeysAlike lib left right → KeysAlike lib right left := by
  cases left <;> cases right <;> simp only [KeysAlike] <;>
    first | exact id | exact fun alike => alike.symm | skip
  rintro ⟨kinds, same⟩
  exact ⟨kinds.symm, fun number ranks => (same (kinds.trans number) ranks.symm).symm⟩

theorem text_ne_nan {bits other : F64} (number : Doubles.isNan bits = false)
    (nan : Doubles.isNan other = true) : Doubles.text bits ≠ Doubles.text other := by
  intro same
  obtain ⟨read, parsed, isNan⟩ := Doubles.parse_text_nan nan
  rw [← same, Doubles.parse_text number] at parsed
  rw [Option.some.inj parsed, isNan] at number
  cases number

theorem text_injective {left right : F64} (leftNumber : Doubles.isNan left = false)
    (rightNumber : Doubles.isNan right = false) (same : Doubles.text left = Doubles.text right) :
    left = right := by
  have parsed := Doubles.parse_text leftNumber
  rw [same, Doubles.parse_text rightNumber] at parsed
  exact (Option.some.inj parsed).symm

theorem text_of_nan {bits : F64} (nan : Doubles.isNan bits = true) : Doubles.text bits = "NaN" := by
  rw [Doubles.text, if_pos nan]

theorem floats_alike {left right : F64} :
    ((Doubles.text right = Doubles.text left) ↔ floatOrdering lib.withTexts left right = .eq) ↔
      KeysAlike lib (.float left) (.float right) := by
  cases leftNan : Doubles.isNan left <;> cases rightNan : Doubles.isNan right <;>
    simp only [KeysAlike, leftNan, rightNan, true_and, forall_const, Bool.false_eq_true,
      Bool.true_eq_false, false_and, iff_false, false_implies, iff_true]
  · have numbers := @floatOrdering_numbers lib left right leftNan rightNan
    have ordered : floatOrdering lib.withTexts left right = .eq ↔
        Doubles.rank left = Doubles.rank right := by
      rw [← @compare_eq_iff_eq Int, ← numbers]
      rfl
    rw [ordered]
    constructor
    · exact fun same ranks => text_injective leftNan rightNan (same.mpr ranks).symm
    · refine fun exact_ => ⟨fun same => ?_, fun ranks => by rw [exact_ ranks]⟩
      rw [text_injective leftNan rightNan same.symm]
  · have equal := @floatOrdering_nan lib left right (Or.inr rightNan)
    exact fun same => text_ne_nan leftNan rightNan (same.mpr equal).symm
  · have equal := @floatOrdering_nan lib left right (Or.inl leftNan)
    exact fun same => text_ne_nan rightNan leftNan (same.mpr equal)
  · have equal := @floatOrdering_nan lib left right (Or.inl leftNan)
    exact iff_of_true (by rw [text_of_nan leftNan, text_of_nan rightNan]) equal

theorem int_float_alike {number : Int} {bits : F64} (range : (Value.int number).InRange)
    {ordering : Ordering}
    (nan : Doubles.isNan bits = true → ordering = .eq)
    (finite : Doubles.isNan bits = false →
      (ordering = .eq ↔ Doubles.rank bits = Doubles.rankOf number)) :
    (Doubles.text bits = toString number ↔ ordering = .eq) ↔
      KeysAlike lib (.int number) (.float bits) := by
  have low : -2 ^ 63 ≤ number := range.1
  have high : number ≤ 2 ^ 63 - 1 := range.2
  obtain ⟨-, other, parsed, otherNumber, rank⟩ :=
    parse_of_parseI64 (parseI64_toString low (by omega))
  cases isNan : Doubles.isNan bits with
  | true =>
      simp only [KeysAlike, isNan, Bool.true_eq_false, false_and, iff_false]
      intro same
      obtain ⟨read, readParsed, readNan⟩ := Doubles.parse_text_nan isNan
      rw [same.mpr (nan isNan), parsed] at readParsed
      rw [Option.some.inj readParsed, readNan] at otherNumber
      cases otherNumber
  | false =>
      simp only [KeysAlike, isNan, true_and]
      rw [finite isNan]
      refine ⟨fun same => same.mpr, fun prints => ⟨fun same => ?_, prints⟩⟩
      have read := Doubles.parse_text isNan
      rw [same, parsed] at read
      rwa [← Option.some.inj read]

theorem comparesAs_ok {left right : Value} {ordering : Ordering}
    (compared : valueCompare lib left right = .ok ordering) :
    comparesAs lib (· == .eq) left right = true ↔ ordering = .eq := by
  rw [comparesAs, compared]
  exact beq_iff_eq

theorem unequal_alike {left right : Value} {message : String}
    (compared : valueCompare lib left right = .error message)
    (there : (left.toWireBytes lib).isSome = true) :
    (sameBytes lib left right = true ↔ comparesAs lib (· == .eq) left right = true) ↔
      left.toWireBytes lib ≠ right.toWireBytes lib := by
  simp [sameBytes, comparesAs, compared, there, eq_comm]

theorem toString_int_injective {left right : Int} (leftRange : (Value.int left).InRange)
    (rightRange : (Value.int right).InRange) (same : toString right = toString left) :
    left = right := by
  have leftHigh : left ≤ 2 ^ 63 - 1 := leftRange.2
  have rightHigh : right ≤ 2 ^ 63 - 1 := rightRange.2
  have parsed := parseI64_toString leftRange.1 (by omega)
  rw [← same, parseI64_toString rightRange.1 (by omega)] at parsed
  exact (Option.some.inj parsed).symm

theorem keysAlike_iff {left right : Value} (leftRange : left.InRange) (rightRange : right.InRange) :
    sameBytes lib.withTexts left right = comparesAs lib.withTexts (· == .eq) left right ↔
      KeysAlike lib left right := by
  have float : ∀ {number : Int}, (Value.int number).InRange →
      Doubles.rank (Doubles.ofInt number) = Doubles.rankOf number ∧
        Doubles.isNan (Doubles.ofInt number) = false := by
    intro number range
    have low : -2 ^ 63 ≤ number := range.1
    have high : number ≤ 2 ^ 63 - 1 := range.2
    exact ⟨Doubles.rank_ofInt low (by omega), Doubles.isNan_ofInt low (by omega)⟩
  rw [Bool.eq_iff_iff]
  cases left with
  | null => cases right <;> simp [sameBytes, comparesAs, valueCompare, KeysAlike, Value.toWireBytes]
  | int left =>
      cases right with
      | int right =>
          rw [sameBytes_text rfl rfl, comparesAs_ok rfl, compare_eq_iff_eq]
          refine iff_of_true ⟨toString_int_injective leftRange rightRange, ?_⟩ trivial
          rintro rfl
          rfl
      | float bits =>
          rw [sameBytes_text rfl rfl, comparesAs_ok rfl]
          refine int_float_alike leftRange
            (fun nan => @floatOrdering_nan lib _ _ (Or.inr nan)) fun finite => ?_
          obtain ⟨rank, number⟩ := float leftRange
          have numbers := @floatOrdering_numbers lib _ _ number finite
          exact (iff_of_eq (congrArg (· = .eq) numbers)).trans
            (by rw [compare_eq_iff_eq, rank, eq_comm])
      | null => simp [sameBytes, comparesAs, valueCompare, KeysAlike, Value.toWireBytes]
      | _ => exact unequal_alike rfl rfl
  | float left =>
      cases right with
      | int right =>
          rw [sameBytes_text rfl rfl, comparesAs_ok rfl, eq_comm (a := toString right)]
          refine @int_float_alike lib _ _ rightRange _
            (fun nan => @floatOrdering_nan lib _ _ (Or.inl nan)) fun finite => ?_
          obtain ⟨rank, number⟩ := float rightRange
          have numbers := @floatOrdering_numbers lib _ _ finite number
          exact (iff_of_eq (congrArg (· = .eq) numbers)).trans (by rw [compare_eq_iff_eq, rank])
      | float right =>
          rw [sameBytes_text rfl rfl, comparesAs_ok rfl]
          exact floats_alike
      | null => simp [sameBytes, comparesAs, valueCompare, KeysAlike, Value.toWireBytes]
      | _ => exact unequal_alike rfl rfl
  | text left =>
      cases right with
      | text right =>
          rw [sameBytes_text rfl rfl, comparesAs_ok rfl, compare_eq_iff_eq]
          exact iff_of_true eq_comm trivial
      | null => simp [sameBytes, comparesAs, valueCompare, KeysAlike, Value.toWireBytes]
      | _ => exact unequal_alike rfl rfl
  | bool left =>
      cases right with
      | bool right =>
          rw [sameBytes_text rfl rfl, comparesAs_ok rfl]
          refine iff_of_true ?_ trivial
          cases left <;> cases right <;> decide
      | null => simp [sameBytes, comparesAs, valueCompare, KeysAlike, Value.toWireBytes]
      | _ => exact unequal_alike rfl rfl
  | floatArray left | bytea left =>
      cases right with
      | null => simp [sameBytes, comparesAs, valueCompare, KeysAlike, Value.toWireBytes]
      | _ => exact unequal_alike rfl rfl

end Values

/-! ## Names in the joined row -/

mutual

def namesIn : Expr → List (Option String × String)
  | .ident name => [(none, name)]
  | .qualifiedIdent table name => [(some table, name)]
  | .binaryOp _ lhs rhs => namesIn lhs ++ namesIn rhs
  | .unaryOp _ expr => namesIn expr
  | .cast expr _ => namesIn expr
  | .function _ args _ => namesInAll args
  | _ => []

def namesInAll : List Expr → List (Option String × String)
  | [] => []
  | expr :: exprs => namesIn expr ++ namesInAll exprs

end

def namePosition (schema : Option TableSchema) (scopes : List Scope)
    (name : Option String × String) : Option Nat :=
  let qualified := name.1.bind fun qualifier => (findScope scopes qualifier).bind fun scope =>
    schema.bind fun schema =>
      if scope.start ≤ scope.stop ∧ scope.stop ≤ schema.columns.length then
        (columnPosition ((schema.columns.take scope.stop).drop scope.start) name.2).map
          (scope.start + ·)
      else none
  qualified.or (schema.bind fun schema => columnPosition schema.columns name.2)

/-- In the joined row, where the side's own row begins at `offset`, every name of the key means
the column that it means in its own row. -/
def NamesKept (schema : Option TableSchema) (joined : JoinPredicateCtx) (offset : Nat)
    (key : Expr) : Prop :=
  ∀ name ∈ namesIn key, namePosition joined.mergedSchema joined.scopes name =
    (namePosition schema [] name).map (offset + ·)

section Names

variable {lib : Library}

def joinedContext (joined : JoinPredicateCtx) (values : Row) : RowContext :=
  { RowContext.new values joined.mergedSchema with tableScopes := joined.scopes }

theorem resolveColumn_eq (joined : JoinPredicateCtx) (values : Row)
    (name : Option String × String) {position : Nat}
    (found : namePosition joined.mergedSchema joined.scopes name = some position) :
    resolveColumn lib (joinedContext joined values) name.1 name.2 =
      .ok (cellValue lib values position) := by
  obtain ⟨schema, scopes⟩ := joined
  obtain ⟨qualifier, column⟩ := name
  have bare : lookupBare lib column ⟨schema, values, scopes⟩ =
      (schema.bind fun schema => columnPosition schema.columns column).map
        (cellValue lib values) := by
    cases schema <;> rfl
  have qualified : ∀ table, lookupQualified lib table column ⟨schema, values, scopes⟩ =
      ((findScope scopes table).bind fun scope => schema.bind fun schema =>
        if scope.start ≤ scope.stop ∧ scope.stop ≤ schema.columns.length then
          (columnPosition ((schema.columns.take scope.stop).drop scope.start) column).map
            (scope.start + ·)
        else none).map (cellValue lib values) := by
    intro table
    unfold lookupQualified
    cases findScope scopes table with
    | none => rfl
    | some scope =>
        cases schema with
        | none => rfl
        | some schema =>
            simp only [Option.bind_some, lookupInRange, Option.bind_eq_bind]
            split_ifs
            · cases columnPosition ((schema.columns.take scope.stop).drop scope.start) column <;> rfl
            · rfl
  have whole : ((qualifier.bind fun table =>
      [OuterRow.mk schema values scopes].findSome? (lookupQualified lib table column)).or
        ([OuterRow.mk schema values scopes].findSome? (lookupBare lib column))) =
      (namePosition schema scopes (qualifier, column)).map (cellValue lib values) := by
    simp only [List.findSome?_singleton, bare, namePosition, Option.map_or]
    cases qualifier with
    | none => rfl
    | some table => rw [Option.bind_some, qualified]; rfl
  rw [found] at whole
  unfold resolveColumn
  simp only [joinedContext, RowContext.new, RowContext.asOuterRow, RowContext.empty,
    List.reverse_nil]
  rw [whole]
  rfl

theorem ownPosition {schema : Option TableSchema} {name : String}
    (has : schemaHas schema name = true) (qualifier : Option String) :
    ∃ position < schemaWidth schema,
      namePosition schema [] (qualifier, name) = some position := by
  cases schema with
  | none => cases has
  | some schema =>
      have listed : (columnPosition schema.columns name).isSome = true := by
        rw [columnPosition, List.findIdx?_isSome]
        exact has
      obtain ⟨position, found⟩ := Option.isSome_iff_exists.mp listed
      refine ⟨position, (List.findIdx?_eq_some_iff_findIdx_eq.mp found).1, ?_⟩
      cases qualifier <;> exact found

section Key

variable {schema : Option TableSchema} {joined : JoinPredicateCtx} {offset : Nat} {row wide : Row}

theorem resolveColumn_kept
    (cells : ∀ position < schemaWidth schema, wide[offset + position]?.join = row[position]?.join)
    (name : Option String × String) (has : schemaHas schema name.2 = true)
    (kept : namePosition joined.mergedSchema joined.scopes name =
      (namePosition schema [] name).map (offset + ·)) :
    resolveColumn lib (joinedContext joined wide) name.1 name.2 =
      resolveColumn lib (RowContext.new row schema) name.1 name.2 := by
  obtain ⟨position, inside, own⟩ := ownPosition has name.1
  have here : resolveColumn lib (joinedContext ⟨schema, []⟩ row) name.1 name.2 =
      .ok (cellValue lib row position) := resolveColumn_eq ⟨schema, []⟩ row name own
  rw [own] at kept
  rw [resolveColumn_eq joined wide name kept]
  refine Eq.trans ?_ here.symm
  rw [cellValue, cellValue, cells position inside]

mutual

theorem eval_kept
    (cells : ∀ position < schemaWidth schema, wide[offset + position]?.join = row[position]?.join) :
    ∀ key : Expr, exprOnlyRefs schema key = true → NamesKept schema joined offset key →
      eval lib (joinedContext joined wide) key = eval lib (RowContext.new row schema) key
  | .ident name, has, kept => by
      simp only [eval]
      exact resolveColumn_kept cells (none, name) has (kept _ (List.mem_singleton_self _))
  | .qualifiedIdent table name, has, kept => by
      simp only [eval]
      exact resolveColumn_kept cells (some table, name) has (kept _ (List.mem_singleton_self _))
  | .literal _, _, _ => by simp only [eval]
  | .param _, _, _ => by
      simp only [eval]
      rfl
  | .binaryOp op lhs rhs, has, kept => by
      obtain ⟨leftHas, rightHas⟩ := Bool.and_eq_true_iff.mp has
      have left := eval_kept cells lhs leftHas fun name member =>
        kept name (List.mem_append_left _ member)
      have right := eval_kept cells rhs rightHas fun name member =>
        kept name (List.mem_append_right _ member)
      cases op <;> simp only [eval, left, right]
  | .unaryOp op expr, has, kept => by
      simp only [eval, eval_kept cells expr has kept]
  | .cast expr ty, has, kept => by
      simp only [eval, eval_kept cells expr has kept]
  | .function name args distinct, has, kept => by
      simp only [eval, evalArgs_kept cells args has kept]
      rfl
  | .isNull _ _, has, _ | .isTrue _ _, has, _ | .isFalse _ _, has, _ | .between _ _ _ _, has, _
  | .like _ _ _, has, _ | .inList _ _ _, has, _ | .inSubquery _ _ _, has, _
  | .exists _ _, has, _ | .case _ _ _, has, _ | .subquery _, has, _
  | .window _ _ _ _ _, has, _ => by cases has

theorem evalArgs_kept
    (cells : ∀ position < schemaWidth schema, wide[offset + position]?.join = row[position]?.join) :
    ∀ keys : List Expr, exprsOnlyRef schema keys = true →
      (∀ name ∈ namesInAll keys, namePosition joined.mergedSchema joined.scopes name =
        (namePosition schema [] name).map (offset + ·)) →
      evalArgs lib (joinedContext joined wide) keys = evalArgs lib (RowContext.new row schema) keys
  | [], _, _ => by simp only [evalArgs]
  | key :: keys, has, kept => by
      obtain ⟨firstHas, restHas⟩ := Bool.and_eq_true_iff.mp has
      simp only [evalArgs]
      rw [eval_kept cells key firstHas fun name member => kept name (List.mem_append_left _ member),
        evalArgs_kept cells keys restHas fun name member =>
          kept name (List.mem_append_right _ member)]

end

end Key

end Names

/-! ## The predicate of a hash join -/

section

variable (lib : Library)

def keysMatch (leftSchema rightSchema : Option TableSchema) (leftKey rightKey : Expr)
    (leftRow rightRow : Row) : Bool :=
  let key := keyBytes lib leftSchema leftKey leftRow
  key.isSome && decide (keyBytes lib rightSchema rightKey rightRow = key)

variable (leftSchema rightSchema : Option TableSchema) (leftKey rightKey : Expr)

theorem probe_right (rightRows : List Row) (leftRow : Row) :
    probeRows (HashTable.build (keyBytes lib rightSchema rightKey) rightRows)
        (keyBytes lib leftSchema leftKey leftRow) =
      rightRows.filter (keysMatch lib leftSchema rightSchema leftKey rightKey leftRow) := by
  unfold probeRows keysMatch
  cases keyed : keyBytes lib leftSchema leftKey leftRow with
  | none => simp
  | some bytes =>
      rw [Option.bind_some, HashTable.probe_build]
      simp

theorem probe_left (leftRows : List Row) (rightRow : Row) :
    probeRows (HashTable.build (keyBytes lib leftSchema leftKey) leftRows)
        (keyBytes lib rightSchema rightKey rightRow) =
      leftRows.filter fun leftRow =>
        keysMatch lib leftSchema rightSchema leftKey rightKey leftRow rightRow := by
  unfold probeRows keysMatch
  cases keyed : keyBytes lib rightSchema rightKey rightRow with
  | none =>
      refine (List.filter_eq_nil_iff.mpr fun leftRow _ => ?_).symm
      cases keyBytes lib leftSchema leftKey leftRow <;> simp
  | some bytes =>
      rw [Option.bind_some, HashTable.probe_build]
      refine List.filter_congr fun leftRow _ => ?_
      cases keyBytes lib leftSchema leftKey leftRow with
      | none => simp
      | some other => simp [eq_comm]

theorem hashJoin_perm (joinType : JoinType) (leftRows rightRows : List Row) :
    (hashJoin lib joinType leftRows rightRows leftKey rightKey leftSchema rightSchema).Perm
      (loopJoin joinType (keysMatch lib leftSchema rightSchema leftKey rightKey)
        (schemaWidth leftSchema) (schemaWidth rightSchema) leftRows rightRows) := by
  have inner : (hashEquiJoin lib leftRows rightRows leftKey rightKey leftSchema rightSchema).Perm
      (nestedInner (keysMatch lib leftSchema rightSchema leftKey rightKey) leftRows rightRows) := by
    unfold hashEquiJoin
    split_ifs
    · simp only [probe_right]
      exact List.Perm.refl _
    · simp only [probe_left]
      exact joinRight_perm _ _ _ _
  cases joinType with
  | cross => exact List.Perm.refl _
  | inner => exact inner
  | full => exact inner
  | left =>
      simp only [hashJoin, hashLeftJoin, probe_right]
      exact List.Perm.refl _
  | right =>
      simp only [hashJoin, hashRightJoin, probe_left]
      exact List.Perm.refl _

theorem applyJoin_hash {join : Join} {on : Expr} (given : join.on = some on)
    (paired : join.joinType ≠ .cross)
    (split : splitJoinKeys on leftSchema rightSchema = some (leftKey, rightKey))
    (leftScopes : List Scope) (rightAlias : String) (leftRows rightRows : List Row) :
    applyJoin lib leftRows rightRows join leftSchema rightSchema leftScopes rightAlias =
      hashJoin lib join.joinType leftRows rightRows leftKey rightKey leftSchema rightSchema := by
  obtain ⟨joinType, table, on'⟩ := join
  simp only at given paired
  subst given
  cases joinType <;> simp_all [applyJoin]

theorem keysMatch_eq (leftRow rightRow : Row) :
    keysMatch lib leftSchema rightSchema leftKey rightKey leftRow rightRow =
      match eval lib (RowContext.new leftRow leftSchema) leftKey,
        eval lib (RowContext.new rightRow rightSchema) rightKey with
      | .ok left, .ok right => sameBytes lib left right
      | _, _ => false := by
  unfold keysMatch keyBytes
  cases eval lib (RowContext.new leftRow leftSchema) leftKey with
  | error message => rfl
  | ok left =>
      cases eval lib (RowContext.new rightRow rightSchema) rightKey with
      | ok right => rfl
      | error message => cases bytes : left.toWireBytes lib <;> simp [bytes]

theorem evalTruthy_eq (ctx : RowContext) (lhs rhs : Expr) :
    evalTruthy lib ctx (.binaryOp .eq lhs rhs) =
      match eval lib ctx lhs, eval lib ctx rhs with
      | .ok left, .ok right => comparesAs lib (· == .eq) left right
      | _, _ => false := by
  simp only [evalTruthy, eval]
  cases eval lib ctx lhs with
  | error message => rfl
  | ok left => cases eval lib ctx rhs <;> rfl

def KeyFits (schema : Option TableSchema) (key : Expr) : Prop :=
  ∀ row value, eval lib (RowContext.new row schema) key = .ok value → value.InRange

/-- The two keys of these rows, if both can be evaluated, are judged alike. -/
def PairAlike (leftRow rightRow : Row) : Prop :=
  ∀ left right, eval lib.withTexts (RowContext.new leftRow leftSchema) leftKey = .ok left →
    eval lib.withTexts (RowContext.new rightRow rightSchema) rightKey = .ok right →
    KeysAlike lib left right

theorem splitJoinKeys_some {on : Expr}
    (split : splitJoinKeys on leftSchema rightSchema = some (leftKey, rightKey)) :
    (on = .binaryOp .eq leftKey rightKey ∨ on = .binaryOp .eq rightKey leftKey) ∧
      exprOnlyRefs leftSchema leftKey = true ∧ exprOnlyRefs rightSchema rightKey = true := by
  unfold splitJoinKeys at split
  split at split
  · split_ifs at split with straight swapped
    · cases split
      exact ⟨Or.inl rfl, Bool.and_eq_true_iff.mp straight⟩
    · cases split
      exact ⟨Or.inr rfl, Bool.and_eq_true_iff.mp swapped⟩
  · cases split

section Pair

variable {lib leftSchema rightSchema leftKey rightKey}
variable {on : Expr} {leftScopes : List Scope} {rightAlias : String}

theorem keysMatch_iff
    (split : splitJoinKeys on leftSchema rightSchema = some (leftKey, rightKey))
    (leftFits : KeyFits lib.withTexts leftSchema leftKey)
    (rightFits : KeyFits lib.withTexts rightSchema rightKey)
    (leftNames : NamesKept leftSchema
      (buildJoinPredicateCtx leftSchema rightSchema leftScopes rightAlias) 0 leftKey)
    (rightNames : NamesKept rightSchema
      (buildJoinPredicateCtx leftSchema rightSchema leftScopes rightAlias)
      (schemaWidth leftSchema) rightKey)
    {leftRow rightRow : Row} (width : leftRow.length = schemaWidth leftSchema) :
    keysMatch lib.withTexts leftSchema rightSchema leftKey rightKey leftRow rightRow =
        evalJoinPredicate lib.withTexts on
          (buildJoinPredicateCtx leftSchema rightSchema leftScopes rightAlias) leftRow rightRow ↔
      PairAlike lib leftSchema rightSchema leftKey rightKey leftRow rightRow := by
  obtain ⟨shape, leftRefs, rightRefs⟩ := splitJoinKeys_some _ _ _ _ split
  have leftEval := @eval_kept lib.withTexts leftSchema _ 0 leftRow (leftRow ++ rightRow)
    (fun position inside => by
      rw [Nat.zero_add, List.getElem?_append_left (width ▸ inside)]) leftKey leftRefs leftNames
  have rightEval := @eval_kept lib.withTexts rightSchema _ (schemaWidth leftSchema) rightRow
    (leftRow ++ rightRow)
    (fun position inside => by
      rw [← width, List.getElem?_append_right (Nat.le_add_right _ _), Nat.add_sub_cancel_left])
    rightKey rightRefs rightNames
  have predicate : ∀ lhs rhs, on = .binaryOp .eq lhs rhs →
      evalJoinPredicate lib.withTexts on
        (buildJoinPredicateCtx leftSchema rightSchema leftScopes rightAlias) leftRow rightRow =
      evalTruthy lib.withTexts (joinedContext
        (buildJoinPredicateCtx leftSchema rightSchema leftScopes rightAlias)
        (leftRow ++ rightRow)) (.binaryOp .eq lhs rhs) := by
    rintro lhs rhs rfl
    rfl
  -- The ON clause may have the two keys in the other order; both comparisons are symmetric.
  have flip : ∀ {left right : Value}, left.InRange → right.InRange →
      (sameBytes lib.withTexts left right =
        comparesAs lib.withTexts (· == .eq) right left ↔ KeysAlike lib left right) := by
    intro left right leftRange rightRange
    rw [sameBytes_comm, keysAlike_iff rightRange leftRange]
    exact ⟨keysAlike_comm, keysAlike_comm⟩
  have only : ∀ {left right : Value}, KeysAlike lib left right ↔
      ∀ left' right', left = left' → right = right' → KeysAlike lib left' right' :=
    ⟨fun alike _ _ same same' => same ▸ same' ▸ alike, fun all => all _ _ rfl rfl⟩
  rw [keysMatch_eq]
  obtain shape | shape := shape <;> rw [predicate _ _ shape, evalTruthy_eq, leftEval, rightEval] <;>
    unfold PairAlike <;>
    cases leftValue : eval lib.withTexts (RowContext.new leftRow leftSchema) leftKey <;>
    cases rightValue : eval lib.withTexts (RowContext.new rightRow rightSchema) rightKey <;>
    simp only [Except.ok.injEq, reduceCtorEq, false_implies, implies_true]
  · exact (keysAlike_iff (leftFits _ _ leftValue) (rightFits _ _ rightValue)).trans only
  · exact (flip (leftFits _ _ leftValue) (rightFits _ _ rightValue)).trans only

end Pair

/-- The join gives the rows of the nested loop, in some order. -/
def SameRows (join : Join) (on : Expr) (leftScopes : List Scope) (rightAlias : String)
    (leftRows rightRows : List Row) : Prop :=
  (applyJoin lib leftRows rightRows join leftSchema rightSchema leftScopes rightAlias).Perm
    (nestedLoopJoin lib join.joinType on leftRows rightRows leftSchema rightSchema leftScopes
      rightAlias)

/-- Let every column that a key names be the same column in the joined row.  Then the hash join
gives the rows of the nested loop for any rows whose keys are judged alike, pair by pair; and it
does so for all rows only if the keys of every pair are. -/
theorem hash_join_eq_nested_loop_iff {join : Join} {on : Expr} (given : join.on = some on)
    (paired : join.joinType ≠ .cross)
    (split : splitJoinKeys on leftSchema rightSchema = some (leftKey, rightKey))
    (leftScopes : List Scope) (rightAlias : String)
    (leftFits : KeyFits lib.withTexts leftSchema leftKey)
    (rightFits : KeyFits lib.withTexts rightSchema rightKey)
    (leftNames : NamesKept leftSchema
      (buildJoinPredicateCtx leftSchema rightSchema leftScopes rightAlias) 0 leftKey)
    (rightNames : NamesKept rightSchema
      (buildJoinPredicateCtx leftSchema rightSchema leftScopes rightAlias)
      (schemaWidth leftSchema) rightKey) :
    (∀ leftRows rightRows, (∀ leftRow ∈ leftRows, leftRow.length = schemaWidth leftSchema) →
      (∀ leftRow ∈ leftRows, ∀ rightRow ∈ rightRows,
        PairAlike lib leftSchema rightSchema leftKey rightKey leftRow rightRow) →
      SameRows lib.withTexts leftSchema rightSchema join on leftScopes rightAlias leftRows
        rightRows) ∧
    ((∀ leftRows rightRows, (∀ leftRow ∈ leftRows, leftRow.length = schemaWidth leftSchema) →
      SameRows lib.withTexts leftSchema rightSchema join on leftScopes rightAlias leftRows
        rightRows) ↔
      ∀ leftRow rightRow, leftRow.length = schemaWidth leftSchema →
        PairAlike lib leftSchema rightSchema leftKey rightKey leftRow rightRow) := by
  have hashed := applyJoin_hash lib.withTexts leftSchema rightSchema leftKey rightKey given paired
    split leftScopes rightAlias
  have perm := hashJoin_perm lib.withTexts leftSchema rightSchema leftKey rightKey join.joinType
  have agree := @keysMatch_iff lib leftSchema rightSchema leftKey rightKey on leftScopes rightAlias
    split leftFits rightFits leftNames rightNames
  have enough : ∀ leftRows rightRows,
      (∀ leftRow ∈ leftRows, leftRow.length = schemaWidth leftSchema) →
      (∀ leftRow ∈ leftRows, ∀ rightRow ∈ rightRows,
        PairAlike lib leftSchema rightSchema leftKey rightKey leftRow rightRow) →
      SameRows lib.withTexts leftSchema rightSchema join on leftScopes rightAlias leftRows
        rightRows := by
    intro leftRows rightRows widths alike
    rw [SameRows, hashed, nestedLoopJoin, ← loopJoin_congr _ _ fun leftRow left rightRow right =>
      (agree (widths leftRow left)).mpr (alike leftRow left rightRow right)]
    exact perm leftRows rightRows
  refine ⟨enough, fun same leftRow rightRow width => (agree width).mp ?_,
    fun alike leftRows rightRows widths => enough leftRows rightRows widths
      fun leftRow left rightRow _ => alike leftRow rightRow (widths leftRow left)⟩
  refine matched_of_loopJoin_perm paired (schemaWidth leftSchema) (schemaWidth rightSchema)
    (fun leftRows rightRows only => ?_) rightRow
  have exact := same leftRows rightRows fun row member => by rw [only row member, width]
  rw [SameRows, hashed] at exact
  exact (perm leftRows rightRows).symm.trans exact

end

theorem fromBytes_inRange (lib : Library) (cell : Cell) : (Value.fromBytes lib cell).InRange := by
  have parsed : ∀ {content : String} {value : Int}, parseI64 content = some value →
      (Value.int value).InRange := by
    intro content value found
    have checked : ∀ {number : Int}, checkI64 number = some value → (Value.int value).InRange := by
      intro number inside
      unfold checkI64 at inside
      split_ifs at inside with range
      exact Option.some.inj inside ▸ range
    unfold parseI64 at found
    split at found <;> obtain ⟨number, -, inside⟩ := Option.bind_eq_some_iff.mp found <;>
      exact checked inside
  unfold Value.fromBytes
  split
  · trivial
  · split
    · trivial
    · split
      · exact parsed ‹_›
      · split
        · trivial
        · split_ifs <;> trivial

theorem eval_column (lib : Library) {schema : Option TableSchema} {table name : String}
    {position : Nat} (own : namePosition schema [] (some table, name) = some position) (row : Row) :
    eval lib (RowContext.new row schema) (.qualifiedIdent table name) =
      .ok (cellValue lib row position) := by
  simp only [eval]
  exact @resolveColumn_eq lib ⟨schema, []⟩ row (some table, name) position own

theorem keyFits_column (lib : Library) {schema : Option TableSchema} {table name : String}
    (has : schemaHas schema name = true) : KeyFits lib schema (.qualifiedIdent table name) := by
  intro row value evaluated
  obtain ⟨position, -, own⟩ := ownPosition has (some table)
  rw [eval_column lib own] at evaluated
  exact Except.ok.inj evaluated ▸ fromBytes_inRange lib _

def idSchema (table column : String) : Option TableSchema := some ⟨table, [⟨column, .int4⟩]⟩

def onEqual : Expr := .binaryOp .eq (.qualifiedIdent "a" "x") (.qualifiedIdent "b" "y")

def joinOn (joinType : JoinType) (on : Expr) : Join := ⟨joinType, ⟨"b", none, none, none⟩, some on⟩

theorem hash_join_eq_nested_loop_on_ids :
    SameRows Library.basic.withTexts (idSchema "a" "x") (idSchema "b" "y") (joinOn .left onEqual)
      onEqual [⟨"a", 0, 1⟩] "b" [[some [49]], [some [50]]] [[some [50]]] := by
  have split : splitJoinKeys onEqual (idSchema "a" "x") (idSchema "b" "y") =
      some (.qualifiedIdent "a" "x", .qualifiedIdent "b" "y") := rfl
  refine (hash_join_eq_nested_loop_iff Library.basic _ _ _ _ rfl (by decide) split
    [⟨"a", 0, 1⟩] "b" (keyFits_column _ rfl) (keyFits_column _ rfl)
    (List.forall_mem_singleton.mpr (by decide)) (List.forall_mem_singleton.mpr (by decide))).1
    _ _ (by decide) ?_
  have ints : ∀ row ∈ ([[some [49]], [some [50]]] : List Row),
      ∃ number, cellValue Library.basic.withTexts row 0 = .int number := by
    simp only [List.forall_mem_cons, List.not_mem_nil, false_implies, implies_true, and_true]
    exact ⟨⟨1, by decide +kernel⟩, 2, by decide +kernel⟩
  intro leftRow left rightRow right leftValue rightValue leftKey rightKey
  obtain ⟨leftInt, leftCell⟩ := ints leftRow left
  obtain ⟨rightInt, rightCell⟩ := ints rightRow (List.mem_cons_of_mem _ right)
  rw [eval_column _ rfl, leftCell] at leftKey
  rw [eval_column _ rfl, rightCell] at rightKey
  rw [← Except.ok.inj leftKey, ← Except.ok.inj rightKey]
  trivial

/-- NULL keys: the nested loop joins them, the hash join does not. -/
theorem hash_join_drops_null_keys :
    ¬ ∀ (lib : Library) (join : Join) (on leftKey rightKey : Expr)
      (leftSchema rightSchema : Option TableSchema) (leftScopes : List Scope) (rightAlias : String)
      (leftRows rightRows : List Row), join.on = some on → join.joinType ≠ .cross →
      splitJoinKeys on leftSchema rightSchema = some (leftKey, rightKey) →
      SameRows lib leftSchema rightSchema join on leftScopes rightAlias leftRows rightRows := by
  intro claimed
  have perm := claimed Library.basic (joinOn .inner onEqual) onEqual (.qualifiedIdent "a" "x")
    (.qualifiedIdent "b" "y") (idSchema "a" "x") (idSchema "b" "y") [⟨"a", 0, 1⟩] "b" [[none]]
    [[none]] rfl (by decide) rfl
  have hashed : applyJoin Library.basic [[none]] [[none]] (joinOn .inner onEqual)
      (idSchema "a" "x") (idSchema "b" "y") [⟨"a", 0, 1⟩] "b" = [] := by decide +kernel
  have nested : nestedLoopJoin Library.basic .inner onEqual [[none]] [[none]] (idSchema "a" "x")
      (idSchema "b" "y") [⟨"a", 0, 1⟩] "b" = [[none, none]] := by decide +kernel
  have lengths := perm.length_eq
  rw [hashed] at lengths
  exact absurd (lengths.trans (congrArg List.length nested)) (by decide)

end Pantheon.Sql
