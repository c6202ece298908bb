import Mathlib
import Pantheon.Telos.JsonLexemes

/-!
# The texts that `parse_json` reads

The reader takes the texts of the grammar and of its extensions, those apart in which half a
surrogate pair is escaped.
-/

set_option autoImplicit false

namespace Pantheon.Telos

open Pantheon.Lib

variable {char : Char} {notes others : List Note} {chars rest other : List Char}
  {key src : String} {fuel : Nat} {value : JsonValue} {node : Node}

/-! ## What stands behind a value -/

theorem continuesNumber_of_white (white : isWhitespace char = true) :
    ¬continuesNumber char := by
  intro continues
  simp only [continuesNumber, Bool.or_eq_true, isDecimalDigit, decide_eq_true_eq,
    isExponentMark_iff] at continues
  rcases continues with (digit | rfl | rfl) | rfl | rfl | rfl
  · have code := of_decide_eq_true white
    omega
  all_goals exact absurd white (by decide)

theorem Space.ends (space : Space notes chars rest)
    (ends : EndsNumber rest) : EndsNumber chars := by
  cases space with
  | none => exact ends
  | plain space _ => exact endsNumber_cons _ _ (continuesNumber_of_white (isWhitespace_of_space space))
  | other _ white _ => exact endsNumber_cons _ _ (continuesNumber_of_white white)

theorem endsNumber_nil : EndsNumber [] := by
  intro char found
  cases found

theorem readSeparator_comma (close : Char)
    (comma : Space notes chars (',' :: rest)) : readSeparator close chars = some (true, rest) := by
  rw [readSeparator, comma.skipWs_of_visible (visible_cons rest (by decide))]
  rfl

theorem readSeparator_close {close : Char}
    (isClose : close = ']' ∨ close = '\x7d') (space : Space notes chars (close :: rest)) :
    readSeparator close chars = some (false, rest) := by
  rcases isClose with rfl | rfl
  · rw [readSeparator, space.skipWs_of_visible (visible_cons rest (by decide))]
    rfl
  · rw [readSeparator, space.skipWs_of_visible (visible_cons rest (by decide))]
    rfl

theorem space_of_readSeparator {close : Char} {more : Bool}
    (run : readSeparator close chars = some (more, rest)) :
    ∃ notes, Space notes chars ((if more then ',' else close) :: rest) := by
  obtain ⟨notes, space⟩ := space_skipWs chars
  refine ⟨notes, ?_⟩
  rw [readSeparator] at run
  split at run
  · rename_i char behind form
    rw [form] at space
    split_ifs at run with comma isClose
    · cases run
      rw [if_pos rfl, ← comma]
      exact space
    · cases run
      rw [if_neg Bool.false_ne_true, ← isClose]
      exact space
  · cases run

theorem expect_eq_some
    (run : expect char chars = some rest) : chars = char :: rest := by
  unfold expect at run
  split at run
  · split_ifs at run with same
    cases run
    rw [same]
  · cases run

theorem expect_cons (char : Char) (rest : List Char) : expect char (char :: rest) = some rest :=
  if_pos rfl

/-! ## Keys -/

theorem Key.read
    (name : Key notes chars key rest) (paired : .unpairedHalf ∉ notes)
    (enough : chars.length ≤ fuel) : parseKey fuel chars = some (key, rest) := by
  cases name with
  | mk space name colon =>
      have first := space.skipWs_of_visible (visible_cons _ (by decide))
      have second := colon.skipWs_of_visible (visible_cons _ (by decide))
      have shorter := space.length_le
      rw [List.length_cons] at shorter
      have read := name.read (fun member => paired
        (List.mem_append_left _ (List.mem_append_right _ member))) (shorter.trans enough)
      simp only [parseKey, first, expect_cons, read, second, Option.bind_eq_bind,
        Option.bind_some]

theorem key_of_parseKey
    (run : parseKey fuel chars = some (key, rest)) :
    ∃ notes, Key notes chars key rest ∧ .unpairedHalf ∉ notes := by
  obtain ⟨quoted, opened, run⟩ := Option.bind_eq_some_iff.mp run
  obtain ⟨⟨text, after⟩, name, run⟩ := Option.bind_eq_some_iff.mp run
  obtain ⟨behind, colon, run⟩ := Option.bind_eq_some_iff.mp run
  cases run
  obtain ⟨before, space⟩ := space_skipWs chars
  obtain ⟨between, gap⟩ := space_skipWs after
  obtain ⟨named, read, paired⟩ := quoted_of_parseString name
  rw [expect_eq_some opened] at space
  rw [expect_eq_some colon] at gap
  refine ⟨_, .mk space read gap, fun member => ?_⟩
  rcases List.mem_append.mp member with front | behind
  · rcases List.mem_append.mp front with front | middle
    · exact space.paired front
    · exact paired middle
  · exact gap.paired behind

theorem Key.unique
    {otherKey : String} (first : Key notes chars key rest)
    (second : Key others chars otherKey other) :
    notes = others ∧ key = otherKey ∧ rest = other := by
  cases first with
  | mk space name colon =>
      cases second with
      | mk otherSpace otherName otherColon =>
          obtain ⟨rfl, same⟩ := space.unique (visible_cons _ (by decide)) otherSpace
            (visible_cons _ (by decide))
          cases same
          obtain ⟨rfl, rfl, rfl⟩ := name.unique otherName
          obtain ⟨rfl, same⟩ := colon.unique (visible_cons _ (by decide)) otherColon
            (visible_cons _ (by decide))
          cases same
          exact ⟨rfl, rfl, rfl⟩

theorem Key.length_lt
    (name : Key notes chars key rest) : rest.length < chars.length := by
  cases name with
  | mk space name colon =>
      have before := space.length_le
      have named := name.length_lt
      have behind := colon.length_le
      simp only [List.length_cons] at before behind
      omega

/-! ## The first character of a value -/

theorem number_head_apart (head : char = '-' ∨ isDecimalDigit char = true) :
    isWhitespace char = false ∧ char ∉ ['\x7b', '[', '"', 't', 'f', 'n', ']', '\x7d'] := by
  rcases head with rfl | digit
  · decide
  · constructor
    · have range := of_decide_eq_true digit
      refine decide_eq_false fun white => ?_
      omega
    · intro member
      simp only [List.mem_cons, List.not_mem_nil, or_false] at member
      rcases member with rfl | rfl | rfl | rfl | rfl | rfl | rfl | rfl <;>
        exact absurd digit (by decide)

theorem Number.head_apart
    {value : Decimal} (number : Number notes (char :: chars) value rest) :
    isWhitespace char = false ∧ char ∉ ['\x7b', '[', '"', 't', 'f', 'n', ']', '\x7d'] := by
  obtain ⟨first, tail, form, head⟩ := number.head
  rw [(List.cons.inj form).1]
  exact number_head_apart head

theorem Reading.value_head
    (read : Reading notes chars (.value value) rest) :
    ∃ first tail, chars = first :: tail ∧ isWhitespace first = false ∧ first ≠ ']' := by
  cases read with
  | number read =>
      obtain ⟨first, tail, rfl, -⟩ := read.head
      have apart := read.head_apart
      refine ⟨first, tail, rfl, apart.1, ?_⟩
      rintro rfl
      exact apart.2 (by decide)
  | _ => exact ⟨_, _, rfl, by decide, by decide⟩

theorem Reading.value_visible
    (read : Reading notes chars (.value value) rest) : Visible chars := by
  obtain ⟨first, tail, rfl, visible, -⟩ := read.value_head
  exact visible_cons tail visible

theorem expect_ne {first : Char} (rest : List Char) (apart : first ≠ char) :
    expect char (first :: rest) = none := if_neg apart

theorem Reading.items_open
    {items : List JsonValue} (read : Reading notes chars (.items items) rest) :
    expect ']' (skipWs chars) = none := by
  cases read with
  | lastItem space read _ | nextItem space read _ _ =>
      rw [space.skipWs_of_visible read.value_visible]
      obtain ⟨first, tail, rfl, -, apart⟩ := read.value_head
      exact expect_ne tail apart

theorem Key.open_
    (name : Key notes chars key rest) : expect '\x7d' (skipWs chars) = none := by
  cases name with
  | mk space _ _ =>
      rw [space.skipWs_of_visible (visible_cons _ (by decide))]
      exact expect_ne _ (by decide)

theorem Reading.members_open
    {fields : List (String × JsonValue)} (read : Reading notes chars (.members fields) rest) :
    expect '\x7d' (skipWs chars) = none := by
  cases read with
  | lastMember name _ _ _ => exact name.open_
  | nextMember name _ _ _ _ => exact name.open_

/-! ## Lengths -/

theorem Digits.length_le {digits : List Char} (read : Digits chars digits rest) :
    rest.length ≤ chars.length := by
  rw [read.text, List.length_append]
  exact Nat.le_add_left _ _

theorem Number.length_le {value : Decimal}
    (number : Number notes chars value rest) : rest.length ≤ chars.length := by
  cases number with
  | @mk chars start point mark rest whole fraction negative exponent sign digits behindPoint
      scale =>
      have signed : start.length ≤ chars.length := by
        cases sign with
        | absent => exact le_rfl
        | minus => exact Nat.le_succ _
      have behind : mark.length ≤ point.length := by
        cases behindPoint with
        | absent => exact le_rfl
        | present read => exact read.length_le.trans (Nat.le_succ _)
      have scaled : rest.length ≤ mark.length := by
        cases scale with
        | absent => exact le_rfl
        | unsigned _ read => exact read.length_le.trans (Nat.le_succ _)
        | plus _ read => exact (read.length_le.trans (Nat.le_succ _)).trans (Nat.le_succ _)
        | minus _ read => exact (read.length_le.trans (Nat.le_succ _)).trans (Nat.le_succ _)
      exact ((scaled.trans behind).trans digits.length_le).trans signed

theorem Reading.length_le
    (read : Reading notes chars node rest) : rest.length ≤ chars.length := by
  induction read with
  | nullWord => simp only [List.length_cons]; omega
  | trueWord => simp only [List.length_cons]; omega
  | falseWord => simp only [List.length_cons]; omega
  | number read => exact read.length_le
  | str read => exact read.length_lt.le.trans (Nat.le_succ _)
  | emptyArray close =>
      exact ((Nat.le_succ _).trans close.length_le).trans (Nat.le_succ _)
  | array _ ih => exact ih.trans (Nat.le_succ _)
  | emptyObject close =>
      exact ((Nat.le_succ _).trans close.length_le).trans (Nat.le_succ _)
  | object _ ih => exact ih.trans (Nat.le_succ _)
  | lastItem space _ close ih =>
      exact (((Nat.le_succ _).trans close.length_le).trans ih).trans space.length_le
  | nextItem space _ comma _ ih others =>
      exact (((others.trans (Nat.le_succ _)).trans comma.length_le).trans ih).trans
        space.length_le
  | lastMember name space _ close ih =>
      exact ((((Nat.le_succ _).trans close.length_le).trans ih).trans space.length_le).trans
        name.length_lt.le
  | nextMember name space _ comma _ ih others =>
      exact ((((others.trans (Nat.le_succ _)).trans comma.length_le).trans ih).trans
        space.length_le).trans name.length_lt.le

/-! ## What the grammar reads the reader reads -/

def Node.ReadAs (fuel : Nat) (chars rest : List Char) : Node → Prop
  | .value found => parseValue fuel chars = some (found, rest)
  | .items found => parseItems fuel chars = some (found, rest)
  | .members found => parseMembers fuel chars = some (found, rest)

def Node.turns : Node → Nat
  | .value _ => 1
  | _ => 2

theorem parseValue_skip {start : List Char}
    (skipped : skipWs chars = skipWs start) : parseValue fuel chars = parseValue fuel start := by
  cases fuel with
  | zero => rfl
  | succ fuel => rw [parseValue, parseValue, skipped]

theorem parseValue_number {value : Decimal}
    (number : Number notes chars value rest) (ends : EndsNumber rest) :
    parseValue (fuel + 1) chars = some (.number value, rest) := by
  have read := number.read ends
  obtain ⟨first, tail, rfl, head⟩ := number.head
  obtain ⟨visible, apart⟩ := number.head_apart
  simp only [List.mem_cons, List.not_mem_nil, or_false, not_or] at apart
  obtain ⟨notBrace, notBracket, notQuote, notT, notF, notN, -, -⟩ := apart
  have starts : (first = '-' || isAsciiDigit first) = true := by
    rcases head with rfl | digit
    · rfl
    · exact Bool.or_eq_true_iff.mpr (Or.inr digit)
  rw [parseValue, skipWs_visible (visible_cons tail visible)]
  simp only [if_neg notBrace, if_neg notBracket, if_neg notQuote, if_neg notT, if_neg notF,
    if_neg notN, if_pos starts, read, Option.bind_eq_bind, Option.bind_some]

theorem turn_left {length : Nat} (enough : 2 * length + node.turns ≤ fuel) :
    ∃ left, fuel = left + 1 ∧ 2 * length + node.turns ≤ left + 1 := by
  cases fuel with
  | zero => cases node <;> simp only [Node.turns] at enough <;> omega
  | succ left => exact ⟨left, rfl, enough⟩

/-- The reader reads the node, whatever fuel is enough for the text. -/
def WillRead (notes : List Note) (chars : List Char) (node : Node) (rest : List Char) : Prop :=
  .unpairedHalf ∉ notes → EndsNumber rest →
    ∀ {fuel : Nat}, 2 * chars.length + node.turns ≤ fuel → node.ReadAs fuel chars rest

theorem WillRead.element {before : List Note} {start after : List Char}
    (will : WillRead notes start (.value value) after) (space : Space before chars start)
    (paired : .unpairedHalf ∉ notes) (ends : EndsNumber after)
    (enough : 2 * start.length + 1 ≤ fuel) : parseValue fuel chars = some (value, after) := by
  have first := @will paired ends fuel enough
  rwa [Node.ReadAs, ← parseValue_skip space.skipWs_eq] at first

theorem WillRead.array {items : List JsonValue} (will : WillRead notes chars (.items items) rest)
    (read : Reading notes chars (.items items) rest) :
    WillRead notes ('[' :: chars) (.value (.array items)) rest := by
  intro paired ends fuel enough
  obtain ⟨left, rfl, enough⟩ := turn_left enough
  simp only [List.length_cons, Node.turns] at enough
  have found := @will paired ends left (by simp only [Node.turns]; omega)
  rw [Node.ReadAs] at found
  rw [Node.ReadAs, parseValue, skipWs_visible (visible_cons _ (by decide))]
  simp only [Char.reduceEq, if_false, if_true, read.items_open, found, Option.bind_eq_bind,
    Option.bind_some]

theorem WillRead.object {fields : List (String × JsonValue)}
    (will : WillRead notes chars (.members fields) rest)
    (read : Reading notes chars (.members fields) rest) :
    WillRead notes ('\x7b' :: chars) (.value (.object fields)) rest := by
  intro paired ends fuel enough
  obtain ⟨left, rfl, enough⟩ := turn_left enough
  simp only [List.length_cons, Node.turns] at enough
  have found := @will paired ends left (by simp only [Node.turns]; omega)
  rw [Node.ReadAs] at found
  rw [Node.ReadAs, parseValue, skipWs_visible (visible_cons _ (by decide))]
  simp only [if_true, read.members_open, found, Option.bind_eq_bind, Option.bind_some]

theorem Reading.read (reading : Reading notes chars node rest) :
    WillRead notes chars node rest := by
  induction reading with
  | nullWord | trueWord | falseWord =>
      intro _ _ fuel enough
      obtain ⟨left, rfl, -⟩ := turn_left enough
      rw [Node.ReadAs, parseValue, skipWs_visible (visible_cons _ (by decide))]
      rfl
  | number read =>
      intro _ ends fuel enough
      obtain ⟨left, rfl, -⟩ := turn_left enough
      exact parseValue_number read ends
  | str read =>
      intro paired _ fuel enough
      obtain ⟨left, rfl, enough⟩ := turn_left enough
      simp only [List.length_cons, Node.turns] at enough
      have text := @Quoted.read _ _ _ _ read paired left (by omega)
      rw [Node.ReadAs, parseValue, skipWs_visible (visible_cons _ (by decide))]
      change (parseString left _).bind _ = _
      rw [text]
      rfl
  | emptyArray close =>
      intro _ _ fuel enough
      obtain ⟨left, rfl, -⟩ := turn_left enough
      have closed := close.skipWs_of_visible (visible_cons _ (by decide))
      rw [Node.ReadAs, parseValue, skipWs_visible (visible_cons _ (by decide))]
      simp only [Char.reduceEq, if_false, if_true, closed, expect_cons]
  | array items ih => exact ih.array items
  | emptyObject close =>
      intro _ _ fuel enough
      obtain ⟨left, rfl, -⟩ := turn_left enough
      have closed := close.skipWs_of_visible (visible_cons _ (by decide))
      rw [Node.ReadAs, parseValue, skipWs_visible (visible_cons _ (by decide))]
      simp only [if_true, closed, expect_cons]
  | object members ih => exact ih.object members
  | lastItem space value close ih =>
      intro paired _ fuel enough
      obtain ⟨left, rfl, enough⟩ := turn_left enough
      simp only [List.mem_append, not_or] at paired
      simp only [Node.turns] at enough
      have shorter := space.length_le
      have first := ih.element space paired.1.2 (close.ends (endsNumber_cons _ _ (by decide)))
        (show _ ≤ left by omega)
      rw [Node.ReadAs, parseItems]
      simp only [first, readSeparator_close (Or.inl rfl) close, Option.bind_eq_bind,
        Option.bind_some, Bool.false_eq_true, if_false]
  | nextItem space value comma _ ih others =>
      intro paired ends fuel enough
      obtain ⟨left, rfl, enough⟩ := turn_left enough
      simp only [List.mem_append, not_or] at paired
      simp only [Node.turns] at enough
      have shorter := space.length_le
      have behind := (comma.length_le.trans value.length_le).trans shorter
      rw [List.length_cons] at behind
      have first := ih.element space paired.1.1.2 (comma.ends (endsNumber_cons _ _ (by decide)))
        (show _ ≤ left by omega)
      have second := @others paired.2 ends left (by simp only [Node.turns]; omega)
      rw [Node.ReadAs] at second
      rw [Node.ReadAs, parseItems]
      simp only [first, readSeparator_comma ']' comma, second, Option.bind_eq_bind,
        Option.bind_some, if_true]
  | lastMember name space value close ih =>
      intro paired _ fuel enough
      obtain ⟨left, rfl, enough⟩ := turn_left enough
      simp only [List.mem_append, not_or] at paired
      simp only [Node.turns] at enough
      have shorter := space.length_le
      have named := name.length_lt
      have key := name.read paired.1.1.1 (show _ ≤ left by omega)
      have first := ih.element space paired.1.2 (close.ends (endsNumber_cons _ _ (by decide)))
        (show _ ≤ left by omega)
      rw [Node.ReadAs, parseMembers]
      simp only [key, first, readSeparator_close (Or.inr rfl) close, Option.bind_eq_bind,
        Option.bind_some, Bool.false_eq_true, if_false]
  | nextMember name space value comma _ ih others =>
      intro paired ends fuel enough
      obtain ⟨left, rfl, enough⟩ := turn_left enough
      simp only [List.mem_append, not_or] at paired
      simp only [Node.turns] at enough
      have shorter := space.length_le
      have named := name.length_lt
      have behind := (comma.length_le.trans value.length_le).trans shorter
      rw [List.length_cons] at behind
      have key := name.read paired.1.1.1.1 (show _ ≤ left by omega)
      have first := ih.element space paired.1.1.2 (comma.ends (endsNumber_cons _ _ (by decide)))
        (show _ ≤ left by omega)
      have second := @others paired.2 ends left (by simp only [Node.turns]; omega)
      rw [Node.ReadAs] at second
      rw [Node.ReadAs, parseMembers]
      simp only [key, first, readSeparator_comma '\x7d' comma, second, Option.bind_eq_bind,
        Option.bind_some, if_true]

/-! ## What the reader reads the grammar reads -/

/-- Read by the grammar, no half of a pair in it. -/
def PairedReading (chars : List Char) (node : Node) (rest : List Char) : Prop :=
  ∃ notes, Reading notes chars node rest ∧ .unpairedHalf ∉ notes

def PairedElement (chars : List Char) (value : JsonValue) (rest : List Char) : Prop :=
  PairedReading (skipWs chars) (.value value) rest

theorem tryMatch_eq_some {word : List Char} {result : JsonValue}
    (run : tryMatch word value chars = some (result, rest)) :
    result = value ∧ chars = word ++ rest := by
  rw [tryMatch] at run
  split_ifs at run with isPrefix
  cases run
  refine ⟨rfl, ?_⟩
  obtain ⟨behind, rfl⟩ := List.isPrefixOf_iff_prefix.mp isPrefix
  rw [List.drop_left]

theorem paired_append {first second : List Note} (left : Note.unpairedHalf ∉ first)
    (right : Note.unpairedHalf ∉ second) : Note.unpairedHalf ∉ first ++ second := by
  rw [List.mem_append, not_or]
  exact ⟨left, right⟩

theorem element_of_parseValue
    (items : ∀ {chars rest : List Char} {found : List JsonValue},
      parseItems fuel chars = some (found, rest) → PairedReading chars (.items found) rest)
    (members : ∀ {chars rest : List Char} {found : List (String × JsonValue)},
      parseMembers fuel chars = some (found, rest) → PairedReading chars (.members found) rest)
    (run : parseValue (fuel + 1) chars = some (value, rest)) : PairedElement chars value rest := by
  rw [parseValue] at run
  unfold PairedElement
  split at run
  · cases run
  · rename_i first tail form
    rw [form]
    split_ifs at run with brace bracket quote isT isF isN starts
    · subst brace
      obtain ⟨notes, space⟩ := space_skipWs tail
      split at run
      · rename_i behind closed
        cases run
        rw [expect_eq_some closed] at space
        exact ⟨notes, .emptyObject space, space.paired⟩
      · obtain ⟨⟨found, after⟩, read, run⟩ := Option.bind_eq_some_iff.mp run
        cases run
        obtain ⟨noted, reading, paired⟩ := members read
        exact ⟨noted, .object reading, paired⟩
    · subst bracket
      obtain ⟨notes, space⟩ := space_skipWs tail
      split at run
      · rename_i behind closed
        cases run
        rw [expect_eq_some closed] at space
        exact ⟨notes, .emptyArray space, space.paired⟩
      · obtain ⟨⟨found, after⟩, read, run⟩ := Option.bind_eq_some_iff.mp run
        cases run
        obtain ⟨noted, reading, paired⟩ := items read
        exact ⟨noted, .array reading, paired⟩
    · subst quote
      obtain ⟨⟨text, after⟩, read, run⟩ := Option.bind_eq_some_iff.mp run
      cases run
      obtain ⟨notes, quoted, paired⟩ := quoted_of_parseString read
      exact ⟨notes, .str quoted, paired⟩
    · obtain ⟨rfl, form⟩ := tryMatch_eq_some run
      rw [form]
      exact ⟨[], .trueWord, List.not_mem_nil⟩
    · obtain ⟨rfl, form⟩ := tryMatch_eq_some run
      rw [form]
      exact ⟨[], .falseWord, List.not_mem_nil⟩
    · obtain ⟨rfl, form⟩ := tryMatch_eq_some run
      rw [form]
      exact ⟨[], .nullWord, List.not_mem_nil⟩
    · obtain ⟨⟨found, after⟩, read, run⟩ := Option.bind_eq_some_iff.mp run
      cases run
      obtain ⟨notes, number, paired⟩ := number_of_parseNumber read
      exact ⟨notes, .number number, paired⟩

theorem readings_of_runs (fuel : Nat) :
    (∀ {chars rest : List Char} {value : JsonValue},
      parseValue fuel chars = some (value, rest) → PairedElement chars value rest) ∧
    (∀ {chars rest : List Char} {found : List JsonValue},
      parseItems fuel chars = some (found, rest) → PairedReading chars (.items found) rest) ∧
    (∀ {chars rest : List Char} {found : List (String × JsonValue)},
      parseMembers fuel chars = some (found, rest) → PairedReading chars (.members found) rest) := by
  induction fuel with
  | zero => exact ⟨fun run => (nomatch run), fun run => (nomatch run), fun run => (nomatch run)⟩
  | succ fuel ih =>
      obtain ⟨values, items, members⟩ := ih
      refine ⟨element_of_parseValue items members, ?_, ?_⟩
      · intro chars rest found run
        rw [parseItems] at run
        obtain ⟨⟨item, after⟩, first, run⟩ := Option.bind_eq_some_iff.mp run
        obtain ⟨⟨more, behind⟩, separator, run⟩ := Option.bind_eq_some_iff.mp run
        obtain ⟨before, space⟩ := space_skipWs chars
        obtain ⟨notes, read, paired⟩ := values first
        obtain ⟨between, gap⟩ := space_of_readSeparator separator
        have here := paired_append (paired_append space.paired paired) gap.paired
        simp only at run
        split_ifs at run with comma
        · obtain ⟨⟨others, last⟩, second, run⟩ := Option.bind_eq_some_iff.mp run
          cases run
          obtain ⟨noted, reading, later⟩ := items second
          rw [if_pos comma] at gap
          exact ⟨_, .nextItem space read gap reading, paired_append here later⟩
        · cases run
          rw [if_neg comma] at gap
          exact ⟨_, .lastItem space read gap, here⟩
      · intro chars rest found run
        rw [parseMembers] at run
        obtain ⟨⟨key, colon⟩, name, run⟩ := Option.bind_eq_some_iff.mp run
        obtain ⟨⟨item, after⟩, first, run⟩ := Option.bind_eq_some_iff.mp run
        obtain ⟨⟨more, behind⟩, separator, run⟩ := Option.bind_eq_some_iff.mp run
        obtain ⟨named, keyRead, keyPaired⟩ := key_of_parseKey name
        obtain ⟨before, space⟩ := space_skipWs colon
        obtain ⟨notes, read, paired⟩ := values first
        obtain ⟨between, gap⟩ := space_of_readSeparator separator
        have here := paired_append
          (paired_append (paired_append keyPaired space.paired) paired) gap.paired
        simp only at run
        split_ifs at run with comma
        · obtain ⟨⟨others, last⟩, second, run⟩ := Option.bind_eq_some_iff.mp run
          cases run
          obtain ⟨noted, reading, later⟩ := members second
          rw [if_pos comma] at gap
          exact ⟨_, .nextMember keyRead space read gap reading, paired_append here later⟩
        · cases run
          rw [if_neg comma] at gap
          exact ⟨_, .lastMember keyRead space read gap, here⟩

/-! ## One reading -/

def Node.SameKind : Node → Node → Prop
  | .value _, other => ∃ found, other = .value found
  | .items _, other => ∃ found, other = .items found
  | .members _, other => ∃ found, other = .members found

theorem Space.unique_to
    {first second : Char} (space : Space notes chars (first :: rest))
    (visible : isWhitespace first = false) (otherSpace : Space others chars (second :: other))
    (otherVisible : isWhitespace second = false) :
    notes = others ∧ first = second ∧ rest = other := by
  obtain ⟨rfl, same⟩ := space.unique (visible_cons _ visible) otherSpace
    (visible_cons _ otherVisible)
  exact ⟨rfl, List.cons.inj same⟩

theorem not_empty_array
    {items : List JsonValue} (close : Space notes chars (']' :: rest))
    (read : Reading others chars (.items items) other) : False := by
  have opened := read.items_open
  rw [close.skipWs_of_visible (visible_cons _ (by decide)), expect_cons] at opened
  cases opened

theorem not_empty_object
    {fields : List (String × JsonValue)} (close : Space notes chars ('\x7d' :: rest))
    (read : Reading others chars (.members fields) other) : False := by
  have opened := read.members_open
  rw [close.skipWs_of_visible (visible_cons _ (by decide)), expect_cons] at opened
  cases opened

/-- There is no other reading of the kind. -/
def OnlyReading (notes : List Note) (chars : List Char) (node : Node) (rest : List Char) : Prop :=
  EndsNumber rest → ∀ {others : List Note} {otherNode : Node} {other : List Char},
    Reading others chars otherNode other → EndsNumber other → node.SameKind otherNode →
      notes = others ∧ node = otherNode ∧ rest = other

def IsSeparator (char : Char) : Prop := char = ',' ∨ char = ']' ∨ char = '\x7d'

theorem IsSeparator.plain (separator : IsSeparator char) :
    isWhitespace char = false ∧ ¬continuesNumber char := by
  rcases separator with rfl | rfl | rfl <;> decide

theorem OnlyReading.element {before behind otherNotes otherBehind : List Note}
    {start after otherStart otherAfter : List Char}
    {otherValue : JsonValue} {separator otherSeparator : Char}
    (only : OnlyReading notes start (.value value) after)
    (space : Space before chars start) (read : Reading notes start (.value value) after)
    (gap : Space behind after (separator :: rest)) (isSeparator : IsSeparator separator)
    (otherSpace : Space others chars otherStart)
    (otherRead : Reading otherNotes otherStart (.value otherValue) otherAfter)
    (otherGap : Space otherBehind otherAfter (otherSeparator :: other))
    (otherIs : IsSeparator otherSeparator) :
    (before = others ∧ notes = otherNotes ∧ behind = otherBehind) ∧ value = otherValue ∧
      separator = otherSeparator ∧ rest = other := by
  obtain ⟨rfl, rfl⟩ := space.unique read.value_visible otherSpace otherRead.value_visible
  have ends := gap.ends (endsNumber_cons _ rest isSeparator.plain.2)
  have otherEnds := otherGap.ends (endsNumber_cons _ other otherIs.plain.2)
  obtain ⟨rfl, same, rfl⟩ := only ends otherRead otherEnds ⟨_, rfl⟩
  cases same
  obtain ⟨rfl, rfl, rfl⟩ := gap.unique_to isSeparator.plain.1 otherGap otherIs.plain.1
  exact ⟨⟨rfl, rfl, rfl⟩, rfl, rfl, rfl⟩

theorem isSeparator_comma : IsSeparator ',' := Or.inl rfl

theorem isSeparator_bracket : IsSeparator ']' := Or.inr (Or.inl rfl)

theorem isSeparator_brace : IsSeparator '\x7d' := Or.inr (Or.inr rfl)

theorem OnlyReading.array {items : List JsonValue}
    (only : OnlyReading notes chars (.items items) rest)
    (read : Reading notes chars (.items items) rest) :
    OnlyReading notes ('[' :: chars) (.value (.array items)) rest := by
  rintro ends others _ other second otherEnds ⟨found, rfl⟩
  cases second with
  | number otherRead => exact absurd (by decide) otherRead.head_apart.2
  | emptyArray close => exact (not_empty_array close read).elim
  | array otherItems =>
      obtain ⟨rfl, same, rfl⟩ := only ends otherItems otherEnds ⟨_, rfl⟩
      cases same
      exact ⟨rfl, rfl, rfl⟩

theorem OnlyReading.object {fields : List (String × JsonValue)}
    (only : OnlyReading notes chars (.members fields) rest)
    (read : Reading notes chars (.members fields) rest) :
    OnlyReading notes ('\x7b' :: chars) (.value (.object fields)) rest := by
  rintro ends others _ other second otherEnds ⟨found, rfl⟩
  cases second with
  | number otherRead => exact absurd (by decide) otherRead.head_apart.2
  | emptyObject close => exact (not_empty_object close read).elim
  | object otherMembers =>
      obtain ⟨rfl, same, rfl⟩ := only ends otherMembers otherEnds ⟨_, rfl⟩
      cases same
      exact ⟨rfl, rfl, rfl⟩

theorem Reading.unique
    (first : Reading notes chars node rest) : OnlyReading notes chars node rest := by
  induction first with
  | nullWord | trueWord | falseWord =>
      rintro - others _ other second - ⟨found, rfl⟩
      cases second with
      | number read => exact absurd (by decide) read.head_apart.2
      | _ => exact ⟨rfl, rfl, rfl⟩
  | number read =>
      rintro ends others _ other second otherEnds ⟨found, rfl⟩
      cases second with
      | number otherRead =>
          obtain ⟨rfl, rfl, rfl⟩ := read.unique ends otherRead otherEnds
          exact ⟨rfl, rfl, rfl⟩
      | _ => exact absurd (by decide) read.head_apart.2
  | str read =>
      rintro - others _ other second - ⟨found, rfl⟩
      cases second with
      | number otherRead => exact absurd (by decide) otherRead.head_apart.2
      | str otherRead =>
          obtain ⟨rfl, rfl, rfl⟩ := read.unique otherRead
          exact ⟨rfl, rfl, rfl⟩
  | emptyArray close =>
      rintro - others _ other second - ⟨found, rfl⟩
      cases second with
      | number otherRead => exact absurd (by decide) otherRead.head_apart.2
      | emptyArray otherClose =>
          obtain ⟨rfl, -, rfl⟩ := close.unique_to (by decide) otherClose (by decide)
          exact ⟨rfl, rfl, rfl⟩
      | array items => exact (not_empty_array close items).elim
  | array items ih => exact ih.array items
  | emptyObject close =>
      rintro - others _ other second - ⟨found, rfl⟩
      cases second with
      | number otherRead => exact absurd (by decide) otherRead.head_apart.2
      | emptyObject otherClose =>
          obtain ⟨rfl, -, rfl⟩ := close.unique_to (by decide) otherClose (by decide)
          exact ⟨rfl, rfl, rfl⟩
      | object members => exact (not_empty_object close members).elim
  | object members ih => exact ih.object members
  | lastItem space read close ih =>
      rintro - others _ other second - ⟨found, rfl⟩
      cases second with
      | lastItem otherSpace otherRead otherClose =>
          obtain ⟨⟨rfl, rfl, rfl⟩, rfl, -, rfl⟩ := ih.element space read close
            isSeparator_bracket otherSpace otherRead otherClose isSeparator_bracket
          exact ⟨rfl, rfl, rfl⟩
      | nextItem otherSpace otherRead comma _ =>
          obtain ⟨-, -, same, -⟩ := ih.element space read close isSeparator_bracket otherSpace
            otherRead comma isSeparator_comma
          cases same
  | nextItem space read comma _ ih more =>
      rintro ends others _ other second otherEnds ⟨found, rfl⟩
      cases second with
      | lastItem otherSpace otherRead close =>
          obtain ⟨-, -, same, -⟩ := ih.element space read comma isSeparator_comma otherSpace
            otherRead close isSeparator_bracket
          cases same
      | nextItem otherSpace otherRead otherComma otherItems =>
          obtain ⟨⟨rfl, rfl, rfl⟩, rfl, -, rfl⟩ := ih.element space read comma
            isSeparator_comma otherSpace otherRead otherComma isSeparator_comma
          obtain ⟨rfl, same, rfl⟩ := more ends otherItems otherEnds ⟨_, rfl⟩
          cases same
          exact ⟨rfl, rfl, rfl⟩
  | lastMember name space read close ih =>
      rintro - others _ other second - ⟨found, rfl⟩
      cases second with
      | lastMember otherName otherSpace otherRead otherClose =>
          obtain ⟨rfl, rfl, rfl⟩ := name.unique otherName
          obtain ⟨⟨rfl, rfl, rfl⟩, rfl, -, rfl⟩ := ih.element space read close
            isSeparator_brace otherSpace otherRead otherClose isSeparator_brace
          exact ⟨rfl, rfl, rfl⟩
      | nextMember otherName otherSpace otherRead comma _ =>
          obtain ⟨rfl, rfl, rfl⟩ := name.unique otherName
          obtain ⟨-, -, same, -⟩ := ih.element space read close isSeparator_brace otherSpace
            otherRead comma isSeparator_comma
          cases same
  | nextMember name space read comma _ ih more =>
      rintro ends others _ other second otherEnds ⟨found, rfl⟩
      cases second with
      | lastMember otherName otherSpace otherRead close =>
          obtain ⟨rfl, rfl, rfl⟩ := name.unique otherName
          obtain ⟨-, -, same, -⟩ := ih.element space read comma isSeparator_comma otherSpace
            otherRead close isSeparator_brace
          cases same
      | nextMember otherName otherSpace otherRead otherComma otherMembers =>
          obtain ⟨rfl, rfl, rfl⟩ := name.unique otherName
          obtain ⟨⟨rfl, rfl, rfl⟩, rfl, -, rfl⟩ := ih.element space read comma
            isSeparator_comma otherSpace otherRead otherComma isSeparator_comma
          obtain ⟨rfl, same, rfl⟩ := more ends otherMembers otherEnds ⟨_, rfl⟩
          cases same
          exact ⟨rfl, rfl, rfl⟩

/-! ## Documents -/

theorem Document.unique {otherValue : JsonValue}
    (first : Document notes src value) (second : Document others src otherValue) :
    notes = others ∧ value = otherValue := by
  cases first with
  | mk space read close =>
      cases second with
      | mk otherSpace otherRead otherClose =>
          obtain ⟨rfl, rfl⟩ := space.unique read.value_visible otherSpace otherRead.value_visible
          obtain ⟨rfl, same, rfl⟩ := read.unique (close.ends endsNumber_nil) otherRead
            (otherClose.ends endsNumber_nil) ⟨_, rfl⟩
          cases same
          have nothing : Visible [] := fun _ found => (nomatch found)
          obtain ⟨rfl, -⟩ := close.unique nothing otherClose nothing
          exact ⟨rfl, rfl⟩

theorem Document.read
    (document : Document notes src value) (paired : .unpairedHalf ∉ notes)
    (enough : 2 * src.toList.length < fuel) : parseJson fuel src = some value := by
  cases document with
  | mk space read close =>
      simp only [List.mem_append, not_or] at paired
      have shorter := space.length_le
      have first := read.read.element space paired.1.2 (close.ends endsNumber_nil)
        (show _ ≤ fuel by omega)
      have nothing : skipWs _ = skipWs [] := close.skipWs_eq
      simp only [parseJson, first, nothing, Option.bind_eq_bind, Option.bind_some]
      rfl

theorem document_of_parseJson
    (run : parseJson fuel src = some value) :
    ∃ notes, Document notes src value ∧ .unpairedHalf ∉ notes := by
  obtain ⟨⟨found, after⟩, first, run⟩ := Option.bind_eq_some_iff.mp run
  simp only at run
  split_ifs at run with ended
  cases run
  obtain ⟨before, space⟩ := space_skipWs src.toList
  obtain ⟨notes, read, paired⟩ := (readings_of_runs fuel).1 first
  obtain ⟨behind, gap⟩ := space_skipWs after
  rw [List.isEmpty_iff.mp ended] at gap
  exact ⟨_, .mk space read gap, paired_append (paired_append space.paired paired) gap.paired⟩

/-- The reader takes a text for what it stands for if it has no extension of the grammar in it
and no half of a surrogate pair, or both. -/
theorem parse_json_iff (src : String) (enough : 2 * src.toList.length < fuel) :
    (∀ value, parseJson fuel src = some value ↔ IsJsonText src value) ↔
      ∀ notes value, Document notes src value →
        (UsesExtension notes ↔ .unpairedHalf ∈ notes) := by
  constructor
  · intro agrees notes value document
    constructor
    · intro extended
      by_contra paired
      obtain ⟨others, other, plain⟩ := (agrees value).mp (document.read paired enough)
      rw [(document.unique other).1] at extended
      exact plain extended
    · intro half
      by_contra plain
      obtain ⟨others, other, paired⟩ :=
        document_of_parseJson ((agrees value).mpr ⟨notes, document, plain⟩)
      rw [(document.unique other).1] at half
      exact paired half
  · intro balanced value
    constructor
    · intro run
      obtain ⟨notes, document, paired⟩ := document_of_parseJson run
      exact ⟨notes, document, fun extended => paired ((balanced notes value document).mp extended)⟩
    · rintro ⟨notes, document, plain⟩
      exact document.read (fun half => plain ((balanced notes value document).mpr half)) enough

theorem parse_json_of_nested_list :
    (∀ value, parseJson 21 "[[null],1]" = some value ↔ IsJsonText "[[null],1]" value) ↔
      ∀ notes value, Document notes "[[null],1]" value →
        (UsesExtension notes ↔ .unpairedHalf ∈ notes) :=
  parse_json_iff "[[null],1]" (by decide)

/-- A number that starts with a zero is read. -/
theorem leading_zero_is_read :
    ∃ value, parseJson 5 "01" = some value ∧ ¬IsJsonText "01" value := by
  have text : "01".toList = ['0', '1'] := rfl
  have digits : Digits ['0', '1'] ['0', '1'] [] := by
    refine ⟨List.cons_ne_nil _ _, fun char member => ?_, rfl⟩
    rcases List.mem_pair.mp member with rfl | rfl <;> decide
  have document : Document [.leadingZero] "01" (.number ⟨false, 1, 0⟩) := by
    refine @Document.mk [] [.leadingZero] [] "01" ['0', '1'] [] _ ?_ ?_ .none
    · rw [text]
      exact .none
    · exact .number (.mk .absent digits .absent .absent)
  refine ⟨_, document.read (by decide) (by decide), ?_⟩
  rintro ⟨others, other, plain⟩
  rw [← (document.unique other).1] at plain
  exact plain ⟨.leadingZero, List.mem_cons_self, by decide⟩

end Pantheon.Telos
