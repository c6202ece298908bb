import Mathlib
import Pantheon.Lib.OrdMap
import Pantheon.Lib.Overlay
import Pantheon.Lib.Utf8
import Pantheon.Keystone.Jsonb

/-!
# Document indexes: `storage/canopy_index.rs`

A path index maps the text of the value at a path to the rows whose document
has it there; a full-text index maps a token to the rows whose text contains
it, with the number of times it does, and keeps the number of tokens of each
row.  Counts are 32-bit numbers.  What a letter is, its lower case and the text
of a float are parameters.
-/

set_option autoImplicit false

namespace Pantheon.Keystone

open Pantheon.Lib

/-! ## The path index -/

/-- Segments are separated by dots, and an empty one stays where it is. -/
def extractPath (doc : Json) (path : String) : Option Json :=
  (path.toList.splitOn '.').foldl
    (fun current segment =>
      if segment.isEmpty then current
      else
        match current with
        | some (.object entries) =>
            (entries.find? fun entry => decide (entry.1 = String.ofList segment)).map Prod.snd
        | _ => none)
    (some doc)

def scalarKeyText (floatText : UInt64 → String) : Json → Option String
  | .null => none
  | .bool value => some (toString value)
  | .number (.posInt value) => some (toString value)
  | .number (.negInt value) => some (toString value)
  | .number (.float bits) => some (floatText bits)
  | .string value => some value
  | .array _ => none
  | .object _ => none

structure JsonPathIndex where
  jsonPath : String
  map : OrdMap String (List Bytes)

namespace JsonPathIndex

variable (serde : Serde) (floatText : UInt64 → String)

def create (jsonPath : String) : JsonPathIndex := ⟨jsonPath, OrdMap.empty⟩

/-- The text a document is indexed under; a malformed document has none. -/
def keyText (jsonPath docText : String) : Option String := do
  let doc ← serde.fromSlice (utf8Bytes docText)
  let found ← extractPath doc jsonPath
  scalarKeyText floatText found

def lookup (index : JsonPathIndex) (valueText : String) : List Bytes :=
  (index.map.get? valueText).getD []

def insert (index : JsonPathIndex) (rowKey : Bytes) (docText : String) : JsonPathIndex :=
  match keyText serde floatText index.jsonPath docText with
  | some text =>
      let bucket := index.lookup text
      let bucket := if bucket.contains rowKey then bucket else bucket ++ [rowKey]
      { index with map := index.map.insert text bucket }
  | none => index

def insertAll (index : JsonPathIndex) (inserts : List (Bytes × String)) : JsonPathIndex :=
  inserts.foldl (fun index entry => index.insert serde floatText entry.1 entry.2) index

def latestText (jsonPath : String) (inserts : List (Bytes × String)) (rowKey : Bytes) :
    Option String :=
  (lastWrite (inserts.map fun entry => (entry.1, some entry.2)) rowKey).bind
    (keyText serde floatText jsonPath)

variable {serde floatText}

theorem jsonPath_insert (index : JsonPathIndex) (rowKey : Bytes) (docText : String) :
    (index.insert serde floatText rowKey docText).jsonPath = index.jsonPath := by
  unfold insert
  split <;> rfl

theorem lookup_insert (index : JsonPathIndex) (rowKey : Bytes) (docText valueText : String) :
    (index.insert serde floatText rowKey docText).lookup valueText =
      if keyText serde floatText index.jsonPath docText = some valueText ∧
          rowKey ∉ index.lookup valueText then
        index.lookup valueText ++ [rowKey]
      else index.lookup valueText := by
  unfold insert
  cases indexed : keyText serde floatText index.jsonPath docText with
  | none =>
      rw [if_neg fun both => by cases both.1]
  | some text =>
      simp only [lookup, OrdMap.get?_insert, Option.some.injEq, List.contains_iff_mem]
      by_cases same : valueText = text
      · subst same
        rw [if_pos rfl, Option.getD_some]
        by_cases present : rowKey ∈ (index.map.get? valueText).getD []
        · rw [if_pos present, if_neg fun both => both.2 present]
        · rw [if_neg present, if_pos ⟨rfl, present⟩]
      · rw [if_neg same, if_neg fun both => same both.1.symm]

theorem mem_lookup_insert (index : JsonPathIndex) (rowKey : Bytes) (docText valueText : String)
    (other : Bytes) :
    other ∈ (index.insert serde floatText rowKey docText).lookup valueText ↔
      other ∈ index.lookup valueText ∨
        other = rowKey ∧ keyText serde floatText index.jsonPath docText = some valueText := by
  rw [lookup_insert]
  split_ifs with added
  · rw [List.mem_append, List.mem_singleton]
    exact or_congr_right ⟨fun same => ⟨same, added.1⟩, And.left⟩
  · refine ⟨Or.inl, ?_⟩
    rintro (member | ⟨rfl, text⟩)
    · exact member
    · exact not_not.mp fun fresh => added ⟨text, fresh⟩

theorem nodup_lookup_insert (index : JsonPathIndex) (rowKey : Bytes) (docText valueText : String)
    (nodup : (index.lookup valueText).Nodup) :
    ((index.insert serde floatText rowKey docText).lookup valueText).Nodup := by
  rw [lookup_insert]
  split_ifs with added
  · apply List.nodup_append.mpr
    refine ⟨nodup, List.nodup_singleton _, ?_⟩
    intro row member other last same
    rw [List.mem_singleton] at last
    exact added.2 (last ▸ same ▸ member)
  · exact nodup

theorem insertAll_append_single (index : JsonPathIndex) (inserts : List (Bytes × String))
    (entry : Bytes × String) :
    index.insertAll serde floatText (inserts ++ [entry]) =
      (index.insertAll serde floatText inserts).insert serde floatText entry.1 entry.2 :=
  List.foldl_concat _ _ _ _

theorem jsonPath_insertAll (jsonPath : String) (inserts : List (Bytes × String)) :
    ((create jsonPath).insertAll serde floatText inserts).jsonPath = jsonPath := by
  induction inserts using List.reverseRecOn with
  | nil => rfl
  | append_singleton inserts entry ih =>
      rw [insertAll_append_single, jsonPath_insert, ih]

theorem mem_lookup (jsonPath valueText : String) (rowKey : Bytes)
    (inserts : List (Bytes × String)) :
    rowKey ∈ ((create jsonPath).insertAll serde floatText inserts).lookup valueText ↔
      ∃ docText, (rowKey, docText) ∈ inserts ∧
        keyText serde floatText jsonPath docText = some valueText := by
  induction inserts using List.reverseRecOn with
  | nil =>
      constructor
      · intro member
        cases member
      · rintro ⟨docText, member, _⟩
        cases member
  | append_singleton inserts entry ih =>
      obtain ⟨row, doc⟩ := entry
      rw [insertAll_append_single, mem_lookup_insert, jsonPath_insertAll, ih]
      constructor
      · rintro (⟨docText, member, text⟩ | ⟨rfl, text⟩)
        · exact ⟨docText, List.mem_append_left _ member, text⟩
        · exact ⟨doc, List.mem_append_right _ List.mem_cons_self, text⟩
      · rintro ⟨docText, member, text⟩
        rcases List.mem_append.mp member with member | last
        · exact Or.inl ⟨docText, member, text⟩
        · obtain ⟨rfl, rfl⟩ := Prod.mk.inj (List.mem_singleton.mp last)
          exact Or.inr ⟨rfl, text⟩

theorem nodup_lookup (jsonPath valueText : String) (inserts : List (Bytes × String)) :
    (((create jsonPath).insertAll serde floatText inserts).lookup valueText).Nodup := by
  induction inserts using List.reverseRecOn with
  | nil => exact List.nodup_nil
  | append_singleton inserts entry ih =>
      rw [insertAll_append_single]
      exact nodup_lookup_insert _ entry.1 entry.2 valueText ih

variable (serde floatText)

/-- Whatever text a row has been indexed under is that of its latest document. -/
def Unmoved (jsonPath : String) (inserts : List (Bytes × String)) : Prop :=
  ∀ entry ∈ inserts, ∀ text, keyText serde floatText jsonPath entry.2 = some text →
    latestText serde floatText jsonPath inserts entry.1 = some text

/-- Lookups are exact precisely when no row has moved to another value, or away. -/
theorem lookup_exact_iff (jsonPath : String) (inserts : List (Bytes × String)) :
    (∀ valueText,
      (((create jsonPath).insertAll serde floatText inserts).lookup valueText).Nodup ∧
      ∀ rowKey, rowKey ∈ ((create jsonPath).insertAll serde floatText inserts).lookup valueText ↔
        latestText serde floatText jsonPath inserts rowKey = some valueText) ↔
      Unmoved serde floatText jsonPath inserts := by
  constructor
  · intro exact_ entry member text indexed
    exact ((exact_ text).2 entry.1).mp ((mem_lookup jsonPath text entry.1 inserts).mpr
      ⟨entry.2, member, indexed⟩)
  · intro unmoved valueText
    refine ⟨nodup_lookup jsonPath valueText inserts, fun rowKey => ?_⟩
    rw [mem_lookup]
    constructor
    · rintro ⟨docText, member, text⟩
      exact unmoved (rowKey, docText) member valueText text
    · intro latest
      obtain ⟨docText, written, text⟩ := Option.bind_eq_some_iff.mp latest
      obtain ⟨entry, member, same⟩ := List.mem_map.mp (mem_of_lastWrite written)
      obtain ⟨rfl, value⟩ := Prod.mk.inj same
      exact ⟨docText, Option.some.inj value ▸ member, text⟩

def cityDocs : Serde where
  fromSlice text :=
    if text = utf8Bytes "\x7b\"city\":\"Wellington\"\x7d" then
      some (.object [("city", .string "Wellington")])
    else if text = utf8Bytes "\x7b\"city\":\"Auckland\"\x7d" then
      some (.object [("city", .string "Auckland")])
    else none
  toVec _ := []
  wellFormed text value parsed := by
    split_ifs at parsed with first second
    · cases Option.some.inj parsed
      simp [Json.Numbers, Json.NumbersEntries]
    · cases Option.some.inj parsed
      simp [Json.Numbers, Json.NumbersEntries]

def movedRow : List (Bytes × String) :=
  [([1], "\x7b\"city\":\"Wellington\"\x7d"), ([1], "\x7b\"city\":\"Auckland\"\x7d")]

theorem moved_row_found_at_old_value :
    ¬∀ valueText,
      (((create "city").insertAll cityDocs (fun _ => "") movedRow).lookup valueText).Nodup ∧
      ∀ rowKey,
        rowKey ∈ ((create "city").insertAll cityDocs (fun _ => "") movedRow).lookup valueText ↔
          latestText cityDocs (fun _ => "") "city" movedRow rowKey = some valueText := by
  intro exact_
  have found : [1] ∈ ((create "city").insertAll cityDocs (fun _ => "") movedRow).lookup
      "Wellington" := by decide +kernel
  have latest : latestText cityDocs (fun _ => "") "city" movedRow [1] = some "Auckland" := by
    decide +kernel
  have other := ((exact_ "Wellington").2 [1]).mp found
  rw [latest] at other
  exact absurd (Option.some.inj other) (by decide)

end JsonPathIndex

/-! ## The full-text index -/

/-- What the tokenizer asks of Unicode. -/
structure Unicode where
  isAlphanumeric : Char → Bool
  toLowercase : String → String

def tokenize (unicode : Unicode) (text : String) : List String :=
  ((text.toList.splitOnP fun char => !unicode.isAlphanumeric char).filter
    fun run => !run.isEmpty).map fun run => unicode.toLowercase (String.ofList run)

structure FtsIndex where
  postings : OrdMap String (OrdMap Bytes Nat)
  docLengths : OrdMap Bytes Nat

namespace FtsIndex

variable (unicode : Unicode)

def create : FtsIndex := ⟨OrdMap.empty, OrdMap.empty⟩

def bump (rowKey : Bytes) (postings : OrdMap String (OrdMap Bytes Nat)) (token : String) :
    OrdMap String (OrdMap Bytes Nat) :=
  let bucket := (postings.get? token).getD OrdMap.empty
  postings.insert token
    (bucket.insert rowKey (((bucket.get? rowKey).getD 0 + 1) % 2 ^ 32))

def remove (index : FtsIndex) (rowKey : Bytes) : FtsIndex :=
  if (index.docLengths.get? rowKey).isSome then
    { postings := index.postings.mapValues fun _ bucket => bucket.erase rowKey
      docLengths := index.docLengths.erase rowKey }
  else index

def insert (index : FtsIndex) (rowKey : Bytes) (text : String) : FtsIndex :=
  let cleared := index.remove rowKey
  let tokens := tokenize unicode text
  { postings := tokens.foldl (bump rowKey) cleared.postings
    docLengths := cleared.docLengths.insert rowKey (tokens.length % 2 ^ 32) }

def searchAnd (index : FtsIndex) (query : String) : List Bytes :=
  match tokenize unicode query with
  | [] => []
  | first :: rest =>
      let rows := match index.postings.get? first with
        | some bucket => bucket.toList.map Prod.fst
        | none => []
      rest.foldl
        (fun rows token => rows.filter fun rowKey =>
          (index.postings.get? token).any fun bucket => (bucket.get? rowKey).isSome)
        rows

inductive Call where
  | insert (rowKey : Bytes) (text : String)
  | remove (rowKey : Bytes)
deriving DecidableEq

def step (index : FtsIndex) : Call → FtsIndex
  | .insert rowKey text => index.insert unicode rowKey text
  | .remove rowKey => index.remove rowKey

def run (index : FtsIndex) (calls : List Call) : FtsIndex := calls.foldl (step unicode) index

def Call.write : Call → Bytes × Option String
  | .insert rowKey text => (rowKey, some text)
  | .remove rowKey => (rowKey, none)

/-- The text a row was last inserted with, unless it has been removed since. -/
def currentText (calls : List Call) (rowKey : Bytes) : Option String :=
  lastWrite (calls.map Call.write) rowKey

/-- How often the index says a token occurs in a row it lists under the token. -/
def count (postings : OrdMap String (OrdMap Bytes Nat)) (token : String) (rowKey : Bytes) :
    Option Nat :=
  (postings.get? token).bind fun bucket => bucket.get? rowKey

theorem count_bump (rowKey : Bytes) (postings : OrdMap String (OrdMap Bytes Nat))
    (token other : String) (otherKey : Bytes) :
    count (bump rowKey postings token) other otherKey =
      if otherKey = rowKey ∧ other = token then
        some (((count postings token rowKey).getD 0 + 1) % 2 ^ 32)
      else count postings other otherKey := by
  simp only [count, bump, OrdMap.get?_insert]
  by_cases same : other = token
  · subst same
    rw [if_pos rfl, Option.bind_some, OrdMap.get?_insert]
    cases held : postings.get? other with
    | none => simp [OrdMap.get?]
    | some bucket => simp
  · rw [if_neg same, if_neg fun both => same both.2]

theorem count_foldl_bump (rowKey : Bytes) (token : String) (otherKey : Bytes)
    (tokens : List String) :
    ∀ postings : OrdMap String (OrdMap Bytes Nat),
      count (tokens.foldl (bump rowKey) postings) token otherKey =
        if otherKey = rowKey ∧ token ∈ tokens then
          some (((count postings token rowKey).getD 0 + tokens.count token) % 2 ^ 32)
        else count postings token otherKey := by
  induction tokens with
  | nil => intro postings; simp
  | cons first rest ih =>
      intro postings
      rw [List.foldl_cons, ih, count_bump, count_bump, List.count_cons]
      by_cases row : otherKey = rowKey
      · subst row
        by_cases here : token = first
        · subst here
          by_cases again : token ∈ rest
          · simp only [again, List.mem_cons, and_self, or_true, if_true, Option.getD_some,
              beq_self_eq_true]
            congr 1
            omega
          · simp [again, List.count_eq_zero_of_not_mem again]
        · have apart : ¬first = token := fun same => here same.symm
          by_cases again : token ∈ rest
          · simp [again, here, apart]
          · simp [again, here]
      · simp [row]

theorem count_mapValues_erase (postings : OrdMap String (OrdMap Bytes Nat)) (rowKey : Bytes)
    (token : String) (otherKey : Bytes) :
    count (postings.mapValues fun _ bucket => bucket.erase rowKey) token otherKey =
      if otherKey = rowKey then none else count postings token otherKey := by
  unfold count
  rw [OrdMap.get?_mapValues]
  cases held : postings.get? token with
  | none => simp
  | some bucket => simp [OrdMap.get?_erase]

/-- The index says of each row what its text says. -/
structure Indexes (texts : Bytes → Option String) (index : FtsIndex) : Prop where
  lengths : ∀ rowKey, index.docLengths.get? rowKey =
    (texts rowKey).map fun text => (tokenize unicode text).length % 2 ^ 32
  counts : ∀ token rowKey, count index.postings token rowKey =
    (texts rowKey).bind fun text =>
      if token ∈ tokenize unicode text then
        some ((tokenize unicode text).count token % 2 ^ 32)
      else none

variable {unicode} {texts : Bytes → Option String} {index : FtsIndex}

theorem Indexes.remove (indexes : Indexes unicode texts index) (rowKey : Bytes) :
    Indexes unicode (fun other => if other = rowKey then none else texts other)
      (index.remove rowKey) := by
  unfold FtsIndex.remove
  split_ifs with present
  · refine ⟨fun other => ?_, fun token other => ?_⟩
    · rw [OrdMap.get?_erase, indexes.lengths]
      split_ifs <;> rfl
    · rw [count_mapValues_erase, indexes.counts]
      split_ifs <;> rfl
  · -- a row without a length has no postings either
    have unwritten : texts rowKey = none := by
      rw [indexes.lengths] at present
      cases held : texts rowKey with
      | none => rfl
      | some text => rw [held] at present; exact absurd rfl present
    have same : (fun other => if other = rowKey then none else texts other) = texts := by
      funext other
      split_ifs with here
      · rw [here, unwritten]
      · rfl
    rw [same]
    exact indexes

theorem Indexes.insert (indexes : Indexes unicode texts index) (rowKey : Bytes) (text : String) :
    Indexes unicode (fun other => if other = rowKey then some text else texts other)
      (index.insert unicode rowKey text) := by
  have cleared := indexes.remove rowKey
  refine ⟨fun other => ?_, fun token other => ?_⟩
  · simp only [FtsIndex.insert]
    rw [OrdMap.get?_insert, cleared.lengths]
    split_ifs <;> rfl
  · simp only [FtsIndex.insert]
    rw [count_foldl_bump, cleared.counts, cleared.counts, if_pos rfl]
    by_cases row : other = rowKey
    · by_cases member : token ∈ tokenize unicode text
      · simp [row, member]
      · simp [row, member]
    · simp [row]

theorem currentText_append_single (calls : List Call) (call : Call) :
    currentText (calls ++ [call]) =
      fun other => if other = call.write.1 then call.write.2 else currentText calls other := by
  funext other
  unfold currentText
  rw [List.map_append, List.map_singleton, lastWrite_append_single]
  simp only [eq_comm]

theorem run_append_single (calls : List Call) (call : Call) :
    create.run unicode (calls ++ [call]) = (create.run unicode calls).step unicode call :=
  List.foldl_concat _ _ _ _

theorem indexes_run (calls : List Call) :
    Indexes unicode (currentText calls) (create.run unicode calls) := by
  induction calls using List.reverseRecOn with
  | nil => exact ⟨fun _ => rfl, fun _ _ => rfl⟩
  | append_singleton calls call ih =>
      rw [currentText_append_single, run_append_single]
      cases call with
      | insert rowKey text => exact ih.insert rowKey text
      | remove rowKey => exact ih.remove rowKey

theorem Indexes.count_isSome (indexes : Indexes unicode texts index) (token : String)
    (rowKey : Bytes) :
    (count index.postings token rowKey).isSome ↔
      ∃ text, texts rowKey = some text ∧ token ∈ tokenize unicode text := by
  rw [indexes.counts]
  cases texts rowKey with
  | none => simp
  | some text => simp

theorem searchAnd_of_tokens {query first : String} {rest : List String}
    (tokens : tokenize unicode query = first :: rest) :
    (index.searchAnd unicode query).Nodup ∧ ∀ rowKey,
      rowKey ∈ index.searchAnd unicode query ↔
        ∀ token ∈ first :: rest, (count index.postings token rowKey).isSome := by
  have narrowed : ∀ (others : List String) (rows : List Bytes), rows.Nodup →
      (others.foldl (fun rows token => rows.filter fun rowKey =>
        (index.postings.get? token).any fun bucket => (bucket.get? rowKey).isSome) rows).Nodup ∧
      ∀ rowKey, rowKey ∈ others.foldl (fun rows token => rows.filter fun rowKey =>
        (index.postings.get? token).any fun bucket => (bucket.get? rowKey).isSome) rows ↔
          rowKey ∈ rows ∧ ∀ token ∈ others, (count index.postings token rowKey).isSome := by
    intro others
    induction others with
    | nil => intro rows nodup; simp [nodup]
    | cons token others ih =>
        intro rows nodup
        obtain ⟨kept, members⟩ := ih _ (nodup.filter _)
        refine ⟨kept, fun rowKey => ?_⟩
        rw [List.foldl_cons, members, List.mem_filter, List.forall_mem_cons, and_assoc]
        refine and_congr_right fun _ => and_congr_left fun _ => ?_
        unfold count
        cases index.postings.get? token <;> simp
  unfold searchAnd
  rw [tokens]
  dsimp only
  cases held : index.postings.get? first with
  | none =>
      obtain ⟨nodup, members⟩ := narrowed rest [] List.nodup_nil
      refine ⟨nodup, fun rowKey => ?_⟩
      rw [members, List.forall_mem_cons]
      simp [count, held]
  | some bucket =>
      have keys : (bucket.toList.map Prod.fst).Nodup :=
        List.pairwise_map.mpr (bucket.sorted.imp fun less => ne_of_lt less)
      obtain ⟨nodup, members⟩ := narrowed rest _ keys
      refine ⟨nodup, fun rowKey => ?_⟩
      rw [members, List.forall_mem_cons]
      refine and_congr_left fun _ => ?_
      rw [count, held, Option.bind_some, Option.isSome_iff_exists]
      simp only [OrdMap.get?_eq_some, List.mem_map, Prod.exists, exists_and_right,
        exists_eq_right]

variable (unicode)

/-- After any calls a query with a token finds exactly the rows whose current text has
every token of it, and the statistics are those of the current texts. -/
theorem fts_index_exact (calls : List Call) :
    (∀ query, ((create.run unicode calls).searchAnd unicode query).Nodup ∧
      ∀ rowKey, rowKey ∈ (create.run unicode calls).searchAnd unicode query ↔
        tokenize unicode query ≠ [] ∧ ∃ text, currentText calls rowKey = some text ∧
          ∀ token ∈ tokenize unicode query, token ∈ tokenize unicode text) ∧
    Indexes unicode (currentText calls) (create.run unicode calls) := by
  have indexes : Indexes unicode (currentText calls) (create.run unicode calls) :=
    indexes_run calls
  refine ⟨fun query => ?_, indexes⟩
  cases tokens : tokenize unicode query with
  | nil =>
      unfold searchAnd
      rw [tokens]
      simp
  | cons first rest =>
      obtain ⟨nodup, members⟩ := @searchAnd_of_tokens unicode (create.run unicode calls) _ _ _
        tokens
      refine ⟨nodup, fun rowKey => ?_⟩
      rw [members]
      simp only [indexes.count_isSome]
      constructor
      · intro all
        obtain ⟨text, current, _⟩ := all first List.mem_cons_self
        refine ⟨List.cons_ne_nil _ _, text, current, fun token member => ?_⟩
        obtain ⟨other, same, inside⟩ := all token member
        rw [current] at same
        exact Option.some.inj same ▸ inside
      · rintro ⟨_, text, current, inside⟩ token member
        exact ⟨text, current, inside token member⟩

/-- Letters and digits of the first 128 characters. -/
def ascii : Unicode where
  isAlphanumeric := Char.isAlphanum
  toLowercase text := String.ofList (text.toList.map Char.toLower)

theorem empty_query_misses_row :
    ¬∀ (calls : List Call) (query : String) (rowKey : Bytes),
      rowKey ∈ (create.run ascii calls).searchAnd ascii query ↔
        ∃ text, currentText calls rowKey = some text ∧
          ∀ token ∈ tokenize ascii query, token ∈ tokenize ascii text := by
  intro exact_
  have found := (exact_ [.insert [1] "fox"] "" [1]).mpr
    ⟨"fox", rfl, fun token member => absurd member (List.not_mem_nil)⟩
  cases found

end FtsIndex

end Pantheon.Keystone
