import Mathlib
import Pantheon.Lib.Bytes
import Pantheon.Lib.Utf8

/-!
# Reading frontend messages: `wire/codec.rs`

A frame is a tag, a length that counts itself, and a body that every kind of message takes
apart in its own way.  The counts in a body are signed and are used as sizes unchecked, and
one loop of reads has no guard: `Overruns` says which frames the reader does not survive.
-/

set_option autoImplicit false

namespace Pantheon.Wire.Codec

open Pantheon.Lib

/-! ## The connection -/

/-- The bytes received so far, and what the following reads of the socket will give; an empty
one stands for the end of the stream. -/
structure Conn where
  readBuf : Bytes
  stream : List Bytes

inductive Filled where
  | ready (conn : Conn)
  | waiting
  | closed

def fill (n : Nat) (readBuf : Bytes) (stream : List Bytes) : Filled :=
  if n ≤ readBuf.length then .ready ⟨readBuf, stream⟩
  else
    match stream with
    | [] => .waiting
    | chunk :: rest => if chunk = [] then .closed else fill n (readBuf ++ chunk) rest

/-- `as usize` on a 64-bit target. -/
def asUsize (value : Int) : Nat := (value % 2 ^ 64).toNat

/-! ## Bodies: no result stands for a panic -/

def readCstr (buf : Bytes) : String × Bytes :=
  let last := buf.findIdx (· = 0)
  (fromUtf8Lossy (buf.take last), buf.drop (min (last + 1) buf.length))

def getInt (width : Nat) (data : Bytes) : Option (Int × Bytes) :=
  (splitExact width data).map fun (word, rest) => (signed width (ofBe word), rest)

/-- A vector may take up to `isize::MAX` bytes. -/
def withCapacity (size n : Nat) : Option Unit := if n * size < 2 ^ 63 then some () else none

def readTimes {Value : Type} (read : Bytes → Option (Value × Bytes)) :
    Nat → Bytes → Option (List Value × Bytes)
  | 0, data => some ([], data)
  | n + 1, data => do
      let (value, data) ← read data
      let (values, data) ← readTimes read n data
      some (value :: values, data)

inductive FrontendMessage where
  | query (query : String)
  | parse (name query : String) (paramTypes : List Int)
  | bind (portal stmt : String) (params : List (Option Bytes))
      (paramFormats resultFormats : List Int)
  | describe (kind : UInt8) (name : String)
  | execute (portal : String) (maxRows : Int)
  | close (kind : UInt8) (name : String)
  | sync
  | flush
  | terminate
  | copyData (data : Bytes)
  | copyDone
  | copyFail (message : String)
  | passwordData (data : Bytes)
deriving DecidableEq

def getFormat (data : Bytes) : Option (Int × Bytes) :=
  if 2 ≤ data.length then getInt 2 data else some (0, data)

def getCount (data : Bytes) : Option (Nat × Bytes) :=
  (getFormat data).map fun (value, data) => (asUsize value, data)

def getParam (data : Bytes) : Option (Option Bytes × Bytes) := do
  let (len, data) ← if 4 ≤ data.length then getInt 4 data else some (-1, data)
  if len < 0 then some (none, data)
  else
    let take := min (asUsize len) data.length
    some (some (data.take take), data.drop take)

/-- A count, a vector with room for as many values of `size` bytes, and the reads that fill it. -/
def counted {Value : Type} (size : Nat) (read : Bytes → Option (Value × Bytes)) (data : Bytes) :
    Option (List Value × Bytes) := do
  let (n, data) ← getCount data
  withCapacity size n
  readTimes read n data

def parseBody (data : Bytes) : Option FrontendMessage := do
  let (name, data) := readCstr data
  let (query, data) := readCstr data
  let (paramTypes, _) ← counted 4 (getInt 4) data
  some (.parse name query paramTypes)

def bindBody (data : Bytes) : Option FrontendMessage := do
  let (portal, data) := readCstr data
  let (stmt, data) := readCstr data
  let (paramFormats, data) ← counted 2 getFormat data
  let (params, data) ← counted 24 getParam data
  let (resultFormats, _) ← counted 2 getFormat data
  some (.bind portal stmt params paramFormats resultFormats)

/-- The kind byte of `Describe` and `Close`, with its default. -/
def getKind : Bytes → UInt8 × Bytes
  | [] => (0x53, [])
  | kind :: data => (kind, data)

def executeBody (data : Bytes) : Option FrontendMessage := do
  let (portal, data) := readCstr data
  let (maxRows, _) ← if 4 ≤ data.length then getInt 4 data else some (0, data)
  some (.execute portal maxRows)

def messageOf (tag : UInt8) (data : Bytes) : Option FrontendMessage :=
  if tag = 0x51 then some (.query (readCstr data).1)
  else if tag = 0x50 then parseBody data
  else if tag = 0x42 then bindBody data
  else if tag = 0x44 then some (.describe (getKind data).1 (readCstr (getKind data).2).1)
  else if tag = 0x45 then executeBody data
  else if tag = 0x43 then some (.close (getKind data).1 (readCstr (getKind data).2).1)
  else if tag = 0x53 then some .sync
  else if tag = 0x48 then some .flush
  else if tag = 0x58 then some .terminate
  else if tag = 0x64 then some (.copyData data)
  else if tag = 0x63 then some .copyDone
  else if tag = 0x66 then some (.copyFail (readCstr data).1)
  else if tag = 0x70 then some (.passwordData data)
  else some .sync

/-! ## `read_message` -/

inductive Outcome where
  | waiting
  | failed (error : String)
  | message (message : FrontendMessage) (next : Conn)
  | panic

def takeMessage (tag : UInt8) (total : Nat) (conn : Conn) : Outcome :=
  match splitExact total conn.readBuf with
  | none => .panic
  | some (frame, rest) =>
      match splitExact 5 frame with
      | none => .panic
      | some (_, data) =>
          match messageOf tag data with
          | none => .panic
          | some message => .message message { conn with readBuf := rest }

/-- Without overflow checks the sum `1 + len` is zero and `advance` panics instead. -/
def readMessage (conn : Conn) : Outcome :=
  match fill 5 conn.readBuf conn.stream with
  | .waiting => .waiting
  | .closed => .failed "connection closed by client"
  | .ready conn =>
      match conn.readBuf[0]?, splitExact 4 (conn.readBuf.drop 1) with
      | some tag, some (word, _) =>
          let len := asUsize (signed 4 (ofBe word))
          if len < 4 then .failed s!"invalid message length {len} for tag {tag}"
          else if 2 ^ 64 ≤ 1 + len then .panic
          else
            match fill (1 + len) conn.readBuf conn.stream with
            | .waiting => .waiting
            | .closed => .failed "connection closed by client"
            | .ready conn => takeMessage tag (1 + len) conn
      | _, _ => .panic

/-! ## Frames the reader does not survive -/

def Conn.arrived (conn : Conn) : Bytes :=
  conn.readBuf ++ (conn.stream.takeWhile (· ≠ [])).flatten

def Conn.unread (conn : Conn) : Bytes := conn.readBuf ++ conn.stream.flatten

def lengthField (bytes : Bytes) : Int := signed 4 (ofBe ((bytes.drop 1).take 4))

def frameLength (bytes : Bytes) : Nat := 1 + asUsize (lengthField bytes)

def countAt (data : Bytes) : Int := if 2 ≤ data.length then signed 2 (ofBe (data.take 2)) else 0

def skipWord (data : Bytes) : Bytes := if 2 ≤ data.length then data.drop 2 else data

def skipStrings (body : Bytes) : Bytes := (readCstr (readCstr body).2).2

def skipFormats (data : Bytes) : Bytes := skipWord^[(countAt data).toNat] (skipWord data)

def skipParam (data : Bytes) : Bytes :=
  if 4 ≤ data.length then (data.drop 4).drop (signed 4 (ofBe (data.take 4))).toNat else data

def skipParams (data : Bytes) : Bytes := skipParam^[(countAt data).toNat] (skipWord data)

/-- A count of a body is negative, or says that more parameter types follow than there are. -/
def BadCount (tag : UInt8) (body : Bytes) : Prop :=
  let data := skipStrings body
  tag = 0x50 ∧ (countAt data < 0 ∨ ((skipWord data).length : Int) < 4 * countAt data) ∨
    tag = 0x42 ∧ (countAt data < 0 ∨ countAt (skipFormats data) < 0 ∨
      countAt (skipParams (skipFormats data)) < 0)

/-- The length field is minus one, or the frame is complete and has a bad count. -/
def Overruns (arrived : Bytes) : Prop :=
  5 ≤ arrived.length ∧ (lengthField arrived = -1 ∨
    4 ≤ asUsize (lengthField arrived) ∧ frameLength arrived ≤ arrived.length ∧
      BadCount (arrived.getD 0 0) ((arrived.take (frameLength arrived)).drop 5))

/-! ## Reads of a body -/

section Reads

variable (data : Bytes)

theorem getInt_eq {width : Nat} (enough : width ≤ data.length) :
    getInt width data = some (signed width (ofBe (data.take width)), data.drop width) := by
  rw [getInt, splitExact, if_neg (Nat.not_lt.mpr enough)]
  rfl

theorem getFormat_eq : getFormat data = some (countAt data, skipWord data) := by
  unfold getFormat countAt skipWord
  split_ifs with enough
  · exact getInt_eq data enough
  · rfl

theorem getCount_eq : getCount data = some (asUsize (countAt data), skipWord data) := by
  rw [getCount, getFormat_eq]
  rfl

theorem countAt_range : -2 ^ 15 ≤ countAt data ∧ countAt data < 2 ^ 15 := by
  unfold countAt
  split_ifs with enough
  · have word := ofBe_lt (data.take 2)
    rw [List.length_take, Nat.min_eq_left enough] at word
    unfold signed
    split_ifs with positive
    · omega
    · omega
  · omega

theorem withCapacity_count {size : Nat} (some_ : 2 ≤ size) (small : size ≤ 24) :
    withCapacity size (asUsize (countAt data)) =
      if countAt data < 0 then none else some () := by
  obtain ⟨low, high⟩ := countAt_range data
  unfold withCapacity
  split_ifs with fits negative
  · have huge : 2 ^ 62 ≤ asUsize (countAt data) := by
      unfold asUsize
      omega
    nlinarith
  · rfl
  · rfl
  · have little : asUsize (countAt data) < 2 ^ 15 := by
      unfold asUsize
      omega
    nlinarith

theorem asUsize_of_nonneg {value : Int} (positive : 0 ≤ value) (small : value < 2 ^ 64) :
    asUsize value = value.toNat := by
  unfold asUsize
  omega

theorem asUsize_count (positive : 0 ≤ countAt data) :
    asUsize (countAt data) = (countAt data).toNat := by
  obtain ⟨_, high⟩ := countAt_range data
  exact asUsize_of_nonneg positive (by omega)

theorem getParam_eq : ∃ value, getParam data = some (value, skipParam data) := by
  unfold getParam skipParam
  split_ifs with enough
  · rw [getInt_eq data enough, Option.bind_eq_bind, Option.bind_some]
    dsimp only
    split_ifs with absent
    · rw [Int.toNat_of_nonpos absent.le, List.drop_zero]
      exact ⟨none, rfl⟩
    · have word := ofBe_lt (data.take 4)
      rw [List.length_take, Nat.min_eq_left enough] at word
      have small : signed 4 (ofBe (data.take 4)) < 2 ^ 31 := by
        unfold signed
        split_ifs with positive
        · omega
        · omega
      rw [asUsize_of_nonneg (Int.not_lt.mp absent) (by omega)]
      refine ⟨some _, congrArg some (Prod.ext rfl ?_)⟩
      rcases Nat.le_total (signed 4 (ofBe (data.take 4))).toNat (data.drop 4).length with
        inside | outside
      · rw [Nat.min_eq_left inside]
      · rw [Nat.min_eq_right outside, List.drop_length, List.drop_eq_nil_of_le outside]
  · exact ⟨none, rfl⟩

theorem readTimes_total {Value : Type} {read : Bytes → Option (Value × Bytes)}
    {skip : Bytes → Bytes} (total : ∀ data, ∃ value, read data = some (value, skip data))
    (n : Nat) : ∀ data, ∃ values, readTimes read n data = some (values, skip^[n] data) := by
  induction n with
  | zero => intro data; exact ⟨[], rfl⟩
  | succ n ih =>
      intro data
      obtain ⟨value, first⟩ := total data
      obtain ⟨values, others⟩ := ih (skip data)
      refine ⟨value :: values, ?_⟩
      rw [readTimes, first, Option.bind_eq_bind, Option.bind_some]
      dsimp only
      rw [others]
      rfl

theorem readTimes_getInt_none (n : Nat) : ∀ data : Bytes,
    readTimes (getInt 4) n data = none ↔ data.length < 4 * n := by
  induction n with
  | zero => intro data; simp [readTimes]
  | succ n ih =>
      intro data
      rw [readTimes]
      by_cases enough : 4 ≤ data.length
      · have rest := ih (data.drop 4)
        rw [List.length_drop] at rest
        rw [getInt_eq data enough, Option.bind_eq_bind, Option.bind_some]
        dsimp only
        cases read : readTimes (getInt 4) n (data.drop 4) with
        | none =>
            have short := rest.mp read
            refine iff_of_true rfl (by omega)
        | some pair =>
            refine iff_of_false (fun absent => by cases absent) fun short => ?_
            rw [rest.mpr (by omega)] at read
            cases read
      · have absent : getInt 4 data = none := by
          rw [getInt, splitExact, if_pos (Nat.not_le.mp enough)]
          rfl
        rw [absent]
        refine iff_of_true rfl (by omega)

theorem counted_negative {Value : Type} {size : Nat} (proper : 2 ≤ size) (small : size ≤ 24)
    (read : Bytes → Option (Value × Bytes)) (negative : countAt data < 0) :
    counted size read data = none := by
  rw [counted, getCount_eq, Option.bind_eq_bind, Option.bind_some]
  dsimp only
  rw [withCapacity_count data proper small, if_pos negative]
  rfl

theorem counted_reads {Value : Type} {size : Nat} (proper : 2 ≤ size) (small : size ≤ 24)
    (read : Bytes → Option (Value × Bytes)) (positive : 0 ≤ countAt data) :
    counted size read data = readTimes read (countAt data).toNat (skipWord data) := by
  rw [counted, getCount_eq, Option.bind_eq_bind, Option.bind_some]
  dsimp only
  rw [withCapacity_count data proper small, if_neg (Int.not_lt.mpr positive),
    asUsize_count data positive]
  rfl

theorem parseBody_none_iff : parseBody data = none ↔
    countAt (skipStrings data) < 0 ∨
      ((skipWord (skipStrings data)).length : Int) < 4 * countAt (skipStrings data) := by
  have read : parseBody data = none ↔ counted 4 (getInt 4) (skipStrings data) = none := by
    change Option.bind (counted 4 (getInt 4) (skipStrings data)) _ = none ↔ _
    cases counted 4 (getInt 4) (skipStrings data) with
    | none => exact iff_of_true rfl rfl
    | some pair => exact iff_of_false (by nofun) (by nofun)
  rw [read]
  by_cases negative : countAt (skipStrings data) < 0
  · exact iff_of_true (counted_negative _ (by decide) (by decide) _ negative) (Or.inl negative)
  · rw [counted_reads _ (by decide) (by decide) _ (Int.not_lt.mp negative),
      readTimes_getInt_none, or_iff_right negative]
    omega

theorem bindBody_none_iff : bindBody data = none ↔
    countAt (skipStrings data) < 0 ∨ countAt (skipFormats (skipStrings data)) < 0 ∨
      countAt (skipParams (skipFormats (skipStrings data))) < 0 := by
  have format (data : Bytes) : ∃ value, getFormat data = some (value, skipWord data) :=
    ⟨_, getFormat_eq data⟩
  have formats (data : Bytes) (positive : ¬countAt data < 0) :
      ∃ values, counted 2 getFormat data = some (values, skipFormats data) := by
    rw [counted_reads data (by decide) (by decide) _ (Int.not_lt.mp positive)]
    exact readTimes_total format _ _
  have params (data : Bytes) (positive : ¬countAt data < 0) :
      ∃ values, counted 24 getParam data = some (values, skipParams data) := by
    rw [counted_reads data (by decide) (by decide) _ (Int.not_lt.mp positive)]
    exact readTimes_total getParam_eq _ _
  change Option.bind (counted 2 getFormat (skipStrings data)) _ = none ↔ _
  by_cases first : countAt (skipStrings data) < 0
  · rw [counted_negative _ (by decide) (by decide) _ first]
    exact iff_of_true rfl (Or.inl first)
  · obtain ⟨paramFormats, read⟩ := formats _ first
    rw [read, Option.bind_some, or_iff_right first]
    generalize skipFormats (skipStrings data) = data
    change Option.bind (counted 24 getParam data) _ = none ↔ _
    by_cases second : countAt data < 0
    · rw [counted_negative _ (by decide) (by decide) _ second]
      exact iff_of_true rfl (Or.inl second)
    · obtain ⟨values, read⟩ := params _ second
      rw [read, Option.bind_some, or_iff_right second]
      generalize skipParams data = data
      change Option.bind (counted 2 getFormat data) _ = none ↔ _
      by_cases third : countAt data < 0
      · rw [counted_negative _ (by decide) (by decide) _ third]
        exact iff_of_true rfl third
      · obtain ⟨resultFormats, read⟩ := formats _ third
        rw [read, Option.bind_some]
        exact iff_of_false (by nofun) third

end Reads

/-! ## Frames -/

theorem messageOf_other {tag : UInt8} (parse : tag ≠ 0x50) (bind : tag ≠ 0x42) (body : Bytes) :
    messageOf tag body ≠ none := by
  have executed : executeBody body ≠ none := by
    unfold executeBody
    dsimp only
    split_ifs with enough
    · rw [getInt_eq _ enough]
      exact (by nofun)
    · exact (by nofun)
  rw [messageOf, if_neg parse, if_neg bind]
  repeat' split
  all_goals first | exact executed | exact (by nofun)

theorem messageOf_none_iff (tag : UInt8) (body : Bytes) :
    messageOf tag body = none ↔ BadCount tag body := by
  unfold BadCount
  dsimp only
  by_cases parse : tag = 0x50
  · have other : ¬tag = 0x42 := by
      rw [parse]
      decide
    rw [and_iff_right parse, or_iff_left fun both => other both.1, parse]
    exact parseBody_none_iff body
  · by_cases bind : tag = 0x42
    · rw [and_iff_right bind, or_iff_right fun both => parse both.1, bind]
      exact bindBody_none_iff body
    · refine iff_of_false (messageOf_other parse bind body) ?_
      rintro (⟨same, _⟩ | ⟨same, _⟩)
      · exact parse same
      · exact bind same

/-- What filling the buffer leads to: enough bytes, in their order, or too few before the stream
ends or has no more for now. -/
theorem fill_spec (n : Nat) (stream : List Bytes) : ∀ readBuf : Bytes,
    (∃ conn, fill n readBuf stream = .ready conn ∧ n ≤ conn.readBuf.length ∧
      conn.arrived = Conn.arrived ⟨readBuf, stream⟩ ∧
      conn.unread = Conn.unread ⟨readBuf, stream⟩ ∧ n ≤ (Conn.arrived ⟨readBuf, stream⟩).length) ∨
    ((fill n readBuf stream = .waiting ∨ fill n readBuf stream = .closed) ∧
      (Conn.arrived ⟨readBuf, stream⟩).length < n) := by
  induction stream with
  | nil =>
      intro readBuf
      rw [fill]
      split_ifs with enough
      · refine Or.inl ⟨_, rfl, enough, rfl, rfl, ?_⟩
        simpa [Conn.arrived] using enough
      · refine Or.inr ⟨Or.inl rfl, ?_⟩
        simpa [Conn.arrived] using enough
  | cons chunk rest ih =>
      intro readBuf
      rw [fill]
      split_ifs with enough closed
      · refine Or.inl ⟨_, rfl, enough, rfl, rfl, ?_⟩
        unfold Conn.arrived
        rw [List.length_append]
        exact Nat.le_add_right_of_le enough
      · refine Or.inr ⟨Or.inr rfl, ?_⟩
        simpa [Conn.arrived, closed] using enough
      · have arrived : Conn.arrived ⟨readBuf ++ chunk, rest⟩ =
            Conn.arrived ⟨readBuf, chunk :: rest⟩ := by
          simp [Conn.arrived, closed]
        have unread : Conn.unread ⟨readBuf ++ chunk, rest⟩ =
            Conn.unread ⟨readBuf, chunk :: rest⟩ := by
          simp [Conn.unread]
        rw [← arrived, ← unread]
        exact ih (readBuf ++ chunk)

theorem take_readBuf (conn : Conn) {n : Nat} (enough : n ≤ conn.readBuf.length) :
    conn.arrived.take n = conn.readBuf.take n ∧ conn.unread.take n = conn.readBuf.take n :=
  ⟨List.take_append_of_le_length enough, List.take_append_of_le_length enough⟩

theorem takeMessage_eq (tag : UInt8) {total : Nat} {conn : Conn}
    (whole : total ≤ conn.readBuf.length) (header : 5 ≤ total) :
    takeMessage tag total conn =
      match messageOf tag ((conn.readBuf.take total).drop 5) with
      | none => .panic
      | some message => .message message { conn with readBuf := conn.readBuf.drop total } := by
  rw [takeMessage, splitExact, if_neg (Nat.not_lt.mpr whole)]
  dsimp only
  rw [splitExact, if_neg (by rw [List.length_take, Nat.min_eq_left whole]; omega)]

theorem header_of_take {one other : Bytes} (same : one.take 5 = other.take 5) :
    lengthField one = lengthField other ∧ one[0]? = other[0]? := by
  have word (bytes : Bytes) : (bytes.drop 1).take 4 = (bytes.take 5).drop 1 := by
    rw [List.drop_take]
  have tag (bytes : Bytes) : bytes[0]? = (bytes.take 5)[0]? := by
    rw [List.getElem?_take_of_lt (by decide)]
  rw [lengthField, lengthField, word, word, tag, tag other, same]
  exact ⟨rfl, rfl⟩

theorem lengthField_range {bytes : Bytes} (enough : 5 ≤ bytes.length) :
    -2 ^ 31 ≤ lengthField bytes ∧ lengthField bytes < 2 ^ 31 := by
  have word := ofBe_lt ((bytes.drop 1).take 4)
  rw [List.length_take, List.length_drop, Nat.min_eq_left (by omega)] at word
  unfold lengthField signed
  split_ifs with positive
  · omega
  · omega

theorem readMessage_header {conn first : Conn}
    (filled : fill 5 conn.readBuf conn.stream = .ready first) (enough : 5 ≤ first.readBuf.length) :
    readMessage conn =
      let tag := first.readBuf.getD 0 0
      let len := asUsize (lengthField first.readBuf)
      if len < 4 then .failed s!"invalid message length {len} for tag {tag}"
      else if 2 ^ 64 ≤ 1 + len then .panic
      else
        match fill (1 + len) first.readBuf first.stream with
        | .waiting => .waiting
        | .closed => .failed "connection closed by client"
        | .ready conn => takeMessage tag (1 + len) conn := by
  have tag : first.readBuf[0]? = some (first.readBuf.getD 0 0) := by
    rw [List.getElem?_eq_getElem (by omega), List.getD_eq_getElem _ _ (by omega)]
  have word : splitExact 4 (first.readBuf.drop 1) =
      some ((first.readBuf.drop 1).take 4, (first.readBuf.drop 1).drop 4) := by
    rw [splitExact, if_neg (by rw [List.length_drop]; omega)]
  unfold readMessage
  rw [filled]
  dsimp only
  rw [tag, word]
  rfl

theorem readMessage_spec (conn : Conn) :
    (readMessage conn = .panic ↔ Overruns conn.arrived) ∧
      ∀ message next, readMessage conn = .message message next →
        next.unread = conn.unread.drop (frameLength conn.unread) := by
  rcases fill_spec 5 conn.stream conn.readBuf with
    ⟨first, filled, enough, arrived, unread, five⟩ | ⟨stopped, short⟩
  · obtain ⟨headArrived, headUnread⟩ := take_readBuf first enough
    rw [arrived] at headArrived
    rw [unread] at headUnread
    obtain ⟨fieldArrived, tagArrived⟩ := header_of_take headArrived
    have field : lengthField conn.unread = lengthField first.readBuf :=
      (header_of_take headUnread).1
    have tag : conn.arrived.getD 0 0 = first.readBuf.getD 0 0 := by
      rw [List.getD_eq_getElem?_getD, tagArrived, ← List.getD_eq_getElem?_getD]
    obtain ⟨low, high⟩ := lengthField_range enough
    rw [readMessage_header filled enough]
    unfold Overruns frameLength
    rw [field, fieldArrived, tag]
    dsimp only
    generalize lengthField first.readBuf = size at *
    split_ifs with few huge
    · refine ⟨iff_of_false (by nofun) ?_, by nofun⟩
      rintro ⟨_, rfl | ⟨many, _⟩⟩
      · exact absurd few (by decide)
      · exact Nat.not_le.mpr few many
    · refine ⟨iff_of_true rfl ⟨five, Or.inl ?_⟩, by nofun⟩
      unfold asUsize at huge
      omega
    · have other : size ≠ -1 := by
        rintro rfl
        exact huge (by decide)
      rcases fill_spec (1 + asUsize size) first.stream first.readBuf with
        ⟨second, filled, whole, arrivedAgain, unreadAgain, total⟩ | ⟨stopped, short⟩
      · rw [filled]
        dsimp only
        rw [takeMessage_eq _ whole (by omega)]
        obtain ⟨frameArrived, _⟩ := take_readBuf second whole
        have same : Conn.arrived ⟨first.readBuf, first.stream⟩ = conn.arrived := arrived
        have sameUnread : Conn.unread ⟨first.readBuf, first.stream⟩ = conn.unread := unread
        rw [arrivedAgain, same] at frameArrived
        rw [same] at total
        rw [frameArrived]
        have bad := messageOf_none_iff (first.readBuf.getD 0 0)
          ((second.readBuf.take (1 + asUsize size)).drop 5)
        cases read : messageOf (first.readBuf.getD 0 0)
            ((second.readBuf.take (1 + asUsize size)).drop 5) with
        | none =>
            refine ⟨iff_of_true rfl ⟨five, Or.inr ⟨Nat.not_lt.mp few, total, bad.mp read⟩⟩,
              by nofun⟩
        | some message =>
            refine ⟨iff_of_false (by nofun) ?_, fun _ next returned => ?_⟩
            · rintro ⟨_, minus | ⟨_, _, worse⟩⟩
              · exact other minus
              · rw [bad.mpr worse] at read
                cases read
            · cases returned
              rw [← sameUnread, ← unreadAgain]
              exact (List.drop_append_of_le_length whole).symm
      · have apart : ¬(5 ≤ conn.arrived.length ∧ (size = -1 ∨ 4 ≤ asUsize size ∧
            1 + asUsize size ≤ conn.arrived.length ∧ BadCount (first.readBuf.getD 0 0)
              ((conn.arrived.take (1 + asUsize size)).drop 5))) := by
          rintro ⟨_, minus | ⟨_, total, _⟩⟩
          · exact other minus
          · have same : Conn.arrived ⟨first.readBuf, first.stream⟩ = conn.arrived := arrived
            rw [same] at short
            omega
        rcases stopped with waiting | closed
        · rw [waiting]
          exact ⟨iff_of_false (by nofun) apart, by nofun⟩
        · rw [closed]
          exact ⟨iff_of_false (by nofun) apart, by nofun⟩
  · have apart : ¬Overruns conn.arrived := fun overruns => Nat.not_lt.mpr overruns.1 short
    unfold readMessage
    rcases stopped with waiting | closed
    · rw [waiting]
      exact ⟨iff_of_false (by nofun) apart, by nofun⟩
    · rw [closed]
      exact ⟨iff_of_false (by nofun) apart, by nofun⟩

/-- A client does not make the reader panic, and no byte behind the frame is lost, exactly when
the frame has no length or count that overruns. -/
theorem readMessage_survives_iff (conn : Conn) :
    (readMessage conn ≠ .panic ∧ ∀ message next, readMessage conn = .message message next →
      next.unread = conn.unread.drop (frameLength conn.unread)) ↔ ¬Overruns conn.arrived := by
  obtain ⟨panics, leaves⟩ := readMessage_spec conn
  rw [and_iff_left leaves, ne_eq, panics]

/-- A `Parse` that promises one parameter type and ends. -/
def unfinishedParse : Bytes := [0x50, 0, 0, 0, 8, 0, 0, 0, 1]

/-- A `Bind` with a negative number of parameters. -/
def negativeBind : Bytes := [0x42, 0, 0, 0, 10, 0, 0, 0, 0, 0xFF, 0xFF]

def negativeLength : Bytes := [0x51, 0xFF, 0xFF, 0xFF, 0xFF]

theorem unfinishedParse_panics :
    readMessage ⟨[], [unfinishedParse]⟩ = .panic ∧ readMessage ⟨[], [negativeBind]⟩ = .panic ∧
      readMessage ⟨[], [negativeLength]⟩ = .panic := by
  refine ⟨(readMessage_spec _).1.mpr ⟨by decide, Or.inr ⟨by decide, by decide, ?_⟩⟩,
    (readMessage_spec _).1.mpr ⟨by decide, Or.inr ⟨by decide, by decide, ?_⟩⟩,
    (readMessage_spec _).1.mpr ⟨by decide, Or.inl (by decide)⟩⟩
  · exact Or.inl ⟨by decide, Or.inr (by decide)⟩
  · exact Or.inr ⟨by decide, Or.inr (Or.inl (by decide))⟩

end Pantheon.Wire.Codec
