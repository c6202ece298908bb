import Mathlib
import Pantheon.Lib.Bytes
import Pantheon.Lib.Utf8
import Pantheon.Wire.Codec

/-!
# Requests of the Rust SDK: `keystone/wire.rs` against `wire/codec.rs`

The SDK writes the messages that the server's codec reads.  A stream of requests is read back
request by request, however the connection cuts it up.
-/

set_option autoImplicit false

namespace Pantheon.Wire

open Pantheon.Lib

/-! ## What both ends write with -/

def putInt (width : Nat) (value : Int) : Bytes :=
  beBytes width (value % 2 ^ (8 * width)).toNat

def putCstr (text : String) : Bytes := utf8Bytes text ++ [0]

def IsInt (width : Nat) (value : Int) : Prop :=
  -2 ^ (8 * width - 1) ≤ value ∧ value < 2 ^ (8 * width - 1)

def NulFree (text : String) : Prop := 0 ∉ utf8Bytes text

namespace Sdk

/-- `as i32` -/
def asI32 (n : Nat) : Int := signed 4 (n % 2 ^ 32)

/-- `as i16` -/
def asI16 (n : Nat) : Int := signed 2 (n % 2 ^ 16)

def writeMsg (tag : UInt8) (body : Bytes) : Bytes :=
  tag :: (putInt 4 (4 + asI32 body.length) ++ body)

def writeQuery (sql : String) : Bytes := writeMsg 0x51 (putCstr sql)

def writeParse (name sql : String) (paramTypes : List Int) : Bytes :=
  writeMsg 0x50 (putCstr name ++ putCstr sql ++ putInt 2 (asI16 paramTypes.length) ++
    paramTypes.flatMap (putInt 4))

def putParam : Option Bytes → Bytes
  | none => putInt 4 (-1)
  | some data => putInt 4 (asI32 data.length) ++ data

def writeBind (portal stmt : String) (params : List (Option Bytes)) : Bytes :=
  writeMsg 0x42 (putCstr portal ++ putCstr stmt ++ putInt 2 1 ++ putInt 2 0 ++
    putInt 2 (asI16 params.length) ++ params.flatMap putParam ++ putInt 2 1 ++ putInt 2 0)

def writeDescribePortal (name : String) : Bytes := writeMsg 0x44 (0x50 :: putCstr name)

def writeExecute (portal : String) (maxRows : Int) : Bytes :=
  writeMsg 0x45 (putCstr portal ++ putInt 4 maxRows)

def writeSync : Bytes := writeMsg 0x53 []

def writeTerminate : Bytes := writeMsg 0x58 []

def writeCopyData (data : Bytes) : Bytes := writeMsg 0x64 data

def writeCopyDone : Bytes := writeMsg 0x63 []

def writeCopyFail (msg : String) : Bytes := writeMsg 0x66 (putCstr msg)

/-- A call of one of the writers above. -/
inductive Request where
  | query (sql : String)
  | parse (name sql : String) (paramTypes : List Int)
  | bind (portal stmt : String) (params : List (Option Bytes))
  | describePortal (name : String)
  | execute (portal : String) (maxRows : Int)
  | sync
  | terminate
  | copyData (data : Bytes)
  | copyDone
  | copyFail (msg : String)
deriving DecidableEq

def Request.bytes : Request → Bytes
  | .query sql => writeQuery sql
  | .parse name sql paramTypes => writeParse name sql paramTypes
  | .bind portal stmt params => writeBind portal stmt params
  | .describePortal name => writeDescribePortal name
  | .execute portal maxRows => writeExecute portal maxRows
  | .sync => writeSync
  | .terminate => writeTerminate
  | .copyData data => writeCopyData data
  | .copyDone => writeCopyDone
  | .copyFail msg => writeCopyFail msg

def Request.meant : Request → Codec.FrontendMessage
  | .query sql => .query sql
  | .parse name sql paramTypes => .parse name sql paramTypes
  | .bind portal stmt params => .bind portal stmt params [0] [0]
  | .describePortal name => .describe 0x50 name
  | .execute portal maxRows => .execute portal maxRows
  | .sync => .sync
  | .terminate => .terminate
  | .copyData data => .copyData data
  | .copyDone => .copyDone
  | .copyFail msg => .copyFail msg

def Request.Clean : Request → Prop
  | .query sql => NulFree sql
  | .parse name sql paramTypes =>
      NulFree name ∧ NulFree sql ∧ paramTypes.length < 2 ^ 15 ∧ ∀ ty ∈ paramTypes, IsInt 4 ty
  | .bind portal stmt params => NulFree portal ∧ NulFree stmt ∧ params.length < 2 ^ 15 ∧
      ∀ data, some data ∈ params → data.length < 2 ^ 31
  | .describePortal name => NulFree name
  | .execute portal maxRows => NulFree portal ∧ IsInt 4 maxRows
  | .copyFail msg => NulFree msg
  | _ => True

def Request.Fits (request : Request) : Prop :=
  request.Clean ∧ request.bytes.length ≤ 2 ^ 31

/-- The startup message has no tag. -/
def writeStartup (params : List (String × String)) : Bytes :=
  let body := putInt 4 196608 ++
    (params.flatMap fun (k, v) => putCstr k ++ putCstr v) ++ [0]
  putInt 4 (4 + asI32 body.length) ++ body

end Sdk

namespace Codec

/-! ## `read_startup` -/

def readParams : Nat → Bytes → List (String × String)
  | 0, _ => []
  | fuel + 1, data =>
      if data = [] then []
      else
        let (key, data) := readCstr data
        if key = "" then []
        else
          let (value, data) := readCstr data
          (key, value) :: readParams fuel data

/-- `declined` counts the requests for TLS that were answered with an `N`. -/
inductive Startup where
  | waiting
  | failed (error : String)
  | params (protocolVersion : Int) (params : List (String × String)) (declined : Nat) (next : Conn)
  | panic

def readStartupFrom : Nat → Nat → Conn → Startup
  | 0, _, _ => .waiting
  | fuel + 1, declined, conn =>
      match fill 4 conn.readBuf conn.stream with
      | .waiting => .waiting
      | .closed => .failed "connection closed by client"
      | .ready conn =>
          let totalLen := asUsize (signed 4 (ofBe (conn.readBuf.take 4)))
          if totalLen < 8 ∨ 65535 < totalLen then
            .failed s!"invalid startup message length: {totalLen}"
          else
            match fill totalLen conn.readBuf conn.stream with
            | .waiting => .waiting
            | .closed => .failed "connection closed by client"
            | .ready conn =>
                match getInt 4 ((conn.readBuf.take totalLen).drop 4) with
                | none => .panic
                | some (protocolVersion, data) =>
                    let next := { conn with readBuf := conn.readBuf.drop totalLen }
                    if protocolVersion = 80877103 then readStartupFrom fuel (declined + 1) next
                    else if protocolVersion = 80877102 then
                      .failed "cancel request not supported"
                    else .params protocolVersion (readParams data.length data) declined next

def readStartup (conn : Conn) : Startup := readStartupFrom (conn.unread.length + 1) 0 conn

end Codec

/-! ## Reading back what was put -/

theorem putInt_length (width : Nat) (value : Int) : (putInt width value).length = width :=
  beBytes_length _ _

theorem signed_putInt {width : Nat} (word : width = 2 ∨ width = 4) {value : Int}
    (fits : IsInt width value) : signed width (ofBe (putInt width value)) = value := by
  have small : (value % 2 ^ (8 * width)).toNat < 256 ^ width := by
    rcases word with rfl | rfl <;> norm_num <;> omega
  rw [putInt, ofBe_beBytes_of_lt _ _ small]
  unfold IsInt at fits
  unfold signed
  rcases word with rfl | rfl <;> norm_num at fits ⊢ <;> split_ifs <;> omega

namespace Sdk

theorem asI32_eq {n : Nat} (small : n < 2 ^ 31) : asI32 n = n := by
  rw [asI32, Nat.mod_eq_of_lt (by omega), signed, if_pos (by omega)]

theorem asI16_eq {n : Nat} (small : n < 2 ^ 15) : asI16 n = n := by
  rw [asI16, Nat.mod_eq_of_lt (by omega), signed, if_pos (by omega)]

end Sdk

namespace Codec

variable (rest : Bytes)

theorem readCstr_putCstr {text : String} (clean : NulFree text) :
    readCstr (putCstr text ++ rest) = (text, rest) := by
  have none : (utf8Bytes text).findIdx (· = 0) = (utf8Bytes text).length := by
    refine List.findIdx_eq_length_of_false fun byte member => ?_
    simp only [decide_eq_false_iff_not]
    rintro rfl
    exact clean member
  have front : (putCstr text ++ rest).findIdx (· = 0) = (utf8Bytes text).length := by
    rw [putCstr, List.append_assoc, List.findIdx_append, none, if_neg (Nat.lt_irrefl _)]
    simp [List.findIdx_cons]
  have taken : (putCstr text ++ rest).take (utf8Bytes text).length = utf8Bytes text := by
    rw [putCstr, List.append_assoc, List.take_left']
    rfl
  have dropped : (putCstr text ++ rest).drop
      (min ((utf8Bytes text).length + 1) (putCstr text ++ rest).length) = rest := by
    rw [Nat.min_eq_left (by simp [putCstr]), List.drop_left']
    simp [putCstr]
  unfold readCstr
  rw [front]
  dsimp only
  rw [taken, dropped, fromUtf8Lossy_utf8Bytes]

theorem getInt_putInt {width : Nat} (word : width = 2 ∨ width = 4) {value : Int}
    (fits : IsInt width value) :
    getInt width (putInt width value ++ rest) = some (value, rest) := by
  rw [getInt_eq _ (by rw [List.length_append, putInt_length]; omega),
    List.take_left' (putInt_length _ _), List.drop_left' (putInt_length _ _),
    signed_putInt word fits]

theorem getFormat_putInt {value : Int} (fits : IsInt 2 value) :
    getFormat (putInt 2 value ++ rest) = some (value, rest) := by
  rw [getFormat, if_pos (by rw [List.length_append, putInt_length]; omega),
    getInt_putInt rest (Or.inl rfl) fits]

theorem readTimes_puts {Value Read : Type} {read : Bytes → Option (Read × Bytes)}
    {put : Value → Bytes} {meant : Value → Read} (values : List Value)
    (each : ∀ value ∈ values, ∀ rest, read (put value ++ rest) = some (meant value, rest)) :
    readTimes read values.length (values.flatMap put ++ rest) = some (values.map meant, rest) := by
  induction values with
  | nil => rfl
  | cons value values ih =>
      rw [List.length_cons, readTimes, List.flatMap_cons, List.append_assoc,
        each value List.mem_cons_self, Option.bind_eq_bind, Option.bind_some]
      dsimp only
      rw [ih fun other member => each other (List.mem_cons_of_mem _ member)]
      rfl

theorem counted_puts {Value : Type} {size : Nat} (proper : 2 ≤ size) (small : size ≤ 24)
    {read : Bytes → Option (Value × Bytes)} {put : Value → Bytes} {values : List Value}
    (few : values.length < 2 ^ 15)
    (each : ∀ value ∈ values, ∀ rest, read (put value ++ rest) = some (value, rest)) :
    counted size read (putInt 2 (Sdk.asI16 values.length) ++ (values.flatMap put ++ rest)) =
      some (values, rest) := by
  have exact := Sdk.asI16_eq few
  have count : IsInt 2 (values.length : Int) := by
    unfold IsInt
    omega
  have format := getFormat_putInt (values.flatMap put ++ rest) count
  rw [getFormat_eq] at format
  obtain ⟨counts, skips⟩ := Prod.mk.inj (Option.some.inj format)
  rw [exact, counted_reads _ proper small read (by rw [counts]; omega), counts, skips,
    Int.toNat_natCast, @readTimes_puts rest _ _ _ _ id values each, List.map_id]

theorem counted_textFormat :
    counted 2 getFormat (putInt 2 1 ++ (putInt 2 0 ++ rest)) = some ([0], rest) := by
  have one : [(0 : Int)].length < 2 ^ 15 := by decide
  have format := counted_puts rest (le_refl 2) (by decide) one fun value member rest =>
    getFormat_putInt rest (by rw [List.mem_singleton.mp member]; unfold IsInt; omega)
  simpa [Sdk.asI16, signed] using format

theorem getParam_putParam {param : Option Bytes}
    (fits : ∀ data, param = some data → data.length < 2 ^ 31) :
    getParam (Sdk.putParam param ++ rest) = some (param, rest) := by
  have long (value : Int) (more : Bytes) : 4 ≤ (putInt 4 value ++ more).length := by
    rw [List.length_append, putInt_length]
    omega
  cases param with
  | none =>
      rw [getParam, Sdk.putParam, if_pos (long _ _),
        getInt_putInt _ (Or.inr rfl) (by unfold IsInt; omega)]
      rfl
  | some data =>
      have small := fits data rfl
      rw [getParam, Sdk.putParam, Sdk.asI32_eq small, List.append_assoc, if_pos (long _ _),
        getInt_putInt _ (Or.inr rfl) (by unfold IsInt; omega), Option.bind_eq_bind,
        Option.bind_some]
      dsimp only
      rw [if_neg (by omega), asUsize_of_nonneg (by omega) (by omega), Int.toNat_natCast,
        Nat.min_eq_left (by simp), List.take_left, List.drop_left]

end Codec

namespace Sdk

open Codec

theorem Request.framed {request : Request} (clean : request.Clean) : ∃ tag body,
    request.bytes = writeMsg tag body ∧ messageOf tag body = some request.meant := by
  cases request with
  | query sql =>
      refine ⟨_, _, rfl, ?_⟩
      have read := readCstr_putCstr [] clean
      rw [List.append_nil] at read
      simp only [messageOf, if_pos, read, meant]
  | parse name sql paramTypes =>
      obtain ⟨nameClean, sqlClean, few, types⟩ := clean
      refine ⟨_, _, rfl, ?_⟩
      have counts := counted_puts [] (by decide : 2 ≤ 4) (by decide) few
        fun ty member rest => getInt_putInt rest (Or.inr rfl) (types ty member)
      rw [List.append_nil] at counts
      change parseBody _ = _
      rw [parseBody, List.append_assoc, List.append_assoc, readCstr_putCstr _ nameClean]
      dsimp only
      rw [readCstr_putCstr _ sqlClean]
      dsimp only
      rw [counts]
      rfl
  | bind portal stmt params =>
      obtain ⟨portalClean, stmtClean, few, small⟩ := clean
      refine ⟨_, _, rfl, ?_⟩
      have values := counted_puts (putInt 2 1 ++ putInt 2 0) (by decide : 2 ≤ 24) (by decide) few
        fun param member rest => getParam_putParam rest
          fun data exact => small data (exact ▸ member)
      have last := counted_textFormat []
      rw [List.append_nil] at last
      change bindBody _ = _
      simp only [bindBody, List.append_assoc]
      rw [readCstr_putCstr _ portalClean]
      dsimp only
      rw [readCstr_putCstr _ stmtClean]
      dsimp only
      rw [counted_textFormat, Option.bind_eq_bind, Option.bind_some]
      dsimp only
      rw [values, Option.bind_eq_bind, Option.bind_some]
      dsimp only
      rw [last]
      rfl
  | describePortal name =>
      refine ⟨_, _, rfl, ?_⟩
      have read := readCstr_putCstr [] clean
      rw [List.append_nil] at read
      change some (FrontendMessage.describe _ (readCstr (putCstr name)).1) = _
      rw [read]
      rfl
  | execute portal maxRows =>
      obtain ⟨portalClean, fits⟩ := clean
      refine ⟨_, _, rfl, ?_⟩
      have read := getInt_putInt [] (Or.inr rfl) fits
      rw [List.append_nil] at read
      change executeBody _ = _
      rw [executeBody, readCstr_putCstr _ portalClean]
      dsimp only
      rw [if_pos (by rw [putInt_length]), read]
      rfl
  | sync => exact ⟨_, _, rfl, rfl⟩
  | terminate => exact ⟨_, _, rfl, rfl⟩
  | copyData data => exact ⟨_, _, rfl, rfl⟩
  | copyDone => exact ⟨_, _, rfl, rfl⟩
  | copyFail msg =>
      refine ⟨_, _, rfl, ?_⟩
      have read := readCstr_putCstr [] clean
      rw [List.append_nil] at read
      change some (FrontendMessage.copyFail (readCstr (putCstr msg)).1) = _
      rw [read]
      rfl

end Sdk

/-! ## A connection that stays open -/

namespace Codec

theorem arrived_eq_unread {conn : Conn} (open_ : [] ∉ conn.stream) :
    conn.arrived = conn.unread := by
  unfold Conn.arrived Conn.unread
  rw [List.takeWhile_eq_self_iff.mpr]
  intro chunk member
  simp only [decide_eq_true_eq]
  rintro rfl
  exact open_ member

theorem fill_open {n : Nat} {filled : Conn} (stream : List Bytes) (open_ : [] ∉ stream) :
    ∀ readBuf, fill n readBuf stream = .ready filled → [] ∉ filled.stream := by
  induction stream with
  | nil =>
      intro readBuf ready
      rw [fill] at ready
      split_ifs at ready
      cases ready
      exact open_
  | cons chunk rest ih =>
      intro readBuf ready
      rw [fill] at ready
      split_ifs at ready
      · cases ready
        exact open_
      · exact ih (fun member => open_ (List.mem_cons_of_mem _ member)) _ ready

theorem fill_ready {conn : Conn} (open_ : [] ∉ conn.stream) {n : Nat}
    (enough : n ≤ conn.unread.length) : ∃ filled, fill n conn.readBuf conn.stream = .ready filled ∧
      n ≤ filled.readBuf.length ∧ filled.unread = conn.unread ∧ [] ∉ filled.stream := by
  rcases fill_spec n conn.stream conn.readBuf with ⟨filled, ready, full, _, unread, _⟩ | ⟨_, short⟩
  · exact ⟨filled, ready, full, unread, fill_open conn.stream open_ _ ready⟩
  · exact absurd enough (Nat.not_le.mpr (arrived_eq_unread open_ ▸ short))

end Codec

namespace Sdk

open Codec

variable {conn : Conn} {tag : UInt8} {body rest : Bytes}

theorem writeMsg_length (tag : UInt8) (body : Bytes) :
    (writeMsg tag body).length = 1 + (4 + body.length) := by
  rw [writeMsg, List.length_cons, List.length_append, putInt_length]
  omega

theorem lengthField_writeMsg (small : 4 + body.length < 2 ^ 31) :
    lengthField (writeMsg tag body ++ rest) = (4 + body.length : Nat) := by
  have exact := asI32_eq (n := body.length) (by omega)
  rw [lengthField, writeMsg, List.cons_append, List.drop_one, List.tail_cons, List.append_assoc,
    List.take_left' (putInt_length _ _), signed_putInt (Or.inr rfl), exact]
  · push_cast
    rfl
  · rw [exact]
    unfold IsInt
    omega

theorem fill_frame (open_ : [] ∉ conn.stream) (small : 4 + body.length < 2 ^ 31)
    (sent : conn.unread = writeMsg tag body ++ rest) : ∃ first second,
      fill 5 conn.readBuf conn.stream = .ready first ∧ 5 ≤ first.readBuf.length ∧
        first.readBuf.getD 0 0 = tag ∧ asUsize (lengthField first.readBuf) = 4 + body.length ∧
      fill (1 + (4 + body.length)) first.readBuf first.stream = .ready second ∧
        1 + (4 + body.length) ≤ second.readBuf.length ∧
        (second.readBuf.take (1 + (4 + body.length))).drop 5 = body ∧
        second.readBuf.drop (1 + (4 + body.length)) ++ second.stream.flatten = rest ∧
        [] ∉ second.stream := by
  have long : (writeMsg tag body ++ rest).length = 1 + (4 + body.length) + rest.length := by
    rw [List.length_append, writeMsg_length]
  obtain ⟨first, firstReady, firstFull, firstUnread, firstOpen⟩ :=
    fill_ready open_ (n := 5) (by rw [sent, long]; omega)
  obtain ⟨second, secondReady, secondFull, secondUnread, secondOpen⟩ :=
    fill_ready firstOpen (n := 1 + (4 + body.length)) (by rw [firstUnread, sent, long]; omega)
  rw [firstUnread, sent] at secondUnread
  rw [sent] at firstUnread
  have header := (take_readBuf first firstFull).2
  rw [firstUnread] at header
  obtain ⟨field, tagged⟩ := header_of_take header
  rw [lengthField_writeMsg small] at field
  have frame := (take_readBuf second secondFull).2
  rw [secondUnread, List.take_left' (writeMsg_length tag body)] at frame
  refine ⟨first, second, firstReady, firstFull, ?_, ?_, secondReady, secondFull, ?_, ?_, secondOpen⟩
  · rw [List.getD_eq_getElem?_getD, ← tagged, writeMsg]
    rfl
  · rw [← field, asUsize_of_nonneg (by omega) (by omega), Int.toNat_natCast]
  · rw [← frame, writeMsg, List.drop_succ_cons, List.drop_left' (putInt_length _ _)]
  · have behind : (writeMsg tag body ++ rest).drop (1 + (4 + body.length)) = rest :=
      List.drop_left' (writeMsg_length tag body)
    rw [← secondUnread, Conn.unread, List.drop_append_of_le_length secondFull] at behind
    exact behind

theorem readMessage_writeMsg (open_ : [] ∉ conn.stream) (small : 4 + body.length < 2 ^ 31)
    (sent : conn.unread = writeMsg tag body ++ rest) {message : FrontendMessage}
    (taken : messageOf tag body = some message) : ∃ next,
      readMessage conn = .message message next ∧ next.unread = rest ∧ [] ∉ next.stream := by
  obtain ⟨first, second, firstReady, firstFull, tagged, length, secondReady, secondFull, inside,
    behind, secondOpen⟩ := fill_frame open_ small sent
  rw [readMessage_header firstReady firstFull, tagged, length]
  dsimp only
  rw [if_neg (by omega), if_neg (by omega), secondReady]
  dsimp only
  rw [takeMessage_eq _ secondFull (by omega), inside, taken]
  exact ⟨_, rfl, behind, secondOpen⟩

/-! ## A session -/

/-- A request for TLS, as any client may send before the startup message. -/
def sslRequest : Bytes := putInt 4 8 ++ putInt 4 80877103

theorem readParams_puts {params : List (String × String)} : ∀ {fuel : Nat},
    params.length < fuel → (∀ param ∈ params, NulFree param.1 ∧ param.1 ≠ "" ∧ NulFree param.2) →
    readParams fuel ((params.flatMap fun (k, v) => putCstr k ++ putCstr v) ++ [0]) = params := by
  induction params with
  | nil =>
      intro fuel enough _
      obtain ⟨fuel, rfl⟩ := Nat.exists_eq_succ_of_ne_zero (Nat.ne_of_gt (Nat.zero_lt_of_lt enough))
      rw [List.flatMap_nil, List.nil_append, readParams, if_neg (by simp)]
      exact if_pos (by decide)
  | cons param params ih =>
      intro fuel enough clean
      obtain ⟨fuel, rfl⟩ := Nat.exists_eq_succ_of_ne_zero (Nat.ne_of_gt (Nat.zero_lt_of_lt enough))
      obtain ⟨keyClean, key, valueClean⟩ := clean param List.mem_cons_self
      rw [List.flatMap_cons, readParams, if_neg (by simp [putCstr]), List.append_assoc,
        List.append_assoc, readCstr_putCstr _ keyClean]
      dsimp only
      rw [if_neg key, readCstr_putCstr _ valueClean]
      dsimp only
      rw [ih (by rw [List.length_cons] at enough; omega)
        fun other member => clean other (List.mem_cons_of_mem _ member)]

theorem readStartupFrom_frame {version : Int} (word : IsInt 4 version)
    (open_ : [] ∉ conn.stream) (small : 8 + body.length ≤ 65535) (fuel declined : Nat)
    (sent : conn.unread =
      putInt 4 (8 + body.length : Nat) ++ (putInt 4 version ++ (body ++ rest))) :
    ∃ next, next.unread = rest ∧ [] ∉ next.stream ∧
      readStartupFrom (fuel + 1) declined conn =
        if version = 80877103 then readStartupFrom fuel (declined + 1) next
        else if version = 80877102 then .failed "cancel request not supported"
        else .params version (readParams body.length body) declined next := by
  have long : conn.unread.length = 8 + body.length + rest.length := by
    rw [sent]
    simp only [List.length_append, putInt_length]
    omega
  obtain ⟨first, firstReady, firstFull, firstUnread, firstOpen⟩ :=
    fill_ready open_ (n := 4) (by omega)
  obtain ⟨second, secondReady, secondFull, secondUnread, secondOpen⟩ :=
    fill_ready firstOpen (n := 8 + body.length) (by rw [firstUnread]; omega)
  have header := (take_readBuf first firstFull).2
  rw [firstUnread, sent, List.take_left' (putInt_length _ _)] at header
  have frame := (take_readBuf second secondFull).2
  have behind : second.readBuf.drop (8 + body.length) ++ second.stream.flatten =
      second.unread.drop (8 + body.length) := (List.drop_append_of_le_length secondFull).symm
  have split : conn.unread =
      (putInt 4 (8 + body.length : Nat) ++ (putInt 4 version ++ body)) ++ rest := by
    rw [sent]
    simp only [List.append_assoc]
  have whole : (putInt 4 (8 + body.length : Nat) ++ (putInt 4 version ++ body)).length =
      8 + body.length := by
    simp only [List.length_append, putInt_length]
    omega
  rw [secondUnread, firstUnread, split, List.take_left' whole] at frame
  rw [secondUnread, firstUnread, split, List.drop_left' whole] at behind
  refine ⟨{ second with readBuf := second.readBuf.drop (8 + body.length) }, behind, secondOpen, ?_⟩
  have total : asUsize (signed 4 (ofBe (first.readBuf.take 4))) = 8 + body.length := by
    rw [← header, signed_putInt (Or.inr rfl) (by unfold IsInt; omega),
      asUsize_of_nonneg (by omega) (by omega), Int.toNat_natCast]
  rw [readStartupFrom, firstReady]
  dsimp only
  rw [total, if_neg (by omega), secondReady]
  dsimp only
  rw [← frame, List.drop_left' (putInt_length _ _), getInt_putInt _ (Or.inr rfl) word]

theorem length_le_flatMap_putCstr (params : List (String × String)) :
    params.length ≤ (params.flatMap fun (k, v) => putCstr k ++ putCstr v).length := by
  induction params with
  | nil => exact Nat.zero_le _
  | cons param params ih =>
      rw [List.flatMap_cons, List.length_append, List.length_cons]
      simp only [putCstr, List.length_append, List.length_singleton]
      simp only [putCstr] at ih
      omega

theorem readStartupFrom_writeStartup {params : List (String × String)}
    (clean : ∀ param ∈ params, NulFree param.1 ∧ param.1 ≠ "" ∧ NulFree param.2)
    (small : (writeStartup params).length ≤ 65535) (requests : Nat) :
    ∀ {conn : Conn} {fuel declined : Nat}, requests < fuel → [] ∉ conn.stream →
      conn.unread = (List.replicate requests sslRequest).flatten ++ (writeStartup params ++ rest) →
      ∃ next, readStartupFrom fuel declined conn =
          .params 196608 params (declined + requests) next ∧
        next.unread = rest ∧ [] ∉ next.stream := by
  induction requests with
  | zero =>
      intro conn fuel declined enough open_ sent
      obtain ⟨fuel, rfl⟩ := Nat.exists_eq_succ_of_ne_zero (Nat.ne_of_gt enough)
      have many := length_le_flatMap_putCstr params
      unfold writeStartup at small sent
      dsimp only at small sent
      generalize listed : (params.flatMap fun (k, v) => putCstr k ++ putCstr v) = keys at *
      simp only [List.length_append, putInt_length, List.length_singleton] at small sent
      have exact : 4 + asI32 (4 + keys.length + 1) = (8 + (keys ++ [0]).length : Nat) := by
        rw [asI32_eq (by omega), List.length_append, List.length_singleton]
        omega
      rw [exact, List.replicate_zero, List.flatten_nil, List.nil_append, List.append_assoc,
        List.append_assoc, List.append_assoc, ← List.append_assoc keys] at sent
      obtain ⟨next, unread, nextOpen, read⟩ := readStartupFrom_frame (by unfold IsInt; omega) open_
        (by rw [List.length_append, List.length_singleton]; omega) fuel declined sent
      refine ⟨next, ?_, unread, nextOpen⟩
      rw [read, if_neg (by decide), if_neg (by decide), ← listed,
        readParams_puts (by rw [List.length_append, List.length_singleton, listed]; omega) clean]
      rfl
  | succ requests ih =>
      intro conn fuel declined enough open_ sent
      obtain ⟨fuel, rfl⟩ := Nat.exists_eq_succ_of_ne_zero (Nat.ne_of_gt (Nat.zero_lt_of_lt enough))
      rw [List.replicate_succ, List.flatten_cons, List.append_assoc, sslRequest,
        List.append_assoc] at sent
      have word : IsInt 4 80877103 := by
        unfold IsInt
        omega
      have short : 8 + ([] : Bytes).length ≤ 65535 := by decide
      obtain ⟨next, unread, nextOpen, read⟩ :=
        readStartupFrom_frame word open_ short fuel declined sent
      obtain ⟨last, others, lastUnread, lastOpen⟩ :=
        ih (show requests < fuel by omega) nextOpen unread
      refine ⟨last, ?_, lastUnread, lastOpen⟩
      rw [read, if_pos rfl, others]
      congr 1
      omega

/-- That many calls of `read_message`. -/
def readMessages : Nat → Conn → Option (List FrontendMessage × Conn)
  | 0, conn => some ([], conn)
  | n + 1, conn =>
      match readMessage conn with
      | .message message next =>
          (readMessages n next).map fun (messages, last) => (message :: messages, last)
      | _ => none

/-- What the SDK writes, the server reads: every request of a stream in its order, and no byte
behind them, however the connection cuts the stream up. -/
theorem requests_read_back (requests : List Request) : ∀ {conn : Conn},
    (∀ request ∈ requests, request.Fits) → [] ∉ conn.stream →
    conn.unread = requests.flatMap Request.bytes ++ rest → ∃ next,
      readMessages requests.length conn = some (requests.map Request.meant, next) ∧
        next.unread = rest ∧ [] ∉ next.stream := by
  induction requests with
  | nil => exact fun _ open_ sent => ⟨_, rfl, sent, open_⟩
  | cons request requests ih =>
      intro conn fits open_ sent
      obtain ⟨clean, small⟩ := fits request List.mem_cons_self
      obtain ⟨tag, body, framed, taken⟩ := Request.framed clean
      rw [framed, writeMsg_length] at small
      rw [List.flatMap_cons, List.append_assoc, framed] at sent
      obtain ⟨next, read, unread, nextOpen⟩ := readMessage_writeMsg open_ (by omega) sent taken
      obtain ⟨last, others, lastUnread, lastOpen⟩ :=
        ih (fun other member => fits other (List.mem_cons_of_mem _ member)) nextOpen unread
      refine ⟨last, ?_, lastUnread, lastOpen⟩
      rw [List.length_cons, readMessages, read]
      dsimp only
      rw [others]
      rfl

/-- A whole session: whatever requests for TLS come first, the server reads the SDK's parameters
and then its requests. -/
theorem session_read_back {params : List (String × String)} {requests : List Request} {tls : Nat}
    {stream : List Bytes}
    (clean : ∀ param ∈ params, NulFree param.1 ∧ param.1 ≠ "" ∧ NulFree param.2)
    (small : (writeStartup params).length ≤ 65535) (fits : ∀ request ∈ requests, request.Fits)
    (open_ : [] ∉ stream)
    (sent : stream.flatten = (List.replicate tls sslRequest).flatten ++ (writeStartup params ++
      (requests.flatMap Request.bytes ++ rest))) :
    ∃ started next, readStartup ⟨[], stream⟩ = .params 196608 params tls started ∧
      readMessages requests.length started = some (requests.map Request.meant, next) ∧
        next.unread = rest := by
  have enough : tls < stream.flatten.length + 1 := by
    have eight : ((List.replicate tls sslRequest).flatten).length = 8 * tls := by
      rw [List.length_flatten, List.map_replicate, List.sum_replicate, mul_comm]
      rfl
    rw [sent, List.length_append, eight]
    omega
  obtain ⟨started, read, unread, startedOpen⟩ :=
    readStartupFrom_writeStartup clean small tls enough
      (show [] ∉ (Conn.mk [] stream).stream from open_) sent
  obtain ⟨next, messages, nextUnread, _⟩ := requests_read_back requests fits startedOpen unread
  rw [Nat.zero_add] at read
  exact ⟨started, next, read, messages, nextUnread⟩

/-- One query, delivered byte by byte behind a request for TLS. -/
theorem session_read_back_bytewise :
    ∃ started next, readStartup ⟨[], (sslRequest ++ (writeStartup [("user", "a")] ++
        writeQuery "q")).map ([·])⟩ = .params 196608 [("user", "a")] 1 started ∧
      readMessages 1 started = some ([.query "q"], next) ∧ next.unread = [] := by
  have user : utf8Bytes "user" = [117, 115, 101, 114] := by decide +kernel
  have a : utf8Bytes "a" = [97] := by decide +kernel
  have q : utf8Bytes "q" = [113] := by decide +kernel
  refine @session_read_back [] [("user", "a")] [.query "q"] 1 _ ?_ ?_ ?_ ?_ ?_
  · intro param member
    rw [List.mem_singleton.mp member]
    simp [NulFree, user, a]
  · simp [writeStartup, putCstr, putInt, user, a]
  · intro request member
    rw [List.mem_singleton.mp member]
    refine ⟨?_, ?_⟩
    · simp [Request.Clean, NulFree, q]
    · simp [Request.bytes, writeQuery, writeMsg, putCstr, putInt, q]
  · simp
  · rw [← List.flatMap_def]
    simp [Request.bytes]

end Sdk

end Pantheon.Wire
