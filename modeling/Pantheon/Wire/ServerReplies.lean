import Mathlib
import Pantheon.Lib.Bytes
import Pantheon.Lib.Utf8
import Pantheon.Wire.Codec
import Pantheon.Wire.ClientRequests

/-!
# Replies of the server: `wire/messages.rs` against the SDK's `keystone/wire.rs`

The other direction of the connection: what the server encodes, the SDK decodes.  The SDK knows
fewer messages than the server has, and keeps less of those it knows.
-/

set_option autoImplicit false

namespace Pantheon.Wire

open Pantheon.Lib

/-! ## `messages.rs` -/

namespace Messages

inductive TransactionStatus where
  | idle
  | inTransaction
  | failed
deriving DecidableEq

def TransactionStatus.byte : TransactionStatus → UInt8
  | .idle => 0x49
  | .inTransaction => 0x54
  | .failed => 0x45

structure FieldDescription where
  name : String
  tableOid : Int
  colAttr : Int
  typeOid : Int
  typeSize : Int
  typeModifier : Int
  format : Int
deriving DecidableEq

structure ErrorInfo where
  severity : String
  code : String
  message : String
deriving DecidableEq

inductive BackendMessage where
  | authenticationOk
  | authenticationSASL (mechanisms : List String)
  | authenticationSASLContinue (data : Bytes)
  | authenticationSASLFinal (data : Bytes)
  | parameterStatus (name value : String)
  | backendKeyData (pid secret : Int)
  | readyForQuery (status : TransactionStatus)
  | rowDescription (fields : List FieldDescription)
  | dataRow (cols : List (Option Bytes))
  | commandComplete (tag : String)
  | errorResponse (error : ErrorInfo)
  | emptyQueryResponse
  | noticeResponse (msg : String)
  | parseComplete
  | bindComplete
  | closeComplete
  | parameterDescription (types : List Int)
  | noData
  | portalSuspended
  | notificationResponse (pid : Int) (channel payload : String)
  | copyInResponse (columns : Nat)
  | copyOutResponse (columns : Nat)
  | copyData (data : Bytes)
  | copyDone
deriving DecidableEq

def writeMsg (tag : UInt8) (body : Bytes) : Bytes :=
  tag :: (putInt 4 (Sdk.asI32 (4 + body.length)) ++ body)

def putField (field : FieldDescription) : Bytes :=
  putCstr field.name ++ putInt 4 field.tableOid ++ putInt 2 field.colAttr ++
    putInt 4 field.typeOid ++ putInt 2 field.typeSize ++ putInt 4 field.typeModifier ++
    putInt 2 field.format

def putColumn : Option Bytes → Bytes
  | none => putInt 4 (-1)
  | some data => putInt 4 (Sdk.asI32 data.length) ++ data

def putErrorField (code : UInt8) (value : String) : Bytes := code :: putCstr value

def writeCopyResponse (tag : UInt8) (columns : Nat) : Bytes :=
  writeMsg tag (0 :: (putInt 2 (Sdk.asI16 columns) ++
    (List.replicate columns 0).flatMap (putInt 2)))

def encode : BackendMessage → Bytes
  | .authenticationOk => writeMsg 0x52 (putInt 4 0)
  | .authenticationSASL mechanisms =>
      writeMsg 0x52 (putInt 4 10 ++ mechanisms.flatMap putCstr ++ [0])
  | .authenticationSASLContinue data => writeMsg 0x52 (putInt 4 11 ++ data)
  | .authenticationSASLFinal data => writeMsg 0x52 (putInt 4 12 ++ data)
  | .parameterStatus name value => writeMsg 0x53 (putCstr name ++ putCstr value)
  | .backendKeyData pid secret => writeMsg 0x4B (putInt 4 pid ++ putInt 4 secret)
  | .readyForQuery status => writeMsg 0x5A [status.byte]
  | .rowDescription fields =>
      writeMsg 0x54 (putInt 2 (Sdk.asI16 fields.length) ++ fields.flatMap putField)
  | .dataRow cols => writeMsg 0x44 (putInt 2 (Sdk.asI16 cols.length) ++ cols.flatMap putColumn)
  | .commandComplete tag => writeMsg 0x43 (putCstr tag)
  | .errorResponse error =>
      writeMsg 0x45 (putErrorField 0x53 error.severity ++ putErrorField 0x56 error.severity ++
        putErrorField 0x43 error.code ++ putErrorField 0x4D error.message ++ [0])
  | .emptyQueryResponse => writeMsg 0x49 []
  | .noticeResponse msg => writeMsg 0x4E (putErrorField 0x4D msg ++ [0])
  | .parseComplete => writeMsg 0x31 []
  | .bindComplete => writeMsg 0x32 []
  | .closeComplete => writeMsg 0x33 []
  | .parameterDescription types =>
      writeMsg 0x74 (putInt 2 (Sdk.asI16 types.length) ++ types.flatMap (putInt 4))
  | .noData => writeMsg 0x6E []
  | .portalSuspended => writeMsg 0x73 []
  | .notificationResponse pid channel payload =>
      writeMsg 0x41 (putInt 4 pid ++ putCstr channel ++ putCstr payload)
  | .copyInResponse columns => writeCopyResponse 0x47 columns
  | .copyOutResponse columns => writeCopyResponse 0x48 columns
  | .copyData data => writeMsg 0x64 data
  | .copyDone => writeMsg 0x63 []

end Messages

/-! ## The SDK's decoder -/

namespace Sdk

open Codec (Conn Filled fill asUsize readCstr getInt withCapacity readTimes)

structure FieldDescription where
  name : String
  typeOid : Int
deriving DecidableEq

inductive BackendMessage where
  | authenticationOk
  | parameterStatus (name value : String)
  | backendKeyData (pid secret : Int)
  | readyForQuery (status : UInt8)
  | rowDescription (fields : List FieldDescription)
  | dataRow (cols : List (Option Bytes))
  | commandComplete (tag : String)
  | errorResponse (msg : String)
  | noticeResponse (msg : String)
  | parseComplete
  | bindComplete
  | closeComplete
  | parameterDescription (types : List Int)
  | noData
  | portalSuspended
  | emptyQueryResponse
  | copyInResponse (columns : Nat)
  | copyOutResponse (columns : Nat)
  | unknown (tag : UInt8)
deriving DecidableEq

/-- A count, a vector with room for as many values of `size` bytes, and the reads that fill it. -/
def counted {Value : Type} (size : Nat) (read : Bytes → Option (Value × Bytes)) (data : Bytes) :
    Option (List Value) := do
  let (n, data) ← getInt 2 data
  withCapacity size (asUsize n)
  let (values, _) ← readTimes read (asUsize n) data
  some values

def getField (data : Bytes) : Option (FieldDescription × Bytes) := do
  let (name, data) := readCstr data
  let (_, data) ← getInt 4 data
  let (_, data) ← getInt 2 data
  let (typeOid, data) ← getInt 4 data
  let (_, data) ← getInt 2 data
  let (_, data) ← getInt 4 data
  let (_, data) ← getInt 2 data
  some (⟨name, typeOid⟩, data)

def getColumn (data : Bytes) : Option (Option Bytes × Bytes) := do
  let (len, data) ← getInt 4 data
  if len < 0 then some (none, data)
  else
    let take := min (asUsize len) data.length
    some (some (data.take take), data.drop take)

def errorMessage : Nat → Option String → Bytes → Option String
  | 0, message, _ => message
  | _ + 1, message, [] => message
  | fuel + 1, message, code :: data =>
      if code = 0 then message
      else
        let (value, data) := readCstr data
        errorMessage fuel (if code = 0x4D then some value else message) data

def parseErrorFields (data : Bytes) : String :=
  (errorMessage data.length none data).getD "unknown server error"

/-- The format codes of the columns are read and dropped, as far as there are any. -/
def readCopyResponse : Bytes → Option Nat
  | [] => some 0
  | _ :: data =>
      if 2 ≤ data.length then (getInt 2 data).map fun (columns, _) => asUsize columns else some 0

def messageOf (tag : UInt8) (data : Bytes) : Option BackendMessage :=
  if tag = 0x52 then some .authenticationOk
  else if tag = 0x53 then
    some (.parameterStatus (readCstr data).1 (readCstr (readCstr data).2).1)
  else if tag = 0x4B then do
    let (pid, data) ← getInt 4 data
    let (secret, _) ← getInt 4 data
    some (.backendKeyData pid secret)
  else if tag = 0x5A then some (.readyForQuery (data.head?.getD 0x49))
  else if tag = 0x54 then (counted 32 getField data).map .rowDescription
  else if tag = 0x44 then (counted 16 getColumn data).map .dataRow
  else if tag = 0x43 then some (.commandComplete (readCstr data).1)
  else if tag = 0x45 then some (.errorResponse (parseErrorFields data))
  else if tag = 0x4E then some (.noticeResponse (parseErrorFields data))
  else if tag = 0x31 then some .parseComplete
  else if tag = 0x32 then some .bindComplete
  else if tag = 0x33 then some .closeComplete
  else if tag = 0x74 then (counted 4 (getInt 4) data).map .parameterDescription
  else if tag = 0x6E then some .noData
  else if tag = 0x73 then some .portalSuspended
  else if tag = 0x49 then some .emptyQueryResponse
  else if tag = 0x47 then (readCopyResponse data).map .copyInResponse
  else if tag = 0x48 then (readCopyResponse data).map .copyOutResponse
  else some (.unknown tag)

inductive Outcome where
  | waiting
  | failed (error : String)
  | message (message : BackendMessage) (next : Conn)
  | panic

/-- Without overflow checks the sum `1 + len` is zero and the header is not there. -/
def readMessage (conn : Conn) : Outcome :=
  match fill 5 conn.readBuf conn.stream with
  | .waiting => .waiting
  | .closed => .failed "connection closed by server"
  | .ready conn =>
      let tag := conn.readBuf.getD 0 0
      let len := asUsize (signed 4 (ofBe ((conn.readBuf.drop 1).take 4)))
      if len < 4 then
        .failed s!"invalid message length {len} for tag {Char.ofNat tag.toNat}"
      else if 2 ^ 64 ≤ 1 + len then .panic
      else
        match fill (1 + len) conn.readBuf conn.stream with
        | .waiting => .waiting
        | .closed => .failed "connection closed by server"
        | .ready conn =>
            match messageOf tag ((conn.readBuf.take (1 + len)).drop 5) with
            | none => .panic
            | some message => .message message { conn with readBuf := conn.readBuf.drop (1 + len) }

/-! ## What arrives of a reply -/

/-- The SDK takes every authentication request for the last one, drops the severity and the code
of an error, and has no name for notifications and the data of a `COPY`. -/
def received : Messages.BackendMessage → BackendMessage
  | .authenticationOk => .authenticationOk
  | .authenticationSASL _ => .authenticationOk
  | .authenticationSASLContinue _ => .authenticationOk
  | .authenticationSASLFinal _ => .authenticationOk
  | .parameterStatus name value => .parameterStatus name value
  | .backendKeyData pid secret => .backendKeyData pid secret
  | .readyForQuery status => .readyForQuery status.byte
  | .rowDescription fields => .rowDescription (fields.map fun field => ⟨field.name, field.typeOid⟩)
  | .dataRow cols => .dataRow cols
  | .commandComplete tag => .commandComplete tag
  | .errorResponse error => .errorResponse error.message
  | .emptyQueryResponse => .emptyQueryResponse
  | .noticeResponse msg => .noticeResponse msg
  | .parseComplete => .parseComplete
  | .bindComplete => .bindComplete
  | .closeComplete => .closeComplete
  | .parameterDescription types => .parameterDescription types
  | .noData => .noData
  | .portalSuspended => .portalSuspended
  | .notificationResponse _ _ _ => .unknown 0x41
  | .copyInResponse columns => .copyInResponse columns
  | .copyOutResponse columns => .copyOutResponse columns
  | .copyData _ => .unknown 0x64
  | .copyDone => .unknown 0x63

end Sdk

namespace Messages

def FieldDescription.Clean (field : FieldDescription) : Prop :=
  NulFree field.name ∧ IsInt 4 field.typeOid

/-- No text has a NUL and every number that the SDK keeps fits its field. -/
def BackendMessage.Clean : BackendMessage → Prop
  | .parameterStatus name value => NulFree name ∧ NulFree value
  | .backendKeyData pid secret => IsInt 4 pid ∧ IsInt 4 secret
  | .rowDescription fields => fields.length < 2 ^ 15 ∧ ∀ field ∈ fields, field.Clean
  | .dataRow cols =>
      cols.length < 2 ^ 15 ∧ ∀ data, some data ∈ cols → data.length < 2 ^ 31
  | .commandComplete tag => NulFree tag
  | .errorResponse error =>
      NulFree error.severity ∧ NulFree error.code ∧ NulFree error.message
  | .noticeResponse msg => NulFree msg
  | .parameterDescription types => types.length < 2 ^ 15 ∧ ∀ ty ∈ types, IsInt 4 ty
  | .copyInResponse columns => columns < 2 ^ 15
  | .copyOutResponse columns => columns < 2 ^ 15
  | _ => True

def BackendMessage.Fits (message : BackendMessage) : Prop :=
  message.Clean ∧ (encode message).length ≤ 2 ^ 31

end Messages

/-! ## Reading back -/

namespace Sdk

open Codec (Conn fill asUsize readCstr readCstr_putCstr getInt getInt_eq getInt_putInt readTimes
  readTimes_puts withCapacity withCapacity_count asUsize_of_nonneg)

section Bodies

variable (rest : Bytes)

theorem getInt_skips (width : Nat) (value : Int) :
    ∃ read, getInt width (putInt width value ++ rest) = some (read, rest) := by
  rw [getInt_eq _ (by rw [List.length_append, putInt_length]; omega),
    List.drop_left' (putInt_length _ _)]
  exact ⟨_, rfl⟩

theorem getField_putField {field : Messages.FieldDescription} (clean : field.Clean) :
    getField (Messages.putField field ++ rest) = some (⟨field.name, field.typeOid⟩, rest) := by
  obtain ⟨named, typed⟩ := clean
  unfold getField Messages.putField
  simp only [List.append_assoc]
  rw [readCstr_putCstr _ named]
  dsimp only
  obtain ⟨_, table⟩ := getInt_skips (putInt 2 field.colAttr ++ (putInt 4 field.typeOid ++
    (putInt 2 field.typeSize ++ (putInt 4 field.typeModifier ++ (putInt 2 field.format ++ rest)))))
    4 field.tableOid
  obtain ⟨_, attr⟩ := getInt_skips (putInt 4 field.typeOid ++
    (putInt 2 field.typeSize ++ (putInt 4 field.typeModifier ++ (putInt 2 field.format ++ rest))))
    2 field.colAttr
  obtain ⟨_, size⟩ := getInt_skips (putInt 4 field.typeModifier ++ (putInt 2 field.format ++ rest))
    2 field.typeSize
  obtain ⟨_, modifier⟩ := getInt_skips (putInt 2 field.format ++ rest) 4 field.typeModifier
  obtain ⟨_, format⟩ := getInt_skips rest 2 field.format
  simp only [table, attr, getInt_putInt _ (Or.inr rfl) typed, size, modifier, format,
    Option.bind_eq_bind, Option.bind_some]

theorem getColumn_putColumn {column : Option Bytes}
    (fits : ∀ data, column = some data → data.length < 2 ^ 31) :
    getColumn (Messages.putColumn column ++ rest) = some (column, rest) := by
  cases column with
  | none =>
      rw [getColumn, Messages.putColumn, getInt_putInt _ (Or.inr rfl) (by unfold IsInt; omega)]
      rfl
  | some data =>
      have small := fits data rfl
      rw [getColumn, Messages.putColumn, asI32_eq small, List.append_assoc,
        getInt_putInt _ (Or.inr rfl) (by unfold IsInt; omega), Option.bind_eq_bind,
        Option.bind_some]
      dsimp only
      rw [if_neg (by omega), asUsize_of_nonneg (by omega) (by omega), Int.toNat_natCast,
        Nat.min_eq_left (by simp), List.take_left, List.drop_left]

theorem counted_puts {Value Read : Type} {size : Nat} (small : size ≤ 32)
    {read : Bytes → Option (Read × Bytes)} {put : Value → Bytes} {meant : Value → Read}
    {values : List Value} (few : values.length < 2 ^ 15)
    (each : ∀ value ∈ values, ∀ rest, read (put value ++ rest) = some (meant value, rest)) :
    counted size read (putInt 2 (asI16 values.length) ++ values.flatMap put) =
      some (values.map meant) := by
  have fits : IsInt 2 (values.length : Int) := by
    unfold IsInt
    omega
  have capacity : withCapacity size values.length = some () := by
    refine if_pos ?_
    calc values.length * size ≤ 2 ^ 15 * 32 := Nat.mul_le_mul few.le small
      _ < 2 ^ 63 := by norm_num
  have reads := readTimes_puts [] values each
  rw [List.append_nil] at reads
  rw [counted, asI16_eq few, getInt_putInt _ (Or.inl rfl) fits, Option.bind_eq_bind,
    Option.bind_some]
  dsimp only
  rw [asUsize_of_nonneg (by omega) (by omega), Int.toNat_natCast, capacity, reads]
  rfl

theorem errorMessage_putErrorField (fuel : Nat) (message : Option String) {code : UInt8}
    (nonzero : code ≠ 0) {value : String} (clean : NulFree value) :
    errorMessage (fuel + 1) message (Messages.putErrorField code value ++ rest) =
      errorMessage fuel (if code = 0x4D then some value else message) rest := by
  rw [Messages.putErrorField, List.cons_append, errorMessage, if_neg nonzero,
    readCstr_putCstr _ clean]

theorem readCopyResponse_put {columns : Nat} (few : columns < 2 ^ 15) (first : UInt8) :
    readCopyResponse (first :: (putInt 2 (asI16 columns) ++ rest)) = some columns := by
  have fits : IsInt 2 (columns : Int) := by
    unfold IsInt
    omega
  rw [readCopyResponse, if_pos (by rw [List.length_append, putInt_length]; omega), asI16_eq few,
    getInt_putInt _ (Or.inl rfl) fits, Option.map_some]
  dsimp only
  rw [asUsize_of_nonneg (by omega) (by omega), Int.toNat_natCast]

end Bodies

theorem encode_framed {reply : Messages.BackendMessage} (clean : reply.Clean) : ∃ tag body,
    Messages.encode reply = Messages.writeMsg tag body ∧
      messageOf tag body = some (received reply) := by
  have text {value : String} (free : NulFree value) : readCstr (putCstr value) = (value, []) := by
    have read := readCstr_putCstr [] free
    rwa [List.append_nil] at read
  cases reply with
  | authenticationOk => exact ⟨_, _, rfl, rfl⟩
  | authenticationSASL mechanisms => exact ⟨_, _, rfl, rfl⟩
  | authenticationSASLContinue data => exact ⟨_, _, rfl, rfl⟩
  | authenticationSASLFinal data => exact ⟨_, _, rfl, rfl⟩
  | parameterStatus name value =>
      refine ⟨_, _, rfl, ?_⟩
      change some (BackendMessage.parameterStatus (readCstr _).1 (readCstr (readCstr _).2).1) = _
      rw [readCstr_putCstr _ clean.1, text clean.2]
      rfl
  | backendKeyData pid secret =>
      refine ⟨_, _, rfl, ?_⟩
      have read := getInt_putInt [] (Or.inr rfl) clean.2
      rw [List.append_nil] at read
      change (do
        let (pid, data) ← getInt 4 _
        let (secret, _) ← getInt 4 data
        some (BackendMessage.backendKeyData pid secret)) = _
      rw [getInt_putInt _ (Or.inr rfl) clean.1, Option.bind_eq_bind, Option.bind_some]
      dsimp only
      rw [read]
      rfl
  | readyForQuery status => exact ⟨_, _, rfl, rfl⟩
  | rowDescription fields =>
      refine ⟨_, _, rfl, ?_⟩
      have read := counted_puts (le_refl 32) clean.1 fun field member rest =>
        getField_putField rest (clean.2 field member)
      exact congrArg (Option.map BackendMessage.rowDescription) read
  | dataRow cols =>
      refine ⟨_, _, rfl, ?_⟩
      have read := @counted_puts _ _ 16 (by decide) _ _ id _ clean.1 fun column member rest =>
        getColumn_putColumn rest fun data exact => clean.2 data (exact ▸ member)
      rw [List.map_id] at read
      exact congrArg (Option.map BackendMessage.dataRow) read
  | commandComplete tag =>
      refine ⟨_, _, rfl, ?_⟩
      change some (BackendMessage.commandComplete (readCstr _).1) = _
      rw [text clean]
      rfl
  | errorResponse error =>
      refine ⟨_, _, rfl, ?_⟩
      obtain ⟨severe, coded, said⟩ := clean
      change some (BackendMessage.errorResponse (parseErrorFields _)) = _
      rw [parseErrorFields]
      generalize size : List.length _ = fuel
      obtain ⟨fuel, rfl⟩ : ∃ more, fuel = more + 1 + 1 + 1 + 1 + 1 := by
        refine ⟨fuel - 5, ?_⟩
        simp only [Messages.putErrorField, putCstr, List.length_append, List.length_cons] at size
        omega
      simp only [List.append_assoc]
      rw [errorMessage_putErrorField _ _ _ (by decide) severe,
        errorMessage_putErrorField _ _ _ (by decide) severe,
        errorMessage_putErrorField _ _ _ (by decide) coded,
        errorMessage_putErrorField _ _ _ (by decide) said]
      rfl
  | emptyQueryResponse => exact ⟨_, _, rfl, rfl⟩
  | noticeResponse msg =>
      refine ⟨_, _, rfl, ?_⟩
      change some (BackendMessage.noticeResponse (parseErrorFields _)) = _
      rw [parseErrorFields]
      generalize size : List.length _ = fuel
      obtain ⟨fuel, rfl⟩ : ∃ more, fuel = more + 1 + 1 := by
        refine ⟨fuel - 2, ?_⟩
        simp only [Messages.putErrorField, putCstr, List.length_append, List.length_cons] at size
        omega
      rw [errorMessage_putErrorField _ _ _ (by decide) clean]
      rfl
  | parseComplete => exact ⟨_, _, rfl, rfl⟩
  | bindComplete => exact ⟨_, _, rfl, rfl⟩
  | closeComplete => exact ⟨_, _, rfl, rfl⟩
  | parameterDescription types =>
      refine ⟨_, _, rfl, ?_⟩
      have read := @counted_puts _ _ 4 (by decide) _ _ id _ clean.1 fun ty member rest =>
        getInt_putInt rest (Or.inr rfl) (clean.2 ty member)
      rw [List.map_id] at read
      exact congrArg (Option.map BackendMessage.parameterDescription) read
  | noData => exact ⟨_, _, rfl, rfl⟩
  | portalSuspended => exact ⟨_, _, rfl, rfl⟩
  | notificationResponse pid channel payload => exact ⟨_, _, rfl, rfl⟩
  | copyInResponse columns =>
      exact ⟨_, _, rfl,
        congrArg (Option.map BackendMessage.copyInResponse) (readCopyResponse_put _ clean 0)⟩
  | copyOutResponse columns =>
      exact ⟨_, _, rfl,
        congrArg (Option.map BackendMessage.copyOutResponse) (readCopyResponse_put _ clean 0)⟩
  | copyData data => exact ⟨_, _, rfl, rfl⟩
  | copyDone => exact ⟨_, _, rfl, rfl⟩

variable {conn : Conn} {rest : Bytes}

theorem writeMsg_eq (tag : UInt8) {body : Bytes} (small : 4 + body.length < 2 ^ 31) :
    Messages.writeMsg tag body = writeMsg tag body := by
  rw [Messages.writeMsg, writeMsg, asI32_eq small, asI32_eq (by omega)]
  push_cast
  rfl

theorem messagesWriteMsg_length (tag : UInt8) (body : Bytes) :
    (Messages.writeMsg tag body).length = 1 + (4 + body.length) := by
  rw [Messages.writeMsg, List.length_cons, List.length_append, putInt_length]
  omega

/-- That many calls of the SDK's `read_message`. -/
def readReplies : Nat → Conn → Option (List BackendMessage × Conn)
  | 0, conn => some ([], conn)
  | n + 1, conn =>
      match readMessage conn with
      | .message message next =>
          (readReplies n next).map fun (messages, last) => (message :: messages, last)
      | _ => none

theorem readMessage_encode {reply : Messages.BackendMessage} (fits : reply.Fits)
    (open_ : [] ∉ conn.stream) (sent : conn.unread = Messages.encode reply ++ rest) : ∃ next,
      readMessage conn = .message (received reply) next ∧ next.unread = rest ∧
        [] ∉ next.stream := by
  obtain ⟨clean, small⟩ := fits
  obtain ⟨tag, body, framed, taken⟩ := encode_framed clean
  rw [framed, messagesWriteMsg_length] at small
  rw [framed, writeMsg_eq tag (by omega)] at sent
  obtain ⟨first, second, firstReady, _, tagged, length, secondReady, _, inside, behind,
    secondOpen⟩ := fill_frame open_ (by omega) sent
  unfold Codec.lengthField at length
  rw [readMessage, firstReady]
  dsimp only
  rw [tagged, length, if_neg (by omega), if_neg (by omega), secondReady]
  dsimp only
  rw [inside, taken]
  exact ⟨_, rfl, behind, secondOpen⟩

/-- What the server encodes, the SDK decodes: every reply of a stream in its order, and no byte
behind them, however the connection cuts the stream up. -/
theorem replies_read_back (replies : List Messages.BackendMessage) : ∀ {conn : Conn},
    (∀ reply ∈ replies, reply.Fits) → [] ∉ conn.stream →
    conn.unread = replies.flatMap Messages.encode ++ rest → ∃ next,
      readReplies replies.length conn = some (replies.map received, next) ∧
        next.unread = rest ∧ [] ∉ next.stream := by
  induction replies with
  | nil => exact fun _ open_ sent => ⟨_, rfl, sent, open_⟩
  | cons reply replies ih =>
      intro conn fits open_ sent
      rw [List.flatMap_cons, List.append_assoc] at sent
      obtain ⟨next, read, unread, nextOpen⟩ :=
        readMessage_encode (fits reply List.mem_cons_self) open_ sent
      obtain ⟨last, others, lastUnread, lastOpen⟩ :=
        ih (fun other member => fits other (List.mem_cons_of_mem _ member)) nextOpen unread
      refine ⟨last, ?_, lastUnread, lastOpen⟩
      rw [List.length_cons, readReplies, read]
      dsimp only
      rw [others]
      rfl

/-- A row and what follows it, in three pieces. -/
theorem replies_read_back_row : ∃ next,
    readReplies 2 ⟨[], [[68, 0, 0], [0, 11, 0, 1, 0, 0], [0, 1, 55, 90, 0, 0, 0, 5, 73]]⟩ =
      some ([.dataRow [some [55]], .readyForQuery 73], next) ∧
        next.unread = [] ∧ [] ∉ next.stream := by
  refine @replies_read_back [] [.dataRow [some [55]], .readyForQuery .idle] _ ?_ (by decide)
    (by decide)
  intro reply member
  rcases List.mem_pair.mp member with rfl | rfl
  · refine ⟨⟨by decide, fun data inside => ?_⟩, by decide⟩
    rw [Option.some.inj (List.mem_singleton.mp inside)]
    decide
  · exact ⟨trivial, by decide⟩

end Sdk

end Pantheon.Wire
