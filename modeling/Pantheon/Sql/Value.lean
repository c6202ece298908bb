import Mathlib
import Pantheon.Lib.Utf8
import Pantheon.Sql.Ast

/-!
# Values: `executor/eval.rs`

A table is stored as rows of cells, and cells are bytes; a value is what `from_bytes` reads out of one.  `Library` is the
part of the evaluator that stands outside of this model: the arithmetic of `f64`,
Unicode case mapping, JSON, regular expressions and the built-in functions.  The
results hold for every library.
-/

set_option autoImplicit false

namespace Pantheon.Sql

open Pantheon.Lib

inductive ColumnType where
  | int8
  | int4
  | int2
  | float8
  | float4
  | text
  | bool
  | timestamp
  | date
  | json
  | bytea
  | geometry
  | geography
  | vector
  | raster
  | float8Array
deriving DecidableEq

structure ColumnDef where
  name : String
  colType : ColumnType
deriving DecidableEq

structure TableSchema where
  name : String
  columns : List ColumnDef
deriving DecidableEq

inductive Value where
  | int (value : Int)
  | float (value : F64)
  | text (value : String)
  | bool (value : Bool)
  | null
  | floatArray (items : List F64)
  | bytea (bytes : Bytes)
deriving DecidableEq

/-- A stored or computed cell; `none` is NULL. -/
abbrev Cell : Type := Option Bytes

abbrev Row : Type := List Cell

/-- A result column as `RowDescription` announces it. -/
structure FieldDescription where
  name : String
  typeOid : Int
  format : Int
deriving DecidableEq

def FieldDescription.simple (name : String) (typeOid : Int) : FieldDescription :=
  ⟨name, typeOid, 0⟩

structure QueryResult where
  fields : List FieldDescription
  rows : List Row
  tag : String
deriving DecidableEq

def Literal.value : Literal → Value
  | .int value => .int value
  | .float value => .float value
  | .text value => .text value
  | .bool value => .bool value
  | .null => .null
  | .floatArray items => .floatArray items

/-- `ST_DWithin` on a geometry column, with an optional time range. -/
structure SpatialPredicate where
  col : String
  lon : F64
  lat : F64
  radiusM : F64
  timeRange : Option (Int × Int)
deriving DecidableEq

/-- What the executor takes from outside of this model.  A function is given its
arguments as far as they could be evaluated; `spatialPairs` is the accelerated
spatial join, `none` whenever it does not run. -/
structure Library where
  floatOfInt : Int → F64
  floatToInt : F64 → Int
  floatOfSingle : Nat → F64
  floatNeg : F64 → F64
  floatArith : BinOp → F64 → F64 → F64
  floatIsZero : F64 → Bool
  floatCompare : F64 → F64 → Option Ordering
  floatText : F64 → String
  parseFloat : String → Option F64
  floatMax0 : F64 → Nat
  parseIntError : String → String
  parseFloatError : String → String
  lowercase : String → String
  trim : String → String
  jsonOp : BinOp → Value → Value → Except String Value
  regexIsMatch : String → String → Bool → Except String Bool
  function : Bool → String → List (Except String Value) → Except String Value
  spatialPairs : Expr → Option TableSchema → Option TableSchema → List Row → List Row →
    Option (List (Nat × Nat))
  spatialPredicate : Expr → TableSchema → Option SpatialPredicate
  parseInterval : String → Option Int
  decodeJsonb : Bytes → Option Bytes
  debugExpr : Expr → String
  debugValue : Value → String
  debugValues : List Value → String

namespace Value

def typeName : Value → String
  | .int _ => "int8"
  | .float _ => "float8"
  | .text _ => "text"
  | .bool _ => "bool"
  | .null => "null"
  | .floatArray _ => "float8[]"
  | .bytea _ => "bytea"

end Value

/-- The type OIDs of `wire/messages.rs`. -/
def oidInt8 : Int := 20

def oidInt4 : Int := 23

def oidInt2 : Int := 21

def oidFloat8 : Int := 701

def oidFloat4 : Int := 700

def oidText : Int := 25

def oidBool : Int := 16

def oidBytea : Int := 17

def hexDigit (digit : Nat) : Char :=
  if digit < 10 then Char.ofNat (48 + digit) else Char.ofNat (87 + digit)

def hexEncode (bytes : Bytes) : String :=
  String.ofList (bytes.flatMap fun byte =>
    [hexDigit (byte.toNat / 16), hexDigit (byte.toNat % 16)])

/-! ## `i64` -/

def i64Min : Int := -2 ^ 63

def i64Max : Int := 2 ^ 63 - 1

def wrapI64 (value : Int) : Int := (value + 2 ^ 63) % 2 ^ 64 - 2 ^ 63

def checkI64 (value : Int) : Option Int :=
  if i64Min ≤ value ∧ value ≤ i64Max then some value else none

/-- The digits of `str::parse`, most significant first. -/
def parseDigits (digits : List Char) : Option Nat :=
  if digits = [] then none
  else digits.foldl
    (fun number digit => number.bind fun number =>
      if digit.isDigit then some (10 * number + (digit.toNat - 48)) else none)
    (some 0)

/-- `str::parse::<i64>`. -/
def parseI64 (text : String) : Option Int :=
  match text.toList with
  | '-' :: digits => (parseDigits digits).bind fun number => checkI64 (-(number : Int))
  | '+' :: digits => (parseDigits digits).bind fun number => checkI64 number
  | digits => (parseDigits digits).bind fun number => checkI64 number

section

variable (lib : Library)

def floatArrayText (items : List F64) : String :=
  "\x7b" ++ String.intercalate "," (items.map lib.floatText) ++ "\x7d"

namespace Value

def toWireBytes : Value → Cell
  | .null => none
  | .int value => some (utf8Bytes (toString value))
  | .float value => some (utf8Bytes (lib.floatText value))
  | .text value => some (utf8Bytes value)
  | .bool value => some (utf8Bytes (if value then "t" else "f"))
  | .floatArray items => some (utf8Bytes (floatArrayText lib items))
  | .bytea bytes => some (utf8Bytes ("\\x" ++ hexEncode bytes))

def isTruthy : Value → Bool
  | .bool value => value
  | .null => false
  | .int value => value != 0
  | .float value => !lib.floatIsZero value
  | .text value => value != ""
  | .floatArray items => !items.isEmpty
  | .bytea bytes => !bytes.isEmpty

/-- A number if it reads as one, then `t` and `f`, and text otherwise. -/
def fromBytes : Cell → Value
  | none => .null
  | some bytes =>
      match String.fromUTF8? ⟨bytes.toArray⟩ with
      | none => .text (fromUtf8Lossy bytes)
      | some content =>
          match parseI64 content with
          | some value => .int value
          | none =>
              match lib.parseFloat content with
              | some value => .float value
              | none =>
                  if content = "t" then .bool true
                  else if content = "f" then .bool false
                  else .text content

end Value

def valToText : Value → String
  | .int value => toString value
  | .float value => lib.floatText value
  | .text value => value
  | .bool value => toString value
  | .null => ""
  | .floatArray items => floatArrayText lib items
  | .bytea bytes => "\\x" ++ hexEncode bytes

/-- Floats that are not ordered compare as equal. -/
def floatOrdering (left right : F64) : Ordering := (lib.floatCompare left right).getD .eq

def valueCompare : Value → Value → Except String Ordering
  | .null, .null => .ok .eq
  | .null, _ => .error "null comparison"
  | _, .null => .error "null comparison"
  | .int left, .int right => .ok (compare left right)
  | .float left, .float right => .ok (floatOrdering lib left right)
  | .int left, .float right => .ok (floatOrdering lib (lib.floatOfInt left) right)
  | .float left, .int right => .ok (floatOrdering lib left (lib.floatOfInt right))
  | .text left, .text right => .ok (compare left right)
  | .bool left, .bool right => .ok (compare left right)
  | left, right => .error
      ("incompatible types for comparison: " ++ left.typeName ++ " vs " ++ right.typeName)

def comparesAs (passes : Ordering → Bool) (left right : Value) : Bool :=
  match valueCompare lib left right with
  | .ok ordering => passes ordering
  | .error _ => false

def coerceFloat : Value → Except String F64
  | .int value => .ok (lib.floatOfInt value)
  | .float value => .ok value
  | .text value =>
      match lib.parseFloat value with
      | some number => .ok number
      | none => .error "cannot cast text to float"
  | value => .error ("cannot cast " ++ value.typeName ++ " to float")

def checkedI64 (value : Int) : Except String Value :=
  match checkI64 value with
  | some value => .ok (.int value)
  | none => .error "integer overflow"

def evalArithmetic (left right : Value) (op : BinOp) : Except String Value :=
  match left, right with
  | .int left, .int right =>
      match op with
      | .add => checkedI64 (left + right)
      | .sub => checkedI64 (left - right)
      | .mul => checkedI64 (left * right)
      | .div => if right = 0 then .error "division by zero" else .ok (.int (left.tdiv right))
      | _ => if right = 0 then .error "division by zero" else .ok (.int (left.tmod right))
  | left, right => do
      let leftFloat ← coerceFloat lib left
      let rightFloat ← coerceFloat lib right
      if op = .div ∧ lib.floatIsZero rightFloat then .error "division by zero"
      else .ok (.float (lib.floatArith op leftFloat rightFloat))

def castInt : Value → Except String Value
  | .int value => .ok (.int value)
  | .float value => .ok (.int (lib.floatToInt value))
  | .text value =>
      match parseI64 (lib.trim value) with
      | some number => .ok (.int number)
      | none => .error (lib.parseIntError (lib.trim value))
  | .bool value => .ok (.int (if value then 1 else 0))
  | .null => .ok .null
  | value => .error ("cannot cast " ++ value.typeName ++ " to int")

def castFloat : Value → Except String Value
  | .float value => .ok (.float value)
  | .int value => .ok (.float (lib.floatOfInt value))
  | .text value =>
      match lib.parseFloat (lib.trim value) with
      | some number => .ok (.float number)
      | none => .error (lib.parseFloatError (lib.trim value))
  | .null => .ok .null
  | value => .error ("cannot cast " ++ value.typeName ++ " to float")

def castBool : Value → Except String Value
  | .bool value => .ok (.bool value)
  | .int value => .ok (.bool (value != 0))
  | .text value => .ok (.bool (["t", "true", "yes", "on", "1"].contains (lib.lowercase value)))
  | .null => .ok .null
  | value => .error ("cannot cast " ++ value.typeName ++ " to bool")

def castValue (value : Value) (ty : String) : Except String Value :=
  let name := lib.lowercase ty
  if ["int", "int4", "int8", "integer", "bigint"].contains name then castInt lib value
  else if ["float", "float8", "real", "double", "double precision", "numeric"].contains name then
    castFloat lib value
  else if ["text", "varchar", "char"].contains name then .ok (.text (valToText lib value))
  else if ["bool", "boolean"].contains name then castBool lib value
  else if ["regclass", "regproc", "regtype"].contains name then .ok (.text (valToText lib value))
  else .error ("unknown cast target type: " ++ ty)

end

/-- `%` stands for any characters and `_` for one. -/
def likeRecursive : List Char → List Char → Bool
  | text, [] => text.isEmpty
  | text, symbol :: pattern =>
      if symbol = '%' then text.tails.any fun rest => likeRecursive rest pattern
      else
        match text with
        | [] => false
        | letter :: text => (symbol = '_' || letter = symbol) && likeRecursive text pattern
termination_by structural _ pattern => pattern

def likeMatch (text pattern : String) : Bool := likeRecursive text.toList pattern.toList

/-- A library for closed examples without floats, JSON and functions; case
mapping is that of ASCII. -/
def Library.basic : Library where
  floatOfInt _ := 0
  floatToInt _ := 0
  floatOfSingle _ := 0
  floatNeg value := value
  floatArith _ value _ := value
  floatIsZero _ := true
  floatCompare _ _ := none
  floatText _ := ""
  parseFloat _ := none
  floatMax0 _ := 0
  parseIntError _ := "invalid digit found in string"
  parseFloatError _ := "invalid float literal"
  lowercase text := String.ofList (text.toList.map Char.toLower)
  trim text := text
  jsonOp _ _ _ := .error "invalid JSON"
  regexIsMatch _ _ _ := .ok false
  function _ name _ := .error ("function \"" ++ name ++ "\" does not exist")
  spatialPairs _ _ _ _ _ := none
  spatialPredicate _ _ := none
  parseInterval _ := none
  decodeJsonb _ := none
  debugExpr _ := ""
  debugValue _ := ""
  debugValues _ := ""

end Pantheon.Sql
