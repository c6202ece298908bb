import Mathlib

/-!
# The statements of `sql/ast.rs`

The syntax trees that the parser hands to the executor.  A float is its IEEE 754
bit pattern.  Of the statements that define objects or roles only what the
authorisation check reads is kept.
-/

set_option autoImplicit false

namespace Pantheon.Sql

/-- An `f64` by its bits. -/
abbrev F64 : Type := UInt64

inductive Literal where
  | int (value : Int)
  | float (value : F64)
  | text (value : String)
  | bool (value : Bool)
  | null
  | floatArray (items : List F64)
deriving DecidableEq

inductive BinOp where
  | add
  | sub
  | mul
  | div
  | mod
  | eq
  | notEq
  | lt
  | lte
  | gt
  | gte
  | and
  | or
  | concat
  | arrow
  | longArrow
  | contains
  | hashArrow
  | hashLongArrow
  | regexMatch
  | regexNotMatch
  | regexMatchCI
  | regexNotMatchCI
deriving DecidableEq

inductive UnOp where
  | neg
  | not
deriving DecidableEq

inductive JoinType where
  | inner
  | left
  | right
  | full
  | cross
deriving DecidableEq

inductive UnionOp where
  | union
  | unionAll
deriving DecidableEq

inductive FrameType where
  | rows
  | range
  | groups
deriving DecidableEq

inductive FrameBoundType where
  | unboundedPreceding
  | preceding
  | currentRow
  | following
  | unboundedFollowing
deriving DecidableEq

/-! ## Queries -/

mutual

inductive Expr where
  | literal (value : Literal)
  | ident (name : String)
  | qualifiedIdent (table name : String)
  | binaryOp (op : BinOp) (lhs rhs : Expr)
  | unaryOp (op : UnOp) (expr : Expr)
  | isNull (expr : Expr) (negated : Bool)
  | isTrue (expr : Expr) (negated : Bool)
  | isFalse (expr : Expr) (negated : Bool)
  | between (expr low high : Expr) (negated : Bool)
  | like (expr pattern : Expr) (negated : Bool)
  | inList (expr : Expr) (items : List Expr) (negated : Bool)
  | inSubquery (expr : Expr) (subquery : SelectStmt) (negated : Bool)
  | exists (subquery : SelectStmt) (negated : Bool)
  | cast (expr : Expr) (ty : String)
  | function (name : String) (args : List Expr) (distinct : Bool)
  | case (operand : Option Expr) (branches : List (Expr × Expr)) (else_ : Option Expr)
  | param (index : Nat)
  | subquery (query : SelectStmt)
  | window (func : String) (args partitionBy : List Expr) (orderBy : List OrderBy)
      (frame : Option WindowFrame)

structure OrderBy where
  expr : Expr
  asc : Bool

structure WindowFrame where
  frameType : FrameType
  start : FrameBound
  stop : Option FrameBound

structure FrameBound where
  boundType : FrameBoundType
  offset : Option Expr

/-- A stored table, a CTE, a derived table or a table function. -/
structure TableRef where
  name : String
  alias_ : Option String
  subquery : Option SelectStmt
  funcArgs : Option (List Expr)

structure Join where
  joinType : JoinType
  table : TableRef
  on : Option Expr

structure TableWithJoins where
  primary : TableRef
  joins : List Join

inductive Projection where
  | wildcard
  | wildcardTable (table : String)
  | expr (expr : Expr) (alias_ : Option String)

structure Cte where
  name : String
  columns : List String
  subquery : SelectStmt
  recursive : Bool

structure SelectStmt where
  ctes : List Cte
  distinct : Bool
  projections : List Projection
  from_ : Option TableWithJoins
  where_ : Option Expr
  groupBy : List Expr
  having : Option Expr
  orderBy : List OrderBy
  limit : Option Expr
  offset : Option Expr
  union : Option (UnionOp × SelectStmt)

end

instance : Inhabited Expr := ⟨.literal .null⟩

def TableRef.scopeName (table : TableRef) : String := table.alias_.getD table.name

/-! ## Statements -/

structure InsertStmt where
  table : String
  columns : List String
  values : List (List Expr)

structure DeleteStmt where
  table : String
  where_ : Option Expr

structure UpdateStmt where
  table : String
  assignments : List (String × Expr)
  where_ : Option Expr

structure CopyStmt where
  table : String
  columns : List String
deriving DecidableEq

inductive FetchCount where
  | next
  | all
  | count (rows : Int)
deriving DecidableEq

structure FetchStmt where
  cursor : String
  count : FetchCount
deriving DecidableEq

structure DeclareCursorStmt where
  name : String
  query : SelectStmt

inductive Stmt where
  | select (query : SelectStmt)
  | insert (insert : InsertStmt)
  | delete (delete : DeleteStmt)
  | update (update : UpdateStmt)
  | createTable (table : String)
  | dropTable (table : String)
  | createIndex (table : String)
  | alterTable (table : String)
  | set
  | show
  | begin
  | commit
  | rollback
  | declareCursor (declare : DeclareCursorStmt)
  | fetch (fetch : FetchStmt)
  | moveCursor (fetch : FetchStmt)
  | closeCursor (name : String)
  | listen (channel : String)
  | notify (channel : String) (payload : Option String)
  | unlisten (channel : String)
  | copyIn (copy : CopyStmt)
  | copyOut (copy : CopyStmt)
  | createFunction
  | createSequence
  | createTopic
  | analyze (table : Option String)
  | matchGraph (table column : String)
  | createRole
  | alterRole
  | dropRole
  | grant
  | revoke

end Pantheon.Sql
