import Mathlib
import Pantheon.Lib.OrdMap
import Pantheon.Lib.Bytes
import Pantheon.Sql.Eval

/-!
# The extended query protocol: `wire/session.rs`

One connection after authentication: the statements registered by `Parse`, the
portals made by `Bind`, and the open transaction.  The parser and the executor
stand behind `Backend`, as the session calls them.  Each message is answered on
its own; nothing is kept of an error.
-/

set_option autoImplicit false

namespace Pantheon.Wire

open Pantheon.Lib Pantheon.Sql

inductive TransactionStatus where
  | idle
  | inTransaction
deriving DecidableEq

inductive BackendMessage where
  | parseComplete
  | bindComplete
  | closeComplete
  | parameterDescription (types : List Int)
  | rowDescription (fields : List FieldDescription)
  | noData
  | dataRow (row : Row)
  | commandComplete (tag : String)
  | portalSuspended
  | errorResponse (code message : String)
  | readyForQuery (status : TransactionStatus)
deriving DecidableEq

def BackendMessage.isError : BackendMessage → Bool
  | .errorResponse _ _ => true
  | _ => false

/-- A message of the extended protocol.  `kind` is `S` for a statement and
anything else for a portal. -/
inductive ExtendedMessage where
  | parse (name query : String) (paramTypes : List Int)
  | bind (portal statement : String) (params : List Cell) (paramFormats resultFormats : List Int)
  | describe (kind : Char) (name : String)
  | execute (portal : String) (maxRows : Int)
  | close (kind : Char) (name : String)
  | sync
deriving DecidableEq

structure PreparedStmt where
  stmt : Stmt
  paramTypes : List Int

structure Portal where
  stmt : Stmt
  params : List Value
  resultFormats : List Int

/-- An executor error; `privilege` tells a denied permission from the rest. -/
structure ExecError where
  privilege : Bool
  message : String
deriving DecidableEq

def sqlstateFor (error : ExecError) : String := if error.privilege then "42501" else "42601"

/-- The parser and the executor as the session calls them.  A transaction handle
is shared, so executing a statement may change it. -/
structure Backend (Db Txn : Type) where
  parseCached : String → Except String Stmt
  executeParsedAs : Db → Option Txn → Stmt → List Value →
    (Db × Option Txn) × Except ExecError QueryResult
  beginTxn : Db → Db × Txn
  commitTxn : Db → Txn → Db × Except ExecError Unit
  rollbackTxn : Db → Txn → Db
  describeSelect : Db → SelectStmt → Except String (List FieldDescription)
  maxParamIndex : Stmt → Nat
  textCellToBinary : Bytes → Int → Option Bytes

structure Session (Db Txn : Type) where
  prepared : OrdMap String PreparedStmt
  portals : OrdMap String Portal
  txn : Option Txn
  db : Db

/-- What one message did: the replies, and the statement that was run. -/
structure Answer where
  replies : List BackendMessage
  executed : Option Stmt

/-! ## Parameters and results -/

def sniffParam (lib : Library) (bytes : Bytes) : Value :=
  if bytes.length = 1 then .bool (bytes.head? != some 0)
  else if bytes.length = 4 then .int (signed 4 (ofBe bytes))
  else if bytes.length = 8 then .int (signed 8 (ofBe bytes))
  else Value.fromBytes lib (some bytes)

def decodeParam (lib : Library) (cell : Cell) (format typeOid : Int) : Value :=
  match cell with
  | none => .null
  | some bytes =>
      if format = 0 then Value.fromBytes lib (some bytes)
      else if typeOid = oidInt8 ∧ bytes.length = 8 then .int (signed 8 (ofBe bytes))
      else if typeOid = oidInt4 ∧ bytes.length = 4 then .int (signed 4 (ofBe bytes))
      else if typeOid = oidInt2 ∧ bytes.length = 2 then .int (signed 2 (ofBe bytes))
      else if typeOid = oidFloat8 ∧ bytes.length = 8 then .float (UInt64.ofNat (ofBe bytes))
      else if typeOid = oidFloat4 ∧ bytes.length = 4 then .float (lib.floatOfSingle (ofBe bytes))
      else if typeOid = oidBool ∧ bytes.length = 1 then .bool (bytes.head? != some 0)
      else if typeOid = oidText then
        match String.fromUTF8? ⟨bytes.toArray⟩ with
        | some text => .text text
        | none => sniffParam lib bytes
      else sniffParam lib bytes

def decodeParams (lib : Library) (params : List Cell) (formats types : List Int) : List Value :=
  params.zipIdx.map fun param =>
    decodeParam lib param.1 (formats[param.2]?.getD 0) (types[param.2]?.getD 0)

def supportsBinary (typeOid : Int) : Bool :=
  [oidInt8, oidInt4, oidInt2, oidFloat8, oidFloat4, oidBool, oidText, oidBytea].contains typeOid

def resolveResultFormats (requested oids : List Int) : List Int :=
  oids.zipIdx.map fun oid =>
    let want := match requested with
      | [] => 0
      | [format] => format
      | _ => requested[oid.2]?.getD 0
    if want = 1 ∧ supportsBinary oid.1 then 1 else 0

section

variable {Db Txn : Type} (lib : Library) (backend : Backend Db Txn)

def encodeResultRow (row : Row) (oids formats : List Int) : Row :=
  row.zipIdx.map fun cell =>
    cell.1.map fun bytes =>
      if formats[cell.2]?.getD 0 = 1 then
        (backend.textCellToBinary bytes (oids[cell.2]?.getD oidText)).getD bytes
      else bytes

def rowDescriptionFor (db : Db) (stmt : Stmt) (resultFormats : List Int) : BackendMessage :=
  match stmt with
  | .select select =>
      match backend.describeSelect db select with
      | .ok fields =>
          if fields.isEmpty then .noData
          else .rowDescription (List.zipWith
            (fun field format => { field with format := format }) fields
            (resolveResultFormats resultFormats (fields.map FieldDescription.typeOid)))
      | .error _ => .noData
  | _ => .noData

def resultMessages (portal : Portal) (maxRows : Int) (result : QueryResult) :
    List BackendMessage :=
  let limited := 0 < maxRows ∧ maxRows < result.rows.length
  let rows := if limited then result.rows.take maxRows.toNat else result.rows
  let oids := result.fields.map FieldDescription.typeOid
  let formats := resolveResultFormats portal.resultFormats oids
  rows.map (fun row => .dataRow (encodeResultRow backend row oids formats)) ++
    [if limited then .portalSuspended else .commandComplete result.tag]

/-! ## The handlers -/

namespace Session

variable (session : Session Db Txn)

def unknownStatement (name : String) : BackendMessage :=
  .errorResponse "26000" ("prepared statement \"" ++ name ++ "\" does not exist")

def unknownPortal (name : String) : BackendMessage :=
  .errorResponse "34000" ("portal \"" ++ name ++ "\" does not exist")

def handleParse (name query : String) (paramTypes : List Int) : Session Db Txn × Answer :=
  match backend.parseCached query with
  | .ok stmt =>
      ({ session with prepared := session.prepared.insert name ⟨stmt, paramTypes⟩ },
        ⟨[.parseComplete], none⟩)
  | .error message => (session, ⟨[.errorResponse "42601" message], none⟩)

def handleBind (portal statement : String) (params : List Cell)
    (paramFormats resultFormats : List Int) : Session Db Txn × Answer :=
  match session.prepared.get? statement with
  | some prepared =>
      ({ session with
        portals := session.portals.insert portal
          ⟨prepared.stmt, decodeParams lib params paramFormats prepared.paramTypes,
            resultFormats⟩ },
        ⟨[.bindComplete], none⟩)
  | none => (session, ⟨[unknownStatement statement], none⟩)

def parameterTypes (prepared : PreparedStmt) : List Int :=
  let count := max (backend.maxParamIndex prepared.stmt) prepared.paramTypes.length
  (List.range count).map fun index =>
    match prepared.paramTypes[index]? with
    | some type => if type = 0 then oidText else type
    | none => oidText

def handleDescribe (kind : Char) (name : String) : Answer :=
  if kind = 'S' then
    match session.prepared.get? name with
    | some prepared =>
        ⟨[.parameterDescription (parameterTypes backend prepared),
          rowDescriptionFor backend session.db prepared.stmt []], none⟩
    | none => ⟨[unknownStatement name], none⟩
  else
    match session.portals.get? name with
    | some portal => ⟨[rowDescriptionFor backend session.db portal.stmt portal.resultFormats], none⟩
    | none => ⟨[unknownPortal name], none⟩

def runBegin : Session Db Txn × List BackendMessage :=
  let session := match session.txn with
    | some _ => session
    | none =>
        let (db, txn) := backend.beginTxn session.db
        { session with db := db, txn := some txn }
  (session, [.commandComplete "BEGIN"])

def runCommit : Session Db Txn × List BackendMessage :=
  match session.txn with
  | none => (session, [.commandComplete "COMMIT"])
  | some txn =>
      match backend.commitTxn session.db txn with
      | (db, .ok _) => ({ session with db := db, txn := none }, [.commandComplete "COMMIT"])
      | (db, .error error) =>
          ({ session with db := db, txn := none },
            [.errorResponse (sqlstateFor error) error.message])

def runRollback : Session Db Txn × List BackendMessage :=
  match session.txn with
  | none => (session, [.commandComplete "ROLLBACK"])
  | some txn =>
      ({ session with db := backend.rollbackTxn session.db txn, txn := none },
        [.commandComplete "ROLLBACK"])

def runPortal (portal : Portal) (maxRows : Int) : Session Db Txn × List BackendMessage :=
  match backend.executeParsedAs session.db session.txn portal.stmt portal.params with
  | ((db, txn), .ok result) =>
      ({ session with db := db, txn := txn }, resultMessages backend portal maxRows result)
  | ((db, txn), .error error) =>
      ({ session with db := db, txn := txn }, [.errorResponse (sqlstateFor error) error.message])

/-- Transaction control is the session's own; the rest goes to the executor. -/
def handleExecute (name : String) (maxRows : Int) : Session Db Txn × Answer :=
  match session.portals.get? name with
  | none => (session, ⟨[unknownPortal name], none⟩)
  | some portal =>
      let (session, replies) := match portal.stmt with
        | .begin => session.runBegin backend
        | .commit => session.runCommit backend
        | .rollback => session.runRollback backend
        | _ => session.runPortal backend portal maxRows
      (session, ⟨replies, some portal.stmt⟩)

def handleClose (kind : Char) (name : String) : Session Db Txn × Answer :=
  (if kind = 'S' then { session with prepared := session.prepared.erase name }
    else { session with portals := session.portals.erase name }, ⟨[.closeComplete], none⟩)

def handleSync : Answer :=
  ⟨[.readyForQuery (if session.txn.isSome then .inTransaction else .idle)], none⟩

def handle : ExtendedMessage → Session Db Txn × Answer
  | .parse name query paramTypes => session.handleParse backend name query paramTypes
  | .bind portal statement params paramFormats resultFormats =>
      session.handleBind lib portal statement params paramFormats resultFormats
  | .describe kind name => (session, session.handleDescribe backend kind name)
  | .execute portal maxRows => session.handleExecute backend portal maxRows
  | .close kind name => session.handleClose kind name
  | .sync => (session, session.handleSync)

/-- The session of a connection that has sent no message yet. -/
def fresh (db : Db) : Session Db Txn := ⟨OrdMap.empty, OrdMap.empty, none, db⟩

def exchanges : Session Db Txn → List ExtendedMessage → List (ExtendedMessage × Answer)
  | _, [] => []
  | session, message :: messages =>
      let (session, answer) := session.handle lib backend message
      (message, answer) :: exchanges session messages

end Session

end

end Pantheon.Wire
