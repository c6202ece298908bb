import Mathlib
import Pantheon.Keystone.ReturnedWrites
import Pantheon.Sql.CopyInsert
import Pantheon.Sql.StoredTables

/-!
# What a scan returns of the inserted rows

`execute_insert` stores a row under the cell of its first primary key column, or of the
first column when there is no primary key, and asks for no row that is there already.  A
scan returns all inserted rows exactly when no two of them have the same cell there.
-/

set_option autoImplicit false

namespace Pantheon.Sql

open Pantheon.Lib Pantheon.Keystone

variable (env : DmlLibrary)

/-- A row that an INSERT returned for. -/
structure InsertedRow where
  table : TableDef
  cells : Row

namespace InsertedRow

def key (row : InsertedRow) : Bytes := Server.rowKeyOf row.table row.cells

def stored (binaryJson : Bool) (row : InsertedRow) : Bytes :=
  buildRowValue env.serde row.table.schema binaryJson row.cells

def write (binaryJson : Bool) (row : InsertedRow) : Bytes × Option Bytes :=
  (makeKey row.table.name row.key, some (row.stored env binaryJson))

def inTable (name : String) (row : InsertedRow) : Bool := row.table.name == name

end InsertedRow

/-- Two rows with different cells in some column of the primary key; without a primary key
any two. -/
def ApartOnKey (table : TableDef) (left right : Row) : Prop :=
  table.pkColumns ≠ [] → ∃ index ∈ table.pkColumns, left[index]?.join ≠ right[index]?.join

namespace Server

variable {ETag : Type} [DecidableEq ETag]

def insertedRows (around : Surroundings) (table : TableDef) (columns : List String)
    (number : Nat) (values : List (List Expr)) : List InsertedRow :=
  (values.zipIdx number).filterMap fun entry =>
    (insertCells env around table columns entry.2 entry.1).toOption.map fun cells => ⟨table, cells⟩

/-! ## Runs of INSERT statements -/

def record (server : Server ETag) (log : SessionLog InsertedRow) :
    ServerCall → SessionLog InsertedRow
  | .beginTxn => log.start server.database.handles.length
  | .insert session around insert =>
      match server.getTable insert.table with
      | none => log
      | some table => log.add session (insertedRows env around table insert.columns 0 insert.values)
  | .commit session _ => log.commit session
  | _ => log

/-- A step of the server beside the log of the rows that were inserted. -/
def loggedStep (state : Server ETag × SessionLog InsertedRow) (call : ServerCall) :
    Option (Server ETag × SessionLog InsertedRow) :=
  (state.1.step env call).map fun next => (next, record env state.1 state.2 call)

/-- The sessions run INSERT statements that succeed, some of them in transactions. -/
def insertsOnly (state : Server ETag × SessionLog InsertedRow) : ServerCall → Bool
  | .update .. => false
  | .delete .. => false
  | call => state.1.succeeds env call

variable {env} {server : Server ETag} {log : SessionLog InsertedRow}

theorem ok_of_isOk {Error : Type} {result : Except Error Unit} (ok : result.isOk = true) :
    result = .ok () := by
  cases result with
  | error error => cases ok
  | ok => rfl

def Recorded (env : DmlLibrary) (server : Server ETag) (log : SessionLog InsertedRow) : Prop :=
  server.database.Logged (log.map (InsertedRow.write env server.binaryJson))

variable {session : Option Nat} {table : TableDef}

theorem Recorded.insertRow (recorded : server.Recorded env log)
    {around : Surroundings} {columns : List String} {number : Nat}
    {values : List Expr}
    (ok : (server.insertRow env session around table columns number values).2 = .ok ()) :
    ∃ cells, insertCells env around table columns number values = .ok cells ∧
      (server.insertRow env session around table columns number values).1.Recorded env
        (log.add session [⟨table, cells⟩]) := by
  unfold Server.insertRow at ok ⊢
  cases resolved : insertCells env around table columns number values with
  | error error =>
      rw [resolved] at ok
      cases ok
  | ok cells =>
      rw [resolved] at ok
      refine ⟨cells, rfl, ?_⟩
      dsimp only at ok ⊢
      cases checked : server.checkRow env session table cells none with
      | error error =>
          rw [checked] at ok
          cases ok
      | ok =>
          rw [checked] at ok
          dsimp only at ok ⊢
          obtain ⟨database, _, binaryJson, sameOk⟩ := server.writeRow_spec env session around table
            number .insert (rowKeyOf table cells) none cells
          rw [ok] at sameOk
          have returned : (server.database.txnWrite session (around.io number) table.name
              (rowKeyOf table cells)
              (buildRowValue env.serde table.schema server.binaryJson cells)).2 = .ok () :=
            ok_of_isOk sameOk.symm
          unfold Recorded
          rw [binaryJson, database, SessionLog.map_add]
          exact Database.Logged.txnWrite recorded returned

theorem Recorded.eachRow {around : Surroundings}
    {columns : List String} (values : List (List Expr)) :
    ∀ (number : Nat) (server : Server ETag) (log : SessionLog InsertedRow),
      server.Recorded env log →
      (eachRow (fun server number values =>
        server.insertRow env session around table columns number values) number values server).2 =
          .ok () →
      (Server.eachRow (fun server number values =>
        server.insertRow env session around table columns number values) number values
          server).1.Recorded env
        (log.add session (insertedRows env around table columns number values)) := by
  induction values with
  | nil =>
      intro number server log recorded _
      rw [insertedRows, List.zipIdx_nil, List.filterMap_nil, SessionLog.add_nil]
      exact recorded
  | cons row values ih =>
      intro number server log recorded ok
      rw [Server.eachRow] at ok ⊢
      cases ran : server.insertRow env session around table columns number row with
      | mk next result =>
          rw [ran] at ok
          cases result with
          | error error => cases ok
          | ok =>
              obtain ⟨cells, resolved, inserted⟩ := recorded.insertRow
                (congrArg Prod.snd ran)
              rw [ran] at inserted
              have rest := ih (number + 1) next _ inserted ok
              have rows : insertedRows env around table columns number (row :: values) =
                  [⟨table, cells⟩] ++
                    insertedRows env around table columns (number + 1) values := by
                simp [insertedRows, List.zipIdx_cons, resolved, Except.toOption]
              rw [rows, SessionLog.add_append]
              exact rest

theorem Recorded.step (recorded : server.Recorded env log) {call : ServerCall}
    (allowed : insertsOnly env (server, log) call = true) {next : Server ETag}
    (taken : server.step env call = some next) :
    next.Recorded env (record env server log call) := by
  cases call with
  | update session around update => cases allowed
  | delete session around delete => cases allowed
  | beginTxn =>
      cases taken
      unfold Recorded
      rw [record, SessionLog.map_start]
      exact Database.Logged.beginTxn recorded
  | insert session around insert =>
      simp only [Server.step] at taken
      split_ifs at taken
      cases taken
      have ok : (server.executeInsert env session around insert).2.isOk = true := allowed
      unfold executeInsert at ok ⊢
      cases found : server.getTable insert.table with
      | none =>
          rw [found] at ok
          cases ok
      | some table =>
          rw [found] at ok
          simp only [record, found]
          apply Recorded.eachRow insert.values 0 server log recorded
          exact ok_of_isOk ok
  | commit session io =>
      simp only [Server.step] at taken
      split_ifs at taken with opened
      cases taken
      obtain ⟨txn, held, unfinished⟩ := sessionOpen_txn opened
      unfold Recorded
      rw [record, SessionLog.map_commit]
      exact Database.Logged.commitTxn recorded held unfinished (ok_of_isOk allowed)
  | rollback session =>
      simp only [Server.step] at taken
      split_ifs at taken
      cases taken
      exact Database.Logged.finish recorded session

def rowsOf (log : SessionLog InsertedRow) (session : Option Nat) (name : String) :
    List InsertedRow :=
  (log.visible session).filter fun row => row.inTable name

omit [DecidableEq ETag] in
theorem Recorded.lists (recorded : server.Recorded env log)
    (opened : server.sessionOpen session = true)
    (fits : server.database.host.engine.write.nextCommitSeq ≤ u64Max + 1) {name : String}
    (plain : 0 ∉ utf8Bytes name) (key value : Bytes) :
    (key, value) ∈ server.scan session name ↔
      lastWrite ((rowsOf log session name).map fun row =>
        (row.key, some (row.stored env server.binaryJson))) key = some value := by
  have live : ∀ index, session = some index →
      ∃ txn, server.database.txnAt index = some txn ∧ txn.finished = false := by
    rintro index rfl
    exact sessionOpen_txn opened
  have read := Database.Logged.read recorded live fits name key
  rw [SessionLog.visible_map, lastWrite_part (InsertedRow.write env server.binaryJson)
    (fun row : InsertedRow => (row.key, some (row.stored env server.binaryJson)))
    (InsertedRow.inTable name) (makeKey name) ?_ fun row => rfl] at read
  · apply (mem_txnScan _ _ _ _ _).trans
    exact iff_of_eq (congrArg (fun found => found = some value) read)
  · intro row _
    constructor
    · intro same
      obtain ⟨sameName, sameKey⟩ := makeKey_inj row.table.plainName plain same
      exact ⟨beq_iff_eq.mpr sameName, sameKey⟩
    · rintro ⟨there, rfl⟩
      exact congrArg (fun name => makeKey name row.key) (beq_iff_eq.mp there)

theorem logged_getTable {allowed : Server ETag × SessionLog InsertedRow → ServerCall → Prop}
    {first : Server ETag × SessionLog InsertedRow}
    (reached : Reaches (loggedStep env) allowed first (server, log)) (name : String) :
    server.getTable name = first.1.getTable name := by
  refine Reaches.invariant (fun state => state.1.getTable name = first.1.getTable name) rfl ?_
    (server, log) reached
  intro before call after same _ taken
  obtain ⟨next, ran, rfl⟩ := Option.map_eq_some_iff.mp taken
  have tables := (step_frame env ran).1
  rw [← same]
  unfold getTable
  rw [tables]

/-- Behind a run of INSERT statements that succeeded a scan returns every row that its
session sees, as often as it was inserted, exactly when no two of them have the same bytes in
the column that gives the storage key; with the inserted cells, where these read back. -/
theorem inserted_rows_scanned {manifestEtag : Manifest → ETag} {leaseEtag : Lease → ETag}
    {token : Nat} {tables : List TableDef} {binaryJson : Bool}
    (reached : Reaches (loggedStep env) (fun state call => insertsOnly env state call = true)
      (start manifestEtag leaseEtag token tables binaryJson, SessionLog.empty) (server, log))
    (opened : server.sessionOpen session = true)
    (fits : server.database.host.engine.write.nextCommitSeq ≤ u64Max + 1) {name : String}
    (found : server.getTable name = some table) :
    (((rowsOf log session name).map fun row =>
        parseStored env (row.stored env server.binaryJson)).Subperm
      ((server.scan session name).map fun stored => parseStored env stored.2) ↔
      ((rowsOf log session name).map InsertedRow.key).Nodup) ∧
    ((∀ row ∈ rowsOf log session name,
        parseStored env (row.stored env server.binaryJson) = row.cells) →
      (((rowsOf log session name).map InsertedRow.cells).Subperm
        ((server.scan session name).map fun stored => parseStored env stored.2) ↔
        ((rowsOf log session name).map InsertedRow.key).Nodup)) := by
  have recorded : server.Recorded env log := by
    refine Reaches.invariant (fun state => state.1.Recorded env state.2)
      (Database.Logged.started manifestEtag leaseEtag token) ?_ (server, log) reached
    rintro ⟨before, rows⟩ call ⟨next, more⟩ recorded allowed taken
    obtain ⟨stepped, ran, same⟩ := Option.map_eq_some_iff.mp taken
    cases same
    exact Recorded.step recorded allowed ran
  have plain := table.plainName
  rw [getTable_name found] at plain
  have listing := subperm_listing_iff ((rowsOf log session name).map fun row =>
      (row.key, row.stored env server.binaryJson))
    (txnScan_keys_nodup server.database.host.engine.view (server.txnOf session) name)
    (fun key value => by
      rw [List.map_map]
      exact recorded.lists opened fits plain key value) (parseStored env)
  rw [List.map_map, List.map_map] at listing
  exact ⟨listing, fun back => List.map_congr_left back ▸ listing⟩

end Server

/-! ## A primary key of two columns -/

def pairsTable : TableDef :=
  ⟨"pairs", [⟨⟨"first", .text⟩, false, none⟩, ⟨⟨"second", .text⟩, false, none⟩], [0, 1], [], [],
    [], by decide⟩

def pairsServer : Server Nat :=
  Server.start (fun manifest => manifest.maxCommitSeq) (fun lease => lease.fencingToken) 1
    [pairsTable] false

def addPair (first second : String) : ServerCall :=
  .insert none plainSurroundings
    ⟨"pairs", [], [[.literal (.text first), .literal (.text second)]]⟩

def pairsRun (calls : List ServerCall) : Option (Server Nat × SessionLog InsertedRow) :=
  runChecked (Server.loggedStep plainLibrary)
    (fun (state : Server Nat × SessionLog InsertedRow) call =>
      Server.insertsOnly plainLibrary state call) (pairsServer, SessionLog.empty) calls

def pairsLeft (calls : List ServerCall) :
    Option (List (List (Option Bytes)) × List (Bytes × Bytes)) :=
  (pairsRun calls).map fun state =>
    ((Server.rowsOf state.2 none "pairs").map InsertedRow.cells, state.1.scan none "pairs")

theorem pairsRun_reaches {calls : List ServerCall} {server : Server Nat}
    {log : SessionLog InsertedRow} (ran : pairsRun calls = some (server, log)) :
    Reaches (Server.loggedStep plainLibrary)
        (fun state call => Server.insertsOnly plainLibrary state call = true)
        (pairsServer, SessionLog.empty) (server, log) ∧
      server.getTable "pairs" = some pairsTable := by
  have reached : Reaches (Server.loggedStep plainLibrary)
      (fun state call => Server.insertsOnly plainLibrary state call = true)
      (pairsServer, SessionLog.empty) (server, log) :=
    runChecked_reaches _ (fun _ _ checked => checked) _ _ _ ran
  exact ⟨reached, Server.logged_getTable reached "pairs"⟩

/-- Two pairs with one first cell: both INSERTs succeed, and the second one replaces the row
of the first. -/
theorem second_pair_replaces_first :
    ¬ ∀ server log, Reaches (Server.loggedStep plainLibrary)
        (fun state call => Server.insertsOnly plainLibrary state call = true)
        (pairsServer, SessionLog.empty) (server, log) →
      ∀ session name table, server.sessionOpen session = true →
        server.getTable name = some table →
        ((Server.rowsOf log session name).map InsertedRow.cells).Pairwise (ApartOnKey table) →
        ((Server.rowsOf log session name).map fun row =>
            parseStored plainLibrary (row.stored plainLibrary server.binaryJson)).Subperm
          ((server.scan session name).map fun stored => parseStored plainLibrary stored.2) := by
  intro claimed
  have left : pairsLeft [addPair "a" "b", addPair "a" "c"] =
      some ([[some [97], some [98]], [some [97], some [99]]],
        [([97], [0, 0, 0, 1, 97, 0, 0, 0, 1, 99])]) := by decide +kernel
  obtain ⟨⟨server, log⟩, ran, exact⟩ := Option.map_eq_some_iff.mp left
  obtain ⟨rows, scanned⟩ := Prod.mk.inj exact
  obtain ⟨reached, found⟩ := pairsRun_reaches ran
  have apart : ((Server.rowsOf log none "pairs").map InsertedRow.cells).Pairwise
      (ApartOnKey pairsTable) := by
    rw [rows, List.pairwise_pair]
    exact fun _ => ⟨1, by decide, by decide⟩
  have all := (claimed server log reached none "pairs" pairsTable rfl found apart).length_le
  have two : (Server.rowsOf log none "pairs").length = 2 := by
    simpa using congrArg List.length rows
  have one : (server.scan none "pairs").length = 1 := congrArg List.length scanned
  rw [List.length_map, List.length_map] at all
  omega

/-- Two pairs with different first cells. -/
theorem different_pairs_stay : ∃ (server : Server Nat) (log : SessionLog InsertedRow),
    (Server.rowsOf log none "pairs").map InsertedRow.cells =
        [[some [97], some [98]], [some [98], some [98]]] ∧
      ((Server.rowsOf log none "pairs").map fun row =>
          parseStored plainLibrary (row.stored plainLibrary server.binaryJson)).Subperm
        ((server.scan none "pairs").map fun stored => parseStored plainLibrary stored.2) := by
  have left : pairsLeft [addPair "a" "b", addPair "b" "b"] =
      some ([[some [97], some [98]], [some [98], some [98]]],
        [([97], [0, 0, 0, 1, 97, 0, 0, 0, 1, 98]), ([98], [0, 0, 0, 1, 98, 0, 0, 0, 1, 98])]) := by
    decide +kernel
  have counted : (pairsRun [addPair "a" "b", addPair "b" "b"]).map (fun state =>
      (state.1.database.host.engine.write.nextCommitSeq,
        (Server.rowsOf state.2 none "pairs").map InsertedRow.key)) = some (3, [[97], [98]]) := by
    decide +kernel
  obtain ⟨⟨server, log⟩, ran, exact⟩ := Option.map_eq_some_iff.mp left
  rw [ran, Option.map_some, Option.some.injEq] at counted
  obtain ⟨sequence, keys⟩ := Prod.mk.inj counted
  obtain ⟨reached, found⟩ := pairsRun_reaches ran
  refine ⟨server, log, (Prod.mk.inj exact).1, ?_⟩
  apply (Server.inserted_rows_scanned reached rfl (by rw [sequence]; decide) found).1.mpr
  rw [keys]
  decide

end Pantheon.Sql
