import Mathlib
import Pantheon.Wire.Session

/-!
# Errors in a pipeline of extended messages

No handler looks at an earlier error, and the names of statements and portals
survive one.  So which statement an `Execute` runs is a matter of the messages
before it alone, and a run stops at an error only as far as the client's own
messages leave no portal to execute.
-/

set_option autoImplicit false

namespace Pantheon.Wire

open Pantheon.Lib Pantheon.Sql

/-- The statements that the names of a session stand for. -/
structure Names where
  prepared : OrdMap String Stmt
  portals : OrdMap String Stmt

namespace Names

def empty : Names := ⟨OrdMap.empty, OrdMap.empty⟩

/-- What a message does to the names.  Nothing but a failed `Parse` or an unknown
name stands in its way. -/
def after (parse : String → Except String Stmt) (names : Names) : ExtendedMessage → Names
  | .parse name query _ =>
      match parse query with
      | .ok stmt => { names with prepared := names.prepared.insert name stmt }
      | .error _ => names
  | .bind portal statement _ _ _ =>
      match names.prepared.get? statement with
      | some stmt => { names with portals := names.portals.insert portal stmt }
      | none => names
  | .close kind name =>
      if kind = 'S' then { names with prepared := names.prepared.erase name }
      else { names with portals := names.portals.erase name }
  | .describe _ _ => names
  | .execute _ _ => names
  | .sync => names

def afterAll (parse : String → Except String Stmt) (messages : List ExtendedMessage) : Names :=
  messages.foldl (after parse) empty

end Names

section

variable {Db Txn : Type} (lib : Library) (backend : Backend Db Txn)

namespace Session

/-- The session's maps hold the statements that the names stand for. -/
structure Holds (session : Session Db Txn) (names : Names) : Prop where
  prepared : ∀ name, names.prepared.get? name =
    (session.prepared.get? name).map PreparedStmt.stmt
  portals : ∀ name, names.portals.get? name = (session.portals.get? name).map Portal.stmt

theorem holds_fresh (db : Db) : (fresh db : Session Db Txn).Holds Names.empty :=
  ⟨fun _ => rfl, fun _ => rfl⟩

theorem Holds.congr {session next : Session Db Txn} {names : Names} (holds : session.Holds names)
    (samePrepared : next.prepared = session.prepared) (samePortals : next.portals = session.portals) :
    next.Holds names := by
  refine ⟨?_, ?_⟩
  · rw [samePrepared]; exact holds.prepared
  · rw [samePortals]; exact holds.portals

theorem get?_insert_map {Kept Named : Type} (stmt : Kept → Named) {kept : OrdMap String Kept}
    {named : OrdMap String Named} (same : ∀ name, named.get? name = (kept.get? name).map stmt)
    (key : String) (value : Kept) (name : String) :
    (named.insert key (stmt value)).get? name = ((kept.insert key value).get? name).map stmt := by
  rw [OrdMap.get?_insert, OrdMap.get?_insert]
  split_ifs
  · rfl
  · exact same name

theorem get?_erase_map {Kept Named : Type} (stmt : Kept → Named) {kept : OrdMap String Kept}
    {named : OrdMap String Named} (same : ∀ name, named.get? name = (kept.get? name).map stmt)
    (key name : String) :
    (named.erase key).get? name = ((kept.erase key).get? name).map stmt := by
  rw [OrdMap.get?_erase, OrdMap.get?_erase]
  split_ifs
  · rfl
  · exact same name

theorem handleExecute_maps (session : Session Db Txn) (name : String) (maxRows : Int) :
    (session.handleExecute backend name maxRows).1.prepared = session.prepared ∧
      (session.handleExecute backend name maxRows).1.portals = session.portals := by
  unfold handleExecute
  cases session.portals.get? name with
  | none => exact ⟨rfl, rfl⟩
  | some portal =>
      have begun : (session.runBegin backend).1.prepared = session.prepared ∧
          (session.runBegin backend).1.portals = session.portals := by
        unfold runBegin
        cases session.txn <;> exact ⟨rfl, rfl⟩
      have committed : (session.runCommit backend).1.prepared = session.prepared ∧
          (session.runCommit backend).1.portals = session.portals := by
        unfold runCommit
        cases session.txn with
        | none => exact ⟨rfl, rfl⟩
        | some txn =>
            simp only
            rcases backend.commitTxn session.db txn with ⟨db, error | done⟩ <;> exact ⟨rfl, rfl⟩
      have rolledBack : (session.runRollback backend).1.prepared = session.prepared ∧
          (session.runRollback backend).1.portals = session.portals := by
        unfold runRollback
        cases session.txn <;> exact ⟨rfl, rfl⟩
      have ran : (session.runPortal backend portal maxRows).1.prepared = session.prepared ∧
          (session.runPortal backend portal maxRows).1.portals = session.portals := by
        unfold runPortal
        rcases backend.executeParsedAs session.db session.txn portal.stmt portal.params with
          ⟨⟨db, txn⟩, error | result⟩ <;> exact ⟨rfl, rfl⟩
      simp only
      split
      · exact begun
      · exact committed
      · exact rolledBack
      · exact ran

theorem Holds.handle {session : Session Db Txn} {names : Names} (holds : session.Holds names)
    (message : ExtendedMessage) : (session.handle lib backend message).1.Holds
      (names.after backend.parseCached message) := by
  cases message with
  | parse name query paramTypes =>
      simp only [Session.handle, handleParse, Names.after]
      cases backend.parseCached query with
      | error _ => exact holds
      | ok stmt =>
          exact ⟨get?_insert_map PreparedStmt.stmt holds.prepared name ⟨stmt, paramTypes⟩,
            holds.portals⟩
  | bind portal statement params paramFormats resultFormats =>
      simp only [Session.handle, handleBind, Names.after]
      simp only [holds.prepared statement]
      cases session.prepared.get? statement with
      | none => exact holds
      | some prepared =>
          exact ⟨holds.prepared, get?_insert_map Portal.stmt holds.portals portal
            ⟨prepared.stmt, decodeParams lib params paramFormats prepared.paramTypes,
              resultFormats⟩⟩
  | describe kind name => exact holds
  | execute portal maxRows =>
      obtain ⟨samePrepared, samePortals⟩ := session.handleExecute_maps backend portal maxRows
      exact holds.congr samePrepared samePortals
  | close kind name =>
      simp only [Session.handle, handleClose, Names.after]
      by_cases statement : kind = 'S'
      · simp only [statement, if_true]
        exact ⟨get?_erase_map PreparedStmt.stmt holds.prepared name, holds.portals⟩
      · simp only [statement, if_false]
        exact ⟨holds.prepared, get?_erase_map Portal.stmt holds.portals name⟩
  | sync => exact holds

theorem executed_eq_none_iff (session : Session Db Txn) (message : ExtendedMessage) :
    (session.handle lib backend message).2.executed = none ↔
      ∀ portal maxRows, message = .execute portal maxRows →
        session.portals.get? portal = none := by
  cases message with
  | execute portal maxRows =>
      have ran : (session.handleExecute backend portal maxRows).2.executed =
          (session.portals.get? portal).map Portal.stmt := by
        unfold handleExecute
        cases session.portals.get? portal <;> rfl
      constructor
      · rintro idle other rows ⟨rfl, rfl⟩
        exact Option.map_eq_none_iff.mp (ran.symm.trans idle)
      · intro absent
        exact ran.trans (Option.map_eq_none_iff.mpr (absent portal maxRows rfl))
  | parse name query paramTypes =>
      refine iff_of_true ?_ (by simp)
      simp only [Session.handle, handleParse]
      cases backend.parseCached query <;> rfl
  | bind portal statement params paramFormats resultFormats =>
      refine iff_of_true ?_ (by simp)
      simp only [Session.handle, handleBind]
      cases session.prepared.get? statement <;> rfl
  | describe kind name =>
      refine iff_of_true ?_ (by simp)
      simp only [Session.handle, handleDescribe]
      by_cases statement : kind = 'S'
      · simp only [statement, if_true]
        cases session.prepared.get? name <;> rfl
      · simp only [statement, if_false]
        cases session.portals.get? name <;> rfl
  | close kind name => exact iff_of_true rfl (by simp)
  | sync => exact iff_of_true rfl (by simp)

/-- Any exchange of a run is the answer of a session that holds the names of the
messages before it. -/
theorem exchanges_split : ∀ (front : List (ExtendedMessage × Answer))
    (exchange : ExtendedMessage × Answer) (back : List (ExtendedMessage × Answer))
    (messages : List ExtendedMessage) (session : Session Db Txn) (names : Names),
    session.Holds names →
    exchanges lib backend session messages = front ++ exchange :: back →
    ∃ before : Session Db Txn,
      before.Holds ((front.map Prod.fst).foldl (Names.after backend.parseCached) names) ∧
        exchange.2 = (before.handle lib backend exchange.1).2 := by
  intro front
  induction front with
  | nil =>
      intro exchange back messages session names holds run
      cases messages with
      | nil => exact absurd run (by simp [exchanges])
      | cons message messages =>
          obtain ⟨here, _⟩ := List.cons.inj run
          subst here
          exact ⟨session, holds, rfl⟩
  | cons head front ih =>
      intro exchange back messages session names holds run
      cases messages with
      | nil => exact absurd run (by simp [exchanges])
      | cons message messages =>
          obtain ⟨here, rest⟩ := List.cons.inj run
          obtain ⟨before, held, answered⟩ := ih exchange back messages _ _
            (holds.handle lib backend message) rest
          refine ⟨before, ?_, answered⟩
          rw [List.map_cons, List.foldl_cons, ← here]
          exact held

end Session

/-- After an answer with an error no statement runs until the next `Sync`. -/
def StopsAfterError (run : List (ExtendedMessage × Answer)) : Prop :=
  ∀ front failed middle later back, run = front ++ failed :: (middle ++ later :: back) →
    failed.2.replies.any BackendMessage.isError = true →
    (∀ exchange ∈ middle, exchange.1 ≠ .sync) → later.2.executed = none

/-- Between an error and the next `Sync` every `Execute` names a portal that the
messages before it do not make. -/
def NoPortalAfterError (parse : String → Except String Stmt)
    (run : List (ExtendedMessage × Answer)) : Prop :=
  ∀ front failed middle portal maxRows answer back,
    run = front ++ failed :: (middle ++ (.execute portal maxRows, answer) :: back) →
    failed.2.replies.any BackendMessage.isError = true →
    (∀ exchange ∈ middle, exchange.1 ≠ .sync) →
    (Names.afterAll parse ((front ++ failed :: middle).map Prod.fst)).portals.get? portal = none

/-- For every sequence of messages: the run stops at its errors exactly when the
messages themselves leave no portal to execute behind one. -/
theorem stops_after_error_iff (db : Db) (messages : List ExtendedMessage) :
    StopsAfterError (Session.exchanges lib backend (.fresh db) messages) ↔
      NoPortalAfterError backend.parseCached
        (Session.exchanges lib backend (.fresh db) messages) := by
  have answered : ∀ front failed middle later back,
      Session.exchanges lib backend (.fresh db) messages =
        front ++ failed :: (middle ++ later :: back) →
      ∃ before : Session Db Txn,
        before.Holds (Names.afterAll backend.parseCached
          ((front ++ failed :: middle).map Prod.fst)) ∧
        later.2 = (before.handle lib backend later.1).2 := by
    intro front failed middle later back run
    refine Session.exchanges_split lib backend (front ++ failed :: middle) later back messages
      (.fresh db) Names.empty (Session.holds_fresh db) ?_
    rw [run, List.append_assoc, List.cons_append]
  constructor
  · intro stops front failed middle portal maxRows answer back run error unsynced
    obtain ⟨before, holds, exact⟩ := answered front failed middle _ back run
    have idle := stops front failed middle _ back run error unsynced
    rw [exact] at idle
    have absent := (before.executed_eq_none_iff lib backend _).mp idle portal maxRows rfl
    rw [holds.portals, absent]
    rfl
  · intro clean front failed middle later back run error unsynced
    obtain ⟨before, holds, exact⟩ := answered front failed middle later back run
    rw [exact, before.executed_eq_none_iff lib backend]
    intro portal maxRows message
    have absent := clean front failed middle portal maxRows later.2 back
      (by rw [run, ← message]) error unsynced
    rw [holds.portals] at absent
    exact Option.map_eq_none_iff.mp absent

end

def showBackend : Backend Unit Unit where
  parseCached query := if query = "SHOW x" then .ok .show else .error "syntax error"
  executeParsedAs db txn _ _ := ((db, txn), .ok ⟨[.simple "x" oidText], [[some []]], "SHOW"⟩)
  beginTxn db := (db, ())
  commitTxn db _ := (db, .ok ())
  rollbackTxn db _ := db
  describeSelect _ _ := .error "no table"
  maxParamIndex _ := 0
  textCellToBinary _ _ := none

/-- The second `Parse` of the name fails, and `Bind` and `Execute` behind it run
the statement of the first. -/
def staleStatement : List ExtendedMessage :=
  [.parse "s" "SHOW x" [], .sync, .parse "s" "SHO x" [], .bind "" "s" [] [] [], .execute "" 0]

theorem pipeline_runs_after_error :
    ¬ ∀ (Db Txn : Type) (lib : Library) (backend : Backend Db Txn) (db : Db)
      (messages : List ExtendedMessage),
      StopsAfterError (Session.exchanges lib backend (.fresh db) messages) := by
  intro claimed
  have stops := claimed Unit Unit Library.basic showBackend () staleStatement
  have idle := stops [(.parse "s" "SHOW x" [], ⟨[.parseComplete], none⟩),
      (.sync, ⟨[.readyForQuery .idle], none⟩)]
    (.parse "s" "SHO x" [], ⟨[.errorResponse "42601" "syntax error"], none⟩)
    [(.bind "" "s" [] [] [], ⟨[.bindComplete], none⟩)]
    (.execute "" 0, ⟨[.dataRow [some []], .commandComplete "SHOW"], some .show⟩) [] rfl rfl
    (by decide)
  exact absurd idle (by simp)

end Pantheon.Wire
