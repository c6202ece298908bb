import Mathlib
import Pantheon.Wire.Session

/-!
# Fetching a portal in pages

An `Execute` runs the statement of its portal again and sends the first rows of the
result.  No portal keeps a position, so the pages of a client that sends several all
begin at the first row.
-/

set_option autoImplicit false

namespace Pantheon.Wire

open Pantheon.Lib Pantheon.Sql

def BackendMessage.row? : BackendMessage → Option Row
  | .dataRow row => some row
  | _ => none

def BackendMessage.isComplete : BackendMessage → Bool
  | .commandComplete _ => true
  | _ => false

/-- Whether the answer ends with `CommandComplete`. -/
def Answer.completes (answer : Answer) : Bool := answer.replies.any BackendMessage.isComplete

def sentRows (answers : List Answer) : List Row :=
  answers.flatMap fun answer => answer.replies.filterMap BackendMessage.row?

theorem sentRows_cons (answer : Answer) (answers : List Answer) :
    sentRows (answer :: answers) =
      answer.replies.filterMap BackendMessage.row? ++ sentRows answers :=
  List.flatMap_cons

theorem sentRows_append (front back : List Answer) :
    sentRows (front ++ back) = sentRows front ++ sentRows back :=
  List.flatMap_append

/-- Up to the first answer with `CommandComplete`, exactly these rows are sent. -/
def DeliversOnce (rows : List Row) (answers : List Answer) : Prop :=
  ∀ front last back, answers = front ++ last :: back →
    (∀ answer ∈ front, answer.completes = false) → last.completes = true →
    sentRows (front ++ [last]) = rows

/-! ## Answers that begin at the first row -/

/-- Every answer sends the first rows, and completes when these are all. -/
structure StartsOver (rows : List Row) (page : Int → Answer) : Prop where
  sent : ∀ limit, 0 < limit → sentRows [page limit] = rows.take limit.toNat
  completes : ∀ limit, 0 < limit → ((page limit).completes = true ↔ (rows.length : Int) ≤ limit)

section

variable {rows : List Row} {page : Int → Answer}

theorem StartsOver.sent_all (starts : StartsOver rows page) {limit : Int} (positive : 0 < limit)
    (covers : (rows.length : Int) ≤ limit) : sentRows [page limit] = rows := by
  rw [starts.sent limit positive, List.take_of_length_le]
  omega

theorem StartsOver.eq_nil_of_sent (starts : StartsOver rows page) {limits : List Int}
    (positive : ∀ limit ∈ limits, 0 < limit)
    (suspended : ∀ limit ∈ limits, limit < (rows.length : Int))
    (nothing : sentRows (limits.map page) = []) : limits = [] := by
  cases limits with
  | nil => rfl
  | cons limit limits =>
      have lower : 0 < limit := positive limit (List.mem_cons_self ..)
      have upper : limit < (rows.length : Int) := suspended limit (List.mem_cons_self ..)
      have first := starts.sent limit lower
      have split : sentRows ((limit :: limits).map page) =
          rows.take limit.toNat ++ sentRows (limits.map page) := by
        rw [List.map_cons, ← List.singleton_append, sentRows_append, first]
      have none_sent := congrArg List.length (split.symm.trans nothing)
      rw [List.length_append, List.length_take, List.length_nil] at none_sent
      omega

theorem exists_first_covering {limits : List Int} {bound : Int}
    (some_ : ∃ limit ∈ limits, bound ≤ limit) : ∃ front last back,
      limits = front ++ last :: back ∧ (∀ limit ∈ front, limit < bound) ∧ bound ≤ last := by
  induction limits with
  | nil =>
      obtain ⟨_, member, _⟩ := some_
      exact absurd member (List.not_mem_nil)
  | cons limit limits ih =>
      by_cases covers : bound ≤ limit
      · exact ⟨[], limit, limits, rfl, by simp, covers⟩
      · have later : ∃ limit ∈ limits, bound ≤ limit := by
          obtain ⟨other, member, large⟩ := some_
          rcases List.mem_cons.mp member with rfl | member
          · exact absurd large covers
          · exact ⟨other, member, large⟩
        obtain ⟨front, last, back, rfl, small, large⟩ := ih later
        refine ⟨limit :: front, last, back, rfl, ?_, large⟩
        exact List.forall_mem_cons.mpr ⟨Int.not_le.mp covers, small⟩

/-- The rows arrive once exactly if no page that covers them comes behind one that
does not. -/
theorem StartsOver.deliversOnce_iff (starts : StartsOver rows page) {limits : List Int}
    (positive : ∀ limit ∈ limits, 0 < limit) :
    DeliversOnce rows (limits.map page) ↔
      ((∃ limit ∈ limits, (rows.length : Int) ≤ limit) →
        ∃ first ∈ limits.head?, (rows.length : Int) ≤ first) := by
  constructor
  · intro delivers covered
    obtain ⟨front, last, back, rfl, small, large⟩ := exists_first_covering covered
    have frontPositive : ∀ limit ∈ front, 0 < limit := fun limit member =>
      positive limit (List.mem_append_left _ member)
    have lastPositive : 0 < last := positive last (by simp)
    have sent := delivers (front.map page) (page last) (back.map page) (by simp)
      (by
        intro answer member
        obtain ⟨limit, listed, rfl⟩ := List.mem_map.mp member
        rw [Bool.eq_false_iff, ne_eq, starts.completes limit (frontPositive limit listed)]
        exact Int.not_le.mpr (small limit listed))
      ((starts.completes last lastPositive).mpr large)
    rw [sentRows_append, starts.sent_all lastPositive large] at sent
    have nothing : sentRows (front.map page) = [] := List.append_left_eq_self.mp sent
    have empty := starts.eq_nil_of_sent frontPositive small nothing
    subst empty
    exact ⟨last, rfl, large⟩
  · intro head front last back split suspended done
    obtain ⟨frontLimits, others, rfl, rfl, mapped⟩ := List.map_eq_append_iff.mp split
    obtain ⟨limit, backLimits, rfl, rfl, rfl⟩ := List.map_eq_cons_iff.mp mapped
    have limitPositive : 0 < limit := positive limit (by simp)
    have large := (starts.completes limit limitPositive).mp done
    obtain ⟨first, isFirst, covers⟩ := head ⟨limit, by simp, large⟩
    cases frontLimits with
    | nil => exact starts.sent_all limitPositive large
    | cons other frontLimits =>
        obtain rfl : other = first := Option.some.inj isFirst
        have early := suspended (page other) (by simp)
        have completed := (starts.completes other (positive other (by simp))).mpr covers
        rw [early] at completed
        exact absurd completed (by simp)

end

/-! ## The pages of a portal -/

section

variable {Db Txn : Type} (lib : Library) (backend : Backend Db Txn)

def resultRows (portal : Portal) (result : QueryResult) : List Row :=
  let oids := result.fields.map FieldDescription.typeOid
  result.rows.map fun row =>
    encodeResultRow backend row oids (resolveResultFormats portal.resultFormats oids)

/-- The answer to one `Execute` of the portal. -/
def portalPage (portal : Portal) (result : QueryResult) (limit : Int) : Answer :=
  ⟨resultMessages backend portal limit result, some portal.stmt⟩

theorem filterMap_dataRow (rows : List Row) :
    (rows.map BackendMessage.dataRow).filterMap BackendMessage.row? = rows := by
  rw [List.filterMap_map]
  exact List.filterMap_some

theorem resultMessages_eq (portal : Portal) (result : QueryResult) (limit : Int) :
    resultMessages backend portal limit result =
      if 0 < limit ∧ limit < result.rows.length then
        ((resultRows backend portal result).take limit.toNat).map .dataRow ++ [.portalSuspended]
      else (resultRows backend portal result).map .dataRow ++ [.commandComplete result.tag] := by
  unfold resultMessages resultRows
  by_cases limited : 0 < limit ∧ limit < result.rows.length
  · simp only [limited, and_self, if_true, ← List.map_take, List.map_map]
    rfl
  · simp only [limited, if_false, List.map_map]
    rfl

theorem startsOver_portalPage (portal : Portal) (result : QueryResult) :
    StartsOver (resultRows backend portal result) (portalPage backend portal result) := by
  have length : (resultRows backend portal result).length = result.rows.length :=
    List.length_map _
  have noRow : ∀ message : BackendMessage, message.row? = none →
      [message].filterMap BackendMessage.row? = [] := fun message none_ => by
    rw [List.filterMap_cons_none none_, List.filterMap_nil]
  have notComplete : ∀ rows : List Row,
      (rows.map BackendMessage.dataRow).any BackendMessage.isComplete = false := by
    intro rows
    rw [List.any_map, List.any_eq_false]
    intro row _
    exact Bool.false_ne_true
  refine ⟨fun limit positive => ?_, fun limit positive => ?_⟩
  · rw [sentRows_cons, portalPage, resultMessages_eq]
    change _ ++ [] = _
    rw [List.append_nil]
    by_cases limited : limit < result.rows.length
    · rw [if_pos ⟨positive, limited⟩, List.filterMap_append, filterMap_dataRow,
        noRow .portalSuspended rfl, List.append_nil]
    · rw [if_neg (fun both => limited both.2), List.filterMap_append, filterMap_dataRow,
        noRow (.commandComplete result.tag) rfl, List.append_nil, List.take_of_length_le]
      omega
  · rw [Answer.completes, portalPage, resultMessages_eq, length]
    by_cases limited : limit < result.rows.length
    · rw [if_pos ⟨positive, limited⟩, List.any_append, notComplete]
      simpa [BackendMessage.isComplete] using limited
    · rw [if_neg (fun both => limited both.2), List.any_append, notComplete]
      simpa [BackendMessage.isComplete] using limited

namespace Session

variable {session : Session Db Txn} {name : String} {query : SelectStmt} {params : List Value}
  {formats : List Int} {result : QueryResult}

theorem handle_execute_select (bound : session.portals.get? name =
      some ⟨.select query, params, formats⟩)
    (reads : backend.executeParsedAs session.db session.txn (.select query) params =
      ((session.db, session.txn), .ok result)) (limit : Int) :
    session.handle lib backend (.execute name limit) =
      (session, portalPage backend ⟨.select query, params, formats⟩ result limit) := by
  simp only [handle, handleExecute, bound, runPortal, reads]
  rfl

theorem exchanges_execute_select (bound : session.portals.get? name =
      some ⟨.select query, params, formats⟩)
    (reads : backend.executeParsedAs session.db session.txn (.select query) params =
      ((session.db, session.txn), .ok result)) (limits : List Int) :
    (session.exchanges lib backend (limits.map (.execute name))).map Prod.snd =
      limits.map (portalPage backend ⟨.select query, params, formats⟩ result) := by
  induction limits with
  | nil => rfl
  | cons limit limits ih =>
      rw [List.map_cons, exchanges, handle_execute_select lib backend bound reads limit,
        List.map_cons, ih, List.map_cons]

/-- The pages of a portal deliver its rows once exactly if no `Execute` that asks for as
many rows as there are comes behind a first one that asks for fewer. -/
theorem portal_delivers_iff (bound : session.portals.get? name =
      some ⟨.select query, params, formats⟩)
    (reads : backend.executeParsedAs session.db session.txn (.select query) params =
      ((session.db, session.txn), .ok result)) {limits : List Int}
    (positive : ∀ limit ∈ limits, 0 < limit) :
    DeliversOnce (resultRows backend ⟨.select query, params, formats⟩ result)
        ((session.exchanges lib backend (limits.map (.execute name))).map Prod.snd) ↔
      ((∃ limit ∈ limits, (result.rows.length : Int) ≤ limit) →
        ∃ first ∈ limits.head?, (result.rows.length : Int) ≤ first) := by
  have length : (resultRows backend ⟨.select query, params, formats⟩ result).length =
      result.rows.length := List.length_map _
  rw [exchanges_execute_select lib backend bound reads limits,
    (startsOver_portalPage backend _ result).deliversOnce_iff positive, length]

end Session

end

def twoRowBackend : Backend Unit Unit where
  parseCached _ := .error "syntax error"
  executeParsedAs db txn _ _ :=
    ((db, txn), .ok ⟨[.simple "x" oidText], [[some [1]], [some [2]]], "SELECT 2"⟩)
  beginTxn db := (db, ())
  commitTxn db _ := (db, .ok ())
  rollbackTxn db _ := db
  describeSelect _ _ := .error "no table"
  maxParamIndex _ := 0
  textCellToBinary _ _ := none

def starQuery : SelectStmt where
  ctes := []
  distinct := false
  projections := [.wildcard]
  from_ := none
  where_ := none
  groupBy := []
  having := none
  orderBy := []
  limit := none
  offset := none
  union := none

def starSession : Session Unit Unit :=
  { Session.fresh () with portals := OrdMap.empty.insert "" ⟨.select starQuery, [], []⟩ }

theorem two_rows_in_one_page :
    DeliversOnce [[some [1]], [some [2]]]
      ((starSession.exchanges Library.basic twoRowBackend [.execute "" 2]).map Prod.snd) := by
  have bound : starSession.portals.get? "" = some ⟨.select starQuery, [], []⟩ := rfl
  have positive : ∀ limit ∈ ([2] : List Int), 0 < limit := by decide
  exact (Session.portal_delivers_iff Library.basic twoRowBackend bound rfl positive).mpr
    fun _ => ⟨2, rfl, by decide⟩

theorem second_page_repeats_first :
    ¬ DeliversOnce [[some [1]], [some [2]]]
      ((starSession.exchanges Library.basic twoRowBackend
        [.execute "" 1, .execute "" 2]).map Prod.snd) := by
  intro delivers
  have sent := delivers [⟨[.dataRow [some [1]], .portalSuspended], some (.select starQuery)⟩]
    ⟨[.dataRow [some [1]], .dataRow [some [2]], .commandComplete "SELECT 2"],
      some (.select starQuery)⟩ [] rfl (by simp [Answer.completes, BackendMessage.isComplete])
    rfl
  exact absurd sent (by decide)

end Pantheon.Wire
