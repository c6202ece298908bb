import Mathlib
import Pantheon.Lib.Runs
import Pantheon.Spine.AuditLog

/-!
# Concurrent appenders of the hash chain

An append locks the log twice: once to read the last hash and once to push the
record.  Any number of appenders take these steps in any order.
-/

set_option autoImplicit false

namespace Pantheon.Spine

open Pantheon.Lib

/-- The record an appender is about to push, and how long the log was when it read
the hash the record is linked to. -/
structure Prepared where
  event : AuditEvent
  seen : Nat

structure Appenders where
  log : List AuditEvent
  prepared : Nat → Option Prepared

inductive AppendStep where
  | read (appender : Nat) (event : AuditEvent)
  | push (appender : Nat)

namespace Appenders

def new : Appenders := ⟨[], fun _ => none⟩

/-- The first lock: the record is linked to the last hash. -/
def readLast (sha : Sha256) (state : Appenders) (appender : Nat) (event : AuditEvent) :
    Appenders where
  log := state.log
  prepared := Function.update state.prepared appender (some
    ⟨HashChainSink.chained sha (HashChainSink.lastHash state.log) event, state.log.length⟩)

def pushRecord (state : Appenders) (appender : Nat) (event : AuditEvent) : Appenders where
  log := match InMemoryAuditSink.append state.log event with
    | .ok log => log
    | .error _ => state.log
  prepared := Function.update state.prepared appender none

def step (sha : Sha256) (state : Appenders) : AppendStep → Option Appenders
  | .read appender event =>
      match state.prepared appender with
      | some _ => none
      | none => some (state.readLast sha appender event)
  | .push appender =>
      (state.prepared appender).map fun ready => state.pushRecord appender ready.event

/-- A record that the log takes is pushed while the log is as it was at the read. -/
def Undisturbed (state : Appenders) : AppendStep → Prop
  | .read _ _ => True
  | .push appender => ∀ ready, state.prepared appender = some ready →
      ready.event.action = "" ∨ ready.seen = state.log.length

variable {sha : Sha256}

variable {state : Appenders} {appender : Nat} {ready : Prepared}

theorem prepared_readLast {other : Nat} {event : AuditEvent}
    (held : (state.readLast sha appender event).prepared other = some ready) :
    ready = ⟨HashChainSink.chained sha (HashChainSink.lastHash state.log) event,
        state.log.length⟩ ∨ state.prepared other = some ready := by
  simp only [readLast, Function.update_apply] at held
  split_ifs at held with same
  · exact Or.inl (Option.some.inj held).symm
  · exact Or.inr held

theorem prepared_pushRecord {other : Nat} {event : AuditEvent}
    (held : (state.pushRecord appender event).prepared other = some ready) :
    state.prepared other = some ready := by
  simp only [pushRecord, Function.update_apply] at held
  split_ifs at held with same
  exact held

/-- The log is accepted, and a record prepared at its present length is linked to its end. -/
structure Valid (sha : Sha256) (state : Appenders) : Prop where
  accepted : verifyChain sha state.log = .ok ()
  seen_le : ∀ appender ready, state.prepared appender = some ready →
    ready.seen ≤ state.log.length
  linked : ∀ appender ready, state.prepared appender = some ready →
    ready.seen = state.log.length → Linked sha (HashChainSink.lastHash state.log) ready.event

theorem valid_new : Valid sha new := by
  constructor
  · rfl
  · intro appender ready held
    cases held
  · intro appender ready held
    cases held

theorem Valid.readLast (valid : Valid sha state) (appender : Nat)
    (event : AuditEvent) : Valid sha (state.readLast sha appender event) := by
  constructor
  · exact valid.accepted
  · intro other ready held
    rcases prepared_readLast held with rfl | held
    · exact le_rfl
    · exact valid.seen_le other ready held
  · intro other ready held fresh
    rcases prepared_readLast held with rfl | held
    · exact chained_linked _ event
    · exact valid.linked other ready held fresh

theorem Valid.pushRecord (valid : Valid sha state)
    (held : state.prepared appender = some ready)
    (undisturbed : ready.event.action = "" ∨ ready.seen = state.log.length) :
    Valid sha (state.pushRecord appender ready.event) := by
  by_cases rejected : ready.event.action = ""
  · have same : (state.pushRecord appender ready.event).log = state.log := by
      simp only [Appenders.pushRecord, InMemoryAuditSink.append, if_pos rejected]
    constructor
    · rw [same]
      exact valid.accepted
    · intro other waiting kept
      rw [same]
      exact valid.seen_le other waiting (prepared_pushRecord kept)
    · intro other waiting kept
      rw [same]
      exact valid.linked other waiting (prepared_pushRecord kept)
  · have grown : (state.pushRecord appender ready.event).log = state.log ++ [ready.event] := by
      simp only [Appenders.pushRecord, InMemoryAuditSink.append, if_neg rejected]
    have linked := valid.linked appender ready held (undisturbed.resolve_left rejected)
    rw [lastHash_of_accepted valid.accepted] at linked
    constructor
    · rw [grown]
      exact (verifyFrom_append_single _ _ _).mpr ⟨valid.accepted, linked⟩
    · intro other waiting kept
      have earlier := valid.seen_le other waiting (prepared_pushRecord kept)
      rw [grown, List.length_append, List.length_singleton]
      omega
    · -- what was prepared before the push was prepared at a shorter log
      intro other waiting kept late
      have earlier := valid.seen_le other waiting (prepared_pushRecord kept)
      rw [grown, List.length_append, List.length_singleton] at late
      omega

theorem Valid.step {next : Appenders} (valid : Valid sha state) (action : AppendStep)
    (undisturbed : state.Undisturbed action) (taken : state.step sha action = some next) :
    Valid sha next := by
  cases action with
  | read appender event =>
      cases held : state.prepared appender with
      | some ready =>
          simp only [Appenders.step, held] at taken
          cases taken
      | none =>
          simp only [Appenders.step, held] at taken
          cases Option.some.inj taken
          exact valid.readLast appender event
  | push appender =>
      obtain ⟨ready, held, rfl⟩ := Option.map_eq_some_iff.mp taken
      exact valid.pushRecord held (undisturbed ready held)

/-- If no record is pushed between an append's read and its push, the log stays accepted. -/
theorem undisturbed_log_accepted (sha : Sha256) (state : Appenders)
    (reached : Reaches (step sha) Undisturbed new state) :
    verifyChain sha state.log = .ok () := by
  have valid : Valid sha state := by
    apply Reaches.invariant (Valid sha) valid_new ?_ state reached
    intro before action next valid undisturbed taken
    exact valid.step action undisturbed taken
  exact valid.accepted

/-! ## Two appenders -/

theorem genesisPrev_ne_chainHash (prev : String) (event : AuditEvent) :
    genesisPrev ≠ chainHash sha prev event := by
  intro same
  have lengths := congrArg (fun text => (utf8Bytes text).length) same
  simp only [chainHash, length_utf8Bytes_lowerHex, sha.length_digest] at lengths
  revert lengths
  decide

def firstRecord : AuditEvent :=
  ⟨"1", 1, "svc-a", "write", "keystone:user/42", .allow, OrdMap.empty⟩

def secondRecord : AuditEvent :=
  ⟨"2", 2, "svc-b", "delete", "keystone:user/42", .deny, OrdMap.empty⟩

def bothReadFirst : List AppendStep :=
  [.read 0 firstRecord, .read 1 secondRecord, .push 0, .push 1]

theorem both_read_first_reaches (sha : Sha256) :
    ∃ state, Reaches (step sha) (fun _ _ => True) new state ∧
      state.log = [HashChainSink.chained sha genesisPrev firstRecord,
        HashChainSink.chained sha genesisPrev secondRecord] := by
  refine ⟨_, runChecked_reaches (fun _ _ => true) (fun _ _ _ => trivial) bothReadFirst new _ rfl,
    rfl⟩

/-- Whatever the hash, the second record is linked to the start of the log. -/
theorem both_read_first_breaks_chain :
    ¬∃ sha : Sha256, ∀ state, Reaches (step sha) (fun _ _ => True) new state →
      verifyChain sha state.log = .ok () := by
  rintro ⟨sha, accepted⟩
  obtain ⟨state, reached, log⟩ := both_read_first_reaches sha
  have valid := accepted state reached
  rw [log, verifyChain, verifyFrom_cons, verifyFrom_cons] at valid
  have linked := (@chained_linked sha genesisPrev secondRecord).prev_eq
  rw [valid.2.1.prev_eq] at linked
  exact genesisPrev_ne_chainHash _ _ linked.symm

def firstDigest : Bytes :=
  [73, 113, 31, 186, 228, 103, 95, 229, 131, 78, 139, 63, 6, 137, 144, 92,
    126, 60, 172, 190, 193, 240, 229, 1, 34, 63, 59, 199, 165, 78, 19, 185]

def secondDigest : Bytes :=
  [97, 7, 83, 221, 38, 105, 23, 131, 96, 231, 112, 17, 224, 237, 58, 171,
    159, 230, 158, 174, 121, 5, 164, 187, 227, 53, 180, 175, 86, 182, 202, 121]

def knownDigests : Sha256 where
  digest content :=
    if content = firstRecord.hashed genesisPrev then firstDigest
    else if content = secondRecord.hashed (lowerHex firstDigest) then secondDigest
    else List.replicate 32 0
  length_digest content := by
    split_ifs <;> rfl

theorem one_after_other_accepted :
    verifyChain knownDigests
      [HashChainSink.chained knownDigests genesisPrev firstRecord,
        HashChainSink.chained knownDigests (lowerHex firstDigest) secondRecord] = .ok () := by
  have first : Reaches (step knownDigests) Undisturbed new
      ((new.readLast knownDigests 0 firstRecord).pushRecord 0
        (HashChainSink.chained knownDigests genesisPrev firstRecord)) := by
    apply Reaches.step (.push 0)
    · apply Reaches.step (.read 0 firstRecord) Reaches.refl trivial
      rfl
    · intro ready held
      cases Option.some.inj held
      exact Or.inr rfl
    · rfl
  have both := first.trans (Reaches.step (.push 1) (Reaches.step (.read 1 secondRecord)
    Reaches.refl trivial rfl) (fun ready held => by cases held; exact Or.inr rfl) rfl)
  exact undisturbed_log_accepted knownDigests _ both

end Appenders

end Pantheon.Spine
