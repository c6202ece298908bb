import Mathlib
import Pantheon.Lib.Bytes
import Pantheon.Lib.Hex
import Pantheon.Lib.OrdMap

/-!
# The audit log and its hash chain

A record carries in its metadata the hash of the record before it and its own,
which covers that hash and the content of the record.  SHA-256 is a parameter.
-/

set_option autoImplicit false

namespace Pantheon.Spine

open Pantheon.Lib

inductive AuditOutcome where
  | allow
  | deny
  | error
deriving DecidableEq

structure AuditEvent where
  id : String
  tsUnixNanos : UInt64
  actor : String
  action : String
  target : String
  outcome : AuditOutcome
  metadata : OrdMap String String

inductive AuditError where
  | backend (message : String)
  | rejected (message : String)
deriving DecidableEq

inductive ChainError where
  | missingHash (id : String)
  | hashMismatch (id recomputed stored : String)
  | brokenLink (id expected found : String)
deriving DecidableEq

structure Sha256 where
  digest : Bytes → Bytes
  length_digest : ∀ content, (digest content).length = 32

def chainHashKey : String := "_chain_hash"

def chainPrevKey : String := "_chain_prev"

def genesisPrev : String := "0"

namespace AuditOutcome

def code : AuditOutcome → Nat
  | allow => 0
  | deny => 1
  | error => 2

theorem code_lt (outcome : AuditOutcome) : outcome.code < 256 ^ 4 := by
  cases outcome <;> decide

theorem code_injective : Function.Injective code := by
  intro left right same
  cases left <;> cases right <;> first | rfl | cases same

end AuditOutcome

namespace AuditEvent

def content (event : AuditEvent) : List (String × String) :=
  event.metadata.toList.filter fun entry =>
    decide (entry.1 ≠ chainHashKey ∧ entry.1 ≠ chainPrevKey)

def storedHash (event : AuditEvent) : Option String := event.metadata.get? chainHashKey

def storedPrev (event : AuditEvent) : String :=
  (event.metadata.get? chainPrevKey).getD genesisPrev

def hashed (prev : String) (event : AuditEvent) : Bytes :=
  utf8Bytes prev ++ (utf8Bytes event.id ++ ((beBytes 8 event.tsUnixNanos.toNat).reverse ++
    (utf8Bytes event.actor ++ (utf8Bytes event.action ++ (utf8Bytes event.target ++
      ((beBytes 4 event.outcome.code).reverse ++
        event.content.flatMap fun entry => utf8Bytes entry.1 ++ utf8Bytes entry.2))))))

end AuditEvent

/-- The chain entries of the metadata are not hashed. -/
def chainHash (sha : Sha256) (prev : String) (event : AuditEvent) : String :=
  lowerHex (sha.digest (event.hashed prev))

def verifyFrom (sha : Sha256) (prev : String) : List AuditEvent → Except ChainError Unit
  | [] => .ok ()
  | event :: rest =>
      match event.storedHash with
      | none => .error (.missingHash event.id)
      | some stored =>
          if event.storedPrev ≠ prev then
            .error (.brokenLink event.id prev event.storedPrev)
          else if chainHash sha event.storedPrev event ≠ stored then
            .error (.hashMismatch event.id (chainHash sha event.storedPrev event) stored)
          else verifyFrom sha stored rest

def verifyChain (sha : Sha256) (events : List AuditEvent) : Except ChainError Unit :=
  verifyFrom sha genesisPrev events

namespace InMemoryAuditSink

def append (events : List AuditEvent) (event : AuditEvent) :
    Except AuditError (List AuditEvent) :=
  if event.action = "" then .error (.rejected "action must not be empty")
  else .ok (events ++ [event])

end InMemoryAuditSink

namespace HashChainSink

def lastHash (events : List AuditEvent) : String :=
  (events.getLast?.bind AuditEvent.storedHash).getD genesisPrev

/-- A record with the chain entries that link it to `prev`. -/
def chained (sha : Sha256) (prev : String) (event : AuditEvent) : AuditEvent :=
  let plain := (event.metadata.erase chainPrevKey).erase chainHashKey
  let hash := chainHash sha prev { event with metadata := plain }
  { event with metadata := (plain.insert chainPrevKey prev).insert chainHashKey hash }

def append (sha : Sha256) (events : List AuditEvent) (event : AuditEvent) :
    Except AuditError (List AuditEvent) :=
  InMemoryAuditSink.append events (chained sha (lastHash events) event)

end HashChainSink

/-! ## What the verifier accepts -/

variable {sha : Sha256}

/-- A record is linked to `prev` and carries the hash of its content. -/
structure Linked (sha : Sha256) (prev : String) (event : AuditEvent) : Prop where
  prev_eq : event.storedPrev = prev
  hash_eq : event.storedHash = some (chainHash sha prev event)

theorem verifyFrom_cons (prev : String) (event : AuditEvent) (rest : List AuditEvent) :
    verifyFrom sha prev (event :: rest) = .ok () ↔
      Linked sha prev event ∧ verifyFrom sha (chainHash sha prev event) rest = .ok () := by
  rw [verifyFrom]
  constructor
  · intro accepted
    cases stored : event.storedHash with
    | none => rw [stored] at accepted; cases accepted
    | some hash =>
        rw [stored] at accepted
        dsimp only at accepted
        split_ifs at accepted with broken mismatch
        have prevExact := not_not.mp broken
        have hashExact := not_not.mp mismatch
        rw [prevExact] at hashExact
        subst hashExact
        exact ⟨⟨prevExact, stored⟩, accepted⟩
  · rintro ⟨⟨prevExact, hashExact⟩, accepted⟩
    rw [hashExact]
    dsimp only
    rw [prevExact, if_neg (not_not.mpr rfl), if_neg (not_not.mpr rfl)]
    exact accepted

def nextPrev (sha : Sha256) (prev : String) (events : List AuditEvent) : String :=
  events.foldl (chainHash sha) prev

theorem verifyFrom_append_single (events : List AuditEvent) (event : AuditEvent) :
    ∀ prev, verifyFrom sha prev (events ++ [event]) = .ok () ↔
      verifyFrom sha prev events = .ok () ∧ Linked sha (nextPrev sha prev events) event := by
  induction events with
  | nil =>
      intro prev
      rw [List.nil_append, verifyFrom_cons]
      exact and_comm
  | cons first rest ih =>
      intro prev
      rw [List.cons_append, verifyFrom_cons, verifyFrom_cons, ih, and_assoc]
      rfl

theorem lastHash_of_accepted {events : List AuditEvent}
    (accepted : verifyChain sha events = .ok ()) :
    HashChainSink.lastHash events = nextPrev sha genesisPrev events := by
  induction events using List.reverseRecOn with
  | nil => rfl
  | append_singleton events event _ =>
      have linked := ((verifyFrom_append_single events event genesisPrev).mp accepted).2
      unfold HashChainSink.lastHash nextPrev
      rw [List.getLast?_append_of_ne_nil _ (List.cons_ne_nil _ _), List.foldl_concat]
      simp only [List.getLast?_singleton, Option.bind_some, linked.hash_eq, Option.getD_some]
      rfl

theorem content_sorted (event : AuditEvent) :
    event.content.Pairwise fun one other => one.1 < other.1 :=
  event.metadata.sorted.filter _

theorem content_insert_hidden (event : AuditEvent) (metadata : OrdMap String String)
    {key value : String} (hidden : key = chainHashKey ∨ key = chainPrevKey) :
    { event with metadata := metadata.insert key value }.content =
      { event with metadata := metadata }.content := by
  apply OrdMap.sorted_ext (content_sorted _) (content_sorted _)
  intro entry
  simp only [AuditEvent.content, List.mem_filter, OrdMap.mem_insert, decide_eq_true_eq]
  constructor
  · rintro ⟨rfl | ⟨member, _⟩, visible⟩
    · rcases hidden with rfl | rfl
      · exact absurd rfl visible.1
      · exact absurd rfl visible.2
    · exact ⟨member, visible⟩
  · rintro ⟨member, visible⟩
    refine ⟨Or.inr ⟨member, ?_⟩, visible⟩
    rcases hidden with rfl | rfl
    · exact visible.1
    · exact visible.2

theorem chainHash_congr {left right : AuditEvent} (prev : String)
    (same : left.hashed prev = right.hashed prev) :
    chainHash sha prev left = chainHash sha prev right := by
  unfold chainHash
  rw [same]

theorem chained_linked (prev : String) (event : AuditEvent) :
    Linked sha prev (HashChainSink.chained sha prev event) := by
  have apart : chainPrevKey ≠ chainHashKey := by decide
  constructor
  · unfold HashChainSink.chained AuditEvent.storedPrev
    rw [OrdMap.get?_insert, if_neg apart, OrdMap.get?_insert, if_pos rfl, Option.getD_some]
  · unfold HashChainSink.chained AuditEvent.storedHash
    dsimp only
    rw [OrdMap.get?_insert, if_pos rfl]
    congr 1
    apply chainHash_congr
    unfold AuditEvent.hashed
    dsimp only
    rw [content_insert_hidden event _ (Or.inl rfl), content_insert_hidden event _ (Or.inr rfl)]

end Pantheon.Spine
