import Mathlib
import Pantheon.Spine.Appenders

/-!
# What the final hash of a log determines

The fields of a record are hashed one behind the other, without their lengths.
Two accepted logs of one length with one final hash hash the same bytes record
by record; whether the records are the same depends on where the fields end.
-/

set_option autoImplicit false

namespace Pantheon.Spine

open Pantheon.Lib

/-- The fields of a record other than its links. -/
structure Content where
  id : String
  tsUnixNanos : UInt64
  actor : String
  action : String
  target : String
  outcome : AuditOutcome
  metadata : List (String × String)
deriving DecidableEq

/-- Where the fields of variable length end. -/
structure Layout where
  id : Nat
  actor : Nat
  action : Nat
  target : Nat
  metadata : List (Nat × Nat)
deriving DecidableEq

def byteLength (text : String) : Nat := (utf8Bytes text).length

namespace AuditEvent

def contents (event : AuditEvent) : Content :=
  ⟨event.id, event.tsUnixNanos, event.actor, event.action, event.target, event.outcome,
    event.content⟩

def layout (event : AuditEvent) : Layout :=
  ⟨byteLength event.id, byteLength event.actor, byteLength event.action, byteLength event.target,
    event.content.map fun entry => (byteLength entry.1, byteLength entry.2)⟩

end AuditEvent

def SameContents (left right : List AuditEvent) : Prop :=
  left.map AuditEvent.contents = right.map AuditEvent.contents

def SameLayouts (left right : List AuditEvent) : Prop :=
  left.map AuditEvent.layout = right.map AuditEvent.layout

def CollisionFree (sha : Sha256) (left right : List AuditEvent) : Prop :=
  ∀ one ∈ left ++ right, ∀ other ∈ left ++ right,
    sha.digest (one.hashed one.storedPrev) = sha.digest (other.hashed other.storedPrev) →
      one.hashed one.storedPrev = other.hashed other.storedPrev

/-! ## One record -/

theorem utf8Bytes_append_inj {left right : String} {leftRest rightRest : Bytes}
    (same : utf8Bytes left ++ leftRest = utf8Bytes right ++ rightRest)
    (lengths : byteLength left = byteLength right) : left = right ∧ leftRest = rightRest := by
  obtain ⟨texts, rest⟩ := List.append_inj same lengths
  exact ⟨utf8Bytes_injective texts, rest⟩

theorem reverse_beBytes_append_inj {width left right : Nat} {leftRest rightRest : Bytes}
    (leftSmall : left < 256 ^ width) (rightSmall : right < 256 ^ width)
    (same : (beBytes width left).reverse ++ leftRest = (beBytes width right).reverse ++ rightRest) :
    left = right ∧ leftRest = rightRest := by
  have lengths : (beBytes width left).reverse.length = (beBytes width right).reverse.length := by
    simp
  obtain ⟨numbers, rest⟩ := List.append_inj same lengths
  refine ⟨?_, rest⟩
  rw [← ofBe_beBytes_of_lt width left leftSmall, List.reverse_injective numbers,
    ofBe_beBytes_of_lt width right rightSmall]

theorem entries_inj (left : List (String × String)) : ∀ right : List (String × String),
    (left.flatMap fun entry => utf8Bytes entry.1 ++ utf8Bytes entry.2) =
      (right.flatMap fun entry => utf8Bytes entry.1 ++ utf8Bytes entry.2) →
    (left.map fun entry => (byteLength entry.1, byteLength entry.2)) =
      (right.map fun entry => (byteLength entry.1, byteLength entry.2)) →
    left = right := by
  induction left with
  | nil =>
      intro right _ lengths
      exact (List.map_eq_nil_iff.mp lengths.symm).symm
  | cons one left ih =>
      intro right same lengths
      cases right with
      | nil => cases lengths
      | cons other right =>
          rw [List.map_cons, List.map_cons, List.cons.injEq] at lengths
          obtain ⟨here, later⟩ := lengths
          obtain ⟨keyLength, valueLength⟩ := Prod.mk.inj here
          rw [List.flatMap_cons, List.flatMap_cons, List.append_assoc, List.append_assoc] at same
          obtain ⟨key, same⟩ := utf8Bytes_append_inj same keyLength
          obtain ⟨value, same⟩ := utf8Bytes_append_inj same valueLength
          rw [Prod.ext key value, ih right same later]

theorem contents_of_hashed {left right : AuditEvent} {leftPrev rightPrev : String}
    (same : left.hashed leftPrev = right.hashed rightPrev)
    (prevLength : byteLength leftPrev = byteLength rightPrev)
    (layout : left.layout = right.layout) :
    leftPrev = rightPrev ∧ left.contents = right.contents := by
  unfold AuditEvent.layout at layout
  obtain ⟨idLength, actorLength, actionLength, targetLength, metadataLength⟩ :=
    Layout.mk.inj layout
  unfold AuditEvent.hashed at same
  obtain ⟨prev, same⟩ := utf8Bytes_append_inj same prevLength
  obtain ⟨id, same⟩ := utf8Bytes_append_inj same idLength
  obtain ⟨time, same⟩ := reverse_beBytes_append_inj left.tsUnixNanos.toNat_lt
    right.tsUnixNanos.toNat_lt same
  obtain ⟨actor, same⟩ := utf8Bytes_append_inj same actorLength
  obtain ⟨action, same⟩ := utf8Bytes_append_inj same actionLength
  obtain ⟨target, same⟩ := utf8Bytes_append_inj same targetLength
  obtain ⟨outcome, same⟩ := reverse_beBytes_append_inj left.outcome.code_lt
    right.outcome.code_lt same
  have metadata := entries_inj left.content right.content same metadataLength
  refine ⟨prev, ?_⟩
  unfold AuditEvent.contents
  rw [id, UInt64.toNat_inj.mp time, actor, action, target,
    AuditOutcome.code_injective outcome, metadata]

/-! ## The whole log -/

variable {sha : Sha256}

theorem verifyFrom_hash (prev : String) (events : List AuditEvent) (event : AuditEvent)
    (accepted : verifyFrom sha prev (events ++ [event]) = .ok ()) :
    verifyFrom sha prev events = .ok () ∧ event.storedPrev = nextPrev sha prev events ∧
      HashChainSink.lastHash (events ++ [event]) = chainHash sha event.storedPrev event := by
  obtain ⟨before, linked⟩ := (verifyFrom_append_single events event prev).mp accepted
  refine ⟨before, linked.prev_eq, ?_⟩
  unfold HashChainSink.lastHash
  rw [List.getLast?_append_of_ne_nil _ (List.cons_ne_nil _ _)]
  simp only [List.getLast?_singleton, Option.bind_some, linked.hash_eq, Option.getD_some,
    linked.prev_eq]

theorem byteLength_nextPrev (events : List AuditEvent) (nonempty : events ≠ []) (prev : String) :
    byteLength (nextPrev sha prev events) = 64 := by
  induction events using List.reverseRecOn with
  | nil => exact absurd rfl nonempty
  | append_singleton events event _ =>
      unfold nextPrev
      rw [List.foldl_concat, byteLength, chainHash, length_utf8Bytes_lowerHex, sha.length_digest]

theorem CollisionFree.init {left right : List AuditEvent} {one other : AuditEvent}
    (free : CollisionFree sha (left ++ [one]) (right ++ [other])) :
    CollisionFree sha left right := by
  have inside : ∀ event ∈ left ++ right, event ∈ left ++ [one] ++ (right ++ [other]) := by
    intro event member
    simp only [List.mem_append] at member ⊢
    rcases member with member | member
    · exact Or.inl (Or.inl member)
    · exact Or.inr (Or.inl member)
  intro first firstMember second secondMember
  exact free first (inside first firstMember) second (inside second secondMember)

/-- The final hash determines what was hashed: from the last record backwards, the
lengths of the links are known and with them the links. -/
theorem contents_of_layouts (left : List AuditEvent) : ∀ right : List AuditEvent,
    verifyChain sha left = .ok () → verifyChain sha right = .ok () →
    HashChainSink.lastHash left = HashChainSink.lastHash right → CollisionFree sha left right →
    SameLayouts left right → SameContents left right := by
  induction left using List.reverseRecOn with
  | nil =>
      intro right _ _ _ _ layouts
      have none : right = [] := List.map_eq_nil_iff.mp layouts.symm
      rw [none]
      rfl
  | append_singleton left one ih =>
      intro right leftAccepted rightAccepted lastHash free layouts
      cases right using List.reverseRecOn with
      | nil => exact absurd (List.map_eq_nil_iff.mp layouts) (by simp)
      | append_singleton right other =>
          unfold SameLayouts at layouts
          rw [List.map_append, List.map_append, List.map_singleton, List.map_singleton] at layouts
          obtain ⟨before, last⟩ := List.append_inj' layouts rfl
          obtain ⟨leftBefore, leftPrev, leftHash⟩ := verifyFrom_hash _ _ _ leftAccepted
          obtain ⟨rightBefore, rightPrev, rightHash⟩ := verifyFrom_hash _ _ _ rightAccepted
          rw [leftHash, rightHash] at lastHash
          have hashed := free one (by simp) other (by simp) (lowerHex_injective lastHash)
          have counts : left.length = right.length := by
            simpa using congrArg List.length before
          have prevLength : byteLength one.storedPrev = byteLength other.storedPrev := by
            rw [leftPrev, rightPrev]
            by_cases none : left = []
            · have otherNone : right = [] :=
                List.length_eq_zero_iff.mp (counts ▸ List.length_eq_zero_iff.mpr none)
              rw [none, otherNone]
            · have otherSome : right ≠ [] := by
                intro otherNone
                exact none (List.length_eq_zero_iff.mp (by rw [counts, otherNone]; rfl))
              rw [byteLength_nextPrev left none, byteLength_nextPrev right otherSome]
          obtain ⟨prev, contents⟩ := contents_of_hashed hashed prevLength
            (List.singleton_inj.mp last)
          rw [leftPrev, rightPrev, ← lastHash_of_accepted leftBefore,
            ← lastHash_of_accepted rightBefore] at prev
          have earlier := ih right leftBefore rightBefore prev free.init before
          unfold SameContents at earlier ⊢
          rw [List.map_append, List.map_append, List.map_singleton, List.map_singleton, earlier,
            contents]

theorem layouts_of_contents {left right : List AuditEvent} (same : SameContents left right) :
    SameLayouts left right := by
  have through : ∀ events : List AuditEvent, events.map AuditEvent.layout =
      (events.map AuditEvent.contents).map fun content =>
        ⟨byteLength content.id, byteLength content.actor, byteLength content.action,
          byteLength content.target,
          content.metadata.map fun entry => (byteLength entry.1, byteLength entry.2)⟩ := by
    intro events
    rw [List.map_map]
    rfl
  unfold SameLayouts
  rw [through left, through right, same]

/-- Two accepted logs with one final hash agree on every field exactly when their
fields end at the same places. -/
theorem tamper_evident_iff (sha : Sha256) (left right : List AuditEvent)
    (leftAccepted : verifyChain sha left = .ok ()) (rightAccepted : verifyChain sha right = .ok ())
    (sameFinal : HashChainSink.lastHash left = HashChainSink.lastHash right)
    (collisionFree : CollisionFree sha left right) :
    SameContents left right ↔ SameLayouts left right :=
  ⟨layouts_of_contents,
    contents_of_layouts left right leftAccepted rightAccepted sameFinal collisionFree⟩

/-! ## Two records with one hash -/

def actorAb : AuditEvent := ⟨"1", 1, "ab", "c", "keystone:user/42", .allow, OrdMap.empty⟩

def actorA : AuditEvent := ⟨"1", 1, "a", "bc", "keystone:user/42", .allow, OrdMap.empty⟩

theorem hashed_actorAb : actorAb.hashed genesisPrev = actorA.hashed genesisPrev := by
  decide +kernel

theorem verifyChain_chained (event : AuditEvent) :
    verifyChain sha [HashChainSink.chained sha genesisPrev event] = .ok () :=
  (verifyFrom_cons _ _ _).mpr ⟨chained_linked genesisPrev event, rfl⟩

theorem moved_field_end_keeps_hash :
    ¬∃ sha : Sha256, ∀ left right : List AuditEvent, verifyChain sha left = .ok () →
      verifyChain sha right = .ok () → left.length = right.length →
      HashChainSink.lastHash left = HashChainSink.lastHash right → CollisionFree sha left right →
      SameContents left right := by
  rintro ⟨sha, evident⟩
  have plain : ∀ event : AuditEvent, event.metadata = OrdMap.empty →
      (HashChainSink.chained sha genesisPrev event).hashed genesisPrev =
        event.hashed genesisPrev := by
    rintro ⟨id, time, actor, action, target, outcome, metadata⟩ rfl
    rfl
  have prev : ∀ event, (HashChainSink.chained sha genesisPrev event).storedPrev = genesisPrev :=
    fun event => (chained_linked genesisPrev event).prev_eq
  have same := evident _ _ (verifyChain_chained actorAb) (verifyChain_chained actorA) rfl ?_ ?_
  · have actors : ["ab"] = ["a"] := congrArg (List.map Content.actor) same
    exact absurd actors (by decide)
  · have hash : ∀ event, HashChainSink.lastHash [HashChainSink.chained sha genesisPrev event] =
        chainHash sha genesisPrev (HashChainSink.chained sha genesisPrev event) := by
      intro event
      rw [lastHash_of_accepted (verifyChain_chained event)]
      rfl
    rw [hash, hash]
    unfold chainHash
    rw [plain actorAb rfl, plain actorA rfl, hashed_actorAb]
  · have only : ∀ event ∈ [HashChainSink.chained sha genesisPrev actorAb] ++
        [HashChainSink.chained sha genesisPrev actorA],
        event.hashed event.storedPrev = actorA.hashed genesisPrev := by
      intro event member
      rcases List.mem_append.mp member with member | member
      · rw [List.mem_singleton.mp member, prev, plain actorAb rfl, hashed_actorAb]
      · rw [List.mem_singleton.mp member, prev, plain actorA rfl]
    intro one oneMember other otherMember _
    rw [only one oneMember, only other otherMember]

/-- The two records of `knownDigests`, one after the other. -/
def knownLog : List AuditEvent :=
  [HashChainSink.chained Appenders.knownDigests genesisPrev Appenders.firstRecord,
    HashChainSink.chained Appenders.knownDigests (lowerHex Appenders.firstDigest)
      Appenders.secondRecord]

theorem known_log_evident : SameContents knownLog knownLog := by
  have accepted : verifyChain Appenders.knownDigests knownLog = .ok () := by rfl
  have free : CollisionFree Appenders.knownDigests knownLog knownLog := by
    unfold CollisionFree
    decide +kernel
  exact (tamper_evident_iff Appenders.knownDigests knownLog knownLog accepted accepted rfl
    free).mpr rfl

end Pantheon.Spine
