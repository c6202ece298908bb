import Mathlib

/-!
# Multi-version sources

A version is a key, the sequence number it was written at and a value, `none`
for a deletion.  A source is a set of versions.  This file holds what a stack
of sources probed in order answers, when such a stack retains the newest
version of a key at a cut-off, and which versions a source may forget without
changing the answer at the cut-offs that matter.
-/

set_option autoImplicit false

namespace Pantheon.Lib

structure Version (K V : Type) where
  key : K
  seq : Nat
  value : Option V
deriving DecidableEq

variable {K V : Type}

/-- `version` is the newest version of `key` in `source` at or below `cutoff`. -/
structure Newest (source : Set (Version K V)) (key : K) (cutoff : Nat)
    (version : Version K V) : Prop where
  mem : version ∈ source
  keyEq : version.key = key
  visible : version.seq ≤ cutoff
  newest : ∀ other ∈ source, other.key = key → other.seq ≤ cutoff → other.seq ≤ version.seq

/-- No version of `key` in `source` is visible at `cutoff`. -/
def Absent (source : Set (Version K V)) (key : K) (cutoff : Nat) : Prop :=
  ∀ version ∈ source, version.key = key → cutoff < version.seq

def Deterministic (history : Set (Version K V)) : Prop :=
  ∀ left ∈ history, ∀ right ∈ history,
    left.key = right.key → left.seq = right.seq → left = right

/-- Whatever `below` holds above a version of `above` is in `above` too: a hit
in `above` need not look at `below`. -/
def Shadows (above below : Set (Version K V)) : Prop :=
  ∀ upper ∈ above, ∀ lower ∈ below,
    upper.key = lower.key → upper.seq < lower.seq → lower ∈ above

/-- Every version of `lower` is older than every version of `upper`. -/
def Older (lower upper : Set (Version K V)) : Prop :=
  ∀ early ∈ lower, ∀ late ∈ upper, early.seq < late.seq

def KeyOlder (lower upper : Set (Version K V)) : Prop :=
  ∀ early ∈ lower, ∀ late ∈ upper, early.key = late.key → early.seq < late.seq

def KeysApart (left right : Set (Version K V)) : Prop :=
  ∀ one ∈ left, ∀ other ∈ right, one.key ≠ other.key

/-- `result` is what `history` says of `key` at `cutoff`: the value of the
newest visible version, nothing when that is a deletion or there is none. -/
def Answers (history : Set (Version K V)) (key : K) (cutoff : Nat) (result : Option V) : Prop :=
  (∀ version, Newest history key cutoff version → result = version.value) ∧
    (Absent history key cutoff → result = none)

/-- `kept` answers like `history` for `key` at `cutoff`: it still holds the
newest version, or that version is a deletion and nothing older is left. -/
def Retains (kept history : Set (Version K V)) (key : K) (cutoff : Nat) : Prop :=
  ∀ version, Newest history key cutoff version →
    version ∈ kept ∨ version.value = none ∧ Absent kept key cutoff

/-- `look` is a lookup in `source`: `none` to fall through, `some` for a
visible version's value. -/
structure Resolves (source : Set (Version K V)) (look : K → Nat → Option (Option V)) : Prop where
  hit : ∀ key cutoff result, look key cutoff = some result →
    ∃ version, Newest source key cutoff version ∧ version.value = result
  miss : ∀ key cutoff, look key cutoff = none → Absent source key cutoff

variable
  {source kept history below left right lower upper merged others fresh : Set (Version K V)}
  {key : K} {cutoff watermark : Nat} {version : Version K V} {look : K → Nat → Option (Option V)}

theorem Newest.seq_unique
    {left right : Version K V} (leftNewest : Newest source key cutoff left)
    (rightNewest : Newest source key cutoff right) : left.seq = right.seq :=
  le_antisymm (rightNewest.newest left leftNewest.mem leftNewest.keyEq leftNewest.visible)
    (leftNewest.newest right rightNewest.mem rightNewest.keyEq rightNewest.visible)

theorem Newest.of_subset (subset : kept ⊆ history)
    (newest : Newest history key cutoff version)
    (member : version ∈ kept) : Newest kept key cutoff version :=
  ⟨member, newest.keyEq, newest.visible, fun other otherMember =>
    newest.newest other (subset otherMember)⟩

theorem Newest.not_absent
    (newest : Newest source key cutoff version) :
    ¬ Absent source key cutoff := fun absent =>
  absurd newest.visible (not_le_of_gt (absent version newest.mem newest.keyEq))

theorem Absent.mono (subset : kept ⊆ history)
    (absent : Absent history key cutoff) : Absent kept key cutoff :=
  fun version member => absent version (subset member)

theorem Shadows.mono_right {above below' : Set (Version K V)} (shadows : Shadows above below)
    (subset : below' ⊆ below) : Shadows above below' :=
  fun upper upperMember lower lowerMember => shadows upper upperMember lower (subset lowerMember)

theorem newest_or_absent (source : Set (Version K V)) (key : K) (cutoff : Nat) :
    (∃ version, Newest source key cutoff version) ∨ Absent source key cutoff := by
  by_cases visible : ∃ version ∈ source, version.key = key ∧ version.seq ≤ cutoff
  · refine Or.inl ?_
    let Held : Nat → Prop := fun seq => ∃ version ∈ source, version.key = key ∧ version.seq = seq
    classical
    obtain ⟨first, member, keyExact, below⟩ := visible
    have held : Held (Nat.findGreatest Held cutoff) :=
      Nat.findGreatest_spec below ⟨first, member, keyExact, rfl⟩
    obtain ⟨version, versionMember, versionKey, seqExact⟩ := held
    refine ⟨version, versionMember, versionKey, ?_, ?_⟩
    · rw [seqExact]
      exact Nat.findGreatest_le cutoff
    · intro other otherMember otherKey otherBelow
      rw [seqExact]
      exact Nat.le_findGreatest otherBelow ⟨other, otherMember, otherKey, rfl⟩
  · refine Or.inr fun version member keyExact => ?_
    by_contra low
    exact visible ⟨version, member, keyExact, le_of_not_gt low⟩

/-- Two histories with the same visible versions of a key answer alike. -/
theorem Answers.same {leftCutoff rightCutoff : Nat}
    {leftResult rightResult : Option V} (leftAnswers : Answers left key leftCutoff leftResult)
    (rightAnswers : Answers right key rightCutoff rightResult)
    (same : ∀ version : Version K V, version.key = key →
      (version ∈ left ∧ version.seq ≤ leftCutoff ↔ version ∈ right ∧ version.seq ≤ rightCutoff)) :
    leftResult = rightResult := by
  rcases newest_or_absent left key leftCutoff with ⟨version, newest⟩ | absent
  · rw [leftAnswers.1 version newest]
    obtain ⟨member, visible⟩ := (same version newest.keyEq).mp ⟨newest.mem, newest.visible⟩
    refine (rightAnswers.1 version ⟨member, newest.keyEq, visible, ?_⟩).symm
    intro other otherMember otherKey otherVisible
    obtain ⟨otherLeft, otherLow⟩ := (same other otherKey).mpr ⟨otherMember, otherVisible⟩
    exact newest.newest other otherLeft otherKey otherLow
  · rw [leftAnswers.2 absent]
    refine (rightAnswers.2 fun version member keyExact => ?_).symm
    by_contra low
    obtain ⟨inLeft, leftLow⟩ := (same version keyExact).mpr ⟨member, le_of_not_gt low⟩
    exact absurd leftLow (not_le_of_gt (absent version inLeft keyExact))

/-- Sources whose sequence numbers are strictly ordered shadow each other. -/
theorem KeyOlder.shadows (ordered : KeyOlder lower upper) :
    Shadows upper lower := by
  intro late lateMember early earlyMember sameKey below
  exact absurd below (lt_asymm (ordered early earlyMember late lateMember sameKey.symm))

theorem Older.keyOlder (ordered : Older lower upper) :
    KeyOlder lower upper := fun early earlyMember late lateMember _ =>
  ordered early earlyMember late lateMember

theorem Older.mono {lower' upper' : Set (Version K V)} (ordered : Older lower upper)
    (lowerSubset : lower' ⊆ lower) (upperSubset : upper' ⊆ upper) : Older lower' upper' :=
  fun early earlyMember late lateMember =>
    ordered early (lowerSubset earlyMember) late (upperSubset lateMember)

theorem Older.union_right (leftOrdered : Older lower left)
    (rightOrdered : Older lower right) : Older lower (left ∪ right) := by
  rintro early earlyMember late (lateMember | lateMember)
  · exact leftOrdered early earlyMember late lateMember
  · exact rightOrdered early earlyMember late lateMember

theorem Older.empty_right (lower : Set (Version K V)) : Older lower ∅ :=
  fun _ _ _ member => absurd member (Set.notMem_empty _)

theorem KeysApart.keyOlder (apart : KeysApart lower upper) :
    KeyOlder lower upper := fun early earlyMember late lateMember sameKey =>
  absurd sameKey (apart early earlyMember late lateMember)

theorem KeysApart.symm (apart : KeysApart left right) :
    KeysApart right left := fun one oneMember other otherMember sameKey =>
  apart other otherMember one oneMember sameKey.symm

theorem Shadows.union_left (leftShadows : Shadows left below)
    (rightShadows : Shadows right below) : Shadows (left ∪ right) below := by
  rintro upper (upperMember | upperMember) lower lowerMember sameKey newer
  · exact Or.inl (leftShadows upper upperMember lower lowerMember sameKey newer)
  · exact Or.inr (rightShadows upper upperMember lower lowerMember sameKey newer)

/-! ## Stacks of sources -/

def union (sources : List (Set (Version K V))) : Set (Version K V) :=
  {version | ∃ source ∈ sources, version ∈ source}

theorem union_cons (source : Set (Version K V)) (rest : List (Set (Version K V))) :
    union (source :: rest) = source ∪ union rest := by
  ext version
  simp [union]

theorem union_reverse (sources : List (Set (Version K V))) :
    union sources.reverse = union sources := by
  ext version
  simp [union]

/-- Probe the sources in order and stop at the first that has any visible
version. -/
def firstHit (looks : List (K → Nat → Option (Option V))) (key : K) (cutoff : Nat) :
    Option (Option V) :=
  looks.findSome? fun look => look key cutoff

/-- Stopping at the first hit is a lookup in the union, when each source
shadows every later one. -/
theorem firstHit_resolves (sources : List (Set (Version K V)))
    (looks : List (K → Nat → Option (Option V)))
    (each : List.Forall₂ Resolves sources looks) (ordered : sources.Pairwise Shadows) :
    Resolves (union sources) (firstHit looks) := by
  induction each with
  | nil =>
      refine ⟨fun key cutoff result found => by simp [firstHit] at found, ?_⟩
      rintro key cutoff _ version ⟨source, member, _⟩
      exact absurd member List.not_mem_nil
  | @cons source look sources looks head _ ih =>
      obtain ⟨headShadows, restOrdered⟩ := List.pairwise_cons.mp ordered
      have rest := ih restOrdered
      rw [union_cons]
      constructor
      · intro key cutoff result found
        simp only [firstHit, List.findSome?_cons] at found
        cases headLook : look key cutoff with
        | some value =>
            rw [headLook] at found
            obtain ⟨version, newest, valueExact⟩ := head.hit key cutoff value headLook
            refine ⟨version, ⟨Or.inl newest.mem, newest.keyEq, newest.visible, ?_⟩,
              valueExact.trans (Option.some.inj found)⟩
            intro other member sameKey visible
            rcases member with member | ⟨lower, lowerMember, member⟩
            · exact newest.newest other member sameKey visible
            · by_contra above
              have inHead := headShadows lower lowerMember version newest.mem other member
                (newest.keyEq.trans sameKey.symm) (lt_of_not_ge above)
              exact above (newest.newest other inHead sameKey visible)
        | none =>
            rw [headLook] at found
            have headAbsent := head.miss key cutoff headLook
            obtain ⟨version, newest, valueExact⟩ := rest.hit key cutoff result found
            refine ⟨version, ⟨Or.inr newest.mem, newest.keyEq, newest.visible, ?_⟩, valueExact⟩
            intro other member sameKey visible
            rcases member with member | member
            · exact absurd visible (not_le_of_gt (headAbsent other member sameKey))
            · exact newest.newest other member sameKey visible
      · intro key cutoff missed
        simp only [firstHit, List.findSome?_cons] at missed
        cases headLook : look key cutoff with
        | some value => rw [headLook] at missed; exact absurd missed (by simp)
        | none =>
            rw [headLook] at missed
            rintro version (member | member) sameKey
            · exact head.miss key cutoff headLook version member sameKey
            · exact rest.miss key cutoff missed version member sameKey

/-- A retained newest version is what a lookup in the kept versions returns. -/
theorem Resolves.value_of_newest
    (resolves : Resolves kept look)
    (subset : kept ⊆ history) (det : Deterministic history)
    (retains : Retains kept history key cutoff)
    (newest : Newest history key cutoff version) :
    (look key cutoff).join = version.value := by
  rcases retains version newest with member | ⟨deleted, absent⟩
  · cases found : look key cutoff with
    | none => exact absurd (resolves.miss key cutoff found) (newest.of_subset subset member).not_absent
    | some result =>
        obtain ⟨hit, hitNewest, valueExact⟩ := resolves.hit key cutoff result found
        have sameSeq := hitNewest.seq_unique (newest.of_subset subset member)
        have same : hit = version := det hit (subset hitNewest.mem) version newest.mem
          (hitNewest.keyEq.trans newest.keyEq.symm) sameSeq
        rw [← valueExact, same]
        rfl
  · cases found : look key cutoff with
    | none => simp [deleted]
    | some result =>
        obtain ⟨hit, hitNewest, _⟩ := resolves.hit key cutoff result found
        exact absurd absent hitNewest.not_absent

theorem Resolves.none_of_absent
    (resolves : Resolves kept look)
    (subset : kept ⊆ history) (absent : Absent history key cutoff) :
    look key cutoff = none := by
  cases found : look key cutoff with
  | none => rfl
  | some result =>
      obtain ⟨hit, hitNewest, _⟩ := resolves.hit key cutoff result found
      exact absurd (absent.mono subset) hitNewest.not_absent

/-- A lookup in versions that retain the newest one answers for the history. -/
theorem Resolves.answers
    (resolves : Resolves kept look)
    (subset : kept ⊆ history) (det : Deterministic history)
    (retains : Retains kept history key cutoff) :
    Answers history key cutoff (look key cutoff).join := by
  refine ⟨fun version newest => resolves.value_of_newest subset det retains newest, fun absent => ?_⟩
  rw [resolves.none_of_absent subset absent]
  rfl

/-! ## Forgetting versions -/

/-- `merged` keeps of `source` every version from `watermark` on and, per key,
the newest one below it; that floor may be left out when it is a deletion,
with everything below it. -/
structure Thinned (watermark : Nat) (source merged : Set (Version K V)) : Prop where
  subset : merged ⊆ source
  above : ∀ version ∈ source, watermark ≤ version.seq → version ∈ merged
  floor : ∀ version ∈ source, version.seq < watermark →
    (∀ other ∈ source, other.key = version.key → other.seq < watermark →
      other.seq ≤ version.seq) →
    version ∈ merged ∨ version.value = none ∧
      ∀ other ∈ merged, other.key = version.key → watermark ≤ other.seq

/-- No version of `key` lies strictly between `cutoff` and `watermark`. -/
def NoGap (source : Set (Version K V)) (watermark : Nat) (key : K) (cutoff : Nat) : Prop :=
  ∀ version ∈ source, version.key = key → version.seq ≤ cutoff ∨ watermark ≤ version.seq

theorem NoGap.of_watermark_le
    (reached : watermark ≤ cutoff) : NoGap source watermark key cutoff := by
  intro version _ _
  omega

theorem NoGap.of_visible
    (visible : ∀ version ∈ source, version.seq ≤ cutoff) : NoGap source watermark key cutoff :=
  fun version member _ => Or.inl (visible version member)

/-- At a cut-off with no version in the gap, thinning loses at most a deletion
that nothing older is left under. -/
theorem Thinned.retains
    (thinned : Thinned watermark source merged)
    (noGap : NoGap source watermark key cutoff) : Retains merged source key cutoff := by
  intro version newest
  by_cases kept : watermark ≤ version.seq
  · exact Or.inl (thinned.above version newest.mem kept)
  · have below : version.seq < watermark := lt_of_not_ge kept
    have isFloor : ∀ other ∈ source, other.key = version.key → other.seq < watermark →
        other.seq ≤ version.seq := by
      intro other member sameKey otherBelow
      have otherKey : other.key = key := sameKey.trans newest.keyEq
      rcases noGap other member otherKey with visible | reached
      · exact newest.newest other member otherKey visible
      · exact absurd otherBelow (not_lt_of_ge reached)
    rcases thinned.floor version newest.mem below isFloor with member | ⟨deleted, cleared⟩
    · exact Or.inl member
    · refine Or.inr ⟨deleted, ?_⟩
      intro other member sameKey
      by_contra visible
      have otherLe := newest.newest other (thinned.subset member) sameKey (le_of_not_gt visible)
      have otherAbove := cleared other member (sameKey.trans newest.keyEq.symm)
      omega

/-- Replacing `source` by a thinned `merged` keeps the answer at a cut-off with
no version in the gap, next to other sources that shadow `source`. -/
theorem Retains.replace
    (retains : Retains (others ∪ source) history key cutoff)
    (subset : others ∪ source ⊆ history) (det : Deterministic history)
    (thinned : Thinned watermark source merged) (noGap : NoGap source watermark key cutoff)
    (shadows : Shadows others source) : Retains (others ∪ merged) history key cutoff := by
  intro version newest
  rcases retains version newest with member | ⟨deleted, absent⟩
  · rcases member with member | member
    · exact Or.inl (Or.inl member)
    · have inSource : Newest source key cutoff version :=
        newest.of_subset (fun other otherMember => subset (Or.inr otherMember)) member
      rcases thinned.retains noGap version inSource with kept | ⟨deleted, absent⟩
      · exact Or.inl (Or.inr kept)
      · by_cases inOthers : version ∈ others
        · exact Or.inl (Or.inl inOthers)
        · refine Or.inr ⟨deleted, ?_⟩
          rintro other (otherMember | otherMember) sameKey
          · by_contra visible
            have otherLe := newest.newest other (subset (Or.inl otherMember)) sameKey
              (le_of_not_gt visible)
            rcases lt_or_eq_of_le otherLe with less | same
            · exact inOthers (shadows other otherMember version member
                (sameKey.trans newest.keyEq.symm) less)
            · have otherExact := det other (subset (Or.inl otherMember)) version newest.mem
                (sameKey.trans newest.keyEq.symm) same
              exact inOthers (otherExact ▸ otherMember)
          · exact absent other otherMember sameKey
  · refine Or.inr ⟨deleted, ?_⟩
    rintro other (otherMember | otherMember) sameKey
    · exact absent other (Or.inl otherMember) sameKey
    · exact absent other (Or.inr (thinned.subset otherMember)) sameKey

/-! ## Extending the history -/

/-- Versions newer than the cut-off do not change an answer. -/
theorem Retains.extend_above
    (retains : Retains kept history key cutoff) (newer : ∀ version ∈ fresh, cutoff < version.seq) :
    Retains (kept ∪ fresh) (history ∪ fresh) key cutoff := by
  intro version newest
  have inHistory : version ∈ history := by
    rcases newest.mem with member | member
    · exact member
    · exact absurd newest.visible (not_le_of_gt (newer version member))
  rcases retains version (newest.of_subset Set.subset_union_left inHistory) with member | ⟨deleted, absent⟩
  · exact Or.inl (Or.inl member)
  · refine Or.inr ⟨deleted, ?_⟩
    rintro other (member | member) sameKey
    · exact absent other member sameKey
    · exact newer other member

/-- A new batch at the cut-off is retained where it is kept; a key it does not
write answers as it did at the previous cut-off. -/
theorem Retains.extend_at
    {previous : Nat} (retains : Retains kept history key previous)
    (bounded : ∀ version ∈ history, version.seq ≤ previous) (later : previous < cutoff)
    (exact : ∀ version ∈ fresh, version.seq = cutoff) (subset : kept ⊆ history) :
    Retains (kept ∪ fresh) (history ∪ fresh) key cutoff := by
  intro version newest
  rcases newest.mem with member | member
  · have visible : version.seq ≤ previous := bounded version member
    have noFresh : ∀ other ∈ fresh, other.key ≠ key := by
      intro other otherMember sameKey
      have := newest.newest other (Or.inr otherMember) sameKey (le_of_eq (exact other otherMember))
      have := exact other otherMember
      omega
    have atPrevious : Newest history key previous version :=
      ⟨member, newest.keyEq, visible, fun other otherMember sameKey otherVisible =>
        newest.newest other (Or.inl otherMember) sameKey (by omega)⟩
    rcases retains version atPrevious with inKept | ⟨deleted, absent⟩
    · exact Or.inl (Or.inl inKept)
    · refine Or.inr ⟨deleted, ?_⟩
      rintro other (otherMember | otherMember) sameKey
      · have hidden := absent other otherMember sameKey
        exact absurd hidden (not_lt_of_ge (bounded other (subset otherMember)))
      · exact absurd sameKey (noFresh other otherMember)
  · exact Or.inl (Or.inr member)

/-! ## The latest cut-offs

A cut-off at or above every version asks for the latest one. -/

def RetainsLatest (kept history : Set (Version K V)) : Prop :=
  ∀ key cutoff, (∀ version ∈ history, version.seq ≤ cutoff) → Retains kept history key cutoff

theorem Retains.of_bounded {cutoff' : Nat}
    (retains : Retains kept history key cutoff) (subset : kept ⊆ history)
    (bounded : ∀ version ∈ history, version.seq ≤ cutoff)
    (bounded' : ∀ version ∈ history, version.seq ≤ cutoff') :
    Retains kept history key cutoff' := by
  intro version newest
  have atCutoff : Newest history key cutoff version :=
    ⟨newest.mem, newest.keyEq, bounded version newest.mem, fun other member sameKey _ =>
      newest.newest other member sameKey (bounded' other member)⟩
  rcases retains version atCutoff with member | ⟨deleted, absent⟩
  · exact Or.inl member
  · refine Or.inr ⟨deleted, ?_⟩
    intro other member sameKey
    exact absurd (bounded other (subset member)) (not_le_of_gt (absent other member sameKey))

theorem RetainsLatest.extend {seq : Nat}
    (retains : RetainsLatest kept history) (subset : kept ⊆ history)
    (bounded : ∀ version ∈ history, version.seq < seq) (positive : 0 < seq)
    (exact : ∀ version ∈ fresh, version.seq = seq) :
    RetainsLatest (kept ∪ fresh) (history ∪ fresh) := by
  intro key cutoff above
  have atPrevious := retains key (seq - 1) fun version member =>
    Nat.le_sub_one_of_lt (bounded version member)
  have atSeq := atPrevious.extend_at (fun version member => Nat.le_sub_one_of_lt
    (bounded version member)) (Nat.sub_lt positive Nat.one_pos) exact subset
  refine atSeq.of_bounded (Set.union_subset_union_left fresh subset) ?_ above
  rintro version (member | member)
  · exact le_of_lt (bounded version member)
  · exact le_of_eq (exact version member)

theorem RetainsLatest.replace
    (retains : RetainsLatest (others ∪ source) history) (subset : others ∪ source ⊆ history)
    (det : Deterministic history) (thinned : Thinned watermark source merged)
    (shadows : Shadows others source) : RetainsLatest (others ∪ merged) history := by
  intro key cutoff above
  refine (retains key cutoff above).replace subset det thinned ?_ shadows
  exact NoGap.of_visible fun version member => above version (subset (Or.inr member))

/-! ## One key at a time -/

def slice (source : Set (Version K V)) (key : K) : Set (Version K V) :=
  {version | version ∈ source ∧ version.key = key}

theorem slice_subset (source : Set (Version K V)) (key : K) : slice source key ⊆ source :=
  fun _ member => member.1

theorem slice_mono {part whole : Set (Version K V)} (subset : part ⊆ whole) (key : K) :
    slice part key ⊆ slice whole key := fun _ member => ⟨subset member.1, member.2⟩

theorem slice_union (left right : Set (Version K V)) (key : K) :
    slice (left ∪ right) key = slice left key ∪ slice right key := by
  ext version
  simp [slice, or_and_right]

theorem slice_slice (source : Set (Version K V)) (key : K) :
    slice (slice source key) key = slice source key := by
  ext version
  simp [slice]

theorem KeyOlder.slice_shadows (ordered : KeyOlder lower upper)
    (key : K) : Shadows (slice upper key) (slice lower key) := by
  intro high highMember low lowMember sameKey newer
  exact absurd newer (not_lt_of_gt (ordered low lowMember.1 high highMember.1 sameKey.symm))

theorem Shadows.slice {above : Set (Version K V)} (shadows : Shadows above below) (key : K) :
    Shadows (slice above key) (slice below key) :=
  fun upper upperMember lower lowerMember sameKey newer =>
    ⟨shadows upper upperMember.1 lower lowerMember.1 sameKey newer, lowerMember.2⟩

theorem Shadows.empty_left (below : Set (Version K V)) : Shadows ∅ below :=
  fun _ member => absurd member (Set.notMem_empty _)

theorem Absent.of_slice
    (same : slice right key ⊆ slice left key)
    (absent : Absent left key cutoff) : Absent right key cutoff :=
  fun version member sameKey => absent version (same ⟨member, sameKey⟩).1 sameKey

/-- Retaining looks at the versions of its own key only. -/
theorem Retains.of_slice {kept' : Set (Version K V)}
    (retains : Retains kept history key cutoff)
    (same : slice kept key = slice kept' key) :
    Retains kept' history key cutoff := by
  intro version newest
  rcases retains version newest with member | ⟨deleted, absent⟩
  · have here : version ∈ slice kept key := ⟨member, newest.keyEq⟩
    rw [same] at here
    exact Or.inl here.1
  · exact Or.inr ⟨deleted, absent.of_slice same.ge⟩

/-- Versions that a newer one of their key supersedes may go. -/
theorem Retains.without {extra : Set (Version K V)}
    (retains : Retains (kept ∪ extra) history key cutoff)
    (superseded : ∀ version ∈ extra, version.key = key → ∃ newer ∈ history, newer.key = key ∧
      newer.seq ≤ cutoff ∧ version.seq < newer.seq) : Retains kept history key cutoff := by
  intro version newest
  rcases retains version newest with (member | member) | ⟨deleted, absent⟩
  · exact Or.inl member
  · obtain ⟨newer, newerMember, sameKey, visible, above⟩ := superseded version member newest.keyEq
    exact absurd (newest.newest newer newerMember sameKey visible) (not_le_of_gt above)
  · exact Or.inr ⟨deleted, absent.mono Set.subset_union_left⟩

theorem Thinned.slice
    (thinned : Thinned watermark source merged) (key : K) :
    Thinned watermark (slice source key) (slice merged key) := by
  refine ⟨slice_mono thinned.subset key, ?_, ?_⟩
  · intro version member above
    exact ⟨thinned.above version member.1 above, member.2⟩
  · intro version member below newest
    have isFloor : ∀ other ∈ source, other.key = version.key → other.seq < watermark →
        other.seq ≤ version.seq := fun other otherMember sameKey =>
      newest other ⟨otherMember, sameKey.trans member.2⟩ sameKey
    rcases thinned.floor version member.1 below isFloor with kept | ⟨deleted, cleared⟩
    · exact Or.inl ⟨kept, member.2⟩
    · exact Or.inr ⟨deleted, fun other otherMember => cleared other otherMember.1⟩

/-- `Retains.replace` at one key. -/
theorem Retains.replace_slice
    (retains : Retains (others ∪ source) history key cutoff)
    (subset : slice (others ∪ source) key ⊆ history) (det : Deterministic history)
    (thinned : Thinned watermark source merged)
    (noGap : NoGap (slice source key) watermark key cutoff)
    (shadows : Shadows (slice others key) (slice source key)) :
    Retains (others ∪ merged) history key cutoff := by
  rw [slice_union] at subset
  have sliced : Retains (slice others key ∪ slice source key) history key cutoff :=
    retains.of_slice (by rw [slice_union, slice_union, slice_slice, slice_slice])
  refine (sliced.replace subset det (thinned.slice key) noGap shadows).of_slice ?_
  rw [slice_union, slice_union, slice_slice, slice_slice]

theorem Resolves.slice [DecidableEq K]
    (resolves : Resolves source look) (key : K) :
    Resolves (slice source key) fun asked cutoff => if asked = key then look asked cutoff else none := by
  constructor
  · intro asked cutoff result found
    split_ifs at found with same
    obtain ⟨version, newest, exact⟩ := resolves.hit asked cutoff result found
    exact ⟨version, newest.of_subset (slice_subset source key) ⟨newest.mem, newest.keyEq.trans same⟩,
      exact⟩
  · intro asked cutoff missed version member sameKey
    have same : asked = key := sameKey.symm.trans member.2
    rw [if_pos same] at missed
    exact resolves.miss asked cutoff missed version member.1 sameKey

/-- A stack that is in order at one key answers for that key. -/
theorem answers_at [DecidableEq K] {sources : List (Set (Version K V))}
    {looks : List (K → Nat → Option (Option V))} (each : List.Forall₂ Resolves sources looks)
    (ordered : sources.Pairwise fun above below =>
      Shadows (slice above key) (slice below key))
    (subset : slice (union sources) key ⊆ history) (det : Deterministic history)
    (retains : Retains (union sources) history key cutoff) :
    Answers history key cutoff (firstHit looks key cutoff).join := by
  have sliced : List.Forall₂ Resolves (sources.map fun source => slice source key)
      (looks.map fun look asked cutoff => if asked = key then look asked cutoff else none) :=
    List.forall₂_map_left_iff.mpr (List.forall₂_map_right_iff.mpr
      (each.imp fun _ _ resolves => resolves.slice key))
  have resolves := firstHit_resolves _ _ sliced (List.pairwise_map.mpr ordered)
  have unionExact : union (sources.map fun source => slice source key) =
      slice (union sources) key := by
    ext version
    simp only [union, slice, Set.mem_ofPred_eq, List.mem_map]
    constructor
    · rintro ⟨_, ⟨source, member, rfl⟩, held, sameKey⟩
      exact ⟨⟨source, member, held⟩, sameKey⟩
    · rintro ⟨⟨source, member, held⟩, sameKey⟩
      exact ⟨_, ⟨source, member, rfl⟩, held, sameKey⟩
  have sameHit : firstHit (looks.map fun look asked cutoff =>
      if asked = key then look asked cutoff else none) key cutoff = firstHit looks key cutoff := by
    simp only [firstHit, List.findSome?_map, Function.comp_def, if_true]
  rw [unionExact] at resolves
  have answered := resolves.answers subset det (retains.of_slice (by
    ext version
    simp [slice]))
  rwa [sameHit] at answered

end Pantheon.Lib
