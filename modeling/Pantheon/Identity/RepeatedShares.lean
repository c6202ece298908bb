import Mathlib
import Pantheon.Identity.Recovery

/-!
# Shares that are listed twice: `Combine` of `pkg/recovery/recovery.go`

The inverse of zero is zero, so a share whose index is repeated counts for nothing.
-/

set_option autoImplicit false

namespace Pantheon.Identity

open Pantheon.Lib

def indexAt (indices : Bytes) (slot : Nat) : Gf256 := ⟨indices.getD slot 0⟩

def shareWeight (indices : Bytes) : Nat → Gf256 :=
  weightAtZero (Finset.range indices.length) (indexAt indices)

/-- The weights of the listed indices give every power below the threshold at zero. -/
def Restores (indices : Bytes) (threshold : Nat) : Prop :=
  ReproducesPowers (Finset.range indices.length) (indexAt indices) (shareWeight indices) threshold

/-- The slots whose index is at no other slot. -/
def unrepeated (indices : Bytes) : Finset Nat :=
  (Finset.range indices.length).filter fun slot =>
    ∀ other < indices.length, other ≠ slot → indices.getD other 0 ≠ indices.getD slot 0

theorem gfLagrange_polynomial (indices coefficients : Bytes) :
    (⟨gfLagrange indices (indices.map (gfPolyEval coefficients))⟩ : Gf256) =
      ∑ slot ∈ Finset.range indices.length,
        hornerEval (coefficients.map Gf256.mk) (indexAt indices slot) *
          shareWeight indices slot := by
  rw [mk_gfLagrange]
  apply Finset.sum_congr rfl
  intro slot member
  have inside := Finset.mem_range.mp member
  rw [List.getD_eq_getElem _ _ (by rwa [List.length_map]), List.getElem_map, mk_gfPolyEval,
    indexAt, List.getD_eq_getElem _ _ inside]
  rfl

theorem Restores.gfLagrange_eq {indices : Bytes} {drawn : Bytes}
    (restores : Restores indices (drawn.length + 1)) (byte : UInt8) :
    gfLagrange indices (indices.map (gfPolyEval (byte :: drawn))) = byte := by
  have sum := gfLagrange_polynomial indices (byte :: drawn)
  rw [List.map_cons] at sum
  have reproduces : ReproducesPowers (Finset.range indices.length) (indexAt indices)
      (shareWeight indices) ((drawn.map Gf256.mk).length + 1) := by
    rw [List.length_map]
    exact restores
  exact congrArg Gf256.byte (sum.trans reproduces.sum_hornerEval)

/-! ## The shares of `Split` -/

theorem foldlM_splitByte_reads {rand : Rand} {threshold : Nat} (entries : List (UInt8 × Nat)) :
    ∀ {before after : List Share}, entries.foldlM (splitByte rand threshold) before = .ok after →
      ∀ entry ∈ entries, ∃ bytes, rand.read entry.2 (threshold - 1) = .ok bytes := by
  induction entries with
  | nil =>
      intro before after _ entry member
      cases member
  | cons first rest ih =>
      intro before after run entry member
      rw [List.foldlM_cons] at run
      cases read : rand.read first.2 (threshold - 1) with
      | error error =>
          rw [splitByte, read] at run
          cases run
      | ok bytes =>
          rw [splitByte, read] at run
          rcases List.mem_cons.mp member with rfl | later
          · exact ⟨bytes, read⟩
          · exact ih run entry later

theorem split_shares {rand : Rand} {secret : Bytes} {threshold n : Int} {shares : List Share}
    (run : split rand secret threshold n = .ok shares) :
    ∃ drawn : Nat → Bytes, (∀ byteIdx < secret.length,
        (drawn byteIdx).length = threshold.toNat - 1) ∧
      ∀ share ∈ shares, share = shareOf secret drawn share.index := by
  have valid : secret ≠ [] ∧ 2 ≤ threshold ∧ threshold ≤ n ∧ n ≤ 255 := by
    rw [split] at run
    split_ifs at run with empty bounds
    exact ⟨fun none_ => empty (by rw [none_]; rfl), by omega, by omega, by omega⟩
  obtain ⟨nonempty, least, within, most⟩ := valid
  have reads : ∀ byteIdx, ∃ bytes, byteIdx < secret.length →
      rand.read byteIdx (threshold.toNat - 1) = .ok bytes := by
    intro byteIdx
    by_cases inside : byteIdx < secret.length
    · rw [split, if_neg (fun zero => nonempty (List.eq_nil_of_length_eq_zero zero)),
        if_neg (by omega)] at run
      obtain ⟨bytes, read⟩ := foldlM_splitByte_reads _ run (secret[byteIdx], byteIdx)
        (List.mk_mem_zipIdx_iff_getElem?.mpr (List.getElem?_eq_getElem inside))
      exact ⟨bytes, fun _ => read⟩
    · exact ⟨[], fun less => absurd less inside⟩
  choose drawn reads using reads
  refine ⟨drawn, fun byteIdx inside => rand.length_read (reads byteIdx inside), ?_⟩
  intro share member
  rw [split_eq nonempty least within most reads] at run
  cases run
  obtain ⟨slot, -, exact⟩ := List.mem_map.mp member
  rw [← exact]
  rfl

/-! ## Combine -/

def Rand.fixed (bytes : Bytes) : Rand where
  read _ length := .ok (if bytes.length = length then bytes else List.replicate length 0)
  length_read := by
    intro call length drawn read
    cases read
    split_ifs with same
    · exact same
    · exact List.length_replicate ..

section

variable {threshold n : Int} {indices : Bytes}

theorem combine_of_restores (restores : Restores indices threshold.toNat)
    {rand : Rand} {secret : Bytes} {shares picked : List Share}
    (run : split rand secret threshold n = .ok shares)
    (among : ∀ share ∈ picked, share ∈ shares) (listed : picked.map Share.index = indices)
    {combined : Bytes} (combines : combine picked = .ok combined) (least : 2 ≤ threshold) :
    combined = secret := by
  obtain ⟨drawn, lengths, exact⟩ := split_shares run
  have two : 2 ≤ picked.length := by
    match picked, combines with
    | _ :: _ :: _, _ => exact Nat.le_add_left 2 _
  rw [combine_shareOf two fun share member => exact share (among share member), listed] at combines
  rw [← Except.ok.inj combines]
  apply List.ext_getElem (List.length_mapIdx ..)
  intro byteIdx _ inside
  rw [List.getElem_mapIdx]
  apply Restores.gfLagrange_eq
  rw [lengths byteIdx inside, Nat.sub_add_cancel (by omega)]
  exact restores

def powerBytes (count power : Nat) : Bytes := (powerCoeffs count power).map Gf256.byte

theorem map_powerBytes (count power : Nat) :
    (powerBytes count power).map Gf256.mk = powerCoeffs count power := by
  rw [powerBytes, List.map_map]
  exact List.map_id _

theorem restores_of_combine (least : 2 ≤ threshold) (within : threshold ≤ n) (most : n ≤ 255)
    (numbered : ∀ index ∈ indices, 1 ≤ index.toNat ∧ index.toNat ≤ n)
    (two : 2 ≤ indices.length)
    (secrets : ∀ (rand : Rand) (secret : Bytes) (shares picked : List Share),
      split rand secret threshold n = .ok shares → (∀ share ∈ picked, share ∈ shares) →
        picked.map Share.index = indices → ∀ combined, combine picked = .ok combined →
          combined = secret) : Restores indices threshold.toNat := by
  intro power below
  have bytes : ∃ byte drawn, powerBytes threshold.toNat power = byte :: drawn ∧
      drawn.length = threshold.toNat - 1 := by
    have length : (powerBytes threshold.toNat power).length = threshold.toNat := by
      rw [powerBytes, powerCoeffs, List.length_map, List.length_map, List.length_range]
    cases form : powerBytes threshold.toNat power with
    | nil =>
        rw [form] at length
        exact absurd length (by simp only [List.length_nil]; omega)
    | cons byte drawn =>
        rw [form, List.length_cons] at length
        exact ⟨byte, drawn, rfl, by omega⟩
  obtain ⟨byte, drawn, form, length⟩ := bytes
  have run := @split_eq (Rand.fixed drawn) (fun _ => drawn) [byte] _ _ (by simp) least within most
    fun _ _ => by simp only [Rand.fixed, length, if_true]
  have among : ∀ share ∈ indices.map (shareOf [byte] fun _ => drawn),
      share ∈ (List.range n.toNat).map fun slot =>
        shareOf [byte] (fun _ => drawn) (UInt8.ofNat (slot + 1)) := by
    intro share member
    obtain ⟨index, inside, rfl⟩ := List.mem_map.mp member
    obtain ⟨low, high⟩ := numbered index inside
    refine List.mem_map.mpr ⟨index.toNat - 1, List.mem_range.mpr (by omega), ?_⟩
    rw [Nat.sub_add_cancel low, UInt8.ofNat_toNat]
  have listed : (indices.map (shareOf [byte] fun _ => drawn)).map Share.index = indices := by
    rw [List.map_map]
    exact List.map_id _
  have combines := @combine_shareOf (fun _ => drawn) [byte]
      (indices.map (shareOf [byte] fun _ => drawn)) (by rwa [List.length_map]) fun share member => by
    obtain ⟨index, -, rfl⟩ := List.mem_map.mp member
    rfl
  have restored := secrets _ _ _ _ run among listed _ combines
  rw [listed, List.mapIdx_cons, List.mapIdx_nil, ← form] at restored
  have value := gfLagrange_polynomial indices (powerBytes threshold.toNat power)
  rw [(List.cons.inj restored).1, map_powerBytes] at value
  have head : (⟨byte⟩ : Gf256) = 0 ^ power := by
    have at_zero := hornerEval_powerCoeffs (F := Gf256) below 0
    rw [← map_powerBytes, form] at at_zero
    rw [← at_zero, List.map_cons]
    simp [hornerEval]
  rw [← head, value]
  exact Finset.sum_congr rfl fun slot _ => by rw [hornerEval_powerCoeffs below]

theorem restores_of_nodup (distinct : indices.Nodup) (enough : threshold ≤ indices.length) :
    Restores indices threshold.toNat :=
  reproducesPowers_of_distinct (injOn_indices distinct) (by rw [Finset.card_range]; omega)

theorem shareWeight_repeated {slot : Nat} (inside : slot < indices.length)
    (repeated : slot ∉ unrepeated indices) : shareWeight indices slot = 0 := by
  have other : ∃ other < indices.length, other ≠ slot ∧
      indices.getD other 0 = indices.getD slot 0 := by
    by_contra none_
    push Not at none_
    exact repeated (Finset.mem_filter.mpr ⟨Finset.mem_range.mpr inside, none_⟩)
  obtain ⟨other, within, apart, same⟩ := other
  exact weightAtZero_repeated (Finset.mem_range.mpr within) apart (congrArg Gf256.mk same)

theorem not_restores_of_few (numbered : ∀ index ∈ indices, 1 ≤ index.toNat ∧ index.toNat ≤ n)
    (few : (unrepeated indices).card < threshold.toNat) : ¬Restores indices threshold.toNat := by
  refine not_reproducesPowers_of_few few (fun slot member apart =>
    shareWeight_repeated (Finset.mem_range.mp member) apart) fun slot member zero => ?_
  have inside := Finset.mem_range.mp (Finset.mem_filter.mp member).1
  have byteZero : indices.getD slot 0 = 0 := congrArg Gf256.byte zero
  rw [List.getD_eq_getElem _ _ inside] at byteZero
  have low := (numbered _ (List.getElem_mem inside)).1
  rw [byteZero] at low
  exact absurd low (by decide)

end

/-- Shares of the listed indices give every secret exactly when their weights do.  Without a
repeated index they do; with fewer indices than the threshold that are not repeated they
never do. -/
theorem combine_repeated_iff {threshold n : Int} {indices : Bytes} (least : 2 ≤ threshold)
    (within : threshold ≤ n) (most : n ≤ 255)
    (numbered : ∀ index ∈ indices, 1 ≤ index.toNat ∧ index.toNat ≤ n)
    (enough : threshold ≤ indices.toFinset.card) :
    ((∀ (rand : Rand) (secret : Bytes) (shares picked : List Share),
        split rand secret threshold n = .ok shares → (∀ share ∈ picked, share ∈ shares) →
          picked.map Share.index = indices → ∀ combined, combine picked = .ok combined →
            combined = secret) ↔ Restores indices threshold.toNat) ∧
      (indices.Nodup → Restores indices threshold.toNat) ∧
      ((unrepeated indices).card < threshold.toNat → ¬Restores indices threshold.toNat) := by
  have length : threshold ≤ indices.length := by
    have card := indices.toFinset_card_le
    omega
  refine ⟨⟨restores_of_combine least within most numbered (by omega), ?_⟩,
    fun distinct => restores_of_nodup distinct length, not_restores_of_few numbered⟩
  intro restores rand secret shares picked run among listed combined combines
  exact combine_of_restores restores run among listed combines least

/-- Two of three indices, one of them twice. -/
theorem one_twice_restores_nothing :
    ((∀ (rand : Rand) (secret : Bytes) (shares picked : List Share),
        split rand secret 2 3 = .ok shares → (∀ share ∈ picked, share ∈ shares) →
          picked.map Share.index = [1, 1, 2] → ∀ combined, combine picked = .ok combined →
            combined = secret) ↔ Restores [1, 1, 2] 2) ∧
      (([1, 1, 2] : Bytes).Nodup → Restores [1, 1, 2] 2) ∧
      ((unrepeated [1, 1, 2]).card < 2 → ¬Restores [1, 1, 2] 2) :=
  combine_repeated_iff (by decide) (by decide) (by decide) (by decide +kernel) (by decide)

/-- The first share twice and the second give a byte that is not the secret. -/
theorem one_share_twice_is_wrong : ∃ shares, split fixedRand [42] 2 3 = .ok shares ∧
    ∃ picked : List Share, (∀ share ∈ picked, share ∈ shares) ∧
      2 ≤ (picked.map Share.index).toFinset.card ∧
      ∃ combined, combine picked = .ok combined ∧ combined ≠ [42] := by
  refine ⟨[⟨1, [45]⟩, ⟨2, [36]⟩, ⟨3, [35]⟩], by decide +kernel,
    [⟨1, [45]⟩, ⟨1, [45]⟩, ⟨2, [36]⟩], by decide, by decide, ?_⟩
  exact ⟨_, rfl, by decide +kernel⟩

end Pantheon.Identity
