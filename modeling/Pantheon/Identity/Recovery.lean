import Mathlib
import Pantheon.Lib.Bytes
import Pantheon.Lib.SecretSharing
import Pantheon.Identity.Gf256

/-!
# Guardian shares: `pkg/recovery/recovery.go`

`Split` draws a polynomial for each byte of the secret and evaluates it at the index of
each share; `Combine` interpolates at zero.
-/

set_option autoImplicit false

namespace Pantheon.Identity

open Pantheon.Lib

/-! ## The code -/

structure Share where
  index : UInt8
  value : Bytes
deriving DecidableEq

/-- The calls of `rand.Read`, one for each byte of the secret.  A call fails or fills its
slice. -/
structure Rand where
  read : Nat → Nat → Except String Bytes
  length_read : ∀ {call length : Nat} {bytes : Bytes},
    read call length = .ok bytes → bytes.length = length

def storeByte (coefficients : Bytes) (byteIdx : Nat) (shares : List Share) : List Share :=
  shares.foldl (fun stored sh => stored.modify (sh.index - 1).toNat fun share =>
    { share with value := share.value.set byteIdx (gfPolyEval coefficients sh.index) }) shares

def splitByte (rand : Rand) (threshold : Nat) (shares : List Share) (entry : UInt8 × Nat) :
    Except String (List Share) :=
  match rand.read entry.2 (threshold - 1) with
  | .error error => .error ("recovery: generate coefficients: " ++ error)
  | .ok coefficients => .ok (storeByte (entry.1 :: coefficients) entry.2 shares)

def split (rand : Rand) (secret : Bytes) (threshold n : Int) : Except String (List Share) :=
  if secret.length = 0 then .error "recovery: secret must not be empty"
  else if threshold < 2 ∨ threshold > n ∨ n > 255 then
    .error ("recovery: invalid parameters (threshold=" ++ toString threshold ++ ", n=" ++
      toString n ++ ")")
  else
    let shares := (List.range n.toNat).map fun i =>
      (⟨UInt8.ofNat (i + 1), List.replicate secret.length 0⟩ : Share)
    secret.zipIdx.foldlM (splitByte rand threshold.toNat) shares

def combine : List Share → Except String Bytes
  | first :: second :: rest =>
      let shares := first :: second :: rest
      let length := first.value.length
      if (second :: rest).any fun share => share.value.length ≠ length then
        .error "recovery: shares have inconsistent lengths"
      else
        .ok ((List.range length).map fun byteIdx =>
          gfLagrange (shares.map Share.index) (shares.map fun share => share.value.getD byteIdx 0))
  | _ => .error "recovery: need at least 2 shares"

/-! ## What the shares hold -/

/-- The share at an index, when `drawn` are the bytes of each call. -/
def shareOf (secret : Bytes) (drawn : Nat → Bytes) (index : UInt8) : Share :=
  ⟨index, secret.mapIdx fun byteIdx byte => gfPolyEval (byte :: drawn byteIdx) index⟩

theorem slot_of_index {slot : Nat} (small : slot < 255) :
    (UInt8.ofNat (slot + 1) - 1).toNat = slot := by
  have numbered : (UInt8.ofNat (slot + 1)).toNat = slot + 1 := by
    rw [UInt8.toNat_ofNat']
    omega
  rw [UInt8.toNat_sub_of_le]
  · rw [numbered]
    rfl
  · rw [UInt8.le_iff_toNat_le, numbered]
    exact Nat.le_add_left 1 slot

theorem foldl_modify {Item : Type} (change : Nat → Item → Item) (items : List Item) (slots : Nat) :
    (List.range slots).foldl (fun stored slot => stored.modify slot (change slot)) items =
      items.mapIdx fun slot item => if slot < slots then change slot item else item := by
  induction slots with
  | zero =>
      apply List.ext_getElem?
      intro slot
      rw [List.getElem?_mapIdx, List.range_zero, List.foldl_nil]
      exact Option.map_id'.symm
  | succ slots ih =>
      rw [List.range_succ, List.foldl_append, ih]
      apply List.ext_getElem?
      intro slot
      rw [List.foldl_cons, List.foldl_nil, List.getElem?_modify, List.getElem?_mapIdx,
        List.getElem?_mapIdx]
      cases items[slot]? with
      | none => rfl
      | some item =>
          by_cases same : slots = slot
          · subst same
            simp
          · have next : slot < slots + 1 ↔ slot < slots := by omega
            simp [same, next]

/-- The shares when `values` are the values of their slots. -/
def sharesOf (n : Nat) (values : Nat → Bytes) : List Share :=
  (List.range n).map fun slot => ⟨UInt8.ofNat (slot + 1), values slot⟩

theorem storeByte_sharesOf {n : Nat} (most : n ≤ 255) (coefficients : Bytes) (byteIdx : Nat)
    (values : Nat → Bytes) :
    storeByte coefficients byteIdx (sharesOf n values) = sharesOf n fun slot =>
      (values slot).set byteIdx (gfPolyEval coefficients (UInt8.ofNat (slot + 1))) := by
  have stored : storeByte coefficients byteIdx (sharesOf n values) =
      (List.range n).foldl (fun stored slot => stored.modify slot fun share =>
        { share with value :=
            share.value.set byteIdx (gfPolyEval coefficients (UInt8.ofNat (slot + 1))) })
        (sharesOf n values) := by
    unfold storeByte
    conv =>
      left
      arg 3
      rw [sharesOf]
    rw [List.foldl_map]
    apply List.foldl_ext
    intro stored slot member
    have inside := List.mem_range.mp member
    rw [slot_of_index (by omega)]
  rw [stored, foldl_modify]
  apply List.ext_getElem?
  intro slot
  rw [List.getElem?_mapIdx, sharesOf, sharesOf, List.getElem?_map, List.getElem?_map]
  by_cases inside : slot < n
  · rw [List.getElem?_range inside]
    simp only [Option.map_some, if_pos inside]
  · rw [List.getElem?_eq_none (by rw [List.length_range]; omega)]
    rfl

variable {rand : Rand} {drawn : Nat → Bytes} {secret : Bytes} {threshold n : Int}
  {picked : List Share} {indices : Finset UInt8}

theorem foldlM_splitByte {threshold : Nat} {n : Nat}
    (most : n ≤ 255) (rest : Bytes) : ∀ done : Nat → Bytes,
      ∀ start, (∀ slot, (done slot).length = start) →
      (∀ byteIdx, start ≤ byteIdx → byteIdx < start + rest.length →
        rand.read byteIdx (threshold - 1) = .ok (drawn byteIdx)) →
      (rest.zipIdx start).foldlM (splitByte rand threshold)
          (sharesOf n fun slot => done slot ++ List.replicate rest.length 0) =
        .ok (sharesOf n fun slot => done slot ++ rest.mapIdx fun offset byte =>
          gfPolyEval (byte :: drawn (start + offset)) (UInt8.ofNat (slot + 1))) := by
  induction rest with
  | nil =>
      intro done start _ _
      rfl
  | cons byte rest ih =>
      intro done start length reads
      have read := reads start (le_refl start) (by rw [List.length_cons]; omega)
      rw [List.zipIdx_cons, List.foldlM_cons, splitByte, read]
      simp only [storeByte_sharesOf most]
      have next := ih (fun slot => done slot ++
          [gfPolyEval (byte :: drawn start) (UInt8.ofNat (slot + 1))]) (start + 1)
        (fun slot => by rw [List.length_append, length slot]; rfl)
        (fun byteIdx low high => reads byteIdx (by omega) (by rw [List.length_cons]; omega))
      have placed : ∀ slot, (done slot ++ List.replicate (byte :: rest).length 0).set start
            (gfPolyEval (byte :: drawn start) (UInt8.ofNat (slot + 1))) =
          done slot ++ [gfPolyEval (byte :: drawn start) (UInt8.ofNat (slot + 1))] ++
            List.replicate rest.length 0 := by
        intro slot
        rw [List.set_append_right _ _ (by rw [length slot]), length slot, Nat.sub_self,
          List.length_cons, List.replicate_succ, List.set_cons_zero, List.append_assoc,
          List.singleton_append]
      simp only [placed]
      refine next.trans ?_
      congr 2
      funext slot
      rw [List.append_assoc, List.singleton_append, List.mapIdx_cons, Nat.add_zero]
      congr 3
      funext offset byte
      rw [Nat.add_assoc, Nat.add_comm 1]

theorem split_eq (nonempty : secret ≠ [])
    (least : 2 ≤ threshold) (within : threshold ≤ n) (most : n ≤ 255)
    (reads : ∀ byteIdx < secret.length,
      rand.read byteIdx (threshold.toNat - 1) = .ok (drawn byteIdx)) :
    split rand secret threshold n = .ok ((List.range n.toNat).map fun slot =>
      shareOf secret drawn (UInt8.ofNat (slot + 1))) := by
  have length : secret.length ≠ 0 := fun zero => nonempty (List.eq_nil_of_length_eq_zero zero)
  rw [split, if_neg length, if_neg (by omega)]
  have filled := foldlM_splitByte (show n.toNat ≤ 255 by omega) secret (fun _ => []) 0
    (fun _ => rfl) (fun byteIdx _ inside => reads byteIdx (by omega))
  simp only [Nat.zero_add, List.nil_append] at filled
  exact filled

/-! ## Combine -/

theorem mk_gfPolyEval (coeffs : Bytes) (x : UInt8) :
    (⟨gfPolyEval coeffs x⟩ : Gf256) = hornerEval (coeffs.map Gf256.mk) ⟨x⟩ := by
  induction coeffs with
  | nil => rfl
  | cons coeff coeffs ih =>
      have step : (⟨gfPolyEval (coeff :: coeffs) x⟩ : Gf256) =
          ⟨gfPolyEval coeffs x⟩ * ⟨x⟩ + ⟨coeff⟩ := by
        rw [← Gf256.mk_gfMul]
        rfl
      rw [step, ih]
      rfl

theorem mk_foldl_xor (term : Nat → UInt8) (count : Nat) :
    (⟨(List.range count).foldl (fun result i => result ^^^ term i) 0⟩ : Gf256) =
      ∑ i ∈ Finset.range count, ⟨term i⟩ := by
  induction count with
  | zero => rfl
  | succ count ih =>
      rw [List.range_succ, List.foldl_append, Finset.sum_range_succ, ← ih]
      rfl

theorem mk_products (i : Nat) (first second : Nat → UInt8) (count : Nat) :
    let product := (List.range count).foldl (fun product j =>
      if i = j then product else (gfMul product.1 (first j), gfMul product.2 (second j))) (1, 1)
    (⟨product.1⟩ : Gf256) = ∏ j ∈ (Finset.range count).erase i, (⟨first j⟩ : Gf256) ∧
      (⟨product.2⟩ : Gf256) = ∏ j ∈ (Finset.range count).erase i, (⟨second j⟩ : Gf256) := by
  induction count with
  | zero => exact ⟨rfl, rfl⟩
  | succ count ih =>
      obtain ⟨ihFirst, ihSecond⟩ := ih
      rw [List.range_succ, List.foldl_append, Finset.range_add_one]
      by_cases same : i = count
      · have absent : count ∉ Finset.range count := Finset.notMem_range_self
        subst same
        rw [Finset.erase_insert absent]
        rw [Finset.erase_eq_of_notMem absent] at ihFirst ihSecond
        simp only [List.foldl_cons, List.foldl_nil, if_true]
        exact ⟨ihFirst, ihSecond⟩
      · have absent : count ∉ (Finset.range count).erase i := fun member =>
          Finset.notMem_range_self (Finset.mem_of_mem_erase member)
        rw [Finset.erase_insert_of_ne (Ne.symm same), Finset.prod_insert absent,
          Finset.prod_insert absent]
        simp only [List.foldl_cons, List.foldl_nil, if_neg same]
        rw [Gf256.mk_gfMul, Gf256.mk_gfMul, ihFirst, ihSecond]
        exact ⟨mul_comm _ _, mul_comm _ _⟩

theorem mk_gfLagrange (xs ys : Bytes) :
    (⟨gfLagrange xs ys⟩ : Gf256) = ∑ i ∈ Finset.range xs.length,
      (⟨ys.getD i 0⟩ : Gf256) *
        weightAtZero (Finset.range xs.length) (fun j => ⟨xs.getD j 0⟩) i := by
  rw [gfLagrange, mk_foldl_xor]
  apply Finset.sum_congr rfl
  intro i _
  obtain ⟨numerator, denominator⟩ := mk_products i (fun j => xs.getD j 0)
    (fun j => xs.getD i 0 ^^^ xs.getD j 0) xs.length
  have inverse : ∀ byte : UInt8, (⟨gfInv byte⟩ : Gf256) = (⟨byte⟩ : Gf256)⁻¹ := fun byte => rfl
  rw [Gf256.mk_gfMul, Gf256.mk_gfMul, inverse, numerator, denominator, weightAtZero]
  have difference : ∀ j, (⟨xs.getD i 0 ^^^ xs.getD j 0⟩ : Gf256) =
      ⟨xs.getD j 0⟩ - ⟨xs.getD i 0⟩ := by
    intro j
    rw [sub_eq_add_neg, add_comm]
    rfl
  simp only [difference]

theorem combine_eq (two : 2 ≤ picked.length) {length : Nat}
    (lengths : ∀ share ∈ picked, share.value.length = length) :
    combine picked = .ok ((List.range length).map fun byteIdx =>
      gfLagrange (picked.map Share.index)
        (picked.map fun share => share.value.getD byteIdx 0)) := by
  obtain ⟨first, second, rest, rfl⟩ : ∃ first second rest, picked = first :: second :: rest := by
    cases picked with
    | nil => exact absurd two (by decide)
    | cons first picked =>
        cases picked with
        | nil => exact absurd two (by simp)
        | cons second rest => exact ⟨first, second, rest, rfl⟩
  have same := lengths first List.mem_cons_self
  have consistent : ((second :: rest).any fun share =>
      decide (share.value.length ≠ first.value.length)) = false := by
    rw [List.any_eq_false]
    intro share member
    rw [decide_eq_true_iff, not_not, same]
    exact lengths share (List.mem_cons_of_mem _ member)
  rw [combine, consistent, same]
  rfl

theorem injOn_indices {indices : Bytes} (distinct : indices.Nodup) :
    Set.InjOn (fun j => (⟨indices.getD j 0⟩ : Gf256)) (Finset.range indices.length : Set Nat) := by
  intro left leftIn right rightIn same
  have leftInside := Finset.mem_range.mp leftIn
  have rightInside := Finset.mem_range.mp rightIn
  have bytes := congrArg Gf256.byte same
  simp only [List.getD_eq_getElem _ _ leftInside, List.getD_eq_getElem _ _ rightInside] at bytes
  exact (distinct.getElem_inj_iff).mp bytes

theorem gfLagrange_shares {indices : Bytes} (distinct : indices.Nodup) (byte : UInt8)
    {drawn : Bytes} (enough : drawn.length + 1 ≤ indices.length) :
    gfLagrange indices (indices.map (gfPolyEval (byte :: drawn))) = byte := by
  have restored := sum_weightAtZero (injOn_indices distinct) (⟨byte⟩ : Gf256) (drawn.map Gf256.mk)
    (by rwa [List.length_map, Finset.card_range])
  have sum := mk_gfLagrange indices (indices.map (gfPolyEval (byte :: drawn)))
  apply congrArg Gf256.byte (sum.trans (Eq.trans ?_ restored))
  apply Finset.sum_congr rfl
  intro i member
  have inside := Finset.mem_range.mp member
  congr 1
  rw [List.getD_eq_getElem _ _ (by rwa [List.length_map]), List.getElem_map, mk_gfPolyEval,
    List.getD_eq_getElem _ _ inside]
  rfl

theorem values_shareOf
    (shares : ∀ share ∈ picked, share = shareOf secret drawn share.index) {byteIdx : Nat}
    (inside : byteIdx < secret.length) :
    (picked.map fun share => share.value.getD byteIdx 0) =
      (picked.map Share.index).map (gfPolyEval (secret[byteIdx] :: drawn byteIdx)) := by
  rw [List.map_map]
  apply List.map_congr_left
  intro share member
  rw [shares share member, shareOf, List.getD_eq_getElem _ _ (by rwa [List.length_mapIdx]),
    List.getElem_mapIdx]
  rfl

theorem combine_shareOf
    (two : 2 ≤ picked.length)
    (shares : ∀ share ∈ picked, share = shareOf secret drawn share.index) :
    combine picked = .ok (secret.mapIdx fun byteIdx byte =>
      gfLagrange (picked.map Share.index)
        ((picked.map Share.index).map (gfPolyEval (byte :: drawn byteIdx)))) := by
  have lengths : ∀ share ∈ picked, share.value.length = secret.length := by
    intro share member
    rw [shares share member, shareOf, List.length_mapIdx]
  rw [combine_eq two lengths]
  congr 1
  apply List.ext_getElem
  · rw [List.length_map, List.length_range, List.length_mapIdx]
  · intro byteIdx _ inside
    rw [List.length_mapIdx] at inside
    rw [List.getElem_map, List.getElem_range, List.getElem_mapIdx, values_shareOf shares inside]

/-- The shares have the indices `1` to `n`, and any list of at least `threshold` of them with
distinct indices gives the secret back. -/
theorem combine_split (nonempty : secret ≠ [])
    (least : 2 ≤ threshold) (within : threshold ≤ n) (most : n ≤ 255)
    (reads : ∀ byteIdx < secret.length, (rand.read byteIdx (threshold.toNat - 1)).isOk) :
    ∃ shares, split rand secret threshold n = .ok shares ∧
      shares.map (fun share => share.index.toNat) = List.range' 1 n.toNat ∧
      ∀ picked : List Share, (∀ share ∈ picked, share ∈ shares) →
        (picked.map Share.index).Nodup → threshold ≤ picked.length →
          combine picked = .ok secret := by
  have drawn : ∀ byteIdx, ∃ bytes, byteIdx < secret.length →
      rand.read byteIdx (threshold.toNat - 1) = .ok bytes := by
    intro byteIdx
    by_cases inside : byteIdx < secret.length
    · cases read : rand.read byteIdx (threshold.toNat - 1) with
      | error error =>
          have ok := reads byteIdx inside
          rw [read] at ok
          cases ok
      | ok bytes => exact ⟨bytes, fun _ => rfl⟩
    · exact ⟨[], fun less => absurd less inside⟩
  choose drawn reads using drawn
  refine ⟨_, split_eq nonempty least within most reads, ?_, ?_⟩
  · rw [List.range'_eq_map_range, List.map_map]
    refine List.map_congr_left fun slot inside => ?_
    have small := List.mem_range.mp inside
    simp only [Function.comp_apply, shareOf, UInt8.toNat_ofNat']
    omega
  intro picked among distinct enough
  have shares : ∀ share ∈ picked, share = shareOf secret drawn share.index := by
    intro share member
    obtain ⟨slot, _, exact⟩ := List.mem_map.mp (among share member)
    rw [← exact]
    rfl
  rw [combine_shareOf (by omega) shares]
  congr 1
  apply List.ext_getElem (List.length_mapIdx ..)
  intro byteIdx _ inside
  rw [List.getElem_mapIdx]
  apply gfLagrange_shares distinct
  have length := rand.length_read (reads byteIdx inside)
  rw [length, List.length_map]
  omega

def fixedRand : Rand where
  read _ length := .ok (List.replicate length 7)
  length_read read := by
    cases read
    exact List.length_replicate ..

theorem combine_split_two_of_three : ∃ shares, split fixedRand [42, 0] 2 3 = .ok shares ∧
    shares.map (fun share => share.index.toNat) = [1, 2, 3] ∧
    ∀ picked : List Share, (∀ share ∈ picked, share ∈ shares) →
      (picked.map Share.index).Nodup → 2 ≤ (picked.length : Int) →
        combine picked = .ok [42, 0] :=
  combine_split (by decide) (by decide) (by decide) (by decide) fun _ _ => rfl

/-! ## What fewer shares tell -/

def Rand.of {calls count : Nat} (choice : Fin calls → Fin count → UInt8) : Rand where
  read call length := .ok (
    if inside : call < calls ∧ length = count then List.ofFn (choice ⟨call, inside.1⟩)
    else List.replicate length 0)
  length_read := by
    intro call length bytes read
    cases read
    split_ifs with inside
    · rw [List.length_ofFn, inside.2]
    · exact List.length_replicate ..

/-- The choices of the drawn bytes under which `Split` gives the values at the indices. -/
def choicesGiving (secret : Bytes) (threshold n : Int) (indices : Finset UInt8)
    (values : UInt8 → Bytes) : Set (Fin secret.length → Fin (threshold.toNat - 1) → UInt8) :=
  { choice | ∃ shares, split (Rand.of choice) secret threshold n = .ok shares ∧
      ∀ index ∈ indices, ⟨index, values index⟩ ∈ shares }

theorem existsUnique_drawn {count : Nat} (card : indices.card = count)
    (nonzero : 0 ∉ indices) (byte : UInt8) (value : UInt8 → UInt8) :
    ∃! drawn : Fin count → UInt8,
      ∀ index ∈ indices, gfPolyEval (byte :: List.ofFn drawn) index = value index := by
  let listed := indices.equivFinOfCardEq card
  let point : Fin count → Gf256 := fun slot => ⟨listed.symm slot⟩
  have distinct : Function.Injective point := by
    intro left right same
    exact listed.symm.injective (Subtype.ext (congrArg Gf256.byte same))
  have apart : ∀ slot, point slot ≠ 0 := by
    intro slot zero
    have member := (listed.symm slot).property
    have byteZero : (listed.symm slot : UInt8) = 0 := congrArg Gf256.byte zero
    rw [byteZero] at member
    exact nonzero member
  have meets : ∀ drawn : Fin count → UInt8,
      (∀ index ∈ indices, gfPolyEval (byte :: List.ofFn drawn) index = value index) ↔
        ∀ slot, hornerEval ((⟨byte⟩ : Gf256) :: List.ofFn fun position => ⟨drawn position⟩)
          (point slot) = ⟨value (listed.symm slot)⟩ := by
    intro drawn
    have eval : ∀ index, (⟨gfPolyEval (byte :: List.ofFn drawn) index⟩ : Gf256) =
        hornerEval ((⟨byte⟩ : Gf256) :: List.ofFn fun position => ⟨drawn position⟩) ⟨index⟩ := by
      intro index
      rw [mk_gfPolyEval, List.map_cons, List.map_ofFn]
      rfl
    constructor
    · intro gives slot
      rw [← eval, gives _ (listed.symm slot).property]
    · intro gives index member
      have atSlot := gives (listed ⟨index, member⟩)
      simp only [point, Equiv.symm_apply_apply, ← eval] at atSlot
      exact congrArg Gf256.byte atSlot
  obtain ⟨others, gives, unique⟩ := existsUnique_coefficients distinct apart ⟨byte⟩
    fun slot => ⟨value (listed.symm slot)⟩
  refine ⟨fun position => (others position).byte, (meets _).mpr gives, ?_⟩
  intro drawn given
  funext position
  exact congrArg Gf256.byte (congrFun (unique _ ((meets drawn).mp given)) position)

theorem mem_choicesGiving (nonempty : secret ≠ [])
    (least : 2 ≤ threshold) (within : threshold ≤ n) (most : n ≤ 255)
    (numbered : ∀ index ∈ indices, 1 ≤ index.toNat ∧ index.toNat ≤ n)
    {values : UInt8 → Bytes} (lengths : ∀ index ∈ indices, (values index).length = secret.length)
    (choice : Fin secret.length → Fin (threshold.toNat - 1) → UInt8) :
    choice ∈ choicesGiving secret threshold n indices values ↔
      ∀ byteIdx : Fin secret.length, ∀ index ∈ indices,
        gfPolyEval (secret[byteIdx] :: List.ofFn (choice byteIdx)) index =
          (values index).getD byteIdx 0 := by
  let drawn : Nat → Bytes := fun byteIdx =>
    if inside : byteIdx < secret.length then List.ofFn (choice ⟨byteIdx, inside⟩) else []
  have reads : ∀ byteIdx < secret.length,
      (Rand.of choice).read byteIdx (threshold.toNat - 1) = .ok (drawn byteIdx) := by
    intro byteIdx inside
    simp only [Rand.of, drawn, inside, dif_pos, and_self]
  have given := split_eq nonempty least within most reads
  have held : ∀ index ∈ indices, (⟨index, values index⟩ ∈ (List.range n.toNat).map fun slot =>
      shareOf secret drawn (UInt8.ofNat (slot + 1))) ↔
        shareOf secret drawn index = ⟨index, values index⟩ := by
    intro index member
    obtain ⟨low, high⟩ := numbered index member
    constructor
    · intro listed
      obtain ⟨slot, _, exact⟩ := List.mem_map.mp listed
      have same : UInt8.ofNat (slot + 1) = index := congrArg Share.index exact
      rw [same] at exact
      exact exact
    · intro exact
      refine List.mem_map.mpr ⟨index.toNat - 1, List.mem_range.mpr (by omega), ?_⟩
      rw [Nat.sub_add_cancel low, UInt8.ofNat_toNat]
      exact exact
  have value : ∀ index ∈ indices, shareOf secret drawn index = ⟨index, values index⟩ ↔
      ∀ byteIdx : Fin secret.length,
        gfPolyEval (secret[byteIdx] :: List.ofFn (choice byteIdx)) index =
          (values index).getD byteIdx 0 := by
    intro index member
    have length := lengths index member
    have drawnAt : ∀ byteIdx : Fin secret.length, drawn byteIdx = List.ofFn (choice byteIdx) :=
      fun byteIdx => dif_pos byteIdx.isLt
    constructor
    · intro exact byteIdx
      have same : (shareOf secret drawn index).value = values index := congrArg Share.value exact
      rw [← same, shareOf,
        List.getD_eq_getElem _ _ (by rw [List.length_mapIdx]; exact byteIdx.isLt),
        List.getElem_mapIdx, drawnAt]
      rfl
    · intro bytes
      rw [shareOf]
      congr 1
      apply List.ext_getElem
      · rw [List.length_mapIdx, length]
      · intro byteIdx inside valueInside
        rw [List.length_mapIdx] at inside
        have at_ := bytes ⟨byteIdx, inside⟩
        rw [List.getD_eq_getElem _ _ valueInside] at at_
        rw [List.getElem_mapIdx, ← at_, ← drawnAt]
        rfl
  constructor
  · intro giving byteIdx index member
    obtain ⟨shares, ran, all⟩ := giving
    cases given.symm.trans ran
    exact (value index member).mp ((held index member).mp (all index member)) byteIdx
  · intro bytes
    refine ⟨_, given, fun index member => (held index member).mpr ((value index member).mpr ?_)⟩
    intro byteIdx
    exact bytes byteIdx index member

/-- One share fewer than the threshold tells nothing: exactly one choice of the drawn bytes
gives the values, whatever the secret. -/
theorem ncard_choicesGiving (nonempty : secret ≠ [])
    (least : 2 ≤ threshold) (within : threshold ≤ n) (most : n ≤ 255)
    (card : indices.card = threshold.toNat - 1)
    (numbered : ∀ index ∈ indices, 1 ≤ index.toNat ∧ index.toNat ≤ n) {values : UInt8 → Bytes}
    (lengths : ∀ index ∈ indices, (values index).length = secret.length) :
    (choicesGiving secret threshold n indices values).ncard = 1 := by
  have nonzero : 0 ∉ indices := fun member => absurd (numbered 0 member).1 (by decide)
  have each := fun byteIdx : Fin secret.length => existsUnique_drawn card nonzero secret[byteIdx]
    fun index => (values index).getD byteIdx 0
  choose choice gives unique using each
  rw [Set.ncard_eq_one]
  refine ⟨choice, Set.eq_singleton_iff_unique_mem.mpr ⟨?_, ?_⟩⟩
  · exact (mem_choicesGiving nonempty least within most numbered lengths choice).mpr gives
  · intro other giving
    have given := (mem_choicesGiving nonempty least within most numbered lengths other).mp giving
    funext byteIdx
    exact unique byteIdx (other byteIdx) (given byteIdx)

/-- The share with index 2 of a secret shared among three. -/
theorem ncard_choicesGiving_two_of_three :
    (choicesGiving [42] 2 3 {2} fun _ => [200]).ncard = 1 :=
  ncard_choicesGiving (by decide) (by decide) (by decide) (by decide) rfl
    (fun index member => by
      rw [Finset.mem_singleton.mp member]
      decide)
    fun _ _ => rfl

end Pantheon.Identity
