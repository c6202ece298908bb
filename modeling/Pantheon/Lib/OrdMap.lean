import Mathlib

/-!
# Ordered maps as sorted association lists

The functional reading of an ordered map container: entries in strictly
increasing key order.  The order is a field of the type, so an unsorted map
cannot be built and no operation below needs a well-formedness hypothesis.
Iteration is `toList`; `seek` is the first entry at or after a bound.
-/

set_option autoImplicit false

namespace Pantheon.Lib

structure OrdMap (K V : Type) [LinearOrder K] where
  toList : List (K × V)
  sorted : toList.Pairwise fun left right => left.1 < right.1

namespace OrdMap

variable {K V : Type} [LinearOrder K]

def empty : OrdMap K V := ⟨[], List.Pairwise.nil⟩

def insertList (key : K) (value : V) : List (K × V) → List (K × V)
  | [] => [(key, value)]
  | head :: rest =>
      if key < head.1 then (key, value) :: head :: rest
      else if key = head.1 then (key, value) :: rest
      else head :: insertList key value rest

theorem mem_insertList_imp (key : K) (value : V) (entry : K × V) :
    ∀ entries : List (K × V), entry ∈ insertList key value entries →
      entry = (key, value) ∨ entry ∈ entries := by
  intro entries
  induction entries with
  | nil => intro member; simpa [insertList] using member
  | cons head rest ih =>
      intro member
      unfold insertList at member
      split_ifs at member with below same
      · simpa using member
      · rcases List.mem_cons.mp member with found | found
        · exact Or.inl found
        · exact Or.inr (List.mem_cons_of_mem _ found)
      · rcases List.mem_cons.mp member with found | found
        · exact Or.inr (found ▸ List.mem_cons_self)
        · rcases ih found with found | found
          · exact Or.inl found
          · exact Or.inr (List.mem_cons_of_mem _ found)

theorem insertList_sorted (key : K) (value : V) :
    ∀ entries : List (K × V), entries.Pairwise (fun left right => left.1 < right.1) →
      (insertList key value entries).Pairwise fun left right => left.1 < right.1 := by
  intro entries
  induction entries with
  | nil => intro _; simp [insertList]
  | cons head rest ih =>
      intro sorted
      obtain ⟨headBelow, restSorted⟩ := List.pairwise_cons.mp sorted
      unfold insertList
      split_ifs with below same
      · refine List.pairwise_cons.mpr ⟨?_, sorted⟩
        intro entry member
        rcases List.mem_cons.mp member with rfl | member
        · exact below
        · exact below.trans (headBelow entry member)
      · refine List.pairwise_cons.mpr ⟨?_, restSorted⟩
        intro entry member
        exact same ▸ headBelow entry member
      · refine List.pairwise_cons.mpr ⟨?_, ih restSorted⟩
        intro entry member
        rcases mem_insertList_imp key value entry rest member with rfl | member
        · exact lt_of_le_of_ne (le_of_not_gt below) (Ne.symm same)
        · exact headBelow entry member

def insert (map : OrdMap K V) (key : K) (value : V) : OrdMap K V :=
  ⟨insertList key value map.toList, insertList_sorted key value map.toList map.sorted⟩

def get? (map : OrdMap K V) (key : K) : Option V :=
  (map.toList.find? fun entry => decide (entry.1 = key)).map Prod.snd

def erase (map : OrdMap K V) (key : K) : OrdMap K V :=
  ⟨map.toList.filter fun entry => decide (entry.1 ≠ key), map.sorted.filter _⟩

/-- The first entry whose key is at or after `bound`, as `range(bound..).next()`. -/
def seek (map : OrdMap K V) (bound : K) : Option (K × V) :=
  map.toList.find? fun entry => decide (bound ≤ entry.1)

def firstKey (map : OrdMap K V) : Option K := map.toList.head?.map Prod.fst

@[simp] theorem empty_toList : (empty : OrdMap K V).toList = [] := rfl

theorem key_unique (map : OrdMap K V) (left right : K × V) (leftMember : left ∈ map.toList)
    (rightMember : right ∈ map.toList) (same : left.1 = right.1) : left = right := by
  have keysNodup : (map.toList.map Prod.fst).Nodup :=
    List.pairwise_map.mpr (map.sorted.imp fun less => ne_of_lt less)
  exact List.inj_on_of_nodup_map keysNodup leftMember rightMember same

theorem mem_insertList (key : K) (value : V) (entry : K × V) :
    ∀ entries : List (K × V), entries.Pairwise (fun left right => left.1 < right.1) →
      (entry ∈ insertList key value entries ↔
        entry = (key, value) ∨ entry ∈ entries ∧ entry.1 ≠ key) := by
  intro entries
  induction entries with
  | nil => intro _; simp [insertList]
  | cons head rest ih =>
      intro sorted
      obtain ⟨headBelow, restSorted⟩ := List.pairwise_cons.mp sorted
      unfold insertList
      split_ifs with below same
      · have apart : ∀ other ∈ head :: rest, other.1 ≠ key := by
          intro other member
          rcases List.mem_cons.mp member with rfl | member
          · exact ne_of_gt below
          · exact ne_of_gt (below.trans (headBelow other member))
        rw [List.mem_cons]
        exact or_congr_right ⟨fun member => ⟨member, apart entry member⟩, And.left⟩
      · have apart : ∀ other ∈ rest, other.1 ≠ key := by
          intro other member
          exact ne_of_gt (same ▸ headBelow other member)
        rw [List.mem_cons, List.mem_cons]
        constructor
        · rintro (found | member)
          · exact Or.inl found
          · exact Or.inr ⟨Or.inr member, apart entry member⟩
        · rintro (found | ⟨rfl | member, differs⟩)
          · exact Or.inl found
          · exact absurd same.symm differs
          · exact Or.inr member
      · rw [List.mem_cons, List.mem_cons, ih restSorted]
        constructor
        · rintro (rfl | found | ⟨member, differs⟩)
          · exact Or.inr ⟨Or.inl rfl, Ne.symm same⟩
          · exact Or.inl found
          · exact Or.inr ⟨Or.inr member, differs⟩
        · rintro (found | ⟨rfl | member, differs⟩)
          · exact Or.inr (Or.inl found)
          · exact Or.inl rfl
          · exact Or.inr (Or.inr ⟨member, differs⟩)

theorem mem_insert (map : OrdMap K V) (key : K) (value : V) (entry : K × V) :
    entry ∈ (map.insert key value).toList ↔
      entry = (key, value) ∨ entry ∈ map.toList ∧ entry.1 ≠ key :=
  mem_insertList key value entry map.toList map.sorted

theorem mem_erase (map : OrdMap K V) (key : K) (entry : K × V) :
    entry ∈ (map.erase key).toList ↔ entry ∈ map.toList ∧ entry.1 ≠ key := by
  simp [erase]

theorem get?_eq_some (map : OrdMap K V) (key : K) (value : V) :
    map.get? key = some value ↔ (key, value) ∈ map.toList := by
  unfold get?
  constructor
  · intro found
    obtain ⟨entry, hit, rfl⟩ := Option.map_eq_some_iff.mp found
    have member := List.mem_of_find?_eq_some hit
    have keyExact : entry.1 = key := by simpa using List.find?_some hit
    rwa [← keyExact]
  · intro member
    cases hit : map.toList.find? fun entry => decide (entry.1 = key) with
    | none => exact absurd (List.find?_eq_none.mp hit _ member) (by simp)
    | some entry =>
        have keyExact : entry.1 = key := by simpa using List.find?_some hit
        have entryExact := map.key_unique entry (key, value) (List.mem_of_find?_eq_some hit) member
          keyExact
        simp [entryExact]

theorem get?_eq_none (map : OrdMap K V) (key : K) :
    map.get? key = none ↔ ∀ entry ∈ map.toList, entry.1 ≠ key := by
  simp [get?]

theorem get?_insert (map : OrdMap K V) (key : K) (value : V) (other : K) :
    (map.insert key value).get? other = if other = key then some value else map.get? other := by
  split_ifs with same
  · exact (get?_eq_some _ _ _).mpr ((mem_insert _ _ _ _).mpr (Or.inl (by rw [same])))
  · cases found : map.get? other with
    | none =>
        rw [get?_eq_none] at found ⊢
        intro entry member
        rcases (mem_insert map key value entry).mp member with rfl | ⟨member, _⟩
        · exact Ne.symm same
        · exact found entry member
    | some held =>
        rw [get?_eq_some] at found ⊢
        exact (mem_insert map key value _).mpr (Or.inr ⟨found, same⟩)

theorem get?_erase (map : OrdMap K V) (key other : K) :
    (map.erase key).get? other = if other = key then none else map.get? other := by
  refine Option.ext fun value => ?_
  rw [get?_eq_some, mem_erase]
  split_ifs with same
  · simp [same]
  · rw [get?_eq_some]
    exact and_iff_left same

/-- `seek` stops at a minimum of the entries at or after its bound. -/
theorem seek_eq_some (map : OrdMap K V) (bound : K) (entry : K × V)
    (found : map.seek bound = some entry) :
    entry ∈ map.toList ∧ bound ≤ entry.1 ∧
      ∀ other ∈ map.toList, bound ≤ other.1 → entry.1 ≤ other.1 := by
  obtain ⟨reached, before, after, split, skipped⟩ := List.find?_eq_some_iff_append.mp found
  refine ⟨List.mem_of_find?_eq_some found, by simpa using reached, ?_⟩
  intro other member above
  rw [split] at member
  rcases List.mem_append.mp member with member | member
  · exact absurd above (by simpa using skipped other member)
  · rcases List.mem_cons.mp member with rfl | member
    · exact le_rfl
    · have sorted := map.sorted
      rw [split] at sorted
      exact le_of_lt ((List.pairwise_cons.mp (List.pairwise_append.mp sorted).2.1).1 other member)

theorem find?_insertList (bound key : K) (value : V) : ∀ entries : List (K × V),
    entries.Pairwise (fun left right => left.1 < right.1) →
    (insertList key value entries).find? (fun entry => decide (bound ≤ entry.1)) =
      if bound ≤ key then
        match entries.find? fun entry => decide (bound ≤ entry.1) with
        | some entry => if entry.1 < key then some entry else some (key, value)
        | none => some (key, value)
      else entries.find? fun entry => decide (bound ≤ entry.1) := by
  intro entries
  induction entries with
  | nil =>
      intro _
      by_cases reached : bound ≤ key <;> simp [insertList, reached]
  | cons head rest ih =>
      intro sorted
      unfold insertList
      by_cases below : key < head.1
      · by_cases reached : bound ≤ key
        · have headReached : bound ≤ head.1 := reached.trans (le_of_lt below)
          simp [below, reached, headReached, not_lt_of_gt below]
        · simp [below, reached]
      · by_cases same : key = head.1
        · by_cases reached : bound ≤ head.1 <;> simp [same, reached]
        · have above : head.1 < key := lt_of_le_of_ne (le_of_not_gt below) (Ne.symm same)
          rw [if_neg below, if_neg same]
          by_cases headReached : bound ≤ head.1
          · have reached : bound ≤ key := headReached.trans (le_of_lt above)
            simp [headReached, reached, above]
          · rw [List.find?_cons_of_neg (by simpa using headReached),
              List.find?_cons_of_neg (by simpa using headReached),
              ih (List.pairwise_cons.mp sorted).2]

/-- What an insertion does to a seek: it moves it only from a later entry. -/
theorem seek_insert (map : OrdMap K V) (key : K) (value : V) (bound : K) :
    (map.insert key value).seek bound =
      if bound ≤ key then
        match map.seek bound with
        | some entry => if entry.1 < key then some entry else some (key, value)
        | none => some (key, value)
      else map.seek bound :=
  find?_insertList bound key value map.toList map.sorted

/-- Two lists in key order with the same entries are the same list. -/
theorem sorted_ext {left right : List (K × V)}
    (leftSorted : left.Pairwise fun one other => one.1 < other.1)
    (rightSorted : right.Pairwise fun one other => one.1 < other.1)
    (same : ∀ entry, entry ∈ left ↔ entry ∈ right) : left = right := by
  have perm : left.Perm right := by
    refine (List.perm_ext_iff_of_nodup ?_ ?_).mpr same
    · exact leftSorted.imp fun less equal => absurd (congrArg Prod.fst equal) (ne_of_lt less)
    · exact rightSorted.imp fun less equal => absurd (congrArg Prod.fst equal) (ne_of_lt less)
  exact perm.eq_of_pairwise
    (fun one other _ _ less more => absurd more (lt_asymm less)) leftSorted rightSorted

/-- The first key is a lower bound of the key set. -/
theorem firstKey_le (map : OrdMap K V) (key : K) (first : map.firstKey = some key) :
    ∀ entry ∈ map.toList, key ≤ entry.1 := by
  intro entry member
  unfold firstKey at first
  cases listEq : map.toList with
  | nil => rw [listEq] at member; exact absurd member List.not_mem_nil
  | cons head rest =>
      have sorted := map.sorted
      rw [listEq] at first member sorted
      have headExact : head.1 = key := by simpa using first
      rw [← headExact]
      rcases List.mem_cons.mp member with rfl | member
      · exact le_rfl
      · exact le_of_lt ((List.pairwise_cons.mp sorted).1 entry member)

theorem firstKey_eq_none (map : OrdMap K V) : map.firstKey = none ↔ map.toList = [] := by
  simp [firstKey]

/-! ## Updating every value -/

def mapValues (update : K → V → V) (map : OrdMap K V) : OrdMap K V where
  toList := map.toList.map fun entry => (entry.1, update entry.1 entry.2)
  sorted := List.pairwise_map.mpr map.sorted

theorem mapValues_congr {left right : K → V → V} (map : OrdMap K V)
    (same : ∀ entry ∈ map.toList, left entry.1 entry.2 = right entry.1 entry.2) :
    map.mapValues left = map.mapValues right := by
  unfold mapValues
  rw [mk.injEq]
  refine List.map_congr_left fun entry member => ?_
  rw [same entry member]

theorem mapValues_eq_self (update : K → V → V) (map : OrdMap K V)
    (same : ∀ key value, map.get? key = some value → update key value = value) :
    map.mapValues update = map := by
  have entries : map.toList.map (fun entry => (entry.1, update entry.1 entry.2)) = map.toList := by
    refine Eq.trans (List.map_congr_left fun entry member => ?_) (List.map_id _)
    rw [same entry.1 entry.2 ((get?_eq_some _ _ _).mpr member), id]
  cases map
  simp only [mapValues, mk.injEq]
  exact entries

theorem get?_mapValues (update : K → V → V) (map : OrdMap K V) (key : K) :
    (map.mapValues update).get? key = (map.get? key).map (update key) := by
  refine Option.ext fun value => ?_
  rw [get?_eq_some, Option.map_eq_some_iff]
  constructor
  · intro member
    obtain ⟨entry, inside, same⟩ := List.mem_map.mp member
    obtain ⟨rfl, rfl⟩ := Prod.mk.inj same
    exact ⟨entry.2, (get?_eq_some _ _ _).mpr inside, rfl⟩
  · rintro ⟨old, found, rfl⟩
    exact List.mem_map.mpr ⟨(key, old), (get?_eq_some _ _ _).mp found, rfl⟩

theorem nodup (map : OrdMap K V) : map.toList.Nodup :=
  map.sorted.imp fun less same => ne_of_lt less (congrArg Prod.fst same)

/-- The entries of a map with one key set aside. -/
theorem perm_erase_of_get? (map : OrdMap K V) {key : K} {value : V}
    (found : map.get? key = some value) :
    map.toList.Perm ((key, value) :: (map.erase key).toList) := by
  have fresh : (key, value) ∉ (map.erase key).toList := fun member =>
    ((mem_erase _ _ _).mp member).2 rfl
  refine (List.perm_ext_iff_of_nodup map.nodup (List.nodup_cons.mpr ⟨fresh, nodup _⟩)).mpr ?_
  intro entry
  rw [List.mem_cons, mem_erase]
  constructor
  · intro member
    by_cases same : entry.1 = key
    · exact Or.inl (map.key_unique _ _ member ((get?_eq_some _ _ _).mp found) same)
    · exact Or.inr ⟨member, same⟩
  · rintro (rfl | ⟨member, _⟩)
    · exact (get?_eq_some _ _ _).mp found
    · exact member

theorem erase_of_get?_none (map : OrdMap K V) {key : K} (absent : map.get? key = none) :
    (map.erase key).toList = map.toList :=
  List.filter_eq_self.mpr fun entry member => by
    simpa using (get?_eq_none map key).mp absent entry member

theorem perm_insert (map : OrdMap K V) (key : K) (value : V) :
    (map.insert key value).toList.Perm ((key, value) :: (map.erase key).toList) := by
  have found : (map.insert key value).get? key = some value := by
    rw [get?_insert, if_pos rfl]
  have same : ((map.insert key value).erase key).toList = (map.erase key).toList := by
    refine sorted_ext (sorted _) (sorted _) fun entry => ?_
    rw [mem_erase, mem_erase, mem_insert]
    constructor
    · rintro ⟨rfl | ⟨member, _⟩, other⟩
      · exact absurd rfl other
      · exact ⟨member, other⟩
    · rintro ⟨member, other⟩
      exact ⟨Or.inr ⟨member, other⟩, other⟩
  have perm := (map.insert key value).perm_erase_of_get? found
  rwa [same] at perm

end OrdMap

end Pantheon.Lib
