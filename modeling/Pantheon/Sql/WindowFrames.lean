import Mathlib
import Pantheon.Sql.Window

/-!
# The rows of a window frame

A frame reaches from one distance to another from the current row.  Both ends are
moved into the partition before the rows are taken, so a frame that lies outside
the partition still has a row at its edge.
-/

set_option autoImplicit false

namespace Pantheon.Sql

open Pantheon.Lib

variable {part : List WindowRow} {pos length : Nat} {start stop : Int}
  {offset : Option Expr → Except String Int}

/-! ## Rows by their positions -/

/-- The rows of a partition whose positions satisfy the predicate, with these positions. -/
def rowsAt (part : List WindowRow) (chosen : Nat → Bool) : List (WindowRow × Nat) :=
  part.zipIdx.filter fun row => chosen row.2

theorem drop_take_zipIdx {Row : Type} : ∀ (rows : List Row) (offset first behind : Nat),
    ((rows.zipIdx offset).take behind).drop first =
      (rows.zipIdx offset).filter fun row =>
        decide (offset + first ≤ row.2 ∧ row.2 < offset + behind) := by
  intro rows
  induction rows with
  | nil => intros; simp
  | cons row rows ih =>
      intro offset first behind
      cases behind with
      | zero =>
          rw [List.take_zero, List.drop_nil]
          symm
          rw [List.filter_eq_nil_iff]
          intro other _
          rw [decide_eq_true_eq]
          omega
      | succ behind =>
          rw [List.zipIdx_cons, List.take_succ_cons, List.filter_cons]
          cases first with
          | zero =>
              have here : decide (offset + 0 ≤ offset ∧ offset < offset + (behind + 1)) = true :=
                decide_eq_true ⟨by omega, by omega⟩
              have others := ih (offset + 1) 0 behind
              rw [List.drop_zero] at others ⊢
              rw [if_pos here, others]
              congr 1
              apply List.filter_congr
              intro other member
              have behind_ := List.le_snd_of_mem_zipIdx member
              simp only [decide_eq_decide]
              omega
          | succ first =>
              have here : ¬decide (offset + (first + 1) ≤ offset ∧ offset < offset + (behind + 1)) =
                  true := by
                rw [decide_eq_true_eq]
                omega
              rw [List.drop_succ_cons, ih (offset + 1) first behind, if_neg here]
              apply List.filter_congr
              intro other _
              simp only [decide_eq_decide]
              omega

theorem drop_take_eq_rowsAt (part : List WindowRow) (first behind : Nat) :
    (part.zipIdx.take behind).drop first =
      rowsAt part fun q => decide (first ≤ q ∧ q < behind) := by
  have rows := drop_take_zipIdx part 0 first behind
  simp only [Nat.zero_add] at rows
  exact rows

theorem rowsAt_eq_iff {left right : Nat → Bool} :
    rowsAt part left = rowsAt part right ↔ ∀ q < part.length, left q = right q := by
  constructor
  · intro same q inside
    have member : (part[q], q) ∈ part.zipIdx := by
      rw [List.mem_zipIdx_iff_getElem?]
      exact List.getElem?_eq_getElem inside
    have both : ((part[q], q) ∈ rowsAt part left) ↔ (part[q], q) ∈ rowsAt part right := by rw [same]
    simp only [rowsAt, List.mem_filter, member, true_and] at both
    exact Bool.eq_iff_iff.mpr both
  · intro same
    apply List.filter_congr
    intro row member
    obtain ⟨inside, _⟩ := List.mem_zipIdx' member
    exact same row.2 inside

/-! ## Frames -/

def boundDistance (offset : Option Expr → Except String Int) (bound : FrameBound) (pos : Nat)
    (length : Nat) : Except String Int :=
  match bound.boundType with
  | .unboundedPreceding => .ok (-(pos : Int))
  | .unboundedFollowing => .ok ((length : Int) - 1 - pos)
  | .currentRow => .ok 0
  | .preceding => do .ok (-(← offset bound.offset))
  | .following => offset bound.offset

def frameDistances (offset : Option Expr → Except String Int) (frame : WindowFrame) (pos : Nat)
    (length : Nat) : Except String (Int × Int) := do
  let start ← boundDistance offset frame.start pos length
  let stop ← match frame.stop with
    | some bound => boundDistance offset bound pos length
    | none => .ok 0
  .ok (start, stop)

def between (pos : Nat) (start stop : Int) (q : Nat) : Bool :=
  decide ((pos : Int) + start ≤ q ∧ (q : Int) ≤ pos + stop)

theorem between_iff {q : Nat} :
    between pos start stop q = true ↔ (pos : Int) + start ≤ q ∧ (q : Int) ≤ pos + stop :=
  decide_eq_true_iff

def FrameFits (length pos : Nat) (start stop : Int) : Prop :=
  (pos : Int) + start < length ∧ 0 ≤ (pos : Int) + stop ∧
    ((pos : Int) + stop < 2 ^ 63 ∨ length = 1)

/-- The first and the last row of a frame with these unclamped ends. -/
def clampedEnds (length : Nat) (first last : Int) : Nat × Nat :=
  let startPos := clampInt 0 ((length : Int) - 1) (wrapSigned64 first)
  let stopPos := clampInt 0 ((length : Int) - 1) (wrapSigned64 last)
  ((min startPos stopPos).toNat, (max startPos stopPos).toNat)

theorem wrapSigned64_of_large {value : Int} (large : 2 ^ 63 ≤ value) (small : value < 2 ^ 64) :
    wrapSigned64 value = value - 2 ^ 64 := by
  unfold wrapSigned64
  omega

theorem clampedEnds_of_fits {first last : Int} (some_ : 0 < length)
    (lower : -2 ^ 63 ≤ first) (ordered : first ≤ last) (fits : last < 2 ^ 63) :
    clampedEnds length first last =
      ((clampInt 0 ((length : Int) - 1) first).toNat,
        (clampInt 0 ((length : Int) - 1) last).toNat) := by
  have firstWrapped := wrapSigned64_of_isSigned64 (show IsSigned64 first from ⟨lower, by omega⟩)
  have lastWrapped := wrapSigned64_of_isSigned64 (show IsSigned64 last from ⟨by omega, fits⟩)
  have sorted : clampInt 0 ((length : Int) - 1) first ≤ clampInt 0 ((length : Int) - 1) last := by
    unfold clampInt
    omega
  simp only [clampedEnds, firstWrapped, lastWrapped, min_eq_left sorted, max_eq_right sorted]

theorem clampedEnds_of_large {first last : Int} (some_ : 0 < length)
    (lower : -2 ^ 63 ≤ first) (large : 2 ^ 63 ≤ last) (small : last < 2 ^ 64)
    (size : length < 2 ^ 63) :
    (clampedEnds length first last).1 = 0 ∧
      (first ≤ 0 → (clampedEnds length first last).2 = 0) := by
  have lastWrapped := wrapSigned64_of_large large small
  have zero : clampInt 0 ((length : Int) - 1) (last - 2 ^ 64) = 0 := by
    unfold clampInt
    omega
  have nonneg : 0 ≤ clampInt 0 ((length : Int) - 1) (wrapSigned64 first) := by
    unfold clampInt
    omega
  refine ⟨by simp only [clampedEnds, lastWrapped, zero, min_eq_right nonneg, Int.toNat_zero], ?_⟩
  intro before
  have firstWrapped := wrapSigned64_of_isSigned64 (show IsSigned64 first from ⟨lower, by omega⟩)
  have firstZero : clampInt 0 ((length : Int) - 1) first = 0 := by
    unfold clampInt
    omega
  simp only [clampedEnds, lastWrapped, zero, firstWrapped, firstZero, max_self, Int.toNat_zero]

theorem clampedEnds_iff (first last : Int) (some_ : 0 < length)
    (size : length < 2 ^ 63) (lower : -2 ^ 63 ≤ first) (ordered : first ≤ last)
    (upper : last < 2 ^ 64) :
    (∀ q < length, ((clampedEnds length first last).1 ≤ q ∧ q ≤ (clampedEnds length first last).2 ↔
        first ≤ q ∧ (q : Int) ≤ last)) ↔
      first < length ∧ 0 ≤ last ∧ (last < 2 ^ 63 ∨ length = 1) := by
  have inside : (clampedEnds length first last).1 < length ∧
      (clampedEnds length first last).1 ≤ (clampedEnds length first last).2 ∧
      (clampedEnds length first last).2 < length := by
    simp only [clampedEnds, clampInt]
    omega
  by_cases fits : last < 2 ^ 63
  · rw [clampedEnds_of_fits some_ lower ordered fits] at inside ⊢
    simp only [clampInt] at inside ⊢
    constructor
    · intro same
      have edge := same _ inside.1
      omega
    · intro meets q _
      omega
  · obtain ⟨start, stop⟩ := clampedEnds_of_large some_ lower (by omega) upper size
    constructor
    · intro same
      have zero := same 0 some_
      have final := same (length - 1) (by omega)
      have before : first ≤ 0 := by omega
      have edge := stop before
      omega
    · intro meets q _
      omega

section

variable (lib : Library)

theorem frameBoundOffset_of_distance
    {bound : FrameBound} {distance : Int}
    (typed : ∀ expr value, offset expr = .ok value → IsSigned64 value)
    (inside : pos < length) (size : length < 2 ^ 63)
    (found : boundDistance offset bound pos length = .ok distance) :
    frameBoundOffset offset bound pos length = .ok (wrapSigned64 distance) ∧
      -2 ^ 63 ≤ distance ∧ distance ≤ 2 ^ 63 := by
  have kept : ∀ value : Int, IsSigned64 value → -2 ^ 63 ≤ value ∧ value ≤ 2 ^ 63 :=
    fun value range => ⟨range.1, le_of_lt range.2⟩
  unfold boundDistance at found
  unfold frameBoundOffset
  cases kind : bound.boundType with
  | unboundedPreceding | unboundedFollowing | currentRow =>
      simp only [kind, Except.ok.injEq] at found ⊢
      have range : IsSigned64 distance := ⟨by omega, by omega⟩
      exact ⟨by rw [wrapSigned64_of_isSigned64 range, found], kept distance range⟩
  | preceding =>
      simp only [kind] at found ⊢
      cases read : offset bound.offset with
      | error message =>
          rw [read] at found
          cases found
      | ok value =>
          obtain ⟨lower, upper⟩ := typed _ value read
          rw [read] at found
          have exact_ : -value = distance := Except.ok.inj found
          refine ⟨?_, by omega, by omega⟩
          rw [← exact_]
          rfl
  | following =>
      simp only [kind] at found ⊢
      have range := typed _ distance found
      exact ⟨by rw [wrapSigned64_of_isSigned64 range, found], kept distance range⟩

theorem wrapSigned64_add_wrapSigned64 (left right : Int) :
    wrapSigned64 (left + wrapSigned64 right) = wrapSigned64 (left + right) := by
  unfold wrapSigned64
  omega

theorem resolveFrameBounds_of_distances
    {frame : WindowFrame} (ordered : Bool)
    (typed : ∀ expr value, offset expr = .ok value → IsSigned64 value)
    (inside : pos < part.length) (size : part.length < 2 ^ 63)
    (distances : frameDistances offset frame pos part.length = .ok (start, stop)) :
    resolveFrameBounds lib offset (some frame) ordered part pos =
        .ok ((clampedEnds part.length (pos + start) (pos + stop)).1,
          (clampedEnds part.length (pos + start) (pos + stop)).2 + 1) ∧
      -2 ^ 63 ≤ start ∧ stop ≤ 2 ^ 63 := by
  unfold frameDistances at distances
  cases first : boundDistance offset frame.start pos part.length with
  | error message =>
      rw [first] at distances
      cases distances
  | ok startDistance =>
      obtain ⟨startRead, startLower, startUpper⟩ :=
        frameBoundOffset_of_distance typed inside size first
      have ends : ∀ value : Int, wrapSigned64 (pos + wrapSigned64 value) =
          wrapSigned64 (pos + value) := wrapSigned64_add_wrapSigned64 pos
      cases last : frame.stop with
      | none =>
          rw [first, last] at distances
          cases distances
          refine ⟨?_, startLower, by decide⟩
          simp only [resolveFrameBounds, startRead, last, bind, Except.bind, ends, clampedEnds]
      | some bound =>
          cases final : boundDistance offset bound pos part.length with
          | error message =>
              simp only [first, last, final] at distances
              cases distances
          | ok stopDistance =>
              obtain ⟨stopRead, stopLower, stopUpper⟩ :=
                frameBoundOffset_of_distance typed inside size final
              simp only [first, last, final] at distances
              cases distances
              refine ⟨?_, startLower, stopUpper⟩
              simp only [resolveFrameBounds, startRead, last, stopRead, bind, Except.bind, ends,
                clampedEnds]

def framedRows (offset : Option Expr → Except String Int) (frame : Option WindowFrame)
    (ordered : Bool) (part : List WindowRow) (pos : Nat) :
    Except String (List (WindowRow × Nat)) := do
  let bounds ← resolveFrameBounds lib offset frame ordered part pos
  .ok ((part.zipIdx.take bounds.2).drop bounds.1)

theorem frameAggregate_rows (name : String) (arg : Option Expr) (part : List WindowRow)
    (bounds : Nat × Nat) :
    frameAggregate lib name arg part bounds =
      let rows := (part.zipIdx.take bounds.2).drop bounds.1
      evalAggregate lib name arg false rows.length (rows.flatMap fun row => row.1.bare) := by
  have rows : (part.take bounds.2).drop bounds.1 =
      ((part.zipIdx.take bounds.2).drop bounds.1).map Prod.fst := by
    rw [List.map_drop, List.map_take, List.zipIdx_map_fst]
  simp only [frameAggregate, rows, List.length_map, List.flatMap_map]

theorem computeWindowValue_framed {func : String}
    {args : List Expr} {frame : Option WindowFrame} {ordered : Bool}
    {row : WindowRow}
    (aggregate : lib.lowercase func ∈ ["sum", "avg", "count", "min", "max"]) :
    computeWindowValue lib offset func args frame ordered part row pos =
      (do
        let rows ← framedRows lib offset frame ordered part pos
        evalAggregate lib (lib.lowercase func)
          (if lib.lowercase func = "count" ∧ isStar args.head? then none else args.head?) false
          rows.length (rows.flatMap fun row => row.1.bare)) := by
  have listed : ["sum", "avg", "count", "min", "max"].contains (lib.lowercase func) = true :=
    List.contains_iff_mem.mpr aggregate
  have others : ∀ name ∈ ["row_number", "rank", "dense_rank", "ntile", "lag", "lead"],
      lib.lowercase func ≠ name := by
    intro name member same
    rw [same] at aggregate
    have apart : ∀ name ∈ ["row_number", "rank", "dense_rank", "ntile", "lag", "lead"],
        name ∉ ["sum", "avg", "count", "min", "max"] := by decide
    exact apart name member aggregate
  simp only [List.forall_mem_cons, List.not_mem_nil, false_imp_iff, implies_true, and_true]
    at others
  obtain ⟨notNumber, notRank, notDense, notTile, notLag, notLead⟩ := others
  simp only [computeWindowValue, if_neg notNumber, if_neg notRank, if_neg notDense, if_neg notTile,
    notLag, notLead, or_self, if_false, listed, if_true, framedRows, frameAggregate_rows]
  cases resolveFrameBounds lib offset frame ordered part pos <;> rfl

/-- An aggregate over a frame is computed over exactly the rows between its two ends where
the frame has a row; otherwise over a row that does not belong. -/
theorem window_frame_iff {func : String}
    {args : List Expr} {frame : WindowFrame} {ordered : Bool}
    {row : WindowRow}
    (typed : ∀ expr value, offset expr = .ok value → IsSigned64 value)
    (aggregate : lib.lowercase func ∈ ["sum", "avg", "count", "min", "max"])
    (inside : pos < part.length) (size : part.length < 2 ^ 63)
    (distances : frameDistances offset frame pos part.length = .ok (start, stop))
    (ascending : start ≤ stop) :
    computeWindowValue lib offset func args (some frame) ordered part row pos =
        (do
          let rows ← framedRows lib offset (some frame) ordered part pos
          evalAggregate lib (lib.lowercase func)
            (if lib.lowercase func = "count" ∧ isStar args.head? then none else args.head?) false
            rows.length (rows.flatMap fun row => row.1.bare)) ∧
      (framedRows lib offset (some frame) ordered part pos =
          .ok (rowsAt part (between pos start stop)) ↔
        FrameFits part.length pos start stop) := by
  refine ⟨computeWindowValue_framed lib aggregate, ?_⟩
  obtain ⟨bounds, lower, upper⟩ :=
    resolveFrameBounds_of_distances lib ordered typed inside size distances
  have ends := clampedEnds_iff (pos + start) (pos + stop) (by omega) size (by omega) (by omega)
    (by omega)
  rw [FrameFits, ← ends]
  simp only [framedRows, bounds, bind, Except.bind, drop_take_eq_rowsAt, Except.ok.injEq,
    rowsAt_eq_iff]
  refine forall_congr' fun q => imp_congr_right fun _ => ?_
  rw [Bool.eq_iff_iff, between_iff, decide_eq_true_iff, Nat.lt_succ_iff]

end

/-! ## Three rows -/

def threeRows : List WindowRow := [1, 2, 3].map fun number =>
  { args := [.ok (.int number)], bare := [.ok (.int number)], partition := [], order := [] }

def oneRow : Option Expr → Except String Int := fun _ => .ok 1

def twoRows : Option Expr → Except String Int := fun _ => .ok 2

/-- `ROWS BETWEEN n PRECEDING AND CURRENT ROW`. -/
def rowsBefore : WindowFrame := ⟨.rows, ⟨.preceding, none⟩, some ⟨.currentRow, none⟩⟩

/-- `ROWS BETWEEN n PRECEDING AND n PRECEDING`. -/
def rowBefore : WindowFrame := ⟨.rows, ⟨.preceding, none⟩, some ⟨.preceding, none⟩⟩

theorem window_frame_of_two_rows :
    framedRows Library.basic oneRow (some rowsBefore) true threeRows 1 =
        .ok (rowsAt threeRows (between 1 (-1) 0)) ∧
      computeWindowValue Library.basic oneRow "sum" [.ident "x"] (some rowsBefore) true threeRows
        ⟨[], [], [], []⟩ 1 = .ok (.int 3) := by
  have typed : ∀ expr value, oneRow expr = .ok value → IsSigned64 value := by
    intro _ value read
    cases read
    decide
  have frame : computeWindowValue Library.basic oneRow "sum" [.ident "x"] (some rowsBefore) true
      threeRows ⟨[], [], [], []⟩ 1 = _ ∧ (_ ↔ FrameFits threeRows.length 1 (-1) 0) :=
    window_frame_iff Library.basic typed (by decide) (by decide) (by decide) rfl (by decide)
  refine ⟨frame.2.mpr ⟨by decide, by decide, by decide⟩, ?_⟩
  decide +kernel

/-- The frame before the first row is empty, and one row is counted. -/
theorem frame_before_first_row :
    rowsAt threeRows (between 0 (-2) (-2)) = [] ∧
      computeWindowValue Library.basic twoRows "count" [.ident "*"] (some rowBefore) true threeRows
        ⟨[], [], [], []⟩ 0 = .ok (.int 1) := by
  decide +kernel

end Pantheon.Sql
