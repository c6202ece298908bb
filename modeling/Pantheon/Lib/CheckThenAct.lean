import Mathlib
import Pantheon.Lib.Program

/-!
# Check, then act

A request looks something up and, where it finds it redeemable, goes on to
make a call that clears it; lookup and clearing are separate turns.  As long as
nothing is looked up while another request stands between its lookup and its
clearing call, and every clearing call clears, at most one request gets
through.  The invariant follows the requests that present one artefact through
four phases.
-/

set_option autoImplicit false

namespace Pantheon.Lib

section CheckThenAct

variable {Op : Type} {Reply : Op → Type} {α Request Choice Store : Type}

/-- What a group of requests redeems: which requests present it, which result
counts as redeemed, which calls are meant to spend something, when it can be
redeemed from a store, and which calls clear it from that store. -/
structure Artefact (Op α Request Store : Type) where
  presents : Request → Prop
  redeemed : α → Prop
  spends : Op → Prop
  redeemable : Store → Prop
  clears : Store → Op → Prop

variable (artefact : Artefact Op α Request Store)

/-- The thread has made its lookup and may still end with a redemption, or
has ended with one. -/
def Thread.Active (thread : Thread Op Reply α Request Choice) : Prop :=
  thread.calls ≠ [] ∧ ¬ thread.program.Never artefact.redeemed

/-- The thread has started, has not ended, and has made no spending call. -/
def Thread.Between (thread : Thread Op Reply α Request Choice) : Prop :=
  thread.calls ≠ [] ∧ (∀ call ∈ thread.calls, ¬ artefact.spends call.1) ∧
    ∀ result, thread.program ≠ .done result

inductive Phase (handle : Request → Program Op Reply α) (store : Store)
    (thread : Thread Op Reply α Request Choice) : Prop where
  | waiting (untouched : thread.calls = []) (initial : thread.program = handle thread.request)
  | refused (never : thread.program.Never artefact.redeemed)
  | holding (started : thread.calls ≠ [])
      (unspent : ∀ call ∈ thread.calls, ¬ artefact.spends call.1)
      (owes : thread.program.Owes artefact.redeemed artefact.spends (artefact.clears store))
  | spent (started : thread.calls ≠ []) (gone : ¬ artefact.redeemable store)

/-- Every request that presents the artefact is in some phase, and no two of
them are active. -/
structure Exclusive (handle : Request → Program Op Reply α)
    (shared : Shared Op Reply α Request Choice Store) : Prop where
  phase : ∀ (index : Nat) (thread : Thread Op Reply α Request Choice),
    shared.threads[index]? = some thread → artefact.presents thread.request →
    Phase artefact handle shared.store thread
  alone : ∀ (first second : Nat) (left right : Thread Op Reply α Request Choice),
    shared.threads[first]? = some left → shared.threads[second]? = some right →
    artefact.presents left.request → artefact.presents right.request →
    left.Active artefact → right.Active artefact → first = second

/-- The request's program starts with its lookup.  Where that finds nothing
to redeem it never redeems, otherwise it owes the clearing call. -/
def LooksUpFirst (exec : Choice → (op : Op) → Store → Store × Reply op)
    (program : Program Op Reply α) : Prop :=
  program.Never artefact.redeemed ∨
    ∃ (lookup : Op) (rest : Reply lookup → Program Op Reply α),
      program = .call lookup rest ∧ ¬ artefact.spends lookup ∧
      ∀ (choice : Choice) (store : Store),
        (exec choice lookup store).1 = store ∧
        ((rest (exec choice lookup store).2).Never artefact.redeemed ∨
          artefact.redeemable store ∧
            (rest (exec choice lookup store).2).Owes artefact.redeemed artefact.spends
              (artefact.clears store))

/-- What the turn does to the artefact: no request looks it up while another
one is between lookup and clearing, a clearing call clears it, once cleared it
stays so, and a call that would have cleared it still would. -/
structure KeepsApart (exec : Choice → (op : Op) → Store → Store × Reply op)
    (shared next : Shared Op Reply α Request Choice Store) (turn : Turn Choice) : Prop where
  serial : ∀ (thread other : Thread Op Reply α Request Choice) (index : Nat),
    shared.threads[turn.thread]? = some thread → artefact.presents thread.request →
    thread.calls = [] → index ≠ turn.thread → shared.threads[index]? = some other →
    artefact.presents other.request → ¬ other.Between artefact
  clearing : ∀ (thread : Thread Op Reply α Request Choice) (op : Op)
    (rest : Reply op → Program Op Reply α),
    shared.threads[turn.thread]? = some thread → thread.program = .call op rest →
    artefact.spends op → artefact.clears shared.store op → ¬ artefact.redeemable next.store
  gone : ∀ (index : Nat) (thread : Thread Op Reply α Request Choice),
    shared.threads[index]? = some thread → artefact.presents thread.request →
    thread.Active artefact → ¬ artefact.redeemable shared.store → ¬ artefact.redeemable next.store
  clears : ∀ op, artefact.clears shared.store op → artefact.clears next.store op

/-- At most one of the requests that present the artefact has ended with a
redemption. -/
def Artefact.RedeemedOnce (shared : Shared Op Reply α Request Choice Store) : Prop :=
  ∀ (first second : Nat) (left right : Thread Op Reply α Request Choice)
    (leftResult rightResult : α),
    shared.threads[first]? = some left → shared.threads[second]? = some right →
    artefact.presents left.request → artefact.presents right.request →
    left.program = .done leftResult → right.program = .done rightResult →
    artefact.redeemed leftResult → artefact.redeemed rightResult → first = second

variable {artefact} {handle : Request → Program Op Reply α}
  {exec : Choice → (op : Op) → Store → Store × Reply op}
  {shared next : Shared Op Reply α Request Choice Store} {turn : Turn Choice}

theorem Exclusive.arrive (store : Store) (requests : List Request) :
    Exclusive artefact handle
      (arrive handle store requests : Shared Op Reply α Request Choice Store) where
  phase := by
    intro index thread present _
    obtain ⟨request, _, rfl⟩ := List.mem_map.mp (List.mem_of_getElem? present)
    exact Phase.waiting rfl rfl
  alone := by
    intro first second left right presentLeft _ _ _ active _
    obtain ⟨request, _, rfl⟩ := List.mem_map.mp (List.mem_of_getElem? presentLeft)
    exact absurd rfl active.1

variable {index : Nat} {thread : Thread Op Reply α Request Choice}

/-- A thread that another one's turn leaves alone stays in its phase. -/
theorem Phase.other (keeps : KeepsApart artefact exec shared next turn)
    (present : shared.threads[index]? = some thread)
    (presents : artefact.presents thread.request)
    (phase : Phase artefact handle shared.store thread) :
    Phase artefact handle next.store thread := by
  by_cases never : thread.program.Never artefact.redeemed
  · exact Phase.refused never
  · cases phase with
    | waiting untouched initial => exact Phase.waiting untouched initial
    | refused never => exact Phase.refused never
    | holding started unspent owes => exact Phase.holding started unspent (owes.mono keeps.clears)
    | spent started gone =>
        exact Phase.spent started (keeps.gone index thread present presents ⟨started, never⟩ gone)

/-- The phase of the thread that moves, after its turn.  It is active only if
it was, or if this was its lookup and found the artefact redeemable. -/
theorem Phase.moved (looks : ∀ request, artefact.presents request →
      LooksUpFirst artefact exec (handle request))
    (keeps : KeepsApart artefact exec shared next turn)
    {op : Op} {rest : Reply op → Program Op Reply α}
    (present : shared.threads[turn.thread]? = some thread)
    (shape : thread.program = .call op rest)
    (stored : next.store = (exec turn.choice op shared.store).1)
    (presents : artefact.presents thread.request)
    (phase : Phase artefact handle shared.store thread) :
    let after : Thread Op Reply α Request Choice :=
      ⟨thread.request, thread.calls ++ [(op, turn.choice)],
        rest (exec turn.choice op shared.store).2⟩
    Phase artefact handle next.store after ∧
      (after.Active artefact →
        thread.Active artefact ∨ thread.calls = [] ∧ artefact.redeemable shared.store) := by
  intro after
  have started : after.calls ≠ [] := by simp [after]
  have wasActive : thread.calls ≠ [] → after.Active artefact → thread.Active artefact := by
    intro begun active
    refine ⟨begun, fun never => active.2 ?_⟩
    rw [shape] at never
    exact never _
  cases phase with
  | waiting untouched initial =>
      rcases looks thread.request presents with never | ⟨lookup, tail, first, quiet, found⟩
      · rw [← initial, shape] at never
        exact ⟨Phase.refused (never _), fun active => absurd (never _) active.2⟩
      · rw [← initial, shape] at first
        cases first
        obtain ⟨unchanged, outcome⟩ := found turn.choice shared.store
        rw [unchanged] at stored
        rcases outcome with never | ⟨redeemable, owes⟩
        · exact ⟨Phase.refused never, fun active => absurd never active.2⟩
        · refine ⟨Phase.holding started ?_ ?_, fun _ => Or.inr ⟨untouched, redeemable⟩⟩
          · intro call made
            simp only [after, untouched, List.nil_append, List.mem_singleton] at made
            rw [made]
            exact quiet
          · rw [stored]
            exact owes
  | refused never =>
      rw [shape] at never
      exact ⟨Phase.refused (never _), fun active => absurd (never _) active.2⟩
  | holding begun unspent owes =>
      refine ⟨?_, fun active => Or.inl (wasActive begun active)⟩
      rw [shape] at owes
      rcases owes with ⟨spending, clearing⟩ | ⟨other, later⟩
      · exact Phase.spent started (keeps.clearing thread op rest present shape spending clearing)
      · refine Phase.holding started ?_ ((later _).mono keeps.clears)
        intro call made
        rcases List.mem_append.mp made with before | last
        · exact unspent call before
        · rw [List.mem_singleton.mp last]
          exact other
  | spent begun gone =>
      by_cases never : after.program.Never artefact.redeemed
      · exact ⟨Phase.refused never, fun active => absurd never active.2⟩
      · have active := wasActive begun ⟨started, never⟩
        exact ⟨Phase.spent started (keeps.gone _ thread present presents active gone),
          fun _ => Or.inl active⟩

/-- While the artefact can be redeemed and nobody is between lookup and
clearing, no other request is active. -/
theorem Exclusive.quiet (exclusive : Exclusive artefact handle shared)
    (present : shared.threads[index]? = some thread)
    (presents : artefact.presents thread.request) (idle : ¬ thread.Between artefact)
    (redeemable : artefact.redeemable shared.store) : ¬ thread.Active artefact := by
  intro active
  cases exclusive.phase index thread present presents with
  | waiting untouched _ => exact active.1 untouched
  | refused never => exact active.2 never
  | holding started unspent owes =>
      refine idle ⟨started, unspent, ?_⟩
      intro result ended
      rw [ended] at owes
      exact active.2 (by rw [ended]; exact owes)
  | spent _ gone => exact gone redeemable

theorem Exclusive.afterTurn (looks : ∀ request, artefact.presents request →
      LooksUpFirst artefact exec (handle request))
    (exclusive : Exclusive artefact handle shared)
    (taken : takeTurn exec shared turn = some next)
    (keeps : KeepsApart artefact exec shared next turn) : Exclusive artefact handle next := by
  obtain ⟨thread, op, rest, present, shape, stored, threads⟩ := takeTurn_cases taken
  have moved := fun presents => Phase.moved looks keeps present shape stored presents
    (exclusive.phase _ thread present presents)
  -- A thread active after the turn was active before, or has just looked up.
  have source : ∀ (index : Nat) (after : Thread Op Reply α Request Choice),
      next.threads[index]? = some after → artefact.presents after.request →
      after.Active artefact →
      (∃ before, shared.threads[index]? = some before ∧ artefact.presents before.request ∧
        before.Active artefact) ∨
      (index = turn.thread ∧ thread.calls = [] ∧ artefact.presents thread.request ∧
        artefact.redeemable shared.store) := by
    intro index after found presents active
    rw [threads] at found
    rcases thread_after_turn found with ⟨rfl, rfl⟩ | ⟨_, before⟩
    · rcases (moved presents).2 active with was | ⟨untouched, redeemable⟩
      · exact Or.inl ⟨thread, present, presents, was⟩
      · exact Or.inr ⟨rfl, untouched, presents, redeemable⟩
    · exact Or.inl ⟨after, before, presents, active⟩
  have lookedUp : ∀ (index : Nat) (other : Thread Op Reply α Request Choice),
      thread.calls = [] → artefact.presents thread.request → artefact.redeemable shared.store →
      shared.threads[index]? = some other → artefact.presents other.request →
      other.Active artefact → index = turn.thread := by
    intro index other untouched presents redeemable found otherPresents active
    by_contra apart
    exact exclusive.quiet found otherPresents
      (keeps.serial thread other index present presents untouched apart found otherPresents)
      redeemable active
  constructor
  · intro index after found presents
    rw [threads] at found
    rcases thread_after_turn found with ⟨rfl, rfl⟩ | ⟨_, before⟩
    · exact (moved presents).1
    · exact Phase.other keeps before presents (exclusive.phase index after before presents)
  · intro first second left right foundLeft foundRight presentsLeft presentsRight
      activeLeft activeRight
    rcases source first left foundLeft presentsLeft activeLeft with
      ⟨left', beforeLeft, presentsLeft', wasLeft⟩ | ⟨isLeft, untouched, presents, redeemable⟩
    · rcases source second right foundRight presentsRight activeRight with
        ⟨right', beforeRight, presentsRight', wasRight⟩ | ⟨isRight, untouched, presents, redeemable⟩
      · exact exclusive.alone first second left' right' beforeLeft beforeRight presentsLeft'
          presentsRight' wasLeft wasRight
      · rw [isRight]
        exact lookedUp first left' untouched presents redeemable beforeLeft presentsLeft' wasLeft
    · rcases source second right foundRight presentsRight activeRight with
        ⟨right', beforeRight, presentsRight', wasRight⟩ | ⟨isRight, _⟩
      · rw [isLeft]
        exact (lookedUp second right' untouched presents redeemable beforeRight presentsRight'
          wasRight).symm
      · rw [isLeft, isRight]

/-- A thread that ended with a redemption is active. -/
theorem Exclusive.active_of_redeemed (looks : ∀ request, artefact.presents request →
      LooksUpFirst artefact exec (handle request))
    (exclusive : Exclusive artefact handle shared)
    {result : α}
    (present : shared.threads[index]? = some thread)
    (presents : artefact.presents thread.request) (ended : thread.program = .done result)
    (redeemed : artefact.redeemed result) : thread.Active artefact := by
  have may : ¬ thread.program.Never artefact.redeemed := by
    rw [ended]
    exact fun never => never redeemed
  refine ⟨?_, may⟩
  intro untouched
  cases exclusive.phase index thread present presents with
  | waiting _ initial =>
      rcases looks thread.request presents with never | ⟨lookup, rest, first, _⟩
      · exact may (by rw [initial]; exact never)
      · rw [← initial, ended] at first
        cases first
  | refused never => exact may never
  | holding started _ _ => exact started untouched
  | spent started _ => exact started untouched

theorem Exclusive.redeemedOnce (looks : ∀ request, artefact.presents request →
      LooksUpFirst artefact exec (handle request))
    (exclusive : Exclusive artefact handle shared) : artefact.RedeemedOnce shared := by
  intro first second left right leftResult rightResult presentLeft presentRight presentsLeft
    presentsRight endedLeft endedRight redeemedLeft redeemedRight
  exact exclusive.alone first second left right presentLeft presentRight presentsLeft presentsRight
    (exclusive.active_of_redeemed looks presentLeft presentsLeft endedLeft redeemedLeft)
    (exclusive.active_of_redeemed looks presentRight presentsRight endedRight redeemedRight)

/-- Where a request has redeemed the artefact it cannot be redeemed any more. -/
theorem Exclusive.gone_of_redeemed (looks : ∀ request, artefact.presents request →
      LooksUpFirst artefact exec (handle request))
    (exclusive : Exclusive artefact handle shared)
    {result : α}
    (present : shared.threads[index]? = some thread)
    (presents : artefact.presents thread.request) (ended : thread.program = .done result)
    (redeemed : artefact.redeemed result) : ¬ artefact.redeemable shared.store := by
  have active := exclusive.active_of_redeemed looks present presents ended redeemed
  refine fun redeemable => exclusive.quiet present presents ?_ redeemable active
  exact fun between => between.2.2 result ended

end CheckThenAct

end Pantheon.Lib
