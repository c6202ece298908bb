import Mathlib

/-!
# Programs that call out, and their interleavings

A `Program` is a tree of calls: what it does after a call depends on the
reply.  Several programs that share one store run as threads; a turn executes
the next call of one of them, and the environment's choice says how that call
goes.  Between two calls of a thread every other thread may take any number
of turns.
-/

set_option autoImplicit false

namespace Pantheon.Lib

inductive Program (Op : Type) (Reply : Op → Type) (α : Type) where
  | done (result : α)
  | call (op : Op) (rest : Reply op → Program Op Reply α)

namespace Program

variable {Op : Type} {Reply : Op → Type} {α β : Type}

def bind : Program Op Reply α → (α → Program Op Reply β) → Program Op Reply β
  | done result, next => next result
  | call op rest, next => call op fun reply => (rest reply).bind next

instance : Monad (Program Op Reply) where
  pure := done
  bind := bind

def perform (op : Op) : Program Op Reply (Reply op) :=
  call op done

@[simp] theorem pure_eq (result : α) : (pure result : Program Op Reply α) = done result :=
  rfl

@[simp] theorem done_bind (result : α) (next : α → Program Op Reply β) :
    (done result >>= next) = next result :=
  rfl

@[simp] theorem call_bind (op : Op) (rest : Reply op → Program Op Reply α)
    (next : α → Program Op Reply β) :
    (call op rest >>= next) = call op fun reply => rest reply >>= next :=
  rfl

@[simp] theorem perform_bind (op : Op) (next : Reply op → Program Op Reply β) :
    ((perform op : Program Op Reply (Reply op)) >>= next) = call op next :=
  rfl

def outcome : Program Op Reply α → Option α
  | done result => some result
  | call _ _ => none

theorem eq_done_of_outcome {program : Program Op Reply α} {result : α}
    (ended : program.outcome = some result) : program = done result := by
  cases program with
  | done other => rw [Option.some.inj ended]
  | call op rest => cases ended

/-- Whatever the replies, the program does not end with such a result. -/
def Never (wanted : α → Prop) : Program Op Reply α → Prop
  | done result => ¬ wanted result
  | call _ rest => ∀ reply, (rest reply).Never wanted

/-- Whatever the replies, before the program ends with such a result it makes
a spending call, and the first spending call it makes is one of `clears`. -/
def Owes (wanted : α → Prop) (spends clears : Op → Prop) : Program Op Reply α → Prop
  | done result => ¬ wanted result
  | call op rest =>
      (spends op ∧ clears op) ∨ (¬ spends op ∧ ∀ reply, (rest reply).Owes wanted spends clears)

theorem Owes.mono {wanted : α → Prop} {spends clears clears' : Op → Prop}
    (weaker : ∀ op, clears op → clears' op) :
    ∀ {program : Program Op Reply α}, program.Owes wanted spends clears →
      program.Owes wanted spends clears' := by
  intro program
  induction program with
  | done result => exact id
  | call op rest ih =>
      intro owes
      rcases owes with ⟨spending, clearing⟩ | ⟨other, later⟩
      · exact Or.inl ⟨spending, weaker op clearing⟩
      · exact Or.inr ⟨other, fun reply => ih reply (later reply)⟩

/-- Whatever the replies, the program makes no spending call. -/
def Avoids (spends : Op → Prop) : Program Op Reply α → Prop
  | done _ => True
  | call op rest => ¬ spends op ∧ ∀ reply, (rest reply).Avoids spends

theorem Owes.of_avoids {wanted : β → Prop} {spends clears : Op → Prop}
    {next : α → Program Op Reply β} (later : ∀ result, (next result).Owes wanted spends clears) :
    ∀ {first : Program Op Reply α}, first.Avoids spends →
      (first >>= next).Owes wanted spends clears := by
  intro first
  induction first with
  | done result =>
      intro _
      exact later result
  | call op rest ih =>
      intro avoids
      exact Or.inr ⟨avoids.1, fun reply => ih reply (avoids.2 reply)⟩

end Program

/-! ## Threads over one store -/

section Threads

variable {Op : Type} {Reply : Op → Type} {α Request Choice Store : Type}

/-- One request in progress: the calls it has made and what it has yet to do. -/
structure Thread (Op : Type) (Reply : Op → Type) (α Request Choice : Type) where
  request : Request
  calls : List (Op × Choice)
  program : Program Op Reply α

structure Shared (Op : Type) (Reply : Op → Type) (α Request Choice Store : Type) where
  store : Store
  threads : List (Thread Op Reply α Request Choice)

/-- Which thread moves, and how its call goes. -/
structure Turn (Choice : Type) where
  thread : Nat
  choice : Choice

def arrive (handle : Request → Program Op Reply α) (store : Store) (requests : List Request) :
    Shared Op Reply α Request Choice Store :=
  { store, threads := requests.map fun request => ⟨request, [], handle request⟩ }

variable (exec : Choice → (op : Op) → Store → Store × Reply op)

def takeTurn (shared : Shared Op Reply α Request Choice Store) (turn : Turn Choice) :
    Option (Shared Op Reply α Request Choice Store) :=
  match shared.threads[turn.thread]? with
  | none => none
  | some thread =>
      match thread.program with
      | .done _ => none
      | .call op rest =>
          let (store, reply) := exec turn.choice op shared.store
          some
            { store
              threads := shared.threads.set turn.thread
                { thread with
                  calls := thread.calls ++ [(op, turn.choice)]
                  program := rest reply } }

variable {exec}

theorem takeTurn_cases {shared next : Shared Op Reply α Request Choice Store} {turn : Turn Choice}
    (taken : takeTurn exec shared turn = some next) :
    ∃ (thread : Thread Op Reply α Request Choice) (op : Op)
      (rest : Reply op → Program Op Reply α),
      shared.threads[turn.thread]? = some thread ∧ thread.program = .call op rest ∧
      next.store = (exec turn.choice op shared.store).1 ∧
      next.threads = shared.threads.set turn.thread
        ⟨thread.request, thread.calls ++ [(op, turn.choice)],
          rest (exec turn.choice op shared.store).2⟩ := by
  unfold takeTurn at taken
  split at taken
  · cases taken
  · next thread found =>
      split at taken
      · cases taken
      · next op rest shape =>
          cases Option.some.inj taken
          exact ⟨thread, op, rest, found, shape, rfl, rfl⟩

/-- After a turn a thread is the one that moved, one call further, or it is
as it was. -/
theorem thread_after_turn {threads : List (Thread Op Reply α Request Choice)} {place index : Nat}
    {moved thread : Thread Op Reply α Request Choice}
    (present : (threads.set place moved)[index]? = some thread) :
    (index = place ∧ thread = moved) ∨ (index ≠ place ∧ threads[index]? = some thread) := by
  rw [List.getElem?_set] at present
  by_cases same : place = index
  · rw [if_pos same] at present
    split_ifs at present with inside
    exact Or.inl ⟨same.symm, (Option.some.inj present).symm⟩
  · rw [if_neg same] at present
    exact Or.inr ⟨fun h => same h.symm, present⟩

/-- The other threads have not started or have ended. -/
def otherThreadsIdle (shared : Shared Op Reply α Request Choice Store) (turn : Turn Choice) :
    Bool :=
  shared.threads.zipIdx.all fun (thread, index) =>
    index == turn.thread || thread.calls.isEmpty || thread.program.outcome.isSome

theorem idle_of_otherThreadsIdle {shared : Shared Op Reply α Request Choice Store}
    {turn : Turn Choice} (idle : otherThreadsIdle shared turn = true) {index : Nat}
    {thread : Thread Op Reply α Request Choice} (present : shared.threads[index]? = some thread)
    (apart : index ≠ turn.thread) :
    thread.calls = [] ∨ ∃ result, thread.program = .done result := by
  have mem : (thread, index) ∈ shared.threads.zipIdx :=
    List.mem_zipIdx_iff_getElem?.mpr present
  have checked := List.all_eq_true.mp idle _ mem
  simp only [Bool.or_eq_true, beq_iff_eq, List.isEmpty_iff, Option.isSome_iff_exists] at checked
  rcases checked with (same | untouched) | ⟨result, ended⟩
  · exact absurd same apart
  · exact Or.inl untouched
  · exact Or.inr ⟨result, Program.eq_done_of_outcome ended⟩

end Threads

end Pantheon.Lib
