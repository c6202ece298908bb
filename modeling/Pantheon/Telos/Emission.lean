import Mathlib
import Pantheon.Telos.Transpiler

/-!
# Which body is emitted and what was verified of it

Bodies are kept and problems are found by the bare name of the function.
-/

set_option autoImplicit false

namespace Pantheon.Telos

open Pantheon.Lib

variable {outcomes : List FuncOutcome} {outcome : FuncOutcome} {module_ : Module}
  {funcIdx count : Nat} {func : Func} {problem : VerificationProblem} {stmts : List Stmt}

/-! ## Bodies -/

theorem get?_foldl_insert (outcomes : List FuncOutcome) (name : String) :
    ∀ bodies : OrdMap String (List Stmt),
      (outcomes.foldl (fun bodies outcome =>
        bodies.insert outcome.funcName outcome.finalCandidate) bodies).get? name =
        match outcomes.reverse.find? fun outcome => decide (outcome.funcName = name) with
        | some outcome => some outcome.finalCandidate
        | none => bodies.get? name := by
  induction outcomes with
  | nil =>
      intro bodies
      rfl
  | cons outcome rest ih =>
      intro bodies
      rw [List.foldl_cons, ih, List.reverse_cons, List.find?_append]
      cases rest.reverse.find? fun outcome => decide (outcome.funcName = name) with
      | some found => rfl
      | none =>
          rw [Option.none_or, OrdMap.get?_insert]
          by_cases same : outcome.funcName = name
          · rw [if_pos same.symm, List.find?_cons_of_pos (by simpa using same)]
          · rw [if_neg fun clash => same clash.symm, List.find?_cons_of_neg (by simpa using same)]
            rfl

theorem collectBodies_get? (outcomes : List FuncOutcome) (name : String) :
    (collectBodies outcomes).get? name =
      (outcomes.reverse.find? fun outcome => decide (outcome.funcName = name)).map
        FuncOutcome.finalCandidate := by
  unfold collectBodies
  rw [get?_foldl_insert]
  cases outcomes.reverse.find? fun outcome => decide (outcome.funcName = name) with
  | some found => rfl
  | none => rfl

theorem collectBodies_of_mem
    (member : outcome ∈ outcomes) : ∃ last ∈ outcomes, last.funcName = outcome.funcName ∧
      (collectBodies outcomes).get? outcome.funcName = some last.finalCandidate := by
  rw [collectBodies_get?]
  cases found : outcomes.reverse.find? fun other =>
      decide (other.funcName = outcome.funcName) with
  | none =>
      have apart := List.find?_eq_none.mp found outcome (List.mem_reverse.mpr member)
      simp at apart
  | some last =>
      have same := List.find?_some found
      exact ⟨last, List.mem_reverse.mp (List.mem_of_find?_eq_some found), by simpa using same, rfl⟩

/-! ## Outcomes of a program -/

section Outcomes

variable {tools : Tools} {agent : CodeAgent}

theorem transpileLoop_name {spec : FuncSpec} (left : Nat) :
    ∀ {iterations : List LoopStep} {candidate : List Stmt} {outcome : FuncOutcome},
      transpileLoop tools agent module_ funcIdx spec left iterations candidate = some outcome →
        outcome.funcName = spec.func.name := by
  induction left with
  | zero =>
      intro iterations candidate outcome run
      obtain ⟨tried, _, run⟩ := Option.bind_eq_some_iff.mp run
      cases Option.some.inj run
      rfl
  | succ left ih =>
      intro iterations candidate outcome run
      obtain ⟨tried, _, run⟩ := Option.bind_eq_some_iff.mp run
      dsimp only at run
      split_ifs at run
      · cases Option.some.inj run
        rfl
      · obtain ⟨repaired, _, run⟩ := Option.bind_eq_some_iff.mp run
        split_ifs at run
        · obtain ⟨last, _, run⟩ := Option.bind_eq_some_iff.mp run
          cases Option.some.inj run
          rfl
        · exact ih run

theorem transpileLoop_tried {spec : FuncSpec} (left : Nat) :
    ∀ {iterations : List LoopStep} {candidate : List Stmt} {outcome : FuncOutcome},
      transpileLoop tools agent module_ funcIdx spec left iterations candidate = some outcome →
        tryCandidate tools module_ funcIdx outcome.finalCandidate =
          some ⟨outcome.problem, outcome.result⟩ ∧
        (outcome.verified = true → outcome.result.allPassed = true) := by
  induction left with
  | zero =>
      intro iterations candidate outcome run
      obtain ⟨tried, triedRun, run⟩ := Option.bind_eq_some_iff.mp run
      cases Option.some.inj run
      exact ⟨triedRun, fun verified => by cases verified⟩
  | succ left ih =>
      intro iterations candidate outcome run
      obtain ⟨tried, triedRun, run⟩ := Option.bind_eq_some_iff.mp run
      dsimp only at run
      split_ifs at run with passed
      · cases Option.some.inj run
        exact ⟨triedRun, fun _ => passed⟩
      · obtain ⟨repaired, _, run⟩ := Option.bind_eq_some_iff.mp run
        split_ifs at run
        · obtain ⟨last, lastRun, run⟩ := Option.bind_eq_some_iff.mp run
          cases Option.some.inj run
          exact ⟨lastRun, fun verified => verified⟩
        · exact ih run

theorem transpileFunc_run
    (run : transpileFunc tools agent module_ funcIdx = some outcome) :
    ∃ func candidate, module_.items[funcIdx]? = some (.func func) ∧
      transpileLoop tools agent module_ funcIdx ⟨module_.attributes, func⟩ maxIters [] candidate =
        some outcome := by
  unfold transpileFunc at run
  split at run
  · next func found =>
      dsimp only at run
      split_ifs at run
      · obtain ⟨candidate, _, run⟩ := Option.bind_eq_some_iff.mp run
        exact ⟨func, candidate, found, run⟩
      · exact ⟨func, func.body, found, run⟩
  · cases run

theorem transpileFunc_name
    (found : module_.items[funcIdx]? = some (.func func))
    (run : transpileFunc tools agent module_ funcIdx = some outcome) :
    outcome.funcName = func.name := by
  obtain ⟨other, candidate, same, loop⟩ := transpileFunc_run run
  cases Option.some.inj (found.symm.trans same)
  exact transpileLoop_name maxIters loop

theorem transpileItems_names (items : List Item) :
    ∀ (before : List Item) {outcomes : List FuncOutcome}, module_.items = before ++ items →
      transpileItems tools agent module_ before.length items = some outcomes →
        outcomes.map FuncOutcome.funcName = (items.filterMap Item.asFunc).map Func.name := by
  induction items with
  | nil =>
      intro before outcomes _ run
      cases Option.some.inj run
      rfl
  | cons item rest ih =>
      intro before outcomes split run
      have shifted : module_.items = (before ++ [item]) ++ rest := by
        rw [split, List.append_assoc]
        rfl
      have length : (before ++ [item]).length = before.length + 1 := by
        rw [List.length_append, List.length_singleton]
      cases item with
      | func func =>
          obtain ⟨outcome, outcomeRun, run⟩ := Option.bind_eq_some_iff.mp run
          obtain ⟨later, laterRun, run⟩ := Option.bind_eq_some_iff.mp run
          cases Option.some.inj run
          rw [← length] at laterRun
          have found : module_.items[before.length]? = some (.func func) := by
            rw [split]
            rw [List.getElem?_append_right (le_refl _), Nat.sub_self]
            rfl
          rw [List.map_cons, transpileFunc_name found outcomeRun, ih _ shifted laterRun]
          rfl
      | invariant held | other name =>
          rw [transpileItems, ← length] at run
          · exact ih _ shifted run
          · nofun

theorem transpileModules_names (modules : List Module) : ∀ {outcomes : List FuncOutcome},
    transpileModules tools agent modules = some outcomes →
      outcomes.map FuncOutcome.funcName = (modules.flatMap Module.funcs).map Func.name := by
  induction modules with
  | nil =>
      intro outcomes run
      cases Option.some.inj run
      rfl
  | cons module_ rest ih =>
      intro outcomes run
      obtain ⟨here, hereRun, run⟩ := Option.bind_eq_some_iff.mp run
      obtain ⟨later, laterRun, run⟩ := Option.bind_eq_some_iff.mp run
      cases Option.some.inj run
      have names : here.map FuncOutcome.funcName = module_.funcs.map Func.name :=
        transpileItems_names module_.items [] rfl hereRun
      rw [List.map_append, ih laterRun, names, List.flatMap_cons, List.map_append]

end Outcomes

/-! ## The problem of a name -/

section Names

variable {declarations : Declarations}

theorem problemsFrom_names (branches : Dnf) :
    ∀ {index : Nat} {problems : List VerificationProblem},
      problemsFrom declarations func count index branches = some problems →
        problems.length = branches.length ∧
          ∀ problem ∈ problems, ∃ at_, problem.funcName = branchName func count at_ := by
  induction branches with
  | nil =>
      intro index problems run
      cases Option.some.inj run
      exact ⟨rfl, fun problem member => by cases member⟩
  | cons premises rest ih =>
      intro index problems run
      obtain ⟨conclusions, _, run⟩ := Option.bind_eq_some_iff.mp run
      obtain ⟨later, laterRun, run⟩ := Option.bind_eq_some_iff.mp run
      cases Option.some.inj run
      obtain ⟨length, names⟩ := ih laterRun
      refine ⟨by rw [List.length_cons, length, List.length_cons], fun problem member => ?_⟩
      rcases List.mem_cons.mp member with rfl | member
      · exact ⟨index, rfl⟩
      · exact names problem member

/-- A name of the source has no bracket. -/
def Plain (name : String) : Prop := '[' ∉ name.toList

theorem branchName_plain {name : String} (plain : Plain name) {at_ : Nat}
    (same : branchName func count at_ = name) : count = 1 ∧ func.name = name := by
  unfold branchName at same
  split_ifs at same with single
  · exact ⟨single, same⟩
  · exfalso
    apply plain
    rw [← same, String.toList_append, String.toList_append, String.toList_append]
    have bracket : '[' ∈ "[branch ".toList := by decide
    exact List.mem_append_left _ (List.mem_append_left _ (List.mem_append_right _ bracket))

theorem buildProblems_plain {problems : List VerificationProblem}
    (run : buildProblems declarations func = some problems)
    (member : problem ∈ problems) (plain : Plain problem.funcName) :
    problems = [problem] ∧ func.name = problem.funcName := by
  obtain ⟨branches, _, run⟩ := Option.bind_eq_some_iff.mp run
  obtain ⟨length, names⟩ := problemsFrom_names branches run
  obtain ⟨at_, name⟩ := names problem member
  obtain ⟨single, same⟩ := branchName_plain plain name.symm
  rw [single] at length
  obtain ⟨only, rfl⟩ := List.length_eq_one_iff.mp length
  rw [List.mem_singleton.mp member]
  rw [List.mem_singleton.mp member] at same
  exact ⟨rfl, same⟩

theorem mem_extractAll (funcs : List Func) : ∀ {problems : List VerificationProblem},
    extractAll declarations funcs = some problems → ∀ problem ∈ problems,
      ∃ func ∈ funcs, ∃ own, buildProblems declarations func = some own ∧ problem ∈ own := by
  induction funcs with
  | nil =>
      intro problems run problem member
      cases Option.some.inj run
      cases member
  | cons func rest ih =>
      intro problems run problem member
      obtain ⟨own, ownRun, run⟩ := Option.bind_eq_some_iff.mp run
      obtain ⟨later, laterRun, run⟩ := Option.bind_eq_some_iff.mp run
      cases Option.some.inj run
      rcases List.mem_append.mp member with inside | inside
      · exact ⟨func, List.mem_cons_self, own, ownRun, inside⟩
      · obtain ⟨other, listed, found⟩ := ih laterRun problem inside
        exact ⟨other, List.mem_cons_of_mem _ listed, found⟩

theorem extractAll_append (before after : List Func) : ∀ {problems : List VerificationProblem},
    extractAll declarations (before ++ after) = some problems →
      ∃ first second, extractAll declarations before = some first ∧
        extractAll declarations after = some second ∧ problems = first ++ second := by
  induction before with
  | nil => exact fun run => ⟨[], _, rfl, run, rfl⟩
  | cons func rest ih =>
      intro problems run
      obtain ⟨own, ownRun, run⟩ := Option.bind_eq_some_iff.mp run
      obtain ⟨later, laterRun, run⟩ := Option.bind_eq_some_iff.mp run
      cases Option.some.inj run
      obtain ⟨first, second, firstRun, secondRun, rfl⟩ := ih laterRun
      refine ⟨own ++ first, second, ?_, secondRun, (List.append_assoc _ _ _).symm⟩
      unfold extractAll
      rw [ownRun, firstRun]
      rfl

theorem extractAll_contains (funcs : List Func) : ∀ {problems : List VerificationProblem},
    extractAll declarations funcs = some problems → ∀ func ∈ funcs, ∀ own,
      buildProblems declarations func = some own → ∀ problem ∈ own, problem ∈ problems := by
  induction funcs with
  | nil =>
      intro problems run func member
      cases member
  | cons head rest ih =>
      intro problems run func member own ownRun problem inside
      obtain ⟨first, firstRun, run⟩ := Option.bind_eq_some_iff.mp run
      obtain ⟨later, laterRun, run⟩ := Option.bind_eq_some_iff.mp run
      cases Option.some.inj run
      rcases List.mem_cons.mp member with rfl | member
      · cases Option.some.inj (firstRun.symm.trans ownRun)
        exact List.mem_append_left _ inside
      · exact List.mem_append_right _ (ih laterRun func member own ownRun problem inside)

theorem buildProblems_single
    (run : buildProblems declarations func = some [problem]) :
    problem.funcName = func.name := by
  obtain ⟨branches, _, run⟩ := Option.bind_eq_some_iff.mp run
  obtain ⟨length, names⟩ := problemsFrom_names branches run
  obtain ⟨at_, name⟩ := names problem List.mem_cons_self
  have single : branches.length = 1 := length.symm
  rw [name, branchName, if_pos single]

end Names

def OnlyOne (module_ : Module) (funcIdx : Nat) (func : Func) : Prop :=
  ∀ idx other, module_.items[idx]? = some (.func other) → other.name = func.name → idx = funcIdx

def ownProblems (module_ : Module) (funcIdx : Nat) (func : Func) (stmts : List Stmt) :
    Option (List VerificationProblem) :=
  buildProblems (declarationsOf [module_.withBody funcIdx stmts]) (func.withBody stmts)

theorem mem_funcs {items : List Item} :
    func ∈ items.filterMap Item.asFunc ↔ Item.func func ∈ items := by
  rw [List.mem_filterMap]
  constructor
  · rintro ⟨item, listed, isFunc⟩
    cases item with
    | func held => exact Option.some.inj isFunc ▸ listed
    | invariant held => cases isFunc
    | other name => cases isFunc
  · exact fun listed => ⟨_, listed, rfl⟩

theorem mem_withBody_funcs {other : Func}
    (found : module_.items[funcIdx]? = some (.func func))
    (only : OnlyOne module_ funcIdx func) (name : other.name = func.name)
    (member : other ∈ (module_.withBody funcIdx stmts).funcs) : other = func.withBody stmts := by
  obtain ⟨idx, at_⟩ := List.mem_iff_getElem?.mp (mem_funcs.mp member)
  change (module_.items.modify funcIdx (Item.withBody stmts))[idx]? = some (.func other) at at_
  rw [List.getElem?_modify] at at_
  by_cases here : funcIdx = idx
  · subst here
    rw [found] at at_
    simp only [if_true, Option.map_eq_map, Option.map_some, Option.some.injEq] at at_
    exact (Item.func.inj at_).symm
  · simp only [if_neg here, Option.map_eq_map, Option.map_id_fun', id_eq] at at_
    exact absurd (only idx other at_ name).symm here

theorem problemFor_own
    (found : module_.items[funcIdx]? = some (.func func))
    (plain : Plain func.name) (only : OnlyOne module_ funcIdx func)
    (run : problemFor module_ funcIdx stmts = some problem) :
    ownProblems module_ funcIdx func stmts = some [problem] := by
  obtain ⟨problems, problemsRun, run⟩ := Option.bind_eq_some_iff.mp run
  obtain ⟨item, itemRun, run⟩ := Option.bind_eq_some_iff.mp run
  cases Option.some.inj (found.symm.trans itemRun)
  have name : problem.funcName = (Item.func func).funcName := by
    simpa only [decide_eq_true_eq] using List.find?_some run
  change problem.funcName = func.name at name
  obtain ⟨other, listed, own, ownRun, inside⟩ :=
    mem_extractAll _ problemsRun problem (List.mem_of_find?_eq_some run)
  obtain ⟨single, otherName⟩ := buildProblems_plain ownRun inside (name ▸ plain)
  rw [List.flatMap_cons, List.flatMap_nil, List.append_nil] at listed
  have same := mem_withBody_funcs found only (otherName.trans name) listed
  unfold ownProblems
  rw [← same, ownRun, single]

theorem getElem?_of_mem_take {items : List Item} {item : Item}
    (member : item ∈ items.take count) : ∃ idx < count, items[idx]? = some item := by
  obtain ⟨idx, at_⟩ := List.mem_iff_getElem?.mp member
  rw [List.getElem?_take] at at_
  split_ifs at at_ with below
  exact ⟨idx, below, at_⟩

/-- Where a function before it has the name and a single problem, the problem that is found is that
of a function before it. -/
theorem problemFor_namesake {other : Func}
    {own : VerificationProblem}
    (found : module_.items[funcIdx]? = some (.func func)) (plain : Plain func.name)
    {idx : Nat} (before : idx < funcIdx) (otherAt : module_.items[idx]? = some (.func other))
    (name : other.name = func.name)
    (single : buildProblems (declarationsOf [module_.withBody funcIdx stmts]) other = some [own])
    (run : problemFor module_ funcIdx stmts = some problem) :
    ∃ earlier < funcIdx, ∃ namesake, module_.items[earlier]? = some (.func namesake) ∧
      buildProblems (declarationsOf [module_.withBody funcIdx stmts]) namesake =
        some [problem] := by
  obtain ⟨problems, problemsRun, run⟩ := Option.bind_eq_some_iff.mp run
  obtain ⟨item, itemRun, run⟩ := Option.bind_eq_some_iff.mp run
  cases Option.some.inj (found.symm.trans itemRun)
  change problems.find? (fun problem => decide (problem.funcName = func.name)) = some problem at run
  have problemName : problem.funcName = func.name := by
    simpa only [decide_eq_true_eq] using List.find?_some run
  have split : (module_.withBody funcIdx stmts).items =
      module_.items.take funcIdx ++
        (module_.items.drop funcIdx).modifyHead (Item.withBody stmts) :=
    List.modify_eq_take_drop _ _ _
  unfold extract at problemsRun
  rw [List.flatMap_cons, List.flatMap_nil, List.append_nil, split, List.filterMap_append]
    at problemsRun
  obtain ⟨first, second, firstRun, _, rfl⟩ := extractAll_append _ _ problemsRun
  have otherIn : other ∈ (module_.items.take funcIdx).filterMap Item.asFunc := by
    apply mem_funcs.mpr
    apply List.mem_iff_getElem?.mpr
    exact ⟨idx, by rw [List.getElem?_take, if_pos before, otherAt]⟩
  have ownIn := extractAll_contains _ firstRun other otherIn [own] single own List.mem_cons_self
  rw [List.find?_append] at run
  cases here : first.find? fun problem => decide (problem.funcName = func.name) with
  | none =>
      have apart := List.find?_eq_none.mp here own ownIn
      rw [buildProblems_single single, name] at apart
      simp at apart
  | some picked =>
      rw [here, Option.some_or] at run
      cases Option.some.inj run
      obtain ⟨namesake, listed, theirs, theirsRun, inside⟩ :=
        mem_extractAll _ firstRun problem (List.mem_of_find?_eq_some here)
      obtain ⟨alone, _⟩ := buildProblems_plain theirsRun inside (problemName ▸ plain)
      obtain ⟨earlier, below, at_⟩ := getElem?_of_mem_take (mem_funcs.mp listed)
      exact ⟨earlier, below, namesake, at_, by rw [theirsRun, alone]⟩

/-! ## Emitted and verified -/

theorem generateProgram_bodies (modules : List Module) (outcomes : List FuncOutcome) :
    (generateProgram modules outcomes).map Prod.snd =
      (modules.flatMap Module.funcs).map fun func =>
        ((collectBodies outcomes).get? func.name).getD func.body := by
  unfold generateProgram generateModule
  simp only [List.map_flatMap, List.map_map]
  rfl

/-- The bodies that are emitted are those the outcomes end with, if outcomes of one name end with
the same. -/
theorem emitted_iff_namesakes_agree {tools : Tools} {agent : CodeAgent} {modules : List Module}
    (run : transpileModules tools agent modules = some outcomes) :
    (generateProgram modules outcomes).map Prod.snd = outcomes.map FuncOutcome.finalCandidate ↔
      ∀ first ∈ outcomes, ∀ second ∈ outcomes, first.funcName = second.funcName →
        first.finalCandidate = second.finalCandidate := by
  have names := transpileModules_names modules run
  have kept : (generateProgram modules outcomes).map Prod.snd =
      outcomes.map fun outcome =>
        ((collectBodies outcomes).get? outcome.funcName).getD outcome.finalCandidate := by
    rw [generateProgram_bodies]
    refine List.ext_getElem? fun at_ => ?_
    have name := congrArg (fun listed => listed[at_]?) names
    simp only [List.getElem?_map] at name ⊢
    cases found : outcomes[at_]? with
    | none =>
        rw [found] at name
        rw [Option.map_eq_none_iff.mp name.symm]
        rfl
    | some outcome =>
        rw [found] at name
        obtain ⟨func, funcAt, same⟩ := Option.map_eq_some_iff.mp name.symm
        obtain ⟨last, _, _, held⟩ := collectBodies_of_mem (List.mem_of_getElem? found)
        rw [funcAt, Option.map_some, Option.map_some, same, held]
        rfl
  rw [kept, List.map_inj_left]
  constructor
  · intro own first firstIn second secondIn same
    obtain ⟨last, _, _, held⟩ := collectBodies_of_mem firstIn
    have firstBody := own first firstIn
    have secondBody := own second secondIn
    rw [held] at firstBody
    rw [← same, held] at secondBody
    exact firstBody.symm.trans secondBody
  · intro agree outcome member
    obtain ⟨last, lastIn, name, held⟩ := collectBodies_of_mem member
    rw [held]
    exact agree last lastIn outcome member name

/-- The body of every outcome is emitted for its function if outcomes of one name agree.  Where no
other function of the module has the name, a verified outcome passed every problem of its
function; where one before it has the name and a single problem, the problem that was checked is
that of a function before it. -/
theorem emitted_bodies_are_verified {tools : Tools} {agent : CodeAgent} {modules : List Module}
    (run : transpileModules tools agent modules = some outcomes) :
    ((generateProgram modules outcomes).map Prod.snd =
        outcomes.map FuncOutcome.finalCandidate ↔
      ∀ first ∈ outcomes, ∀ second ∈ outcomes, first.funcName = second.funcName →
        first.finalCandidate = second.finalCandidate) ∧
      ∀ module_ ∈ modules, ∀ funcIdx func, module_.items[funcIdx]? = some (.func func) →
        Plain func.name → ∀ outcome, transpileFunc tools agent module_ funcIdx = some outcome →
          (OnlyOne module_ funcIdx func → outcome.verified = true → ∃ own,
            ownProblems module_ funcIdx func outcome.finalCandidate = some own ∧
              ∀ problem ∈ own, ∃ result, verify tools.solver problem = .ok result ∧
                result.allPassed = true) ∧
          (∀ idx < funcIdx, ∀ other own, module_.items[idx]? = some (.func other) →
            other.name = func.name →
            buildProblems (declarationsOf [module_.withBody funcIdx outcome.finalCandidate]) other =
              some [own] →
            ∃ earlier < funcIdx, ∃ namesake, module_.items[earlier]? = some (.func namesake) ∧
              buildProblems (declarationsOf [module_.withBody funcIdx outcome.finalCandidate])
                namesake = some [outcome.problem]) := by
  refine ⟨emitted_iff_namesakes_agree run, ?_⟩
  intro module_ _ funcIdx func found plain outcome outcomeRun
  obtain ⟨_, candidate, _, loop⟩ := transpileFunc_run outcomeRun
  obtain ⟨tried, passed⟩ := transpileLoop_tried maxIters loop
  obtain ⟨problem, problemRun, tried⟩ := Option.bind_eq_some_iff.mp tried
  obtain ⟨result, resultRun, tried⟩ := Option.bind_eq_some_iff.mp tried
  obtain ⟨sameProblem, sameResult⟩ := Tried.mk.inj (Option.some.inj tried)
  have verifyRun : verify tools.solver problem = .ok result := by
    cases answered : verify tools.solver problem with
    | error stop =>
        rw [answered] at resultRun
        cases resultRun
    | ok held =>
        rw [answered] at resultRun
        rw [Option.some.inj resultRun]
  constructor
  · intro only verified
    refine ⟨[problem], problemFor_own found plain only problemRun, fun other member => ?_⟩
    rw [List.mem_singleton.mp member]
    exact ⟨result, verifyRun, sameResult ▸ passed verified⟩
  · intro idx before other own otherAt name single
    rw [← sameProblem]
    exact problemFor_namesake found plain before otherAt name single problemRun

/-! ## Two functions of one name -/

/-- A function without a contract, and behind it one that ensures `x >= 1`. -/
def unconstrained : Func := ⟨"f", [⟨"x", "Int"⟩], [], [], [.return_ none], false⟩

def constrained : Func :=
  ⟨"f", [⟨"x", "Int"⟩], [], [.bin .ge (.var "x") (.int 1)], [.letBinding "y" (.int 0)], false⟩

def namesakes : Module := ⟨"M", [], [.func unconstrained, .func constrained]⟩

def bounded : Func :=
  ⟨"f", [⟨"x", "Int"⟩], [.bin .ge (.var "x") (.int 1)], [.bin .ge (.var "x") (.int 0)],
    [.return_ none], false⟩

def alone : Module := ⟨"M", [], [.func bounded]⟩

/-- An agent that is not asked, as every function has a body that passes. -/
def idleAgent : CodeAgent := ⟨"idle", fun _ => none, fun _ _ _ => none⟩

def plainTools : Tools := ⟨unsat .release scanOrder, fun _ _ => none, fun _ => []⟩

theorem alone_is_verified :
    ∃ outcome, transpileFunc plainTools idleAgent alone 0 = some outcome ∧
      outcome.verified = true ∧
      ∃ own, ownProblems alone 0 bounded outcome.finalCandidate = some own ∧
        ∀ problem ∈ own, ∃ result, verify plainTools.solver problem = .ok result ∧
          result.allPassed = true := by
  have only : OnlyOne alone 0 bounded := by
    intro idx other at_ _
    cases idx with
    | zero => rfl
    | succ idx => cases at_
  have plain : Plain bounded.name := by
    unfold Plain
    decide
  refine ⟨_, rfl, rfl, ?_⟩
  have run : transpileModules plainTools idleAgent [alone] = some _ := rfl
  exact ((emitted_bodies_are_verified run).2 alone List.mem_cons_self 0
    bounded rfl plain _ rfl).1 only rfl

theorem namesake_is_verified_and_replaces :
    ∃ outcomes, transpileModules plainTools idleAgent [namesakes] = some outcomes ∧
      (generateProgram [namesakes] outcomes).map Prod.snd ≠
        outcomes.map FuncOutcome.finalCandidate ∧
      ∃ outcome, transpileFunc plainTools idleAgent namesakes 1 = some outcome ∧
        outcome.verified = true ∧
        ∃ own result, ownProblems namesakes 1 constrained outcome.finalCandidate = some [own] ∧
          verify plainTools.solver own = .ok result ∧ result.allPassed = false := by
  refine ⟨_, rfl, ?_, _, rfl, rfl, _, _, rfl, rfl, rfl⟩
  intro same
  cases (List.cons.inj same).1

end Pantheon.Telos
