import Mathlib.Tactic

/-!
# Runs of partial step functions

A component is given by a step function `State → Operation → Option State`; `none` is a step that
the program does not survive or does not leave.  This file executes finite operation lists and
packages the induction that lifts a step invariant to a whole run.
-/

namespace StorageStack
namespace Execution

variable {State Operation : Type*}

/-- Execute a finite list of operations, failing at the first step which has no successor. -/
def run (step : State → Operation → Option State) : State → List Operation → Option State
  | state, [] => some state
  | state, operation :: operations =>
      (step state operation).bind fun next => run step next operations

/-- Every operation meets `condition` in the state in which the run executes it. -/
def Meets (step : State → Operation → Option State) (condition : State → Operation → Prop) :
    State → List Operation → Prop
  | _, [] => True
  | state, operation :: operations =>
      condition state operation ∧
        ∀ next, step state operation = some next → Meets step condition next operations

variable {step : State → Operation → Option State}

@[simp] theorem run_nil (state : State) : run step state [] = some state := rfl

theorem run_cons_eq_some {state final : State} {operation : Operation}
    {operations : List Operation} :
    run step state (operation :: operations) = some final ↔
      ∃ next, step state operation = some next ∧ run step next operations = some final := by
  simp [run, Option.bind_eq_some_iff]

theorem run_append (state : State) (left right : List Operation) :
    run step state (left ++ right) = (run step state left).bind fun next => run step next right := by
  induction left generalizing state with
  | nil => rfl
  | cons operation left ih =>
      simp only [List.cons_append, run]
      cases step state operation with
      | none => rfl
      | some next => exact ih next

theorem run_append_eq_some {state final : State} {left right : List Operation} :
    run step state (left ++ right) = some final ↔
      ∃ middle, run step state left = some middle ∧ run step middle right = some final := by
  rw [run_append, Option.bind_eq_some_iff]

/-- A condition on the operations alone holds in a run exactly if it holds of all of them. -/
theorem meets_iff_forall {condition : Operation → Prop} {state final : State}
    {operations : List Operation} (execution : run step state operations = some final) :
    Meets step (fun _ => condition) state operations ↔
      ∀ operation ∈ operations, condition operation := by
  induction operations generalizing state with
  | nil => simp [Meets]
  | cons operation operations ih =>
      obtain ⟨next, stepped, later⟩ := run_cons_eq_some.mp execution
      simp only [Meets, stepped, Option.some.injEq, forall_eq', ih later, List.forall_mem_cons]

theorem meets_and {left right : State → Operation → Prop} {state : State}
    {operations : List Operation} (first : Meets step left state operations)
    (second : Meets step right state operations) :
    Meets step (fun state operation => left state operation ∧ right state operation) state
      operations := by
  induction operations generalizing state with
  | nil => trivial
  | cons operation operations ih =>
      exact ⟨⟨first.1, second.1⟩, fun next stepped =>
        ih (first.2 next stepped) (second.2 next stepped)⟩

/-- A step invariant which needs `condition` holds at the end of every run that meets it. -/
theorem run_invariant {condition : State → Operation → Prop} {invariant : State → Prop}
    (preserved : ∀ state operation next, invariant state → condition state operation →
      step state operation = some next → invariant next)
    {state final : State} {operations : List Operation} (initially : invariant state)
    (meets : Meets step condition state operations)
    (execution : run step state operations = some final) : invariant final := by
  induction operations generalizing state with
  | nil =>
      obtain rfl : state = final := by simpa using execution
      exact initially
  | cons operation operations ih =>
      obtain ⟨next, stepped, later⟩ := run_cons_eq_some.mp execution
      exact ih (preserved _ _ _ initially meets.1 stepped) (meets.2 next stepped) later

/-- An invariant that every step keeps holds at the end of every run. -/
theorem run_keeps {invariant : State → Prop}
    (preserved : ∀ state operation next, invariant state → step state operation = some next →
      invariant next)
    {state final : State} {operations : List Operation} (initially : invariant state)
    (execution : run step state operations = some final) : invariant final := by
  induction operations generalizing state with
  | nil =>
      obtain rfl : state = final := by simpa using execution
      exact initially
  | cons operation operations ih =>
      obtain ⟨next, stepped, later⟩ := run_cons_eq_some.mp execution
      exact ih (preserved _ _ _ initially stepped) later

/-- `property` holds in every state the run passes through. -/
def Always (step : State → Operation → Option State) (property : State → Prop) :
    State → List Operation → Prop
  | state, [] => property state
  | state, operation :: operations =>
      property state ∧ ∀ next, step state operation = some next →
        Always step property next operations

/-- When an invariant which implies `property` is kept by the steps that meet `condition`, and the
other steps lead out of `property`, a run has `property` throughout exactly if all its steps meet
`condition`. -/
theorem always_iff_meets {admitted condition : State → Operation → Prop}
    {invariant property : State → Prop}
    (implies : ∀ state, invariant state → property state)
    (preserved : ∀ state operation next, invariant state → admitted state operation →
      condition state operation → step state operation = some next → invariant next)
    (exact_step : ∀ state operation next, invariant state → admitted state operation →
      step state operation = some next → property next → condition state operation)
    {state final : State} {operations : List Operation} (initially : invariant state)
    (admits : Meets step admitted state operations)
    (execution : run step state operations = some final) :
    Always step property state operations ↔ Meets step condition state operations := by
  induction operations generalizing state with
  | nil => exact ⟨fun _ => trivial, fun _ => implies state initially⟩
  | cons operation operations ih =>
      obtain ⟨next, stepped, later⟩ := run_cons_eq_some.mp execution
      have admits_later := admits.2 next stepped
      constructor
      · intro always
        have rest := always.2 next stepped
        have holds : property next := by
          cases operations with
          | nil => exact rest
          | cons => exact rest.1
        have meets := exact_step _ _ _ initially admits.1 stepped holds
        have kept := preserved _ _ _ initially admits.1 meets stepped
        refine ⟨meets, fun other stepped' => ?_⟩
        obtain rfl := Option.some.inj (stepped.symm.trans stepped')
        exact (ih kept admits_later later).mp rest
      · intro meets
        have kept := preserved _ _ _ initially admits.1 meets.1 stepped
        refine ⟨implies state initially, fun other stepped' => ?_⟩
        obtain rfl := Option.some.inj (stepped.symm.trans stepped')
        exact (ih kept admits_later later).mpr (meets.2 next stepped)

/-- A run that meets `condition` exists when no step that meets it fails. -/
theorem exists_run_of_meets {condition : State → Operation → Prop} {invariant : State → Prop}
    (progress : ∀ state operation, invariant state → condition state operation →
      ∃ next, step state operation = some next ∧ invariant next)
    {state : State} {operations : List Operation} (initially : invariant state)
    (meets : Meets step condition state operations) :
    ∃ final, run step state operations = some final ∧ invariant final := by
  induction operations generalizing state with
  | nil => exact ⟨state, rfl, initially⟩
  | cons operation operations ih =>
      obtain ⟨next, stepped, kept⟩ := progress state operation initially meets.1
      obtain ⟨final, later, finally_kept⟩ := ih kept (meets.2 next stepped)
      exact ⟨final, run_cons_eq_some.mpr ⟨next, stepped, later⟩, finally_kept⟩

theorem meets_of_forall {condition : Operation → Prop} (state : State) {operations : List Operation}
    (all : ∀ operation ∈ operations, condition operation) :
    Meets step (fun _ => condition) state operations := by
  induction operations generalizing state with
  | nil => trivial
  | cons operation operations ih =>
      exact ⟨all _ (by simp), fun next _ => ih next fun other mem => all _ (by simp [mem])⟩

/-- A run whose operations are all `admitted` exists when no admitted step fails. -/
theorem exists_run (admitted : Operation → Prop) {invariant : State → Prop}
    (progress : ∀ state operation, invariant state → admitted operation →
      ∃ next, step state operation = some next ∧ invariant next)
    {state : State} {operations : List Operation} (initially : invariant state)
    (all : ∀ operation ∈ operations, admitted operation) :
    ∃ final, run step state operations = some final ∧ invariant final :=
  exists_run_of_meets progress initially (meets_of_forall state all)

/-- A run cannot make more working steps than a rank which they decrease, and which the other steps
raise to `most` at most, allows. -/
theorem countP_le_of_rank {condition : State → Operation → Prop} {invariant : State → Prop}
    {work : Operation → Bool} {rank : State → Nat} {most : Nat}
    (bounded : ∀ state operation next, invariant state → condition state operation →
      step state operation = some next →
        invariant next ∧ if work operation then rank next < rank state else rank next ≤ most)
    {state final : State} {operations : List Operation} (initially : invariant state)
    (meets : Meets step condition state operations)
    (execution : run step state operations = some final) :
    operations.countP work ≤
      rank state + most * operations.countP fun operation => !work operation := by
  induction operations generalizing state with
  | nil => simp
  | cons operation operations ih =>
      obtain ⟨next, stepped, later⟩ := run_cons_eq_some.mp execution
      obtain ⟨kept, ranked⟩ := bounded _ _ _ initially meets.1 stepped
      have rest := ih kept (meets.2 next stepped) later
      rw [List.countP_cons, List.countP_cons]
      cases working : work operation with
      | true =>
          simp only [working, if_true] at ranked
          simp only [if_true, Bool.not_true, Bool.false_eq_true, if_false, Nat.add_zero]
          omega
      | false =>
          simp only [working, Bool.false_eq_true, if_false] at ranked
          simp only [Bool.not_false, if_true, Bool.false_eq_true, if_false, Nat.add_zero,
            Nat.mul_add, Nat.mul_one]
          omega

/-! ## Loops -/

/-- A loop body that keeps `invariant` on the elements of the list keeps it over the loop. -/
theorem foldlM_invariant {Element : Type*} {body : State → Element → Option State}
    (invariant : State → Prop) {elements : List Element} {state final : State}
    (preserved : ∀ element ∈ elements, ∀ state next, invariant state →
      body state element = some next → invariant next)
    (initially : invariant state) (loop : elements.foldlM body state = some final) :
    invariant final := by
  induction elements generalizing state with
  | nil =>
      obtain rfl : state = final := by simpa using loop
      exact initially
  | cons element elements ih =>
      rw [List.foldlM_cons, Option.bind_eq_bind, Option.bind_eq_some_iff] at loop
      obtain ⟨next, stepped, later⟩ := loop
      exact ih (fun other mem => preserved other (List.mem_cons_of_mem _ mem))
        (preserved element List.mem_cons_self _ _ initially stepped) later

end Execution
end StorageStack
