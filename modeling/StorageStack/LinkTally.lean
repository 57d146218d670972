import Mathlib.Data.Set.Card

/-!
# Counting entries and following parents

How the number of entries that a predicate counts changes with one entry, and when nodes that move
to new parents still lead to the root.
-/

namespace StorageStack

/-! ## Counting entries -/

section Tally

variable {κ ι : Type*} {map : κ → Option ι} {counted : κ → ι → Prop}

/-- The number of entries that a predicate counts. -/
noncomputable def tally (map : κ → Option ι) (counted : κ → ι → Prop) : Nat :=
  {key | ∃ value, map key = some value ∧ counted key value}.ncard

open Classical in
/-- What one entry adds to the count. -/
noncomputable def share (counted : κ → ι → Prop) (key : κ) : Option ι → Nat
  | none => 0
  | some value => if counted key value then 1 else 0

@[simp] theorem share_none (key : κ) : share counted key none = 0 := rfl

theorem share_of_counted {key : κ} {value : ι} (held : counted key value) :
    share counted key (some value) = 1 :=
  if_pos held

theorem share_of_not_counted {key : κ} {value : ι} (held : ¬counted key value) :
    share counted key (some value) = 0 :=
  if_neg held

theorem finite_counted (finite : {key | map key ≠ none}.Finite) :
    {key | ∃ value, map key = some value ∧ counted key value}.Finite := by
  refine finite.subset ?_
  rintro key ⟨value, stored, _⟩ missing
  rw [stored] at missing
  cases missing

/-- The count is the share of one entry and the count of the others. -/
theorem tally_eq_share_add (finite : {key | map key ≠ none}.Finite) (key : κ) :
    tally map counted = share counted key (map key) +
      {other | other ≠ key ∧ ∃ value, map other = some value ∧ counted other value}.ncard := by
  have rest : {other | other ≠ key ∧ ∃ value, map other = some value ∧ counted other value}.Finite :=
    (finite_counted finite).subset fun other member => member.2
  by_cases here : ∃ value, map key = some value ∧ counted key value
  · obtain ⟨value, stored, held⟩ := here
    have split : {other | ∃ value, map other = some value ∧ counted other value} =
        insert key {other | other ≠ key ∧ ∃ value, map other = some value ∧ counted other value} := by
      ext other
      by_cases same : other = key
      · subst same
        simp [stored, held]
      · simp [same]
    rw [tally, split, Set.ncard_insert_of_notMem (fun member => member.1 rfl) rest, stored,
      share_of_counted held, Nat.add_comm]
  · have split : {other | ∃ value, map other = some value ∧ counted other value} =
        {other | other ≠ key ∧ ∃ value, map other = some value ∧ counted other value} := by
      ext other
      refine ⟨fun member => ⟨?_, member⟩, And.right⟩
      rintro rfl
      exact here member
    have none : share counted key (map key) = 0 := by
      cases stored : map key with
      | none => rfl
      | some value => exact share_of_not_counted fun held => here ⟨value, stored, held⟩
    rw [tally, split, none, Nat.zero_add]

theorem update_eq_some [DecidableEq κ] {key other : κ} {value : Option ι} {target : ι}
    (stored : Function.update map key value other = some target) :
    (other = key ∧ value = some target) ∨ (other ≠ key ∧ map other = some target) := by
  by_cases same : other = key
  · subst same
    rw [Function.update_self] at stored
    exact Or.inl ⟨rfl, stored⟩
  · rw [Function.update_of_ne same] at stored
    exact Or.inr ⟨same, stored⟩

theorem finite_update [DecidableEq κ] (finite : {key | map key ≠ none}.Finite) (key : κ)
    (value : Option ι) : {other | Function.update map key value other ≠ none}.Finite := by
  refine (finite.insert key).subset fun other stored => ?_
  by_cases same : other = key
  · exact Or.inl same
  · exact Or.inr fun missing => stored ((Function.update_of_ne same _ _).trans missing)

/-- Changing one entry moves its share. -/
theorem tally_update [DecidableEq κ] (finite : {key | map key ≠ none}.Finite) (key : κ)
    (value : Option ι) :
    tally (Function.update map key value) counted + share counted key (map key) =
      tally map counted + share counted key value := by
  have rest : {other | other ≠ key ∧
      ∃ stored, Function.update map key value other = some stored ∧ counted other stored} =
      {other | other ≠ key ∧ ∃ stored, map other = some stored ∧ counted other stored} := by
    ext other
    refine and_congr_right fun apart => ?_
    rw [Function.update_of_ne apart]
  rw [tally_eq_share_add finite key, tally_eq_share_add (finite_update finite key value) key, rest, Function.update_self]
  omega

theorem tally_congr {counted' : κ → ι → Prop}
    (agree : ∀ key value, map key = some value → (counted key value ↔ counted' key value)) :
    tally map counted = tally map counted' := by
  rw [tally, tally]
  congr 1
  ext key
  exact exists_congr fun value => and_congr_right fun stored => agree key value stored

theorem tally_eq_zero (finite : {key | map key ≠ none}.Finite) :
    tally map counted = 0 ↔ ∀ key value, map key = some value → ¬counted key value := by
  rw [tally, Set.ncard_eq_zero (finite_counted finite), Set.eq_empty_iff_forall_notMem]
  refine forall_congr' fun key => ?_
  simp

theorem tally_pos (finite : {key | map key ≠ none}.Finite) {key : κ} {value : ι}
    (stored : map key = some value) (held : counted key value) : 0 < tally map counted := by
  rw [Nat.pos_iff_ne_zero]
  intro zero
  exact (tally_eq_zero finite).mp zero key value stored held

end Tally

/-! ## Parents -/

section Parents

variable {ι : Type*} {parent parent' : ι → ι} {root node : ι}

/-- The parents of a node lead to the root. -/
inductive Rooted (parent : ι → ι) (root : ι) : ι → Prop
  | root : Rooted parent root root
  | child {node : ι} : Rooted parent root (parent node) → Rooted parent root node

/-- The parents of a node lead to the root and none of them, nor the node, is in `moved`. -/
inductive Clear (parent : ι → ι) (root : ι) (moved : ι → Prop) : ι → Prop
  | root : ¬moved root → Clear parent root moved root
  | child {node : ι} : ¬moved node → Clear parent root moved (parent node) →
      Clear parent root moved node

/-- `node` or one of its parents is `above`. -/
inductive Above (parent : ι → ι) (above : ι) : ι → Prop
  | refl : Above parent above above
  | child {node : ι} : Above parent above (parent node) → Above parent above node

theorem Rooted.clear {moved : ι → Prop} (rooted : Rooted parent root node)
    (apart : ∀ above, moved above → ¬Above parent above node) : Clear parent root moved node := by
  induction rooted with
  | root => exact .root fun held => apart root held .refl
  | child _ ih =>
      refine .child (fun held => apart _ held .refl) (ih fun above held higher => ?_)
      exact apart above held (.child higher)

/-- Parents that change for moved nodes only leave the way of the others to the root. -/
theorem Clear.rooted {moved : ι → Prop} (clear : Clear parent root moved node)
    (same : ∀ node, ¬moved node → parent' node = parent node) : Rooted parent' root node := by
  induction clear with
  | root _ => exact .root
  | @child node unmoved _ ih =>
      refine .child ?_
      rw [same node unmoved]
      exact ih

/-- Nodes may move to parents whose way to the root does not pass a moved node. -/
theorem Rooted.relink {moved : ι → Prop} (rooted : Rooted parent root node)
    (same : ∀ node, ¬moved node → parent' node = parent node)
    (anchored : ∀ node, moved node → Clear parent root moved (parent' node)) :
    Rooted parent' root node := by
  induction rooted with
  | root => exact .root
  | @child node _ ih =>
      by_cases held : moved node
      · exact .child ((anchored node held).rooted same)
      · refine .child ?_
        rw [same node held]
        exact ih

theorem above_iff_iterate {above : ι} : Above parent above node ↔ ∃ count, parent^[count] node = above := by
  constructor
  · intro higher
    induction higher with
    | refl => exact ⟨0, rfl⟩
    | child _ ih =>
        obtain ⟨count, reached⟩ := ih
        exact ⟨count + 1, reached⟩
  · rintro ⟨count, reached⟩
    induction count generalizing node with
    | zero =>
        obtain rfl : node = above := reached
        exact .refl
    | succ count ih => exact .child (ih reached)

/-- No node but the root is above its parent. -/
theorem Rooted.not_above_parent (rooted : Rooted parent root node) (fixed : parent root = root)
    (inner : node ≠ root) : ¬Above parent node (parent node) := by
  intro higher
  obtain ⟨count, cycle⟩ := above_iff_iterate.mp higher
  obtain ⟨steps, reached⟩ := above_iff_iterate.mp (show Above parent root node by
    clear higher cycle inner
    induction rooted with
    | root => exact .refl
    | child _ ih => exact .child ih)
  have period : parent^[count + 1] node = node := cycle
  have returns : parent^[(count + 1) * (steps + 1)] node = node := by
    rw [Function.iterate_mul]
    exact Function.iterate_fixed period (steps + 1)
  have beyond : parent^[(count + 1) * (steps + 1)] node = root := by
    have more : (count + 1) * (steps + 1) = (count * (steps + 1) + 1) + steps := by
      rw [Nat.add_mul, Nat.one_mul]
      omega
    rw [more, Function.iterate_add_apply, reached]
    exact Function.iterate_fixed fixed _
  exact inner (returns.symm.trans beyond)

end Parents

end StorageStack
