import Mathlib.Logic.Function.Basic
import Mathlib.Data.List.Nodup
import Mathlib.Tactic

/-!
# Singly linked lists in a store of pointers

A store gives each node the node after it, or none at the end of its list.  `Chain next start nodes`
says that the pointers from `start` on lead through `nodes` and end there.  The file proves what the
insertions and removals that a program writes by hand do to a chain.
-/

namespace StorageStack.LinkedChain

variable {α : Type*} {next other : α → Option α} {start : Option α} {nodes front back : List α}
  {node before after : α}

/-- The pointers from `start` on lead through the nodes and end there. -/
def Chain (next : α → Option α) : Option α → List α → Prop
  | start, [] => start = none
  | start, node :: nodes => start = some node ∧ Chain next (next node) nodes

@[simp] theorem chain_nil : Chain next start [] ↔ start = none := Iff.rfl

@[simp] theorem chain_cons :
    Chain next start (node :: nodes) ↔ start = some node ∧ Chain next (next node) nodes := Iff.rfl

/-- A chain is determined by its start. -/
theorem Chain.unique (chain : Chain next start nodes) (second : Chain next start front) :
    nodes = front := by
  induction nodes generalizing start front with
  | nil =>
      cases front with
      | nil => rfl
      | cons node front =>
          rw [chain_nil] at chain
          rw [chain_cons, chain] at second
          cases second.1
  | cons node nodes ih =>
      cases front with
      | nil =>
          rw [chain_nil] at second
          rw [chain_cons, second] at chain
          cases chain.1
      | cons node' front =>
          obtain ⟨here, rest⟩ := chain
          obtain ⟨here', rest'⟩ := second
          obtain rfl : node = node' := Option.some.inj (here.symm.trans here')
          rw [ih rest rest']

/-- A chain depends only on the pointers of its nodes. -/
theorem Chain.congr (chain : Chain next start nodes)
    (same : ∀ node ∈ nodes, other node = next node) : Chain other start nodes := by
  induction nodes generalizing start with
  | nil => exact chain
  | cons node nodes ih =>
      obtain ⟨here, rest⟩ := chain
      refine ⟨here, ?_⟩
      rw [same node (List.mem_cons_self ..)]
      exact ih rest fun later member => same later (List.mem_cons_of_mem _ member)

theorem Chain.start_eq_head (chain : Chain next start nodes) : start = nodes.head? := by
  cases nodes with
  | nil => exact chain
  | cons node nodes => exact chain.1

/-- The pointer of a node leads to the node after it. -/
theorem Chain.next_eq (chain : Chain next start (front ++ node :: back)) :
    Chain next (next node) back := by
  induction front generalizing start with
  | nil => exact chain.2
  | cons _ front ih => exact ih chain.2

/-- Replacing what comes after a node, when no node before it is touched. -/
theorem Chain.splice (chain : Chain next start (front ++ node :: back)) {rest : List α}
    (same : ∀ other' ∈ front, other other' = next other')
    (tail : Chain other (other node) rest) : Chain other start (front ++ node :: rest) := by
  induction front generalizing start with
  | nil => exact ⟨chain.1, tail⟩
  | cons first front ih =>
      obtain ⟨here, chain⟩ := chain
      refine ⟨here, ?_⟩
      rw [same first (List.mem_cons_self ..)]
      exact ih chain fun later member => same later (List.mem_cons_of_mem _ member)

/-- The nodes on the way from `start`, at most `fuel` of them. -/
def follow (next : α → Option α) : Nat → Option α → List α
  | 0, _ => []
  | _ + 1, none => []
  | fuel + 1, some node => node :: follow next fuel (next node)

theorem Chain.follow_eq (chain : Chain next start nodes) {fuel : Nat}
    (enough : nodes.length ≤ fuel) : follow next fuel start = nodes := by
  induction nodes generalizing start fuel with
  | nil =>
      rw [chain_nil.mp chain]
      cases fuel <;> rfl
  | cons node nodes ih =>
      obtain ⟨rfl, rest⟩ := chain
      cases fuel with
      | zero => simp at enough
      | succ fuel =>
          rw [follow, ih rest (by simpa using enough)]

/-- The pointers lead through the nodes from the head to the tail and back. -/
structure Linked (next prev : α → Option α) (head tail : Option α) (nodes : List α) : Prop where
  forward : Chain next head nodes
  backward : Chain prev tail nodes.reverse

namespace Linked

variable {prev : α → Option α} {head tail : Option α}

theorem nil : Linked next prev none none [] := ⟨rfl, rfl⟩

theorem head_eq (linked : Linked next prev head tail nodes) : head = nodes.head? :=
  linked.forward.start_eq_head

theorem tail_eq (linked : Linked next prev head tail nodes) : tail = nodes.getLast? := by
  rw [linked.backward.start_eq_head, List.head?_reverse]

theorem next_eq (linked : Linked next prev head tail (front ++ node :: back)) :
    next node = back.head? :=
  linked.forward.next_eq.start_eq_head

/-- Only the pointers of the nodes matter. -/
theorem congr {prev' : α → Option α} (linked : Linked next prev head tail nodes)
    (sameNext : ∀ node ∈ nodes, other node = next node)
    (samePrev : ∀ node ∈ nodes, prev' node = prev node) : Linked other prev' head tail nodes where
  forward := linked.forward.congr sameNext
  backward := linked.backward.congr fun node member => samePrev node (List.mem_reverse.mp member)

theorem prev_eq (linked : Linked next prev head tail (front ++ node :: back)) :
    prev node = front.getLast? := by
  have backward := linked.backward
  rw [List.reverse_append, List.reverse_cons, List.append_assoc, List.singleton_append] at backward
  rw [backward.next_eq.start_eq_head, List.head?_reverse]

end Linked

variable [DecidableEq α]

/-- The pointers after `before` has got a new target; without it none of them changes. -/
def relink (next : α → Option α) (before target : Option α) : α → Option α :=
  match before with
  | none => next
  | some before => Function.update next before target

/-- Insert a new node after a node. -/
theorem Chain.insertAfter (chain : Chain next start (front ++ before :: back))
    (nodup : (front ++ before :: back).Nodup) (fresh : node ∉ front ++ before :: back) :
    Chain (Function.update (Function.update next node (next before)) before (some node)) start
      (front ++ before :: node :: back) := by
  have ne : node ≠ before := by
    rintro rfl
    exact fresh (by simp)
  rw [List.nodup_append] at nodup
  obtain ⟨_, nodupBack, apart⟩ := nodup
  have notFront : before ∉ front := fun member => apart before member before (by simp) rfl
  have notBack : before ∉ back := (List.nodup_cons.mp nodupBack).1
  have rest := chain.next_eq
  refine chain.splice ?_ ?_
  · intro other' member
    have ne' : other' ≠ before := ne_of_mem_of_not_mem member notFront
    have ne'' : other' ≠ node := by
      rintro rfl
      exact fresh (by simp [member])
    rw [Function.update_of_ne ne', Function.update_of_ne ne'']
  · rw [Function.update_self]
    refine ⟨rfl, ?_⟩
    rw [Function.update_of_ne ne, Function.update_self]
    refine rest.congr fun later member => ?_
    have ne' : later ≠ before := ne_of_mem_of_not_mem member notBack
    have ne'' : later ≠ node := by
      rintro rfl
      exact fresh (by simp [member])
    rw [Function.update_of_ne ne', Function.update_of_ne ne'']

/-- Insert a new node at the front. -/
theorem Chain.insertFirst (chain : Chain next start nodes) (fresh : node ∉ nodes) :
    Chain (Function.update next node start) (some node) (node :: nodes) := by
  refine ⟨rfl, ?_⟩
  rw [Function.update_self]
  refine chain.congr fun later member => ?_
  exact Function.update_of_ne (ne_of_mem_of_not_mem member fresh) _ _

/-- Unlink the node after a node. -/
theorem Chain.removeAfter (chain : Chain next start (front ++ before :: after :: back))
    (nodup : (front ++ before :: after :: back).Nodup) :
    Chain (Function.update (Function.update next before (next after)) after none) start
      (front ++ before :: back) := by
  rw [List.nodup_append] at nodup
  obtain ⟨_, nodupBack, apart⟩ := nodup
  obtain ⟨notBefore, nodupAfter⟩ := List.nodup_cons.mp nodupBack
  have notAfter : after ∉ back := (List.nodup_cons.mp nodupAfter).1
  have ne : before ≠ after := by
    rintro rfl
    exact notBefore (by simp)
  have rest : Chain next (next after) back := by
    have step := chain.next_eq
    exact step.2
  refine chain.splice ?_ ?_
  · intro other' member
    have ne' : other' ≠ before := fun same => apart other' member before (by simp) same
    have ne'' : other' ≠ after := fun same => apart other' member after (by simp) same
    rw [Function.update_of_ne ne'', Function.update_of_ne ne']
  · rw [Function.update_of_ne ne, Function.update_self]
    refine rest.congr fun later member => ?_
    have ne' : later ≠ after := ne_of_mem_of_not_mem member notAfter
    have ne'' : later ≠ before := by
      rintro rfl
      exact notBefore (by simp [member])
    rw [Function.update_of_ne ne', Function.update_of_ne ne'']

/-- Unlink the first node. -/
theorem Chain.removeFirst (chain : Chain next start (node :: nodes)) (nodup : (node :: nodes).Nodup) :
    Chain (Function.update next node none) (next node) nodes :=
  chain.2.congr fun _ member =>
    Function.update_of_ne (ne_of_mem_of_not_mem member (List.nodup_cons.mp nodup).1) _ _

/-- Append a new last node. -/
theorem Chain.append (chain : Chain next start nodes) (nodup : nodes.Nodup) (fresh : node ∉ nodes)
    (last : next node = none) :
    Chain (relink next nodes.getLast? (some node)) (if nodes = [] then some node else start)
      (nodes ++ [node]) := by
  rcases nodes.eq_nil_or_concat with rfl | ⟨front, before, rfl⟩
  · exact ⟨rfl, last⟩
  · rw [List.concat_eq_append] at *
    have ne : node ≠ before := by
      rintro rfl
      exact fresh (by simp)
    have notFront := (List.nodup_append.mp nodup).2.2
    rw [if_neg (by simp), List.getLast?_concat, List.append_assoc]
    refine chain.splice (fun other' member => ?_) ?_
    · exact Function.update_of_ne (notFront other' member before (by simp)) _ _
    · rw [relink, Function.update_self]
      refine ⟨rfl, ?_⟩
      rw [Function.update_of_ne ne]
      exact last

/-- Unlink a node. -/
theorem Chain.remove (chain : Chain next start (front ++ node :: back))
    (nodup : (front ++ node :: back).Nodup) :
    Chain (relink next front.getLast? (next node)) (if front = [] then next node else start)
      (front ++ back) := by
  have rest := chain.next_eq
  rcases front.eq_nil_or_concat with rfl | ⟨front, before, rfl⟩
  · exact rest
  · rw [List.concat_eq_append, List.append_assoc] at *
    obtain ⟨_, nodupBack, notFront⟩ := List.nodup_append.mp nodup
    rw [if_neg (by simp), List.getLast?_concat]
    refine chain.splice (fun other' member => ?_) ?_
    · exact Function.update_of_ne (notFront other' member before (by simp)) _ _
    · rw [relink, Function.update_self]
      refine rest.congr fun later member => Function.update_of_ne ?_ _ _
      rintro rfl
      exact (List.nodup_cons.mp nodupBack).1 (by simp [member])

namespace Linked

variable {prev : α → Option α} {head tail : Option α}

/-- Append a new last node, whose own pointers are set already. -/
theorem append (linked : Linked next prev head tail nodes) (nodup : nodes.Nodup)
    (fresh : node ∉ nodes) (last : next node = none) (before : prev node = tail) :
    Linked (relink next nodes.getLast? (some node)) prev (if nodes = [] then some node else head)
      (some node) (nodes ++ [node]) where
  forward := linked.forward.append nodup fresh last
  backward := by
    rw [List.reverse_concat]
    exact ⟨rfl, before ▸ linked.backward⟩

/-- Unlink a node. -/
theorem remove (linked : Linked next prev head tail (front ++ node :: back))
    (nodup : (front ++ node :: back).Nodup) :
    Linked (relink next front.getLast? back.head?) (relink prev back.head? front.getLast?)
      (if front = [] then back.head? else head) (if back = [] then front.getLast? else tail)
      (front ++ back) where
  forward := by
    have removed := linked.forward.remove nodup
    rwa [linked.next_eq] at removed
  backward := by
    have reversed := linked.backward
    have distinct := List.nodup_reverse.mpr nodup
    rw [List.reverse_append, List.reverse_cons, List.append_assoc, List.singleton_append]
      at reversed distinct
    have removed := reversed.remove distinct
    rw [linked.prev_eq, List.getLast?_reverse] at removed
    rw [List.reverse_append]
    simpa using removed

end Linked

end StorageStack.LinkedChain
