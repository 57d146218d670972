import StorageStack.IntervalTree

/-!
# Search trees with keys

A binary tree whose items are in increasing order of a key.  The key is a function of the item, so that
it may be a field of a record in memory, which changes under the tree.
-/

namespace StorageStack.KeyedTree

open IntervalTree

variable {α : Type*} {key : α → Nat}

/-- The keys increase from left to right. -/
def Sorted (key : α → Nat) (items : List α) : Prop :=
  items.Pairwise fun first second => key first < key second

/-- The descent to the item with the key. -/
def search (key : α → Nat) (target : Nat) : SearchTree α → Option α
  | .leaf => none
  | .node left item right =>
      if key item = target then some item
      else if target < key item then search key target left
      else search key target right

/-- Link a new item where the descent to its key ends, unless an item has the key. -/
def insert (key : α → Nat) (target : Nat) (new : α) : SearchTree α → Option (SearchTree α)
  | .leaf => some (.node .leaf new .leaf)
  | .node left item right =>
      if key item = target then none
      else if target < key item then
        (insert key target new left).map fun left => .node left item right
      else (insert key target new right).map fun right => .node left item right

theorem Sorted.nodup {items : List α} (sorted : Sorted key items) : items.Nodup := by
  refine List.Pairwise.imp ?_ sorted
  rintro first second order rfl
  exact absurd order (Nat.lt_irrefl _)

theorem Sorted.congr {key' : α → Nat} {items : List α} (sorted : Sorted key items)
    (same : ∀ item ∈ items, key' item = key item) : Sorted key' items := by
  refine List.Pairwise.imp ?_ (List.Pairwise.and_mem.mp sorted)
  rintro first second ⟨member, member', order⟩
  rw [same first member, same second member']
  exact order

/-- A node splits the keys into the smaller and the larger ones. -/
theorem sorted_node_iff {left right : SearchTree α} {item : α} :
    Sorted key (SearchTree.node left item right).inorder ↔
      Sorted key left.inorder ∧ Sorted key right.inorder ∧
        (∀ other ∈ left.inorder, key other < key item) ∧
        (∀ other ∈ right.inorder, key item < key other) ∧
        ∀ first ∈ left.inorder, ∀ second ∈ right.inorder, key first < key second := by
  rw [Sorted, SearchTree.inorder, List.pairwise_append, List.pairwise_cons]
  simp only [List.mem_cons, forall_eq_or_imp, Sorted]
  constructor
  · rintro ⟨left, ⟨larger, right⟩, apart⟩
    exact ⟨left, right, fun other member => (apart other member).1, larger,
      fun first member => (apart first member).2⟩
  · rintro ⟨left, right, smaller, larger, apart⟩
    exact ⟨left, ⟨larger, right⟩, fun other member => ⟨smaller other member, apart other member⟩⟩

/-- The search finds exactly the item with the key. -/
theorem search_eq_some_iff {target : Nat} {found : α} (tree : SearchTree α)
    (sorted : Sorted key tree.inorder) :
    search key target tree = some found ↔ found ∈ tree.inorder ∧ key found = target := by
  induction tree with
  | leaf => simp [search, SearchTree.inorder]
  | node left item right ihLeft ihRight =>
      obtain ⟨leftSorted, rightSorted, smaller, larger, _⟩ := sorted_node_iff.mp sorted
      rw [search, SearchTree.inorder, List.mem_append, List.mem_cons]
      split
      · next same =>
          constructor
          · rintro hit
            cases hit
            exact ⟨Or.inr (Or.inl rfl), same⟩
          · rintro ⟨inLeft | rfl | inRight, sameKey⟩
            · have order := smaller found inLeft
              omega
            · rfl
            · have order := larger found inRight
              omega
      · next ne =>
          split
          · next less =>
              rw [ihLeft leftSorted]
              constructor
              · rintro ⟨member, sameKey⟩
                exact ⟨Or.inl member, sameKey⟩
              · rintro ⟨inLeft | rfl | inRight, sameKey⟩
                · exact ⟨inLeft, sameKey⟩
                · exact absurd sameKey ne
                · have order := larger found inRight
                  omega
          · next notLess =>
              rw [ihRight rightSorted]
              constructor
              · rintro ⟨member, sameKey⟩
                exact ⟨Or.inr (Or.inr member), sameKey⟩
              · rintro ⟨inLeft | rfl | inRight, sameKey⟩
                · have order := smaller found inLeft
                  omega
                · exact absurd sameKey ne
                · exact ⟨inRight, sameKey⟩

theorem search_eq_none_iff {target : Nat} (tree : SearchTree α)
    (sorted : Sorted key tree.inorder) :
    search key target tree = none ↔ ∀ item ∈ tree.inorder, key item ≠ target := by
  constructor
  · intro missed item member same
    rw [(search_eq_some_iff tree sorted).mpr ⟨member, same⟩] at missed
    cases missed
  · intro free
    cases found : search key target tree with
    | none => rfl
    | some item =>
        obtain ⟨member, same⟩ := (search_eq_some_iff tree sorted).mp found
        exact absurd same (free item member)

/-- The new item is linked between the smaller and the larger keys, if no item has its key. -/
theorem insert_spec {target : Nat} {new : α} (sameKey : key new = target) (tree : SearchTree α)
    (sorted : Sorted key tree.inorder) (free : ∀ item ∈ tree.inorder, key item ≠ target) :
    ∃ linked, insert key target new tree = some linked ∧ Sorted key linked.inorder ∧
      ∀ item, item ∈ linked.inorder ↔ item = new ∨ item ∈ tree.inorder := by
  induction tree with
  | leaf =>
      exact ⟨_, rfl, List.pairwise_singleton _ _, fun item => by simp [SearchTree.inorder]⟩
  | node left item right ihLeft ihRight =>
      obtain ⟨leftSorted, rightSorted, smaller, larger, apart⟩ := sorted_node_iff.mp sorted
      have freeItem := free item (by simp [SearchTree.inorder])
      rw [insert, if_neg freeItem]
      split
      · next less =>
          obtain ⟨linked, eq, linkedSorted, members⟩ := ihLeft leftSorted fun other member =>
            free other (by simp [SearchTree.inorder, member])
          refine ⟨.node linked item right, by rw [eq]; rfl, sorted_node_iff.mpr
            ⟨linkedSorted, rightSorted, fun other member => ?_, larger, fun first member => ?_⟩,
            fun other => ?_⟩
          · rcases (members other).mp member with rfl | old
            · omega
            · exact smaller other old
          · rcases (members first).mp member with rfl | old
            · intro second inRight
              have order := larger second inRight
              omega
            · exact apart first old
          · simp only [SearchTree.inorder, List.mem_append, List.mem_cons, members other]
            tauto
      · next notLess =>
          obtain ⟨linked, eq, linkedSorted, members⟩ := ihRight rightSorted fun other member =>
            free other (by simp [SearchTree.inorder, member])
          refine ⟨.node left item linked, by rw [eq]; rfl, sorted_node_iff.mpr
            ⟨leftSorted, linkedSorted, smaller, fun other member => ?_, fun first inLeft second
              member => ?_⟩, fun other => ?_⟩
          · rcases (members other).mp member with rfl | old
            · omega
            · exact larger other old
          · rcases (members second).mp member with rfl | old
            · have order := smaller first inLeft
              omega
            · exact apart first inLeft second old
          · simp only [SearchTree.inorder, List.mem_append, List.mem_cons, members other]
            tauto

end StorageStack.KeyedTree
