import StorageStack.LinkedChain

/-!
# Search trees of disjoint intervals

A binary tree whose items carry half-open intervals of addresses, in increasing order from left to
right.  The searches descend from the root as programs over such trees do: for the first item that
ends past an address, for the place of a new item together with its neighbours, and for the last item
that ends at or before an address, with a second list of the items to stop early.
-/

namespace StorageStack.IntervalTree

/-- A binary tree. -/
inductive SearchTree (α : Type*) where
  | leaf
  | node (left : SearchTree α) (item : α) (right : SearchTree α)

variable {α : Type*} {lo hi : α → Nat}

/-- The items from left to right. -/
def SearchTree.inorder : SearchTree α → List α
  | .leaf => []
  | .node left item right => left.inorder ++ item :: right.inorder

/-- A tree with the items of a list. -/
def SearchTree.ofList : List α → SearchTree α
  | [] => .leaf
  | item :: items => .node .leaf item (ofList items)

@[simp] theorem SearchTree.inorder_ofList (items : List α) :
    (SearchTree.ofList items).inorder = items := by
  induction items with
  | nil => rfl
  | cons item items ih => rw [ofList, inorder, inorder, List.nil_append, ih]

/-- The intervals are not empty, disjoint and in increasing order. -/
def Spaced (lo hi : α → Nat) (items : List α) : Prop :=
  items.Pairwise (fun first second => hi first ≤ lo second) ∧ ∀ item ∈ items, lo item < hi item

/-- The items that end at or before the address. -/
def before (hi : α → Nat) (addr : Nat) (items : List α) : List α :=
  items.filter fun item => hi item ≤ addr

/-- The items that end past the address. -/
def behind (hi : α → Nat) (addr : Nat) (items : List α) : List α :=
  items.filter fun item => addr < hi item

theorem mem_before {addr : Nat} {items : List α} {item : α} :
    item ∈ before hi addr items ↔ item ∈ items ∧ hi item ≤ addr := by
  simp [before]

theorem mem_behind {addr : Nat} {items : List α} {item : α} :
    item ∈ behind hi addr items ↔ item ∈ items ∧ addr < hi item := by
  simp [behind]

theorem Spaced.append_iff {left right : List α} :
    Spaced lo hi (left ++ right) ↔ Spaced lo hi left ∧ Spaced lo hi right ∧
      ∀ first ∈ left, ∀ second ∈ right, hi first ≤ lo second := by
  simp only [Spaced, List.pairwise_append, List.mem_append]
  constructor
  · rintro ⟨⟨leftSorted, rightSorted, apart⟩, proper⟩
    exact ⟨⟨leftSorted, fun item member => proper item (Or.inl member)⟩,
      ⟨rightSorted, fun item member => proper item (Or.inr member)⟩, apart⟩
  · rintro ⟨⟨leftSorted, leftProper⟩, ⟨rightSorted, rightProper⟩, apart⟩
    exact ⟨⟨leftSorted, rightSorted, apart⟩, fun item member =>
      member.elim (leftProper item) (rightProper item)⟩

theorem Spaced.cons_iff {item : α} {items : List α} :
    Spaced lo hi (item :: items) ↔ lo item < hi item ∧ Spaced lo hi items ∧
      ∀ second ∈ items, hi item ≤ lo second := by
  simp only [Spaced, List.pairwise_cons, List.mem_cons, forall_eq_or_imp]
  tauto

theorem Spaced.nodup {items : List α} (spaced : Spaced lo hi items) : items.Nodup := by
  refine (List.Pairwise.and_mem.mp spaced.1).imp ?_
  rintro first second ⟨member, _, order⟩ rfl
  have proper := spaced.2 first member
  omega

theorem Spaced.congr {lo' hi' : α → Nat} {items : List α} (spaced : Spaced lo hi items)
    (same : ∀ item ∈ items, lo' item = lo item ∧ hi' item = hi item) : Spaced lo' hi' items := by
  refine ⟨(List.Pairwise.and_mem.mp spaced.1).imp ?_, fun item member => ?_⟩
  · rintro first second ⟨member, member', order⟩
    rw [(same first member).2, (same second member').1]
    exact order
  · rw [(same item member).1, (same item member).2]
    exact spaced.2 item member

theorem Spaced.sublist {items part : List α} (spaced : Spaced lo hi items)
    (sub : part.Sublist items) : Spaced lo hi part :=
  ⟨spaced.1.sublist sub, fun item member => spaced.2 item (sub.subset member)⟩

/-- Two items of the list that share an address are the same. -/
theorem Spaced.eq_of_mem {items : List α} (spaced : Spaced lo hi items) {first second : α}
    (member : first ∈ items) (member' : second ∈ items) {addr : Nat} (low : lo first ≤ addr)
    (high : addr < hi first) (low' : lo second ≤ addr) (high' : addr < hi second) :
    first = second := by
  induction items with
  | nil => cases member
  | cons item items ih =>
      obtain ⟨_, rest, apart⟩ := Spaced.cons_iff.mp spaced
      rcases List.mem_cons.mp member with rfl | inside
      · rcases List.mem_cons.mp member' with rfl | inside'
        · rfl
        · have order := apart second inside'
          omega
      · rcases List.mem_cons.mp member' with rfl | inside'
        · have order := apart first inside
          omega
        · exact ih rest inside inside'

/-- An address splits the list into the items that end before it and the others. -/
theorem Spaced.split {items : List α} (spaced : Spaced lo hi items) (addr : Nat) :
    items = before hi addr items ++ behind hi addr items := by
  induction items with
  | nil => rfl
  | cons item items ih =>
      obtain ⟨proper, rest, apart⟩ := Spaced.cons_iff.mp spaced
      rcases Nat.lt_or_ge addr (hi item) with past | ends
      · have none_before : before hi addr items = [] := by
          rw [before, List.filter_eq_nil_iff]
          intro second member
          have order := apart second member
          have proper' := rest.2 second member
          simp only [decide_eq_true_eq]
          omega
        have all_behind : behind hi addr items = items := by
          rw [behind, List.filter_eq_self]
          intro second member
          have order := apart second member
          have proper' := rest.2 second member
          simp only [decide_eq_true_eq]
          omega
        have self_before : before hi addr (item :: items) = [] := by
          rw [before, List.filter_cons_of_neg (by simpa using past), ← before, none_before]
        have self_behind : behind hi addr (item :: items) = item :: items := by
          rw [behind, List.filter_cons_of_pos (by simpa using past), ← behind, all_behind]
        rw [self_before, self_behind, List.nil_append]
      · rw [before, behind, List.filter_cons_of_pos (by simpa using ends),
          List.filter_cons_of_neg (by simpa using ends), ← before, ← behind, List.cons_append,
          ← ih rest]

/-! ## Searching -/

/-- The descent to the first item that ends past the address. -/
def find (lo hi : α → Nat) (addr : Nat) : SearchTree α → Option α → Option α
  | .leaf, best => best
  | .node left item right, best =>
      if addr < hi item then
        if lo item ≤ addr then some item else find lo hi addr left (some item)
      else find lo hi addr right best

/-- What a descent has found: the item past the address, the item before it, and the last node
visited. -/
structure Place (α : Type*) where
  vma : Option α
  prev : Option α
  parent : Option α

/-- The descent to the place of a new item; it stops at an item that contains the address. -/
def prepare (lo hi : α → Nat) (addr : Nat) : SearchTree α → Place α → Place α
  | .leaf, place => place
  | .node left item right, place =>
      if addr < hi item then
        if lo item ≤ addr then ⟨some item, place.prev, some item⟩
        else prepare lo hi addr left ⟨some item, place.prev, some item⟩
      else prepare lo hi addr right ⟨place.vma, some item, some item⟩

/-- Link a new item at the end of the descent of `prepare`. -/
def link (lo hi : α → Nat) (addr : Nat) (new : α) : SearchTree α → SearchTree α
  | .leaf => .node .leaf new .leaf
  | .node left item right =>
      if addr < hi item then
        if lo item ≤ addr then .node left item right
        else .node (link lo hi addr new left) item right
      else .node left item (link lo hi addr new right)

/-- The descent to the last item that ends at or before the address; it stops when the list after an
item shows that there is no later one. -/
def findPrev (hi : α → Nat) (next : α → Option α) (addr : Nat) : SearchTree α → Option α → Option α
  | .leaf, prev => prev
  | .node left item right, prev =>
      if addr < hi item then findPrev hi next addr left prev
      else
        match next item with
        | none => some item
        | some later =>
            if addr < hi later then some item else findPrev hi next addr right (some item)

theorem before_eq_self {addr : Nat} {items : List α}
    (ends : ∀ item ∈ items, hi item ≤ addr) : before hi addr items = items := by
  rw [before, List.filter_eq_self]
  simpa using ends

theorem before_eq_nil {addr : Nat} {items : List α}
    (past : ∀ item ∈ items, addr < hi item) : before hi addr items = [] := by
  rw [before, List.filter_eq_nil_iff]
  simpa using past

theorem behind_eq_self {addr : Nat} {items : List α}
    (past : ∀ item ∈ items, addr < hi item) : behind hi addr items = items := by
  rw [behind, List.filter_eq_self]
  simpa using past

theorem behind_eq_nil {addr : Nat} {items : List α}
    (ends : ∀ item ∈ items, hi item ≤ addr) : behind hi addr items = [] := by
  rw [behind, List.filter_eq_nil_iff]
  simpa using ends

theorem before_append (addr : Nat) (left right : List α) :
    before hi addr (left ++ right) = before hi addr left ++ before hi addr right := by
  simp [before]

theorem behind_append (addr : Nat) (left right : List α) :
    behind hi addr (left ++ right) = behind hi addr left ++ behind hi addr right := by
  simp [behind]

theorem before_cons_of_le {addr : Nat} {item : α} (ends : hi item ≤ addr) (items : List α) :
    before hi addr (item :: items) = item :: before hi addr items := by
  simp [before, ends]

theorem before_cons_of_lt {addr : Nat} {item : α} (past : addr < hi item) (items : List α) :
    before hi addr (item :: items) = before hi addr items := by
  simp [before, past]

theorem behind_cons_of_lt {addr : Nat} {item : α} (past : addr < hi item) (items : List α) :
    behind hi addr (item :: items) = item :: behind hi addr items := by
  simp [behind, past]

theorem behind_cons_of_le {addr : Nat} {item : α} (ends : hi item ≤ addr) (items : List α) :
    behind hi addr (item :: items) = behind hi addr items := by
  simp [behind, ends]

theorem before_filter (addr : Nat) (keep : α → Bool) (items : List α) :
    before hi addr (items.filter keep) = (before hi addr items).filter keep := by
  simp only [before, List.filter_filter, Bool.and_comm]

theorem behind_filter (addr : Nat) (keep : α → Bool) (items : List α) :
    behind hi addr (items.filter keep) = (behind hi addr items).filter keep := by
  simp only [behind, List.filter_filter, Bool.and_comm]

/-- An item may get other bounds between its neighbours. -/
theorem Spaced.resize [DecidableEq α] {front back : List α} {item : α} {start stop : Nat}
    (spaced : Spaced lo hi (front ++ item :: back)) (proper : start < stop)
    (room : ∀ earlier ∈ front, hi earlier ≤ start) (room' : ∀ later ∈ back, stop ≤ lo later) :
    Spaced (Function.update lo item start) (Function.update hi item stop)
      (front ++ item :: back) := by
  have nodup := spaced.nodup
  obtain ⟨left, tail, apart⟩ := Spaced.append_iff.mp spaced
  obtain ⟨_, right, _⟩ := Spaced.cons_iff.mp tail
  obtain ⟨_, nodupTail, distinct⟩ := List.nodup_append.mp nodup
  have notFront : ∀ earlier ∈ front, earlier ≠ item := fun earlier member =>
    distinct earlier member item (List.mem_cons_self ..)
  have notBack : ∀ later ∈ back, later ≠ item := fun later member =>
    ne_of_mem_of_not_mem member (List.nodup_cons.mp nodupTail).1
  refine Spaced.append_iff.mpr ⟨left.congr fun earlier member => ?_, Spaced.cons_iff.mpr ⟨?_,
    right.congr fun later member => ?_, fun later member => ?_⟩, ?_⟩
  · rw [Function.update_of_ne (notFront earlier member), Function.update_of_ne (notFront earlier member)]
    exact ⟨rfl, rfl⟩
  · rw [Function.update_self, Function.update_self]
    exact proper
  · rw [Function.update_of_ne (notBack later member), Function.update_of_ne (notBack later member)]
    exact ⟨rfl, rfl⟩
  · rw [Function.update_self, Function.update_of_ne (notBack later member)]
    exact room' later member
  · intro earlier member later member'
    rw [Function.update_of_ne (notFront earlier member)]
    rcases List.mem_cons.mp member' with rfl | inBack
    · rw [Function.update_self]
      exact room earlier member
    · rw [Function.update_of_ne (notBack later inBack)]
      exact apart earlier member later member'

/-- The items before the start of an item. -/
theorem Spaced.before_lo {front back : List α} {item : α}
    (spaced : Spaced lo hi (front ++ item :: back)) :
    before hi (lo item) (front ++ item :: back) = front := by
  obtain ⟨_, tail, apart⟩ := Spaced.append_iff.mp spaced
  obtain ⟨proper, rest, later⟩ := Spaced.cons_iff.mp tail
  rw [before_append, before_eq_self fun earlier member =>
    apart earlier member item (List.mem_cons_self ..), before_eq_nil, List.append_nil]
  intro other member
  rcases List.mem_cons.mp member with rfl | inBack
  · exact proper
  · have order := later other inBack
    have proper' := rest.2 other inBack
    omega

section Descent

variable {addr : Nat} {left right : SearchTree α} {item : α}

/-- The items to the right of one that ends past the address do so too. -/
theorem Spaced.right_behind (spaced : Spaced lo hi (SearchTree.node left item right).inorder)
    (past : addr < hi item) : ∀ later ∈ right.inorder, addr < hi later := by
  obtain ⟨_, rest, _⟩ := Spaced.append_iff.mp spaced
  obtain ⟨_, tail, apart⟩ := Spaced.cons_iff.mp rest
  intro later member
  have order := apart later member
  have proper := tail.2 later member
  omega

/-- The items to the left of one that starts at or before the address end before it. -/
theorem Spaced.left_before (spaced : Spaced lo hi (SearchTree.node left item right).inorder)
    (starts : lo item ≤ addr) : ∀ earlier ∈ left.inorder, hi earlier ≤ addr := by
  obtain ⟨_, _, apart⟩ := Spaced.append_iff.mp spaced
  intro earlier member
  have order := apart earlier member item (List.mem_cons_self ..)
  omega

theorem Spaced.of_left (spaced : Spaced lo hi (SearchTree.node left item right).inorder) :
    Spaced lo hi left.inorder :=
  (Spaced.append_iff.mp spaced).1

theorem Spaced.of_right (spaced : Spaced lo hi (SearchTree.node left item right).inorder) :
    Spaced lo hi right.inorder :=
  (Spaced.cons_iff.mp (Spaced.append_iff.mp spaced).2.1).2.1

theorem Spaced.item_proper (spaced : Spaced lo hi (SearchTree.node left item right).inorder) :
    lo item < hi item :=
  spaced.2 item (by simp [SearchTree.inorder])

/-- The search finds the first item that ends past the address. -/
theorem find_eq (tree : SearchTree α) (addr : Nat) (spaced : Spaced lo hi tree.inorder) :
    ∀ best, find lo hi addr tree best = ((behind hi addr tree.inorder).head?).or best := by
  induction tree with
  | leaf =>
      intro best
      rfl
  | node left item right ihLeft ihRight =>
      intro best
      rw [find, SearchTree.inorder, behind_append]
      split
      · next past =>
          rw [behind_cons_of_lt past]
          split
          · next starts =>
              rw [behind_eq_nil (spaced.left_before starts)]
              rfl
          · rw [ihLeft spaced.of_left]
            cases behind hi addr left.inorder <;> rfl
      · next ends =>
          have proper := spaced.item_proper
          rw [ihRight spaced.of_right, behind_cons_of_le (by omega),
            behind_eq_nil (spaced.left_before (by omega)), List.nil_append]

/-- The place of a new item at an address that no item contains: its neighbours in the list. -/
theorem prepare_eq (tree : SearchTree α) (addr : Nat) (spaced : Spaced lo hi tree.inorder)
    (free : ∀ item ∈ tree.inorder, hi item ≤ addr ∨ addr < lo item) :
    ∀ place, (prepare lo hi addr tree place).vma =
        ((behind hi addr tree.inorder).head?).or place.vma ∧
      (prepare lo hi addr tree place).prev =
        ((before hi addr tree.inorder).getLast?).or place.prev := by
  induction tree with
  | leaf =>
      intro place
      exact ⟨rfl, rfl⟩
  | node left item right ihLeft ihRight =>
      intro place
      have freeItem := free item (by simp [SearchTree.inorder])
      have freeLeft : ∀ other ∈ left.inorder, hi other ≤ addr ∨ addr < lo other :=
        fun other member => free other (by simp [SearchTree.inorder, member])
      have freeRight : ∀ other ∈ right.inorder, hi other ≤ addr ∨ addr < lo other :=
        fun other member => free other (by simp [SearchTree.inorder, member])
      rw [prepare, SearchTree.inorder, behind_append, before_append]
      split
      · next past =>
          rw [if_neg (by omega), behind_cons_of_lt past, before_cons_of_lt past,
            before_eq_nil (spaced.right_behind past), List.append_nil]
          obtain ⟨vma, prev⟩ := ihLeft spaced.of_left freeLeft ⟨some item, place.prev, some item⟩
          rw [vma, prev]
          refine ⟨?_, rfl⟩
          cases behind hi addr left.inorder <;> rfl
      · next ends =>
          have proper := spaced.item_proper
          have leftEnds := spaced.left_before (show lo item ≤ addr by omega)
          rw [behind_cons_of_le (by omega), before_cons_of_le (by omega), behind_eq_nil leftEnds,
            before_eq_self leftEnds, List.nil_append]
          obtain ⟨vma, prev⟩ := ihRight spaced.of_right freeRight ⟨place.vma, some item, some item⟩
          rw [vma, prev]
          refine ⟨rfl, ?_⟩
          rw [List.getLast?_append, List.getLast?_cons]
          cases (before hi addr right.inorder).getLast? <;> rfl

/-- When no item ends before the address, the descent ends below the first item. -/
theorem prepare_parent (tree : SearchTree α) (addr : Nat)
    (free : ∀ item ∈ tree.inorder, addr < hi item ∧ addr < lo item) :
    ∀ place, (prepare lo hi addr tree place).parent =
      (tree.inorder.head?).or place.parent := by
  induction tree with
  | leaf =>
      intro place
      rfl
  | node left item right ihLeft _ =>
      intro place
      have freeItem := free item (by simp [SearchTree.inorder])
      rw [prepare, if_pos freeItem.1, if_neg (by omega),
        ihLeft fun other member => free other (by simp [SearchTree.inorder, member])]
      rw [SearchTree.inorder]
      cases left.inorder <;> rfl

/-- Linking a new item puts it between its neighbours. -/
theorem inorder_link (tree : SearchTree α) (addr : Nat) (new : α) (spaced : Spaced lo hi tree.inorder)
    (free : ∀ item ∈ tree.inorder, hi item ≤ addr ∨ addr < lo item) :
    (link lo hi addr new tree).inorder =
      before hi addr tree.inorder ++ new :: behind hi addr tree.inorder := by
  induction tree with
  | leaf => rfl
  | node left item right ihLeft ihRight =>
      have freeItem := free item (by simp [SearchTree.inorder])
      rw [link]
      split
      · next past =>
          rw [if_neg (by omega), SearchTree.inorder,
            ihLeft spaced.of_left fun other member => free other (by simp [SearchTree.inorder, member]),
            SearchTree.inorder, before_append, behind_append, before_cons_of_lt past,
            behind_cons_of_lt past, before_eq_nil (spaced.right_behind past),
            behind_eq_self (spaced.right_behind past)]
          simp
      · next ends =>
          have proper := spaced.item_proper
          have leftEnds := spaced.left_before (show lo item ≤ addr by omega)
          rw [SearchTree.inorder,
            ihRight spaced.of_right fun other member => free other (by simp [SearchTree.inorder, member]),
            SearchTree.inorder, before_append, behind_append, before_cons_of_le (by omega),
            behind_cons_of_le (by omega), before_eq_self leftEnds, behind_eq_nil leftEnds]
          simp

end Descent

open LinkedChain in
/-- The search with early stops finds the last item that ends at or before the address. -/
theorem findPrev_eq {next : α → Option α} {start : Option α} {items : List α} {addr : Nat}
    (chain : Chain next start items) (spaced : Spaced lo hi items) (tree : SearchTree α) :
    ∀ prev, Spaced lo hi tree.inorder → (∀ item ∈ tree.inorder, item ∈ items) →
      (before hi addr items).getLast? = ((before hi addr tree.inorder).getLast?).or prev →
      findPrev hi next addr tree prev = (before hi addr items).getLast? := by
  induction tree with
  | leaf =>
      intro prev _ _ last
      rw [last]
      rfl
  | node left item right ihLeft ihRight =>
      intro prev sorted inside last
      rw [SearchTree.inorder, before_append] at last
      rw [findPrev]
      split
      · next past =>
          rw [before_cons_of_lt past, before_eq_nil (sorted.right_behind past),
            List.append_nil] at last
          exact ihLeft prev sorted.of_left
            (fun other member => inside other (by simp [SearchTree.inorder, member])) last
      · next ends =>
          have proper := sorted.item_proper
          have leftEnds := sorted.left_before (show lo item ≤ addr by omega)
          rw [before_cons_of_le (by omega), before_eq_self leftEnds] at last
          have last' : (before hi addr items).getLast? =
              ((before hi addr right.inorder).getLast?).or (some item) := by
            rw [last, List.getLast?_append, List.getLast?_cons]
            cases (before hi addr right.inorder).getLast? <;> rfl
          -- what the list says about the items after this one
          obtain ⟨front, back, rfl⟩ := List.append_of_mem (inside item (by simp [SearchTree.inorder]))
          have tail := chain.next_eq.start_eq_head
          obtain ⟨frontSpaced, rest, apart⟩ := Spaced.append_iff.mp spaced
          obtain ⟨_, backSpaced, later⟩ := Spaced.cons_iff.mp rest
          have frontEnds : ∀ earlier ∈ front, hi earlier ≤ addr := by
            intro earlier member
            have order := apart earlier member item (List.mem_cons_self ..)
            omega
          rw [before_append, before_eq_self frontEnds, before_cons_of_le (by omega)] at last' ⊢
          cases back with
          | nil =>
              rw [tail]
              simp [before]
          | cons second back =>
              rw [tail]
              dsimp only [List.head?_cons]
              split
              · next stop =>
                  have none_before : before hi addr (second :: back) = [] := by
                    apply before_eq_nil
                    intro other member
                    rcases List.mem_cons.mp member with rfl | member
                    · exact stop
                    · have order := (Spaced.cons_iff.mp backSpaced).2.2 other member
                      have proper' := backSpaced.2 other (List.mem_cons_of_mem _ member)
                      omega
                  rw [none_before]
                  simp
              · rw [← before_eq_self frontEnds, ← before_cons_of_le (show hi item ≤ addr by omega),
                  ← before_append] at last' ⊢
                exact ihRight (some item) sorted.of_right
                  (fun other member => inside other (by simp [SearchTree.inorder, member])) last'

end StorageStack.IntervalTree
