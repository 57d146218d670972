import StorageStack.F2fs.TruncationResult

/-!
# Truncation removes the tail

From the cut on no block of a file is mapped, its data has been invalidated in order, and the nodes
from `freeStart` on are freed.
-/

namespace StorageStack
namespace F2fs
namespace Truncation

/-! ## The blocks of a file -/

/-- An address that is not `NULL_ADDR`. -/
def nonNull (addr : Nat) : Option Nat := if addr = 0 then none else some addr

theorem maxFileBlocks_eq (inlineXattr : Bool) :
    maxFileBlocks inlineXattr = addrsPerInode inlineXattr + dnodeTotal * addrsPerBlock := by
  have total : dnodeTotal * addrsPerBlock = 1018 * 1018 * 1018 + 2 * (1018 * 1018) + 2 * 1018 := rfl
  rw [maxFileBlocks, total, Nat.add_comm]

/-- A block of a file lies in the inode or in a direct node. -/
theorem block_cases {inlineXattr : Bool} {block : Nat}
    (block_lt : block < maxFileBlocks inlineXattr) :
    block < addrsPerInode inlineXattr ∨
      ∃ number < dnodeTotal, ∃ slot < addrsPerBlock, block = blockOf inlineXattr number slot := by
  rw [maxFileBlocks_eq] at block_lt
  have addrs : addrsPerBlock = 1018 := rfl
  have total : dnodeTotal = 1038362 := rfl
  rcases Nat.lt_or_ge block (addrsPerInode inlineXattr) with inode | above
  · exact .inl inode
  · refine .inr ⟨(block - addrsPerInode inlineXattr) / 1018, ?_,
      (block - addrsPerInode inlineXattr) % 1018, ?_, ?_⟩
    · rw [total] at block_lt ⊢
      rw [addrs] at block_lt
      omega
    · rw [addrs]
      omega
    · rw [blockOf, addrs]
      omega

namespace FileTree

variable {tree : FileTree}

theorem mapped_inode {slot : Nat} (slot_lt : slot < addrsPerInode tree.inlineXattr) :
    tree.mapped slot = nonNull (tree.addr slot) := by
  rw [mapped, (PathShape.inode slot_lt).getNodePath, Option.bind_some, dnodeOfData]
  rfl

theorem mapped_number {number slot : Nat} (number_lt : number < dnodeTotal)
    (slot_lt : slot < addrsPerBlock) :
    tree.mapped (blockOf tree.inlineXattr number slot) =
      (tree.dnode number).bind fun node => nonNull (node slot) := by
  obtain ⟨path, way⟩ := numberPath_exists tree.inlineXattr slot number_lt
  rw [mapped, way.getNodePath slot_lt, Option.bind_some, way.dnodeOfData]
  cases tree.dnode number <;> rfl

theorem mapped_outside {block : Nat} (outside : maxFileBlocks tree.inlineXattr ≤ block) :
    tree.mapped block = none := by
  have missing : getNodePath tree.inlineXattr block = none := by
    rw [← Option.not_isSome_iff_eq_none, getNodePath_isSome_iff]
    omega
  rw [mapped, missing, Option.bind_none]

end FileTree

theorem addresses_eq (node : Dnode) (ofs count : Nat) :
    addresses node ofs count = (List.range' ofs count).filterMap fun slot => nonNull (node slot) := by
  rw [addresses]
  induction List.range' ofs count with
  | nil => rfl
  | cons slot slots ih =>
    rw [List.map_cons, List.filterMap_cons, nonNull]
    by_cases null : node slot = 0
    · rw [List.filter_cons_of_neg (by simp [null]), ih, if_pos null]
    · rw [List.filter_cons_of_pos (by simp [null]), ih, if_neg null]

namespace FileTree

variable {tree : FileTree}

/-- The blocks that are mapped from a block of the file on. -/
def tail (tree : FileTree) (block : Nat) : List Nat :=
  (List.range' block (maxFileBlocks tree.inlineXattr - block)).filterMap tree.mapped

theorem tail_split {block middle : Nat} (block_le : block ≤ middle)
    (middle_le : middle ≤ maxFileBlocks tree.inlineXattr) :
    tree.tail block =
      (List.range' block (middle - block)).filterMap tree.mapped ++ tree.tail middle := by
  have whole : maxFileBlocks tree.inlineXattr - block =
      middle - block + (maxFileBlocks tree.inlineXattr - middle) := by
    omega
  have joined := @List.range'_append_1 block (middle - block)
    (maxFileBlocks tree.inlineXattr - middle)
  rw [show block + (middle - block) = middle by omega] at joined
  rw [tail, whole, ← joined, List.filterMap_append, tail]

theorem filterMap_inode {slot count : Nat}
    (count_le : slot + count ≤ addrsPerInode tree.inlineXattr) :
    (List.range' slot count).filterMap tree.mapped = addresses tree.addr slot count := by
  rw [addresses_eq]
  apply List.filterMap_congr
  intro block mem
  have inside := List.mem_range'_1.1 mem
  exact mapped_inode (by omega)

/-- The blocks of a direct node. -/
theorem filterMap_number {number slot count : Nat} (number_lt : number < dnodeTotal)
    (count_le : slot + count ≤ addrsPerBlock) :
    (List.range' (blockOf tree.inlineXattr number slot) count).filterMap tree.mapped =
      (tree.dnode number).elim [] fun node => addresses node slot count := by
  rw [blockOf, range'_shift, List.filterMap_map]
  have each : ∀ block ∈ List.range' slot count,
      (tree.mapped ∘ (addrsPerInode tree.inlineXattr + number * addrsPerBlock + ·)) block =
        (tree.dnode number).bind fun node => nonNull (node block) := by
    intro block mem
    have inside := List.mem_range'_1.1 mem
    exact mapped_number number_lt (by omega)
  rw [List.filterMap_congr each]
  cases tree.dnode number with
  | none =>
    rw [Option.elim_none]
    exact List.filterMap_eq_nil_iff.2 fun _ _ => rfl
  | some node => exact (addresses_eq _ _ _).symm

/-- The tail from the first block of a direct node on. -/
theorem tail_number {number : Nat} (number_le : number ≤ dnodeTotal) :
    tree.tail (blockOf tree.inlineXattr number 0) = tree.dataFrom number := by
  have rows : maxFileBlocks tree.inlineXattr - blockOf tree.inlineXattr number 0 =
      (dnodeTotal - number) * addrsPerBlock := by
    rw [maxFileBlocks_eq, blockOf, Nat.sub_mul]
    omega
  rw [tail, rows, blockOf, Nat.add_zero, range'_rows, List.filterMap_flatMap, dataFrom]
  rw [List.flatMap_def, List.flatMap_def]
  congr 1
  apply List.map_congr_left
  intro other mem
  have inside := List.mem_range'_1.1 mem
  have node := @filterMap_number tree other 0 addrsPerBlock (by omega) (by omega)
  rw [blockOf, Nat.add_zero] at node
  rw [node, numberData]

theorem blockOf_succ (inlineXattr : Bool) (number : Nat) :
    blockOf inlineXattr (number + 1) 0 = blockOf inlineXattr number 0 + addrsPerBlock := by
  rw [blockOf, blockOf, Nat.succ_mul]
  omega

/-- The tail from a block of a direct node on. -/
theorem tail_slot {number slot : Nat} (number_lt : number < dnodeTotal)
    (slot_lt : slot < addrsPerBlock) :
    tree.tail (blockOf tree.inlineXattr number slot) =
      ((tree.dnode number).elim [] fun node => addresses node slot (addrsPerBlock - slot)) ++
        tree.dataFrom (number + 1) := by
  have next := blockOf_succ tree.inlineXattr number
  have here : blockOf tree.inlineXattr number slot = blockOf tree.inlineXattr number 0 + slot := rfl
  have rows := Nat.mul_le_mul_right addrsPerBlock (Nat.succ_le_of_lt number_lt)
  have count : blockOf tree.inlineXattr (number + 1) 0 - blockOf tree.inlineXattr number slot =
      addrsPerBlock - slot := by
    omega
  rw [@tail_split tree (blockOf tree.inlineXattr number slot)
    (blockOf tree.inlineXattr (number + 1) 0) (by omega)
    (by rw [maxFileBlocks_eq]; exact Nat.add_le_add_left rows _), count,
    filterMap_number number_lt (by omega), tail_number (Nat.succ_le_of_lt number_lt)]

end FileTree

/-! ## Where the code cuts -/

section Cut

variable {tree : FileTree} {number slot : Nat}

/-- The block of the file at which `truncate_inode_blocks` begins lies in a missing node. -/
structure MissingAt (tree : FileTree) (number slot start row : Nat) : Prop where
  cuts : Cuts tree start (truncateInodeBlocks tree (blockOf tree.inlineXattr number slot))
  freeStart : tree.freeStart (blockOf tree.inlineXattr number slot) =
    blockOf tree.inlineXattr row 0
  start_le : start ≤ number + 1
  missing : ∀ other, start ≤ other → other ≤ number → tree.dnode other = none
  places : ∀ place : Place, place.InTree → tree.has place = true →
    (row ≤ place.number ↔ start ≤ place.number)

theorem freeStart_of_find {block : Nat} {place : Place}
    (found : (tree.way block).find? (fun place => !tree.has place) = some place) :
    tree.freeStart block = blockOf tree.inlineXattr place.number 0 := by
  rw [FileTree.freeStart, found]
  rfl

theorem freeStart_of_way {block : Nat} (all : ∀ place ∈ tree.way block, tree.has place = true) :
    tree.freeStart block = block := by
  have found : (tree.way block).find? (fun place => !tree.has place) = none := by
    apply List.find?_eq_none.2
    intro place mem
    simp [all place mem]
  rw [FileTree.freeStart, found]

theorem way_direct {which : Nat} (which_lt : which < 2) (slot_lt : slot < addrsPerBlock) :
    tree.way (blockOf tree.inlineXattr which slot) = [.direct which] := by
  rw [FileTree.way, (NumberPath.direct which_lt).getNodePath slot_lt]
  simp only [Nat.add_sub_cancel_left]

theorem way_indirect {which child : Nat} (which_lt : which < 2) (child_lt : child < nidsPerBlock)
    (slot_lt : slot < addrsPerBlock) :
    tree.way (blockOf tree.inlineXattr (indirectBase which + child) slot) =
      [.indirect which, .child which child] := by
  rw [FileTree.way, (NumberPath.indirect which_lt child_lt).getNodePath slot_lt]
  simp only [Nat.add_sub_cancel_left]

theorem way_double {row second : Nat} (row_lt : row < nidsPerBlock)
    (second_lt : second < nidsPerBlock) (slot_lt : slot < addrsPerBlock) :
    tree.way (blockOf tree.inlineXattr (doubleBase + row * nidsPerBlock + second) slot) =
      [.double, .first row, .second row second] := by
  rw [FileTree.way, (NumberPath.double row_lt second_lt).getNodePath slot_lt]
  rfl

/-- A node with the numbers of an indirect node of the inode is this node or below it. -/
theorem page_of_single {place : Place} (inTree : place.InTree) (held : tree.has place = true)
    {which : Nat} (which_lt : which < 2) (base_le : indirectBase which ≤ place.number)
    (below : place.number < indirectBase which + nidsPerBlock) :
    (tree.indirect which).page ≠ none := by
  have nids : nidsPerBlock = 1018 := rfl
  intro missing
  cases place with
  | direct other =>
    have inTree : other < 2 := inTree
    simp only [Place.number, indirectBase] at base_le
    omega
  | indirect other =>
    have inTree : other < 2 := inTree
    simp only [Place.number, indirectBase, nids] at base_le below
    obtain rfl : other = which := by omega
    rw [FileTree.has, missing] at held
    cases held
  | child other slot =>
    have inTree : other < 2 ∧ slot < 1018 := inTree
    simp only [Place.number, indirectBase, nids] at base_le below
    obtain rfl : other = which := by omega
    rw [FileTree.has, missing] at held
    cases held
  | double =>
    simp only [Place.number, indirectBase, doubleBase, nids] at below
    omega
  | first other =>
    simp only [Place.number, indirectBase, doubleBase, nids] at below
    omega
  | second other slot =>
    simp only [Place.number, indirectBase, doubleBase, nids] at below
    omega

/-- A node with the numbers of the double indirect node is this node or below it. -/
theorem page_of_double {place : Place} (inTree : place.InTree) (held : tree.has place = true)
    (base_le : doubleBase ≤ place.number) : tree.double.page ≠ none := by
  have nids : nidsPerBlock = 1018 := rfl
  intro missing
  cases place with
  | direct other =>
    have inTree : other < 2 := inTree
    simp only [Place.number, doubleBase] at base_le
    omega
  | indirect other =>
    have inTree : other < 2 := inTree
    simp only [Place.number, indirectBase, doubleBase, nids] at base_le
    omega
  | child other slot =>
    have inTree : other < 2 ∧ slot < 1018 := inTree
    simp only [Place.number, indirectBase, doubleBase, nids] at base_le
    omega
  | double =>
    rw [FileTree.has, missing] at held
    cases held
  | first other =>
    rw [FileTree.has, missing] at held
    cases held
  | second other slot =>
    rw [FileTree.has, missing] at held
    cases held

/-- The freed nodes begin at the cut or before it. -/
theorem freeStart_le (tree : FileTree) {cut : Nat} (cut_lt : cut < maxFileBlocks tree.inlineXattr) :
    tree.freeStart cut ≤ cut := by
  have start_le : ∀ place ∈ tree.way cut, place.start tree.inlineXattr ≤ cut := by
    rcases block_cases cut_lt with slot_lt | ⟨number, number_lt, slot, slot_lt, rfl⟩
    · intro place mem
      rw [FileTree.way, (PathShape.inode slot_lt).getNodePath] at mem
      cases mem
    · have below {other : Nat} (other_le : other ≤ number) :
          addrsPerInode tree.inlineXattr + other * addrsPerBlock ≤
            blockOf tree.inlineXattr number slot := by
        have rows := Nat.mul_le_mul_right addrsPerBlock other_le
        rw [blockOf]
        omega
      rcases number_cases number_lt with which_lt | ⟨which, which_lt, child, child_lt, rfl⟩ |
        ⟨row, row_lt, second, second_lt, rfl⟩
      · rw [way_direct which_lt slot_lt]
        intro place mem
        rw [List.mem_singleton.1 mem]
        exact below (Nat.le_refl _)
      · rw [way_indirect which_lt child_lt slot_lt]
        intro place mem
        simp only [List.mem_cons, List.not_mem_nil, or_false] at mem
        rcases mem with rfl | rfl
        · exact below (Nat.le_add_right _ _)
        · exact below (Nat.le_refl _)
      · rw [way_double row_lt second_lt slot_lt]
        intro place mem
        simp only [List.mem_cons, List.not_mem_nil, or_false] at mem
        rcases mem with rfl | rfl | rfl
        · exact below (Nat.le_trans (Nat.le_add_right _ _) (Nat.le_add_right _ _))
        · exact below (Nat.le_add_right _ _)
        · exact below (Nat.le_refl _)
  rw [FileTree.freeStart]
  cases found : (tree.way cut).find? fun place => !tree.has place with
  | none => exact Nat.le_refl _
  | some place => exact start_le place (List.mem_of_find?_eq_some found)

theorem missing_direct {which : Nat} (which_lt : which < 2) (slot_lt : slot < addrsPerBlock)
    (missing : tree.dnode which = none) :
    MissingAt tree which slot (if slot = 0 then which else which + 1) which := by
  rw [FileTree.dnode_direct which_lt] at missing
  have absent : tree.has (.direct which) = false := by
    rw [FileTree.has, missing]
    rfl
  refine ⟨truncateInodeBlocks_direct which_lt slot_lt (.inr missing), ?_, ?_, ?_, ?_⟩
  · apply @freeStart_of_find tree _ (.direct which)
    rw [way_direct which_lt slot_lt]
    simp [absent]
  · split
    · exact Nat.le_succ _
    · exact Nat.le_refl _
  · intro other start_le other_le
    have same : other = which := by
      split at start_le <;> omega
    rw [same, FileTree.dnode_direct which_lt, missing]
  · intro place inTree held
    split
    · rfl
    next inside =>
      have ne : place.number ≠ which := by
        intro same
        cases place with
        | direct other =>
          have same : other = which := same
          rw [same, absent] at held
          cases held
        | indirect other =>
          simp only [Place.number, indirectBase] at same
          omega
        | child other slot =>
          simp only [Place.number, indirectBase] at same
          omega
        | double =>
          simp only [Place.number, doubleBase] at same
          omega
        | first other =>
          simp only [Place.number, doubleBase] at same
          omega
        | second other slot =>
          simp only [Place.number, doubleBase] at same
          omega
      omega

theorem missing_indirect {which child : Nat} (which_lt : which < 2)
    (child_lt : child < nidsPerBlock)
    (slot_lt : slot < addrsPerBlock) (missing : tree.dnode (indirectBase which + child) = none) :
    ∃ row, MissingAt tree (indirectBase which + child) slot (indirectBase which + child) row := by
  have cuts := @truncateInodeBlocks_indirect tree slot which child which_lt child_lt slot_lt
  have gone : ∀ other, indirectBase which + child ≤ other → other ≤ indirectBase which + child →
      tree.dnode other = none := by
    intro other start_le other_le
    rw [show other = indirectBase which + child by omega, missing]
  rw [FileTree.dnode_child which_lt child_lt] at missing
  cases found : (tree.indirect which).page with
  | none =>
    refine ⟨indirectBase which, cuts, ?_, Nat.le_succ _, gone, ?_⟩
    · apply @freeStart_of_find tree _ (.indirect which)
      rw [way_indirect which_lt child_lt slot_lt]
      simp [FileTree.has, found]
    · intro place inTree held
      constructor
      · intro base_le
        by_contra below
        exact page_of_single inTree held which_lt base_le (by omega) found
      · intro start_le
        omega
  | some page =>
    rw [found, Option.bind_some] at missing
    refine ⟨indirectBase which + child, cuts, ?_, Nat.le_succ _, gone, fun _ _ _ => Iff.rfl⟩
    apply @freeStart_of_find tree _ (.child which child)
    rw [way_indirect which_lt child_lt slot_lt]
    simp [FileTree.has, found, missing]

theorem missing_double {row second : Nat} (row_lt : row < nidsPerBlock)
    (second_lt : second < nidsPerBlock) (slot_lt : slot < addrsPerBlock)
    (missing : tree.dnode (doubleBase + row * nidsPerBlock + second) = none) :
    ∃ start above, MissingAt tree (doubleBase + row * nidsPerBlock + second) slot start above := by
  have cuts := @truncateInodeBlocks_double tree row second slot row_lt second_lt slot_lt
  rw [← double_number] at cuts
  have way := @way_double tree slot row second row_lt second_lt slot_lt
  have gone (empty : ∀ slot < nidsPerBlock,
        tree.dnode (doubleBase + row * nidsPerBlock + slot) = none) (other : Nat)
      (start_le : doubleBase + row * nidsPerBlock ≤ other)
      (other_le : other ≤ doubleBase + row * nidsPerBlock + second) : tree.dnode other = none := by
    obtain ⟨slot, rfl⟩ := Nat.exists_eq_add_of_le start_le
    exact empty slot (by omega)
  rw [FileTree.dnode_second second_lt] at missing
  cases found : tree.double.page with
  | none =>
    rw [doubleStart, found] at cuts
    refine ⟨doubleBase + row * nidsPerBlock, doubleBase, cuts, ?_, by omega, gone ?_, ?_⟩
    · apply @freeStart_of_find tree _ .double
      rw [way]
      simp [FileTree.has, found]
    · intro slot slot_lt
      rw [FileTree.dnode_second slot_lt, found, Option.bind_none]
    · intro place inTree held
      constructor
      · intro base_le
        exact absurd found (page_of_double inTree held base_le)
      · intro start_le
        omega
  | some outer =>
    rw [found, Option.bind_some] at missing
    cases inner : (outer row).page with
    | none =>
      rw [doubleStart, found, Option.bind_some, inner] at cuts
      refine ⟨doubleBase + row * nidsPerBlock, doubleBase + row * nidsPerBlock, cuts, ?_, by omega,
        gone ?_, fun _ _ _ => Iff.rfl⟩
      · apply @freeStart_of_find tree _ (.first row)
        rw [way]
        simp [FileTree.has, found, inner]
      · intro slot slot_lt
        rw [FileTree.dnode_second slot_lt, found, Option.bind_some, inner, Option.bind_none]
    | some page =>
      rw [inner, Option.bind_some] at missing
      simp only [doubleStart, found, Option.bind_some, inner, Option.isSome_some, if_true] at cuts
      refine ⟨_, _, cuts, ?_, Nat.le_succ _, ?_, fun _ _ _ => Iff.rfl⟩
      · apply @freeStart_of_find tree _ (.second row second)
        rw [way]
        simp [FileTree.has, found, inner, missing]
      · intro other start_le other_le
        rw [show other = doubleBase + row * nidsPerBlock + second by omega,
          FileTree.dnode_second second_lt, found, Option.bind_some, inner, Option.bind_some, missing]

theorem missing_number (number_lt : number < dnodeTotal) (slot_lt : slot < addrsPerBlock)
    (missing : tree.dnode number = none) : ∃ start row, MissingAt tree number slot start row := by
  rcases number_cases number_lt with which_lt | ⟨which, which_lt, child, child_lt, rfl⟩ |
    ⟨row, row_lt, second, second_lt, rfl⟩
  · exact ⟨_, _, missing_direct which_lt slot_lt missing⟩
  · exact ⟨_, missing_indirect which_lt child_lt slot_lt missing⟩
  · exact missing_double row_lt second_lt slot_lt missing

/-- When the direct node is there, the nodes are freed from the cut on. -/
theorem freeStart_present {node : Dnode} (number_lt : number < dnodeTotal)
    (slot_lt : slot < addrsPerBlock) (present : tree.dnode number = some node) :
    tree.freeStart (blockOf tree.inlineXattr number slot) =
      blockOf tree.inlineXattr number slot := by
  apply freeStart_of_way
  rcases number_cases number_lt with which_lt | ⟨which, which_lt, child, child_lt, rfl⟩ |
    ⟨row, row_lt, second, second_lt, rfl⟩
  · rw [FileTree.dnode_direct which_lt] at present
    rw [way_direct which_lt slot_lt]
    simp [FileTree.has, present]
  · rw [FileTree.dnode_child which_lt child_lt] at present
    obtain ⟨page, found, present⟩ := Option.bind_eq_some_iff.1 present
    rw [way_indirect which_lt child_lt slot_lt]
    simp [FileTree.has, found, present]
  · rw [FileTree.dnode_second second_lt] at present
    obtain ⟨outer, found, present⟩ := Option.bind_eq_some_iff.1 present
    obtain ⟨page, inner, present⟩ := Option.bind_eq_some_iff.1 present
    rw [way_double row_lt second_lt slot_lt]
    simp [FileTree.has, found, inner, present]

/-- `truncate_inode_blocks` at the first block of a direct node that is there, or behind one. -/
theorem truncateInodeBlocks_number (number_lt : number < dnodeTotal)
    (present : tree.dnode number ≠ none ∨
      ∃ before, number = before + 1 ∧ tree.dnode before ≠ none) :
    Cuts tree number (truncateInodeBlocks tree (blockOf tree.inlineXattr number 0)) := by
  rcases number_cases number_lt with which_lt | ⟨which, which_lt, child, child_lt, rfl⟩ |
    ⟨row, row_lt, second, second_lt, rfl⟩
  · exact truncateInodeBlocks_direct which_lt (by decide) (.inl rfl)
  · exact truncateInodeBlocks_indirect which_lt child_lt (by decide)
  · have cuts := @truncateInodeBlocks_double tree row second 0 row_lt second_lt (by decide)
    rw [← double_number] at cuts
    have start : doubleStart tree row second = doubleBase + row * nidsPerBlock + second := by
      rw [doubleStart]
      split
      · rfl
      next inner =>
        -- the node is the first one of its row
        rcases Nat.eq_zero_or_pos second with rfl | pos
        · rfl
        exfalso
        have empty (slot : Nat) (slot_lt : slot < nidsPerBlock) :
            tree.dnode (doubleBase + row * nidsPerBlock + slot) = none := by
          rw [FileTree.dnode_second slot_lt]
          cases found : tree.double.page with
          | none => rfl
          | some outer =>
            rw [found, Option.bind_some, Option.not_isSome_iff_eq_none] at inner
            rw [Option.bind_some, inner, Option.bind_none]
        rcases present with here | ⟨before, number_eq, here⟩
        · exact here (empty second second_lt)
        · apply here
          rw [show before = doubleBase + row * nidsPerBlock + (second - 1) by omega]
          exact empty _ (by omega)
    rwa [start] at cuts

end Cut

/-! ## The tail -/

theorem blockOf_le_iff {inlineXattr : Bool} {number slot other : Nat}
    (slot_lt : slot < addrsPerBlock) :
    blockOf inlineXattr number slot ≤ blockOf inlineXattr other 0 ↔
      (if slot = 0 then number else number + 1) ≤ other := by
  have addrs : addrsPerBlock = 1018 := rfl
  rw [addrs] at slot_lt
  rw [blockOf, blockOf, addrs]
  split <;> omega

theorem blockOf_lt_iff {inlineXattr : Bool} {number slot other slot' : Nat}
    (slot_lt : slot < addrsPerBlock) (slot_lt' : slot' < addrsPerBlock) :
    blockOf inlineXattr other slot' < blockOf inlineXattr number slot ↔
      other < number ∨ other = number ∧ slot' < slot := by
  have addrs : addrsPerBlock = 1018 := rfl
  rw [addrs] at slot_lt slot_lt'
  rw [blockOf, blockOf, addrs]
  omega

/-- A tree like the one before, cut at a number. -/
theorem removesTail_of {tree near : FileTree} {cut start freeStart : Nat} {invalidated : List Nat}
    (inlineXattr : near.inlineXattr = tree.inlineXattr)
    (has : ∀ place, near.has place = tree.has place)
    (freed : ∀ place, near.freed place = tree.freed place)
    (addr : ∀ slot < addrsPerInode tree.inlineXattr,
      nonNull (near.addr slot) = if slot < cut then nonNull (tree.addr slot) else none)
    (dnode : ∀ number < dnodeTotal, ∀ slot < addrsPerBlock,
      (if number < start then near.dnode number else none).bind (fun node => nonNull (node slot)) =
        if blockOf tree.inlineXattr number slot < cut then
          (tree.dnode number).bind fun node => nonNull (node slot)
        else none)
    (data : invalidated = tree.tail cut)
    (places : ∀ place : Place, place.InTree → tree.has place = true →
      (freeStart ≤ place.start tree.inlineXattr ↔ start ≤ place.number)) :
    RemovesTail tree (near.cutAt start) cut freeStart invalidated where
  mapped := by
    intro index
    have inode : addrsPerInode near.inlineXattr = addrsPerInode tree.inlineXattr := by
      rw [inlineXattr]
    rcases Nat.lt_or_ge index (maxFileBlocks tree.inlineXattr) with index_lt | outside
    · rcases block_cases index_lt with slot_lt | ⟨number, number_lt, slot, slot_lt, rfl⟩
      · have after := @FileTree.mapped_inode (near.cutAt start) index
          (Nat.lt_of_lt_of_eq slot_lt inode.symm)
        rw [after, FileTree.mapped_inode slot_lt]
        exact addr index slot_lt
      · have after := @FileTree.mapped_number (near.cutAt start) number slot number_lt slot_lt
        rw [FileTree.dnode_cutAt number_lt, dnode number number_lt slot slot_lt] at after
        rw [FileTree.mapped_number number_lt slot_lt, ← after, ← inlineXattr]
        rfl
    · have after := @FileTree.mapped_outside (near.cutAt start) index (by
        show maxFileBlocks near.inlineXattr ≤ index
        rw [inlineXattr]
        exact outside)
      rw [after, FileTree.mapped_outside outside, ite_self]
  invalidated := data
  freed := by
    intro place inTree
    rw [FileTree.freed_cutAt inTree, freed, has]
    by_cases held : tree.has place = true
    · rw [places place inTree held]
      simp [held]
    · simp [held]
  unreferenced := by
    intro place inTree held behind
    exact FileTree.pointer_cutAt inTree (by rw [has]; exact held)
      ((places place inTree held).1 behind)
  kept := by
    intro place inTree held before
    apply FileTree.has_cutAt inTree (by rw [has]; exact held)
    by_contra behind
    have := (places place inTree held).2 (by omega)
    omega

section Blocks

variable {tree : FileTree} {number slot : Nat}

/-- The tree is cut at a number, and nothing lies between it and the cut. -/
theorem removesTail_same {start freeStart : Nat} {invalidated : List Nat}
    (number_lt : number < dnodeTotal) (slot_lt : slot < addrsPerBlock)
    (before : ∀ other < start, other < number ∨ tree.dnode other = none)
    (behind : ∀ other, start ≤ other → number < other ∨ other = number ∧ slot = 0 ∨
      tree.dnode other = none)
    (data : invalidated = tree.tail (blockOf tree.inlineXattr number slot))
    (places : ∀ place : Place, place.InTree → tree.has place = true →
      (freeStart ≤ place.start tree.inlineXattr ↔ start ≤ place.number)) :
    RemovesTail tree (tree.cutAt start) (blockOf tree.inlineXattr number slot) freeStart
      invalidated := by
  apply removesTail_of rfl (fun _ => rfl) (fun _ => rfl) _ _ data places
  · intro block block_lt
    rw [if_pos]
    rw [blockOf]
    omega
  · intro other other_lt slot' slot_lt'
    have lt_iff := @blockOf_lt_iff tree.inlineXattr number slot other slot' slot_lt slot_lt'
    rcases Nat.lt_or_ge other start with below | above
    · rw [if_pos below]
      rcases before other below with lt | missing
      · rw [if_pos (lt_iff.2 (.inl lt))]
      · rw [missing, Option.bind_none, ite_self]
    · rw [if_neg (by omega), Option.bind_none]
      rcases behind other above with lt | ⟨rfl, zero⟩ | missing
      · rw [if_neg (mt lt_iff.1 (by omega))]
      · rw [if_neg (mt lt_iff.1 (by omega))]
      · rw [missing, Option.bind_none, ite_self]

/-- The cut lies in a missing node. -/
theorem removesTail_missing {start row : Nat} (number_lt : number < dnodeTotal)
    (slot_lt : slot < addrsPerBlock) (at_ : MissingAt tree number slot start row)
    (missing : tree.dnode number = none) :
    RemovesTail tree (tree.cutAt start) (blockOf tree.inlineXattr number slot)
      (tree.freeStart (blockOf tree.inlineXattr number slot)) (tree.dataFrom start) := by
  apply removesTail_same number_lt slot_lt
  · intro other below
    rcases Nat.lt_or_ge other number with lt | ge
    · exact .inl lt
    · have start_le := at_.start_le
      rw [show other = number by omega]
      exact .inr missing
  · intro other above
    rcases Nat.lt_or_ge number other with lt | ge
    · exact .inl lt
    · exact .inr (.inr (at_.missing other above ge))
  · have start_le := at_.start_le
    have empty : (List.range' start (number + 1 - start)).flatMap tree.numberData = [] := by
      apply FileTree.missing_data
      intro other above below
      exact at_.missing other above (by omega)
    rw [FileTree.tail_slot number_lt slot_lt, missing, Option.elim_none, List.nil_append,
      FileTree.dataFrom_split start_le (Nat.succ_le_of_lt number_lt), empty, List.nil_append]
  · intro place inTree held
    rw [at_.freeStart]
    have le_iff := @blockOf_le_iff tree.inlineXattr row 0 place.number (by decide)
    exact le_iff.trans (at_.places place inTree held)

/-- The cut lies at the first block of a direct node. -/
theorem removesTail_first {node : Dnode} (number_lt : number < dnodeTotal)
    (present : tree.dnode number = some node) :
    RemovesTail tree (tree.cutAt number) (blockOf tree.inlineXattr number 0)
      (tree.freeStart (blockOf tree.inlineXattr number 0)) (tree.dataFrom number) := by
  apply removesTail_same number_lt (by decide) (fun other below => .inl below)
  · intro other above
    omega
  · exact (FileTree.tail_number (Nat.le_of_lt number_lt)).symm
  · intro place inTree held
    rw [freeStart_present number_lt (by decide) present]
    exact @blockOf_le_iff tree.inlineXattr number 0 place.number (by decide)

/-- The cut lies inside of a direct node. -/
theorem removesTail_inside {near : FileTree} {node : Dnode} (number_lt : number < dnodeTotal)
    (slot_lt : slot < addrsPerBlock) (slot_ne : slot ≠ 0) (present : tree.dnode number = some node)
    (near_eq : Replaces tree near number (zeroed node slot (addrsPerBlock - slot))) :
    RemovesTail tree (near.cutAt (number + 1)) (blockOf tree.inlineXattr number slot)
      (tree.freeStart (blockOf tree.inlineXattr number slot))
      (addresses node slot (addrsPerBlock - slot) ++ near.dataFrom (number + 1)) := by
  apply removesTail_of near_eq.inlineXattr near_eq.has near_eq.freed
  · intro block block_lt
    rw [near_eq.addr, if_pos]
    rw [blockOf]
    omega
  · intro other other_lt slot' slot_lt'
    have lt_iff := @blockOf_lt_iff tree.inlineXattr number slot other slot' slot_lt slot_lt'
    rw [near_eq.dnode]
    rcases Nat.lt_trichotomy other number with below | rfl | above
    · rw [if_pos (by omega), if_neg (by omega), if_pos (lt_iff.2 (.inl below))]
    · rw [if_pos (by omega), if_pos rfl, present, Option.bind_some, Option.bind_some, zeroed]
      by_cases kept : slot' < slot
      · rw [if_neg (by omega), if_pos (lt_iff.2 (.inr ⟨rfl, kept⟩))]
      · rw [if_pos (by omega), if_neg (mt lt_iff.1 (by omega))]
        rfl
    · rw [if_neg (by omega), if_neg (mt lt_iff.1 (by omega)), Option.bind_none]
  · rw [FileTree.tail_slot number_lt slot_lt, present, Option.elim_some]
    congr 1
    apply FileTree.dataFrom_congr
    intro other above
    rw [near_eq.dnode, if_neg (by omega)]
  · intro place inTree held
    rw [freeStart_present number_lt slot_lt present]
    have le_iff := @blockOf_le_iff tree.inlineXattr number slot place.number slot_lt
    rwa [if_neg slot_ne] at le_iff

/-- The cut lies in the inode. -/
theorem removesTail_inode (slot_lt : slot < addrsPerInode tree.inlineXattr) (near : FileTree)
    (near_eq : near = { tree with
      addr := zeroed tree.addr slot (addrsPerInode tree.inlineXattr - slot) }) :
    RemovesTail tree (near.cutAt 0) slot (tree.freeStart slot)
      (addresses tree.addr slot (addrsPerInode tree.inlineXattr - slot) ++ near.dataFrom 0) := by
  have way : tree.way slot = [] := by
    rw [FileTree.way, (PathShape.inode slot_lt).getNodePath]
    rfl
  have freeStart : tree.freeStart slot = slot := freeStart_of_way (by simp [way])
  have dnode : near.dnode = tree.dnode := by
    rw [near_eq]
    rfl
  apply removesTail_of (by rw [near_eq] : near.inlineXattr = tree.inlineXattr)
  · intro place
    rw [near_eq]
    cases place <;> rfl
  · intro place
    rw [near_eq]
    cases place <;> rfl
  · intro block block_lt
    rw [near_eq]
    simp only [zeroed]
    by_cases kept : block < slot
    · rw [if_neg (by omega), if_pos kept]
    · rw [if_pos (by omega), if_neg kept]
      rfl
  · intro other other_lt slot' slot_lt'
    rw [if_neg (by omega), if_neg, Option.bind_none]
    rw [blockOf]
    omega
  · have first : blockOf tree.inlineXattr 0 0 = addrsPerInode tree.inlineXattr := by
      rw [blockOf, Nat.zero_mul]
      rfl
    rw [@FileTree.tail_split tree slot (addrsPerInode tree.inlineXattr) (by omega)
      (by rw [maxFileBlocks_eq]; omega), FileTree.filterMap_inode (by omega), ← first,
      FileTree.tail_number (Nat.zero_le _), first]
    congr 1
    exact FileTree.dataFrom_congr fun other _ => by rw [dnode]
  · intro place inTree held
    rw [freeStart, Place.start]
    omega

end Blocks

/-- Behind the last block of a direct node there is the first one of the next, or the end of the
file. -/
theorem truncateInodeBlocks_behind {tree near : FileTree} {number slot : Nat} {node : Dnode}
    (slot_lt : slot < addrsPerBlock) (near_eq : Replaces tree near number node)
    {rest : Outcome FileTree}
    (run : truncateInodeBlocks near
      (blockOf tree.inlineXattr number slot + (addrsPerBlock - slot)) = some rest) :
    rest.state = near.cutAt (number + 1) ∧ rest.invalidated = near.dataFrom (number + 1) := by
  have next : blockOf tree.inlineXattr number slot + (addrsPerBlock - slot) =
      blockOf near.inlineXattr (number + 1) 0 := by
    have here : blockOf tree.inlineXattr number slot = blockOf tree.inlineXattr number 0 + slot :=
      rfl
    rw [near_eq.inlineXattr, FileTree.blockOf_succ, here]
    omega
  rw [next] at run
  rcases Nat.lt_or_ge (number + 1) dnodeTotal with inside | outside
  · have present : near.dnode number ≠ none := by
      rw [near_eq.dnode, if_pos rfl]
      exact Option.some_ne_none _
    obtain ⟨rest', run', state, data⟩ :=
      truncateInodeBlocks_number inside (.inr ⟨number, rfl, present⟩)
    rw [run] at run'
    cases run'
    exact ⟨state, data⟩
  · exfalso
    have missing : getNodePath near.inlineXattr (blockOf near.inlineXattr (number + 1) 0) = none := by
      rw [← Option.not_isSome_iff_eq_none, getNodePath_isSome_iff, maxFileBlocks_eq, blockOf]
      have rows := Nat.mul_le_mul_right addrsPerBlock outside
      omega
    rw [truncateInodeBlocks, missing] at run
    cases run

/-- A truncation that does not run into a `BUG()` removes the blocks of the file from the cut on, and
frees the nodes from `freeStart` on, which is the cut or lies before it. -/
theorem truncateBlocks_removesTail {tree : FileTree} {fromByte : Nat} {out : Outcome FileTree}
    (run : truncateBlocks tree fromByte = some out) :
    tree.freeStart ((fromByte + pageCacheSize - 1) / pageCacheSize) ≤
        (fromByte + pageCacheSize - 1) / pageCacheSize ∧
      RemovesTail tree out.state ((fromByte + pageCacheSize - 1) / pageCacheSize)
        (tree.freeStart ((fromByte + pageCacheSize - 1) / pageCacheSize)) out.invalidated := by
  rw [truncateBlocks] at run
  simp only at run
  generalize (fromByte + pageCacheSize - 1) / pageCacheSize = cut at run ⊢
  obtain ⟨path, found, run⟩ := Option.bind_eq_some_iff.1 run
  have cut_lt : cut < maxFileBlocks tree.inlineXattr := by
    rw [← getNodePath_isSome_iff, found]
    rfl
  refine ⟨freeStart_le tree cut_lt, ?_⟩
  rcases block_cases cut_lt with slot_lt | ⟨number, number_lt, slot, slot_lt, rfl⟩
  · -- the inode is cut, and all direct nodes go
    rw [(PathShape.inode slot_lt).getNodePath] at found
    cases found
    have dnode : tree.dnodeOfData ⟨0, [cut], [0]⟩ = some (tree.addr, cut) := rfl
    rw [dnode] at run
    simp only [or_true, if_true, truncateDataBlocksRange_state,
      truncateDataBlocksRange_invalidated] at run
    obtain ⟨rest, run', rfl⟩ := Option.map_eq_some_iff.1 run
    rw [Nat.add_sub_cancel' (Nat.le_of_lt slot_lt)] at run'
    have start : addrsPerInode tree.inlineXattr = blockOf tree.inlineXattr 0 0 := by
      rw [blockOf, Nat.zero_mul]
      rfl
    rw [start] at run'
    obtain ⟨rest', run'', state, data⟩ := @truncateInodeBlocks_direct
      { tree with addr := zeroed tree.addr cut (addrsPerInode tree.inlineXattr - cut) } 0 0
      (by decide) (by decide) (.inl rfl)
    have same : rest = rest' := by
      apply Option.some.inj
      rw [← run'', ← run', start]
      rfl
    rw [same]
    simp only [state, data]
    exact removesTail_inode slot_lt _ rfl
  · obtain ⟨path', way⟩ := numberPath_exists tree.inlineXattr slot number_lt
    rw [way.getNodePath slot_lt] at found
    cases found
    rw [way.dnodeOfData] at run
    cases present : tree.dnode number with
    | none =>
      rw [present] at run
      obtain ⟨start, row, at_⟩ := missing_number number_lt slot_lt present
      obtain ⟨rest, run', state, data⟩ := at_.cuts
      have same := run.symm.trans run'
      cases same
      rw [state, data]
      exact removesTail_missing number_lt slot_lt at_ present
    | some node =>
      rw [present] at run
      simp only [Option.map_some, if_neg way.level] at run
      split at run
      next inside =>
        have slot_ne : slot ≠ 0 := inside.resolve_right way.level
        obtain ⟨rest, run', rfl⟩ := Option.map_eq_some_iff.1 run
        rw [truncateDataBlocksRange_state] at run'
        have near_eq := way.replaces present (zeroed node slot (addrsPerBlock - slot))
        obtain ⟨state, data⟩ := truncateInodeBlocks_behind slot_lt near_eq run'
        simp only [state, data, truncateDataBlocksRange_invalidated]
        exact removesTail_inside number_lt slot_lt slot_ne present near_eq
      next first =>
        rw [not_or, not_not] at first
        obtain ⟨rfl, -⟩ := first
        obtain ⟨rest, run', state, data⟩ :=
          truncateInodeBlocks_number number_lt (.inl (by rw [present]; exact Option.some_ne_none _))
        have same := run.symm.trans run'
        cases same
        rw [state, data]
        exact removesTail_first number_lt present

/-- A file with an indirect node that points to nothing. -/
def hollowTree : FileTree where
  inlineXattr := false
  addr := fun slot => if slot < 3 then 1000 + slot else 0
  direct := fun _ => ⟨0, .absent⟩
  indirect := fun which => if which = 0 then ⟨7, .live fun _ => ⟨0, .absent⟩⟩ else ⟨0, .absent⟩
  double := ⟨0, .absent⟩

theorem truncateBlocks_removesTail_hollow :
    ∃ out, truncateBlocks hollowTree 4097 = some out ∧ out.ret = 0 ∧ hollowTree.freeStart 2 ≤ 2 ∧
      RemovesTail hollowTree out.state 2 (hollowTree.freeStart 2) out.invalidated := by
  have evaluated : (truncateBlocks hollowTree 4097).map Outcome.ret = some 0 := by
    decide +kernel
  obtain ⟨out, run, ret⟩ := Option.map_eq_some_iff.1 evaluated
  exact ⟨out, run, ret, truncateBlocks_removesTail run⟩

/-- A cut in the first, missing direct node of an indirect node frees this one, whose range begins
below the cut. -/
theorem truncateBlocks_frees_below :
    ¬ ∀ (tree : FileTree) (fromByte : Nat) (out : Outcome FileTree),
      truncateBlocks tree fromByte = some out → out.ret = 0 →
        RemovesTail tree out.state ((fromByte + pageCacheSize - 1) / pageCacheSize)
          ((fromByte + pageCacheSize - 1) / pageCacheSize) out.invalidated := by
  intro claimed
  have evaluated : (truncateBlocks hollowTree 12124160).map
      (fun out => (out.ret, out.state.freed (.indirect 0))) = some (0, true) := by
    decide +kernel
  obtain ⟨out, run, result⟩ := Option.map_eq_some_iff.1 evaluated
  obtain ⟨ret, freed⟩ := Prod.mk.inj result
  have removes := claimed hollowTree 12124160 out run ret
  rcases (removes.freed (.indirect 0) (show 0 < 2 by decide)).1 freed with before | ⟨-, behind⟩
  · cases before
  · exact absurd behind (by decide)

end Truncation
end F2fs
end StorageStack
