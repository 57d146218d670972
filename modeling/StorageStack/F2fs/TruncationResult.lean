import StorageStack.F2fs.TruncationCut

/-!
# The result of a truncation

What a cut leaves is read off at the places of the nodes: which of them have been freed, which are
still there, and what the pointers to them say.  The blocks of the file below the cut stay where they
are.
-/

namespace StorageStack
namespace F2fs
namespace Truncation

/-! ## Places -/

/-- The places of the nodes below an inode. -/
inductive Place where
  | direct (which : Nat)
  | indirect (which : Nat)
  | child (which slot : Nat)
  | double
  | first (slot : Nat)
  | second (row slot : Nat)

namespace Place

def InTree : Place → Prop
  | direct which => which < 2
  | indirect which => which < 2
  | child which slot => which < 2 ∧ slot < nidsPerBlock
  | double => True
  | first slot => slot < nidsPerBlock
  | second row slot => row < nidsPerBlock ∧ slot < nidsPerBlock

/-- The number of the first direct node at or below a place. -/
def number : Place → Nat
  | direct which => which
  | indirect which => indirectBase which
  | child which slot => indirectBase which + slot
  | double => doubleBase
  | first slot => doubleBase + slot * nidsPerBlock
  | second row slot => doubleBase + row * nidsPerBlock + slot

/-- The first block of the file in the range of a place. -/
def start (place : Place) (inlineXattr : Bool) : Nat :=
  addrsPerInode inlineXattr + place.number * addrsPerBlock

end Place

def NodeBlock.contents {α : Type} : NodeBlock α → Option α
  | absent => none
  | live node => some node
  | freed node => some node

def NodeBlock.isFreed {α : Type} : NodeBlock α → Bool
  | absent => false
  | live _ => false
  | freed _ => true

namespace FileTree

variable (tree : FileTree)

/-- The node of a place can be read, and those on the way to it. -/
def has : Place → Bool
  | .direct which => (tree.direct which).page.isSome
  | .indirect which => (tree.indirect which).page.isSome
  | .child which slot => (tree.indirect which).page.any fun page => (page slot).page.isSome
  | .double => tree.double.page.isSome
  | .first slot => tree.double.page.any fun outer => (outer slot).page.isSome
  | .second row slot =>
      tree.double.page.any fun outer => (outer row).page.any fun page =>
        (page slot).page.isSome

/-- The node of a place has been freed.  The page of a freed parent is looked at as well. -/
def freed : Place → Bool
  | .direct which => (tree.direct which).block.isFreed
  | .indirect which => (tree.indirect which).block.isFreed
  | .child which slot =>
      (tree.indirect which).block.contents.any fun page => (page slot).block.isFreed
  | .double => tree.double.block.isFreed
  | .first slot => tree.double.block.contents.any fun outer => (outer slot).block.isFreed
  | .second row slot =>
      tree.double.block.contents.any fun outer => (outer row).block.contents.any fun page =>
        (page slot).block.isFreed

/-- The pointer to a place, in the page of its parent. -/
def pointer : Place → Option Nat
  | .direct which => some (tree.direct which).nid
  | .indirect which => some (tree.indirect which).nid
  | .child which slot => (tree.indirect which).block.contents.map fun page => (page slot).nid
  | .double => some tree.double.nid
  | .first slot => tree.double.block.contents.map fun outer => (outer slot).nid
  | .second row slot =>
      tree.double.block.contents.bind fun outer => (outer row).block.contents.map fun page =>
        (page slot).nid

/-- The places on the way to a block of the file. -/
def way (block : Nat) : List Place :=
  match getNodePath tree.inlineXattr block with
  | none => []
  | some path =>
      match path.level, path.offset with
      | 1, [top, _] => [.direct (top - nodeDir1Block)]
      | 2, [top, slot, _] =>
          [.indirect (top - nodeInd1Block), .child (top - nodeInd1Block) slot]
      | 3, [_, first, second, _] => [.double, .first first, .second first second]
      | _, _ => []

/-- Where the freed nodes begin: at the cut, or at the range of the missing node the cut lies in. -/
def freeStart (cut : Nat) : Nat :=
  match (tree.way cut).find? fun place => !tree.has place with
  | none => cut
  | some place => place.start tree.inlineXattr

end FileTree

/-- A truncation at a block of the file, with the nodes freed from another block on. -/
structure RemovesTail (tree after : FileTree) (cut freeStart : Nat) (invalidated : List Nat) :
    Prop where
  /-- The blocks below the cut stay where they are, the others go. -/
  mapped : ∀ index, after.mapped index = if index < cut then tree.mapped index else none
  /-- The data that goes is invalidated once, in the order of the file. -/
  invalidated : invalidated =
    (List.range' cut (maxFileBlocks tree.inlineXattr - cut)).filterMap tree.mapped
  /-- The nodes whose range begins at `freeStart` or above are freed, and no others. -/
  freed : ∀ place : Place, place.InTree →
    (after.freed place = true ↔ tree.freed place = true ∨
      tree.has place = true ∧ freeStart ≤ place.start tree.inlineXattr)
  /-- No parent points to a node that is freed. -/
  unreferenced : ∀ place : Place, place.InTree → tree.has place = true →
    freeStart ≤ place.start tree.inlineXattr → after.pointer place = some 0
  /-- The other nodes are still there. -/
  kept : ∀ place : Place, place.InTree → tree.has place = true →
    place.start tree.inlineXattr < freeStart → after.has place = true

/-- A number belongs to a direct node of the inode, of an indirect node or of the double indirect
node. -/
theorem number_cases {number : Nat} (number_lt : number < dnodeTotal) :
    number < 2 ∨
      (∃ which < 2, ∃ slot < nidsPerBlock, number = indirectBase which + slot) ∨
      ∃ row < nidsPerBlock, ∃ slot < nidsPerBlock,
        number = doubleBase + row * nidsPerBlock + slot := by
  have nids : nidsPerBlock = 1018 := rfl
  simp only [dnodeTotal, doubleBase, indirectBase, nids] at *
  rcases Nat.lt_or_ge number 2 with direct | above
  · exact .inl direct
  rcases Nat.lt_or_ge number (2 + 2 * 1018) with single | double
  · exact .inr (.inl ⟨(number - 2) / 1018, by omega, (number - 2) % 1018, by omega, by omega⟩)
  · exact .inr (.inr ⟨(number - (2 + 2 * 1018)) / 1018, by omega,
      (number - (2 + 2 * 1018)) % 1018, by omega, by omega⟩)

/-! ## The places of a cut tree -/

section Cleared

variable {child : Child Dnode}

theorem page_cleared (child : Child Dnode) : (cleared child).page = none := if_pos rfl

theorem isFreed_cleared (child : Child Dnode) :
    (cleared child).block.isFreed = (child.block.isFreed || child.page.isSome) := by
  rw [cleared, Child.dropped]
  cases found : child.page with
  | none => simp
  | some node => simp [NodeBlock.isFreed]

theorem isFreed_of_page {α : Type} {child : Child α} {node : α} (found : child.page = some node) :
    child.block.isFreed = false := by
  rw [child.block_of_page found]
  rfl

theorem contents_of_page {α : Type} {child : Child α} {node : α} (found : child.page = some node) :
    child.block.contents = some node := by
  rw [child.block_of_page found]
  rfl

end Cleared

section Inner

variable {start base : Nat} {child : Child Indirect}

theorem isFreed_cutInner :
    (cutInner start base child).block.isFreed =
      (child.block.isFreed || child.page.isSome && decide (start ≤ base)) := by
  cases found : child.page with
  | none => simp [cutInner_none found]
  | some page =>
    rw [isFreed_of_page found]
    by_cases start_le : start ≤ base
    · simp [cutInner_freed found start_le, start_le, NodeBlock.isFreed]
    · simp [cutInner_live found (Nat.lt_of_not_le start_le), start_le, NodeBlock.isFreed]

theorem contents_cutInner {page : Indirect} (found : child.page = some page) :
    (cutInner start base child).block.contents = some (cutPage start base page) := by
  by_cases start_le : start ≤ base
  · rw [cutInner_freed found start_le]
    rfl
  · rw [cutInner_live found (Nat.lt_of_not_le start_le)]
    rfl

/-- A cut node can be read as long as it is not freed. -/
theorem page_cutInner :
    (cutInner start base child).page =
      if start ≤ base then none else child.page.map (cutPage start base) := by
  cases found : child.page with
  | none => rw [cutInner_none found, found, Option.map_none, ite_self]
  | some page =>
    split
    next start_le => rw [cutInner_freed found start_le, Child.page, if_pos rfl]
    next base_lt =>
      rw [cutInner_live found (Nat.lt_of_not_le base_lt), Option.map_some]
      exact if_neg (Child.nid_ne_zero_of_page found)

theorem page_cutTopIndirect :
    (cutTopIndirect start base child).page =
      if start ≤ base then none else child.page.map (cutPage start base) := by
  rw [cutTopIndirect]
  split
  next start_le => exact if_pos rfl
  next base_lt => rw [page_cutInner, if_neg base_lt]

theorem nid_cutInner (found : child.page.isSome = true) (start_le : start ≤ base) :
    (cutInner start base child).nid = 0 := by
  obtain ⟨page, found⟩ := Option.isSome_iff_exists.1 found
  rw [cutInner_freed found start_le]

/-- A direct node in a cut page. -/
theorem cutPage_apply {page : Indirect} {slot : Nat} (slot_lt : slot < nidsPerBlock) :
    cutPage start base page slot =
      if start ≤ base + slot then cleared (page slot) else page slot := by
  rw [cutPage]
  exact if_congr (by simp [slot_lt]) rfl rfl

theorem block_cutTopIndirect :
    (cutTopIndirect start base child).block = (cutInner start base child).block := by
  rw [cutTopIndirect]
  split
  · rfl
  · rfl

end Inner

section Double

variable {start : Nat} {child : Child DoubleIndirect} {outer : DoubleIndirect}

theorem isFreed_cutTopDouble :
    (cutTopDouble start child).block.isFreed =
      (child.block.isFreed || child.page.isSome && decide (start ≤ doubleBase)) := by
  cases found : child.page with
  | none =>
    rw [cutTopDouble_none found]
    split
    · simp
    · simp
  | some outer =>
    rw [isFreed_of_page found]
    by_cases start_le : start ≤ doubleBase
    · simp [cutTopDouble_freed found start_le, start_le, NodeBlock.isFreed]
    · simp [cutTopDouble_live found (Nat.lt_of_not_le start_le), start_le, NodeBlock.isFreed]

theorem contents_cutTopDouble (found : child.page = some outer) :
    (cutTopDouble start child).block.contents = some (cutOuter start outer) := by
  by_cases start_le : start ≤ doubleBase
  · rw [cutTopDouble_freed found start_le]
    rfl
  · rw [cutTopDouble_live found (Nat.lt_of_not_le start_le)]
    rfl

theorem block_cutTopDouble_none (missing : child.page = none) :
    (cutTopDouble start child).block = child.block := by
  rw [cutTopDouble_none missing]
  split
  · rfl
  · rfl

theorem page_cutTopDouble :
    (cutTopDouble start child).page =
      if start ≤ doubleBase then none else child.page.map (cutOuter start) := by
  cases found : child.page with
  | none =>
    rw [cutTopDouble_none found, Option.map_none, ite_self]
    split
    · exact if_pos rfl
    · exact found
  | some outer =>
    split
    next start_le => rw [cutTopDouble_freed found start_le, Child.page, if_pos rfl]
    next base_lt =>
      rw [cutTopDouble_live found (Nat.lt_of_not_le base_lt), Option.map_some]
      exact if_neg (Child.nid_ne_zero_of_page found)

theorem cutOuter_apply {slot : Nat} (slot_lt : slot < nidsPerBlock) :
    cutOuter start outer slot =
      cutInner start (doubleBase + slot * nidsPerBlock) (outer slot) := if_pos slot_lt

end Double

namespace FileTree

variable {tree : FileTree} {start : Nat}

theorem cutAt_direct {which : Nat} (which_lt : which < 2) :
    (tree.cutAt start).direct which =
      if start ≤ which then cleared (tree.direct which) else tree.direct which :=
  if_congr (by simp [which_lt]) rfl rfl

theorem cutAt_indirect {which : Nat} (which_lt : which < 2) :
    (tree.cutAt start).indirect which =
      cutTopIndirect start (indirectBase which) (tree.indirect which) := if_pos which_lt

/-- A cut frees the nodes that are there and begin behind it. -/
theorem freed_cutAt {place : Place} (inTree : place.InTree) :
    (tree.cutAt start).freed place =
      (tree.freed place || tree.has place && decide (start ≤ place.number)) := by
  cases place with
  | direct which =>
    simp only [freed, has, Place.number]
    rw [cutAt_direct inTree]
    by_cases start_le : start ≤ which
    · simp [start_le, isFreed_cleared]
    · simp [start_le]
  | indirect which =>
    simp only [freed, has, Place.number]
    rw [cutAt_indirect inTree, block_cutTopIndirect]
    exact isFreed_cutInner
  | child which slot =>
    simp only [freed, has, Place.number]
    rw [cutAt_indirect inTree.1, block_cutTopIndirect]
    cases found : (tree.indirect which).page with
    | none => simp [cutInner_none found]
    | some page =>
      rw [contents_cutInner found, contents_of_page found]
      simp only [Option.any_some]
      rw [cutPage_apply inTree.2]
      by_cases start_le : start ≤ indirectBase which + slot
      · simp [start_le, isFreed_cleared]
      · simp [start_le]
  | double =>
    simp only [freed, has, Place.number]
    exact isFreed_cutTopDouble
  | first slot =>
    simp only [freed, has, Place.number, cutAt]
    cases found : tree.double.page with
    | none => simp [block_cutTopDouble_none found]
    | some outer =>
      rw [contents_cutTopDouble found, contents_of_page found]
      simp only [Option.any_some]
      rw [cutOuter_apply inTree]
      exact isFreed_cutInner
  | second row slot =>
    simp only [freed, has, Place.number, cutAt]
    cases found : tree.double.page with
    | none => simp [block_cutTopDouble_none found]
    | some outer =>
      rw [contents_cutTopDouble found, contents_of_page found]
      simp only [Option.any_some]
      rw [cutOuter_apply inTree.1]
      cases inner : (outer row).page with
      | none => simp [cutInner_none inner]
      | some page =>
        rw [contents_cutInner inner, contents_of_page inner]
        simp only [Option.any_some]
        rw [cutPage_apply inTree.2]
        by_cases start_le : start ≤ doubleBase + row * nidsPerBlock + slot
        · simp [start_le, isFreed_cleared]
        · simp [start_le]

/-- Its parent does not point to a freed node. -/
theorem pointer_cutAt {place : Place} (inTree : place.InTree) (held : tree.has place = true)
    (start_le : start ≤ place.number) : (tree.cutAt start).pointer place = some 0 := by
  cases place with
  | direct which =>
    have start_le : start ≤ which := start_le
    rw [pointer, cutAt_direct inTree, if_pos start_le]
    rfl
  | indirect which =>
    have start_le : start ≤ indirectBase which := start_le
    rw [pointer, cutAt_indirect inTree, cutTopIndirect, if_pos start_le]
  | child which slot =>
    have start_le : start ≤ indirectBase which + slot := start_le
    rw [has] at held
    cases found : (tree.indirect which).page with
    | none =>
      rw [found] at held
      cases held
    | some page =>
      rw [pointer, cutAt_indirect inTree.1, block_cutTopIndirect, contents_cutInner found,
        Option.map_some, cutPage_apply inTree.2, if_pos start_le]
      rfl
  | double =>
    have start_le : start ≤ doubleBase := start_le
    rw [has] at held
    obtain ⟨outer, found⟩ := Option.isSome_iff_exists.1 held
    rw [pointer]
    simp only [cutAt, cutTopDouble_freed found start_le]
  | first slot =>
    have start_le : start ≤ doubleBase + slot * nidsPerBlock := start_le
    rw [has] at held
    cases found : tree.double.page with
    | none =>
      rw [found] at held
      cases held
    | some outer =>
      rw [found] at held
      rw [pointer]
      simp only [cutAt, contents_cutTopDouble found, Option.map_some]
      rw [cutOuter_apply inTree, nid_cutInner held start_le]
  | second row slot =>
    have start_le : start ≤ doubleBase + row * nidsPerBlock + slot := start_le
    rw [has] at held
    cases found : tree.double.page with
    | none =>
      rw [found] at held
      cases held
    | some outer =>
      rw [found] at held
      rw [pointer]
      simp only [cutAt, contents_cutTopDouble found, Option.bind_some]
      rw [cutOuter_apply inTree.1]
      cases inner : (outer row).page with
      | none =>
        rw [Option.any_some, inner] at held
        cases held
      | some page =>
        rw [contents_cutInner inner, Option.map_some, cutPage_apply inTree.2, if_pos start_le]
        rfl

theorem page_cutPage {page : Indirect} {base slot : Nat} (slot_lt : slot < nidsPerBlock) :
    (cutPage start base page slot).page =
      if base + slot < start then (page slot).page else none := by
  rw [cutPage_apply slot_lt]
  split
  next start_le => rw [page_cleared, if_neg (by omega)]
  next before => rw [if_pos (by omega)]

/-- The direct nodes below a cut are read as before, the others no more. -/
theorem dnode_cutAt {number : Nat} (number_lt : number < dnodeTotal) :
    (tree.cutAt start).dnode number = if number < start then tree.dnode number else none := by
  rcases number_cases number_lt with which_lt | ⟨which, which_lt, slot, slot_lt, rfl⟩ |
    ⟨row, row_lt, slot, slot_lt, rfl⟩
  · rw [dnode_direct which_lt, dnode_direct which_lt, cutAt_direct which_lt]
    split
    next start_le => rw [page_cleared, if_neg (by omega)]
    next before => rw [if_pos (by omega)]
  · rw [dnode_child which_lt slot_lt, dnode_child which_lt slot_lt, cutAt_indirect which_lt,
      page_cutTopIndirect]
    split
    next start_le => rw [Option.bind_none, if_neg (by omega)]
    next before =>
      cases (tree.indirect which).page with
      | none => rw [Option.map_none, Option.bind_none, ite_self]
      | some page => rw [Option.map_some, Option.bind_some, Option.bind_some, page_cutPage slot_lt]
  · rw [dnode_second slot_lt, dnode_second slot_lt, cutAt]
    simp only [page_cutTopDouble]
    split
    next start_le => rw [Option.bind_none, if_neg (by omega)]
    next before =>
      cases tree.double.page with
      | none => rw [Option.map_none, Option.bind_none, ite_self]
      | some outer =>
        rw [Option.map_some, Option.bind_some, Option.bind_some, cutOuter_apply row_lt,
          page_cutInner]
        split
        next start_le => rw [Option.bind_none, if_neg (by omega)]
        next inside =>
          cases (outer row).page with
          | none => rw [Option.map_none, Option.bind_none, ite_self]
          | some page =>
            rw [Option.map_some, Option.bind_some, Option.bind_some, page_cutPage slot_lt]

/-- The nodes that begin below a cut are still there. -/
theorem has_cutAt {place : Place} (inTree : place.InTree) (held : tree.has place = true)
    (number_lt : place.number < start) : (tree.cutAt start).has place = true := by
  cases place with
  | direct which =>
    have number_lt : which < start := number_lt
    rw [has, cutAt_direct inTree, if_neg (by omega)]
    exact held
  | indirect which =>
    have number_lt : indirectBase which < start := number_lt
    rw [has] at held
    rw [has, cutAt_indirect inTree, page_cutTopIndirect, if_neg (by omega), Option.isSome_map]
    exact held
  | child which slot =>
    have number_lt : indirectBase which + slot < start := number_lt
    rw [has] at held
    rw [has, cutAt_indirect inTree.1, page_cutTopIndirect, if_neg (by omega)]
    cases found : (tree.indirect which).page with
    | none =>
      rw [found] at held
      cases held
    | some page =>
      rw [found] at held
      rw [Option.map_some, Option.any_some, page_cutPage inTree.2, if_pos number_lt]
      exact held
  | double =>
    have number_lt : doubleBase < start := number_lt
    rw [has] at held
    rw [has, cutAt]
    simp only [page_cutTopDouble]
    rw [if_neg (by omega), Option.isSome_map]
    exact held
  | first slot =>
    have number_lt : doubleBase + slot * nidsPerBlock < start := number_lt
    rw [has] at held
    rw [has, cutAt]
    simp only [page_cutTopDouble]
    rw [if_neg (by omega)]
    cases found : tree.double.page with
    | none =>
      rw [found] at held
      cases held
    | some outer =>
      rw [found] at held
      rw [Option.map_some, Option.any_some, cutOuter_apply inTree, page_cutInner,
        if_neg (by omega), Option.isSome_map]
      exact held
  | second row slot =>
    have number_lt : doubleBase + row * nidsPerBlock + slot < start := number_lt
    rw [has] at held
    rw [has, cutAt]
    simp only [page_cutTopDouble]
    rw [if_neg (by omega)]
    cases found : tree.double.page with
    | none =>
      rw [found] at held
      cases held
    | some outer =>
      rw [found, Option.any_some] at held
      rw [Option.map_some, Option.any_some, cutOuter_apply inTree.1, page_cutInner,
        if_neg (by omega)]
      cases inner : (outer row).page with
      | none =>
        rw [inner] at held
        cases held
      | some page =>
        rw [inner] at held
        rw [Option.map_some, Option.any_some, page_cutPage inTree.2, if_pos number_lt]
        exact held

end FileTree

/-! ## Blocks by the number of their direct node -/

/-- The block of the file in a slot of a direct node. -/
def blockOf (inlineXattr : Bool) (number slot : Nat) : Nat :=
  addrsPerInode inlineXattr + number * addrsPerBlock + slot

/-- The way of `get_node_path` to a direct node. -/
inductive NumberPath (inlineXattr : Bool) (slot : Nat) : Nat → NodePath → Prop
  | direct {which : Nat} (which_lt : which < 2) :
      NumberPath inlineXattr slot which ⟨1, [nodeDir1Block + which, slot], [0, 1 + which]⟩
  | indirect {which child : Nat} (which_lt : which < 2) (child_lt : child < nidsPerBlock) :
      NumberPath inlineXattr slot (indirectBase which + child)
        ⟨2, [nodeInd1Block + which, child, slot],
          [0, 3 + which * (nidsPerBlock + 1), 4 + which * (nidsPerBlock + 1) + child]⟩
  | double {row second : Nat} (row_lt : row < nidsPerBlock) (second_lt : second < nidsPerBlock) :
      NumberPath inlineXattr slot (doubleBase + row * nidsPerBlock + second)
        ⟨3, [nodeDindBlock, row, second, slot],
          [0, 5 + nidsPerBlock * 2, 6 + nidsPerBlock * 2 + row * (nidsPerBlock + 1),
            7 + nidsPerBlock * 2 + row * (nidsPerBlock + 1) + second]⟩

theorem numberPath_exists (inlineXattr : Bool) {number : Nat} (slot : Nat)
    (number_lt : number < dnodeTotal) : ∃ path, NumberPath inlineXattr slot number path := by
  rcases number_cases number_lt with which_lt | ⟨which, which_lt, child, child_lt, rfl⟩ |
    ⟨row, row_lt, second, second_lt, rfl⟩
  · exact ⟨_, .direct which_lt⟩
  · exact ⟨_, .indirect which_lt child_lt⟩
  · exact ⟨_, .double row_lt second_lt⟩

theorem double_number (row second : Nat) :
    doubleBase + row * nidsPerBlock + second = 2 + (2 + row) * nidsPerBlock + second := by
  rw [doubleBase, Nat.add_mul, Nat.add_assoc 2]

theorem NumberPath.getNodePath {inlineXattr : Bool} {number slot : Nat} {path : NodePath}
    (way : NumberPath inlineXattr slot number path) (slot_lt : slot < addrsPerBlock) :
    getNodePath inlineXattr (blockOf inlineXattr number slot) = some path := by
  cases way with
  | direct which_lt => exact (PathShape.direct which_lt slot_lt).getNodePath
  | indirect which_lt child_lt => exact (PathShape.indirect which_lt child_lt slot_lt).getNodePath
  | double row_lt second_lt =>
    rw [blockOf, double_number]
    exact (PathShape.double row_lt second_lt slot_lt).getNodePath

theorem NumberPath.level {inlineXattr : Bool} {number slot : Nat} {path : NodePath}
    (way : NumberPath inlineXattr slot number path) : path.level ≠ 0 := by
  cases way with
  | direct _ => exact Nat.one_ne_zero
  | indirect _ _ => exact Nat.succ_ne_zero 1
  | double _ _ => exact Nat.succ_ne_zero 2

theorem NumberPath.dnodeOfData {tree : FileTree} {number slot : Nat} {path : NodePath}
    (way : NumberPath tree.inlineXattr slot number path) :
    tree.dnodeOfData path = (tree.dnode number).map (·, slot) := by
  cases way with
  | direct which_lt =>
    rw [FileTree.dnode_direct which_lt, FileTree.dnodeOfData]
    simp only [Nat.add_sub_cancel_left]
  | indirect which_lt child_lt =>
    rw [FileTree.dnode_child which_lt child_lt, FileTree.dnodeOfData]
    simp only [Nat.add_sub_cancel_left, Option.map_bind]
    rfl
  | double row_lt second_lt =>
    rw [FileTree.dnode_second second_lt, FileTree.dnodeOfData]
    simp only
    cases tree.double.page with
    | none => rfl
    | some outer =>
      simp only [Option.bind_some, Option.map_bind]
      rfl

/-- Another direct node in its place. -/
structure Replaces (tree after : FileTree) (number : Nat) (node : Dnode) : Prop where
  inlineXattr : after.inlineXattr = tree.inlineXattr
  addr : after.addr = tree.addr
  dnode : ∀ other, after.dnode other = if other = number then some node else tree.dnode other
  has : ∀ place, after.has place = tree.has place
  freed : ∀ place, after.freed place = tree.freed place
  pointer : ∀ place, after.pointer place = tree.pointer place

/-- The node of a child is replaced by another one. -/
def Child.withNode {α : Type} (child : Child α) (node : α) : Child α :=
  { child with block := .live node }

section WithNode

variable {α : Type} {child : Child α} {old : α}

theorem page_withNode (found : child.page = some old) (node : α) :
    (child.withNode node).page = some node :=
  if_neg (Child.nid_ne_zero_of_page found)

theorem contents_withNode (child : Child α) (node : α) :
    (child.withNode node).block.contents = some node := rfl

theorem isFreed_withNode (found : child.page = some old) (node : α) :
    (child.withNode node).block.isFreed = child.block.isFreed :=
  (isFreed_of_page found).symm

end WithNode

/-- A direct node of a page is replaced. -/
theorem seen_update {page : Indirect} {slot : Nat} {old : Dnode}
    (found : (page slot).page = some old) (node : Dnode) (other : Nat) :
    (Function.update page slot ((page slot).withNode node) other).page.isSome =
        (page other).page.isSome ∧
      (Function.update page slot ((page slot).withNode node) other).block.isFreed =
        (page other).block.isFreed ∧
      (Function.update page slot ((page slot).withNode node) other).nid = (page other).nid := by
  rcases eq_or_ne other slot with rfl | ne
  · rw [Function.update_self, page_withNode found, isFreed_withNode found, found]
    exact ⟨rfl, rfl, rfl⟩
  · rw [Function.update_of_ne ne]
    exact ⟨rfl, rfl, rfl⟩

/-- An indirect node whose page is replaced by one with the same nodes. -/
theorem seen_inner {child : Child Indirect} {page page' : Indirect}
    (found : child.page = some page)
    (seen : ∀ slot, (page' slot).page.isSome = (page slot).page.isSome ∧
      (page' slot).block.isFreed = (page slot).block.isFreed ∧
      (page' slot).nid = (page slot).nid) (slot : Nat) :
    ((child.withNode page').page.any fun page => (page slot).page.isSome) =
        (child.page.any fun page => (page slot).page.isSome) ∧
      ((child.withNode page').block.contents.any fun page => (page slot).block.isFreed) =
        (child.block.contents.any fun page => (page slot).block.isFreed) ∧
      ((child.withNode page').block.contents.map fun page => (page slot).nid) =
        (child.block.contents.map fun page => (page slot).nid) := by
  rw [page_withNode found, contents_of_page found, found]
  exact ⟨(seen slot).1, (seen slot).2.1, congrArg some (seen slot).2.2⟩

/-- The direct node on a path is replaced. -/
theorem NumberPath.replaces {tree : FileTree} {number slot : Nat} {path : NodePath}
    (way : NumberPath tree.inlineXattr slot number path) {old : Dnode}
    (found : tree.dnode number = some old) (node : Dnode) :
    Replaces tree (tree.setDnode path node) number node := by
  have nids : nidsPerBlock = 1018 := rfl
  cases way with
  | direct which_lt =>
    rw [FileTree.dnode_direct which_lt] at found
    have set : tree.setDnode ⟨1, [nodeDir1Block + number, slot], [0, 1 + number]⟩ node =
        { tree with
          direct := Function.update tree.direct number
            ((tree.direct number).withNode node) } := by
      simp only [FileTree.setDnode, Nat.add_sub_cancel_left]
      rfl
    have seen := seen_update found node
    rw [set]
    refine ⟨rfl, rfl, ?_, ?_, ?_, ?_⟩
    · intro other
      rcases eq_or_ne other number with rfl | ne
      · rw [if_pos rfl, FileTree.dnode_direct which_lt]
        simp only [Function.update_self]
        exact page_withNode found node
      · rw [if_neg ne, FileTree.dnode_update_direct ne]
    · intro place
      cases place with
      | direct which => exact (seen which).1
      | _ => rfl
    · intro place
      cases place with
      | direct which => exact (seen which).2.1
      | _ => rfl
    · intro place
      cases place with
      | direct which => exact congrArg some (seen which).2.2
      | _ => rfl
  | @indirect which child which_lt child_lt =>
    rw [FileTree.dnode_child which_lt child_lt] at found
    obtain ⟨page, page_eq, found⟩ := Option.bind_eq_some_iff.1 found
    have set : tree.setDnode
        ⟨2, [nodeInd1Block + which, child, slot],
          [0, 3 + which * (nidsPerBlock + 1), 4 + which * (nidsPerBlock + 1) + child]⟩ node =
        { tree with
          indirect := Function.update tree.indirect which ((tree.indirect which).withNode
            (Function.update page child ((page child).withNode node))) } := by
      simp only [FileTree.setDnode, Nat.add_sub_cancel_left, page_eq]
      rfl
    have seen := seen_inner page_eq (seen_update found node)
    generalize page'_eq : Function.update page child ((page child).withNode node) = page' at *
    rw [set]
    refine ⟨rfl, rfl, ?_, ?_, ?_, ?_⟩
    · intro other
      rw [FileTree.dnode, FileTree.dnode]
      simp only [indirectBase, doubleBase, nids] at *
      split
      next direct => rw [if_neg (by omega)]
      split
      next single =>
        rcases eq_or_ne ((other - 2) / 1018) which with here | ne
        · rw [here, Function.update_self, page_withNode page_eq, page_eq, Option.bind_some,
            Option.bind_some, ← page'_eq]
          rcases eq_or_ne ((other - 2) % 1018) child with slot_eq | slot_ne
          · rw [slot_eq, Function.update_self, page_withNode found, if_pos (by omega)]
          · rw [Function.update_of_ne slot_ne, if_neg (by omega)]
        · rw [Function.update_of_ne ne, if_neg (by omega)]
      next double => rw [if_neg (by omega)]
    · intro place
      cases place with
      | indirect other =>
        rcases eq_or_ne other which with rfl | ne
        · simp only [FileTree.has, Function.update_self, page_withNode page_eq, page_eq,
            Option.isSome_some]
        · simp only [FileTree.has, Function.update_of_ne ne]
      | child other place =>
        rcases eq_or_ne other which with rfl | ne
        · simp only [FileTree.has, Function.update_self]
          exact (seen place).1
        · simp only [FileTree.has, Function.update_of_ne ne]
      | _ => rfl
    · intro place
      cases place with
      | indirect other =>
        rcases eq_or_ne other which with rfl | ne
        · simp only [FileTree.freed, Function.update_self, isFreed_withNode page_eq]
        · simp only [FileTree.freed, Function.update_of_ne ne]
      | child other place =>
        rcases eq_or_ne other which with rfl | ne
        · simp only [FileTree.freed, Function.update_self]
          exact (seen place).2.1
        · simp only [FileTree.freed, Function.update_of_ne ne]
      | _ => rfl
    · intro place
      cases place with
      | indirect other =>
        rcases eq_or_ne other which with rfl | ne
        · simp only [FileTree.pointer, Function.update_self, Child.withNode]
        · simp only [FileTree.pointer, Function.update_of_ne ne]
      | child other place =>
        rcases eq_or_ne other which with rfl | ne
        · simp only [FileTree.pointer, Function.update_self]
          exact (seen place).2.2
        · simp only [FileTree.pointer, Function.update_of_ne ne]
      | _ => rfl
  | @double row second row_lt second_lt =>
    rw [FileTree.dnode_second second_lt] at found
    obtain ⟨outer, outer_eq, found⟩ := Option.bind_eq_some_iff.1 found
    obtain ⟨page, page_eq, found⟩ := Option.bind_eq_some_iff.1 found
    have set : tree.setDnode
        ⟨3, [nodeDindBlock, row, second, slot],
          [0, 5 + nidsPerBlock * 2, 6 + nidsPerBlock * 2 + row * (nidsPerBlock + 1),
            7 + nidsPerBlock * 2 + row * (nidsPerBlock + 1) + second]⟩ node =
        { tree with
          double := tree.double.withNode (Function.update outer row ((outer row).withNode
            (Function.update page second ((page second).withNode node)))) } := by
      simp only [FileTree.setDnode, outer_eq, page_eq]
      rfl
    have seen := seen_inner page_eq (seen_update found node)
    generalize page'_eq : Function.update page second ((page second).withNode node) = page' at *
    rw [set]
    have contents := contents_of_page outer_eq
    refine ⟨rfl, rfl, ?_, ?_, ?_, ?_⟩
    · intro other
      rw [FileTree.dnode, FileTree.dnode]
      simp only [doubleBase, nids] at *
      split
      next direct => rw [if_neg (by omega)]
      split
      next single => rw [if_neg (by omega)]
      next double =>
        rw [page_withNode outer_eq, outer_eq, Option.bind_some, Option.bind_some]
        rcases eq_or_ne ((other - (2 + 2 * 1018)) / 1018) row with here | ne
        · rw [here, Function.update_self, page_withNode page_eq, page_eq, Option.bind_some,
            Option.bind_some, ← page'_eq]
          rcases eq_or_ne ((other - (2 + 2 * 1018)) % 1018) second with slot_eq | slot_ne
          · rw [slot_eq, Function.update_self, page_withNode found, if_pos (by omega)]
          · rw [Function.update_of_ne slot_ne, if_neg (by omega)]
        · rw [Function.update_of_ne ne, if_neg (by omega)]
    · intro place
      cases place with
      | double => simp only [FileTree.has, page_withNode outer_eq, outer_eq, Option.isSome_some]
      | first other =>
        simp only [FileTree.has, page_withNode outer_eq, outer_eq, Option.any_some]
        rcases eq_or_ne other row with rfl | ne
        · rw [Function.update_self, page_withNode page_eq, page_eq, Option.isSome_some,
            Option.isSome_some]
        · rw [Function.update_of_ne ne]
      | second other place =>
        simp only [FileTree.has, page_withNode outer_eq, outer_eq, Option.any_some]
        rcases eq_or_ne other row with rfl | ne
        · rw [Function.update_self]
          exact (seen place).1
        · rw [Function.update_of_ne ne]
      | _ => rfl
    · intro place
      cases place with
      | double => simp only [FileTree.freed, isFreed_withNode outer_eq]
      | first other =>
        simp only [FileTree.freed, contents, contents_withNode, Option.any_some]
        rcases eq_or_ne other row with rfl | ne
        · rw [Function.update_self]
          exact isFreed_withNode page_eq page'
        · rw [Function.update_of_ne ne]
      | second other place =>
        simp only [FileTree.freed, contents, contents_withNode, Option.any_some]
        rcases eq_or_ne other row with rfl | ne
        · rw [Function.update_self]
          exact (seen place).2.1
        · rw [Function.update_of_ne ne]
      | _ => rfl
    · intro place
      cases place with
      | first other =>
        simp only [FileTree.pointer, contents, contents_withNode, Option.map_some]
        rcases eq_or_ne other row with rfl | ne
        · rw [Function.update_self]
          rfl
        · rw [Function.update_of_ne ne]
      | second other place =>
        simp only [FileTree.pointer, contents, contents_withNode, Option.bind_some]
        rcases eq_or_ne other row with rfl | ne
        · rw [Function.update_self]
          exact (seen place).2.2
        · rw [Function.update_of_ne ne]
      | _ => rfl

end Truncation
end F2fs
end StorageStack
