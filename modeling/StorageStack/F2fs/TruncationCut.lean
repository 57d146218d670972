import StorageStack.F2fs.Truncation

/-!
# The cut of a tree

The direct nodes of a file have numbers in the order of its blocks.  The loops of
`truncate_inode_blocks` leave the tree cut at such a number: every node from there on is freed, and
the data of these direct nodes is invalidated in order.
-/

namespace StorageStack
namespace F2fs
namespace Truncation

/-! ## Numbers of direct nodes -/

/-- The number of the first direct node under `NODE_IND1_BLOCK` or `NODE_IND2_BLOCK`. -/
def indirectBase (which : Nat) : Nat := 2 + which * nidsPerBlock

/-- The number of the first direct node under `NODE_DIND_BLOCK`. -/
def doubleBase : Nat := 2 + 2 * nidsPerBlock

/-- The direct nodes of a file. -/
def dnodeTotal : Nat := doubleBase + nidsPerBlock * nidsPerBlock

namespace FileTree

/-- The direct node with a number. -/
def dnode (tree : FileTree) (number : Nat) : Option Dnode :=
  if number < 2 then (tree.direct number).page
  else if number < doubleBase then
    (tree.indirect ((number - 2) / nidsPerBlock)).page.bind fun page =>
      (page ((number - 2) % nidsPerBlock)).page
  else
    tree.double.page.bind fun outer =>
      (outer ((number - doubleBase) / nidsPerBlock)).page.bind fun page =>
        (page ((number - doubleBase) % nidsPerBlock)).page

variable {tree : FileTree}

theorem dnode_direct {which : Nat} (which_lt : which < 2) :
    tree.dnode which = (tree.direct which).page := if_pos which_lt

theorem dnode_child {which child : Nat} (which_lt : which < 2) (child_lt : child < nidsPerBlock) :
    tree.dnode (indirectBase which + child) =
      (tree.indirect which).page.bind fun page => (page child).page := by
  have nids : nidsPerBlock = 1018 := rfl
  rw [nids] at child_lt
  simp only [dnode, indirectBase, doubleBase, nids]
  rw [if_neg (by omega), if_pos (by omega),
    show (2 + which * 1018 + child - 2) / 1018 = which by omega,
    show (2 + which * 1018 + child - 2) % 1018 = child by omega]

theorem dnode_second {first second : Nat} (second_lt : second < nidsPerBlock) :
    tree.dnode (doubleBase + first * nidsPerBlock + second) =
      tree.double.page.bind fun outer => (outer first).page.bind fun page =>
        (page second).page := by
  have nids : nidsPerBlock = 1018 := rfl
  rw [nids] at second_lt
  simp only [dnode, doubleBase, nids]
  rw [if_neg (by omega), if_neg (by omega),
    show (2 + 2 * 1018 + first * 1018 + second - (2 + 2 * 1018)) / 1018 = first by omega,
    show (2 + 2 * 1018 + first * 1018 + second - (2 + 2 * 1018)) % 1018 = second by omega]

/-- The data of a direct node with a number. -/
def numberData (tree : FileTree) (number : Nat) : List Nat :=
  (tree.dnode number).elim [] fun node => addresses node 0 addrsPerBlock

/-- The data from a direct node on, in the order of the file. -/
def dataFrom (tree : FileTree) (start : Nat) : List Nat :=
  (List.range' start (dnodeTotal - start)).flatMap tree.numberData

theorem dataFrom_split {start middle : Nat} (start_le : start ≤ middle)
    (middle_le : middle ≤ dnodeTotal) :
    tree.dataFrom start =
      (List.range' start (middle - start)).flatMap tree.numberData ++ tree.dataFrom middle := by
  have whole : dnodeTotal - start = middle - start + (dnodeTotal - middle) := by omega
  have joined := @List.range'_append_1 start (middle - start) (dnodeTotal - middle)
  rw [show start + (middle - start) = middle by omega] at joined
  rw [dataFrom, whole, ← joined, List.flatMap_append, dataFrom]

theorem dataFrom_congr {other : FileTree} {start : Nat}
    (same : ∀ number, start ≤ number → other.dnode number = tree.dnode number) :
    other.dataFrom start = tree.dataFrom start := by
  rw [dataFrom, dataFrom]
  apply flatMap_range'_congr
  intro number above
  rw [numberData, numberData, same number above]

end FileTree

theorem range'_shift (offset ofs count : Nat) :
    List.range' (offset + ofs) count = (List.range' ofs count).map (offset + ·) :=
  (List.map_add_range' ofs count 1).symm

/-- A range of rows, one row behind the other. -/
theorem range'_rows (offset width ofs count : Nat) :
    List.range' (offset + ofs * width) (count * width) =
      (List.range' ofs count).flatMap fun row => List.range' (offset + row * width) width := by
  induction count generalizing ofs with
  | zero => simp
  | succ count ih =>
    have first := @List.range'_append_1 (offset + ofs * width) width (count * width)
    rw [List.range'_succ, List.flatMap_cons, ← ih, Nat.succ_mul, Nat.add_comm (count * width),
      ← first, Nat.succ_mul, Nat.add_assoc]

namespace FileTree

variable {tree : FileTree}

theorem direct_data {which : Nat} (which_lt : which < 2) :
    tree.numberData which = dnodeData (tree.direct which) := by
  rw [numberData, dnode_direct which_lt, dnodeData]

theorem page_data {page : Indirect} {offset ofs : Nat}
    (at_page : ∀ slot < nidsPerBlock, tree.dnode (offset + slot) = (page slot).page) :
    (List.range' (offset + ofs) (nidsPerBlock - ofs)).flatMap tree.numberData =
      pageData page ofs := by
  rw [range'_shift, List.flatMap_map, pageData, List.flatMap_def, List.flatMap_def]
  congr 1
  apply List.map_congr_left
  intro slot mem
  have below := List.mem_range'_1.1 mem
  rw [numberData, at_page slot (by omega), dnodeData]

theorem missing_data {start count : Nat}
    (missing : ∀ number, start ≤ number → number < start + count → tree.dnode number = none) :
    (List.range' start count).flatMap tree.numberData = [] := by
  rw [List.flatMap_eq_nil_iff]
  intro number mem
  have inside := List.mem_range'_1.1 mem
  rw [numberData, missing number inside.1 inside.2]
  rfl

theorem indirect_data {which ofs : Nat} (which_lt : which < 2) (ofs_le : ofs ≤ nidsPerBlock) :
    (List.range' (indirectBase which + ofs) (nidsPerBlock - ofs)).flatMap tree.numberData =
      indirectData (tree.indirect which) ofs := by
  rw [indirectData]
  cases found : (tree.indirect which).page with
  | none =>
    apply missing_data
    intro number above below
    obtain ⟨slot, rfl⟩ := Nat.exists_eq_add_of_le (Nat.le_trans (Nat.le_add_right _ _) above)
    rw [dnode_child which_lt (by omega), found, Option.bind_none]
  | some page =>
    apply page_data
    intro slot slot_lt
    rw [dnode_child which_lt slot_lt, found, Option.bind_some]

theorem inner_data {outer : DoubleIndirect} (found : tree.double.page = some outer)
    {first ofs : Nat} (ofs_le : ofs ≤ nidsPerBlock) :
    (List.range' (doubleBase + first * nidsPerBlock + ofs) (nidsPerBlock - ofs)).flatMap
      tree.numberData = indirectData (outer first) ofs := by
  rw [indirectData]
  cases inner : (outer first).page with
  | none =>
    apply missing_data
    intro number above below
    obtain ⟨slot, rfl⟩ := Nat.exists_eq_add_of_le (Nat.le_trans (Nat.le_add_right _ _) above)
    rw [dnode_second (by omega), found, Option.bind_some, inner, Option.bind_none]
  | some page =>
    apply page_data
    intro slot slot_lt
    rw [dnode_second slot_lt, found, Option.bind_some, inner, Option.bind_some]

theorem double_data {ofs : Nat} :
    tree.dataFrom (doubleBase + ofs * nidsPerBlock) = doubleData tree.double ofs := by
  have size : dnodeTotal - (doubleBase + ofs * nidsPerBlock) =
      (nidsPerBlock - ofs) * nidsPerBlock := by
    have nids : nidsPerBlock = 1018 := rfl
    rw [dnodeTotal, nids] at *
    omega
  rw [dataFrom, size, range'_rows, List.flatMap_assoc, doubleData]
  cases found : tree.double.page with
  | none =>
    rw [Option.elim_none, List.flatMap_eq_nil_iff]
    intro first _
    apply missing_data
    intro number above below
    obtain ⟨slot, rfl⟩ := Nat.exists_eq_add_of_le above
    rw [dnode_second (by omega), found, Option.bind_none]
  | some outer =>
    rw [Option.elim_some, outerData]
    apply flatMap_range'_congr
    intro first _
    have data := @inner_data tree outer found first 0 (Nat.zero_le _)
    rwa [Nat.add_zero, Nat.sub_zero] at data

end FileTree

/-! ## Cutting -/

/-- The direct nodes of a page, the first of them with the number `base`, cut at a number. -/
def cutPage (start base : Nat) (page : Indirect) : Indirect :=
  fun slot =>
    if slot < nidsPerBlock ∧ start ≤ base + slot then cleared (page slot) else page slot

/-- An indirect node cut at a number; it is freed when all of its direct nodes are. -/
def cutInner (start base : Nat) (child : Child Indirect) : Child Indirect :=
  match child.page with
  | none => child
  | some page =>
      if start ≤ base then { nid := 0, block := .freed (cutPage start base page) }
      else { child with block := .live (cutPage start base page) }

/-- The indirect nodes of a page. -/
def cutOuter (start : Nat) (outer : DoubleIndirect) : DoubleIndirect :=
  fun slot =>
    if slot < nidsPerBlock then cutInner start (doubleBase + slot * nidsPerBlock) (outer slot)
    else outer slot

/-- The double indirect node. -/
def cutTopDouble (start : Nat) (child : Child DoubleIndirect) : Child DoubleIndirect :=
  match child.page with
  | none => if start ≤ doubleBase then { child with nid := 0 } else child
  | some outer =>
      if start ≤ doubleBase then { nid := 0, block := .freed (cutOuter start outer) }
      else { child with block := .live (cutOuter start outer) }

/-- An indirect node of the inode: its pointer is set to 0 even when there is no block. -/
def cutTopIndirect (start base : Nat) (child : Child Indirect) : Child Indirect :=
  if start ≤ base then { cutInner start base child with nid := 0 } else cutInner start base child

/-- A tree cut at the number of a direct node. -/
def FileTree.cutAt (tree : FileTree) (start : Nat) : FileTree :=
  { tree with
    direct := fun which =>
      if which < 2 ∧ start ≤ which then cleared (tree.direct which) else tree.direct which
    indirect := fun which =>
      if which < 2 then cutTopIndirect start (indirectBase which) (tree.indirect which)
      else tree.indirect which
    double := cutTopDouble start tree.double }

theorem cutInner_none {start base : Nat} {child : Child Indirect} (missing : child.page = none) :
    cutInner start base child = child := by
  rw [cutInner, missing]

theorem cutInner_freed {start base : Nat} {child : Child Indirect} {page : Indirect}
    (found : child.page = some page) (start_le : start ≤ base) :
    cutInner start base child = { nid := 0, block := .freed (cutPage start base page) } := by
  rw [cutInner, found]
  exact if_pos start_le

theorem cutInner_live {start base : Nat} {child : Child Indirect} {page : Indirect}
    (found : child.page = some page) (base_lt : base < start) :
    cutInner start base child = { child with block := .live (cutPage start base page) } := by
  rw [cutInner, found]
  exact if_neg (Nat.not_le.2 base_lt)

theorem cutTopDouble_freed {start : Nat} {child : Child DoubleIndirect} {outer : DoubleIndirect}
    (found : child.page = some outer) (start_le : start ≤ doubleBase) :
    cutTopDouble start child = { nid := 0, block := .freed (cutOuter start outer) } := by
  rw [cutTopDouble, found]
  exact if_pos start_le

theorem cutTopDouble_live {start : Nat} {child : Child DoubleIndirect} {outer : DoubleIndirect}
    (found : child.page = some outer) (base_lt : doubleBase < start) :
    cutTopDouble start child = { child with block := .live (cutOuter start outer) } := by
  rw [cutTopDouble, found]
  exact if_neg (Nat.not_le.2 base_lt)

theorem cutTopDouble_none {start : Nat} {child : Child DoubleIndirect}
    (missing : child.page = none) :
    cutTopDouble start child = if start ≤ doubleBase then { child with nid := 0 } else child := by
  rw [cutTopDouble, missing]

theorem cutIndirect_eq {page : Indirect} {ofs : Nat} (ofs_le : ofs ≤ nidsPerBlock) (base : Nat) :
    cutIndirect page ofs (nidsPerBlock - ofs) = cutPage (base + ofs) base page := by
  funext slot
  rw [cutIndirect, cutPage]
  exact if_congr (by omega) rfl rfl

theorem cutPage_of_le {start start' base : Nat} (start_le : start ≤ base)
    (start_le' : start' ≤ base) (page : Indirect) :
    cutPage start base page = cutPage start' base page := by
  funext slot
  rw [cutPage, cutPage]
  exact if_congr (by omega) rfl rfl

theorem cutPage_behind {start base : Nat} (behind : base + nidsPerBlock ≤ start)
    (page : Indirect) : cutPage start base page = page := by
  funext slot
  exact if_neg (by omega)

theorem cutInner_of_le {start start' base : Nat} (start_le : start ≤ base)
    (start_le' : start' ≤ base) (child : Child Indirect) :
    cutInner start base child = cutInner start' base child := by
  cases found : child.page with
  | none => rw [cutInner_none found, cutInner_none found]
  | some page =>
    rw [cutInner_freed found start_le, cutInner_freed found start_le',
      cutPage_of_le start_le start_le']

theorem Child.live_page {α : Type} {child : Child α} {page : α} (found : child.page = some page) :
    { child with block := .live page } = child := by
  rw [← child.block_of_page found]

theorem nidsPerBlock_pos : 0 < nidsPerBlock := by
  decide

theorem cutInner_behind {start base : Nat} (behind : base + nidsPerBlock ≤ start)
    (child : Child Indirect) : cutInner start base child = child := by
  have pos := nidsPerBlock_pos
  cases found : child.page with
  | none => exact cutInner_none found
  | some page =>
    rw [cutInner_live found (by omega), cutPage_behind behind, Child.live_page found]

theorem cutTopIndirect_of_le {start start' base : Nat} (start_le : start ≤ base)
    (start_le' : start' ≤ base) (child : Child Indirect) :
    cutTopIndirect start base child = cutTopIndirect start' base child := by
  rw [cutTopIndirect, cutTopIndirect, if_pos start_le, if_pos start_le',
    cutInner_of_le start_le start_le']

theorem cutTopIndirect_behind {start base : Nat} (behind : base + nidsPerBlock ≤ start)
    (child : Child Indirect) : cutTopIndirect start base child = child := by
  have pos := nidsPerBlock_pos
  rw [cutTopIndirect, if_neg (by omega), cutInner_behind behind]

theorem cutOuter_of_le {start start' : Nat} (start_le : start ≤ doubleBase)
    (start_le' : start' ≤ doubleBase) (outer : DoubleIndirect) :
    cutOuter start outer = cutOuter start' outer := by
  funext slot
  rw [cutOuter, cutOuter, cutInner_of_le (by omega : start ≤ doubleBase + slot * nidsPerBlock)
    (by omega : start' ≤ _)]

theorem cutTopDouble_of_le {start start' : Nat} (start_le : start ≤ doubleBase)
    (start_le' : start' ≤ doubleBase) (child : Child DoubleIndirect) :
    cutTopDouble start child = cutTopDouble start' child := by
  cases found : child.page with
  | none =>
    rw [cutTopDouble_none found, cutTopDouble_none found, if_pos start_le, if_pos start_le']
  | some outer =>
    rw [cutTopDouble_freed found start_le, cutTopDouble_freed found start_le',
      cutOuter_of_le start_le start_le']

theorem droppedIndirect_eq (child : Child Indirect) {start base : Nat} (start_le : start ≤ base) :
    droppedIndirect child = cutInner start base child := by
  cases found : child.page with
  | none => rw [droppedIndirect_of_missing found, cutInner_none found]
  | some page =>
    have whole := @cutIndirect_eq page 0 (Nat.zero_le _) base
    rw [Nat.sub_zero, Nat.add_zero] at whole
    rw [cutInner_freed found start_le, droppedIndirect, Child.dropped, found]
    dsimp only
    rw [whole, cutPage_of_le (Nat.le_refl base) start_le]

theorem cutDouble_eq {outer : DoubleIndirect} {ofs : Nat} (ofs_le : ofs ≤ nidsPerBlock) :
    cutDouble outer ofs (nidsPerBlock - ofs) =
      cutOuter (doubleBase + ofs * nidsPerBlock) outer := by
  funext slot
  rw [cutDouble, cutOuter]
  rcases Nat.lt_or_ge slot ofs with before | behind
  · have rows := Nat.mul_le_mul_right nidsPerBlock (Nat.succ_le_of_lt before)
    rw [Nat.succ_mul] at rows
    rw [if_neg (by omega), cutInner_behind (by omega)]
    split
    · rfl
    · rfl
  · have rows := Nat.mul_le_mul_right nidsPerBlock behind
    rw [droppedIndirect_eq (outer slot)
      (Nat.add_le_add_left rows doubleBase : _ ≤ doubleBase + slot * nidsPerBlock)]
    exact if_congr (by omega) rfl rfl

/-! ## The loop over the pointers -/

/-- The loop comes to a pointer, and is to cut the tree at a number. -/
inductive Enters (tree : FileTree) : (slot ofs start : Nat) → Prop
  | direct {which : Nat} (which_lt : which < 2) : Enters tree which 0 which
  | missing {which ofs : Nat} (which_lt : which < 2) (ofs_ne : ofs ≠ 0)
      (missing : (tree.direct which).page = none) : Enters tree which ofs (which + 1)
  | indirect {which ofs : Nat} (which_lt : which < 2) (ofs_lt : ofs < nidsPerBlock) :
      Enters tree (which + 2) ofs (indirectBase which + ofs)
  | double {ofs : Nat} (ofs_le : ofs ≤ nidsPerBlock) :
      Enters tree 4 ofs (doubleBase + ofs * nidsPerBlock)

/-- The number of the first direct node under a pointer. -/
def topBase (slot : Nat) : Nat :=
  match slot with
  | 0 => 0
  | 1 => 1
  | 2 => indirectBase 0
  | 3 => indirectBase 1
  | _ => doubleBase

theorem enters_topBase {tree : FileTree} {slot : Nat} (slot_le : slot ≤ 4) :
    Enters tree slot 0 (topBase slot) := by
  have each : slot = 0 ∨ slot = 1 ∨ slot = 2 ∨ slot = 3 ∨ slot = 4 := by omega
  rcases each with rfl | rfl | rfl | rfl | rfl
  · exact .direct (by decide)
  · exact .direct (by decide)
  · exact @Enters.indirect tree 0 0 (by decide) nidsPerBlock_pos
  · exact @Enters.indirect tree 1 0 (by decide) nidsPerBlock_pos
  · have enters := @Enters.double tree 0 (Nat.zero_le _)
    rwa [Nat.zero_mul, Nat.add_zero] at enters

namespace FileTree

variable {tree : FileTree}

/-- The tree when the loop goes on to the next pointer. -/
def behindTop (top : FileTree) (slot ofs : Nat) : FileTree :=
  if ofs = 0 then top.clearNid slot else top

theorem truncateTop_direct {which : Nat} (which_lt : which < 2) (ofs : Nat) (nofs : Int) :
    ∃ top, tree.truncateTop which ofs nofs = some top ∧
      top.invalidated = dnodeData (tree.direct which) ∧
      top.state.behindTop which ofs = { tree with
        direct := Function.update tree.direct which
          (if ofs = 0 then cleared (tree.direct which)
            else (truncateDnode (tree.direct which)).state) } := by
  have each : which = 0 ∨ which = 1 := by omega
  rcases each with rfl | rfl
  all_goals
    refine ⟨_, rfl, truncateDnode_invalidated _, ?_⟩
    rw [behindTop]
    split
    · simp only [clearNid, Function.update_self, Function.update_idem, truncateDnode_cleared]
    · rfl

theorem truncateTop_indirect {which : Nat} (which_lt : which < 2) (ofs : Nat) (nofs : Int) :
    ∃ top, tree.truncateTop (which + 2) ofs nofs = some top ∧
      top.invalidated = indirectData (tree.indirect which) ofs ∧
      top.state.behindTop (which + 2) ofs = { tree with
        indirect := Function.update tree.indirect which
          (if ofs = 0 then { (truncateIndirect (tree.indirect which) ofs).state with nid := 0 }
            else (truncateIndirect (tree.indirect which) ofs).state) } := by
  have each : which = 0 ∨ which = 1 := by omega
  rcases each with rfl | rfl
  all_goals
    refine ⟨_, rfl, truncateIndirect_invalidated _ _, ?_⟩
    rw [behindTop]
    split
    · simp only [clearNid, Nat.add_sub_cancel, Function.update_self, Function.update_idem]
    · rfl

/-- What is left of an indirect node of the inode. -/
theorem truncateIndirect_cut (child : Child Indirect) {ofs : Nat} (ofs_lt : ofs < nidsPerBlock)
    (base : Nat) :
    (if ofs = 0 then { (truncateIndirect child ofs).state with nid := 0 }
      else (truncateIndirect child ofs).state) = cutTopIndirect (base + ofs) base child := by
  have pages (page : Indirect) := @cutIndirect_eq page ofs (by omega) base
  rw [cutTopIndirect]
  cases found : child.page with
  | none =>
    rw [(truncateIndirect_none found ofs).1, cutInner_none found]
    exact if_congr (by omega) rfl rfl
  | some page =>
    rw [(truncateIndirect_some found ofs).1, pages page]
    by_cases zero : ofs = 0
    · rw [if_pos zero, if_pos zero, if_pos (by omega), cutInner_freed found (by omega)]
    · rw [if_neg zero, if_neg zero, if_neg (by omega), cutInner_live found (by omega)]

theorem truncateDouble_cut (child : Child DoubleIndirect) (nofs : Int) {ofs : Nat}
    (ofs_le : ofs ≤ nidsPerBlock) :
    (if ofs = 0 then { (truncateDouble child nofs ofs).state with nid := 0 }
      else (truncateDouble child nofs ofs).state) =
      cutTopDouble (doubleBase + ofs * nidsPerBlock) child := by
  have start_le : doubleBase + ofs * nidsPerBlock ≤ doubleBase ↔ ofs = 0 := by
    have nids : nidsPerBlock = 1018 := rfl
    rw [nids]
    omega
  cases found : child.page with
  | none =>
    rw [truncateDouble_none found, cutTopDouble_none found]
    exact if_congr start_le.symm rfl rfl
  | some outer =>
    rw [truncateDouble_some found, cutDouble_eq ofs_le]
    by_cases zero : ofs = 0
    · rw [if_pos zero, if_pos zero, cutTopDouble_freed found (start_le.2 zero)]
    · rw [if_neg zero, if_neg zero,
        cutTopDouble_live found (Nat.lt_of_not_le (mt start_le.1 zero))]

end FileTree

namespace FileTree

variable {tree : FileTree}

/-- A tree with another direct node below `NODE_DIR1_BLOCK` or `NODE_DIR2_BLOCK`. -/
theorem dnode_update_direct {which number : Nat} {child : Child Dnode} (ne : number ≠ which) :
    dnode { tree with direct := Function.update tree.direct which child } number =
      tree.dnode number := by
  simp only [dnode]
  rw [Function.update_of_ne ne]

/-- A cut behind an indirect node of the inode does not read it. -/
theorem dnode_update_indirect {which number : Nat} {child : Child Indirect}
    (above : indirectBase (which + 1) ≤ number) :
    dnode { tree with indirect := Function.update tree.indirect which child } number =
      tree.dnode number := by
  have nids : nidsPerBlock = 1018 := rfl
  rw [indirectBase, nids] at above
  simp only [dnode, nids]
  rw [Function.update_of_ne (by omega)]

/-- The pointers of the direct nodes of the inode. -/
theorem direct_step {which ofs start : Nat} (which_lt : which < 2)
    (enters : Enters tree which ofs start) (nofs : Int) :
    ∃ top, tree.truncateTop which ofs nofs = some top ∧
      (top.state.behindTop which ofs).cutAt (which + 1) = tree.cutAt start ∧
      top.invalidated ++ (top.state.behindTop which ofs).dataFrom (which + 1) =
        tree.dataFrom start := by
  have nids : nidsPerBlock = 1018 := rfl
  obtain ⟨top, run, data, behind⟩ := @truncateTop_direct tree which which_lt ofs nofs
  have cases_start : ofs = 0 ∧ start = which ∨
      ofs ≠ 0 ∧ start = which + 1 ∧ (tree.direct which).page = none := by
    generalize slot_eq : which = slot at enters
    cases enters with
    | direct _ => exact .inl ⟨rfl, rfl⟩
    | missing _ ofs_ne missing => exact .inr ⟨ofs_ne, rfl, missing⟩
    | indirect _ _ => omega
    | double _ => omega
  refine ⟨top, run, ?_, ?_⟩
  · rw [behind]
    have directs (other : Nat) :
        (if other < 2 ∧ which + 1 ≤ other then
            cleared (Function.update tree.direct which
              (if ofs = 0 then cleared (tree.direct which)
                else (truncateDnode (tree.direct which)).state) other)
          else Function.update tree.direct which
            (if ofs = 0 then cleared (tree.direct which)
              else (truncateDnode (tree.direct which)).state) other) =
        if other < 2 ∧ start ≤ other then cleared (tree.direct other) else tree.direct other := by
      rcases Nat.lt_trichotomy other which with below | rfl | above
      · rw [Function.update_of_ne (by omega), if_neg (by omega), if_neg (by omega)]
      · rw [Function.update_self, if_neg (by omega)]
        rcases cases_start with ⟨zero, rfl⟩ | ⟨ne, rfl, missing⟩
        · rw [if_pos zero, if_pos (by omega)]
        · rw [if_neg ne, if_neg (by omega), truncateDnode, missing]
      · rw [Function.update_of_ne (by omega)]
        exact if_congr (by omega) rfl rfl
    rw [cutAt, cutAt]
    congr 1
    · funext other
      exact directs other
    · funext other
      have same := @cutTopIndirect_of_le (which + 1) start (indirectBase other)
        (by rw [indirectBase]; omega) (by rw [indirectBase]; omega) (tree.indirect other)
      simp only [same]
    · exact cutTopDouble_of_le (by rw [doubleBase]; omega) (by rw [doubleBase]; omega) _
  · rw [data, behind, dataFrom_congr fun number above => dnode_update_direct (by omega)]
    rcases cases_start with ⟨zero, rfl⟩ | ⟨ne, rfl, missing⟩
    · rw [dataFrom_split (Nat.le_succ start) (by rw [dnodeTotal, doubleBase, nids]; omega),
        show start.succ - start = 1 by omega, List.range'_one, List.flatMap_singleton,
        direct_data which_lt]
    · rw [dnodeData, missing]
      rfl

end FileTree

theorem indirectBase_succ (which : Nat) :
    indirectBase (which + 1) = indirectBase which + nidsPerBlock := by
  rw [indirectBase, indirectBase, Nat.succ_mul, Nat.add_assoc]

namespace FileTree

variable {tree : FileTree}

section Update

variable {which ofs : Nat}

theorem indirectBase_le (which_lt : which < 2) : indirectBase (which + 1) ≤ doubleBase := by
  have nids : nidsPerBlock = 1018 := rfl
  rw [indirectBase, doubleBase, nids]
  omega

/-- A tree with a cut indirect node, cut behind it. -/
theorem cutAt_update_indirect (which_lt : which < 2) (ofs_lt : ofs < nidsPerBlock) :
    cutAt { tree with
        indirect := Function.update tree.indirect which
          (cutTopIndirect (indirectBase which + ofs) (indirectBase which) (tree.indirect which)) }
      (indirectBase (which + 1)) = tree.cutAt (indirectBase which + ofs) := by
  have nids : nidsPerBlock = 1018 := rfl
  have two_le : 2 ≤ indirectBase which := Nat.le_add_right _ _
  have next := indirectBase_succ which
  have next_le := indirectBase_le which_lt
  have indirects (other : Nat) (other_lt : other < 2) :
      cutTopIndirect (indirectBase (which + 1)) (indirectBase other)
        (Function.update tree.indirect which
          (cutTopIndirect (indirectBase which + ofs) (indirectBase which)
            (tree.indirect which)) other) =
      cutTopIndirect (indirectBase which + ofs) (indirectBase other) (tree.indirect other) := by
    rcases Nat.lt_trichotomy other which with below | rfl | above
    · have before : indirectBase other + nidsPerBlock ≤ indirectBase which := by
        rw [indirectBase, indirectBase, nids]
        omega
      rw [Function.update_of_ne (by omega), cutTopIndirect_behind (by omega),
        cutTopIndirect_behind (by omega)]
    · rw [Function.update_self, cutTopIndirect_behind (by omega)]
    · have after : indirectBase (which + 1) ≤ indirectBase other := by
        rw [indirectBase, indirectBase, nids]
        omega
      rw [Function.update_of_ne (by omega)]
      exact cutTopIndirect_of_le after (by omega) _
  rw [cutAt, cutAt]
  congr 1
  · funext other
    simp only
    rw [if_neg (by omega), if_neg (by omega)]
  · funext other
    by_cases other_lt : other < 2
    · simp only [other_lt, if_true]
      exact indirects other other_lt
    · simp only [other_lt, if_false]
      rw [Function.update_of_ne (by omega)]
  · exact cutTopDouble_of_le next_le (by omega) _

theorem dataFrom_update_indirect (which_lt : which < 2) (ofs_lt : ofs < nidsPerBlock)
    (child : Child Indirect) :
    indirectData (tree.indirect which) ofs ++
        dataFrom { tree with indirect := Function.update tree.indirect which child }
          (indirectBase (which + 1)) =
      tree.dataFrom (indirectBase which + ofs) := by
  have next := indirectBase_succ which
  rw [dataFrom_congr fun number above => dnode_update_indirect above,
    @dataFrom_split tree (indirectBase which + ofs) (indirectBase (which + 1)) (by omega)
      (Nat.le_trans (indirectBase_le which_lt) (Nat.le_add_right _ _)),
    show indirectBase (which + 1) - (indirectBase which + ofs) = nidsPerBlock - ofs by omega,
    indirect_data which_lt (by omega)]

end Update

/-- The pointers of the indirect nodes of the inode. -/
theorem indirect_step {which ofs : Nat} (which_lt : which < 2) (ofs_lt : ofs < nidsPerBlock)
    (nofs : Int) :
    ∃ top, tree.truncateTop (which + 2) ofs nofs = some top ∧
      (top.state.behindTop (which + 2) ofs).cutAt (indirectBase (which + 1)) =
        tree.cutAt (indirectBase which + ofs) ∧
      top.invalidated ++
          (top.state.behindTop (which + 2) ofs).dataFrom (indirectBase (which + 1)) =
        tree.dataFrom (indirectBase which + ofs) := by
  obtain ⟨top, run, data, behind⟩ := @truncateTop_indirect tree which which_lt ofs nofs
  rw [truncateIndirect_cut _ ofs_lt (indirectBase which)] at behind
  refine ⟨top, run, ?_, ?_⟩
  · rw [behind, cutAt_update_indirect which_lt ofs_lt]
  · rw [data, behind, dataFrom_update_indirect which_lt ofs_lt]

/-- A cut in the double indirect node is one of this node. -/
theorem cutAt_double {start : Nat} (base_le : doubleBase ≤ start) :
    tree.cutAt start = { tree with double := cutTopDouble start tree.double } := by
  have nids : nidsPerBlock = 1018 := rfl
  have directs : (fun which =>
      if which < 2 ∧ start ≤ which then cleared (tree.direct which)
      else tree.direct which) = tree.direct := by
    funext which
    rw [if_neg]
    rw [doubleBase, nids] at base_le
    omega
  have indirects : (fun which =>
      if which < 2 then cutTopIndirect start (indirectBase which) (tree.indirect which)
      else tree.indirect which) = tree.indirect := by
    funext which
    by_cases which_lt : which < 2
    · rw [if_pos which_lt, cutTopIndirect_behind]
      rw [doubleBase, nids] at base_le
      rw [indirectBase, nids]
      omega
    · rw [if_neg which_lt]
  rw [cutAt, directs, indirects]

/-- The pointer of the double indirect node ends the loop. -/
theorem double_step {ofs : Nat} (ofs_le : ofs ≤ nidsPerBlock) (nofs : Int) :
    ∃ top, tree.truncateTop 4 ofs nofs = some top ∧
      top.state.behindTop 4 ofs = tree.cutAt (doubleBase + ofs * nidsPerBlock) ∧
      top.invalidated = tree.dataFrom (doubleBase + ofs * nidsPerBlock) := by
  refine ⟨_, rfl, ?_, ?_⟩
  · rw [cutAt_double (Nat.le_add_right _ _), ← truncateDouble_cut tree.double nofs ofs_le,
      behindTop]
    split
    · rfl
    · rfl
  · exact (truncateDouble_invalidated _ _ _).trans double_data.symm

end FileTree

/-- The loop cuts the tree. -/
theorem truncateTops_spec {tree : FileTree} {slot ofs start rounds : Nat}
    (enters : Enters tree slot ofs start) (last : slot + rounds = 5) (nofs : Int) :
    ∃ rest, truncateTops tree slot ofs nofs rounds = some rest ∧
      rest.state = tree.cutAt start ∧ rest.invalidated = tree.dataFrom start := by
  induction rounds generalizing tree slot ofs start nofs with
  | zero =>
    exfalso
    cases enters <;> omega
  | succ rounds ih =>
    have step {top : Outcome FileTree} {next : Nat} (slot_lt : slot < 4)
        (run : tree.truncateTop slot ofs nofs = some top)
        (base : next = topBase (slot + 1))
        (state : (top.state.behindTop slot ofs).cutAt next = tree.cutAt start)
        (data : top.invalidated ++ (top.state.behindTop slot ofs).dataFrom next =
          tree.dataFrom start) :
        ∃ rest, truncateTops tree slot ofs nofs (rounds + 1) = some rest ∧
          rest.state = tree.cutAt start ∧ rest.invalidated = tree.dataFrom start := by
      have enters' : Enters (top.state.behindTop slot ofs) (slot + 1) 0 next :=
        base ▸ enters_topBase (by omega)
      obtain ⟨rest, run', state', data'⟩ := ih enters' (by omega) (nofs + top.ret)
      refine ⟨⟨rest.ret, rest.state, top.invalidated ++ rest.invalidated⟩, ?_, ?_, ?_⟩
      · rw [truncateTops, run, Option.bind_some, if_neg (by omega)]
        rw [FileTree.behindTop] at run'
        rw [run']
        rfl
      · exact state'.trans state
      · exact (congrArg (top.invalidated ++ ·) data').trans data
    cases enters with
    | direct which_lt =>
      obtain ⟨top, run, state, data⟩ :=
        @FileTree.direct_step tree slot 0 slot which_lt (.direct which_lt) nofs
      refine step (by omega) run ?_ state data
      have each : slot = 0 ∨ slot = 1 := by omega
      rcases each with rfl | rfl <;> rfl
    | missing which_lt ofs_ne missing =>
      obtain ⟨top, run, state, data⟩ := @FileTree.direct_step tree slot ofs (slot + 1) which_lt
        (.missing which_lt ofs_ne missing) nofs
      refine step (by omega) run ?_ state data
      have each : slot = 0 ∨ slot = 1 := by omega
      rcases each with rfl | rfl <;> rfl
    | @indirect which _ which_lt ofs_lt =>
      obtain ⟨top, run, state, data⟩ := @FileTree.indirect_step tree which ofs which_lt ofs_lt nofs
      refine step (by omega) run ?_ state data
      have each : which = 0 ∨ which = 1 := by omega
      rcases each with rfl | rfl <;> rfl
    | double ofs_le =>
      obtain ⟨top, run, state, data⟩ := @FileTree.double_step tree ofs ofs_le nofs
      refine ⟨⟨top.ret, top.state.behindTop 4 ofs, top.invalidated⟩, ?_, state, data⟩
      rw [truncateTops, run, Option.bind_some, if_pos rfl]
      rfl

theorem truncateRest_spec {tree : FileTree} {slot ofs start : Nat}
    (enters : Enters tree slot ofs start) (nofs : Int) :
    ∃ rest, truncateRest tree slot ofs nofs = some rest ∧
      rest.state = tree.cutAt start ∧ rest.invalidated = tree.dataFrom start := by
  have slot_le : slot ≤ 4 := by
    cases enters <;> omega
  obtain ⟨rest, run, state, data⟩ := truncateTops_spec enters (by omega : slot + (5 - slot) = 5) nofs
  refine ⟨{ rest with ret := if 0 < rest.ret then 0 else rest.ret }, ?_, state, data⟩
  rw [truncateRest, run, Option.map_some]

/-! ## Partial nodes -/

theorem truncatePartialPage_state {child : Child Indirect} {page : Indirect}
    (found : child.page = some page) {ofs : Nat} (ofs_pos : ofs ≠ 0) (ofs_lt : ofs < nidsPerBlock)
    (base : Nat) :
    (truncatePartialPage child page ofs).state = cutInner (base + ofs) base child := by
  rw [cutInner_live found (by omega), ← cutIndirect_eq (Nat.le_of_lt ofs_lt) base,
    truncatePartialPage, truncateDnodes_state]
  simp only [if_neg ofs_pos]

theorem truncatePartialPage_invalidated (child : Child Indirect) (page : Indirect) (ofs : Nat) :
    (truncatePartialPage child page ofs).invalidated = pageData page ofs :=
  truncateDnodes_invalidated _ _ _ _

namespace FileTree

variable {tree : FileTree}

/-- The double indirect node with another node in it. -/
def withInner (tree : FileTree) (outer : DoubleIndirect) (first : Nat) (child : Child Indirect) :
    FileTree :=
  { tree with
    double := { tree.double with block := .live (Function.update outer first child) } }

theorem withInner_page {outer : DoubleIndirect} (found : tree.double.page = some outer)
    (first : Nat) (child : Child Indirect) :
    (tree.withInner outer first child).double.page = some (Function.update outer first child) :=
  if_neg (Child.nid_ne_zero_of_page found)

/-- A tree with a cut node in the double indirect node, cut behind it. -/
theorem cutAt_withInner {outer : DoubleIndirect} (found : tree.double.page = some outer)
    {first ofs : Nat} (first_lt : first < nidsPerBlock) (ofs_pos : ofs ≠ 0)
    (ofs_lt : ofs < nidsPerBlock) :
    (tree.withInner outer first
        (cutInner (doubleBase + first * nidsPerBlock + ofs) (doubleBase + first * nidsPerBlock)
          (outer first))).cutAt (doubleBase + (first + 1) * nidsPerBlock) =
      tree.cutAt (doubleBase + first * nidsPerBlock + ofs) := by
  have nids : nidsPerBlock = 1018 := rfl
  have outers : cutOuter (doubleBase + (first + 1) * nidsPerBlock)
      (Function.update outer first (cutInner (doubleBase + first * nidsPerBlock + ofs)
        (doubleBase + first * nidsPerBlock) (outer first))) =
      cutOuter (doubleBase + first * nidsPerBlock + ofs) outer := by
    rw [nids] at first_lt ofs_lt
    funext slot
    rw [cutOuter, cutOuter]
    rcases Nat.lt_trichotomy slot first with below | rfl | above
    · rw [Function.update_of_ne (by omega), cutInner_behind (by rw [nids]; omega),
        cutInner_behind (by rw [nids]; omega)]
    · rw [Function.update_self, cutInner_behind (by rw [nids]; omega), if_pos (by rw [nids]; omega),
        if_pos (by rw [nids]; omega)]
    · rw [Function.update_of_ne (by omega)]
      exact if_congr Iff.rfl
        (cutInner_of_le (by rw [nids]; omega) (by rw [nids]; omega) _) rfl
  rw [cutAt_double (by omega), cutAt_double (by omega),
    cutTopDouble_live (withInner_page found _ _) (by rw [nids]; omega), outers,
    cutTopDouble_live found (by omega)]
  rfl

theorem dnode_withInner {outer : DoubleIndirect} (found : tree.double.page = some outer)
    {first number : Nat} (child : Child Indirect)
    (above : doubleBase + (first + 1) * nidsPerBlock ≤ number) :
    (tree.withInner outer first child).dnode number = tree.dnode number := by
  have nids : nidsPerBlock = 1018 := rfl
  have base : doubleBase = 2 + 2 * 1018 := rfl
  rw [nids] at above
  simp only [dnode, withInner_page found, found, nids]
  rw [if_neg (by omega), if_neg (by omega), if_neg (by omega), if_neg (by omega),
    Option.bind_some, Option.bind_some, Function.update_of_ne (by omega)]

theorem dataFrom_withInner {outer : DoubleIndirect} (found : tree.double.page = some outer)
    {first ofs : Nat} (first_lt : first < nidsPerBlock) (ofs_lt : ofs < nidsPerBlock)
    (child : Child Indirect) :
    indirectData (outer first) ofs ++
        (tree.withInner outer first child).dataFrom (doubleBase + (first + 1) * nidsPerBlock) =
      tree.dataFrom (doubleBase + first * nidsPerBlock + ofs) := by
  have nids : nidsPerBlock = 1018 := rfl
  have rows := Nat.mul_le_mul_right nidsPerBlock (Nat.succ_le_of_lt first_lt)
  rw [Nat.succ_mul] at rows
  have middle : doubleBase + (first + 1) * nidsPerBlock =
      doubleBase + first * nidsPerBlock + nidsPerBlock := by
    rw [Nat.succ_mul, Nat.add_assoc]
  rw [dataFrom_congr fun number above => dnode_withInner found child above,
    @dataFrom_split tree (doubleBase + first * nidsPerBlock + ofs)
      (doubleBase + (first + 1) * nidsPerBlock) (by omega) (by rw [dnodeTotal]; omega),
    show doubleBase + (first + 1) * nidsPerBlock - (doubleBase + first * nidsPerBlock + ofs) =
      nidsPerBlock - ofs by omega,
    inner_data found (Nat.le_of_lt ofs_lt)]

end FileTree

/-! ## `truncate_inode_blocks` -/

/-- A tree is left cut at the number of a direct node, with the data behind it invalidated. -/
def Cuts (tree : FileTree) (start : Nat) (run : Option (Outcome FileTree)) : Prop :=
  ∃ rest, run = some rest ∧ rest.state = tree.cutAt start ∧ rest.invalidated = tree.dataFrom start

section InodeBlocks

variable {tree : FileTree} {first second slot : Nat}

/-- From a direct node of the inode on.  Inside of the node there must be nothing. -/
theorem truncateInodeBlocks_direct {which : Nat} (which_lt : which < 2)
    (slot_lt : slot < addrsPerBlock)
    (empty : slot = 0 ∨ (tree.direct which).page = none) :
    Cuts tree (if slot = 0 then which else which + 1)
      (truncateInodeBlocks tree
        (addrsPerInode tree.inlineXattr + which * addrsPerBlock + slot)) := by
  rw [truncateInodeBlocks, (PathShape.direct which_lt slot_lt).getNodePath, Option.bind_some]
  simp only [Nat.add_sub_cancel_left]
  apply truncateRest_spec
  by_cases zero : slot = 0
  · rw [if_pos zero, zero]
    exact .direct which_lt
  · rw [if_neg zero]
    exact .missing which_lt zero (empty.resolve_left zero)

/-- From a direct node under an indirect node of the inode on. -/
theorem truncateInodeBlocks_indirect {which child : Nat} (which_lt : which < 2)
    (child_lt : child < nidsPerBlock) (slot_lt : slot < addrsPerBlock) :
    Cuts tree (indirectBase which + child)
      (truncateInodeBlocks tree (addrsPerInode tree.inlineXattr +
        (2 + which * nidsPerBlock + child) * addrsPerBlock + slot)) := by
  rw [truncateInodeBlocks, (PathShape.indirect which_lt child_lt slot_lt).getNodePath,
    Option.bind_some]
  simp only [Nat.add_sub_cancel_left]
  split
  next zero => exact truncateRest_spec (.indirect which_lt child_lt) _
  next inside =>
    cases found : (tree.indirect which).page with
    | none =>
      rw [truncatePartialIndirect, found, Option.map_none]
      exact truncateRest_spec (.indirect which_lt child_lt) _
    | some page =>
      have cut : (truncatePartialPage (tree.indirect which) page child).state =
          cutTopIndirect (indirectBase which + child) (indirectBase which)
            (tree.indirect which) := by
        rw [truncatePartialPage_state found inside child_lt (indirectBase which), cutTopIndirect,
          if_neg (by omega)]
      rw [truncatePartialIndirect, found, Option.map_some]
      dsimp only
      rw [cut]
      have next : topBase (which + 3) = indirectBase (which + 1) := by
        have each : which = 0 ∨ which = 1 := by omega
        rcases each with rfl | rfl <;> rfl
      obtain ⟨rest, run, state, data⟩ := @truncateRest_spec
        { tree with
          indirect := Function.update tree.indirect which
            (cutTopIndirect (indirectBase which + child) (indirectBase which)
              (tree.indirect which)) } _ 0 _ (enters_topBase (by omega : which + 3 ≤ 4))
        (((3 + which * (nidsPerBlock + 1) : Nat) : Int) + 1 + nidsPerBlock)
      rw [next] at state data
      refine ⟨⟨rest.ret, rest.state, pageData page child ++ rest.invalidated⟩, ?_, ?_, ?_⟩
      · rw [truncatePartialPage_invalidated]
        exact congrArg _ run
      · exact state.trans (FileTree.cutAt_update_indirect which_lt child_lt)
      · have whole := @FileTree.dataFrom_update_indirect tree which child which_lt child_lt
          (cutTopIndirect (indirectBase which + child) (indirectBase which) (tree.indirect which))
        rw [indirectData, found, Option.elim_some, ← data] at whole
        exact whole

/-- Where the double indirect node is cut: at a direct node, or at the indirect node above it when
this one is missing. -/
def doubleStart (tree : FileTree) (first second : Nat) : Nat :=
  if (tree.double.page.bind fun outer => (outer first).page).isSome then
    doubleBase + first * nidsPerBlock + second
  else doubleBase + first * nidsPerBlock

/-- From a direct node under the double indirect node on. -/
theorem truncateInodeBlocks_double (first_lt : first < nidsPerBlock)
    (second_lt : second < nidsPerBlock) (slot_lt : slot < addrsPerBlock) :
    Cuts tree (doubleStart tree first second)
      (truncateInodeBlocks tree (addrsPerInode tree.inlineXattr +
        (2 + (2 + first) * nidsPerBlock + second) * addrsPerBlock + slot)) := by
  rw [truncateInodeBlocks, (PathShape.double first_lt second_lt slot_lt).getNodePath,
    Option.bind_some]
  simp only
  have whole (nofs : Int) :
      Cuts tree (doubleBase + first * nidsPerBlock) (truncateRest tree 4 first nofs) :=
    truncateRest_spec (.double (Nat.le_of_lt first_lt)) nofs
  split
  next zero =>
    have start : doubleStart tree first second = doubleBase + first * nidsPerBlock := by
      rw [doubleStart, zero, Nat.add_zero, ite_self]
    rw [start]
    exact whole _
  next inside =>
    cases found : tree.double.page with
    | none =>
      rw [truncatePartialDouble, found, Option.bind_none, doubleStart, found]
      exact whole _
    | some outer =>
      cases inner : (outer first).page with
      | none =>
        rw [truncatePartialDouble, found, Option.bind_some, inner, Option.map_none, doubleStart,
          found, Option.bind_some, inner]
        exact whole _
      | some page =>
        have start : doubleStart tree first second =
            doubleBase + first * nidsPerBlock + second := by
          rw [doubleStart, found, Option.bind_some, inner]
          rfl
        rw [start, truncatePartialDouble, found, Option.bind_some, inner, Option.map_some]
        dsimp only
        rw [truncatePartialPage_state inner inside second_lt (doubleBase + first * nidsPerBlock),
          truncatePartialPage_invalidated]
        obtain ⟨rest, run, state, data⟩ := @truncateRest_spec
          (tree.withInner outer first
            (cutInner (doubleBase + first * nidsPerBlock + second)
              (doubleBase + first * nidsPerBlock) (outer first))) _ _ _
          (.double (Nat.succ_le_of_lt first_lt)) ((5 + 2 * nidsPerBlock : Nat) : Int)
        refine ⟨⟨rest.ret, rest.state, pageData page second ++ rest.invalidated⟩, ?_, ?_, ?_⟩
        · exact congrArg _ run
        · exact state.trans (FileTree.cutAt_withInner found first_lt inside second_lt)
        · have rows := FileTree.dataFrom_withInner found first_lt second_lt
            (cutInner (doubleBase + first * nidsPerBlock + second)
              (doubleBase + first * nidsPerBlock) (outer first))
          rw [indirectData, inner, Option.elim_some, ← data] at rows
          exact rows

end InodeBlocks

end Truncation
end F2fs
end StorageStack
