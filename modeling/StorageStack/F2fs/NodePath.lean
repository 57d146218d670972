import StorageStack.F2fs.Directory

/-!
# The numbering of node blocks

`get_node_path` finds the place of a block of a file in the tree of nodes, and gives each node on the
way a number in its file.  `start_bidx_of_node` and `IS_DNODE` read these numbers back.
-/

namespace StorageStack
namespace F2fs

/-- `DEF_ADDRS_PER_INODE`. -/
def defAddrsPerInode : Nat := 923

/-- `ADDRS_PER_BLOCK`. -/
def addrsPerBlock : Nat := 1018

/-- `NIDS_PER_BLOCK`. -/
def nidsPerBlock : Nat := 1018

/-- `NODE_DIR1_BLOCK`; the slots of the other nodes follow it. -/
def nodeDir1Block : Nat := defAddrsPerInode + 1

def nodeDir2Block : Nat := defAddrsPerInode + 2

def nodeInd1Block : Nat := defAddrsPerInode + 3

def nodeInd2Block : Nat := defAddrsPerInode + 4

def nodeDindBlock : Nat := defAddrsPerInode + 5

/-- `level`, and the entries up to it of `offset` and `noffset`. -/
structure NodePath where
  level : Nat
  offset : List Nat
  noffset : List Nat
deriving DecidableEq, Repr

/-- There is no result at the `BUG()`. -/
def getNodePath (inlineXattr : Bool) (block : Nat) : Option NodePath :=
  let directIndex := addrsPerInode inlineXattr
  let directBlks := addrsPerBlock
  let dptrsPerBlk := nidsPerBlock
  let indirectBlks := addrsPerBlock * nidsPerBlock
  let dindirectBlks := indirectBlks * nidsPerBlock
  if block < directIndex then some ⟨0, [block], [0]⟩
  else
    let block := block - directIndex
    if block < directBlks then some ⟨1, [nodeDir1Block, block], [0, 1]⟩
    else
      let block := block - directBlks
      if block < directBlks then some ⟨1, [nodeDir2Block, block], [0, 2]⟩
      else
        let block := block - directBlks
        if block < indirectBlks then
          some ⟨2, [nodeInd1Block, block / directBlks, block % directBlks],
            [0, 3, 4 + block / directBlks]⟩
        else
          let block := block - indirectBlks
          if block < indirectBlks then
            some ⟨2, [nodeInd2Block, block / directBlks, block % directBlks],
              [0, 4 + dptrsPerBlk, 5 + dptrsPerBlk + block / directBlks]⟩
          else
            let block := block - indirectBlks
            if block < dindirectBlks then
              let first := block / indirectBlks
              let second := block / directBlks % dptrsPerBlk
              some ⟨3, [nodeDindBlock, first, second, block % directBlks],
                [0, 5 + dptrsPerBlk * 2, 6 + dptrsPerBlk * 2 + first * (dptrsPerBlk + 1),
                  7 + dptrsPerBlk * 2 + first * (dptrsPerBlk + 1) + second]⟩
            else none

def startBidxOfNode (inlineXattr : Bool) (nodeOfs : Nat) : Nat :=
  let indirectBlks := 2 * nidsPerBlock + 4
  if nodeOfs = 0 then 0
  else
    let bidx :=
      if nodeOfs ≤ 2 then nodeOfs - 1
      else if nodeOfs ≤ indirectBlks then
        sub32 (sub32 nodeOfs 2) (sub32 nodeOfs 4 / (nidsPerBlock + 1))
      else sub32 (sub32 nodeOfs 5) (sub32 nodeOfs (indirectBlks + 3) / (nidsPerBlock + 1))
    (bidx * addrsPerBlock + addrsPerInode inlineXattr) % 2 ^ 32

/-- `OFFSET_BIT_SHIFT`. -/
def offsetBitShift : Nat := 3

/-- `XATTR_NODE_OFFSET`. -/
def xattrNodeOffset : Nat := ((2 ^ 32 - 1) <<< offsetBitShift % 2 ^ 32) >>> offsetBitShift

/-- The number in the flags of a node footer, as `fill_node_footer` sets it. -/
def footerFlag (ofs : Nat) : Nat := ofs <<< offsetBitShift % 2 ^ 32

def ofsOfNode (flag : Nat) : Nat := flag >>> offsetBitShift

/-- `IS_DNODE` of a page with these flags. -/
def isDnode (flag : Nat) : Bool :=
  let ofs := ofsOfNode flag
  if ofs = xattrNodeOffset then false
  else if ofs = 3 ∨ ofs = 4 + nidsPerBlock ∨ ofs = 5 + 2 * nidsPerBlock then false
  else if 6 + 2 * nidsPerBlock ≤ ofs ∧ (ofs - (6 + 2 * nidsPerBlock)) % (nidsPerBlock + 1) = 0 then
    false
  else true

/-! ## The shapes of a path -/

/-- The paths to the blocks of the five regions of a file. -/
inductive PathShape (inlineXattr : Bool) : Nat → NodePath → Prop
  | inode {slot : Nat} (slot_lt : slot < addrsPerInode inlineXattr) :
      PathShape inlineXattr slot ⟨0, [slot], [0]⟩
  | direct {which slot : Nat} (which_lt : which < 2) (slot_lt : slot < addrsPerBlock) :
      PathShape inlineXattr (addrsPerInode inlineXattr + which * addrsPerBlock + slot)
        ⟨1, [nodeDir1Block + which, slot], [0, 1 + which]⟩
  | indirect {which child slot : Nat} (which_lt : which < 2) (child_lt : child < nidsPerBlock)
      (slot_lt : slot < addrsPerBlock) :
      PathShape inlineXattr
        (addrsPerInode inlineXattr + (2 + which * nidsPerBlock + child) * addrsPerBlock + slot)
        ⟨2, [nodeInd1Block + which, child, slot],
          [0, 3 + which * (nidsPerBlock + 1), 4 + which * (nidsPerBlock + 1) + child]⟩
  | double {first second slot : Nat} (first_lt : first < nidsPerBlock)
      (second_lt : second < nidsPerBlock) (slot_lt : slot < addrsPerBlock) :
      PathShape inlineXattr
        (addrsPerInode inlineXattr + (2 + (2 + first) * nidsPerBlock + second) * addrsPerBlock + slot)
        ⟨3, [nodeDindBlock, first, second, slot],
          [0, 5 + nidsPerBlock * 2, 6 + nidsPerBlock * 2 + first * (nidsPerBlock + 1),
            7 + nidsPerBlock * 2 + first * (nidsPerBlock + 1) + second]⟩

theorem getNodePath_shape {inlineXattr : Bool} {block : Nat}
    (block_lt : block < maxFileBlocks inlineXattr) :
    ∃ path, getNodePath inlineXattr block = some path ∧ PathShape inlineXattr block path := by
  rw [maxFileBlocks] at block_lt
  have addrs : addrsPerBlock = 1018 := rfl
  have nids : nidsPerBlock = 1018 := rfl
  simp only [getNodePath, addrs, nids]
  split
  · next here => exact ⟨_, rfl, .inode here⟩
  split
  · next here =>
      have shape := @PathShape.direct inlineXattr 0 (block - addrsPerInode inlineXattr) (by omega) here
      rw [show addrsPerInode inlineXattr + 0 * addrsPerBlock + (block - addrsPerInode inlineXattr) =
        block by omega] at shape
      exact ⟨_, rfl, shape⟩
  split
  · next here =>
      have shape := @PathShape.direct inlineXattr 1 (block - addrsPerInode inlineXattr - 1018)
        (by omega) here
      rw [show addrsPerInode inlineXattr + 1 * addrsPerBlock +
        (block - addrsPerInode inlineXattr - 1018) = block by omega] at shape
      exact ⟨_, rfl, shape⟩
  split
  · next here =>
      generalize left_eq : block - addrsPerInode inlineXattr - 1018 - 1018 = left at here ⊢
      have shape := @PathShape.indirect inlineXattr 0 (left / 1018) (left % 1018) (by omega)
        (by omega) (by omega)
      rw [show addrsPerInode inlineXattr + (2 + 0 * nidsPerBlock + left / 1018) * addrsPerBlock +
        left % 1018 = block by rw [addrs, nids]; omega] at shape
      exact ⟨_, rfl, shape⟩
  split
  · next here =>
      generalize left_eq : block - addrsPerInode inlineXattr - 1018 - 1018 - 1018 * 1018 = left
        at here ⊢
      have shape := @PathShape.indirect inlineXattr 1 (left / 1018) (left % 1018) (by omega)
        (by omega) (by omega)
      rw [show addrsPerInode inlineXattr + (2 + 1 * nidsPerBlock + left / 1018) * addrsPerBlock +
        left % 1018 = block by rw [addrs, nids]; omega] at shape
      exact ⟨_, rfl, shape⟩
  · generalize left_eq : block - addrsPerInode inlineXattr - 1018 - 1018 - 1018 * 1018 -
      1018 * 1018 = left
    have here : left < 1018 * 1018 * 1018 := by omega
    have child : left / 1018 / 1018 = left / (1018 * 1018) := Nat.div_div_eq_div_mul ..
    have shape := @PathShape.double inlineXattr (left / (1018 * 1018)) (left / 1018 % 1018)
      (left % 1018) (by omega) (by omega) (by omega)
    rw [show addrsPerInode inlineXattr + (2 + (2 + left / (1018 * 1018)) * nidsPerBlock +
      left / 1018 % 1018) * addrsPerBlock + left % 1018 = block by rw [addrs, nids]; omega] at shape
    rw [if_pos here]
    exact ⟨_, rfl, shape⟩

/-! ## Reading the numbers back -/

/-- The way from the inode to the node with a number. -/
def nodePosition (ofs : Nat) : List Nat :=
  if ofs = 0 then []
  else if ofs ≤ 2 then [nodeDir1Block + (ofs - 1)]
  else if ofs < 5 + nidsPerBlock * 2 then
    let which := (ofs - 3) / (nidsPerBlock + 1)
    let child := (ofs - 3) % (nidsPerBlock + 1)
    if child = 0 then [nodeInd1Block + which] else [nodeInd1Block + which, child - 1]
  else if ofs = 5 + nidsPerBlock * 2 then [nodeDindBlock]
  else
    let first := (ofs - (6 + nidsPerBlock * 2)) / (nidsPerBlock + 1)
    let second := (ofs - (6 + nidsPerBlock * 2)) % (nidsPerBlock + 1)
    if second = 0 then [nodeDindBlock, first] else [nodeDindBlock, first, second - 1]

theorem nodePosition_direct {which : Nat} (which_lt : which < 2) :
    nodePosition (1 + which) = [nodeDir1Block + which] := by
  rw [nodePosition, if_neg (by omega), if_pos (by omega), Nat.add_sub_cancel_left]

theorem nodePosition_single {which : Nat} (which_lt : which < 2) :
    nodePosition (3 + which * (nidsPerBlock + 1)) = [nodeInd1Block + which] := by
  have nids : nidsPerBlock = 1018 := rfl
  simp only [nodePosition, nids]
  rw [if_neg (by omega), if_neg (by omega), if_pos (by omega), if_pos (by omega)]
  congr 2
  omega

theorem nodePosition_child {which child : Nat} (which_lt : which < 2)
    (child_lt : child < nidsPerBlock) :
    nodePosition (4 + which * (nidsPerBlock + 1) + child) = [nodeInd1Block + which, child] := by
  have nids : nidsPerBlock = 1018 := rfl
  rw [nids] at child_lt
  simp only [nodePosition, nids]
  rw [if_neg (by omega), if_neg (by omega), if_pos (by omega), if_neg (by omega),
    show (4 + which * (1018 + 1) + child - 3) / (1018 + 1) = which by omega,
    show (4 + which * (1018 + 1) + child - 3) % (1018 + 1) - 1 = child by omega]

theorem nodePosition_root : nodePosition (5 + nidsPerBlock * 2) = [nodeDindBlock] := rfl

theorem nodePosition_first {first : Nat} :
    nodePosition (6 + nidsPerBlock * 2 + first * (nidsPerBlock + 1)) = [nodeDindBlock, first] := by
  have nids : nidsPerBlock = 1018 := rfl
  simp only [nodePosition, nids]
  rw [if_neg (by omega), if_neg (by omega), if_neg (by omega), if_neg (by omega),
    if_pos (by omega),
    show (6 + 1018 * 2 + first * (1018 + 1) - (6 + 1018 * 2)) / (1018 + 1) = first by omega]

theorem nodePosition_second {first second : Nat} (second_lt : second < nidsPerBlock) :
    nodePosition (7 + nidsPerBlock * 2 + first * (nidsPerBlock + 1) + second) =
      [nodeDindBlock, first, second] := by
  have nids : nidsPerBlock = 1018 := rfl
  rw [nids] at second_lt
  simp only [nodePosition, nids]
  rw [if_neg (by omega), if_neg (by omega), if_neg (by omega), if_neg (by omega),
    if_neg (by omega),
    show (7 + 1018 * 2 + first * (1018 + 1) + second - (6 + 1018 * 2)) / (1018 + 1) = first by omega,
    show (7 + 1018 * 2 + first * (1018 + 1) + second - (6 + 1018 * 2)) % (1018 + 1) - 1 = second by
      omega]

theorem PathShape.length {inlineXattr : Bool} {block : Nat} {path : NodePath}
    (shape : PathShape inlineXattr block path) :
    path.offset.length = path.level + 1 ∧ path.noffset.length = path.level + 1 := by
  cases shape <;> exact ⟨rfl, rfl⟩

/-- The number of a node determines the way to it. -/
theorem PathShape.position {inlineXattr : Bool} {block : Nat} {path : NodePath}
    (shape : PathShape inlineXattr block path) :
    path.noffset.map nodePosition =
      (List.range (path.level + 1)).map fun depth => path.offset.take depth := by
  cases shape with
  | inode slot_lt => rfl
  | direct which_lt slot_lt =>
      change [nodePosition 0, _] = [[], _]
      rw [nodePosition_direct which_lt]
      rfl
  | indirect which_lt child_lt slot_lt =>
      change [nodePosition 0, _, _] = [[], _, _]
      rw [nodePosition_single which_lt, nodePosition_child which_lt child_lt]
      rfl
  | double first_lt second_lt slot_lt =>
      change [nodePosition 0, _, _, _] = [[], _, _, _]
      rw [nodePosition_root, nodePosition_first, nodePosition_second second_lt]
      rfl

/-! ## The block of a direct node -/

theorem startBidxOfNode_direct {inlineXattr : Bool} {nodeOfs leaf : Nat}
    (number : nodeOfs = 1 + leaf ∧ leaf < 2 ∨
      (∃ which < 2, ∃ child < nidsPerBlock, nodeOfs = 4 + which * (nidsPerBlock + 1) + child ∧
        leaf = 2 + which * nidsPerBlock + child) ∨
      ∃ first < nidsPerBlock, ∃ second < nidsPerBlock,
        nodeOfs = 7 + nidsPerBlock * 2 + first * (nidsPerBlock + 1) + second ∧
          leaf = 2 + (2 + first) * nidsPerBlock + second) :
    startBidxOfNode inlineXattr nodeOfs = addrsPerInode inlineXattr + leaf * addrsPerBlock := by
  have nids : nidsPerBlock = 1018 := rfl
  have addrs : addrsPerBlock = 1018 := rfl
  have inode_le : addrsPerInode inlineXattr ≤ 923 := by
    rw [addrsPerInode]
    split <;> omega
  simp only [nids] at number
  have leaf_lt : leaf < 1038362 := by
    rcases number with ⟨-, lt⟩ | ⟨which, which_lt, child, child_lt, -, rfl⟩ |
      ⟨first, first_lt, second, second_lt, -, rfl⟩ <;> omega
  have bidx : (if nodeOfs ≤ 2 then nodeOfs - 1
      else if nodeOfs ≤ 2 * nidsPerBlock + 4 then
        sub32 (sub32 nodeOfs 2) (sub32 nodeOfs 4 / (nidsPerBlock + 1))
      else sub32 (sub32 nodeOfs 5) (sub32 nodeOfs (2 * nidsPerBlock + 4 + 3) / (nidsPerBlock + 1))) =
      leaf := by
    rw [nids]
    rcases number with ⟨rfl, lt⟩ | ⟨which, which_lt, child, child_lt, rfl, rfl⟩ |
      ⟨first, first_lt, second, second_lt, rfl, rfl⟩
    · rw [if_pos (by omega)]
      omega
    · have two := sub32_of_le (show 2 ≤ 4 + which * (1018 + 1) + child by omega) (by omega)
      have four := sub32_of_le (show 4 ≤ 4 + which * (1018 + 1) + child by omega) (by omega)
      rw [if_neg (by omega), if_pos (by omega), two, four, sub32_of_le (by omega) (by omega)]
      omega
    · have five := sub32_of_le
        (show 5 ≤ 7 + 1018 * 2 + first * (1018 + 1) + second by omega) (by omega)
      have seven := sub32_of_le
        (show 2 * 1018 + 4 + 3 ≤ 7 + 1018 * 2 + first * (1018 + 1) + second by omega) (by omega)
      rw [if_neg (by omega), if_neg (by omega), five, seven, sub32_of_le (by omega) (by omega)]
      omega
  rw [startBidxOfNode, if_neg (by omega), bidx, addrs]
  dsimp only
  omega

theorem ofsOfNode_footerFlag {ofs : Nat} (ofs_lt : ofs < 2 ^ 29) :
    ofsOfNode (footerFlag ofs) = ofs := by
  rw [ofsOfNode, footerFlag, offsetBitShift, Nat.shiftLeft_eq, Nat.shiftRight_eq_div_pow]
  omega

theorem xattrNodeOffset_eq : xattrNodeOffset = 536870911 := rfl

/-- The numbers that stand for direct nodes. -/
theorem isDnode_footerFlag {ofs : Nat} (ofs_lt : ofs < xattrNodeOffset) :
    isDnode (footerFlag ofs) = true ↔
      ofs ≠ 3 ∧ ofs ≠ 4 + nidsPerBlock ∧ ofs ≠ 5 + 2 * nidsPerBlock ∧
        ¬ (6 + 2 * nidsPerBlock ≤ ofs ∧
          (ofs - (6 + 2 * nidsPerBlock)) % (nidsPerBlock + 1) = 0) := by
  rw [xattrNodeOffset_eq] at ofs_lt
  simp only [isDnode]
  rw [ofsOfNode_footerFlag (by omega), xattrNodeOffset_eq, if_neg (by omega)]
  split
  · next first => exact iff_of_false Bool.false_ne_true (by omega)
  · split
    · next second => exact iff_of_false Bool.false_ne_true fun numbers => numbers.2.2.2 second
    · next first second => exact iff_of_true rfl ⟨by omega, by omega, by omega, second⟩

/-- What the numbers and slots of a path say. -/
structure NodePath.Inverse (inlineXattr : Bool) (block : Nat) (path : NodePath) : Prop where
  offset_length : path.offset.length = path.level + 1
  noffset_length : path.noffset.length = path.level + 1
  /-- The block is the start of its node and the slot in it. -/
  block_eq : ∀ nodeOfs ∈ path.noffset[path.level]?, ∀ slot ∈ path.offset[path.level]?,
    startBidxOfNode inlineXattr nodeOfs + slot = block
  slot_lt : ∀ slot ∈ path.offset[path.level]?,
    slot < if path.level = 0 then addrsPerInode inlineXattr else addrsPerBlock
  /-- The inode has a slot for the first node of the way. -/
  root_slot : 0 < path.level → ∀ slot ∈ path.offset[0]?,
    nodeDir1Block ≤ slot ∧ slot ≤ nodeDindBlock
  inner_slot : ∀ depth, 0 < depth → depth < path.level → ∀ slot ∈ path.offset[depth]?,
    slot < nidsPerBlock
  dnode : ∀ nodeOfs ∈ path.noffset[path.level]?, isDnode (footerFlag nodeOfs) = true
  inner_dnode : ∀ depth, 0 < depth → depth < path.level → ∀ nodeOfs ∈ path.noffset[depth]?,
    isDnode (footerFlag nodeOfs) = false
  ne_xattr : ∀ nodeOfs ∈ path.noffset, nodeOfs ≠ xattrNodeOffset

theorem PathShape.inverse {inlineXattr : Bool} {block : Nat} {path : NodePath}
    (shape : PathShape inlineXattr block path) : path.Inverse inlineXattr block := by
  have nids : nidsPerBlock = 1018 := rfl
  have xattr := xattrNodeOffset_eq
  obtain ⟨offset_length, noffset_length⟩ := shape.length
  cases shape with
  | @inode slot slot_lt =>
      refine ⟨offset_length, noffset_length, ?_, ?_, fun level_pos => absurd level_pos (Nat.lt_irrefl 0),
        fun depth pos lt => absurd lt (Nat.not_lt_zero _), ?_,
        fun depth pos lt => absurd lt (Nat.not_lt_zero _), ?_⟩
      · rintro _ ⟨⟩ _ ⟨⟩
        rw [startBidxOfNode, if_pos rfl, Nat.zero_add]
      · rintro _ ⟨⟩
        exact slot_lt
      · rintro _ ⟨⟩
        exact (isDnode_footerFlag (by omega)).mpr (by simp only [nids]; omega)
      · simp [xattr]
  | @direct which slot which_lt slot_lt =>
      refine ⟨offset_length, noffset_length, ?_, ?_, fun _ => ?_, fun depth pos lt => ?_, ?_,
        fun depth pos lt => ?_, ?_⟩
      · rintro _ ⟨⟩ _ ⟨⟩
        rw [startBidxOfNode_direct (.inl ⟨rfl, which_lt⟩)]
      · rintro _ ⟨⟩
        exact slot_lt
      · rintro _ ⟨⟩
        simp only [nodeDir1Block, nodeDindBlock]
        omega
      · dsimp only at lt
        omega
      · rintro _ ⟨⟩
        exact (isDnode_footerFlag (by omega)).mpr (by simp only [nids]; omega)
      · dsimp only at lt
        omega
      · simp only [List.forall_mem_cons, List.not_mem_nil, false_implies, implies_true, and_true]
        omega
  | @indirect which child slot which_lt child_lt slot_lt =>
      have start := @startBidxOfNode_direct inlineXattr _ _
        (.inr (.inl ⟨which, which_lt, child, child_lt, rfl, rfl⟩))
      simp only [nids] at start child_lt ⊢
      refine ⟨offset_length, noffset_length, ?_, ?_, fun _ => ?_, fun depth pos lt => ?_, ?_,
        fun depth pos lt => ?_, ?_⟩
      · rintro _ ⟨⟩ _ ⟨⟩
        rw [start]
      · rintro _ ⟨⟩
        exact slot_lt
      · rintro _ ⟨⟩
        simp only [nodeDir1Block, nodeInd1Block, nodeDindBlock]
        omega
      · obtain rfl : depth = 1 := by dsimp only at lt; omega
        rintro _ ⟨⟩
        exact child_lt
      · rintro _ ⟨⟩
        exact (isDnode_footerFlag (by omega)).mpr (by simp only [nids]; omega)
      · obtain rfl : depth = 1 := by dsimp only at lt; omega
        rintro _ ⟨⟩
        rw [Bool.eq_false_iff, ne_eq, isDnode_footerFlag (by omega), nids]
        omega
      · simp only [List.forall_mem_cons, List.not_mem_nil, false_implies, implies_true, and_true]
        omega
  | @double first second slot first_lt second_lt slot_lt =>
      have start := @startBidxOfNode_direct inlineXattr _ _
        (.inr (.inr ⟨first, first_lt, second, second_lt, rfl, rfl⟩))
      simp only [nids] at start first_lt second_lt ⊢
      refine ⟨offset_length, noffset_length, ?_, ?_, fun _ => ?_, fun depth pos lt => ?_, ?_,
        fun depth pos lt => ?_, ?_⟩
      · rintro _ ⟨⟩ _ ⟨⟩
        rw [start]
      · rintro _ ⟨⟩
        exact slot_lt
      · rintro _ ⟨⟩
        simp only [nodeDir1Block, nodeDindBlock]
        omega
      · obtain rfl | rfl : depth = 1 ∨ depth = 2 := by dsimp only at lt; omega
        · rintro _ ⟨⟩
          exact first_lt
        · rintro _ ⟨⟩
          exact second_lt
      · rintro _ ⟨⟩
        exact (isDnode_footerFlag (by omega)).mpr (by simp only [nids]; omega)
      · obtain rfl | rfl : depth = 1 ∨ depth = 2 := by dsimp only at lt; omega
        · rintro _ ⟨⟩
          rw [Bool.eq_false_iff, ne_eq, isDnode_footerFlag (by omega), nids]
          omega
        · rintro _ ⟨⟩
          rw [Bool.eq_false_iff, ne_eq, isDnode_footerFlag (by omega), nids]
          omega
      · simp only [List.forall_mem_cons, List.not_mem_nil, false_implies, implies_true, and_true]
        omega

/-- Every block of a file has a path, whose numbers lead back to it; and nodes at different places
of the tree have different numbers. -/
theorem nodePath_inverse {inlineXattr : Bool} {block : Nat}
    (block_lt : block < maxFileBlocks inlineXattr) :
    ∃ path, getNodePath inlineXattr block = some path ∧ path.Inverse inlineXattr block ∧
      ∀ block' < maxFileBlocks inlineXattr, ∀ path', getNodePath inlineXattr block' = some path' →
        ∀ depth ≤ path.level, ∀ depth' ≤ path'.level, path.noffset[depth]? = path'.noffset[depth']? →
          depth = depth' ∧ path.offset.take depth = path'.offset.take depth' := by
  obtain ⟨path, found, shape⟩ := getNodePath_shape block_lt
  refine ⟨path, found, shape.inverse, fun block' block_lt' path' found' depth depth_le depth'
    depth_le' same => ?_⟩
  obtain ⟨path'', found'', shape'⟩ := getNodePath_shape block_lt'
  obtain rfl := Option.some.inj (found'.symm.trans found'')
  have ways : path.offset.take depth = path'.offset.take depth' := by
    have way := congrArg (·[depth]?) shape.position
    have way' := congrArg (·[depth']?) shape'.position
    simp only [List.getElem?_map] at way way'
    rw [same, way', List.getElem?_range (by omega), List.getElem?_range (by omega)] at way
    exact (Option.some.inj way).symm
  refine ⟨?_, ways⟩
  have lengths := congrArg List.length ways
  rw [List.length_take, List.length_take, shape.length.1, shape'.length.1] at lengths
  omega

theorem nodePath_inverse_last : ∃ path,
    getNodePath true 1057053388 = some path ∧ path.Inverse true 1057053388 ∧
      ∀ block' < maxFileBlocks true, ∀ path', getNodePath true block' = some path' →
        ∀ depth ≤ path.level, ∀ depth' ≤ path'.level, path.noffset[depth]? = path'.noffset[depth']? →
          depth = depth' ∧ path.offset.take depth = path'.offset.take depth' :=
  nodePath_inverse (by decide)

/-- `get_node_path` accepts no other block. -/
theorem getNodePath_isSome_iff {inlineXattr : Bool} {block : Nat} :
    (getNodePath inlineXattr block).isSome ↔ block < maxFileBlocks inlineXattr := by
  have addrs : addrsPerBlock = 1018 := rfl
  have nids : nidsPerBlock = 1018 := rfl
  constructor
  · intro accepted
    by_contra late
    rw [maxFileBlocks] at late
    simp only [getNodePath, addrs, nids] at accepted
    rw [if_neg (by omega), if_neg (by omega), if_neg (by omega), if_neg (by omega),
      if_neg (by omega), if_neg (by omega)] at accepted
    contradiction
  · intro block_lt
    obtain ⟨path, found, -⟩ := getNodePath_shape block_lt
    rw [found]
    rfl

theorem PathShape.block_lt {inlineXattr : Bool} {block : Nat} {path : NodePath}
    (shape : PathShape inlineXattr block path) : block < maxFileBlocks inlineXattr := by
  have addrs : addrsPerBlock = 1018 := rfl
  have nids : nidsPerBlock = 1018 := rfl
  rw [maxFileBlocks]
  cases shape with
  | inode slot_lt => omega
  | direct which_lt slot_lt =>
    rw [addrs] at slot_lt ⊢
    omega
  | indirect which_lt child_lt slot_lt =>
    rw [addrs] at slot_lt ⊢
    rw [nids] at child_lt ⊢
    omega
  | double first_lt second_lt slot_lt =>
    rw [addrs] at slot_lt ⊢
    rw [nids] at first_lt second_lt ⊢
    omega

/-- A block has one place in the tree. -/
theorem PathShape.unique {inlineXattr : Bool} {block : Nat} {path path' : NodePath}
    (shape : PathShape inlineXattr block path) (shape' : PathShape inlineXattr block path') :
    path = path' := by
  have addrs : addrsPerBlock = 1018 := rfl
  have nids : nidsPerBlock = 1018 := rfl
  generalize same : block = block' at shape'
  cases shape with
  | inode slot_lt =>
    cases shape' with
    | inode slot_lt' => rw [same]
    | _ =>
      simp only [addrs, nids] at *
      omega
  | @direct which slot which_lt slot_lt =>
    cases shape' with
    | @direct which' slot' which_lt' slot_lt' =>
      simp only [addrs] at *
      obtain rfl : which = which' := by omega
      obtain rfl : slot = slot' := by omega
      rfl
    | _ =>
      simp only [addrs, nids] at *
      omega
  | @indirect which child slot which_lt child_lt slot_lt =>
    cases shape' with
    | @indirect which' child' slot' which_lt' child_lt' slot_lt' =>
      simp only [addrs, nids] at same child_lt child_lt' slot_lt slot_lt'
      obtain rfl : which = which' := by omega
      obtain rfl : child = child' := by omega
      obtain rfl : slot = slot' := by omega
      rfl
    | _ =>
      simp only [addrs, nids] at *
      omega
  | @double first second slot first_lt second_lt slot_lt =>
    cases shape' with
    | @double first' second' slot' first_lt' second_lt' slot_lt' =>
      simp only [addrs, nids] at same second_lt second_lt' slot_lt slot_lt'
      obtain rfl : first = first' := by omega
      obtain rfl : second = second' := by omega
      obtain rfl : slot = slot' := by omega
      rfl
    | _ =>
      simp only [addrs, nids] at *
      omega

/-- The places that `get_node_path` finds. -/
theorem PathShape.getNodePath {inlineXattr : Bool} {block : Nat} {path : NodePath}
    (shape : PathShape inlineXattr block path) : getNodePath inlineXattr block = some path := by
  obtain ⟨found, run, shape'⟩ := getNodePath_shape shape.block_lt
  rw [run, shape.unique shape']

end F2fs
end StorageStack
