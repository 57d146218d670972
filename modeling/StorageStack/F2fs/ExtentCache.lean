import StorageStack.F2fs.NodePath

/-!
# The extent cache of an inode

An inode remembers one run of blocks of its file that are consecutive on the disk.
`update_extent_cache` sets a block address in the tree of nodes and adapts the run;
`check_extent_cache` answers a lookup from it without the tree.
-/

namespace StorageStack
namespace F2fs

/-- `F2FS_MIN_EXTENT_LEN`. -/
def minExtentLen : Nat := 16

/-- `struct extent_info`. -/
structure ExtentInfo where
  fofs : Nat
  blkAddr : Nat
  len : Nat
deriving DecidableEq, Repr

/-- A slot of a direct node of a file, or of its inode: what a `dnode_of_data` stands for. -/
structure Dnode where
  ofsOfNode : Nat
  ofsInNode : Nat
deriving DecidableEq, Repr

/-- A file: the block addresses in its nodes, with `NULL_ADDR` in a node that does not exist, and its
extent; `noExtent` is `FI_NO_EXTENT`. -/
structure ExtentInode where
  inlineXattr : Bool
  addrs : Dnode → Nat
  ext : ExtentInfo
  noExtent : Bool

namespace ExtentInode

variable (inode : ExtentInode)

/-- The slot that `get_dnode_of_data` finds for a block. -/
def dnodeOf (block : Nat) : Option Dnode :=
  (getNodePath inode.inlineXattr block).bind fun path =>
    (path.noffset[path.level]?).bind fun nodeOfs =>
      (path.offset[path.level]?).map fun slot => ⟨nodeOfs, slot⟩

/-- The address of a block in the tree. -/
def lookup (block : Nat) : Nat := ((inode.dnodeOf block).map inode.addrs).getD nullAddr

/-- The block of a slot. -/
def fofsOf (dn : Dnode) : Nat := startBidxOfNode inode.inlineXattr dn.ofsOfNode + dn.ofsInNode

def setDataBlkaddr (dn : Dnode) (newAddr : Nat) : ExtentInode :=
  { inode with addrs := Function.update inode.addrs dn newAddr }

/-- The extent after the address of block `fofs` has been set, and whether the file loses its
extent. -/
def adaptExtent (ext : ExtentInfo) (fofs blkAddr : Nat) : ExtentInfo × Bool :=
  let startFofs := ext.fofs
  let endFofs := sub32 (ext.fofs + ext.len) 1
  let startBlkaddr := ext.blkAddr
  let endBlkaddr := sub32 (ext.blkAddr + ext.len) 1
  let ext := if ext.len = 1 ∧ fofs = startFofs then { ext with len := 0 } else ext
  if ext.len = 0 then
    (if blkAddr ≠ nullAddr then ⟨fofs, blkAddr, 1⟩ else ext, false)
  else if fofs + 1 = startFofs ∧ blkAddr = sub32 startBlkaddr 1 then
    (⟨ext.fofs - 1, sub32 ext.blkAddr 1, ext.len + 1⟩, false)
  else if fofs = endFofs + 1 ∧ blkAddr = (endBlkaddr + 1) % 2 ^ 32 then
    ({ ext with len := ext.len + 1 }, false)
  else
    let ext :=
      if 1 < ext.len ∧ startFofs ≤ fofs ∧ fofs ≤ endFofs then
        if endFofs - fofs < ext.len / 2 then { ext with len := fofs - startFofs }
        else
          ⟨fofs + 1, (startBlkaddr + (fofs - startFofs) + 1) % 2 ^ 32, ext.len - (fofs - startFofs + 1)⟩
      else ext
    if ext.len < minExtentLen then ({ ext with len := 0 }, true) else (ext, false)

def updateExtentCache (blkAddr : Nat) (dn : Dnode) : ExtentInode :=
  let inode := inode.setDataBlkaddr dn blkAddr
  if inode.noExtent then inode
  else
    let adapted := adaptExtent inode.ext (inode.fofsOf dn) blkAddr
    { inode with ext := adapted.1, noExtent := adapted.2 }

/-- `reserve_new_block`; with an error nothing changes. -/
def reserveNewBlock (error : Bool) (dn : Dnode) : ExtentInode :=
  if error then inode else inode.setDataBlkaddr dn newAddr

/-- `__allocate_data_block` of a direct write; with an error nothing changes. -/
def allocateDataBlock (error : Bool) (newBlkaddr : Nat) (dn : Dnode) : ExtentInode :=
  if error then inode
  else
    let reserved := inode.setDataBlkaddr dn newAddr
    let updated := { reserved with noExtent := true }.updateExtentCache newBlkaddr dn
    { updated with noExtent := false }

/-- `blkbits`. -/
def blkbits : Nat := 12

/-- `check_extent_cache`: the block and `b_size` of a hit. -/
def checkExtentCache (pgofs : Nat) : Option (Nat × Nat) :=
  if inode.noExtent then none
  else if inode.ext.len = 0 then none
  else
    let startFofs := inode.ext.fofs
    let endFofs := sub32 (inode.ext.fofs + inode.ext.len) 1
    if startFofs ≤ pgofs ∧ pgofs ≤ endFofs then
      let count := endFofs - pgofs + 1
      some ((inode.ext.blkAddr + pgofs - startFofs) % 2 ^ 32,
        if count < (2 ^ 32 - 1) >>> blkbits then count <<< blkbits else 2 ^ 32 - 1)
    else none

end ExtentInode

/-- A block of the main area; blocks 0 and 1 hold the superblocks. -/
def DataAddr (addr : Nat) : Prop := 1 < addr ∧ addr < newAddr

/-- The extent says what the file says. -/
structure ExtentInfo.Covers (ext : ExtentInfo) (lookup : Nat → Nat) : Prop where
  maps : ∀ offset < ext.len, lookup (ext.fofs + offset) = ext.blkAddr + offset
  addrs : 0 < ext.len → 1 < ext.blkAddr ∧ ext.blkAddr + ext.len ≤ newAddr
  below : 0 < ext.len → ext.fofs + ext.len < 2 ^ 32

namespace ExtentInfo

variable {ext : ExtentInfo} {lookup : Nat → Nat}

theorem Covers.of_len_zero (empty : ext.len = 0) : ext.Covers lookup where
  maps offset offset_lt := by omega
  addrs positive := by omega
  below positive := by omega

/-- A run inside the extent. -/
theorem Covers.part (covers : ext.Covers lookup) {skip len : Nat} (inside : skip + len ≤ ext.len) :
    Covers ⟨ext.fofs + skip, ext.blkAddr + skip, len⟩ lookup where
  maps offset offset_lt := by
    dsimp only at offset_lt ⊢
    rw [Nat.add_assoc, covers.maps (skip + offset) (by omega), Nat.add_assoc]
  addrs positive := by
    dsimp only at positive ⊢
    have bounds := covers.addrs (by omega)
    omega
  below positive := by
    dsimp only at positive ⊢
    have bound := covers.below (by omega)
    omega

/-- A change outside the extent. -/
theorem Covers.update (covers : ext.Covers lookup) {fofs addr : Nat}
    (outside : fofs < ext.fofs ∨ ext.fofs + ext.len ≤ fofs) :
    ext.Covers (Function.update lookup fofs addr) where
  maps offset offset_lt := by
    rw [Function.update_of_ne (by omega), covers.maps offset offset_lt]
  addrs := covers.addrs
  below := covers.below

theorem covers_single {fofs addr : Nat} (data : DataAddr addr) (small : fofs + 1 < 2 ^ 32) :
    Covers ⟨fofs, addr, 1⟩ (Function.update lookup fofs addr) where
  maps offset offset_lt := by
    obtain rfl : offset = 0 := by dsimp only at offset_lt; omega
    exact Function.update_self ..
  addrs _ := ⟨data.1, Nat.succ_le_of_lt data.2⟩
  below _ := small

/-- The extent grows at its front. -/
theorem Covers.front (covers : ext.Covers lookup) (positive : 0 < ext.len) {fofs addr : Nat}
    (before : fofs + 1 = ext.fofs) (addr_eq : addr + 1 = ext.blkAddr) (data : DataAddr addr) :
    Covers ⟨fofs, addr, ext.len + 1⟩ (Function.update lookup fofs addr) where
  maps offset offset_lt := by
    dsimp only at offset_lt ⊢
    cases offset with
    | zero => exact Function.update_self ..
    | succ offset =>
        have maps := covers.maps offset (by omega)
        rw [Function.update_of_ne (by omega)]
        rw [← before, ← addr_eq, Nat.add_assoc, Nat.add_comm 1, Nat.add_assoc, Nat.add_comm 1] at maps
        exact maps
  addrs _ := by
    have bounds := covers.addrs positive
    exact ⟨data.1, by dsimp only; omega⟩
  below _ := by
    have bound := covers.below positive
    dsimp only
    omega

/-- The extent grows at its back. -/
theorem Covers.back (covers : ext.Covers lookup) (positive : 0 < ext.len) {fofs addr : Nat}
    (behind : fofs = ext.fofs + ext.len) (addr_eq : addr = ext.blkAddr + ext.len)
    (data : DataAddr addr) (small : fofs + 1 < 2 ^ 32) :
    Covers { ext with len := ext.len + 1 } (Function.update lookup fofs addr) where
  maps offset offset_lt := by
    dsimp only at offset_lt ⊢
    rcases Nat.lt_succ_iff_lt_or_eq.mp offset_lt with inside | rfl
    · rw [Function.update_of_ne (by omega), covers.maps offset inside]
    · rw [← behind, ← addr_eq, Function.update_self]
  addrs _ := by
    have bounds := covers.addrs positive
    have limit := data.2
    exact ⟨bounds.1, by dsimp only; omega⟩
  below _ := by
    dsimp only
    omega

/-- What `update_extent_cache` makes of the extent. -/
theorem Covers.adapt (covers : ext.Covers lookup) {fofs addr : Nat} (small : fofs + 1 < 2 ^ 32)
    (valid : addr = nullAddr ∨ DataAddr addr) :
    (ExtentInode.adaptExtent ext fofs addr).1.Covers (Function.update lookup fofs addr) ∧
      ((ExtentInode.adaptExtent ext fofs addr).2 = true →
        (ExtentInode.adaptExtent ext fofs addr).1.len = 0) := by
  have initial : ∀ empty : ExtentInfo, empty.len = 0 →
      Covers (if addr ≠ nullAddr then ⟨fofs, addr, 1⟩ else empty)
        (Function.update lookup fofs addr) := by
    intro empty len_eq
    split
    · next nonnull => exact covers_single (valid.resolve_left nonnull) small
    · exact .of_len_zero len_eq
  simp only [ExtentInode.adaptExtent]
  by_cases single : ext.len = 1 ∧ fofs = ext.fofs
  · rw [if_pos single, if_pos rfl]
    exact ⟨initial _ rfl, fun flag => absurd flag Bool.false_ne_true⟩
  rw [if_neg single]
  split
  · next empty => exact ⟨initial _ empty, fun flag => absurd flag Bool.false_ne_true⟩
  next nonempty =>
  have positive : 0 < ext.len := Nat.pos_of_ne_zero nonempty
  have bounds := covers.addrs positive
  have bound := covers.below positive
  have limit : newAddr = 2 ^ 32 - 1 := rfl
  have nonnull : ∀ other, 0 < other → addr = other → DataAddr addr := by
    intro other other_pos same
    refine valid.resolve_left fun null => ?_
    rw [nullAddr] at null
    omega
  rw [sub32_of_le (by omega) (by omega), sub32_of_le (by omega) (by omega),
    sub32_of_le (by omega) (by omega), Nat.sub_add_cancel (by omega),
    Nat.sub_add_cancel (by omega), Nat.mod_eq_of_lt (by omega : ext.blkAddr + ext.len < 2 ^ 32)]
  split
  · next front =>
      obtain ⟨before, addr_eq⟩ := front
      rw [show ext.fofs - 1 = fofs by omega, ← addr_eq]
      exact ⟨covers.front positive before (by omega) (nonnull _ (by omega) addr_eq),
        fun flag => absurd flag Bool.false_ne_true⟩
  split
  · next back =>
      obtain ⟨behind, addr_eq⟩ := back
      exact ⟨covers.back positive behind addr_eq (nonnull _ (by omega) addr_eq) small,
        fun flag => absurd flag Bool.false_ne_true⟩
  -- the longer part of a split extent is kept, and it does not have the changed block
  have kept : Covers (if 1 < ext.len ∧ ext.fofs ≤ fofs ∧ fofs ≤ ext.fofs + ext.len - 1 then
      if ext.fofs + ext.len - 1 - fofs < ext.len / 2 then { ext with len := fofs - ext.fofs }
      else ⟨fofs + 1, (ext.blkAddr + (fofs - ext.fofs) + 1) % 2 ^ 32,
        ext.len - (fofs - ext.fofs + 1)⟩
    else ext) (Function.update lookup fofs addr) := by
    split
    · next inside =>
        split
        · next late =>
            have part := covers.part (show 0 + (fofs - ext.fofs) ≤ ext.len by omega)
            exact part.update (.inr (by dsimp only; omega))
        · next early =>
            have part := covers.part
              (show fofs - ext.fofs + 1 + (ext.len - (fofs - ext.fofs + 1)) ≤ ext.len by omega)
            rw [show ext.fofs + (fofs - ext.fofs + 1) = fofs + 1 by omega, ← Nat.add_assoc] at part
            rw [Nat.mod_eq_of_lt (by omega)]
            exact part.update (.inl (by dsimp only; omega))
    · next outside => exact covers.update (by omega)
  generalize (if 1 < ext.len ∧ ext.fofs ≤ fofs ∧ fofs ≤ ext.fofs + ext.len - 1 then
      if ext.fofs + ext.len - 1 - fofs < ext.len / 2 then { ext with len := fofs - ext.fofs }
      else ⟨fofs + 1, (ext.blkAddr + (fofs - ext.fofs) + 1) % 2 ^ 32,
        ext.len - (fofs - ext.fofs + 1)⟩
    else ext) = left at kept ⊢
  split
  · exact ⟨.of_len_zero rfl, fun _ => rfl⟩
  · exact ⟨kept, fun flag => absurd flag Bool.false_ne_true⟩

end ExtentInfo

namespace ExtentInode

variable {inode : ExtentInode}

/-- The slot of a block leads back to it. -/
theorem fofsOf_dnodeOf {block : Nat} {dn : Dnode} (found : inode.dnodeOf block = some dn) :
    inode.fofsOf dn = block ∧ block < maxFileBlocks inode.inlineXattr := by
  simp only [dnodeOf, Option.bind_eq_some_iff, Option.map_eq_some_iff] at found
  obtain ⟨path, path_eq, nodeOfs, nodeOfs_eq, slot, slot_eq, rfl⟩ := found
  have block_lt := getNodePath_isSome_iff.mp (Option.isSome_iff_exists.mpr ⟨path, path_eq⟩)
  obtain ⟨path', path_eq', shape⟩ := getNodePath_shape block_lt
  obtain rfl := Option.some.inj (path_eq.symm.trans path_eq')
  exact ⟨shape.inverse.block_eq nodeOfs nodeOfs_eq slot slot_eq, block_lt⟩

/-- A change of one slot changes the lookup of its block only. -/
theorem lookup_setDataBlkaddr {block : Nat} {dn : Dnode} (found : inode.dnodeOf block = some dn)
    (addr : Nat) :
    (inode.setDataBlkaddr dn addr).lookup = Function.update inode.lookup block addr := by
  funext other
  have same_slots : (inode.setDataBlkaddr dn addr).dnodeOf other = inode.dnodeOf other := rfl
  rw [lookup, same_slots]
  rcases eq_or_ne other block with rfl | different
  · rw [found, Function.update_self]
    exact Function.update_self ..
  · rw [Function.update_of_ne different, lookup]
    cases found' : inode.dnodeOf other with
    | none => rfl
    | some dn' =>
        have other_dn : dn' ≠ dn := by
          rintro rfl
          exact different ((fofsOf_dnodeOf found').1.symm.trans (fofsOf_dnodeOf found).1)
        exact Function.update_of_ne other_dn ..

/-- The extent says what the tree says, and there is none without extent. -/
structure Right (inode : ExtentInode) : Prop where
  covers : inode.ext.Covers inode.lookup
  noExtent : inode.noExtent = true → inode.ext.len = 0

theorem maxFileBlocks_lt (inlineXattr : Bool) : maxFileBlocks inlineXattr < 2 ^ 31 := by
  cases inlineXattr <;> decide

theorem Right.updateExtentCache (right : inode.Right) {block addr : Nat} {dn : Dnode}
    (found : inode.dnodeOf block = some dn) (valid : addr = nullAddr ∨ DataAddr addr) :
    (inode.updateExtentCache addr dn).Right := by
  obtain ⟨fofs_eq, block_lt⟩ := fofsOf_dnodeOf found
  have small := maxFileBlocks_lt inode.inlineXattr
  have lookup_eq := lookup_setDataBlkaddr found addr
  rw [ExtentInode.updateExtentCache]
  split
  · next flag => exact ⟨.of_len_zero (right.noExtent flag), right.noExtent⟩
  · have adapted := right.covers.adapt (show block + 1 < 2 ^ 32 by omega) valid
    rw [← lookup_eq, ← fofs_eq] at adapted
    exact ⟨adapted.1, adapted.2⟩

/-- A hole is not in the extent. -/
theorem Right.outside (right : inode.Right) {block : Nat} (hole : inode.lookup block = nullAddr) :
    block < inode.ext.fofs ∨ inode.ext.fofs + inode.ext.len ≤ block := by
  by_contra! inside
  have maps := right.covers.maps (block - inode.ext.fofs) (by omega)
  have bounds := right.covers.addrs (by omega)
  rw [Nat.add_sub_cancel' inside.1, hole, nullAddr] at maps
  omega

theorem Right.reserveNewBlock (right : inode.Right) {block : Nat} {dn : Dnode}
    (found : inode.dnodeOf block = some dn) (hole : inode.lookup block = nullAddr) (error : Bool) :
    (inode.reserveNewBlock error dn).Right := by
  rw [ExtentInode.reserveNewBlock]
  split
  · exact right
  · refine ⟨?_, right.noExtent⟩
    rw [lookup_setDataBlkaddr found]
    exact right.covers.update (right.outside hole)

theorem Right.allocateDataBlock (right : inode.Right) {block addr : Nat} {dn : Dnode}
    (found : inode.dnodeOf block = some dn) (hole : inode.lookup block = nullAddr) (error : Bool) :
    (inode.allocateDataBlock error addr dn).Right := by
  rw [ExtentInode.allocateDataBlock]
  split
  · exact right
  · refine ⟨?_, fun flag => absurd flag Bool.false_ne_true⟩
    have outside := right.outside hole
    have reserved : (inode.setDataBlkaddr dn newAddr).ext.Covers
        (inode.setDataBlkaddr dn newAddr).lookup := by
      rw [lookup_setDataBlkaddr found]
      exact right.covers.update outside
    have updated := @ExtentInfo.Covers.update _ _ reserved block addr outside
    have found' : (inode.setDataBlkaddr dn newAddr).dnodeOf block = some dn := found
    rw [← lookup_setDataBlkaddr found'] at updated
    exact updated

/-! ## Runs -/

/-- A call for a block of the file. -/
inductive Op
  | update (block addr : Nat)
  | reserve (block : Nat) (error : Bool)
  | allocate (block addr : Nat) (error : Bool)
deriving DecidableEq, Repr

/-- A step; it has no result for a block without a slot. -/
def step (inode : ExtentInode) : Op → Option ExtentInode
  | .update block addr => (inode.dnodeOf block).map fun dn => inode.updateExtentCache addr dn
  | .reserve block error => (inode.dnodeOf block).map fun dn => inode.reserveNewBlock error dn
  | .allocate block addr error =>
      (inode.dnodeOf block).map fun dn => inode.allocateDataBlock error addr dn

/-- New addresses are of the main area, and only holes get a new block. -/
def Admits (inode : ExtentInode) : Op → Prop
  | .update _ addr => addr = nullAddr ∨ DataAddr addr
  | .reserve block _ => inode.lookup block = nullAddr
  | .allocate block addr _ => inode.lookup block = nullAddr ∧ DataAddr addr

/-- The states that admitted calls lead to. -/
inductive Reaches (start : ExtentInode) : ExtentInode → Prop
  | refl : Reaches start start
  | tail {inode next : ExtentInode} {op : Op} (reached : Reaches start inode)
      (admits : inode.Admits op) (stepped : inode.step op = some next) : Reaches start next

theorem Right.step {next : ExtentInode} {op : Op} (right : inode.Right) (admits : inode.Admits op)
    (stepped : inode.step op = some next) : next.Right := by
  cases op with
  | update block addr =>
      obtain ⟨dn, found, rfl⟩ := Option.map_eq_some_iff.mp stepped
      exact right.updateExtentCache found admits
  | reserve block error =>
      obtain ⟨dn, found, rfl⟩ := Option.map_eq_some_iff.mp stepped
      exact right.reserveNewBlock found admits error
  | allocate block addr error =>
      obtain ⟨dn, found, rfl⟩ := Option.map_eq_some_iff.mp stepped
      exact right.allocateDataBlock found admits.1 error

theorem Reaches.right {start final : ExtentInode} (reached : Reaches start final)
    (right : start.Right) : final.Right := by
  induction reached with
  | refl => exact right
  | tail _ admits stepped ih => exact ih.step admits stepped

theorem right_of_len_zero (empty : inode.ext.len = 0) : inode.Right :=
  ⟨.of_len_zero empty, fun _ => empty⟩

/-- The buffer of a hit covers the block that was asked for. -/
theorem covered_of_hit {pgofs blocknr size : Nat}
    (hit : inode.checkExtentCache pgofs = some (blocknr, size)) : 0 < size >>> blkbits := by
  simp only [ExtentInode.checkExtentCache, Option.ite_none_left_eq_some,
    Option.ite_none_right_eq_some, Option.some.injEq, Prod.mk.injEq] at hit
  obtain ⟨-, -, -, -, size_eq⟩ := hit
  rw [← size_eq, blkbits]
  split
  · rw [Nat.shiftLeft_eq, Nat.shiftRight_eq_div_pow, Nat.mul_div_cancel _ (by omega)]
    exact Nat.succ_pos _
  · decide

/-- A hit is what the tree says, for all blocks that the buffer covers. -/
theorem Right.checkExtentCache (right : inode.Right) {pgofs blocknr size : Nat}
    (hit : inode.checkExtentCache pgofs = some (blocknr, size)) {offset : Nat}
    (covered : offset < size >>> blkbits) : inode.lookup (pgofs + offset) = blocknr + offset := by
  rw [ExtentInode.checkExtentCache] at hit
  split at hit
  · contradiction
  split at hit
  · contradiction
  next nonempty =>
  have positive := Nat.pos_of_ne_zero nonempty
  have bounds := right.covers.addrs positive
  have bound := right.covers.below positive
  have limit : newAddr = 2 ^ 32 - 1 := rfl
  have ends : sub32 (inode.ext.fofs + inode.ext.len) 1 = inode.ext.fofs + inode.ext.len - 1 :=
    sub32_of_le (by omega) (by omega)
  simp only [ends] at hit
  split at hit
  · next inside =>
      obtain ⟨blocknr_eq, size_eq⟩ := Prod.mk.inj (Option.some.inj hit)
      rw [Nat.mod_eq_of_lt (by omega)] at blocknr_eq
      have fits : pgofs - inode.ext.fofs + offset < inode.ext.len := by
        have bits : size >>> blkbits ≤ inode.ext.fofs + inode.ext.len - 1 - pgofs + 1 := by
          rw [← size_eq, blkbits]
          split
          · rw [Nat.shiftLeft_eq, Nat.shiftRight_eq_div_pow, Nat.mul_div_cancel _ (by omega)]
          · next large => exact Nat.not_lt.mp large
        omega
      have maps := right.covers.maps _ fits
      rw [show inode.ext.fofs + (pgofs - inode.ext.fofs + offset) = pgofs + offset by omega] at maps
      rw [maps]
      omega
  · cases hit

/-- In every state that calls lead to from an inode without extent, or with one that is right, the
extent says what the tree says, and so does every hit. -/
theorem extentCache_right {start final : ExtentInode} (right : start.Right)
    (reached : Reaches start final) :
    (∀ offset < final.ext.len,
        final.lookup (final.ext.fofs + offset) = final.ext.blkAddr + offset ∧
          DataAddr (final.ext.blkAddr + offset)) ∧
      ∀ pgofs blocknr size, final.checkExtentCache pgofs = some (blocknr, size) →
        0 < size >>> blkbits ∧
          ∀ offset < size >>> blkbits, final.lookup (pgofs + offset) = blocknr + offset := by
  have right' := reached.right right
  refine ⟨fun offset offset_lt => ⟨right'.covers.maps offset offset_lt, ?_⟩,
    fun pgofs blocknr size hit =>
      ⟨covered_of_hit hit, fun offset covered => right'.checkExtentCache hit covered⟩⟩
  have bounds := right'.covers.addrs (by omega)
  exact ⟨by omega, by omega⟩

/-- A new file. -/
def fresh : ExtentInode := ⟨false, fun _ => nullAddr, ⟨0, 0, 0⟩, false⟩

/-- The first two blocks of a new file. -/
theorem extentCache_right_fresh :
    let final := (fresh.updateExtentCache 100 ⟨0, 0⟩).updateExtentCache 101 ⟨0, 1⟩
    final.ext = ⟨0, 100, 2⟩ ∧
      (∀ offset < final.ext.len,
        final.lookup (final.ext.fofs + offset) = final.ext.blkAddr + offset ∧
          DataAddr (final.ext.blkAddr + offset)) ∧
      ∀ pgofs blocknr size, final.checkExtentCache pgofs = some (blocknr, size) →
        0 < size >>> blkbits ∧
          ∀ offset < size >>> blkbits, final.lookup (pgofs + offset) = blocknr + offset := by
  have first : fresh.step (.update 0 100) = some (fresh.updateExtentCache 100 ⟨0, 0⟩) := by
    have found : fresh.dnodeOf 0 = some ⟨0, 0⟩ := by decide
    rw [step, found]
    rfl
  have second : (fresh.updateExtentCache 100 ⟨0, 0⟩).step (.update 1 101) =
      some ((fresh.updateExtentCache 100 ⟨0, 0⟩).updateExtentCache 101 ⟨0, 1⟩) := by
    have found : (fresh.updateExtentCache 100 ⟨0, 0⟩).dnodeOf 1 = some ⟨0, 1⟩ := by decide
    rw [step, found]
    rfl
  have admits : ∀ (inode : ExtentInode) (block : Nat), ∀ addr ∈ [100, 101],
      inode.Admits (.update block addr) := by
    intro inode block addr member
    refine Or.inr ?_
    rcases List.mem_pair.mp member with rfl | rfl <;> exact ⟨by decide, by decide⟩
  refine ⟨by decide, extentCache_right (right_of_len_zero (rfl : fresh.ext.len = 0)) ?_⟩
  exact (Reaches.refl.tail (admits _ 0 100 (by decide)) first).tail (admits _ 1 101 (by decide)) second

end ExtentInode

end F2fs
end StorageStack
