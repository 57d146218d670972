import StorageStack.F2fs.CheckpointHistory
import StorageStack.F2fs.NatHistory

/-!
# Checkpoints are atomic

The two packs take turns, so the last one stays as it is while the next one is written.  The new pack
is valid with its last block and not before, and its version is the later one.
-/

namespace StorageStack
namespace F2fs

variable {image : RawCheckpoint → Page}

/-! ## Versions -/

theorem bit_zero_iff (version : BitVec 64) : version &&& 1 = 0 ↔ version.toNat % 2 = 0 := by
  have low : (version &&& 1).toNat = version.toNat % 2 := by
    rw [BitVec.toNat_and]
    exact Nat.and_one_is_mod version.toNat
  rw [← BitVec.toNat_inj, low]
  rfl

/-- The next version has the other parity, also behind the last one. -/
theorem parity_succ (version : BitVec 64) : version + 1 &&& 1 = 0 ↔ ¬ version &&& 1 = 0 := by
  rw [bit_zero_iff, bit_zero_iff, BitVec.toNat_add]
  have one : (1 : BitVec 64).toNat = 1 := rfl
  rw [one]
  omega

theorem verAfter_succ (version : BitVec 64) :
    verAfter (version + 1) version = true ∧ verAfter version (version + 1) = false := by
  have up : version + 1 - version = 1 := by bv_omega
  have down : version - (version + 1) = -1 := by bv_omega
  constructor
  · rw [verAfter, up]
    decide
  · rw [verAfter, down]
    decide

/-- Whether a version uses the second segment. -/
def usesSecond (version : BitVec 64) : Bool := decide (version &&& 1 = 0)

theorem startCpAddr_eq (sup : CpSuper) (version : BitVec 64) :
    startCpAddr sup version = sup.packAddr (usesSecond version) := by
  rw [startCpAddr, CpSuper.packAddr, usesSecond]
  simp only [decide_eq_true_eq]

theorem usesSecond_succ (version : BitVec 64) :
    usesSecond (version + 1) = !usesSecond version := by
  rw [usesSecond, usesSecond, decide_eq_decide.mpr (parity_succ version), decide_not]

theorem packAddr_injective (sup : CpSuper) {left right : Bool}
    (same : sup.packAddr left = sup.packAddr right) : left = right := by
  have positive := sup.sbi.blocksPerSeg_pos
  cases left <;> cases right <;> simp [CpSuper.packAddr] at same ⊢ <;> omega

/-! ## Reading a pack -/

/-- Two devices agree on the segment of a pack. -/
def AgreeOn (sup : CpSuper) (second : Bool) (left right : Device Block) : Prop :=
  ∀ index < sup.sbi.blocksPerSeg,
    left (sup.packAddr second + index) = right (sup.packAddr second + index)

theorem validateCheckpoint_congr {sup : CpSuper} {left right : Device Block} {second : Bool}
    (heads : HeadsFit image sup right) (agree : AgreeOn sup second left right) :
    validateCheckpoint image left (sup.packAddr second) =
      validateCheckpoint image right (sup.packAddr second) := by
  have first := agree 0 sup.sbi.blocksPerSeg_pos
  rw [Nat.add_zero] at first
  unfold validateCheckpoint
  rw [first]
  cases head : right (sup.packAddr second) with
  | bytes page => rfl
  | checkpoint block =>
      dsimp only
      split
      · next valid =>
          obtain ⟨positive, fits⟩ := heads second block head valid
          have last := agree (block.raw.cpPackTotalBlockCount - 1) (by omega)
          rw [← Nat.add_sub_assoc (by omega)] at last
          rw [last]
      · rfl

theorem loadCheckpoint_congr {sup : CpSuper} {left right : Device Block} {second : Bool}
    {block : CpBlock} (fits : 1 + sup.cpPayload < sup.sbi.blocksPerSeg)
    (agree : AgreeOn sup second left right) :
    loadCheckpoint image sup left second block = loadCheckpoint image sup right second block := by
  unfold loadCheckpoint
  congr 1
  funext number
  split
  · next inside => rw [agree number (by omega)]
  · rfl

theorem validateCheckpoint_spec {device : Device Block} {cpAddr : Nat} {version : BitVec 64}
    {block : CpBlock} (valid : validateCheckpoint image device cpAddr = some (version, block)) :
    version = block.raw.checkpointVer ∧ device cpAddr = .checkpoint block ∧
      block.crcValid image = true := by
  unfold validateCheckpoint at valid
  cases head : device cpAddr with
  | bytes page =>
      rw [head] at valid
      cases valid
  | checkpoint first =>
      rw [head] at valid
      dsimp only at valid
      split at valid
      · next firstValid =>
          split at valid
          · cases valid
          · split at valid
            · next same =>
                cases valid
                exact ⟨same.2, rfl, firstValid⟩
            · cases valid
      · cases valid

/-- A checkpoint that is chosen has a valid pack. -/
theorem validate_of_getValidCheckpoint {sup : CpSuper} {device : Device Block}
    {valid : ValidCheckpoint} (chosen : getValidCheckpoint image sup device = some valid) :
    validateCheckpoint image device (sup.packAddr valid.second) =
        some (valid.block.raw.checkpointVer, valid.block) ∧
      valid = loadCheckpoint image sup device valid.second valid.block := by
  have loaded (second : Bool) (version : BitVec 64) (block : CpBlock)
      (found : validateCheckpoint image device (sup.packAddr second) = some (version, block))
      (equal : loadCheckpoint image sup device second block = valid) :
      validateCheckpoint image device (sup.packAddr valid.second) =
          some (valid.block.raw.checkpointVer, valid.block) ∧
        valid = loadCheckpoint image sup device valid.second valid.block := by
    subst equal
    constructor
    · change validateCheckpoint image device (sup.packAddr second) = some (block.raw.checkpointVer, block)
      rw [found, (validateCheckpoint_spec found).1]
    · rfl
  unfold getValidCheckpoint at chosen
  cases first : validateCheckpoint image device (sup.packAddr false) with
  | none =>
      cases second : validateCheckpoint image device (sup.packAddr true) with
      | none =>
          rw [first, second] at chosen
          cases chosen
      | some cp2 =>
          rw [first, second] at chosen
          exact loaded true cp2.1 cp2.2 second (Option.some.inj chosen)
  | some cp1 =>
      cases second : validateCheckpoint image device (sup.packAddr true) with
      | none =>
          rw [first, second] at chosen
          exact loaded false cp1.1 cp1.2 first (Option.some.inj chosen)
      | some cp2 =>
          rw [first, second] at chosen
          dsimp only at chosen
          split at chosen
          · exact loaded true cp2.1 cp2.2 second (Option.some.inj chosen)
          · exact loaded false cp1.1 cp1.2 first (Option.some.inj chosen)

/-- With one valid pack there is no choice. -/
theorem getValidCheckpoint_of_one {sup : CpSuper} {device : Device Block} {second : Bool}
    {version : BitVec 64} {block : CpBlock}
    (valid : validateCheckpoint image device (sup.packAddr second) = some (version, block))
    (invalid : validateCheckpoint image device (sup.packAddr !second) = none) :
    getValidCheckpoint image sup device = some (loadCheckpoint image sup device second block) := by
  unfold getValidCheckpoint
  cases second with
  | false =>
      rw [Bool.not_false] at invalid
      rw [valid, invalid]
  | true =>
      rw [Bool.not_true] at invalid
      rw [valid, invalid]

/-- Of two valid packs the later one is chosen. -/
theorem getValidCheckpoint_of_two {sup : CpSuper} {device : Device Block} {second : Bool}
    {version : BitVec 64} {block old : CpBlock}
    (new : validateCheckpoint image device (sup.packAddr second) = some (version + 1, block))
    (previous : validateCheckpoint image device (sup.packAddr !second) = some (version, old)) :
    getValidCheckpoint image sup device = some (loadCheckpoint image sup device second block) := by
  obtain ⟨later, earlier⟩ := verAfter_succ version
  unfold getValidCheckpoint
  cases second with
  | false =>
      rw [Bool.not_false] at previous
      rw [new, previous]
      dsimp only
      rw [earlier, if_neg Bool.false_ne_true]
  | true =>
      rw [Bool.not_true] at previous
      rw [new, previous]
      dsimp only
      rw [later, if_pos rfl]

theorem getValidCheckpoint_congr {sup : CpSuper} {left right : Device Block}
    (heads : HeadsFit image sup right) (fits : 1 + sup.cpPayload < sup.sbi.blocksPerSeg)
    (agree : ∀ second, AgreeOn sup second left right) :
    getValidCheckpoint image sup left = getValidCheckpoint image sup right := by
  unfold getValidCheckpoint
  rw [validateCheckpoint_congr heads (agree false), validateCheckpoint_congr heads (agree true)]
  simp only [loadCheckpoint_congr fits (agree false), loadCheckpoint_congr fits (agree true)]

/-! ## What a checkpoint writes -/

variable {sup : MetaSuper} {world : CpWorld} {call : CpCall sup} {written : CpWritten sup}

/-- The blocks of the pack and the tables behind them. -/
structure CpWrote (image : RawCheckpoint → Page) (call : CpCall sup) (written : CpWritten sup) :
    Prop where
  nat : NatFlushed sup.nat call.room call.nm written.nm
  sit : ∀ segno < sup.sbi.mainSegments,
    written.segments.sitPages (currentSitAddr sup.sbi call.segments.sit.sitBitmap segno) =
      call.segments.sitPages (currentSitAddr sup.sbi call.segments.sit.sitBitmap segno)
  cp : written.cp = call.flushed written.nm written.segments
  pack : ∃ pages : List Page, pages.length = getOrphanBlocks call.cp.orphans.length ∧
    written.pack = packWrites image call.stale sup.cp call.cpc.reason written.cp pages

theorem checkpointWrites_wrote (laidOut : sup.LaidOut) (admitted : CpAdmitted sup world call)
    (wrote : checkpointWrites image sup call = some written) : CpWrote image call written := by
  unfold checkpointWrites at wrote
  obtain ⟨nm, flushNat, rest⟩ := Option.bind_eq_some_iff.mp wrote
  obtain ⟨⟨segments, cpc⟩, flushSit, rest⟩ := Option.bind_eq_some_iff.mp rest
  obtain ⟨pack, made, rfl⟩ := Option.map_eq_some_iff.mp rest
  obtain ⟨_, flushNat', natFlushed⟩ := flushNatEntries_natFlushed call.room admitted.nat
  rw [flushNat] at flushNat'
  cases flushNat'
  have sitFlushed := flushSitEntries_flushed laidOut.sitFits admitted.sit flushSit
  refine ⟨natFlushed, sitFlushed.previous, rfl, ?_⟩
  obtain ⟨pages, made', length, _⟩ := @doCheckpoint_eq image call.stale sup.cp call.cpc.reason
    (call.flushed nm segments) admitted.listed
  rw [made] at made'
  cases made'
  exact ⟨pages, length, rfl⟩

theorem clearPrefreeSegments_sit {sbi : Sbi} {state next : State}
    (cleared : clearPrefreeSegments sbi state = some next) :
    next.sit = state.sit ∧ next.sitPages = state.sitPages := by
  unfold clearPrefreeSegments at cleared
  obtain ⟨middle, emptied, rfl⟩ := Option.map_eq_some_iff.mp cleared
  unfold clearPrefreeMap at emptied
  dsimp only at emptied
  split at emptied
  · cases emptied
  · cases emptied
    exact ⟨rfl, rfl⟩

theorem writeCheckpoint_wrote (laidOut : sup.LaidOut) (admitted : CpAdmitted sup world call)
    (wrote : writeCheckpoint image sup call = some written) : CpWrote image call written := by
  obtain ⟨before, writes, rest⟩ := Option.bind_eq_some_iff.mp wrote
  obtain ⟨segments, cleared, rfl⟩ := Option.map_eq_some_iff.mp rest
  obtain ⟨sit, sitPages⟩ := clearPrefreeSegments_sit cleared
  have first := checkpointWrites_wrote laidOut admitted writes
  refine ⟨first.nat, by rw [sitPages]; exact first.sit, ?_, first.pack⟩
  dsimp only
  rw [first.cp, CpCall.flushed, CpCall.flushed, sit]

/-! ## Where a checkpoint writes -/

theorem CpWrote.packStart_eq (wrote : CpWrote image call written)
    (admitted : CpAdmitted sup world call) :
    packStart sup.cp written.cp = startCpAddr sup.cp (world.version + 1) := by
  rw [wrote.cp, ← admitted.version]
  rfl

theorem CpWrote.total (wrote : CpWrote image call written) :
    (packBlock image sup.cp call.cpc.reason written.cp).raw.cpPackTotalBlockCount =
      call.packBlocks := by
  rw [wrote.cp]
  rfl

/-- The pack is a run of blocks, and its first and its last block are the checkpoint block. -/
structure PackLies (image : RawCheckpoint → Page) (world : CpWorld) (call : CpCall sup)
    (written : CpWritten sup) (block : CpBlock) : Prop where
  ordered : Device.Ordered written.pack
  addresses : ∀ address, address ∈ written.pack.map Prod.fst ↔
    startCpAddr sup.cp (world.version + 1) ≤ address ∧
      address < startCpAddr sup.cp (world.version + 1) + call.packBlocks
  head : ∃ rest, written.pack = (startCpAddr sup.cp (world.version + 1), .checkpoint block) :: rest
  last : ∃ before, written.pack = before ++
    [(startCpAddr sup.cp (world.version + 1) + call.packBlocks - 1, .checkpoint block)]
  valid : block.crcValid image = true
  version : block.raw.checkpointVer = world.version + 1
  total : block.raw.cpPackTotalBlockCount = call.packBlocks
  long : 1 + sup.cpPayload < call.packBlocks

theorem CpWrote.packLies (wrote : CpWrote image call written) (admitted : CpAdmitted sup world call)
    (filled : getOrphanBlocks call.cp.orphans.length = getOrphanBlocks call.cp.nOrphans) :
    PackLies image world call written (packBlock image sup.cp call.cpc.reason written.cp) := by
  obtain ⟨pages, length, pack⟩ := wrote.pack
  rw [filled] at length
  have start := wrote.packStart_eq admitted
  have total := wrote.total
  have nOrphans : written.cp.nOrphans = call.cp.nOrphans := by
    rw [wrote.cp]
    rfl
  have npages : npagesForSummaryFlush sup.cp written.cp = npagesForSummaryFlush sup.cp call.cp := by
    rw [wrote.cp]
    rfl
  have last := packEnd_eq image call.cpc.reason written.cp
  rw [total, start] at last
  have count : call.packBlocks = 2 + sup.cpPayload + npagesForSummaryFlush sup.cp call.cp +
    getOrphanBlocks call.cp.nOrphans + nodeSumBlocks call.cpc.reason := rfl
  refine ⟨?_, ?_, ?_, ?_, crcValid_packBlock image call.cpc.reason, ?_, total, by omega⟩
  · rw [pack]
    exact ordered_packWrites image call.stale call.cpc.reason (by rw [nOrphans, length])
  · intro address
    rw [pack, mem_packWrites_addresses, packEnd, nodeStart, sumStart, orphanStart, start, length,
      nOrphans, npages, count]
    have payload : sup.cp.cpPayload = sup.cpPayload := rfl
    rw [payload]
    omega
  · rw [pack, ← start]
    exact ⟨_, rfl⟩
  · have ends : packEnd sup.cp call.cpc.reason written.cp =
        startCpAddr sup.cp (world.version + 1) + call.packBlocks - 1 := by omega
    rw [pack, packWrites, ends]
    exact ⟨_, rfl⟩
  · rw [wrote.cp, ← admitted.version]
    rfl

/-! ## What a checkpoint leaves alone -/

theorem addresses_packedWrites (writes : List (Nat × Block)) :
    (packedWrites writes).map Prod.fst = writes.map Prod.fst := by
  rw [packedWrites, List.map_map]
  rfl

/-- The writes the device has taken before the crash. -/
theorem take_writes (count : Nat) :
    (written.writes call).take count = call.metaWrites.take count ++
      packedWrites (written.pack.take (count - call.metaWrites.length)) := by
  rw [CpWritten.writes, List.take_append, packedWrites, packedWrites, List.map_take]

/-- A block of the pack that has been written. -/
theorem crashed_of_taken {count : Nat} {write : Nat × Block} (ordered : Device.Ordered written.pack)
    (taken : write ∈ written.pack.take (count - call.metaWrites.length)) :
    crashed world call written count write.1 = .pack write.2 := by
  have ordered : Device.Ordered
      (packedWrites (written.pack.take (count - call.metaWrites.length))) := by
    rw [Device.Ordered, addresses_packedWrites]
    exact ordered.take _
  rw [crashed, take_writes, Device.persist_append]
  exact Device.persist_of_mem ordered (List.mem_map.mpr ⟨write, taken, rfl⟩)

/-- A block which neither the tables nor the part of the pack that has been written touch. -/
theorem crashed_of_untaken {count address : Nat}
    (inTables : ∀ write ∈ call.metaWrites, write.1 ≠ address)
    (unwritten : ∀ write ∈ written.pack.take (count - call.metaWrites.length),
      write.1 ≠ address) :
    crashed world call written count address = world.device address := by
  apply Device.persist_of_notMem
  rw [take_writes, List.map_append, addresses_packedWrites, List.mem_append, not_or]
  constructor
  · intro member
    obtain ⟨write, listed, equal⟩ := List.mem_map.mp member
    exact inTables write (List.mem_of_mem_take listed) equal
  · intro member
    obtain ⟨write, taken, equal⟩ := List.mem_map.mp member
    exact unwritten write taken equal

/-- A block which neither the tables nor the pack touch survives every crash. -/
theorem crashed_eq {address : Nat} (count : Nat)
    (inTables : ∀ write ∈ call.metaWrites, write.1 ≠ address)
    (inPack : ∀ write ∈ written.pack, write.1 ≠ address) :
    crashed world call written count address = world.device address :=
  crashed_of_untaken inTables fun write taken => inPack write (List.mem_of_mem_take taken)

theorem le_natAddr (block : Nat) (second : Bool) : sup.natBlkaddr ≤ sup.nat.natAddr block second := by
  rw [NatSuper.natAddr, Nat.add_assoc]
  exact Nat.le_add_right _ _

theorem sitAddr_bounds {sbi : Sbi} {offset : Nat} (inside : offset < sbi.sitBlocks) (second : Bool) :
    sbi.sitBaseAddr ≤ sbi.sitAddr offset second ∧
      sbi.sitAddr offset second < sbi.sitBaseAddr + 2 * sbi.sitBlocks := by
  unfold Sbi.sitAddr
  split
  · omega
  · omega

/-- The tables lie behind the packs. -/
theorem SyncsMeta.behind {nm : NmInfo} {segments : State} (laidOut : sup.LaidOut)
    (synced : SyncsMeta call nm segments) :
    ∀ write ∈ call.metaWrites, sup.cpBlkaddr + 2 * sup.sbi.blocksPerSeg ≤ write.1 := by
  have sit := laidOut.sit
  have nat := laidOut.nat
  intro write listed
  rcases synced write listed with ⟨block, second, rfl, _⟩ | ⟨offset, inside, second, rfl, _⟩
  · have behind := @le_natAddr sup block second
    dsimp only
    omega
  · have bounds := sitAddr_bounds inside second
    dsimp only
    omega

/-- The current copies of the NAT blocks are not written. -/
theorem SyncsMeta.nat_apart {segments : State} (laidOut : sup.LaidOut)
    (synced : SyncsMeta call written.nm segments) (wrote : CpWrote image call written) (block : Nat) :
    ∀ write ∈ call.metaWrites,
      write.1 ≠ sup.nat.natAddr block (call.nm.store.natBitmap block) := by
  have nat := laidOut.nat
  intro write listed equal
  rcases synced write listed with ⟨other, second, rfl, changed⟩ | ⟨offset, inside, second, rfl, _⟩
  · dsimp only at equal
    rw [equal] at changed
    exact changed (wrote.nat.shadow block)
  · have behind := @le_natAddr sup block (call.nm.store.natBitmap block)
    have bounds := sitAddr_bounds inside second
    dsimp only at equal
    omega

/-- The current copies of the SIT blocks are not written. -/
theorem SyncsMeta.sit_apart {nm : NmInfo} (laidOut : sup.LaidOut)
    (synced : SyncsMeta call nm written.segments) (wrote : CpWrote image call written) {segno : Nat}
    (inMain : segno < sup.sbi.mainSegments) :
    ∀ write ∈ call.metaWrites,
      write.1 ≠ currentSitAddr sup.sbi call.segments.sit.sitBitmap segno := by
  have nat := laidOut.nat
  intro write listed equal
  rcases synced write listed with ⟨block, second, rfl, _⟩ | ⟨offset, inside, second, rfl, changed⟩
  · have behind := @le_natAddr sup block second
    have bounds := sitAddr_bounds (laidOut.sitFits segno inMain)
      (call.segments.sit.sitBitmap (segno / sitEntryPerBlock))
    rw [currentSitAddr_eq] at equal
    dsimp only at equal
    omega
  · dsimp only at equal
    rw [equal] at changed
    exact changed (wrote.sit segno inMain)

/-! ## The segments of the packs -/

variable {valid : ValidCheckpoint} {block : CpBlock}

theorem packAddr_bounds (sup : CpSuper) (second : Bool) :
    sup.cpBlkaddr ≤ sup.packAddr second ∧
      sup.packAddr second + sup.sbi.blocksPerSeg ≤ sup.cpBlkaddr + 2 * sup.sbi.blocksPerSeg := by
  unfold CpSuper.packAddr
  split
  · omega
  · omega

/-- The segments of the two packs are apart. -/
theorem packAddr_apart (sup : CpSuper) (second : Bool) :
    sup.packAddr second + sup.sbi.blocksPerSeg ≤ sup.packAddr (!second) ∨
      sup.packAddr (!second) + sup.sbi.blocksPerSeg ≤ sup.packAddr second := by
  unfold CpSuper.packAddr
  cases second with
  | false => exact .inl (Nat.le_refl _)
  | true => exact .inr (Nat.le_refl _)

/-- The new pack goes to the segment the chosen one is not in. -/
theorem Selected.second_eq (selected : Selected image sup world valid) :
    startCpAddr sup.cp (world.version + 1) = sup.cp.packAddr (!valid.second) := by
  have place := selected.place
  rw [startCpAddr_eq] at place
  rw [startCpAddr_eq, usesSecond_succ, packAddr_injective sup.cp place]

theorem PackLies.inSegment (lies : PackLies image world call written block)
    (selected : Selected image sup world valid) (fits : call.packBlocks ≤ sup.sbi.blocksPerSeg) :
    ∀ write ∈ written.pack, sup.cp.packAddr (!valid.second) ≤ write.1 ∧
      write.1 < sup.cp.packAddr (!valid.second) + sup.sbi.blocksPerSeg := by
  intro write listed
  obtain ⟨lower, upper⟩ := (lies.addresses write.1).mp (List.mem_map_of_mem listed)
  rw [selected.second_eq] at lower upper
  exact ⟨lower, by omega⟩

/-- The segment of the chosen pack survives every crash. -/
theorem crashed_previous (laidOut : sup.LaidOut) (synced : SyncsMeta call written.nm written.segments)
    (lies : PackLies image world call written block) (selected : Selected image sup world valid)
    (fits : call.packBlocks ≤ sup.sbi.blocksPerSeg) (count : Nat) {index : Nat}
    (inside : index < sup.sbi.blocksPerSeg) :
    crashed world call written count (sup.cp.packAddr valid.second + index) =
      world.device (sup.cp.packAddr valid.second + index) := by
  have bounds := packAddr_bounds sup.cp valid.second
  have sbi : sup.cp.sbi = sup.sbi := rfl
  have cpBlkaddr : sup.cp.cpBlkaddr = sup.cpBlkaddr := rfl
  rw [sbi, cpBlkaddr] at bounds
  apply crashed_eq
  · intro write listed equal
    have behind := synced.behind laidOut write listed
    omega
  · intro write listed equal
    have segment := lies.inSegment selected fits write listed
    have apart := packAddr_apart sup.cp valid.second
    rw [sbi] at apart
    omega

/-! ## The choice after a crash -/

/-- A place in the packs which is not written is read as before. -/
theorem packView_eq {left right : Device MetaBlock} {address : Nat}
    (same : left address = right address) : packView left address = packView right address :=
  congrArg MetaBlock.packBlock same

/-- What all the theorems below assume. -/
structure Checkpointing (image : RawCheckpoint → Page) (world : CpWorld) (call : CpCall sup)
    (written : CpWritten sup) (valid : ValidCheckpoint) (block : CpBlock) : Prop where
  laidOut : sup.LaidOut
  mounted : CpMounted image sup world
  selected : Selected image sup world valid
  admitted : CpAdmitted sup world call
  regular : CpRegular image sup world call
  wrote : CpWrote image call written
  synced : SyncsMeta call written.nm written.segments
  lies : PackLies image world call written block

namespace Checkpointing

variable (step : Checkpointing image world call written valid block)

include step

theorem agree_previous (count : Nat) :
    AgreeOn sup.cp valid.second (packView (crashed world call written count))
      (packView world.device) := by
  intro index inside
  exact packView_eq (crashed_previous step.laidOut step.synced step.lies step.selected
    step.regular.fits count inside)

theorem payload_fits : 1 + sup.cp.cpPayload < sup.cp.sbi.blocksPerSeg := by
  have long := step.lies.long
  have fits := step.regular.fits
  have payload : sup.cp.cpPayload = sup.cpPayload := rfl
  have sbi : sup.cp.sbi = sup.sbi := rfl
  rw [payload, sbi]
  omega

/-- The previous pack is valid after every crash. -/
theorem validate_previous (count : Nat) :
    validateCheckpoint image (packView (crashed world call written count))
        (sup.cp.packAddr valid.second) = some (world.version, valid.block) := by
  rw [validateCheckpoint_congr step.mounted.heads (step.agree_previous count),
    (validate_of_getValidCheckpoint step.selected.chosen).1, step.selected.version]

theorem load_previous (count : Nat) :
    loadCheckpoint image sup.cp (packView (crashed world call written count)) valid.second
        valid.block = valid := by
  rw [loadCheckpoint_congr step.payload_fits (step.agree_previous count)]
  exact (validate_of_getValidCheckpoint step.selected.chosen).2.symm

/-- A place in the new segment outside the blocks that have been written. -/
theorem crashed_unwritten {count index : Nat} (inside : index < sup.sbi.blocksPerSeg)
    (unwritten : ∀ write ∈ written.pack.take (count - call.metaWrites.length),
      write.1 ≠ sup.cp.packAddr (!valid.second) + index) :
    crashed world call written count (sup.cp.packAddr (!valid.second) + index) =
      world.device (sup.cp.packAddr (!valid.second) + index) := by
  have bounds := packAddr_bounds sup.cp (!valid.second)
  have sbi : sup.cp.sbi = sup.sbi := rfl
  have cpBlkaddr : sup.cp.cpBlkaddr = sup.cpBlkaddr := rfl
  rw [sbi, cpBlkaddr] at bounds
  apply crashed_of_untaken _ unwritten
  intro write listed equal
  have behind := step.synced.behind step.laidOut write listed
  omega

/-- A block of the pack that has been written. -/
theorem crashed_written {count : Nat} {write : Nat × Block}
    (taken : write ∈ written.pack.take (count - call.metaWrites.length)) :
    crashed world call written count write.1 = .pack write.2 :=
  crashed_of_taken step.lies.ordered taken

/-- Before the last block is written the new pack is not valid. -/
theorem validate_new_none {count : Nat} (begun : call.metaWrites.length < count)
    (unfinished : count < (written.writes call).length) :
    validateCheckpoint image (packView (crashed world call written count))
        (sup.cp.packAddr (!valid.second)) = none := by
  have place := step.selected.second_eq
  have long := step.lies.long
  have fits := step.regular.fits
  obtain ⟨rest, head⟩ := step.lies.head
  obtain ⟨before, last⟩ := step.lies.last
  rw [place] at head last
  have ordered := step.lies.ordered
  rw [last, Device.Ordered, List.map_append, List.map_singleton, List.pairwise_append] at ordered
  obtain ⟨_, _, below⟩ := ordered
  have length : (written.writes call).length = call.metaWrites.length + before.length + 1 := by
    rw [CpWritten.writes, List.length_append, packedWrites, List.length_map, last,
      List.length_append, List.length_singleton, Nat.add_assoc]
  have first : packView (crashed world call written count) (sup.cp.packAddr (!valid.second)) =
      .checkpoint block := by
    have taken : (sup.cp.packAddr (!valid.second), Block.checkpoint block) ∈
        written.pack.take (count - call.metaWrites.length) := by
      obtain ⟨more, equal⟩ : ∃ more, count - call.metaWrites.length = more + 1 :=
        ⟨count - call.metaWrites.length - 1, by omega⟩
      rw [equal, head, List.take_succ_cons]
      exact List.mem_cons_self
    rw [packView, step.crashed_written taken]
    rfl
  have trailer : packView (crashed world call written count)
        (sup.cp.packAddr (!valid.second) + call.packBlocks - 1) =
      packView world.device (startCpAddr sup.cp (world.version + 1) + call.packBlocks - 1) := by
    rw [place, Nat.add_sub_assoc (by omega)]
    apply packView_eq
    apply step.crashed_unwritten (by omega)
    intro write taken equal
    have earlier : write ∈ before := by
      rw [last, List.take_append_of_le_length (by omega)] at taken
      exact List.mem_of_mem_take taken
    have less := below write.1 (List.mem_map_of_mem earlier) _ (List.mem_singleton_self _)
    omega
  unfold validateCheckpoint
  rw [first]
  dsimp only
  rw [step.lies.valid, if_pos rfl, step.lies.total, trailer]
  cases stale : packView world.device
      (startCpAddr sup.cp (world.version + 1) + call.packBlocks - 1) with
  | bytes page => rfl
  | checkpoint second =>
      dsimp only
      rw [if_neg]
      rintro ⟨secondValid, same⟩
      exact step.regular.fresh second stale secondValid (same.trans step.lies.version)

/-- Before the last block is written the mount finds the previous checkpoint. -/
theorem previous {count : Nat} (unfinished : count < (written.writes call).length) :
    getValidCheckpoint image sup.cp (packView (crashed world call written count)) = some valid := by
  rcases Nat.lt_or_ge call.metaWrites.length count with begun | early
  · rw [getValidCheckpoint_of_one (step.validate_previous count)
      (step.validate_new_none begun unfinished), step.load_previous count]
  · rw [← step.selected.chosen]
    apply getValidCheckpoint_congr step.mounted.heads step.payload_fits
    have agreeNew : AgreeOn sup.cp (!valid.second) (packView (crashed world call written count))
        (packView world.device) := by
      intro index inside
      apply packView_eq
      apply step.crashed_unwritten inside
      intro write taken
      rw [Nat.sub_eq_zero_of_le early, List.take_zero] at taken
      cases taken
    intro second
    rcases Bool.eq_or_eq_not second valid.second with rfl | rfl
    · exact step.agree_previous count
    · exact agreeNew

/-- All blocks of the new pack are there when the last one is. -/
theorem written_all {count : Nat} (finished : (written.writes call).length ≤ count)
    {write : Nat × Block} (listed : write ∈ written.pack) :
    crashed world call written count write.1 = .pack write.2 := by
  apply step.crashed_written
  rw [List.take_of_length_le]
  · exact listed
  · rw [CpWritten.writes, List.length_append, packedWrites, List.length_map] at finished
    omega

theorem validate_new {count : Nat} (finished : (written.writes call).length ≤ count) :
    validateCheckpoint image (packView (crashed world call written count))
        (sup.cp.packAddr (!valid.second)) = some (world.version + 1, block) := by
  have place := step.selected.second_eq
  obtain ⟨rest, head⟩ := step.lies.head
  obtain ⟨before, last⟩ := step.lies.last
  rw [place] at head last
  have first : packView (crashed world call written count) (sup.cp.packAddr (!valid.second)) =
      .checkpoint block := by
    have listed : (sup.cp.packAddr (!valid.second), Block.checkpoint block) ∈ written.pack := by
      rw [head]
      exact List.mem_cons_self
    rw [packView, step.written_all finished listed]
    rfl
  have trailer : packView (crashed world call written count)
      (sup.cp.packAddr (!valid.second) + call.packBlocks - 1) = .checkpoint block := by
    have listed : (sup.cp.packAddr (!valid.second) + call.packBlocks - 1, Block.checkpoint block) ∈
        written.pack := by
      rw [last]
      exact List.mem_append_right _ (List.mem_singleton_self _)
    rw [packView, step.written_all finished listed]
    rfl
  unfold validateCheckpoint
  rw [first]
  dsimp only
  rw [step.lies.valid, if_pos rfl, step.lies.total, trailer]
  dsimp only
  rw [if_pos ⟨step.lies.valid, rfl⟩, step.lies.version]

/-- With the last block the mount finds the new checkpoint. -/
theorem new {count : Nat} (finished : (written.writes call).length ≤ count) :
    getValidCheckpoint image sup.cp (packView (crashed world call written count)) =
      some (loadCheckpoint image sup.cp (packView (crashed world call written count))
        (!valid.second) block) := by
  apply getValidCheckpoint_of_two (step.validate_new finished)
  rw [Bool.not_not]
  exact step.validate_previous count

theorem crashSafe (count : Nat) : CrashSafe image sup world call written valid count := by
  have place := step.selected.second_eq
  refine ⟨step.previous, ?_, ?_, ?_, ?_, ?_, ?_⟩
  · intro finished
    exact ⟨_, step.new finished, step.lies.version, place.symm⟩
  · intro finished index inside
    have listed := (step.lies.addresses (startCpAddr sup.cp (world.version + 1) + index)).mpr
      ⟨Nat.le_add_right _ _, by omega⟩
    obtain ⟨⟨address, content⟩, member, equal⟩ := List.mem_map.mp listed
    dsimp only at equal
    subst equal
    exact ⟨content, member, step.written_all finished member⟩
  · intro write listed
    have segment := step.lies.inSegment step.selected step.regular.fits write listed
    have apart := packAddr_apart sup.cp valid.second
    have sbi : sup.cp.sbi = sup.sbi := rfl
    rw [sbi] at apart
    omega
  · intro index inside
    apply crashed_previous step.laidOut step.synced step.lies step.selected step.regular.fits count
    obtain ⟨_, head, crcValid⟩ :=
      validateCheckpoint_spec (validate_of_getValidCheckpoint step.selected.chosen).1
    exact inside.trans_le (step.mounted.heads valid.second valid.block head crcValid).2
  · intro number
    rw [step.selected.natBitmap, ← step.admitted.natBitmap]
    apply crashed_eq
    · exact step.synced.nat_apart step.laidOut step.wrote number
    · intro write listed equal
      have segment := step.lies.inSegment step.selected step.regular.fits write listed
      have bounds := packAddr_bounds sup.cp (!valid.second)
      have behind := @le_natAddr sup number (call.nm.store.natBitmap number)
      have sit := step.laidOut.sit
      have nat := step.laidOut.nat
      have sbi : sup.cp.sbi = sup.sbi := rfl
      have cpBlkaddr : sup.cp.cpBlkaddr = sup.cpBlkaddr := rfl
      rw [sbi, cpBlkaddr] at bounds
      omega
  · intro segno inMain
    have inside := step.laidOut.sitFits segno inMain
    have same : currentSitAddr sup.sbi (readSitBitmap sup.cp valid) segno =
        currentSitAddr sup.sbi call.segments.sit.sitBitmap segno := by
      rw [currentSitAddr_eq, currentSitAddr_eq, step.selected.sitBitmap _ inside,
        step.admitted.sitBitmap]
    rw [same]
    apply crashed_eq
    · exact step.synced.sit_apart step.laidOut step.wrote inMain
    · intro write listed equal
      have segment := step.lies.inSegment step.selected step.regular.fits write listed
      have bounds := packAddr_bounds sup.cp (!valid.second)
      have behind := sitAddr_bounds inside
        (call.segments.sit.sitBitmap (segno / sitEntryPerBlock))
      have sit := step.laidOut.sit
      have sbi : sup.cp.sbi = sup.sbi := rfl
      have cpBlkaddr : sup.cp.cpBlkaddr = sup.cpBlkaddr := rfl
      rw [sbi, cpBlkaddr] at bounds
      rw [currentSitAddr_eq] at equal
      omega

end Checkpointing

/-! ## Histories -/

/-- The bits of a byte, the highest first. -/
theorem byte_bits : ∀ b0 b1 b2 b3 b4 b5 b6 b7 : Bool,
    let byte := (UInt8.ofNat ((if b0 then 2 ^ 7 else 0) + ((if b1 then 2 ^ 6 else 0) +
      ((if b2 then 2 ^ 5 else 0) + ((if b3 then 2 ^ 4 else 0) + ((if b4 then 2 ^ 3 else 0) +
      ((if b5 then 2 ^ 2 else 0) + ((if b6 then 2 ^ 1 else 0) +
      (if b7 then 2 ^ 0 else 0)))))))) ).toNat
    ((byte.testBit 7 = b0 ∧ byte.testBit 6 = b1) ∧ (byte.testBit 5 = b2 ∧ byte.testBit 4 = b3)) ∧
    ((byte.testBit 3 = b4 ∧ byte.testBit 2 = b5) ∧ (byte.testBit 1 = b6 ∧ byte.testBit 0 = b7)) := by
  decide +kernel

/-- A bit of a byte of a version bit map. -/
theorem testBit_versionByte (map : BitMap) (offset : Nat) :
    (versionByte map (offset / 8)).toNat.testBit (7 - offset % 8) = map offset := by
  have split : 8 * (offset / 8) + offset % 8 = offset := Nat.div_add_mod offset 8
  have small : offset % 8 < 8 := Nat.mod_lt _ (by decide)
  have bits := byte_bits (map (8 * (offset / 8) + 0)) (map (8 * (offset / 8) + 1))
    (map (8 * (offset / 8) + 2)) (map (8 * (offset / 8) + 3)) (map (8 * (offset / 8) + 4))
    (map (8 * (offset / 8) + 5)) (map (8 * (offset / 8) + 6)) (map (8 * (offset / 8) + 7))
  nth_rewrite 3 [← split]
  generalize offset % 8 = bit at small
  generalize offset / 8 = index at *
  obtain ⟨⟨⟨b0, b1⟩, b2, b3⟩, ⟨b4, b5⟩, b6, b7⟩ := bits
  interval_cases bit
  · exact b0
  · exact b1
  · exact b2
  · exact b3
  · exact b4
  · exact b5
  · exact b6
  · exact b7

namespace Checkpointing

variable (step : Checkpointing image world call written valid block)

include step

theorem selected_after (made : block = packBlock image sup.cp call.cpc.reason written.cp) :
    Selected image sup (world.after call written)
      (loadCheckpoint image sup.cp (packView (world.after call written).device)
        (!valid.second) block) := by
  have whole : (world.after call written).device =
      crashed world call written (written.writes call).length := by
    rw [crashed, List.take_length]
    rfl
  refine ⟨?_, step.lies.version, step.selected.second_eq.symm, ?_, ?_⟩
  · rw [whole]
    exact step.new (Nat.le_refl _)
  · dsimp only [loadCheckpoint]
    rw [made, step.wrote.cp]
    rfl
  · intro offset inside
    have sitBitmap : written.cp.sitBitmap = written.segments.sit.sitBitmap := by
      rw [step.wrote.cp]
      rfl
    have sitBytes : written.cp.ckpt.sitVerBitmapBytesize = world.sitBytes := by
      rw [step.wrote.cp]
      exact step.admitted.sitBytes
    unfold readSitBitmap
    split
    · next payload =>
        have payload' : 0 < sup.cpPayload := payload
        obtain ⟨enough, fits⟩ := step.mounted.payload payload'
        have inBytes : offset / 8 < world.sitBytes := by omega
        have number : offset / 8 / pageCacheSize < sup.cp.cpPayload :=
          Nat.div_lt_of_lt_mul (by rw [Nat.mul_comm]; exact inBytes.trans_le fits)
        obtain ⟨pages, _, pack⟩ := step.wrote.pack
        have start : packStart sup.cp written.cp = sup.cp.packAddr (!valid.second) :=
          (step.wrote.packStart_eq step.admitted).trans step.selected.second_eq
        have listed : (sup.cp.packAddr (!valid.second) + (offset / 8 / pageCacheSize + 1),
            Block.bytes (putSitBitmap sup.cp written.cp (offset / 8 / pageCacheSize + 1))) ∈
            written.pack := by
          have inPayload : (sup.cp.packAddr (!valid.second) + (offset / 8 / pageCacheSize + 1),
              Block.bytes (putSitBitmap sup.cp written.cp (offset / 8 / pageCacheSize + 1))) ∈
              payloadWrites sup.cp written.cp := by
            rw [payloadWrites, Device.mem_consecutive, start]
            refine ⟨offset / 8 / pageCacheSize, ?_, by omega⟩
            rw [List.getElem?_map, List.getElem?_range number]
            rfl
          rw [pack, packWrites]
          simp only [List.mem_append]
          exact .inl (.inl (.inl (.inl (.inr inPayload))))
        have stored := step.written_all (Nat.le_refl _) listed
        have loaded : (loadCheckpoint image sup.cp (packView (world.after call written).device)
            (!valid.second) block).payload (offset / 8 / pageCacheSize + 1) =
            putSitBitmap sup.cp written.cp (offset / 8 / pageCacheSize + 1) := by
          dsimp only [loadCheckpoint]
          rw [if_pos (show offset / 8 / pageCacheSize + 1 ≤ sup.cp.cpPayload from number), packView,
            whole, stored]
          rfl
        rw [loaded, putSitBitmap]
        have index : (offset / 8 / pageCacheSize + 1 - 1) * pageCacheSize +
            offset / 8 % pageCacheSize = offset / 8 := by
          rw [Nat.add_sub_cancel, Nat.mul_comm]
          exact Nat.div_add_mod _ _
        rw [index, if_pos ⟨payload, by rw [sitBytes]; exact inBytes⟩, testBit_versionByte, sitBitmap]
        rfl
    · next none =>
        dsimp only [loadCheckpoint]
        rw [made]
        change (if 0 < sup.cp.cpPayload then written.cp.ckpt.sitBitmap else written.cp.sitBitmap)
          offset = _
        rw [if_neg none, sitBitmap]
        rfl

/-- The volume after the checkpoint. -/
theorem mounted_after (made : block = packBlock image sup.cp call.cpc.reason written.cp) :
    CpMounted image sup (world.after call written) := by
  have whole : (world.after call written).device =
      crashed world call written (written.writes call).length := by
    rw [crashed, List.take_length]
    rfl
  refine ⟨⟨_, step.selected_after made⟩, ?_, step.mounted.payload⟩
  intro second head stored crcValid
  rcases Bool.eq_or_eq_not second valid.second with rfl | rfl
  · have same := step.agree_previous (written.writes call).length 0 sup.sbi.blocksPerSeg_pos
    rw [Nat.add_zero, ← whole, stored] at same
    exact step.mounted.heads _ head same.symm crcValid
  · obtain ⟨_, head', _⟩ := validateCheckpoint_spec (step.validate_new (Nat.le_refl _))
    rw [← whole, stored] at head'
    cases head'
    rw [step.lies.total]
    exact ⟨step.lies.long, step.regular.fits⟩

end Checkpointing

theorem checkpointing (laidOut : sup.LaidOut) (mounted : CpMounted image sup world)
    (selected : Selected image sup world valid) (admitted : CpAdmitted sup world call)
    (regular : CpRegular image sup world call) (wrote : CpWrote image call written)
    (synced : SyncsMeta call written.nm written.segments) :
    Checkpointing image world call written valid
      (packBlock image sup.cp call.cpc.reason written.cp) :=
  ⟨laidOut, mounted, selected, admitted, regular, wrote, synced,
    wrote.packLies admitted regular.filled⟩

theorem cpRun_mounted {start last : CpWorld} {calls : List (CpCall sup)} (laidOut : sup.LaidOut)
    (mounted : CpMounted image sup start) (run : CpRun image sup start calls last) :
    CpMounted image sup last := by
  induction run with
  | nil => exact mounted
  | cons admitted regular wrote synced _ induction =>
      obtain ⟨valid, selected⟩ := mounted.selected
      have step := checkpointing laidOut mounted selected admitted regular
        (writeCheckpoint_wrote laidOut admitted wrote) synced
      exact induction (step.mounted_after rfl)

/-- In every history of checkpoints with regular packs, every crash of the next one is safe. -/
theorem cpRun_atomic {start : CpWorld} {calls : List (CpCall sup)} (laidOut : sup.LaidOut)
    (mounted : CpMounted image sup start) (run : CpRun image sup start calls world)
    (admitted : CpAdmitted sup world call) (regular : CpRegular image sup world call)
    (wrote : checkpointWrites image sup call = some written)
    (synced : SyncsMeta call written.nm written.segments) :
    ∃ valid, Selected image sup world valid ∧
      ∀ count, CrashSafe image sup world call written valid count := by
  have mounted := cpRun_mounted laidOut mounted run
  obtain ⟨valid, selected⟩ := mounted.selected
  have step := checkpointing laidOut mounted selected admitted regular
    (checkpointWrites_wrote laidOut admitted wrote) synced
  exact ⟨valid, selected, step.crashSafe⟩

/-! ## A small history -/

theorem checkpointWrites_total (laidOut : sup.LaidOut) (admitted : CpAdmitted sup world call)
    (trims : call.cpc.reason = .discard → call.cpc.trimEnd < sup.sbi.mainSegments) :
    ∃ written, checkpointWrites image sup call = some written := by
  obtain ⟨nm, flushNat, _⟩ := flushNatEntries_natFlushed call.room admitted.nat
  obtain ⟨⟨segments, cpc⟩, flushSit⟩ := flushSitEntries_total laidOut.sitFits admitted.sit trims
  obtain ⟨pages, made, _⟩ := @doCheckpoint_eq image call.stale sup.cp call.cpc.reason
    (call.flushed nm segments) admitted.listed
  unfold checkpointWrites
  rw [flushNat, Option.bind_some, flushSit, Option.bind_some]
  dsimp only
  rw [made]
  exact ⟨_, rfl⟩

/-- A volume of ten segments with 512 blocks each and a payload of eight blocks. -/
def payloadVolume : MetaSuper where
  sbi := { smallVolume with
    seg0Blkaddr := 512, logBlocksPerSeg := 9, sitBaseAddr := 1536, log_bounds := by decide
    seg0_pos := by decide, addresses_fit := by decide }
  cpBlkaddr := 512
  cpPayload := 8
  ssaBlkaddr := 8192
  natBlkaddr := 2048
  natSegs := 1

theorem payloadVolume_laidOut : payloadVolume.LaidOut :=
  ⟨by decide, by decide, show ∀ segno < 10, segno / 55 < 64 by decide⟩

/-- Its checkpoint with version 2, which is in the second segment. -/
def secondCheckpoint : RawCheckpoint :=
  { smallRawCheckpoint with checkpointVer := 2, cpPackTotalBlockCount := 11 }

/-- The device with this checkpoint alone. -/
def secondDevice : Device MetaBlock := fun address =>
  if address = 1024 ∨ address = 1034 then
    .pack (.checkpoint (sealCheckpoint checkpointImage secondCheckpoint))
  else .pack (.bytes Page.zero)

/-- After the mount of this checkpoint. -/
def secondWorld : CpWorld := ⟨secondDevice, 2, 64, .empty, .empty⟩

theorem crcValid_sealCheckpoint (raw : RawCheckpoint) (bounded : raw.checksumOffset < pageCacheSize) :
    (sealCheckpoint image raw).crcValid image = true := by
  have inBlock : (sealCheckpoint image raw).raw.checksumOffset < pageCacheSize := bounded
  rw [CpBlock.crcValid, decide_eq_true inBlock, Bool.true_and]
  exact beq_self_eq_true _

theorem secondDevice_bytes {address : Nat} (outside : address ≠ 1024 ∧ address ≠ 1034) :
    packView secondDevice address = .bytes Page.zero := by
  rw [packView, secondDevice, if_neg (by omega)]
  rfl

theorem secondWorld_mounted : CpMounted checkpointImage payloadVolume secondWorld := by
  have valid : (sealCheckpoint checkpointImage secondCheckpoint).crcValid checkpointImage = true :=
    crcValid_sealCheckpoint secondCheckpoint (by decide)
  have first : validateCheckpoint checkpointImage (packView secondDevice)
      (payloadVolume.cp.packAddr false) = none := by
    have empty := @secondDevice_bytes (payloadVolume.cp.packAddr false) (by decide)
    unfold validateCheckpoint
    rw [empty]
  have second : validateCheckpoint checkpointImage (packView secondDevice)
      (payloadVolume.cp.packAddr true) =
        some (2, sealCheckpoint checkpointImage secondCheckpoint) := by
    have head : packView secondDevice (payloadVolume.cp.packAddr true) =
        .checkpoint (sealCheckpoint checkpointImage secondCheckpoint) := rfl
    have last : packView secondDevice (payloadVolume.cp.packAddr true +
        (sealCheckpoint checkpointImage secondCheckpoint).raw.cpPackTotalBlockCount - 1) =
        .checkpoint (sealCheckpoint checkpointImage secondCheckpoint) := rfl
    unfold validateCheckpoint
    rw [head]
    dsimp only
    rw [valid, if_pos rfl, last]
    dsimp only
    rw [if_pos ⟨valid, rfl⟩]
    rfl
  refine ⟨⟨_, getValidCheckpoint_of_one second first, rfl, rfl, rfl, ?_⟩, ?_, fun _ => ?_⟩
  · intro offset inside
    have small : offset < 64 := inside
    have number : offset / 8 / pageCacheSize = 0 := by
      unfold pageCacheSize
      omega
    have empty := @secondDevice_bytes (payloadVolume.cp.packAddr true + 1) (by decide)
    unfold readSitBitmap
    rw [if_pos (by decide), number]
    dsimp only [loadCheckpoint, secondWorld]
    rw [if_pos (by decide), Nat.zero_add, empty]
    exact Nat.zero_testBit _
  · intro place block stored _
    cases place with
    | false =>
        rw [show packView secondWorld.device = packView secondDevice from rfl,
          secondDevice_bytes (by decide)] at stored
        cases stored
    | true =>
        cases stored
        decide
  · decide

/-- The segment information table without any block. -/
def blankSegments : State := { unbuilt smallImage with sitPages := fun _ _ => ⟨0, .empty, 0⟩ }

theorem blankSegments_recorded : SitRecorded payloadVolume.sbi blankSegments := by
  refine ⟨by decide, ?_, ⟨by decide, by decide⟩, ?_, ?_⟩
  · intro segno _
    exact show SegEntry.zero.Packable from ⟨by decide, by decide⟩
  · intro left small
    exact absurd small (by simp [blankSegments, unbuilt, smallImage, emptySummaryBlock])
  · intro segno _ _
    have stored : blankSegments.storedSit payloadVolume.sbi segno = ⟨0, .empty, 0⟩ := by
      simp [State.storedSit, rawSitEntry, blankSegments, unbuilt, smallImage, emptySummaryBlock]
    have blank : blankSegments.sit.sentries segno = .zero := rfl
    rw [stored, blank]
    exact ⟨by decide, by decide, rfl, rfl⟩

/-- A checkpoint with some orphans and no other changes. -/
def orphansCall (orphans : List UInt32) (nodup : orphans.Nodup) : CpCall payloadVolume where
  nm := emptyTable
  segments := blankSegments
  cp :=
    { ckpt := { smallRawCheckpoint with checkpointVer := 2 }
      payload := fun _ => Page.zero
      nOrphans := orphans.length
      orphans := orphans
      orphans_nodup := nodup
      curseg := fun type => ⟨Page.zero, .lfs, type.toNat, 0, Nat.zero_le _⟩
      needFsck := false
      mtime := 0
      validUserBlocks := 0
      freeSegments := 4
      validNodeCount := 0
      validInodeCount := 0
      lastNid := 0
      sitBitmap := .empty
      natBitmap := .empty
      checksumOffset_lt := by decide }
  cpc := ⟨.sync, 0, 0, 0, 0⟩
  room := fun _ => true
  stale := fun _ => Page.zero
  metaWrites := []

theorem orphansCall_admitted {orphans : List UInt32} (nodup : orphans.Nodup)
    (limited : orphans.length ≤ payloadVolume.cp.maxOrphans) :
    CpAdmitted payloadVolume secondWorld (orphansCall orphans nodup) where
  version := rfl
  sitBytes := rfl
  natBitmap := rfl
  sitBitmap := rfl
  nat := (emptyTable_mounted payloadVolume.nat).sound
  sit := blankSegments_recorded
  listed := Nat.le_refl _
  limited := limited

theorem orphansCall_synced {orphans : List UInt32} (nodup : orphans.Nodup) (nm : NmInfo)
    (segments : State) : SyncsMeta (orphansCall orphans nodup) nm segments := by
  intro write listed
  cases listed

/-- A checkpoint without orphans. -/
theorem cpRun_atomic_example :
    ∃ written, checkpointWrites checkpointImage payloadVolume (orphansCall [] List.nodup_nil) =
        some written ∧
      ∃ valid, Selected checkpointImage payloadVolume secondWorld valid ∧
        ∀ count, CrashSafe checkpointImage payloadVolume secondWorld
          (orphansCall [] List.nodup_nil) written valid count := by
  have admitted := orphansCall_admitted List.nodup_nil (Nat.zero_le _)
  obtain ⟨written, wrote⟩ := checkpointWrites_total payloadVolume_laidOut admitted (by decide)
  have regular : CpRegular checkpointImage payloadVolume secondWorld
      (orphansCall [] List.nodup_nil) := by
    refine ⟨by decide, rfl, ?_⟩
    intro block stored
    rw [show packView secondWorld.device = packView secondDevice from rfl,
      secondDevice_bytes (by decide)] at stored
    cases stored
  exact ⟨written, wrote, cpRun_atomic payloadVolume_laidOut secondWorld_mounted (.nil secondWorld)
    admitted regular wrote (orphansCall_synced List.nodup_nil _ _)⟩

end F2fs
end StorageStack
