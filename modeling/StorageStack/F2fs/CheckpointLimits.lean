import StorageStack.F2fs.CheckpointAtomic
import StorageStack.F2fs.NatHistory

/-!
# The limits of the packs

The checkpoint blocks in the segments of the packs come from the last checkpoints, so a block with the
version of the next one can be there only when all versions have been used.  A pack that does not fit
its segment overwrites the other one before it is complete.
-/

namespace StorageStack
namespace F2fs

variable {image : RawCheckpoint → Page}

/-! ## The checkpoint blocks of a pack -/

theorem bytes_writeSummary {stale : Nat → Page} {writer : SumWriter}
    (bytes : ∀ write ∈ writer.written, ∃ page, write.2 = Block.bytes page) (entry : Page × Nat) :
    ∀ write ∈ (writeSummary stale writer entry).written, ∃ page, write.2 = Block.bytes page := by
  have opened : (writer.openBlock stale).1.written = writer.written := by
    unfold SumWriter.openBlock
    cases writer.page with
    | none => rfl
    | some page => rfl
  unfold writeSummary
  generalize writer.openBlock stale = opening at opened
  obtain ⟨next, address, page⟩ := opening
  dsimp only at opened ⊢
  split
  · rw [opened]
    exact bytes
  · dsimp only
    rw [opened]
    intro write listed
    rcases List.mem_append.mp listed with earlier | last
    · exact bytes write earlier
    · rw [List.mem_singleton.mp last]
      exact ⟨_, rfl⟩

theorem bytes_writeCompactedSummaries (stale : Nat → Page) (sup : CpSuper) (s : CpState sup)
    (blkaddr : Nat) :
    ∀ write ∈ writeCompactedSummaries stale sup s blkaddr, ∃ page, write.2 = Block.bytes page := by
  have run (entries : List (Page × Nat)) (writer : SumWriter)
      (bytes : ∀ write ∈ writer.written, ∃ page, write.2 = Block.bytes page) :
      ∀ write ∈ (entries.foldl (writeSummary stale) writer).written,
        ∃ page, write.2 = Block.bytes page := by
    induction entries generalizing writer with
    | nil => exact bytes
    | cons entry entries induction =>
        rw [List.foldl_cons]
        exact induction _ (bytes_writeSummary bytes entry)
  have written := run (keptSummaries sup s)
    ⟨blkaddr + 1, some (blkaddr, journalPage (stale blkaddr) s), 2 * sumJournalSize, []⟩
    (fun write listed => by cases listed)
  unfold writeCompactedSummaries
  generalize (keptSummaries sup s).foldl (writeSummary stale) _ = writer at written
  unfold SumWriter.blocks
  cases writer.page with
  | none => exact written
  | some page =>
      intro write listed
      rcases List.mem_append.mp listed with earlier | last
      · exact written write earlier
      · rw [List.mem_singleton.mp last]
        exact ⟨_, rfl⟩

theorem bytes_consecutive {start : Nat} {pages : List Page} :
    ∀ write ∈ Device.consecutive start (pages.map Block.bytes),
      ∃ page, write.2 = Block.bytes page := by
  rintro ⟨address, block⟩ listed
  obtain ⟨index, found, _⟩ := Device.mem_consecutive.mp listed
  obtain ⟨page, _, rfl⟩ := List.mem_map.mp (List.mem_of_getElem? found)
  exact ⟨page, rfl⟩

/-- A pack has no checkpoint block but its own. -/
theorem eq_packBlock {stale : Nat → Page} {sup : CpSuper} {reason : CpReason} {s : CpState sup}
    {pages : List Page} {address : Nat} {block : CpBlock}
    (listed : (address, Block.checkpoint block) ∈ packWrites image stale sup reason s pages) :
    block = packBlock image sup reason s := by
  have notBytes (writes : List (Nat × Block))
      (bytes : ∀ write ∈ writes, ∃ page, write.2 = Block.bytes page) :
      (address, Block.checkpoint block) ∉ writes := by
    intro member
    obtain ⟨page, impossible⟩ := bytes _ member
    cases impossible
  have notPayload : (address, Block.checkpoint block) ∉ payloadWrites sup s := by
    apply notBytes
    rw [payloadWrites, ← Function.comp_def Block.bytes, ← List.map_map]
    exact bytes_consecutive
  have notOrphans : (address, Block.checkpoint block) ∉
      Device.consecutive (orphanStart sup s) (pages.map Block.bytes) :=
    notBytes _ bytes_consecutive
  have notNormal (blkaddr : Nat) (types : List CursegType) :
      (address, Block.checkpoint block) ∉ writeNormalSummaries s blkaddr types := by
    apply notBytes
    rw [writeNormalSummaries, ← Function.comp_def Block.bytes, ← List.map_map]
    exact bytes_consecutive
  have notData : (address, Block.checkpoint block) ∉
      writeDataSummaries stale sup s (sumStart sup s) := by
    unfold writeDataSummaries
    split
    · exact notBytes _ (bytes_writeCompactedSummaries stale sup s _)
    · exact notNormal _ _
  have notNode : (address, Block.checkpoint block) ∉
      writeNodeSummaries reason s (nodeStart sup s) := by
    cases reason with
    | umount => exact notNormal _ _
    | sync => exact List.not_mem_nil
    | discard => exact List.not_mem_nil
  simp only [packWrites, List.mem_append, notPayload, notOrphans, notData, notNode, or_false,
    List.mem_singleton, Prod.mk.injEq, Block.checkpoint.injEq] at listed
  rcases listed with ⟨_, rfl⟩ | ⟨_, rfl⟩
  · rfl
  · rfl

/-! ## The age of the checkpoint blocks -/

variable {sup : MetaSuper} {world : CpWorld} {call : CpCall sup} {written : CpWritten sup}

/-- The valid checkpoint blocks in the segments of the packs come from the current checkpoint or one
of the `age` checkpoints before it. -/
def Young (image : RawCheckpoint → Page) (sup : MetaSuper) (world : CpWorld) (age : Nat) : Prop :=
  ∀ second, ∀ index < sup.sbi.blocksPerSeg, ∀ block,
    packView world.device (sup.cp.packAddr second + index) = .checkpoint block →
      block.crcValid image = true →
        ∃ past ≤ age, block.raw.checkpointVer = world.version - BitVec.ofNat 64 past

theorem Checkpointing.young {valid : ValidCheckpoint} {age : Nat}
    (step : Checkpointing image world call written valid
      (packBlock image sup.cp call.cpc.reason written.cp)) (young : Young image sup world age) :
    Young image sup (world.after call written) (age + 1) := by
  have whole : (world.after call written).device =
      crashed world call written (written.writes call).length := by
    rw [crashed, List.take_length]
    rfl
  have older {version : BitVec 64} {past : Nat}
      (found : version = world.version - BitVec.ofNat 64 past) :
      version = world.version + 1 - BitVec.ofNat 64 (past + 1) := by
    have next : BitVec.ofNat 64 (past + 1) = BitVec.ofNat 64 past + 1 := BitVec.ofNat_add past 1
    rw [found, next]
    bv_omega
  intro second index inside block stored crcValid
  rw [whole] at stored
  rcases Bool.eq_or_eq_not second valid.second with rfl | rfl
  · rw [step.agree_previous _ index inside] at stored
    obtain ⟨past, few, found⟩ := young _ index inside block stored crcValid
    exact ⟨past + 1, Nat.succ_le_succ few, older found⟩
  · by_cases inPack : sup.cp.packAddr (!valid.second) + index ∈ written.pack.map Prod.fst
    · obtain ⟨⟨address, content⟩, listed, equal⟩ := List.mem_map.mp inPack
      dsimp only at equal
      subst equal
      rw [packView, step.written_all (Nat.le_refl _) listed] at stored
      change content = .checkpoint block at stored
      subst stored
      obtain ⟨pages, _, pack⟩ := step.wrote.pack
      rw [pack] at listed
      refine ⟨0, Nat.zero_le _, ?_⟩
      rw [eq_packBlock listed, step.lies.version]
      exact (BitVec.sub_zero _).symm
    · have unwritten : ∀ write ∈
          written.pack.take ((written.writes call).length - call.metaWrites.length),
          write.1 ≠ sup.cp.packAddr (!valid.second) + index := by
        rintro write taken equal
        exact inPack (equal ▸ List.mem_map_of_mem (List.mem_of_mem_take taken))
      rw [packView_eq (step.crashed_unwritten inside unwritten)] at stored
      obtain ⟨past, few, found⟩ := young _ index inside block stored crcValid
      exact ⟨past + 1, Nat.succ_le_succ few, older found⟩

theorem cpRun_young {start last : CpWorld} {calls : List (CpCall sup)} {age : Nat}
    (laidOut : sup.LaidOut) (mounted : CpMounted image sup start) (young : Young image sup start age)
    (run : CpRun image sup start calls last) : Young image sup last (age + calls.length) := by
  induction run generalizing age with
  | nil => exact young
  | cons admitted regular wrote synced _ induction =>
      obtain ⟨valid, selected⟩ := mounted.selected
      have step := checkpointing laidOut mounted selected admitted regular
        (writeCheckpoint_wrote laidOut admitted wrote) synced
      have later := induction (step.mounted_after rfl) (step.young young)
      rw [List.length_cons, Nat.add_comm _ 1, ← Nat.add_assoc]
      exact later

/-- In a short history a pack is regular when it fits and its orphan blocks are full. -/
theorem cpRun_regular {start : CpWorld} {calls : List (CpCall sup)} {age : Nat}
    (laidOut : sup.LaidOut) (mounted : CpMounted image sup start) (young : Young image sup start age)
    (run : CpRun image sup start calls world) (short : age + calls.length + 1 < 2 ^ 64)
    (fits : call.packBlocks ≤ sup.sbi.blocksPerSeg)
    (filled : getOrphanBlocks call.cp.orphans.length = getOrphanBlocks call.cp.nOrphans) :
    CpRegular image sup world call := by
  refine ⟨fits, filled, ?_⟩
  intro block stored crcValid same
  have positive : 2 ≤ call.packBlocks := by
    rw [CpCall.packBlocks, cpPacks]
    omega
  have place : startCpAddr sup.cp (world.version + 1) + call.packBlocks - 1 =
      sup.cp.packAddr (usesSecond (world.version + 1)) + (call.packBlocks - 1) := by
    rw [startCpAddr_eq]
    omega
  rw [place] at stored
  obtain ⟨past, few, found⟩ := cpRun_young laidOut mounted young run _ (call.packBlocks - 1)
    (by omega) block stored crcValid
  rw [same] at found
  have small : past + 1 < 2 ^ 64 := by omega
  have numbers : (BitVec.ofNat 64 (past + 1)).toNat = 0 := by
    have zero : BitVec.ofNat 64 (past + 1) = 0 := by
      have next : BitVec.ofNat 64 (past + 1) = BitVec.ofNat 64 past + 1 := BitVec.ofNat_add past 1
      rw [next]
      generalize BitVec.ofNat 64 past = offset at found
      bv_omega
    rw [zero]
    rfl
  rw [BitVec.toNat_ofNat, Nat.mod_eq_of_lt small] at numbers
  omega

/-! ## A pack that does not fit -/

/-- A pack which begins in the first segment and whose orphan blocks reach the second one overwrites
the last checkpoint before it is complete. -/
theorem overflow_loses (laidOut : sup.LaidOut) (admitted : CpAdmitted sup world call)
    (wrote : CpWrote image call written) (synced : SyncsMeta call written.nm written.segments)
    (filled : getOrphanBlocks call.cp.orphans.length = getOrphanBlocks call.cp.nOrphans)
    (fresh : ∀ block, packView world.device
        (startCpAddr sup.cp (world.version + 1) + call.packBlocks - 1) = .checkpoint block →
      block.crcValid image = true → block.raw.checkpointVer ≠ world.version + 1)
    (inFirst : usesSecond (world.version + 1) = false)
    (payload : 1 + sup.cpPayload ≤ sup.sbi.blocksPerSeg)
    (beyond : sup.sbi.blocksPerSeg < 1 + sup.cpPayload + getOrphanBlocks call.cp.nOrphans)
    (within : call.packBlocks ≤ 2 * sup.sbi.blocksPerSeg) :
    ∃ count < (written.writes call).length,
      getValidCheckpoint image sup.cp (packView (crashed world call written count)) = none := by
  have lies := wrote.packLies admitted filled
  have start : startCpAddr sup.cp (world.version + 1) = sup.cpBlkaddr := by
    rw [startCpAddr_eq, inFirst]
    rfl
  have total : call.packBlocks = 2 + sup.cpPayload + npagesForSummaryFlush sup.cp call.cp +
    getOrphanBlocks call.cp.nOrphans + nodeSumBlocks call.cpc.reason := rfl
  have positive := npagesForSummaryFlush_pos sup.cp call.cp
  rw [start] at fresh
  obtain ⟨pages, length, pack⟩ := wrote.pack
  obtain ⟨rest, head⟩ := lies.head
  obtain ⟨before, last⟩ := lies.last
  rw [start] at head last
  -- the orphan block at the start of the second segment
  obtain ⟨page, orphan⟩ : ∃ page,
      (sup.cpBlkaddr + sup.sbi.blocksPerSeg, Block.bytes page) ∈ written.pack := by
    have inside : sup.sbi.blocksPerSeg - 1 - sup.cpPayload < pages.length := by omega
    refine ⟨pages[sup.sbi.blocksPerSeg - 1 - sup.cpPayload], ?_⟩
    have inOrphans : (sup.cpBlkaddr + sup.sbi.blocksPerSeg,
        Block.bytes pages[sup.sbi.blocksPerSeg - 1 - sup.cpPayload]) ∈
        Device.consecutive (orphanStart sup.cp written.cp) (pages.map Block.bytes) := by
      rw [Device.mem_consecutive, orphanStart, wrote.packStart_eq admitted, start]
      refine ⟨sup.sbi.blocksPerSeg - 1 - sup.cpPayload, ?_, ?_⟩
      · rw [List.getElem?_map, List.getElem?_eq_getElem inside]
        rfl
      · have same : sup.cp.cpPayload = sup.cpPayload := rfl
        rw [same]
        omega
    rw [pack, packWrites]
    simp only [List.mem_append]
    exact .inl (.inl (.inl (.inr inOrphans)))
  obtain ⟨earlier, later, split⟩ := List.append_of_mem orphan
  have ordered := lies.ordered
  rw [split, Device.Ordered, List.map_append, List.map_cons, List.pairwise_append] at ordered
  obtain ⟨_, _, below⟩ := ordered
  have headTaken : (sup.cpBlkaddr, Block.checkpoint
      (packBlock image sup.cp call.cpc.reason written.cp)) ∈ earlier := by
    have same := split.symm.trans head
    cases earlier with
    | nil =>
        rw [List.nil_append, List.cons.injEq, Prod.mk.injEq] at same
        exact Block.noConfusion same.1.2
    | cons first earlier =>
        rw [List.cons_append, List.cons.injEq] at same
        rw [same.1]
        exact List.mem_cons_self
  have takes : written.pack.take (call.metaWrites.length + earlier.length + 1 -
      call.metaWrites.length) = earlier ++
        [(sup.cpBlkaddr + sup.sbi.blocksPerSeg, Block.bytes page)] := by
    have count : call.metaWrites.length + earlier.length + 1 - call.metaWrites.length =
        earlier.length + 1 := by omega
    rw [count, split, List.take_append, List.take_of_length_le (Nat.le_succ _),
      Nat.add_sub_cancel_left, List.take_succ_cons, List.take_zero]
  have upTo : ∀ write ∈ earlier ++ [(sup.cpBlkaddr + sup.sbi.blocksPerSeg, Block.bytes page)],
      write.1 ≤ sup.cpBlkaddr + sup.sbi.blocksPerSeg := by
    intro write listed
    rcases List.mem_append.mp listed with inEarlier | isLast
    · exact Nat.le_of_lt (below write.1 (List.mem_map_of_mem inEarlier) _ List.mem_cons_self)
    · rw [List.mem_singleton.mp isLast]
  have lastListed : (sup.cpBlkaddr + call.packBlocks - 1, Block.checkpoint
      (packBlock image sup.cp call.cpc.reason written.cp)) ∈ written.pack := by
    rw [last]
    exact List.mem_append_right _ (List.mem_singleton_self _)
  refine ⟨call.metaWrites.length + earlier.length + 1, ?_, ?_⟩
  · by_contra finished
    have whole : written.pack.take (call.metaWrites.length + earlier.length + 1 -
        call.metaWrites.length) = written.pack := by
      apply List.take_of_length_le
      rw [CpWritten.writes, List.length_append, packedWrites, List.length_map] at finished
      omega
    rw [← whole, takes] at lastListed
    have low := upTo _ lastListed
    dsimp only at low
    omega
  · set count := call.metaWrites.length + earlier.length + 1
    have first : packView (crashed world call written count) (sup.cp.packAddr false) =
        .checkpoint (packBlock image sup.cp call.cpc.reason written.cp) := by
      have taken := List.mem_append_left
        [(sup.cpBlkaddr + sup.sbi.blocksPerSeg, Block.bytes page)] headTaken
      rw [← takes] at taken
      have stored : crashed world call written count sup.cpBlkaddr = .pack _ :=
        crashed_of_taken lies.ordered taken
      rw [packView, show sup.cp.packAddr false = sup.cpBlkaddr from rfl, stored]
      rfl
    have second : packView (crashed world call written count) (sup.cp.packAddr true) =
        .bytes page := by
      have taken := List.mem_append_right earlier
        (List.mem_singleton_self (sup.cpBlkaddr + sup.sbi.blocksPerSeg, Block.bytes page))
      rw [← takes] at taken
      have stored : crashed world call written count (sup.cpBlkaddr + sup.sbi.blocksPerSeg) =
          .pack _ := crashed_of_taken lies.ordered taken
      rw [packView, show sup.cp.packAddr true = sup.cpBlkaddr + sup.sbi.blocksPerSeg from rfl, stored]
      rfl
    have trailer : packView (crashed world call written count)
          (sup.cpBlkaddr + call.packBlocks - 1) =
        packView world.device (sup.cpBlkaddr + call.packBlocks - 1) := by
      apply packView_eq
      apply crashed_of_untaken
      · intro write listed equal
        have behind := synced.behind laidOut write listed
        omega
      · intro write taken equal
        rw [takes] at taken
        have low := upTo write taken
        omega
    have notFirst : validateCheckpoint image (packView (crashed world call written count))
        (sup.cp.packAddr false) = none := by
      unfold validateCheckpoint
      rw [first]
      dsimp only
      rw [lies.valid, if_pos rfl, lies.total, show sup.cp.packAddr false = sup.cpBlkaddr from rfl,
        trailer]
      cases stale : packView world.device (sup.cpBlkaddr + call.packBlocks - 1) with
      | bytes _ => rfl
      | checkpoint block =>
          dsimp only
          rw [if_neg]
          rintro ⟨crcValid, same⟩
          exact fresh block stale crcValid (same.trans lies.version)
    have notSecond : validateCheckpoint image (packView (crashed world call written count))
        (sup.cp.packAddr true) = none := by
      unfold validateCheckpoint
      rw [second]
    unfold getValidCheckpoint
    rw [notFirst, notSecond]

/-- As many orphans as `max_orphans` allows. -/
def manyOrphans : List UInt32 := (List.range payloadVolume.cp.maxOrphans).map UInt32.ofNat

theorem manyOrphans_nodup : manyOrphans.Nodup := by
  apply List.Nodup.map_on _ List.nodup_range
  intro left leftSmall right rightSmall same
  have limit : payloadVolume.cp.maxOrphans < 2 ^ 32 := by decide
  have leftSmall := List.mem_range.mp leftSmall
  have rightSmall := List.mem_range.mp rightSmall
  have numbers := congrArg UInt32.toNat same
  rw [UInt32.toNat_ofNat', UInt32.toNat_ofNat', Nat.mod_eq_of_lt (by omega),
    Nat.mod_eq_of_lt (by omega)] at numbers
  exact numbers

/-- No checkpoint is left after some crash. -/
theorem orphansCall_loses {orphans : List UInt32} (nodup : orphans.Nodup)
    (length : orphans.length = 514080) {written : CpWritten payloadVolume}
    (wrote : checkpointWrites checkpointImage payloadVolume (orphansCall orphans nodup) =
      some written) :
    ∃ count < (written.writes (orphansCall orphans nodup)).length,
      getValidCheckpoint checkpointImage payloadVolume.cp
        (packView (crashed secondWorld (orphansCall orphans nodup) written count)) = none := by
  have admitted := orphansCall_admitted nodup
    (show orphans.length ≤ payloadVolume.cp.maxOrphans by rw [length]; decide)
  have blocks : getOrphanBlocks (orphansCall orphans nodup).cp.nOrphans = 504 := by
    change getOrphanBlocks orphans.length = 504
    rw [length]
    decide
  have total : (orphansCall orphans nodup).packBlocks = 515 := by
    rw [CpCall.packBlocks, blocks]
    rfl
  apply overflow_loses payloadVolume_laidOut admitted
    (checkpointWrites_wrote payloadVolume_laidOut admitted wrote)
    (orphansCall_synced nodup written.nm written.segments) rfl
  · intro block stored
    rw [total, show packView secondWorld.device = packView secondDevice from rfl,
      secondDevice_bytes (by decide)] at stored
    cases stored
  · decide
  · decide
  · rw [blocks]
    decide
  · rw [total]
    decide

/-- With a payload of eight blocks and all the orphans `max_orphans` allows there is a crash after
which no checkpoint is left. -/
theorem not_crashSafe_overflow :
    payloadVolume.LaidOut ∧ CpMounted checkpointImage payloadVolume secondWorld ∧
      CpAdmitted payloadVolume secondWorld (orphansCall manyOrphans manyOrphans_nodup) ∧
      ∃ written, checkpointWrites checkpointImage payloadVolume
          (orphansCall manyOrphans manyOrphans_nodup) = some written ∧
        SyncsMeta (orphansCall manyOrphans manyOrphans_nodup) written.nm written.segments ∧
        ¬ ∃ valid, Selected checkpointImage payloadVolume secondWorld valid ∧
          ∀ count, CrashSafe checkpointImage payloadVolume secondWorld
            (orphansCall manyOrphans manyOrphans_nodup) written valid count := by
  have length : manyOrphans.length = 514080 := by
    rw [manyOrphans, List.length_map, List.length_range]
    rfl
  have limited : manyOrphans.length ≤ payloadVolume.cp.maxOrphans := by
    rw [length]
    decide
  have admitted := orphansCall_admitted manyOrphans_nodup limited
  obtain ⟨written, wrote⟩ := @checkpointWrites_total checkpointImage _ _ _ payloadVolume_laidOut
    admitted fun impossible => CpReason.noConfusion impossible
  refine ⟨payloadVolume_laidOut, secondWorld_mounted, admitted, written, wrote,
    orphansCall_synced manyOrphans_nodup written.nm written.segments, ?_⟩
  rintro ⟨valid, _, safe⟩
  obtain ⟨count, unfinished, lost⟩ := orphansCall_loses manyOrphans_nodup length wrote
  have kept := (safe count).previous unfinished
  rw [lost] at kept
  cases kept

end F2fs
end StorageStack
