import StorageStack.F2fs.Mount
import StorageStack.F2fs.PackLayout

/-!
# Reading back a checkpoint pack

The blocks of a pack lie one section behind the other, so each reader finds what its writer left.
The whole pack reads back unless `cp_payload` or blocks reserved for orphans in excess get into the
way.
-/

namespace StorageStack
namespace F2fs

/-! ## The sections of a pack -/

theorem npagesForSummaryFlush_le (sup : CpSuper) (s : CpState sup) :
    npagesForSummaryFlush sup s ≤ nrCursegDataType := by
  unfold npagesForSummaryFlush
  split_ifs <;> decide

theorem npagesForSummaryFlush_pos (sup : CpSuper) (s : CpState sup) :
    0 < npagesForSummaryFlush sup s := by
  unfold npagesForSummaryFlush
  split_ifs <;> decide

theorem addresses_writeDataSummaries (stale : Nat → Page) (sup : CpSuper) (s : CpState sup)
    (blkaddr : Nat) :
    (writeDataSummaries stale sup s blkaddr).map Prod.fst =
      (List.range (npagesForSummaryFlush sup s)).map (blkaddr + ·) := by
  unfold writeDataSummaries
  split
  · next compact => exact addresses_writeCompactedSummaries stale sup s blkaddr compact
  · next normal =>
      have three : npagesForSummaryFlush sup s = dataLogs.length :=
        Nat.le_antisymm (npagesForSummaryFlush_le sup s) (Nat.le_of_not_lt normal)
      rw [writeNormalSummaries, Device.map_fst_consecutive, List.length_map, three]

theorem addresses_writeNodeSummaries {sup : CpSuper} (reason : CpReason) (s : CpState sup)
    (blkaddr : Nat) :
    (writeNodeSummaries reason s blkaddr).map Prod.fst =
      (List.range (nodeSumBlocks reason)).map (blkaddr + ·) := by
  cases reason with
  | umount => rfl
  | sync => rfl
  | discard => rfl

section Pack

variable (image : RawCheckpoint → Page) (stale : Nat → Page) (sup : CpSuper) (reason : CpReason)
  (s : CpState sup)

/-- The first block of the pack. -/
def packStart : Nat := startCpAddr sup s.ckpt.checkpointVer

/-- The first block behind the payload. -/
def orphanStart : Nat := packStart sup s + 1 + sup.cpPayload

/-- The first block behind the orphan blocks. -/
def sumStart : Nat := orphanStart sup s + getOrphanBlocks s.nOrphans

/-- The first block behind the data summaries. -/
def nodeStart : Nat := sumStart sup s + npagesForSummaryFlush sup s

/-- The last block. -/
def packEnd : Nat := nodeStart sup s + nodeSumBlocks reason

/-- The checkpoint block of the pack. -/
def packBlock : CpBlock := sealCheckpoint image (updateCheckpoint sup reason s)

/-- The payload of the pack. -/
def payloadWrites : List (Nat × Block) :=
  Device.consecutive (packStart sup s + 1)
    ((List.range sup.cpPayload).map fun index => .bytes (putSitBitmap sup s (index + 1)))

/-- The blocks of a pack with the given orphan blocks. -/
def packWrites (pages : List Page) : List (Nat × Block) :=
  [(packStart sup s, .checkpoint (packBlock image sup reason s))] ++ payloadWrites sup s ++
    Device.consecutive (orphanStart sup s) (pages.map Block.bytes) ++
    writeDataSummaries stale sup s (sumStart sup s) ++
    writeNodeSummaries reason s (nodeStart sup s) ++
    [(packEnd sup reason s, .checkpoint (packBlock image sup reason s))]

variable {sup s}

/-- `do_checkpoint` writes the orphan blocks the list needs. -/
theorem doCheckpoint_eq (listed : s.orphans.length ≤ s.nOrphans) :
    ∃ pages : List Page,
      doCheckpoint image stale sup reason s = some (packWrites image stale sup reason s pages) ∧
      pages.length = getOrphanBlocks s.orphans.length ∧
      pages.flatMap orphanInos = s.orphans := by
  unfold doCheckpoint
  by_cases none : s.nOrphans = 0
  · have empty : s.orphans = [] := List.length_eq_zero_iff.mp (by omega)
    refine ⟨[], ?_, by rw [empty]; rfl, by rw [empty]; rfl⟩
    simp only [none, ne_eq, not_true_eq_false, if_false, Option.map_some]
    unfold packWrites packEnd nodeStart sumStart orphanStart packStart payloadWrites packBlock
    simp only [none]
    rfl
  · have space : s.orphans.length ≤ getOrphanBlocks s.nOrphans * orphansPerBlock :=
      listed.trans (getOrphanBlocks_le_iff.mp (Nat.le_refl _))
    obtain ⟨pages, written, length, holds⟩ := writeOrphanInodes_eq (orphanStart sup s) space
    refine ⟨pages, ?_, length, holds⟩
    simp only [ne_eq, none, not_false_eq_true, if_true]
    unfold orphanStart packStart at written
    rw [written, Option.map_some]
    rfl

theorem addresses_payloadWrites :
    (payloadWrites sup s).map Prod.fst =
      (List.range sup.cpPayload).map (packStart sup s + 1 + ·) := by
  rw [payloadWrites, Device.map_fst_consecutive, List.length_map, List.length_range]

theorem addresses_orphans (pages : List Page) :
    (Device.consecutive (orphanStart sup s) (pages.map Block.bytes)).map Prod.fst =
      (List.range pages.length).map (orphanStart sup s + ·) := by
  rw [Device.map_fst_consecutive, List.length_map]

/-- The addresses of the pack, section by section. -/
theorem mem_packWrites_addresses {pages : List Page} {address : Nat} :
    address ∈ (packWrites image stale sup reason s pages).map Prod.fst ↔
      address = packStart sup s ∨
      (packStart sup s + 1 ≤ address ∧ address < packStart sup s + 1 + sup.cpPayload) ∨
      (orphanStart sup s ≤ address ∧ address < orphanStart sup s + pages.length) ∨
      (sumStart sup s ≤ address ∧ address < sumStart sup s + npagesForSummaryFlush sup s) ∨
      (nodeStart sup s ≤ address ∧ address < nodeStart sup s + nodeSumBlocks reason) ∨
      address = packEnd sup reason s := by
  unfold packWrites
  simp only [List.map_append, List.mem_append, addresses_payloadWrites, addresses_orphans,
    addresses_writeDataSummaries, addresses_writeNodeSummaries, Device.mem_addresses,
    List.map_cons, List.map_nil, List.mem_singleton, or_assoc]

/-- The sections lie one behind the other. -/
theorem ordered_packWrites {pages : List Page}
    (fits : pages.length ≤ getOrphanBlocks s.nOrphans) :
    Device.Ordered (packWrites image stale sup reason s pages) := by
  have single (address : Nat) (block : Block) : Device.Ordered [(address, block)] :=
    List.pairwise_singleton _ _
  have orphansAt : orphanStart sup s = packStart sup s + 1 + sup.cpPayload := rfl
  have sumsAt : sumStart sup s = orphanStart sup s + getOrphanBlocks s.nOrphans := rfl
  have nodesAt : nodeStart sup s = sumStart sup s + npagesForSummaryFlush sup s := rfl
  have endAt : packEnd sup reason s = nodeStart sup s + nodeSumBlocks reason := rfl
  unfold packWrites
  refine (((((single _ _).append (Device.ordered_of_addresses addresses_payloadWrites)
    (packStart sup s + 1) ?_ ?_).append (Device.ordered_of_addresses (addresses_orphans pages))
    (orphanStart sup s) ?_ ?_).append
    (Device.ordered_of_addresses (addresses_writeDataSummaries stale sup s _))
    (sumStart sup s) ?_ ?_).append
    (Device.ordered_of_addresses (addresses_writeNodeSummaries reason s _))
    (nodeStart sup s) ?_ ?_).append (single _ _) (packEnd sup reason s) ?_ ?_
  all_goals
    intro address member
    simp only [List.map_append, List.mem_append, addresses_payloadWrites, addresses_orphans,
      addresses_writeDataSummaries, addresses_writeNodeSummaries, Device.mem_addresses,
      List.map_cons, List.map_nil, List.mem_singleton] at member
    omega

/-! ## Reading the sections -/

theorem packEnd_eq (s : CpState sup) : packEnd sup reason s + 1 =
    packStart sup s + (packBlock image sup reason s).raw.cpPackTotalBlockCount := by
  have total : (packBlock image sup reason s).raw.cpPackTotalBlockCount =
      2 + sup.cpPayload + npagesForSummaryFlush sup s + getOrphanBlocks s.nOrphans +
        nodeSumBlocks reason := rfl
  rw [total, packEnd, nodeStart, sumStart, orphanStart]
  omega

theorem crcValid_packBlock : (packBlock image sup reason s).crcValid image = true := by
  have bounded : (packBlock image sup reason s).raw.checksumOffset < pageCacheSize :=
    s.checksumOffset_lt
  rw [CpBlock.crcValid, decide_eq_true bounded, Bool.true_and]
  exact beq_self_eq_true _

section Written

variable {image stale reason} {device : Device Block} {pages : List Page}

/-- A block of the pack is on the device afterwards. -/
theorem persist_packWrites (fits : pages.length ≤ getOrphanBlocks s.nOrphans) {address : Nat}
    {block : Block} (written : (address, block) ∈ packWrites image stale sup reason s pages) :
    device.persist (packWrites image stale sup reason s pages) address = block :=
  Device.persist_of_mem (ordered_packWrites image stale reason fits) written

theorem persist_packStart (fits : pages.length ≤ getOrphanBlocks s.nOrphans) :
    device.persist (packWrites image stale sup reason s pages) (packStart sup s) =
      .checkpoint (packBlock image sup reason s) := by
  apply persist_packWrites fits
  simp [packWrites]

theorem persist_packEnd (fits : pages.length ≤ getOrphanBlocks s.nOrphans) :
    device.persist (packWrites image stale sup reason s pages) (packEnd sup reason s) =
      .checkpoint (packBlock image sup reason s) := by
  apply persist_packWrites fits
  simp [packWrites]

/-- `validate_checkpoint` accepts the pack. -/
theorem validateCheckpoint_packWrites (fits : pages.length ≤ getOrphanBlocks s.nOrphans) :
    validateCheckpoint image (device.persist (packWrites image stale sup reason s pages))
        (packStart sup s) =
      some (s.ckpt.checkpointVer, packBlock image sup reason s) := by
  have trailer : packStart sup s + (packBlock image sup reason s).raw.cpPackTotalBlockCount - 1 =
      packEnd sup reason s := by
    rw [← packEnd_eq image reason s]
    exact Nat.add_sub_cancel _ _
  unfold validateCheckpoint
  simp only [persist_packStart fits, crcValid_packBlock image reason, if_true, trailer,
    persist_packEnd fits, and_self]
  rfl

/-- The summary block of a log which `write_normal_summaries` has written. -/
theorem persist_normalSummary (fits : pages.length ≤ getOrphanBlocks s.nOrphans)
    {blkaddr index : Nat} {types : List CursegType} {type : CursegType}
    (inSection : ∀ write ∈ writeNormalSummaries s blkaddr types,
      write ∈ packWrites image stale sup reason s pages)
    (found : types[index]? = some type) :
    device.persist (packWrites image stale sup reason s pages) (blkaddr + index) =
      .bytes (s.curseg type).sumBlk := by
  apply persist_packWrites fits
  apply inSection
  apply Device.mem_consecutive.mpr
  exact ⟨index, by rw [List.getElem?_map, found]; rfl, rfl⟩

theorem resetFooter_restored {type : CursegType} {sum : Page}
    (restored : SummaryRestored sup type (s.curseg type) sum) :
    SummaryRestored sup type (s.curseg type) (resetFooter type sum) := by
  have bounded := (keptEntries_le (s.curseg type)).trans sup.sbi.blocksPerSeg_le
  constructor
  · intro index inside byte inEntry
    have small : byte < 7 := inEntry.trans_le (by split <;> decide)
    have below : summarySize * index + byte < footerOffset := by
      unfold summarySize footerOffset pageCacheSize sumFooterSize
      omega
    rw [resetFooter_below below]
    exact restored.entries index inside byte inEntry
  · intro has byte inside
    have below : journalOffset + byte < footerOffset := by
      unfold sumJournalSize at inside
      unfold journalOffset footerOffset
      omega
    rw [resetFooter_below below]
    exact restored.journal has byte inside

/-- Clearing the versions keeps the node numbers. -/
theorem clearVersions_restored {type : CursegType} (node : type.isDataseg = false) :
    SummaryRestored sup type (s.curseg type) (clearVersions sup (s.curseg type).sumBlk) := by
  constructor
  · intro index _ byte inEntry
    rw [node, if_neg (by decide)] at inEntry
    rw [clearVersions, if_neg]
    unfold summarySize
    omega
  · rintro (rfl | rfl) <;> cases node

/-- The data summaries read back. -/
theorem dataSummary_restored (fits : pages.length ≤ getOrphanBlocks s.nOrphans) {type : CursegType}
    (data : type.isDataseg = true) :
    SummaryRestored sup type (s.curseg type)
      (restoreSumBlocks image sup (packBlock image sup reason s).raw
        (device.persist (packWrites image stale sup reason s pages)) type) := by
  have compactFlag : (packBlock image sup reason s).raw.compactSumFlag =
      decide (npagesForSummaryFlush sup s < nrCursegDataType) := rfl
  have inSection : ∀ write ∈ writeDataSummaries stale sup s (sumStart sup s),
      write ∈ packWrites image stale sup reason s pages := by
    intro write member
    simp [packWrites, member]
  unfold restoreSumBlocks
  by_cases compact : npagesForSummaryFlush sup s < nrCursegDataType
  · rw [if_pos ⟨compactFlag.trans (decide_eq_true compact), data⟩]
    have start : startSumBlock sup (packBlock image sup reason s).raw = sumStart sup s := by
      change packStart sup s + (1 + sup.cpPayload + getOrphanBlocks s.nOrphans) = sumStart sup s
      rw [sumStart, orphanStart]
      omega
    have stands : ∀ address page,
        (address, .bytes page) ∈ writeCompactedSummaries stale sup s (startSumBlock sup
          (packBlock image sup reason s).raw) →
        contentOf image (device.persist (packWrites image stale sup reason s pages)) address =
          page := by
      intro address page written
      rw [start] at written
      have inData : (address, .bytes page) ∈ writeDataSummaries stale sup s (sumStart sup s) := by
        rwa [writeDataSummaries, if_pos compact]
      rw [contentOf, persist_packWrites fits (inSection _ inData)]
      rfl
    exact readCompactedSummaries_restored rfl rfl stands data
  · rw [if_neg (by rw [compactFlag, decide_eq_false compact]; simp)]
    have three : npagesForSummaryFlush sup s = 3 :=
      Nat.le_antisymm (npagesForSummaryFlush_le sup s) (Nat.le_of_not_lt compact)
    rw [writeDataSummaries, if_neg compact] at inSection
    have address : normalSumAddr sup (packBlock image sup reason s).raw type =
        sumStart sup s + type.toNat := by
      have total := packEnd_eq image reason s
      have endAt : packEnd sup reason s =
        sumStart sup s + npagesForSummaryFlush sup s + nodeSumBlocks reason := rfl
      rw [normalSumAddr, if_pos data, sumBlkAddr]
      change packStart sup s + (packBlock image sup reason s).raw.cpPackTotalBlockCount -
        ((if (reason == .umount) = true then nrCursegType else nrCursegDataType) + 1) + type.toNat = _
      rw [← total, endAt, three]
      cases reason with
      | umount => rfl
      | sync => rfl
      | discard => rfl
    unfold readNormalSummaries
    dsimp only
    rw [if_pos data, address]
    apply resetFooter_restored
    have found : dataLogs[type.toNat]? = some type := by
      cases type with
      | hotData => rfl
      | warmData => rfl
      | coldData => rfl
      | hotNode => cases data
      | warmNode => cases data
      | coldNode => cases data
    rw [persist_normalSummary fits inSection found]
    exact ⟨fun _ _ _ _ => rfl, fun _ _ _ => rfl⟩

/-- The node summaries of an unmount read back. -/
theorem nodeSummary_restored (fits : pages.length ≤ getOrphanBlocks s.nOrphans) {type : CursegType}
    (node : type.isDataseg = false) :
    SummaryRestored sup type (s.curseg type)
      (restoreSumBlocks image sup (packBlock image sup .umount s).raw
        (device.persist (packWrites image stale sup .umount s pages)) type) := by
  have inSection : ∀ write ∈ writeNormalSummaries s (nodeStart sup s) nodeLogs,
      write ∈ packWrites image stale sup .umount s pages := by
    intro write member
    simp [packWrites, writeNodeSummaries, member]
  have flag : (packBlock image sup .umount s).raw.umountFlag = true := rfl
  have total := packEnd_eq image .umount s
  have endAt : packEnd sup .umount s = nodeStart sup s + 3 := rfl
  have address : normalSumAddr sup (packBlock image sup .umount s).raw type =
      nodeStart sup s + (type.toNat - 3) := by
    rw [normalSumAddr, node, if_neg (by decide), if_pos flag, sumBlkAddr]
    change packStart sup s + (packBlock image sup .umount s).raw.cpPackTotalBlockCount - (3 + 1) +
      (type.toNat - 3) = _
    rw [← total, endAt]
    omega
  have found : nodeLogs[type.toNat - 3]? = some type := by
    cases type with
    | hotData => cases node
    | warmData => cases node
    | coldData => cases node
    | hotNode => rfl
    | warmNode => rfl
    | coldNode => rfl
  rw [restoreSumBlocks, node, if_neg (by simp), readNormalSummaries]
  rw [node, if_neg (by decide), if_pos flag, address]
  apply resetFooter_restored
  rw [persist_normalSummary fits inSection found]
  exact clearVersions_restored node

/-! ## Orphans -/

/-- The block of an orphan page. -/
theorem persist_orphanBlock (fits : pages.length ≤ getOrphanBlocks s.nOrphans) {index : Nat}
    (inside : index < pages.length) :
    device.persist (packWrites image stale sup reason s pages) (orphanStart sup s + index) =
      .bytes pages[index] := by
  apply persist_packWrites fits
  have member : (orphanStart sup s + index, Block.bytes pages[index]) ∈
      Device.consecutive (orphanStart sup s) (pages.map Block.bytes) := by
    apply Device.mem_consecutive.mpr
    exact ⟨index, by simp [inside], rfl⟩
  simp [packWrites, member]

/-- A block reserved for orphans in excess stays as it was. -/
theorem persist_reserved {index : Nat} (unused : pages.length ≤ index)
    (reserved : index < getOrphanBlocks s.nOrphans) :
    device.persist (packWrites image stale sup reason s pages) (orphanStart sup s + index) =
      device (orphanStart sup s + index) := by
  have orphansAt : orphanStart sup s = packStart sup s + 1 + sup.cpPayload := rfl
  have sumsAt : sumStart sup s = orphanStart sup s + getOrphanBlocks s.nOrphans := rfl
  have nodesAt : nodeStart sup s = sumStart sup s + npagesForSummaryFlush sup s := rfl
  have endAt : packEnd sup reason s = nodeStart sup s + nodeSumBlocks reason := rfl
  apply Device.persist_of_notMem
  rw [mem_packWrites_addresses]
  omega

theorem orphanInos_eq_nil_iff {page : Page} :
    orphanInos page = [] ↔ page.le32 orphanEntryCount = 0 := by
  rw [orphanInos, List.map_eq_nil_iff, List.range_eq_nil]
  rw [← UInt32.toNat_inj]
  rfl

/-- What the orphan blocks of the pack hold: the list, and what was in the blocks it leaves. -/
theorem orphanInos_packWrites (fits : pages.length ≤ getOrphanBlocks s.nOrphans) :
    (List.range (getOrphanBlocks s.nOrphans)).flatMap (fun index =>
        orphanInos ((device.persist (packWrites image stale sup reason s pages)
          (orphanStart sup s + index)).page image)) =
      pages.flatMap orphanInos ++
        (List.range (getOrphanBlocks s.nOrphans - pages.length)).flatMap fun index =>
          orphanInos ((device (orphanStart sup s + (pages.length + index))).page image) := by
  have split : getOrphanBlocks s.nOrphans =
      pages.length + (getOrphanBlocks s.nOrphans - pages.length) := by omega
  rw [split, List.range_add, List.flatMap_append, List.flatMap_map, ← split]
  congr 1
  · rw [List.flatMap_def, List.flatMap_def]
    congr 1
    apply List.ext_getElem (by simp)
    intro index _ inside
    rw [List.length_map] at inside
    rw [List.getElem_map, List.getElem_map, List.getElem_range, persist_orphanBlock fits inside]
    rfl
  · rw [List.flatMap_def, List.flatMap_def]
    congr 1
    apply List.map_congr_left
    intro index inside
    rw [List.mem_range] at inside
    rw [persist_reserved (by omega) (by omega)]

end Written

end Pack

/-! ## The whole pack -/

section ReadBack

variable (image : RawCheckpoint → Page) (sup : CpSuper) (reason : CpReason) (s : CpState sup)
  (device : Device Block)

/-- The pack lies in its segment, its blocks lie apart, and each reader finds on the device after
the writes what `do_checkpoint` has put into the pack. -/
structure PackReadsBack (writes : List (Nat × Block)) : Prop where
  fits : (packBlock image sup reason s).raw.cpPackTotalBlockCount ≤ sup.sbi.blocksPerSeg
  inside : ∀ write ∈ writes, packStart sup s ≤ write.1 ∧
    write.1 < packStart sup s + (packBlock image sup reason s).raw.cpPackTotalBlockCount
  apart : Device.Ordered writes
  trailer : device.persist writes
      (packStart sup s + (packBlock image sup reason s).raw.cpPackTotalBlockCount - 1) =
    .checkpoint (packBlock image sup reason s)
  validated : validateCheckpoint image (device.persist writes) (packStart sup s) =
    some (s.ckpt.checkpointVer, packBlock image sup reason s)
  summaries : ∀ type, type.isDataseg = true ∨ reason = .umount →
    SummaryRestored sup type (s.curseg type)
      (restoreSumBlocks image sup (packBlock image sup reason s).raw (device.persist writes) type)
  orphanBlocks :
    (recoverOrphanInodes image sup (packBlock image sup reason s).raw
        (device.persist writes)).blocks =
      (List.range (getOrphanBlocks s.nOrphans)).map (orphanStart sup s + ·)
  orphanInos :
    (recoverOrphanInodes image sup (packBlock image sup reason s).raw
        (device.persist writes)).inos = s.orphans

/-- No block reserved for orphans which the list does not reach holds an entry count. -/
def ReservedEmpty : Prop :=
  ∀ index, getOrphanBlocks s.orphans.length ≤ index → index < getOrphanBlocks s.nOrphans →
    ((device (orphanStart sup s + index)).page image).le32 orphanEntryCount = 0

/-- Without orphans the payload and the summaries fit the segment; with orphans there is no payload,
and the blocks reserved in excess are empty. -/
def PackRegular : Prop :=
  (s.nOrphans = 0 ∧
    cpPacks + sup.cpPayload + npagesForSummaryFlush sup s + nodeSumBlocks reason ≤
      sup.sbi.blocksPerSeg) ∨
  (sup.cpPayload = 0 ∧ ReservedEmpty image sup s device)

variable {image sup reason s device}

/-- With orphans present `recover_orphan_inodes` reads as many blocks more as the payload has. -/
theorem recoverOrphanInodes_blocks (writes : List (Nat × Block)) (present : s.nOrphans ≠ 0) :
    (recoverOrphanInodes image sup (packBlock image sup reason s).raw
        (device.persist writes)).blocks =
      (List.range (sup.cpPayload + getOrphanBlocks s.nOrphans)).map (orphanStart sup s + ·) := by
  have flag : (packBlock image sup reason s).raw.orphanPresentFlag = true := bne_iff_ne.mpr present
  have count : (packBlock image sup reason s).raw.cpPackStartSum - 1 =
      sup.cpPayload + getOrphanBlocks s.nOrphans := by
    change 1 + sup.cpPayload + getOrphanBlocks s.nOrphans - 1 = _
    omega
  rw [recoverOrphanInodes, if_pos flag]
  dsimp only
  rw [count]
  rfl

theorem recoverOrphanInodes_inos (writes : List (Nat × Block)) (present : s.nOrphans ≠ 0)
    (payload : sup.cpPayload = 0) :
    (recoverOrphanInodes image sup (packBlock image sup reason s).raw
        (device.persist writes)).inos =
      (List.range (getOrphanBlocks s.nOrphans)).flatMap fun index =>
        F2fs.orphanInos ((device.persist writes (orphanStart sup s + index)).page image) := by
  have blocks := @recoverOrphanInodes_blocks image sup reason s device writes present
  have flag : (packBlock image sup reason s).raw.orphanPresentFlag = true := bne_iff_ne.mpr present
  rw [recoverOrphanInodes, if_pos flag] at blocks ⊢
  dsimp only at blocks ⊢
  rw [blocks, payload, Nat.zero_add, List.flatMap_map]

theorem recoverOrphanInodes_absent (writes : List (Nat × Block)) (absent : s.nOrphans = 0) :
    recoverOrphanInodes image sup (packBlock image sup reason s).raw (device.persist writes) =
      ⟨[], []⟩ := by
  have flag : (packBlock image sup reason s).raw.orphanPresentFlag = false := by
    change (s.nOrphans != 0) = false
    rw [absent]
    rfl
  rw [recoverOrphanInodes, flag]
  rfl

/-- A pack with orphans reads back only without payload. -/
theorem PackReadsBack.payload_eq_zero {writes : List (Nat × Block)}
    (reads : PackReadsBack image sup reason s device writes) (present : s.nOrphans ≠ 0) :
    sup.cpPayload = 0 := by
  have blocks := reads.orphanBlocks
  rw [recoverOrphanInodes_blocks writes present] at blocks
  have lengths := congrArg List.length blocks
  rw [List.length_map, List.length_map, List.length_range, List.length_range] at lengths
  omega

/-- The orphan blocks give back the list and nothing else when what is reserved in excess is empty. -/
theorem flatMap_reserved_eq_nil_iff {pages : List Page}
    (length : pages.length = getOrphanBlocks s.orphans.length) :
    ((List.range (getOrphanBlocks s.nOrphans - pages.length)).flatMap fun index =>
        F2fs.orphanInos ((device (orphanStart sup s + (pages.length + index))).page image)) = [] ↔
      ReservedEmpty image sup s device := by
  rw [List.flatMap_eq_nil_iff]
  simp only [List.mem_range, orphanInos_eq_nil_iff]
  constructor
  · intro empty index lower upper
    have shifted := empty (index - pages.length) (by omega)
    rwa [Nat.add_sub_cancel' (by omega)] at shifted
  · intro empty index inside
    exact empty (pages.length + index) (by omega) (by omega)

/-- The pack of a regular checkpoint reads back. -/
theorem packWrites_readsBack {stale : Nat → Page} {pages : List Page}
    (listed : s.orphans.length ≤ s.nOrphans) (bounded : s.nOrphans ≤ sup.maxOrphans)
    (length : pages.length = getOrphanBlocks s.orphans.length)
    (holds : pages.flatMap F2fs.orphanInos = s.orphans)
    (regular : PackRegular image sup reason s device) :
    PackReadsBack image sup reason s device (packWrites image stale sup reason s pages) := by
  have few : pages.length ≤ getOrphanBlocks s.nOrphans := length ▸ getOrphanBlocks_mono listed
  have total := packEnd_eq image reason s
  have endAt : packEnd sup reason s = packStart sup s + 1 + sup.cpPayload +
    getOrphanBlocks s.nOrphans + npagesForSummaryFlush sup s + nodeSumBlocks reason := rfl
  have reserved : s.nOrphans ≠ 0 → sup.cpPayload = 0 ∧ ReservedEmpty image sup s device := by
    intro present
    rcases regular with ⟨absent, _⟩ | clean
    · exact absurd absent present
    · exact clean
  refine
    { fits := ?_, inside := ?_, apart := ordered_packWrites image stale reason few,
      trailer := ?_, validated := validateCheckpoint_packWrites few, summaries := ?_,
      orphanBlocks := ?_, orphanInos := ?_ }
  · have blocks : getOrphanBlocks s.nOrphans ≤ sup.sbi.blocksPerSeg - cpPacks - nrCursegType :=
      getOrphanBlocks_le_iff.mpr bounded
    have wide : 2 ^ 6 ≤ sup.sbi.blocksPerSeg :=
      Nat.pow_le_pow_right (Nat.succ_pos 1) sup.sbi.log_bounds.1
    have dataBlocks := npagesForSummaryFlush_le sup s
    have nodeBlocks : nodeSumBlocks reason ≤ 3 := by
      cases reason with
      | umount => exact Nat.le_refl _
      | sync => exact Nat.zero_le _
      | discard => exact Nat.zero_le _
    unfold cpPacks nrCursegType nrCursegDataType nrCursegNodeType at *
    rcases regular with ⟨absent, space⟩ | ⟨payload, _⟩
    · have none : getOrphanBlocks s.nOrphans = 0 := getOrphanBlocks_eq_zero_iff.mpr absent
      unfold cpPacks at space
      omega
    · omega
  · intro write member
    have address : write.1 ∈ (packWrites image stale sup reason s pages).map Prod.fst :=
      List.mem_map_of_mem member
    rw [mem_packWrites_addresses] at address
    have orphansAt : orphanStart sup s = packStart sup s + 1 + sup.cpPayload := rfl
    have sumsAt : sumStart sup s = orphanStart sup s + getOrphanBlocks s.nOrphans := rfl
    have nodesAt : nodeStart sup s = sumStart sup s + npagesForSummaryFlush sup s := rfl
    omega
  · rw [← total, Nat.add_sub_cancel]
    exact persist_packEnd few
  · intro type kept
    cases data : type.isDataseg with
    | true => exact dataSummary_restored few data
    | false =>
        rcases kept with impossible | rfl
        · rw [data] at impossible
          cases impossible
        · exact nodeSummary_restored few data
  · by_cases absent : s.nOrphans = 0
    · rw [recoverOrphanInodes_absent _ absent, absent]
      rfl
    · rw [recoverOrphanInodes_blocks _ absent, (reserved absent).1, Nat.zero_add]
  · by_cases absent : s.nOrphans = 0
    · have empty : s.orphans = [] := List.length_eq_zero_iff.mp (by omega)
      rw [recoverOrphanInodes_absent _ absent, empty]
    · rw [recoverOrphanInodes_inos _ absent (reserved absent).1, orphanInos_packWrites few,
        (flatMap_reserved_eq_nil_iff length).mpr (reserved absent).2, List.append_nil, holds]

/-- `do_checkpoint` succeeds, and its pack reads back exactly when the checkpoint is regular. -/
theorem doCheckpoint_readsBack_iff (image : RawCheckpoint → Page) (stale : Nat → Page)
    (sup : CpSuper) (reason : CpReason) (s : CpState sup) (device : Device Block)
    (listed : s.orphans.length ≤ s.nOrphans) (bounded : s.nOrphans ≤ sup.maxOrphans) :
    ∃ writes, doCheckpoint image stale sup reason s = some writes ∧
      (PackReadsBack image sup reason s device writes ↔ PackRegular image sup reason s device) := by
  obtain ⟨pages, written, length, holds⟩ := doCheckpoint_eq image stale reason listed
  refine ⟨_, written, ?_, packWrites_readsBack listed bounded length holds⟩
  intro reads
  by_cases absent : s.nOrphans = 0
  · left
    have fits := reads.fits
    have total : (packBlock image sup reason s).raw.cpPackTotalBlockCount =
        cpPacks + sup.cpPayload + npagesForSummaryFlush sup s + getOrphanBlocks s.nOrphans +
          nodeSumBlocks reason := rfl
    have none : getOrphanBlocks s.nOrphans = 0 := getOrphanBlocks_eq_zero_iff.mpr absent
    exact ⟨absent, by omega⟩
  · right
    have payload := reads.payload_eq_zero absent
    have few : pages.length ≤ getOrphanBlocks s.nOrphans := length ▸ getOrphanBlocks_mono listed
    have inos := reads.orphanInos
    rw [recoverOrphanInodes_inos _ absent payload, orphanInos_packWrites few, holds] at inos
    exact ⟨payload, (flatMap_reserved_eq_nil_iff length).mp (List.append_right_eq_self.mp inos)⟩

end ReadBack

/-! ## A small pack -/

/-- Store the segment and the offset of a log in a checkpoint block. -/
def putLog (raw : RawCheckpoint) (page : Page) (type : CursegType) : Page :=
  let index := if type.isDataseg then type.toNat else type.toNat - 3
  let segnos := if type.isDataseg then 84 else 36
  let blkoffs := if type.isDataseg then 116 else 68
  (page.putLe32 (segnos + 4 * index) (UInt32.ofNat (raw.curSegno type))).putLe16
    (blkoffs + 2 * index) (raw.curBlkoff type)

/-- The fields of a checkpoint which place its pack and its logs, in a block of zeros. -/
def checkpointImage (raw : RawCheckpoint) : Page :=
  let flags := (if raw.umountFlag then 1 else 0) + (if raw.orphanPresentFlag then 2 else 0) +
    (if raw.compactSumFlag then 4 else 0) + (if raw.fsckFlag then 16 else 0)
  let words : List (Nat × Nat) :=
    [(0, raw.checkpointVer.toNat), (4, raw.checkpointVer.toNat / 2 ^ 32), (132, flags),
      (136, raw.cpPackTotalBlockCount), (140, raw.cpPackStartSum), (144, raw.validNodeCount),
      (148, raw.validInodeCount), (152, raw.nextFreeNid), (156, raw.sitVerBitmapBytesize),
      (164, raw.checksumOffset)]
  CursegType.all.foldl (putLog raw)
    (words.foldl (fun page word => page.putLe32 word.1 (UInt32.ofNat word.2)) Page.zero)

/-- The superblock of a small volume with a payload of some blocks. -/
def smallSuper (cpPayload : Nat) : CpSuper := ⟨smallVolume, 16, cpPayload, 32⟩

/-- A checkpoint block before its first update. -/
def smallRawCheckpoint : RawCheckpoint :=
  ⟨1, 0, 0, 0, CursegType.toNat, fun _ => 0, fun _ => .lfs, 0, 0, 0, 0, 0, false, false, false,
    false, 64, 4092, .empty, .empty⟩

/-- A state with one orphan and empty logs. -/
def smallCpState (cpPayload : Nat) : CpState (smallSuper cpPayload) where
  ckpt := smallRawCheckpoint
  payload _ := Page.zero
  nOrphans := 1
  orphans := [7]
  orphans_nodup := by decide
  curseg type := ⟨Page.zero, .lfs, type.toNat, 0, Nat.zero_le _⟩
  needFsck := false
  mtime := 0
  validUserBlocks := 0
  freeSegments := 4
  validNodeCount := 0
  validInodeCount := 0
  lastNid := 0
  sitBitmap := .empty
  natBitmap := .empty
  checksumOffset_lt := by decide

theorem doCheckpoint_readsBack_iff_example :
    (1 ≤ 1 ∧ 1 ≤ (smallSuper 0).maxOrphans) ∧
      ∃ writes, doCheckpoint checkpointImage (fun _ => Page.zero) (smallSuper 0) .sync
          (smallCpState 0) = some writes ∧
        (PackReadsBack checkpointImage (smallSuper 0) .sync (smallCpState 0)
          (fun _ => .bytes Page.zero) writes ↔
          PackRegular checkpointImage (smallSuper 0) .sync (smallCpState 0)
            (fun _ => .bytes Page.zero)) :=
  ⟨by decide, doCheckpoint_readsBack_iff checkpointImage (fun _ => Page.zero) (smallSuper 0) .sync
    (smallCpState 0) (fun _ => .bytes Page.zero) (by decide) (by decide)⟩

/-- With one payload block and one orphan the pack does not read back. -/
theorem not_packReadsBack_payload :
    ∃ writes, doCheckpoint checkpointImage (fun _ => Page.zero) (smallSuper 1) .sync
        (smallCpState 1) = some writes ∧
      ¬ PackReadsBack checkpointImage (smallSuper 1) .sync (smallCpState 1)
        (fun _ => .bytes Page.zero) writes := by
  obtain ⟨pages, written, _, _⟩ :=
    @doCheckpoint_eq checkpointImage (fun _ => Page.zero) (smallSuper 1) .sync (smallCpState 1)
      (Nat.le_refl 1)
  refine ⟨_, written, fun reads => ?_⟩
  have payload : (smallSuper 1).cpPayload = 0 := reads.payload_eq_zero (by decide)
  exact absurd payload (by decide)

end F2fs
end StorageStack
