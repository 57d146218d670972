import StorageStack.F2fs.PackReadBack

/-!
# Compacted summaries

Few summaries of the data logs are packed behind their journals into one block or two.  The blocks
are as many as `npages_for_summary_flush` counts, their footers are left alone, and the logs that
`read_compacted_summaries` restores from them stand where they stood.
-/

namespace StorageStack
namespace F2fs

/-! ## The footers -/

/-- The bytes of the footers are those the page cache had in the blocks, and the next summary ends
before the footer. -/
structure FootersFree (stale : Nat → Page) (writer : SumWriter) : Prop where
  space : writer.page ≠ none → sumFits writer.writtenSize = true
  footer : ∀ write ∈ writer.blocks, ∃ page, write.2 = .bytes page ∧
    ∀ index, footerOffset ≤ index → page index = stale write.1 index

theorem mem_blocks_of_written {writer : SumWriter} {write : Nat × Block}
    (mem : write ∈ writer.written) : write ∈ writer.blocks := by
  rw [SumWriter.blocks]
  split
  · exact List.mem_append_left _ mem
  · exact mem

/-- The block of the next summary has its footer free, and space for the summary. -/
theorem FootersFree.openBlock {stale : Nat → Page} {writer opened : SumWriter} {address : Nat}
    {page : Page} (free : FootersFree stale writer)
    (open_eq : writer.openBlock stale = (opened, address, page)) :
    opened.written = writer.written ∧ sumFits opened.writtenSize = true ∧
      ∀ index, footerOffset ≤ index → page index = stale address index := by
  cases current : writer.page with
  | none =>
    simp only [SumWriter.openBlock, current, Prod.mk.injEq] at open_eq
    obtain ⟨rfl, rfl, rfl⟩ := open_eq
    exact ⟨rfl, (by decide : sumFits 0 = true), fun _ _ => rfl⟩
  | some block =>
    simp only [SumWriter.openBlock, current, Prod.mk.injEq] at open_eq
    obtain ⟨rfl, rfl, rfl⟩ := open_eq
    refine ⟨rfl, free.space (by simp [current]), ?_⟩
    obtain ⟨page, same, footer⟩ := free.footer (block.1, .bytes block.2) (by
      simp [SumWriter.blocks, current])
    cases same
    exact footer

theorem FootersFree.writeSummary {stale : Nat → Page} {writer : SumWriter}
    (free : FootersFree stale writer) (entry : Page × Nat) :
    FootersFree stale (writeSummary stale writer entry) := by
  obtain ⟨opened, address, page, open_eq⟩ : ∃ opened address page,
      writer.openBlock stale = (opened, address, page) := ⟨_, _, _, rfl⟩
  obtain ⟨written, space, footer⟩ := free.openBlock open_eq
  set stored := page.copy opened.writtenSize entry.1 (summarySize * entry.2) summarySize
    with storing
  have storedFooter : ∀ index, footerOffset ≤ index → stored index = stale address index := by
    intro index behind
    rw [sumFits, decide_eq_true_eq, ← footerOffset] at space
    rw [storing, Page.copy_outside (.inr (by omega))]
    exact footer index behind
  have old : ∀ write ∈ opened.written, ∃ page, write.2 = .bytes page ∧
      ∀ index, footerOffset ≤ index → page index = stale write.1 index := by
    intro write mem
    rw [written] at mem
    exact free.footer write (mem_blocks_of_written mem)
  have all : ∀ write ∈ opened.written ++ [(address, Block.bytes stored)], ∃ page,
      write.2 = .bytes page ∧ ∀ index, footerOffset ≤ index → page index = stale write.1 index := by
    intro write mem
    rcases List.mem_append.1 mem with before | last
    · exact old write before
    · obtain rfl := List.mem_singleton.1 last
      exact ⟨stored, rfl, storedFooter⟩
  simp only [F2fs.writeSummary, open_eq, ← storing]
  split
  next fits => exact ⟨fun _ => fits, all⟩
  next => exact ⟨fun impossible => absurd rfl impossible, all⟩

theorem footersFree_writeCompactedSummaries (stale : Nat → Page) (sup : CpSuper) (s : CpState sup)
    (blkaddr : Nat) :
    ∀ write ∈ writeCompactedSummaries stale sup s blkaddr, ∃ page, write.2 = .bytes page ∧
      ∀ index, footerOffset ≤ index → page index = stale write.1 index := by
  have run (entries : List (Page × Nat)) (writer : SumWriter) (free : FootersFree stale writer) :
      FootersFree stale (entries.foldl (writeSummary stale) writer) := by
    induction entries generalizing writer with
    | nil => exact free
    | cons entry entries ih => exact ih _ (free.writeSummary entry)
  apply (run _ _ _).footer
  refine ⟨fun _ => (by decide : sumFits (2 * sumJournalSize) = true), ?_⟩
  intro write mem
  obtain rfl := List.mem_singleton.1 mem
  refine ⟨_, rfl, fun index behind => ?_⟩
  have above : 2 * sumJournalSize ≤ index := Nat.le_trans (by decide) behind
  rw [journalPage, Page.copy_outside (.inr (by omega)), Page.copy_outside (.inr (by omega))]

/-! ## The round trip -/

/-- A log of data after `read_compacted_summaries`. -/
structure RestoredLog where
  segno : Nat
  zone : Nat
  nextSegno : Nat
  allocType : AllocType
  nextBlkoff : Nat
  sumBlk : Page

/-- `read_compacted_summaries` for one log: `reset_curseg` takes the segment from `next_segno`. -/
def readCompactedLog (image : RawCheckpoint → Page) (sup : CpSuper) (ckpt : RawCheckpoint)
    (device : Device Block) (type : CursegType) : RestoredLog where
  segno := ckpt.curSegno type
  zone := sup.sbi.getZonenoFromSegno (ckpt.curSegno type)
  nextSegno := nullSegno
  allocType := ckpt.allocType type
  nextBlkoff := ckpt.curBlkoff type
  sumBlk := readCompactedSummaries image sup ckpt device type

/-- The log stands where it stood, with its journal and the entries below its offset, or with all
entries in a reused segment. -/
structure StandsAs (sup : CpSuper) (type : CursegType) (curseg : PackCurseg sup.sbi)
    (log : RestoredLog) : Prop where
  segno : log.segno = curseg.segno
  allocType : log.allocType = curseg.allocType
  nextBlkoff : log.nextBlkoff = curseg.nextBlkoff
  entries : ∀ index < (if curseg.allocType = .ssr then sup.sbi.blocksPerSeg else curseg.nextBlkoff),
    ∀ byte < summarySize,
      log.sumBlk (summarySize * index + byte) = curseg.sumBlk (summarySize * index + byte)
  journal : type = .hotData ∨ type = .coldData → ∀ byte < sumJournalSize,
    log.sumBlk (journalOffset + byte) = curseg.sumBlk (journalOffset + byte)

/-- Compacted summaries fill the blocks that are counted, leave the footers free, and read back. -/
theorem compactedSummaries_roundTrip (image : RawCheckpoint → Page) (stale : Nat → Page)
    (sup : CpSuper) (reason : CpReason) (s : CpState sup) (device : Device Block)
    (compact : npagesForSummaryFlush sup s ≤ 2) :
    let ckpt := updateCheckpoint sup reason s
    let start := startSumBlock sup ckpt
    let blocks := writeCompactedSummaries stale sup s start
    blocks.map Prod.fst = (List.range (npagesForSummaryFlush sup s)).map (start + ·) ∧
      (∀ block ∈ blocks, ∃ page, block.2 = .bytes page ∧
        ∀ index, footerOffset ≤ index → page index = stale block.1 index) ∧
      ∀ type ∈ dataLogs, StandsAs sup type (s.curseg type)
        (readCompactedLog image sup ckpt (device.persist blocks) type) := by
  intro ckpt start blocks
  have addresses := addresses_writeCompactedSummaries stale sup s start (Nat.lt_succ_of_le compact)
  refine ⟨addresses, footersFree_writeCompactedSummaries stale sup s start, ?_⟩
  have onDevice : ∀ address page, (address, .bytes page) ∈ blocks →
      contentOf image (device.persist blocks) address = page := by
    intro address page mem
    rw [contentOf, Device.persist_of_mem (Device.ordered_of_addresses addresses) mem]
    rfl
  intro type mem
  have data : type.isDataseg = true := by
    rcases List.mem_cons.1 mem with rfl | mem
    · rfl
    · rcases List.mem_cons.1 mem with rfl | mem
      · rfl
      · rw [List.mem_singleton.1 mem]
        rfl
  have restored := @readCompactedSummaries_restored image (device.persist blocks) stale sup s ckpt
    rfl rfl onDevice type data
  refine ⟨rfl, rfl, rfl, ?_, restored.journal⟩
  intro index below byte inside
  apply restored.entries index _ byte
  · rw [if_pos data]
    exact inside
  · cases alloc : (s.curseg type).allocType with
    | ssr => rwa [alloc, if_pos rfl] at below
    | lfs => rwa [alloc, if_neg (by decide)] at below

/-- The small volume with a reused segment and two logs that have written some blocks. -/
def smallLogs : CpState (smallSuper 0) :=
  { smallCpState 0 with
    curseg := fun type =>
      ⟨UInt8.ofNat, if type = .hotData then .ssr else .lfs, type.toNat, 5, by decide⟩ }

theorem compactedSummaries_roundTrip_small :
    npagesForSummaryFlush (smallSuper 0) smallLogs = 1 ∧
      ∀ type ∈ dataLogs, StandsAs (smallSuper 0) type (smallLogs.curseg type)
        (readCompactedLog checkpointImage (smallSuper 0)
          (updateCheckpoint (smallSuper 0) .sync smallLogs)
          (Device.persist (fun _ => .bytes Page.zero)
            (writeCompactedSummaries (fun _ => Page.zero) (smallSuper 0) smallLogs
              (startSumBlock (smallSuper 0) (updateCheckpoint (smallSuper 0) .sync smallLogs))))
          type) :=
  ⟨by decide, (compactedSummaries_roundTrip checkpointImage (fun _ => Page.zero) (smallSuper 0)
    .sync smallLogs (fun _ => .bytes Page.zero) (by decide)).2.2⟩

end F2fs
end StorageStack
