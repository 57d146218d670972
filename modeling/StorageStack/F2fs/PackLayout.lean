import StorageStack.F2fs.CheckpointPack

/-!
# Layout of a checkpoint pack

Where the blocks of a pack lie, and what its readers find.  The orphan blocks hold the listed inode
numbers, the compacted pages hold the kept entries where their reader looks for them, and the whole
pack reads back exactly when it fits its segment and `recover_orphan_inodes` reads no block but those
`write_orphan_inodes` has filled.
-/

namespace StorageStack
namespace F2fs

/-! ## Orphan blocks -/

/-- The number of blocks the orphan list needs is the least one with enough room. -/
theorem getOrphanBlocks_le_iff {count blocks : Nat} :
    getOrphanBlocks count ≤ blocks ↔ count ≤ blocks * orphansPerBlock := by
  unfold getOrphanBlocks orphansPerBlock
  omega

theorem getOrphanBlocks_mono {left right : Nat} (ordered : left ≤ right) :
    getOrphanBlocks left ≤ getOrphanBlocks right := by
  unfold getOrphanBlocks
  exact Nat.div_le_div_right (by omega)

@[simp] theorem getOrphanBlocks_eq_zero_iff {count : Nat} :
    getOrphanBlocks count = 0 ↔ count = 0 := by
  unfold getOrphanBlocks orphansPerBlock
  omega

/-- An orphan block holds the inode numbers stored in it before its counters. -/
theorem orphanInos_finishOrphanBlock {page : Page} {inos : List UInt32} (index orphanBlocks : Nat)
    (bounded : inos.length ≤ orphansPerBlock)
    (stored : ∀ entry (inside : entry < inos.length), page.le32 (4 * entry) = inos[entry]) :
    orphanInos (finishOrphanBlock page index orphanBlocks inos.length) = inos := by
  unfold orphansPerBlock at bounded
  have count : (UInt32.ofNat inos.length).toNat = inos.length := by
    rw [UInt32.toNat_ofNat']
    omega
  unfold orphanInos finishOrphanBlock
  rw [Page.le32_putLe32, count]
  apply List.ext_getElem (by simp)
  intro entry _ inside
  rw [List.getElem_map, List.getElem_range]
  have apart : 4 * entry + 4 ≤ orphanBlkAddr := by
    unfold orphanBlkAddr
    omega
  have apart' : 4 * entry + 4 ≤ orphanBlkCount := by
    unfold orphanBlkCount
    omega
  have apart'' : 4 * entry + 4 ≤ orphanEntryCount := by
    unfold orphanEntryCount
    omega
  rw [Page.le32_putLe32_of_apart (.inl apart''), Page.le32_putLe16_of_apart (.inl apart'),
    Page.le32_putLe16_of_apart (.inl apart)]
  exact stored entry inside

/-- What `write_orphan_inodes` has done when it has seen the inode numbers `done`: the numbers
`filling` are in the current block, the others in the blocks `pages`. -/
structure OrphanProgress (start : Nat) (done : List UInt32) (pages : List Page)
    (filling : List UInt32) (writer : OrphanWriter) : Prop where
  written : writer.written = Device.consecutive start (pages.map Block.bytes)
  room : done.length = pages.length * orphansPerBlock + filling.length
  seen : pages.flatMap orphanInos ++ filling = done
  nentries : writer.nentries = filling.length
  notFull : filling.length < orphansPerBlock
  closed : writer.page = none → filling = [] ∧ writer.startBlk = start + pages.length
  opened : ∀ address page, writer.page = some (address, page) →
    filling ≠ [] ∧ address = start + pages.length ∧ writer.startBlk = start + pages.length + 1 ∧
      ∀ entry (inside : entry < filling.length), page.le32 (4 * entry) = filling[entry]

theorem orphanProgress_initial (start : Nat) :
    OrphanProgress start [] [] [] ⟨start, 1, none, 0, []⟩ where
  written := rfl
  room := rfl
  seen := rfl
  nentries := rfl
  notFull := by decide
  closed _ := ⟨rfl, rfl⟩
  opened := by intro _ _ impossible; cases impossible

namespace OrphanProgress

variable {start : Nat} {done : List UInt32} {pages : List Page} {filling : List UInt32}
  {writer : OrphanWriter}

/-- The block of the next inode number. -/
theorem openBlock (progress : OrphanProgress start done pages filling writer) {limit : Nat}
    (space : start + pages.length < limit) :
    ∃ opened page, writer.openBlock limit = some (opened, start + pages.length, page) ∧
      opened.written = writer.written ∧ opened.nentries = writer.nentries ∧
      opened.startBlk = start + pages.length + 1 ∧
      ∀ entry (inside : entry < filling.length), page.le32 (4 * entry) = filling[entry] := by
  unfold OrphanWriter.openBlock
  cases current : writer.page with
  | none =>
      obtain ⟨rfl, startBlk⟩ := progress.closed current
      simp only [startBlk, if_pos space]
      exact ⟨_, _, rfl, rfl, rfl, rfl, by simp⟩
  | some block =>
      obtain ⟨address, page⟩ := block
      obtain ⟨_, rfl, startBlk, stored⟩ := progress.opened address page current
      exact ⟨writer, page, rfl, rfl, rfl, startBlk, stored⟩

/-- Storing the next inode number keeps the ones already in the block. -/
theorem putOrphan {page : Page} (ino : UInt32)
    (stored : ∀ entry (inside : entry < filling.length), page.le32 (4 * entry) = filling[entry])
    (entry : Nat) (inside : entry < (filling ++ [ino]).length) :
    (page.putLe32 (4 * filling.length) ino).le32 (4 * entry) = (filling ++ [ino])[entry] := by
  rcases Nat.lt_or_ge entry filling.length with earlier | last
  · rw [Page.le32_putLe32_of_apart (by omega), List.getElem_append_left earlier]
    exact stored entry earlier
  · have here : entry = filling.length := by
      rw [List.length_append, List.length_singleton] at inside
      omega
    subst here
    rw [Page.le32_putLe32]
    simp

theorem flushed {address : Nat} {page : Page} {orphanBlocks : Nat} {opened : OrphanWriter}
    (written : opened.written = Device.consecutive start (pages.map Block.bytes))
    (here : address = start + pages.length) :
    (opened.flush orphanBlocks address page).written =
      Device.consecutive start ((pages ++ [finishOrphanBlock page opened.index orphanBlocks
        opened.nentries]).map Block.bytes) := by
  subst here
  simp [OrphanWriter.flush, written, Device.consecutive, List.zipIdx_append]

/-- One round of the loop. -/
theorem writeOrphan (progress : OrphanProgress start done pages filling writer)
    {orphanBlocks : Nat} (ino : UInt32) (space : pages.length < orphanBlocks) :
    ∃ next pages' filling', writeOrphan start orphanBlocks writer ino = some next ∧
      OrphanProgress start (done ++ [ino]) pages' filling' next := by
  obtain ⟨opened, page, found, written, nentries, startBlk, stored⟩ :=
    progress.openBlock (Nat.add_lt_add_left space start)
  have stored' := putOrphan ino stored
  have count : opened.nentries = filling.length := nentries.trans progress.nentries
  have seen : pages.flatMap orphanInos ++ (filling ++ [ino]) = done ++ [ino] := by
    rw [← List.append_assoc, progress.seen]
  have notFull := progress.notFull
  have room := progress.room
  unfold F2fs.writeOrphan
  simp only [found, Option.map_some, count]
  by_cases full : filling.length + 1 = orphansPerBlock
  · simp only [if_pos full]
    have bounded : (filling ++ [ino]).length ≤ orphansPerBlock := by simp [full]
    have read := orphanInos_finishOrphanBlock opened.index orphanBlocks bounded stored'
    rw [List.length_append, List.length_singleton] at read
    refine ⟨_, pages ++ [finishOrphanBlock (page.putLe32 (4 * filling.length) ino) opened.index
      orphanBlocks (filling.length + 1)], [], rfl, ?_⟩
    exact
      { written := flushed (written.trans progress.written) rfl
        room := by
          simp only [List.length_append, List.length_singleton, List.length_nil, Nat.add_mul]
          omega
        seen := by simpa [read] using seen
        nentries := rfl
        notFull := by decide
        closed := fun _ => ⟨rfl, by
          rw [List.length_append, List.length_singleton, ← Nat.add_assoc]
          exact startBlk⟩
        opened := by intro _ _ impossible; cases impossible }
  · simp only [if_neg full]
    refine ⟨_, pages, filling ++ [ino], rfl, ?_⟩
    exact
      { written := written.trans progress.written
        room := by simp only [List.length_append, List.length_singleton]; omega
        seen := seen
        nentries := by simp
        notFull := by simp only [List.length_append, List.length_singleton]; omega
        closed := by intro impossible; cases impossible
        opened := by
          intro address page same
          cases same
          exact ⟨by simp, rfl, startBlk, stored'⟩ }

/-- The whole loop. -/
theorem writeOrphans {orphanBlocks : Nat} (orphans : List UInt32)
    (progress : OrphanProgress start done pages filling writer)
    (space : done.length + orphans.length ≤ orphanBlocks * orphansPerBlock) :
    ∃ next pages' filling', orphans.foldlM (F2fs.writeOrphan start orphanBlocks) writer = some next ∧
      OrphanProgress start (done ++ orphans) pages' filling' next := by
  induction orphans generalizing done pages filling writer with
  | nil => exact ⟨writer, pages, filling, rfl, by rwa [List.append_nil]⟩
  | cons ino orphans induction =>
      have room := progress.room
      have fits : pages.length < orphanBlocks := by
        have scaled : pages.length * orphansPerBlock < orphanBlocks * orphansPerBlock := by
          rw [List.length_cons] at space
          omega
        exact Nat.lt_of_mul_lt_mul_right scaled
      obtain ⟨next, pages', filling', stepped, progress'⟩ := progress.writeOrphan ino fits
      have space' : (done ++ [ino]).length + orphans.length ≤ orphanBlocks * orphansPerBlock := by
        simp only [List.length_append, List.length_cons, List.length_nil] at space ⊢
        omega
      obtain ⟨last, pages'', filling'', run, progress''⟩ := induction progress' space'
      refine ⟨last, pages'', filling'', ?_, ?_⟩
      · rw [List.foldlM_cons, stepped]
        exact run
      · simpa using progress''

end OrphanProgress

/-- `write_orphan_inodes` fills as many blocks as the list needs, and they hold the list. -/
theorem writeOrphanInodes_eq (start : Nat) {orphanBlocks : Nat} {orphans : List UInt32}
    (space : orphans.length ≤ orphanBlocks * orphansPerBlock) :
    ∃ pages : List Page,
      writeOrphanInodes start orphanBlocks orphans =
        some (Device.consecutive start (pages.map Block.bytes)) ∧
      pages.length = getOrphanBlocks orphans.length ∧ pages.flatMap orphanInos = orphans := by
  obtain ⟨writer, pages, filling, run, progress⟩ :=
    (orphanProgress_initial start).writeOrphans orphans (by simpa using space)
  have room := progress.room
  have notFull := progress.notFull
  have seen := progress.seen
  rw [List.nil_append] at room seen
  unfold writeOrphanInodes
  rw [run, Option.map_some]
  cases current : writer.page with
  | none =>
      obtain ⟨rfl, _⟩ := progress.closed current
      refine ⟨pages, ?_, ?_, by simpa using seen⟩
      · simp only [OrphanWriter.blocks, current, progress.written]
      · simp only [List.length_nil, Nat.add_zero] at room
        unfold getOrphanBlocks orphansPerBlock at *
        omega
  | some block =>
      obtain ⟨address, page⟩ := block
      obtain ⟨filled, here, _, stored⟩ := progress.opened address page current
      have read := orphanInos_finishOrphanBlock writer.index orphanBlocks notFull.le stored
      rw [← progress.nentries] at read
      have positive : 0 < filling.length := List.length_pos_of_ne_nil filled
      refine ⟨pages ++ [finishOrphanBlock page writer.index orphanBlocks writer.nentries],
        ?_, ?_, ?_⟩
      · simp only [OrphanWriter.blocks, current]
        exact congrArg some (OrphanProgress.flushed progress.written here)
      · rw [List.length_append, List.length_singleton, room]
        unfold getOrphanBlocks orphansPerBlock at *
        omega
      · rw [List.flatMap_append, List.flatMap_singleton, read]
        exact seen

/-! ## Compacted summaries -/

/-- Where `read_compacted_summaries` is about to read. -/
structure SumCursor where
  start : Nat
  page : Page
  offset : Nat

/-- The cursor behind one summary. -/
def SumCursor.next (content : Nat → Page) (cursor : SumCursor) : SumCursor :=
  let offset := cursor.offset + summarySize
  if sumFits offset then { cursor with offset := offset }
  else ⟨cursor.start + 1, content cursor.start, 0⟩

/-- The bytes at the cursor are those of an entry. -/
def SumCursor.Holds (cursor : SumCursor) (entry : Page × Nat) : Prop :=
  ∀ byte < summarySize, cursor.page (cursor.offset + byte) = entry.1 (summarySize * entry.2 + byte)

/-- The pages hold the entries one after the other from the cursor on. -/
def Stored (content : Nat → Page) : SumCursor → List (Page × Nat) → Prop
  | _, [] => True
  | cursor, entry :: entries =>
      cursor.Holds entry ∧ Stored content (cursor.next content) entries

theorem stored_append {content : Nat → Page} {left right : List (Page × Nat)} {cursor : SumCursor}
    (stored : Stored content cursor (left ++ right)) :
    Stored content cursor left ∧
      Stored content ((SumCursor.next content)^[left.length] cursor) right := by
  induction left generalizing cursor with
  | nil => exact ⟨trivial, stored⟩
  | cons entry left induction =>
      obtain ⟨holds, rest⟩ := stored
      obtain ⟨first, second⟩ := induction rest
      exact ⟨⟨holds, first⟩, second⟩

namespace SumWriter

/-- Where a reader of `content` is when it has read all the writer has written. -/
def cursor (content : Nat → Page) (writer : SumWriter) : SumCursor :=
  match writer.page with
  | some (address, _) => ⟨writer.blkaddr, content address, writer.writtenSize⟩
  | none => ⟨writer.blkaddr + 1, content writer.blkaddr, 0⟩

/-- The pages have all the writer has written so far. -/
structure Kept (content : Nat → Page) (writer : SumWriter) : Prop where
  written : ∀ address page, (address, .bytes page) ∈ writer.written → content address = page
  current : ∀ address page, writer.page = some (address, page) →
    ∀ index < writer.writtenSize, content address index = page index

/-- One round of the writer is one step of the cursor. -/
theorem cursor_writeSummary (content stale : Nat → Page) (writer : SumWriter)
    (entry : Page × Nat) :
    (writeSummary stale writer entry).cursor content = (writer.cursor content).next content := by
  unfold writeSummary openBlock cursor SumCursor.next
  cases writer.page with
  | none =>
      dsimp only
      cases sumFits (0 + summarySize) <;> rfl
  | some block =>
      obtain ⟨address, page⟩ := block
      dsimp only
      cases sumFits (writer.writtenSize + summarySize) <;> rfl

/-- If the pages have what is written after a round, they had what was written before it, and the
entry of the round is where the reader looks for it. -/
theorem Kept.before {content stale : Nat → Page} {writer : SumWriter} {entry : Page × Nat}
    (kept : Kept content (writeSummary stale writer entry)) :
    Kept content writer ∧ (writer.cursor content).Holds entry := by
  obtain ⟨opened, address, page, open_eq⟩ : ∃ opened address page,
      writer.openBlock stale = (opened, address, page) := ⟨_, _, _, rfl⟩
  -- the cursor and the part of the block written so far, whether the block is new or not
  have before : opened.written = writer.written ∧
      writer.cursor content = ⟨opened.blkaddr, content address, opened.writtenSize⟩ ∧
      ∀ address' page', writer.page = some (address', page') →
        address' = address ∧ page' = page ∧ writer.writtenSize = opened.writtenSize := by
    unfold openBlock at open_eq
    unfold cursor
    cases current : writer.page with
    | none =>
        simp only [current] at open_eq
        cases open_eq
        exact ⟨rfl, rfl, by intro _ _ impossible; cases impossible⟩
    | some block =>
        simp only [current] at open_eq
        cases open_eq
        exact ⟨rfl, rfl, by rintro _ _ ⟨⟩; exact ⟨rfl, rfl, rfl⟩⟩
  obtain ⟨written, cursor_eq, same⟩ := before
  set stored := page.copy opened.writtenSize entry.1 (summarySize * entry.2) summarySize with storing
  -- the block agrees with the page as far as the round has filled it
  have agrees : (∀ index < opened.writtenSize + summarySize, content address index = stored index) ∧
      ∀ address' page', (address', Block.bytes page') ∈ opened.written → content address' = page' := by
    have writtenAfter := kept.written
    have currentAfter := kept.current
    unfold writeSummary at writtenAfter currentAfter
    simp only [open_eq, ← storing] at writtenAfter currentAfter
    split at writtenAfter
    · next fits =>
        rw [if_pos fits] at currentAfter
        exact ⟨currentAfter address stored rfl, writtenAfter⟩
    · refine ⟨fun index _ => congrFun (writtenAfter address stored ?_) index, ?_⟩
      · exact List.mem_append_right _ (List.mem_singleton_self _)
      · intro address' page' member
        exact writtenAfter address' page' (List.mem_append_left _ member)
  obtain ⟨content_eq, old⟩ := agrees
  refine ⟨⟨fun address' page' member => old address' page' (written ▸ member), ?_⟩, ?_⟩
  · intro address' page' current index inside
    obtain ⟨rfl, rfl, size⟩ := same address' page' current
    rw [content_eq index (by omega), storing]
    exact Page.copy_outside (.inl (by omega))
  · intro byte inside
    rw [cursor_eq]
    have read := content_eq (opened.writtenSize + byte) (by omega)
    rw [storing, Page.copy_inside inside] at read
    exact read

/-- Pages with all the writer writes have every entry where the reader looks for it. -/
theorem Kept.stored {content stale : Nat → Page} {entries : List (Page × Nat)} {writer : SumWriter}
    (kept : Kept content (entries.foldl (writeSummary stale) writer)) :
    Kept content writer ∧ Stored content (writer.cursor content) entries := by
  induction entries generalizing writer with
  | nil => exact ⟨kept, trivial⟩
  | cons entry entries induction =>
      obtain ⟨afterRound, rest⟩ := induction kept
      obtain ⟨beforeRound, holds⟩ := afterRound.before
      rw [cursor_writeSummary] at rest
      exact ⟨beforeRound, holds, rest⟩

theorem kept_of_blocks {content : Nat → Page} {writer : SumWriter}
    (blocks : ∀ address page, (address, .bytes page) ∈ writer.blocks → content address = page) :
    Kept content writer := by
  unfold SumWriter.blocks at blocks
  cases current : writer.page with
  | none =>
      simp only [current] at blocks
      exact ⟨blocks, by rw [current]; intro _ _ impossible; cases impossible⟩
  | some block =>
      obtain ⟨address, page⟩ := block
      simp only [current] at blocks
      refine ⟨fun address' page' member => blocks address' page' (List.mem_append_left _ member), ?_⟩
      rw [current]
      rintro address' page' ⟨⟩ index _
      exact congrFun (blocks address page (List.mem_append_right _ (List.mem_singleton_self _))) index

end SumWriter

/-- Where `write_compacted_summaries` is after a number of summaries. -/
inductive SumProgress (base : Nat) : Nat → SumWriter → Prop where
  | first (count : Nat) (page : Page) (space : count < sumInFirstPage) :
      SumProgress base count
        ⟨base + 1, some (base, page), 2 * sumJournalSize + summarySize * count, []⟩
  | firstFull (page : Page) (size : Nat) :
      SumProgress base sumInFirstPage ⟨base + 1, none, size, [(base, .bytes page)]⟩
  | second (count : Nat) (page page' : Page) (begun : 0 < count) (space : count < sumInPage) :
      SumProgress base (sumInFirstPage + count)
        ⟨base + 2, some (base + 1, page'), summarySize * count, [(base, .bytes page)]⟩
  | secondFull (page page' : Page) (size : Nat) :
      SumProgress base (sumInFirstPage + sumInPage)
        ⟨base + 2, none, size, [(base, .bytes page), (base + 1, .bytes page')]⟩

theorem sumFits_first {count : Nat} :
    sumFits (2 * sumJournalSize + summarySize * count + summarySize) = true ↔
      count + 1 < sumInFirstPage := by
  rw [sumFits, decide_eq_true_eq]
  simp only [sumJournalSize, summarySize, pageCacheSize, sumFooterSize, entriesInSum, sumInFirstPage]
  omega

theorem sumFits_second {count : Nat} :
    sumFits (summarySize * count + summarySize) = true ↔ count + 1 < sumInPage := by
  rw [sumFits, decide_eq_true_eq]
  simp only [summarySize, pageCacheSize, sumFooterSize, sumInPage]
  omega

theorem SumProgress.step {base count : Nat} {writer : SumWriter}
    (progress : SumProgress base count writer) (stale : Nat → Page) (entry : Page × Nat)
    (space : count < sumInFirstPage + sumInPage) :
    SumProgress base (count + 1) (writeSummary stale writer entry) := by
  cases progress with
  | first count page inFirst =>
      unfold writeSummary SumWriter.openBlock
      dsimp only
      split
      · next fits => exact .first (count + 1) _ (sumFits_first.mp fits)
      · next full =>
          have last : count + 1 = sumInFirstPage := by
            rw [sumFits_first] at full
            omega
          rw [last]
          exact .firstFull _ _
  | firstFull page size => exact .second 1 page _ (by decide) (by decide)
  | second count page page' begun inSecond =>
      unfold writeSummary SumWriter.openBlock
      dsimp only
      split
      · next fits =>
          exact .second (count + 1) page _ (by omega) (sumFits_second.mp fits)
      · next full =>
          have last : sumInFirstPage + count + 1 = sumInFirstPage + sumInPage := by
            rw [sumFits_second] at full
            omega
          rw [last]
          exact .secondFull page _ _
  | secondFull page page' size => exact absurd space (Nat.lt_irrefl _)

theorem SumProgress.run {base count : Nat} {writer : SumWriter}
    (progress : SumProgress base count writer) (stale : Nat → Page) (entries : List (Page × Nat))
    (space : count + entries.length ≤ sumInFirstPage + sumInPage) :
    SumProgress base (count + entries.length) (entries.foldl (writeSummary stale) writer) := by
  induction entries generalizing count writer with
  | nil => exact progress
  | cons entry entries induction =>
      rw [List.length_cons] at space ⊢
      have next := induction (progress.step stale entry (by omega)) (by omega)
      rw [Nat.add_right_comm, Nat.add_assoc] at next
      exact next

/-- The blocks written, one after the other. -/
theorem SumProgress.addresses {base count : Nat} {writer : SumWriter}
    (progress : SumProgress base count writer) :
    writer.blocks.map Prod.fst =
      (List.range (if count ≤ sumInFirstPage then 1 else 2)).map (base + ·) := by
  cases progress with
  | first count page space => rw [if_pos space.le]; rfl
  | firstFull page size => rw [if_pos (Nat.le_refl _)]; rfl
  | second count page page' begun space => rw [if_neg (by omega)]; rfl
  | secondFull page page' size => rw [if_neg (by decide)]; rfl

@[simp] theorem length_keptSummaries (sup : CpSuper) (s : CpState sup) :
    (keptSummaries sup s).length = validSumCount sup s := by
  simp [keptSummaries, validSumCount, List.length_flatMap]

/-- When the summaries are compacted, `npages_for_summary_flush` counts their pages. -/
theorem addresses_writeCompactedSummaries (stale : Nat → Page) (sup : CpSuper) (s : CpState sup)
    (blkaddr : Nat) (compact : npagesForSummaryFlush sup s < nrCursegDataType) :
    (writeCompactedSummaries stale sup s blkaddr).map Prod.fst =
      (List.range (npagesForSummaryFlush sup s)).map (blkaddr + ·) := by
  have few : validSumCount sup s ≤ sumInFirstPage + sumInPage := by
    unfold npagesForSummaryFlush at compact
    split_ifs at compact with one two
    · omega
    · omega
    · exact absurd compact (by decide)
  have progress := (@SumProgress.first blkaddr 0 (journalPage (stale blkaddr) s)
    (by decide)).run stale (keptSummaries sup s) (by simpa using few)
  rw [length_keptSummaries, Nat.zero_add] at progress
  have pages : npagesForSummaryFlush sup s = if validSumCount sup s ≤ sumInFirstPage then 1 else 2 := by
    unfold npagesForSummaryFlush
    split_ifs with one two
    · rfl
    · rfl
    · omega
  rw [pages]
  exact progress.addresses

/-! ## Reading compacted summaries -/

namespace SumReader

/-- Where the reader is. -/
def cursor (reader : SumReader) : SumCursor := ⟨reader.start, reader.page, reader.offset⟩

end SumReader

section Reading

variable (image : RawCheckpoint → Page) (device : Device Block)

/-- The bytes of the blocks of the device. -/
def contentOf : Nat → Page := fun address => (device address).page image

/-- What the rounds of the inner loop do to the summary blocks. -/
structure LogRead (type : CursegType) (sum : Page) (count : Nat) (reader next : SumReader) : Prop where
  cursor : next.cursor = (SumCursor.next (contentOf image device))^[count] reader.cursor
  others : ∀ other, other ≠ type → next.sums other = reader.sums other
  entries : ∀ index < count, ∀ byte < summarySize,
    next.sums type (summarySize * index + byte) = sum (summarySize * index + byte)
  behind : ∀ offset, summarySize * count ≤ offset → next.sums type offset = reader.sums type offset

theorem cursor_readSummary (type : CursegType) (reader : SumReader) (index : Nat) :
    (readSummary image device type reader index).cursor =
      reader.cursor.next (contentOf image device) := by
  unfold readSummary SumReader.cursor SumCursor.next contentOf
  dsimp only
  cases sumFits (reader.offset + summarySize) <;> rfl

theorem sums_readSummary (type : CursegType) (reader : SumReader) (index : Nat) :
    (readSummary image device type reader index).sums =
      Function.update reader.sums type ((reader.sums type).copy (summarySize * index) reader.page
        reader.offset summarySize) := by
  unfold readSummary
  dsimp only
  cases sumFits (reader.offset + summarySize) <;> rfl

/-- The inner loop reads the entries the pages hold. -/
theorem readSummaries (type : CursegType) (sum : Page) (count : Nat) (reader : SumReader)
    (stored : Stored (contentOf image device) reader.cursor
      ((List.range count).map fun index => (sum, index))) :
    LogRead image device type sum count reader
      ((List.range count).foldl (readSummary image device type) reader) := by
  induction count with
  | zero =>
      exact ⟨rfl, fun _ _ => rfl, fun _ impossible => absurd impossible (Nat.not_lt_zero _),
        fun _ _ => rfl⟩
  | succ count induction =>
      rw [List.range_succ, List.map_append] at stored
      obtain ⟨earlier, last⟩ := stored_append stored
      have before := induction earlier
      rw [List.length_map, List.length_range, ← before.cursor] at last
      obtain ⟨holds, _⟩ := last
      rw [List.range_succ, List.foldl_append, List.foldl_cons, List.foldl_nil]
      set middle := (List.range count).foldl (readSummary image device type) reader
      refine ⟨?_, ?_, ?_, ?_⟩
      · rw [cursor_readSummary, before.cursor, Function.iterate_succ_apply']
      · intro other ne
        rw [sums_readSummary, Function.update_of_ne ne]
        exact before.others other ne
      · intro index inside byte inEntry
        rw [sums_readSummary, Function.update_self]
        rcases Nat.lt_succ_iff_lt_or_eq.mp inside with old | rfl
        · have apart : summarySize * index + byte < summarySize * count := by
            unfold summarySize at *
            omega
          rw [Page.copy_outside (.inl apart)]
          exact before.entries index old byte inEntry
        · rw [Page.copy_inside inEntry]
          exact holds byte inEntry
      · intro offset above
        rw [sums_readSummary, Function.update_self]
        rw [Nat.mul_succ] at above
        rw [Page.copy_outside (.inr above)]
        exact before.behind offset (by omega)

/-- What one round of the outer loop does to the summary blocks. -/
structure LogRestored (type : CursegType) (sum : Page) (count : Nat) (reader next : SumReader) :
    Prop where
  cursor : next.cursor = (SumCursor.next (contentOf image device))^[count] reader.cursor
  others : ∀ other, other ≠ type → next.sums other = reader.sums other
  entries : ∀ index < count, ∀ byte < summarySize,
    next.sums type (summarySize * index + byte) = sum (summarySize * index + byte)
  journal : ∀ byte < sumJournalSize,
    next.sums type (journalOffset + byte) = reader.sums type (journalOffset + byte)

theorem resetFooter_below {type : CursegType} {sum : Page} {index : Nat}
    (below : index < footerOffset) : resetFooter type sum index = sum index := by
  rw [resetFooter, if_pos (.inl below)]

theorem readLogSummaries_restored {sup : CpSuper} {ckpt : RawCheckpoint} {type : CursegType}
    {sum : Page} {count : Nat} (reader : SumReader)
    (kept : keptEntries sup (ckpt.allocType type) (ckpt.curBlkoff type) = count)
    (bounded : count ≤ entriesInSum)
    (stored : Stored (contentOf image device) reader.cursor
      ((List.range count).map fun index => (sum, index))) :
    LogRestored image device type sum count reader
      (readLogSummaries image device sup ckpt reader type) := by
  unfold readLogSummaries
  rw [kept]
  have read := readSummaries image device type sum count
    { reader with sums := Function.update reader.sums type (resetFooter type (reader.sums type)) }
    stored
  refine ⟨read.cursor, ?_, read.entries, ?_⟩
  · intro other ne
    rw [read.others other ne]
    exact Function.update_of_ne ne _ _
  · intro byte inside
    have above : summarySize * count ≤ journalOffset + byte := by
      unfold summarySize entriesInSum journalOffset at *
      unfold summarySize entriesInSum
      omega
    have below : journalOffset + byte < footerOffset := by
      unfold sumJournalSize at inside
      unfold journalOffset footerOffset
      omega
    rw [read.behind _ above]
    simp only [Function.update_self]
    exact resetFooter_below below

end Reading

/-- The entries of a log's summary block the pack keeps, and its journal if the log has one, are as
they were; of a node entry the pack keeps the node number. -/
structure SummaryRestored (sup : CpSuper) (type : CursegType) (curseg : PackCurseg sup.sbi)
    (sum : Page) : Prop where
  entries : ∀ index < keptEntries sup curseg.allocType curseg.nextBlkoff,
    ∀ byte < (if type.isDataseg then summarySize else 4),
      sum (summarySize * index + byte) = curseg.sumBlk (summarySize * index + byte)
  journal : type = .hotData ∨ type = .coldData → ∀ byte < sumJournalSize,
    sum (journalOffset + byte) = curseg.sumBlk (journalOffset + byte)

theorem keptEntries_le {sup : CpSuper} (curseg : PackCurseg sup.sbi) :
    keptEntries sup curseg.allocType curseg.nextBlkoff ≤ sup.sbi.blocksPerSeg := by
  unfold keptEntries
  cases curseg.allocType with
  | ssr => exact Nat.le_refl _
  | lfs => exact curseg.nextBlkoff_le

/-- `read_compacted_summaries` reads what `write_compacted_summaries` has written. -/
theorem readCompactedSummaries_restored {image : RawCheckpoint → Page} {device : Device Block}
    {stale : Nat → Page} {sup : CpSuper} {s : CpState sup} {ckpt : RawCheckpoint}
    (blkoff : ckpt.curBlkoff = fun type => (s.curseg type).nextBlkoff)
    (allocType : ckpt.allocType = fun type => (s.curseg type).allocType)
    (blocks : ∀ address page,
      (address, .bytes page) ∈ writeCompactedSummaries stale sup s (startSumBlock sup ckpt) →
        contentOf image device address = page)
    {type : CursegType} (data : type.isDataseg = true) :
    SummaryRestored sup type (s.curseg type) (readCompactedSummaries image sup ckpt device type) := by
  obtain ⟨journals, stored⟩ := (SumWriter.kept_of_blocks blocks).stored
  set start := startSumBlock sup ckpt
  have journal : ∀ index < 2 * sumJournalSize,
      contentOf image device start index = journalPage (stale start) s index :=
    journals.current start (journalPage (stale start) s) rfl
  have bounded (log : CursegType) :
      keptEntries sup (s.curseg log).allocType (s.curseg log).nextBlkoff ≤ entriesInSum :=
    (keptEntries_le _).trans sup.sbi.blocksPerSeg_le
  have kept (log : CursegType) : keptEntries sup (ckpt.allocType log) (ckpt.curBlkoff log) =
      keptEntries sup (s.curseg log).allocType (s.curseg log).nextBlkoff := by
    rw [blkoff, allocType]
  -- the two journals, as they are read before the entries
  have hotJournal : ∀ byte < sumJournalSize,
      Page.zero.copy journalOffset (contentOf image device start) 0 sumJournalSize
        (journalOffset + byte) = (s.curseg .hotData).sumBlk (journalOffset + byte) := by
    intro byte inside
    rw [Page.copy_inside inside, journal _ (by omega), journalPage,
      Page.copy_outside (.inl (by omega)), Page.copy_inside inside]
  have coldJournal : ∀ byte < sumJournalSize,
      Page.zero.copy journalOffset (contentOf image device start) sumJournalSize sumJournalSize
        (journalOffset + byte) = (s.curseg .coldData).sumBlk (journalOffset + byte) := by
    intro byte inside
    rw [Page.copy_inside inside, journal _ (by omega), journalPage, Page.copy_inside inside]
  -- the entries, log after log
  unfold keptSummaries dataLogs at stored
  rw [List.flatMap_cons, List.flatMap_cons, List.flatMap_cons, List.flatMap_nil,
    List.append_nil] at stored
  unfold readCompactedSummaries dataLogs
  simp only [List.foldl_cons, List.foldl_nil]
  set first : SumReader := ⟨start + 1, contentOf image device start, 2 * sumJournalSize,
    Function.update (Function.update (fun _ => Page.zero) CursegType.hotData
      (Page.zero.copy journalOffset (contentOf image device start) 0 sumJournalSize))
      CursegType.coldData
      (Page.zero.copy journalOffset (contentOf image device start) sumJournalSize sumJournalSize)⟩
    with first_eq
  obtain ⟨hotStored, rest⟩ := stored_append stored
  have hot := readLogSummaries_restored image device first (kept .hotData)
    (bounded .hotData) hotStored
  rw [List.length_map, List.length_range] at rest
  obtain ⟨warmStored, rest⟩ := stored_append rest
  have warm := readLogSummaries_restored image device
    (readLogSummaries image device sup ckpt first .hotData) (kept .warmData)
    (bounded .warmData) (hot.cursor ▸ warmStored)
  rw [List.length_map, List.length_range] at rest
  have cold := readLogSummaries_restored image device
    (readLogSummaries image device sup ckpt
      (readLogSummaries image device sup ckpt first .hotData) .warmData) (kept .coldData)
    (bounded .coldData) (by rw [warm.cursor, hot.cursor]; exact rest)
  change SummaryRestored sup type (s.curseg type)
    ((readLogSummaries image device sup ckpt (readLogSummaries image device sup ckpt
      (readLogSummaries image device sup ckpt first .hotData) .warmData) .coldData).sums type)
  cases type with
  | hotData =>
      rw [cold.others _ (by decide), warm.others _ (by decide)]
      refine ⟨hot.entries, fun _ byte inside => ?_⟩
      rw [hot.journal byte inside]
      exact hotJournal byte inside
  | warmData =>
      rw [cold.others _ (by decide)]
      exact ⟨warm.entries, by rintro (impossible | impossible) <;> cases impossible⟩
  | coldData =>
      refine ⟨cold.entries, fun _ byte inside => ?_⟩
      rw [cold.journal byte inside, warm.others _ (by decide), hot.others _ (by decide)]
      exact coldJournal byte inside
  | hotNode => cases data
  | warmNode => cases data
  | coldNode => cases data

end F2fs
end StorageStack
