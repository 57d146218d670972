import StorageStack.F2fs.AllocationSafety

/-!
# The write path of the disaggregated mapping

`do_write_page` wants every new bio to start at a NAND page, that is at an even block address.  When
the log's cursor is not aligned it writes a dummy page in front of a new bio, and rewrites the page
before the cursor.  The pages reach the device through one pending bio for each page type.
-/

namespace StorageStack
namespace F2fs

open Execution

/-- `N_PAGE_ALIGN`. -/
def nPageAlign : Nat := 2

/-- The request flags `WRITE`. -/
def writeFlags : Nat := 1

/-- `enum page_type`, as far as it numbers the bios. -/
inductive PageType where
  | data
  | node
  | metadata
  deriving DecidableEq, Repr

/-- `PAGE_TYPE_OF_BIO`. -/
def pageTypeOfBio : Nat → PageType
  | 0 => .data
  | 1 => .node
  | _ => .metadata

/-- The page type of the pages a log is for. -/
def CursegType.pageType (type : CursegType) : PageType := if type.isDataseg then .data else .node

/-- `struct f2fs_bio_info`. -/
structure BioInfo where
  /-- The blocks of the pending bio. -/
  bio : Option (List Nat)
  /-- `fio.rw`. -/
  rw : Nat
  lastBlockInBio : Nat
  deriving DecidableEq, Repr

/-- What happens to the blocks of the main area. -/
inductive WriteEvent where
  /-- A page is written to a block; it may be the first one of a new bio. -/
  | page (blkaddr : Nat) (startsBio : Bool)
  /-- A free segment is taken into use. -/
  | recycled (segno : Nat)
  deriving DecidableEq, Repr

/-- The segment manager with the pending bios. -/
structure Writer where
  manager : Manager
  writeIo : PageType → BioInfo
  /-- What has happened so far, newest first. -/
  trace : List WriteEvent
  /-- The kernel has followed a null or an error pointer. -/
  fault : Bool

/-- One call of `do_write_page`. -/
structure WriteCall where
  env : Env
  /-- `__get_segment_type` of the page. -/
  type : CursegType
  /-- `fio->rw`. -/
  rw : Nat
  oldBlkaddr : Nat
  sum : Summary
  /-- Whether `check_dnode`, `f2fs_iget` and `find_data_page` find a page for the summary entry they
  are given; otherwise an error pointer is followed. -/
  prevPage : Bool

/-- The block continues the bio, and the request flags are the same. -/
def BioInfo.continues (io : BioInfo) (blkaddr rw : Nat) : Bool :=
  io.lastBlockInBio == sub32 blkaddr 1 && io.rw == rw

/-- `f2fs_submit_page_mbio`; a bio holds `bioBlocks` pages. -/
def submitPageMbio (bioBlocks blkaddr rw : Nat) (io : BioInfo) : BioInfo :=
  match if io.continues blkaddr rw then io.bio else none with
  | none => ⟨some [blkaddr], rw, blkaddr⟩
  | some pages =>
      if pages.length < bioBlocks then ⟨some (pages ++ [blkaddr]), io.rw, blkaddr⟩
      else ⟨some [blkaddr], rw, blkaddr⟩

/-- Write a page of the main area through the bio of `pageType`. -/
def Writer.submit (writer : Writer) (bioBlocks : Nat) (pageType : PageType) (blkaddr rw : Nat) :
    Writer :=
  let io := writer.writeIo pageType
  { writer with
    writeIo := Function.update writer.writeIo pageType (submitPageMbio bioBlocks blkaddr rw io)
    trace := .page blkaddr (!io.continues blkaddr rw) :: writer.trace }

/-- The segments the logs have moved to. -/
def recycledSegments (before after : State) : List WriteEvent :=
  (CursegType.all.filter fun type =>
    (after.curseg type).segno ≠ (before.curseg type).segno).map fun type =>
      .recycled (after.curseg type).segno

/-- Replace the state of the segment manager. -/
def Writer.manage (writer : Writer) (manager : Manager) : Writer :=
  { writer with
    manager := manager
    trace := recycledSegments writer.manager.state manager.state ++ writer.trace }

/-- The kernel stops. -/
def Writer.stop (writer : Writer) : Writer := { writer with fault := true }

/-- `allocate_data_block` with `f2fs_submit_page_mbio` of the page. -/
def writeBlock (sbi : Sbi) (bioBlocks : Nat) (env : Env) (page : Bool) (oldBlkaddr : Nat)
    (sum : Summary) (type : CursegType) (pageType : PageType) (rw : Nat) (writer : Writer) :
    Option Writer :=
  (allocateDataBlock sbi env page oldBlkaddr sum type writer.manager.state).map
    fun (state, result) =>
      (writer.manage { writer.manager with state := state }).submit bioBlocks pageType
        result.newBlkaddr rw

/-- `need_prev_page_rewrite`. -/
def needPrevPageRewrite (sbi : Sbi) (writer : Writer) (type : CursegType) : Bool :=
  decide (nextFreeBlkaddr sbi writer.manager.state type % nPageAlign ≠ 0)

/-- `need_dummy_page_write`. -/
def needDummyPageWrite (sbi : Sbi) (writer : Writer) (type : CursegType) (rw : Nat) : Bool :=
  let newBlkoff := (writer.manager.state.curseg type).nextBlkoff
  let newBlkaddr := nextFreeBlkaddr sbi writer.manager.state type
  let io := writer.writeIo type.pageType
  !io.continues newBlkaddr rw && decide (newBlkoff % nPageAlign ≠ 0)

/-- `read_and_submit_prev_page`: what it takes for the page before the cursor is the summary entry
and the address of the block under the cursor. -/
def readAndSubmitPrevPage (sbi : Sbi) (bioBlocks : Nat) (env : Env) (prevPage : Bool)
    (type : CursegType) (writer : Writer) : Option Writer :=
  let curseg := writer.manager.state.curseg type
  let prevBlkoff := curseg.nextBlkoff
  let prevBlkaddr := nextFreeBlkaddr sbi writer.manager.state type
  let sum := (writer.manager.state.sumPages curseg.segno).entries prevBlkoff
  if prevPage then
    writeBlock sbi bioBlocks env true prevBlkaddr sum type (pageTypeOfBio type.toNat) writeFlags writer
  else some writer.stop

/-- `allocate_dummy_data_block` with the place for the address, which may be a null pointer. -/
def allocateDummyThrough (sbi : Sbi) (bioBlocks : Nat) (env : Env) (newBlkaddr : Option Unit)
    (type : CursegType) (writer : Writer) : Option Writer :=
  match newBlkaddr with
  | none => some writer.stop
  | some () =>
      (allocateDummyDataBlock sbi env true type writer.manager.state).map fun (state, result) =>
        (writer.manage { writer.manager with state := state }).submit bioBlocks
          (pageTypeOfBio type.toNat) result.newBlkaddr writeFlags

/-- `submit_dummy_page`: it looks at the pages of the pending bio and stores the new address through
the null pointer `new_blkaddr`. -/
def submitDummyPage (sbi : Sbi) (bioBlocks : Nat) (env : Env) (type : CursegType)
    (writer : Writer) : Option Writer :=
  match (writer.writeIo (pageTypeOfBio type.toNat)).bio with
  | none => some writer.stop
  | some _ => allocateDummyThrough sbi bioBlocks env none type writer

/-- Go on unless the kernel has stopped. -/
def Writer.andThen (result : Option Writer) (next : Writer → Option Writer) : Option Writer :=
  result.bind fun writer => if writer.fault then some writer else next writer

/-- `do_write_page`. -/
def doWritePage (sbi : Sbi) (bioBlocks : Nat) (call : WriteCall) (writer : Writer) : Option Writer :=
  Writer.andThen
    (if needDummyPageWrite sbi writer call.type call.rw then
      submitDummyPage sbi bioBlocks call.env call.type writer
    else some writer) fun writer =>
  Writer.andThen
    (if needPrevPageRewrite sbi writer call.type then
      readAndSubmitPrevPage sbi bioBlocks call.env call.prevPage call.type writer
    else some writer) fun writer =>
  writeBlock sbi bioBlocks call.env true call.oldBlkaddr call.sum call.type call.type.pageType
    call.rw writer

/-! ## Runs -/

/-- The operations; the bios are submitted by `f2fs_submit_merged_bio`, which changes the flags of
the metadata bio in a checkpoint, and shared with the metadata pages of `write_meta_page`. -/
inductive WriterOperation where
  | doWritePage (call : WriteCall)
  | submitMergedBio (pageType : PageType) (rw : Option Nat)
  | writeMetaPage (blkaddr rw : Nat)
  | manage (operation : Operation)

/-- No bio is pending. -/
def Writer.start (manager : Manager) : Writer where
  manager := manager
  writeIo _ := ⟨none, 0, 0⟩
  trace := []
  fault := false

end F2fs
end StorageStack
