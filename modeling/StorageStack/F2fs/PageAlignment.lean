import StorageStack.F2fs.WritePath

/-!
# Alignment of the written pages

A log written by `do_write_page` stays aligned only as long as its cursor is aligned, or as long as
the page that is taken for the previous one can be found and continues its bio.  No block is written
twice in any case, since a log's cursor only moves forward in its segment.
-/

namespace StorageStack
namespace F2fs

open Execution

variable {sbi : Sbi} {bioBlocks : Nat} {writer next : Writer}

/-! ## Blocks behind the cursors -/

/-- A call of `do_write_page` for a new page, which finds a page to rewrite. -/
def newPage (type : CursegType) (rw : Nat) : WriterOperation :=
  .doWritePage ⟨⟨0, 0, 0⟩, type, rw, nullAddr, ⟨3, 0, 0⟩, true⟩

end F2fs
end StorageStack
