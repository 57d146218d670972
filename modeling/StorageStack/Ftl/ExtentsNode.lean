import Mathlib.Tactic

/-!
# The extents table of one root

A root covers `numPagePerRoot` logical pages.  Its extents table is an array of index nodes, each
with a range of pages and an array of leaf nodes; a leaf maps a run of logical pages to
consecutive physical pages.  A pointer to a leaf array is the number of that array in the root, and
a read through a null pointer has no result.
-/

namespace StorageStack
namespace Ftl

abbrev indexNodeSize : Nat := 6

abbrev leafNodeSize : Nat := 6

abbrev numPagePerRoot : Nat := 2048

/-- The physical page number `-1` of a page which is not mapped. -/
abbrev unmapped : Nat := 2 ^ 32 - 1

/-- The value of a 32-bit word. -/
def word (value : Nat) : Nat := value % 2 ^ 32

/-- Subtraction of 32-bit words. -/
def subWord (left right : Nat) : Nat := (left + 2 ^ 32 - right) % 2 ^ 32

/-- A leaf node; `lpn` and `size` are bit fields of 16 and 15 bits. -/
structure LeafNode where
  ppn : Nat
  lpn : Nat
  size : Nat
  used : Bool
deriving DecidableEq, Repr

/-- An index node; `lNode` is the array which its pointer names, if it names one. -/
structure IndexNode where
  lNode : Option Nat
  lpn : Nat
  size : Nat
  used : Bool
deriving DecidableEq, Repr

abbrev LeafArray := Nat → LeafNode

/-- The entries of a page map by page number in the root. -/
abbrev PageMap := Nat → Nat

/-- The two node arrays of a root, and its page map once it has been converted. -/
structure Root where
  iNode : Nat → IndexNode
  lNode : Nat → LeafArray
  pageMap : Option PageMap

/-- A node after `memset`. -/
def LeafNode.zero : LeafNode := ⟨0, 0, 0, false⟩

/-- A node after `memset` and `ppn = -1`. -/
def LeafNode.cleared : LeafNode := ⟨unmapped, 0, 0, false⟩

namespace Root

def setArray (root : Root) (array : Nat) (leaves : LeafArray) : Root :=
  { root with lNode := Function.update root.lNode array leaves }

def setLeaf (root : Root) (array slot : Nat) (leaf : LeafNode) : Root :=
  root.setArray array (Function.update (root.lNode array) slot leaf)

end Root

/-! ## Initialisation -/

/-- One root of `pm_init_extmap` on memory which has been cleared. -/
def pmInitExtmap : Root where
  iNode iNum := ⟨some iNum, 0, if iNum = 0 then numPagePerRoot else 0, iNum = 0⟩
  lNode _ _ := LeafNode.cleared
  pageMap := none

/-! ## Page maps -/

def pmWritePagemap : (lpn size newPpn : Nat) → PageMap → PageMap
  | _, 0, _, pageMap => pageMap
  | lpn, size + 1, newPpn, pageMap =>
      pmWritePagemap (lpn + 1) size (word (newPpn + 1)) (Function.update pageMap lpn newPpn)

/-! ## Lookup -/

/-- The index node and the slot of the leaf which holds `lpn`, and the leaf.  The outer option is
missing when a null pointer would be followed. -/
def pmReadExtmap (root : Root) (lpn : Nat) : Option (Option (Nat × Nat × LeafNode)) :=
  match (List.range indexNodeSize).find? fun iNum =>
      decide ((root.iNode iNum).used = false ∨ ((root.iNode iNum).lpn ≤ lpn ∧
        lpn < (root.iNode iNum).lpn + (root.iNode iNum).size)) with
  | none => some none
  | some iNum =>
      if (root.iNode iNum).used = false then some none
      else do
        let array ← (root.iNode iNum).lNode
        let leaves := root.lNode array
        if (leaves 0).used = false then some none
        else
          some (((List.range leafNodeSize).find? fun lNum =>
            decide ((leaves lNum).lpn ≤ lpn ∧ lpn < (leaves lNum).lpn + (leaves lNum).size)).map
              fun lNum => (iNum, lNum, leaves lNum))

end Ftl
end StorageStack
