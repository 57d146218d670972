import Mathlib.Tactic

/-!
# Map arrays of the persistent object store

An area of the store finds the page frames of its pages through arrays of 128 words, in as many levels
as its pages need: the words of an array of level one are frame numbers, those of a higher level
pointers to arrays.  A program reads a word as its own level says; `none` stands for an access outside
an array or through a word that is no pointer.
-/

namespace StorageStack.Pos

/-- `POS_MAP_NR`. -/
def posMapNr : Nat := 128

/-- A word of a map array: empty, a frame number, or a pointer, given with the array it leads to. -/
inductive Slot where
  | empty
  | frame (pfn : Nat)
  | array (level pn : Nat) (pfns : Nat → Slot)

/-- `struct pos_map_array`. -/
structure MapArray where
  level : Nat
  pn : Nat
  pfns : Nat → Slot

/-- A pointer to the array. -/
def MapArray.slot (map : MapArray) : Slot := .array map.level map.pn map.pfns

/-- The word is not `POS_EMPTY`. -/
def Slot.used : Slot → Bool
  | .empty => false
  | _ => true

/-- An array without entries. -/
def MapArray.new (level pn : Nat) : MapArray := ⟨level, pn, fun _ => .empty⟩

/-- What the code reads before it has been written: the local variable `i`, for an array allocated
at a level below an array with a first page number on the way to a page, and the words of a fresh
allocation. -/
structure Junk where
  index : Nat → Nat → Nat → Nat
  words : Nat → Slot

/-- `pos_level_to_pages`. -/
def posLevelToPages (level : Nat) : Nat := posMapNr ^ level

/-- The loop of `pos_pages_to_level`; nine levels cover every number of pages. -/
def pagesToLevelFrom (nrPages : Nat) : Nat → Nat → Nat → Nat
  | 0, level, _ => level
  | rounds + 1, level, levelPages =>
      if levelPages < nrPages then pagesToLevelFrom nrPages rounds (level + 1) (levelPages * posMapNr)
      else level

/-- `pos_pages_to_level`. -/
def posPagesToLevel (nrPages : Nat) : Nat := pagesToLevelFrom nrPages 9 1 posMapNr

/-- The last step of a descent: read and perhaps change a word of an array of level one. -/
def actAtOne {β : Type} (act : Slot → β × Slot) (map : MapArray) (pages : Nat) :
    Option (β × MapArray) :=
  if pages < posMapNr then
    some ((act (map.pfns pages)).1,
      { map with pfns := Function.update map.pfns pages (act (map.pfns pages)).2 })
  else none

/-- The descent that `pos_find_and_alloc_pfn` and `pos_insert_pfn_to_map_array` share.  It allocates
the arrays that are missing; the first page number of such an array is computed from the variable `i`
before it is set. -/
def descend {β : Type} (junk : Junk) (act : Slot → β × Slot) :
    Nat → MapArray → Nat → Option (β × MapArray)
  | 0, map, pages => actAtOne act map pages
  | 1, map, pages => actAtOne act map pages
  | level + 2, map, pages =>
      let sublevelPages := posLevelToPages (level + 1)
      let index := pages / sublevelPages
      if index < posMapNr then
        let child := match map.pfns index with
          | .empty => some (MapArray.new (level + 1)
              ((map.pn + junk.index (level + 1) map.pn pages * sublevelPages) % 2 ^ 64))
          | .frame _ => none
          | .array sublevel pn pfns => some ⟨sublevel, pn, pfns⟩
        match child with
        | none => none
        | some child =>
            match descend junk act (level + 1) child (pages - index * sublevelPages) with
            | none => none
            | some (result, child) =>
                some (result, { map with pfns := Function.update map.pfns index child.slot })
      else none

/-- `pos_find_and_alloc_pfn` on the page number in the area; `fresh` is the frame that
`pos_alloc_page` gives. -/
def posFindAndAllocPfn (junk : Junk) (fresh : Nat) (map : MapArray) (pages : Nat) :
    Option (Slot × MapArray) :=
  descend junk (fun word =>
    match word with
    | .empty => (.frame fresh, .frame fresh)
    | word => (word, word)) map.level map pages

/-- `pos_insert_pfn_to_map_array`: whether the word was empty. -/
def posInsertPfn (junk : Junk) (map : MapArray) (pages : Nat) (pfn : Slot) :
    Option (Bool × MapArray) :=
  descend junk (fun word =>
    match word with
    | .empty => (true, pfn)
    | word => (false, word)) map.level map pages

/-- `pos_copy_and_free_map_array` of a pointer: insert every frame below it at its page in the
destination, whose area starts at page `start`. -/
def copyAndFree (junk : Junk) (start : Nat) : Slot → MapArray → Option (Bool × MapArray)
  | .empty, _ => none
  | .frame _, _ => none
  | .array level pn pfns, dst =>
      (List.range posMapNr).foldl
        (fun state i =>
          match state with
          | none => none
          | some (false, dst) => some (false, dst)
          | some (true, dst) =>
              if (pfns i).used then
                if level = 1 then
                  posInsertPfn junk dst ((pn + i + (2 ^ 64 - start % 2 ^ 64)) % 2 ^ 64) (pfns i)
                else copyAndFree junk start (pfns i) dst
              else some (true, dst))
        (some (true, dst))

/-- The loop of `pos_merge_map_array` that adds levels.  Each new array gets level `level - 1`, and
one of its words is cleared, the one numbered by the outer loop. -/
def growFrom (junk : Junk) (level : Nat) : Nat → Nat → MapArray → MapArray
  | 0, _, map => map
  | gap + 1, i, map =>
      growFrom junk level gap (i + 1)
        { level := level - 1
          pn := map.pn
          pfns := Function.update (Function.update junk.words i .empty) 0 map.slot }

/-- `pos_merge_map_array` for an area of `nrPages` pages that starts at page `start`. -/
def posMergeMapArray (junk : Junk) (nrPages start : Nat) (dst : MapArray) (src : Option MapArray) :
    Option (Bool × MapArray) :=
  let level := posPagesToLevel nrPages
  let dst := if dst.level < level then growFrom junk level (level - dst.level) 0 dst else dst
  match src with
  | none => some (true, dst)
  | some src => copyAndFree junk start src.slot dst

/-- `pos_reduce_map_array_level`: step down to the first sub-array until the level fits. -/
def reduceLevel (level : Nat) : Slot → Option MapArray
  | .array sublevel pn pfns =>
      if level < sublevel then reduceLevel level (pfns 0) else some ⟨sublevel, pn, pfns⟩
  | _ => none

/-- The test of `pos_reduce_map_array` and `pos_copy_partial_map_array` on a sub-array. -/
def touches (pn sublevelPages i firstPn lastPn : Nat) : Bool :=
  (pn + sublevelPages * i ≤ firstPn ∧ firstPn ≤ pn + sublevelPages * (i + 1)) ∨
    (pn + sublevelPages * i ≤ lastPn ∧ lastPn ≤ pn + sublevelPages * (i + 1))

/-- `pos_reduce_map_array`: clear the words of the pages from `firstPn` to `lastPn`; a sub-array that
the test selects is freed as a whole. -/
def reduceSlot (firstPn lastPn : Nat) : Slot → Option MapArray
  | .array level pn pfns =>
      if level = 1 then
        some ⟨level, pn, fun i =>
          if i < posMapNr ∧ (pfns i).used ∧ firstPn ≤ pn + i ∧ pn + i ≤ lastPn then .empty
          else pfns i⟩
      else if (List.range posMapNr).all fun i =>
          !((pfns i).used && touches pn (posLevelToPages (level - 1)) i firstPn lastPn) ||
            (reduceSlot firstPn lastPn (pfns i)).isSome then
        some ⟨level, pn, fun i =>
          if i < posMapNr ∧ (pfns i).used ∧
              touches pn (posLevelToPages (level - 1)) i firstPn lastPn then .empty
          else pfns i⟩
      else none
  | _ => none

/-- `pos_copy_partial_map_array` of a pointer. -/
def copyPartial (junk : Junk) (start firstPn lastPn : Nat) :
    Slot → MapArray → Option (Bool × MapArray)
  | .empty, _ => none
  | .frame _, _ => none
  | .array level pn pfns, dst =>
      (List.range posMapNr).foldl
        (fun state i =>
          match state with
          | none => none
          | some (false, dst) => some (false, dst)
          | some (true, dst) =>
              if (pfns i).used then
                if level = 1 then
                  if firstPn ≤ pn + i ∧ pn + i ≤ lastPn then
                    posInsertPfn junk dst ((pn + i + (2 ^ 64 - start % 2 ^ 64)) % 2 ^ 64) (pfns i)
                  else some (true, dst)
                else if touches pn (posLevelToPages (level - 1)) i firstPn lastPn then
                  copyPartial junk start firstPn lastPn (pfns i) dst
                else some (true, dst)
              else some (true, dst))
        (some (true, dst))

end StorageStack.Pos
