import StorageStack.Pos.FiniteMap

/-!
# Copies of whole map arrays

A copy of an array inserts its frames one after the other, in the order of their pages.  It succeeds
when every frame has an empty place in the destination and the arrays that the insertions create get
the right numbers, and then the destination has its own frames and those of the source.
-/

namespace StorageStack.Pos

variable {junk : Junk} {start : Nat} {map dst after : MapArray} {frames more : List (Nat × Nat)}

/-- The pages of an array that have frames, by their numbers. -/
def pageFrames (level pn : Nat) (words : Nat → Slot) : List (Nat × Nat) :=
  (List.range (posLevelToPages level)).filterMap fun page =>
    (wordAt level words page).frame?.map fun pfn => (pn + page, pfn)

/-- The array holds the frame at the page with the number. -/
def MapArray.Holds (map : MapArray) (number pfn : Nat) : Prop :=
  map.pn ≤ number ∧ number < map.pn + posLevelToPages map.level ∧
    map.frameAt (number - map.pn) = some pfn

/-- Insert the frames one after the other, up to the first that fails. -/
def insertAll (junk : Junk) (start : Nat) : List (Nat × Nat) → MapArray → Option (Bool × MapArray)
  | [], dst => some (true, dst)
  | (number, pfn) :: rest, dst =>
      match posInsertPfn junk dst ((number + (2 ^ 64 - start % 2 ^ 64)) % 2 ^ 64) (.frame pfn) with
      | some (true, dst) => insertAll junk start rest dst
      | failed => failed

theorem mem_pageFrames {number pfn : Nat} :
    (number, pfn) ∈ pageFrames map.level map.pn map.pfns ↔ map.Holds number pfn := by
  simp only [pageFrames, List.mem_filterMap, List.mem_range, Option.map_eq_some_iff, Prod.mk.injEq,
    MapArray.Holds, MapArray.frameAt]
  constructor
  · rintro ⟨page, inside, found, frame, rfl, rfl⟩
    rw [Nat.add_sub_cancel_left]
    exact ⟨Nat.le_add_right _ _, Nat.add_lt_add_left inside _, frame⟩
  · rintro ⟨low, high, frame⟩
    exact ⟨number - map.pn, by omega, pfn, frame, by omega, rfl⟩

theorem nodup_pageFrames (level pn : Nat) (words : Nat → Slot) :
    ((pageFrames level pn words).map Prod.fst).Nodup := by
  rw [pageFrames, List.map_filterMap]
  refine List.nodup_range.filterMap ?_
  intro page other number first second
  simp only [Option.map_map, Option.mem_def, Option.map_eq_some_iff, Function.comp_apply] at first second
  obtain ⟨-, -, rfl⟩ := first
  obtain ⟨-, -, same⟩ := second
  omega

theorem insertAll_append_iff :
    insertAll junk start (frames ++ more) dst = some (true, after) ↔
      ∃ middle, insertAll junk start frames dst = some (true, middle) ∧
        insertAll junk start more middle = some (true, after) := by
  induction frames generalizing dst with
  | nil => simp [insertAll]
  | cons entry frames ih =>
      obtain ⟨number, pfn⟩ := entry
      rw [List.cons_append, insertAll, insertAll]
      split
      next middle _ => exact ih
      next failed stuck =>
        constructor
        · intro step
          exact absurd step (stuck after)
        · rintro ⟨middle, step, -⟩
          exact absurd step (stuck middle)

/-- A loop that inserts the frames of one index after the other inserts all of them. -/
theorem foldl_of_insertAll {body : Option (Bool × MapArray) → Nat → Option (Bool × MapArray)}
    {chunk : Nat → List (Nat × Nat)} : ∀ {indices : List Nat} {dst : MapArray},
    (∀ index ∈ indices, ∀ dst middle, insertAll junk start (chunk index) dst = some (true, middle) →
      body (some (true, dst)) index = some (true, middle)) →
    insertAll junk start (indices.flatMap chunk) dst = some (true, after) →
    indices.foldl body (some (true, dst)) = some (true, after) := by
  intro indices
  induction indices with
  | nil => exact fun _ inserted => inserted
  | cons index indices ih =>
      intro dst each inserted
      rw [List.flatMap_cons, insertAll_append_iff] at inserted
      obtain ⟨middle, first, rest⟩ := inserted
      rw [List.foldl_cons, each index List.mem_cons_self dst middle first]
      exact ih (fun other inside => each other (List.mem_cons_of_mem _ inside)) rest

/-- `pos_copy_and_free_map_array` inserts the frames of the array in the order of their pages. -/
theorem copyAndFree_of_insertAll (level : Nat) : ∀ {pn : Nat} {words : Nat → Slot} {dst after : MapArray},
    Numbered (level + 1) pn words →
    insertAll junk start (pageFrames (level + 1) pn words) dst = some (true, after) →
    copyAndFree junk start (.array (level + 1) pn words) dst = some (true, after) := by
  induction level with
  | zero =>
      intro pn words dst after numbered inserted
      rw [pageFrames, posLevelToPages_one, List.filterMap_eq_flatMap_toList] at inserted
      rw [copyAndFree]
      refine foldl_of_insertAll ?_ inserted
      intro index inside dst middle first
      rcases numbered index (List.mem_range.1 inside) with missing | ⟨pfn, found⟩
      · rw [wordAt, missing] at first
        rw [missing]
        exact first
      · rw [wordAt, found] at first
        rw [found]
        simp only [Slot.frame?, Option.map_some, Option.toList_some, insertAll] at first
        simp only [Slot.used, if_true]
        split at first
        next step =>
          cases first
          exact step
        next => exact first
  | succ level ih =>
      intro pn words dst after numbered inserted
      rw [pageFrames, posLevelToPages_succ, range_mul, List.filterMap_flatMap] at inserted
      rw [copyAndFree]
      refine foldl_of_insertAll ?_ inserted
      intro index inside dst middle first
      rw [List.filterMap_map] at first
      rcases numbered index (List.mem_range.1 inside) with missing | ⟨sub, found, sub_numbered⟩
      · have none_here : (List.range (posLevelToPages (level + 1))).filterMap
            ((fun page => (wordAt (level + 2) words page).frame?.map fun pfn => (pn + page, pfn)) ∘
              fun page => index * posLevelToPages (level + 1) + page) = [] := by
          refine List.filterMap_eq_nil_iff.2 fun page member => ?_
          rw [Function.comp_apply, wordAt_missing (List.mem_range.1 member) missing]
          rfl
        rw [none_here] at first
        rw [missing]
        exact first
      · have same : (List.range (posLevelToPages (level + 1))).filterMap
            ((fun page => (wordAt (level + 2) words page).frame?.map fun pfn => (pn + page, pfn)) ∘
              fun page => index * posLevelToPages (level + 1) + page) =
            pageFrames (level + 1) (pn + index * posLevelToPages (level + 1)) sub := by
          refine List.filterMap_congr fun page member => ?_
          rw [Function.comp_apply, wordAt_sub (List.mem_range.1 member) found, Nat.add_assoc]
        rw [same] at first
        have deep : ¬ level + 1 + 1 = 1 := by omega
        rw [found]
        simp only [Slot.used, if_true, if_neg deep]
        exact ih sub_numbered first

/-! ## Insertions one after the other -/

/-- Right numbers for the same page in the same array are the same, whatever the pages are for which
it is created. -/
theorem childAt_congr {level page other : Nat} (numbered : Numbered (level + 2) map.pn map.pfns)
    (inside : page < posLevelToPages (level + 2)) (inside' : other < posLevelToPages (level + 2))
    (same : other / posLevelToPages (level + 1) = page / posLevelToPages (level + 1))
    (creates : CreatesRight junk (level + 2) map.pn map.pfns page)
    (creates' : CreatesRight junk (level + 2) map.pn map.pfns other) :
    childAt junk level map other = childAt junk level map page := by
  have right := ((childAt_spec junk numbered inside).2.2.1 creates).1
  have right' := ((childAt_spec junk numbered inside').2.2.1 creates').1
  rw [childAt, same] at right' ⊢
  rw [childAt] at right ⊢
  rcases numbered _ (index_lt inside) with missing | ⟨sub, found, -⟩
  · rw [missing] at right right' ⊢
    exact congrArg (MapArray.new (level + 1)) (right'.trans right.symm)
  · rw [found]

/-- A descent that creates rightly leaves every other descent creating rightly. -/
theorem CreatesRight.stays {β : Type} {act : Slot → β × Slot}
    (leaf : ∀ word : Slot, word.Leaf → (act word).2.Leaf) (level : Nat) :
    ∀ {map after : MapArray} {page other : Nat} {result : β}, Numbered (level + 1) map.pn map.pfns →
      page < posLevelToPages (level + 1) → other < posLevelToPages (level + 1) →
      CreatesRight junk (level + 1) map.pn map.pfns page →
      CreatesRight junk (level + 1) map.pn map.pfns other →
      descend junk act (level + 1) map page = some (result, after) →
      CreatesRight junk (level + 1) map.pn after.pfns other := by
  induction level with
  | zero => exact fun _ _ _ _ _ _ => trivial
  | succ level ih =>
      intro map after page other result numbered inside inside' creates creates' step
      have rest := mod_lt_pages page (level + 1)
      have rest' := mod_lt_pages other (level + 1)
      obtain ⟨child_level, child_numbered, child_creates⟩ := childAt_spec junk numbered inside
      obtain ⟨words, child_step, -, -⟩ :=
        descend_spec junk act leaf level child_numbered.shaped rest
      rw [descend_succ junk act numbered.shaped inside, child_step] at step
      cases step
      show CreatesRight junk (level + 2) map.pn (Function.update map.pfns _ _) other
      by_cases same : other / posLevelToPages (level + 1) = page / posLevelToPages (level + 1)
      · have below := ((childAt_spec junk numbered inside').2.2.1 creates').2
        rw [childAt_congr numbered inside inside' same creates creates'] at below
        rw [CreatesRight, same, Function.update_self]
        have kept := ih child_numbered rest rest' (child_creates.1 creates).2 below child_step
        exact kept
      · rw [CreatesRight, Function.update_of_ne same]
        exact creates'

/-- Every frame of the list has an empty place of its own in the destination, to which a descent
creates rightly. -/
structure Accepts (junk : Junk) (dst : MapArray) (start : Nat) (frames : List (Nat × Nat)) : Prop where
  numbered : Numbered dst.level dst.pn dst.pfns
  distinct : (frames.map Prod.fst).Nodup
  room : ∀ entry ∈ frames, start ≤ entry.1 ∧ entry.1 < start + posLevelToPages dst.level ∧
    entry.1 < 2 ^ 64
  empty : ∀ entry ∈ frames, dst.frameAt (entry.1 - start) = none
  creates : ∀ entry ∈ frames, CreatesRight junk dst.level dst.pn dst.pfns (entry.1 - start)

/-- One insertion into a destination that accepts the frames. -/
theorem Accepts.insert {number pfn : Nat}
    (accepts : Accepts junk dst start ((number, pfn) :: frames)) :
    ∃ words, posInsertPfn junk dst ((number + (2 ^ 64 - start % 2 ^ 64)) % 2 ^ 64) (.frame pfn) =
        some (true, { dst with pfns := words }) ∧
      Accepts junk { dst with pfns := words } start frames ∧
      ∀ page, ({ dst with pfns := words } : MapArray).frameAt page =
        if page = number - start then some pfn else dst.frameAt page := by
  obtain ⟨from_start, below, word⟩ := accepts.room _ List.mem_cons_self
  have empty := accepts.empty _ List.mem_cons_self
  have creates := accepts.creates _ List.mem_cons_self
  dsimp only at from_start below word empty creates
  have place : (number + (2 ^ 64 - start % 2 ^ 64)) % 2 ^ 64 = number - start := by omega
  have inside : number - start < posLevelToPages dst.level := by omega
  obtain ⟨words, step, filled, numbered⟩ := (insertsFrame_iff junk pfn accepts.numbered inside).2 creates
  rw [empty] at step filled
  refine ⟨words, place ▸ step, ⟨numbered, ?_, fun entry member => ?_, fun entry member => ?_,
    fun entry member => ?_⟩, filled⟩
  · exact (List.nodup_cons.1 accepts.distinct).2
  · exact accepts.room entry (List.mem_cons_of_mem _ member)
  · have other : entry.1 ≠ number := by
      intro same
      have listed : entry.1 ∈ frames.map Prod.fst := List.mem_map_of_mem member
      rw [same] at listed
      exact (List.nodup_cons.1 accepts.distinct).1 listed
    have room := accepts.room entry (List.mem_cons_of_mem _ member)
    rw [filled, if_neg (by omega)]
    exact accepts.empty entry (List.mem_cons_of_mem _ member)
  · have room := accepts.room entry (List.mem_cons_of_mem _ member)
    obtain ⟨level, pn, pfns⟩ := dst
    obtain ⟨below_level, rfl⟩ := accepts.numbered.exists_level
    have inside' : entry.1 - start < posLevelToPages (below_level + 1) := by
      dsimp only at room
      omega
    have kept := CreatesRight.stays (leaf_of_fills rfl fun _ => rfl) below_level accepts.numbered
      inside inside' creates (accepts.creates entry (List.mem_cons_of_mem _ member)) step
    exact kept

/-- The destination of frames that it accepts gets them, and no others. -/
theorem insertAll_spec : ∀ {frames : List (Nat × Nat)} {dst : MapArray},
    Accepts junk dst start frames →
    ∃ words, insertAll junk start frames dst = some (true, { dst with pfns := words }) ∧
      Numbered dst.level dst.pn words ∧
      ∀ page pfn, ({ dst with pfns := words } : MapArray).frameAt page = some pfn ↔
        dst.frameAt page = some pfn ∨ (start + page, pfn) ∈ frames := by
  intro frames
  induction frames with
  | nil =>
      intro dst accepts
      refine ⟨dst.pfns, rfl, accepts.numbered, fun page pfn => ?_⟩
      simp
  | cons entry frames ih =>
      obtain ⟨number, pfn⟩ := entry
      intro dst accepts
      obtain ⟨words, step, accepts', filled⟩ := accepts.insert
      obtain ⟨last, inserted, numbered, frames_iff⟩ := ih accepts'
      have from_start := (accepts.room _ List.mem_cons_self).1
      have empty := accepts.empty _ List.mem_cons_self
      dsimp only at from_start empty
      refine ⟨last, ?_, numbered, fun page found => ?_⟩
      · rw [insertAll, step]
        exact inserted
      · rw [frames_iff, filled]
        by_cases here : page = number - start
        · have place : start + page = number := by omega
          rw [if_pos here, place, here, empty]
          simp [eq_comm]
        · have elsewhere : start + page ≠ number := by omega
          rw [if_neg here]
          simp [elsewhere]

/-! ## Copies -/

/-- The destination has an empty place for every frame of the source, to which a descent creates
rightly. -/
structure Takes (junk : Junk) (dst : MapArray) (start : Nat) (src : MapArray) : Prop where
  numbered : Numbered dst.level dst.pn dst.pfns
  source : Numbered src.level src.pn src.pfns
  room : ∀ number pfn, src.Holds number pfn →
    start ≤ number ∧ number < start + posLevelToPages dst.level ∧ number < 2 ^ 64
  empty : ∀ number pfn, src.Holds number pfn → dst.frameAt (number - start) = none
  creates : ∀ number pfn, src.Holds number pfn →
    CreatesRight junk dst.level dst.pn dst.pfns (number - start)

/-- A copy of an array into one that takes its frames succeeds; the destination stays numbered and
has its own frames and the copied ones. -/
theorem copyAndFree_spec {src : MapArray} (takes : Takes junk dst start src) :
    ∃ words, copyAndFree junk start src.slot dst = some (true, { dst with pfns := words }) ∧
      Numbered dst.level dst.pn words ∧
      ∀ page pfn, ({ dst with pfns := words } : MapArray).frameAt page = some pfn ↔
        dst.frameAt page = some pfn ∨ src.Holds (start + page) pfn := by
  have holds : ∀ {entry : Nat × Nat}, entry ∈ pageFrames src.level src.pn src.pfns →
      src.Holds entry.1 entry.2 := by
    rintro ⟨number, pfn⟩ member
    exact mem_pageFrames.1 member
  have accepts : Accepts junk dst start (pageFrames src.level src.pn src.pfns) :=
    ⟨takes.numbered, nodup_pageFrames _ _ _, fun entry member => takes.room _ _ (holds member),
      fun entry member => takes.empty _ _ (holds member),
      fun entry member => takes.creates _ _ (holds member)⟩
  obtain ⟨words, inserted, numbered, frames⟩ := insertAll_spec accepts
  refine ⟨words, ?_, numbered, fun page pfn => ?_⟩
  · obtain ⟨level, pn, pfns⟩ := src
    obtain ⟨below, rfl⟩ := takes.source.exists_level
    exact copyAndFree_of_insertAll below takes.source inserted
  · rw [frames, mem_pageFrames]

end StorageStack.Pos
