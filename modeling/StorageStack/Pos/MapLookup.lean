import StorageStack.Pos.AreaChanges

/-!
# The frame of a page

Reading a map array by page number gives a partial map from pages to frames.  On arrays in which every
word is what its level says, a fault adds one page to this map, freeing an array passes every frame of
the map to `pos_free_page`, and a reduction takes whole sub-arrays out of it.
-/

namespace StorageStack.Pos

/-- The frame number in a word of level one. -/
def Slot.frame? : Slot → Option Nat
  | .frame pfn => some pfn
  | _ => none

/-- The word of level one that a descent to the page reaches; empty if an array is missing. -/
def wordAt : Nat → (Nat → Slot) → Nat → Slot
  | 0, words, page => words page
  | 1, words, page => words page
  | level + 2, words, page =>
      match words (page / posLevelToPages (level + 1)) with
      | .array _ _ words => wordAt (level + 1) words (page % posLevelToPages (level + 1))
      | _ => .empty

/-- The frame of a page. -/
def MapArray.frameAt (map : MapArray) (page : Nat) : Option Nat :=
  (wordAt map.level map.pfns page).frame?

/-- The words of an array of level one are frames, those of a higher level lead to arrays of the level
below. -/
def Shaped : Nat → (Nat → Slot) → Prop
  | 0, _ => False
  | 1, words => ∀ i < posMapNr, words i = .empty ∨ ∃ pfn, words i = .frame pfn
  | level + 2, words => ∀ i < posMapNr, words i = .empty ∨
      ∃ pn sub, words i = .array (level + 1) pn sub ∧ Shaped (level + 1) sub

/-- `pos_free_map_array` of a pointer: the frames passed to `pos_free_page`. -/
def posFreeMapArray : Slot → List Nat
  | .array level _ words => (List.range posMapNr).flatMap fun i =>
      if level = 1 then (words i).frame?.toList else posFreeMapArray (words i)
  | _ => []

@[simp] theorem posFreeMapArray_empty : posFreeMapArray .empty = [] := by
  simp [posFreeMapArray]

@[simp] theorem posLevelToPages_zero : posLevelToPages 0 = 1 := rfl

theorem posLevelToPages_succ (level : Nat) :
    posLevelToPages (level + 1) = posMapNr * posLevelToPages level := by
  rw [posLevelToPages, posLevelToPages, pow_succ, Nat.mul_comm]

theorem posLevelToPages_pos (level : Nat) : 0 < posLevelToPages level :=
  Nat.pow_pos (by decide)

theorem posLevelToPages_one : posLevelToPages 1 = posMapNr := pow_one _

/-! ## The level that a number of pages needs -/

theorem pagesToLevelFrom_le {nrPages : Nat} (rounds : Nat) : ∀ {level enough : Nat},
    level ≤ enough → nrPages ≤ posMapNr ^ enough →
      pagesToLevelFrom nrPages rounds level (posMapNr ^ level) ≤ enough := by
  induction rounds with
  | zero =>
      intro level enough le _
      exact le
  | succ rounds ih =>
      intro level enough le fits
      rw [pagesToLevelFrom]
      by_cases more : posMapNr ^ level < nrPages
      · rw [if_pos more, ← pow_succ]
        have lt : level < enough :=
          (Nat.pow_lt_pow_iff_right (by decide : 1 < posMapNr)).mp (more.trans_le fits)
        exact ih lt fits
      · rw [if_neg more]
        exact le

/-- The level that `pos_pages_to_level` gives is the least that is enough. -/
theorem posPagesToLevel_le {nrPages level : Nat} (positive : 1 ≤ level)
    (fits : nrPages ≤ posMapNr ^ level) : posPagesToLevel nrPages ≤ level := by
  have le := @pagesToLevelFrom_le nrPages 9 1 level positive fits
  rwa [pow_one] at le

theorem one_le_pagesToLevelFrom (nrPages rounds : Nat) : ∀ {level pages : Nat}, 1 ≤ level →
    1 ≤ pagesToLevelFrom nrPages rounds level pages := by
  induction rounds with
  | zero => exact fun positive => positive
  | succ rounds ih =>
      intro level pages positive
      rw [pagesToLevelFrom]
      split
      · exact ih (Nat.le_add_left 1 level)
      · exact positive

theorem one_le_posPagesToLevel (nrPages : Nat) : 1 ≤ posPagesToLevel nrPages :=
  one_le_pagesToLevelFrom nrPages 9 le_rfl

/-! ## Empty arrays and sub-arrays -/

theorem shaped_empty (level : Nat) : Shaped (level + 1) fun _ => .empty := by
  cases level with
  | zero => exact fun _ _ => Or.inl rfl
  | succ level => exact fun _ _ => Or.inl rfl

theorem wordAt_empty (level page : Nat) : wordAt level (fun _ => .empty) page = .empty := by
  match level with
  | 0 => rfl
  | 1 => rfl
  | _ + 2 => rfl

/-- The index of a page of an array lies in the array. -/
theorem index_lt {level page : Nat} (inside : page < posLevelToPages (level + 1)) :
    page / posLevelToPages level < posMapNr := by
  apply Nat.div_lt_of_lt_mul
  rwa [Nat.mul_comm, ← posLevelToPages_succ]

theorem mod_lt_pages (page level : Nat) : page % posLevelToPages level < posLevelToPages level :=
  Nat.mod_lt _ (posLevelToPages_pos level)

/-! ## Faults -/

/-- Two pages are the same if they have the same sub-array and the same place in it. -/
theorem page_eq_iff {level page other : Nat} :
    page = other ↔ page / posLevelToPages level = other / posLevelToPages level ∧
      page % posLevelToPages level = other % posLevelToPages level := by
  constructor
  · rintro rfl
    exact ⟨rfl, rfl⟩
  · rintro ⟨index, rest⟩
    rw [← Nat.div_add_mod page (posLevelToPages level), index, rest, Nat.div_add_mod]

/-- A word of level one. -/
def Slot.Leaf (word : Slot) : Prop := word = .empty ∨ ∃ pfn, word = .frame pfn

theorem wordAt_leaf (level : Nat) : ∀ {words : Nat → Slot} {page : Nat}, Shaped (level + 1) words →
    page < posLevelToPages (level + 1) → (wordAt (level + 1) words page).Leaf := by
  induction level with
  | zero =>
      intro words page shaped inside
      exact shaped page (by rwa [posLevelToPages_one] at inside)
  | succ level ih =>
      intro words page shaped inside
      rw [wordAt]
      rcases shaped _ (index_lt inside) with missing | ⟨pn, sub, found, subShaped⟩
      · rw [missing]
        exact Or.inl rfl
      · rw [found]
        exact ih subShaped (mod_lt_pages page _)

/-- The descent reads the word of its page, writes it and keeps every other word. -/
theorem descend_spec {β : Type} (junk : Junk) (act : Slot → β × Slot)
    (leaf : ∀ word : Slot, word.Leaf → (act word).2.Leaf) (level : Nat) :
    ∀ {map : MapArray} {page : Nat}, Shaped (level + 1) map.pfns →
      page < posLevelToPages (level + 1) →
      ∃ words, descend junk act (level + 1) map page =
          some ((act (wordAt (level + 1) map.pfns page)).1, { map with pfns := words }) ∧
        Shaped (level + 1) words ∧
        ∀ other, wordAt (level + 1) words other =
          if other = page then (act (wordAt (level + 1) map.pfns page)).2
          else wordAt (level + 1) map.pfns other := by
  induction level with
  | zero =>
      intro map page shaped inside
      have small : page < posMapNr := by rwa [posLevelToPages_one] at inside
      refine ⟨Function.update map.pfns page (act (map.pfns page)).2, ?_, fun i index => ?_,
        fun other => ?_⟩
      · rw [descend, actAtOne, if_pos small]
        rfl
      · by_cases same : i = page
        · rw [same, Function.update_self]
          exact leaf _ (shaped page small)
        · rw [Function.update_of_ne same]
          exact shaped i index
      · exact Function.update_apply map.pfns page (act (map.pfns page)).2 other
  | succ level ih =>
      intro map page shaped inside
      have index := index_lt inside
      have rest := mod_lt_pages page (level + 1)
      have rem : page - page / posLevelToPages (level + 1) * posLevelToPages (level + 1) =
          page % posLevelToPages (level + 1) := by
        rw [Nat.mul_comm, Nat.mod_eq_sub]
      -- the array at the index, an empty one if there is none
      obtain ⟨child, descent, childLevel, childShaped, childWord⟩ : ∃ child : MapArray,
          descend junk act (level + 2) map page =
            (descend junk act (level + 1) child (page % posLevelToPages (level + 1))).map
              (fun out => (out.1, { map with
                pfns := Function.update map.pfns (page / posLevelToPages (level + 1)) out.2.slot })) ∧
          child.level = level + 1 ∧ Shaped (level + 1) child.pfns ∧
          ∀ other, other / posLevelToPages (level + 1) = page / posLevelToPages (level + 1) →
            wordAt (level + 2) map.pfns other =
              wordAt (level + 1) child.pfns (other % posLevelToPages (level + 1)) := by
        rcases shaped _ index with missing | ⟨pn, sub, found, subShaped⟩
        · refine ⟨MapArray.new (level + 1) ((map.pn + junk.index (level + 1) map.pn page *
            posLevelToPages (level + 1)) % 2 ^ 64), ?_, rfl, shaped_empty level,
            fun other same => ?_⟩
          · rw [descend.eq_def]
            dsimp only
            rw [if_pos index, missing, rem]
            dsimp only
            cases descend junk act (level + 1) _ _ <;> rfl
          · rw [wordAt, same, missing]
            exact (wordAt_empty ..).symm
        · refine ⟨⟨level + 1, pn, sub⟩, ?_, rfl, subShaped, fun other same => ?_⟩
          · rw [descend.eq_def]
            dsimp only
            rw [if_pos index, found, rem]
            dsimp only
            cases descend junk act (level + 1) _ _ <;> rfl
          · rw [wordAt, same, found]
      obtain ⟨words, step, wordsShaped, wordsAt⟩ := ih childShaped rest
      rw [← childWord page rfl] at step wordsAt
      refine ⟨Function.update map.pfns (page / posLevelToPages (level + 1))
        (.array (level + 1) child.pn words), ?_, fun i bound => ?_, fun other => ?_⟩
      · rw [descent, step, Option.map_some, MapArray.slot, childLevel]
      · by_cases same : i = page / posLevelToPages (level + 1)
        · rw [same, Function.update_self]
          exact Or.inr ⟨child.pn, words, rfl, wordsShaped⟩
        · rw [Function.update_of_ne same]
          exact shaped i bound
      · by_cases same : other / posLevelToPages (level + 1) = page / posLevelToPages (level + 1)
        · rw [wordAt, same, Function.update_self]
          dsimp only
          rw [wordsAt, childWord other same]
          have iff := @page_eq_iff (level + 1) other page
          simp only [same, true_and] at iff
          simp only [iff]
        · have ne : other ≠ page := by
            rintro rfl
            exact same rfl
          rw [if_neg ne, wordAt, wordAt, Function.update_of_ne same]

/-- An action that puts a frame into an empty word and keeps a frame leaves words of level one. -/
theorem leaf_of_fills {β : Type} {act : Slot → β × Slot} {fresh : Nat}
    (onEmpty : (act .empty).2 = .frame fresh) (onFrame : ∀ pfn, (act (.frame pfn)).2 = .frame pfn)
    (word : Slot) (leaf : word.Leaf) : (act word).2.Leaf := by
  rcases leaf with rfl | ⟨pfn, rfl⟩
  · exact Or.inr ⟨fresh, onEmpty⟩
  · exact Or.inr ⟨pfn, onFrame pfn⟩

/-- An action that puts a frame into an empty word and keeps a frame enters the page. -/
theorem descend_fills {β : Type} (junk : Junk) {act : Slot → β × Slot} {fresh : Nat} {answer : β}
    {map : MapArray} {level page : Nat} (onEmpty : (act .empty).2 = .frame fresh)
    (onFrame : ∀ pfn, (act (.frame pfn)).2 = .frame pfn) (atLevel : map.level = level + 1)
    (shaped : Shaped (level + 1) map.pfns) (inside : page < posLevelToPages (level + 1))
    (answers : (act (wordAt (level + 1) map.pfns page)).1 = answer) :
    ∃ words, descend junk act map.level map page = some (answer, { map with pfns := words }) ∧
      Shaped (level + 1) words ∧
      ∀ other, ({ map with pfns := words } : MapArray).frameAt other =
        if other = page then some ((map.frameAt page).getD fresh) else map.frameAt other := by
  obtain ⟨words, step, wordsShaped, wordsAt⟩ :=
    descend_spec junk act (leaf_of_fills onEmpty onFrame) level shaped inside
  refine ⟨words, ?_, wordsShaped, fun other => ?_⟩
  · rw [← answers, ← step, ← atLevel]
  · simp only [MapArray.frameAt, atLevel]
    rw [wordsAt]
    split
    · rcases wordAt_leaf level shaped inside with empty | ⟨pfn, frame⟩
      · rw [empty, onEmpty]
        rfl
      · rw [frame, onFrame]
        rfl
    · rfl

/-- A fault gives the page its frame, a fresh one if it has none, and leaves the other pages alone. -/
theorem posFindAndAllocPfn_spec (junk : Junk) (fresh : Nat) {map : MapArray} {level page : Nat}
    (atLevel : map.level = level + 1) (shaped : Shaped (level + 1) map.pfns)
    (inside : page < posLevelToPages (level + 1)) :
    ∃ words, posFindAndAllocPfn junk fresh map page =
        some (.frame ((map.frameAt page).getD fresh), { map with pfns := words }) ∧
      Shaped (level + 1) words ∧
      ∀ other, ({ map with pfns := words } : MapArray).frameAt other =
        if other = page then some ((map.frameAt page).getD fresh) else map.frameAt other := by
  rw [posFindAndAllocPfn]
  refine descend_fills junk rfl (fun _ => rfl) atLevel shaped inside ?_
  rw [MapArray.frameAt, atLevel]
  rcases wordAt_leaf level shaped inside with empty | ⟨pfn, frame⟩
  · rw [empty]
    rfl
  · rw [frame]
    rfl

/-! ## Freeing -/

/-- The pages of an array are those of its sub-arrays in turn. -/
theorem range_mul (count pages : Nat) : List.range (count * pages) =
    (List.range count).flatMap fun i => (List.range pages).map (i * pages + ·) := by
  induction count with
  | zero => simp
  | succ count ih =>
      rw [Nat.succ_mul, List.range_add, ih, List.range_succ, List.flatMap_append,
        List.flatMap_singleton]

theorem place_div_mod {level page : Nat} (i : Nat) (small : page < posLevelToPages level) :
    (i * posLevelToPages level + page) / posLevelToPages level = i ∧
      (i * posLevelToPages level + page) % posLevelToPages level = page := by
  rw [Nat.mul_comm, Nat.mul_add_div (posLevelToPages_pos _), Nat.div_eq_of_lt small,
    Nat.mul_add_mod, Nat.mod_eq_of_lt small]
  exact ⟨rfl, rfl⟩

/-- A page of a sub-array is read there. -/
theorem wordAt_sub {level i page subLevel subPn : Nat} {words sub : Nat → Slot}
    (small : page < posLevelToPages (level + 1)) (found : words i = .array subLevel subPn sub) :
    wordAt (level + 2) words (i * posLevelToPages (level + 1) + page) =
      wordAt (level + 1) sub page := by
  obtain ⟨index, rest⟩ := place_div_mod i small
  rw [wordAt, index, found, rest]

theorem wordAt_missing {level i page : Nat} {words : Nat → Slot}
    (small : page < posLevelToPages (level + 1)) (missing : words i = .empty) :
    wordAt (level + 2) words (i * posLevelToPages (level + 1) + page) = .empty := by
  rw [wordAt, (place_div_mod i small).1, missing]

/-- `pos_free_map_array` passes the frames of the array to `pos_free_page`, in the order of the
pages. -/
theorem posFreeMapArray_eq (level : Nat) : ∀ {words : Nat → Slot} (pn : Nat),
    Shaped (level + 1) words →
      posFreeMapArray (.array (level + 1) pn words) =
        (List.range (posLevelToPages (level + 1))).filterMap
          fun page => (wordAt (level + 1) words page).frame? := by
  induction level with
  | zero =>
      intro words pn _
      rw [posLevelToPages_one, posFreeMapArray, List.filterMap_eq_flatMap_toList]
      rfl
  | succ level ih =>
      intro words pn shaped
      rw [posFreeMapArray, posLevelToPages_succ, range_mul, List.filterMap_flatMap]
      refine List.flatMap_congr fun i index => ?_
      have bound := List.mem_range.mp index
      rw [if_neg (by omega), List.filterMap_map]
      rcases shaped i bound with missing | ⟨subPn, sub, found, subShaped⟩
      · rw [missing, posFreeMapArray_empty]
        refine (List.filterMap_eq_nil_iff.mpr fun page member => ?_).symm
        rw [Function.comp_apply, wordAt_missing (List.mem_range.mp member) missing]
        rfl
      · rw [found, ih subPn subShaped]
        refine List.filterMap_congr fun page member => ?_
        rw [Function.comp_apply, wordAt_sub (List.mem_range.mp member) found]

/-! ## Reducing -/

/-- `pos_reduce_map_array` empties the word at the index, if it is used: the page is in the range, or
the test selects the sub-array. -/
def Clears (level pn firstPn lastPn i : Nat) : Prop :=
  if level = 1 then firstPn ≤ pn + i ∧ pn + i ≤ lastPn
  else touches pn (posLevelToPages (level - 1)) i firstPn lastPn = true

instance (level pn firstPn lastPn i : Nat) : Decidable (Clears level pn firstPn lastPn i) := by
  unfold Clears
  infer_instance

/-- `pos_reduce_map_array` runs to its end. -/
theorem isSome_reduceSlot (firstPn lastPn level : Nat) : ∀ {words : Nat → Slot} (pn : Nat),
    Shaped (level + 1) words →
      (reduceSlot firstPn lastPn (.array (level + 1) pn words)).isSome := by
  induction level with
  | zero =>
      intro words pn _
      rw [reduceSlot, if_pos rfl]
      rfl
  | succ level ih =>
      intro words pn shaped
      rw [reduceSlot, if_neg (by omega), if_pos]
      · rfl
      · refine List.all_eq_true.mpr fun i index => ?_
        rcases shaped i (List.mem_range.mp index) with missing | ⟨subPn, sub, found, subShaped⟩
        · rw [missing]
          rfl
        · rw [found, ih subPn subShaped, Bool.or_true]

/-- A word that is not used is empty. -/
theorem Slot.eq_empty {word : Slot} (unused : word.used = false) : word = .empty := by
  cases word with
  | empty => rfl
  | frame pfn => cases unused
  | array level pn pfns => cases unused

/-- `pos_reduce_map_array` empties the words of its test and keeps the others. -/
theorem reduceSlot_eq (firstPn lastPn level : Nat) {words : Nat → Slot} (pn : Nat)
    (shaped : Shaped (level + 1) words) :
    ∃ words', reduceSlot firstPn lastPn (.array (level + 1) pn words) =
        some ⟨level + 1, pn, words'⟩ ∧
      ∀ i < posMapNr, words' i =
        if Clears (level + 1) pn firstPn lastPn i then .empty else words i := by
  have some := isSome_reduceSlot firstPn lastPn level pn shaped
  have pick : ∀ (selected : Prop) (_ : Decidable selected), ∀ i < posMapNr,
      (if i < posMapNr ∧ (words i).used ∧ selected then Slot.empty else words i) =
        if selected then .empty else words i := by
    intro selected _ i index
    cases used : (words i).used with
    | false => simp [Slot.eq_empty used]
    | true => simp [index]
  rw [reduceSlot] at some ⊢
  by_cases one : level + 1 = 1
  · rw [if_pos one]
    refine ⟨_, rfl, fun i index => ?_⟩
    simp only [Clears, if_pos one]
    exact pick _ _ i index
  · rw [if_neg one] at some ⊢
    split at some
    · next all =>
        rw [if_pos all]
        refine ⟨_, rfl, fun i index => ?_⟩
        simp only [Clears, if_neg one]
        exact pick _ _ i index
    · cases some

/-- After `pos_reduce_map_array` the pages of the words that it empties have no frame. -/
theorem reduceSlot_spec (firstPn lastPn level : Nat) {words : Nat → Slot} (pn : Nat)
    (shaped : Shaped (level + 1) words) :
    ∃ words', reduceSlot firstPn lastPn (.array (level + 1) pn words) =
        some ⟨level + 1, pn, words'⟩ ∧
      (Clears (level + 1) pn firstPn lastPn 0 → words' 0 = .empty) ∧
      ∀ page < posLevelToPages (level + 1), wordAt (level + 1) words' page =
        if Clears (level + 1) pn firstPn lastPn (page / posLevelToPages level) then .empty
        else wordAt (level + 1) words page := by
  obtain ⟨words', result, cleared⟩ := reduceSlot_eq firstPn lastPn level pn shaped
  refine ⟨words', result, fun clears => ?_, fun page inside => ?_⟩
  · rw [cleared 0 (by decide), if_pos clears]
  · have index := cleared _ (index_lt inside)
    cases level with
    | zero =>
        rw [posLevelToPages_zero, Nat.div_one] at index ⊢
        exact index
    | succ level =>
        rw [wordAt, index, wordAt]
        by_cases clears : Clears (level + 2) pn firstPn lastPn (page / posLevelToPages (level + 1))
        · rw [if_pos clears, if_pos clears]
        · rw [if_neg clears, if_neg clears]

end StorageStack.Pos
