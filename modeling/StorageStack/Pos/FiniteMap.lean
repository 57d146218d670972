import StorageStack.Pos.AreaChanges
import StorageStack.Pos.MapLookup

/-!
# Map arrays as finite maps

A descent finds the frame of a page, or stores one, whatever the first page numbers of the arrays on
its way are.  It also writes these numbers, into the arrays that it creates, from a variable that it
has not set; they are right only where that variable happens to hold the index of the array.
-/

namespace StorageStack.Pos

/-- Every sub-array has the level below that of its parent and the number of its first page. -/
def Numbered : Nat → Nat → (Nat → Slot) → Prop
  | 0, _, _ => False
  | 1, _, words => ∀ i < posMapNr, words i = .empty ∨ ∃ pfn, words i = .frame pfn
  | level + 2, pn, words => ∀ i < posMapNr, words i = .empty ∨
      ∃ sub, words i = .array (level + 1) (pn + i * posLevelToPages (level + 1)) sub ∧
        Numbered (level + 1) (pn + i * posLevelToPages (level + 1)) sub

/-- Wherever a descent to the page creates an array, the variable that it has not set gives the right
first page. -/
def CreatesRight (junk : Junk) : Nat → Nat → (Nat → Slot) → Nat → Prop
  | 0, _, _, _ => True
  | 1, _, _, _ => True
  | level + 2, pn, words, page =>
      let index := page / posLevelToPages (level + 1)
      match words index with
      | .array _ subPn sub =>
          CreatesRight junk (level + 1) subPn sub (page % posLevelToPages (level + 1))
      | _ =>
          (pn + junk.index (level + 1) pn page * posLevelToPages (level + 1)) % 2 ^ 64 =
            pn + index * posLevelToPages (level + 1) ∧
          CreatesRight junk (level + 1) (pn + index * posLevelToPages (level + 1))
            (fun _ => .empty) (page % posLevelToPages (level + 1))

theorem Numbered.shaped {level : Nat} : ∀ {pn : Nat} {words : Nat → Slot},
    Numbered (level + 1) pn words → Shaped (level + 1) words := by
  induction level with
  | zero => exact fun numbered => numbered
  | succ level ih =>
      intro pn words numbered i index
      rcases numbered i index with missing | ⟨sub, found, sub_numbered⟩
      · exact .inl missing
      · exact .inr ⟨_, sub, found, ih sub_numbered⟩

theorem Numbered.exists_level {level pn : Nat} {words : Nat → Slot}
    (numbered : Numbered level pn words) : ∃ below, level = below + 1 := by
  cases level with
  | zero => exact numbered.elim
  | succ below => exact ⟨below, rfl⟩

theorem numbered_empty (level pn : Nat) : Numbered (level + 1) pn fun _ => .empty := by
  cases level with
  | zero => exact fun _ _ => .inl rfl
  | succ level => exact fun _ _ => .inl rfl

/-- An array stays numbered when a sub-array is put in exactly when that sub-array is. -/
theorem numbered_update_iff {level pn index subPn : Nat} {words sub : Nat → Slot}
    (numbered : Numbered (level + 2) pn words) (inside : index < posMapNr) :
    Numbered (level + 2) pn (Function.update words index (.array (level + 1) subPn sub)) ↔
      subPn = pn + index * posLevelToPages (level + 1) ∧ Numbered (level + 1) subPn sub := by
  constructor
  · intro changed
    have at_index := changed index inside
    rw [Function.update_self] at at_index
    rcases at_index with missing | ⟨found, same, sub_numbered⟩
    · cases missing
    · obtain ⟨pn_eq, words_eq⟩ :
          subPn = pn + index * posLevelToPages (level + 1) ∧ sub = found := by simpa using same
      rw [words_eq, pn_eq]
      exact ⟨rfl, sub_numbered⟩
  · rintro ⟨rfl, sub_numbered⟩ i bound
    rcases eq_or_ne i index with rfl | other
    · rw [Function.update_self]
      exact .inr ⟨sub, rfl, sub_numbered⟩
    · rw [Function.update_of_ne other]
      exact numbered i bound

/-- The array in which a descent goes on, a new one if there is none. -/
def childAt (junk : Junk) (level : Nat) (map : MapArray) (page : Nat) : MapArray :=
  match map.pfns (page / posLevelToPages (level + 1)) with
  | .array sublevel pn words => ⟨sublevel, pn, words⟩
  | _ => MapArray.new (level + 1)
      ((map.pn + junk.index (level + 1) map.pn page * posLevelToPages (level + 1)) % 2 ^ 64)

theorem descend_succ {β : Type} (junk : Junk) (act : Slot → β × Slot) {level page : Nat}
    {map : MapArray} (shaped : Shaped (level + 2) map.pfns)
    (inside : page < posLevelToPages (level + 2)) :
    descend junk act (level + 2) map page =
      (descend junk act (level + 1) (childAt junk level map page)
        (page % posLevelToPages (level + 1))).map fun out => (out.1, { map with
          pfns := Function.update map.pfns (page / posLevelToPages (level + 1)) out.2.slot }) := by
  have index := index_lt inside
  have rem : page - page / posLevelToPages (level + 1) * posLevelToPages (level + 1) =
      page % posLevelToPages (level + 1) := by
    rw [Nat.mul_comm, Nat.mod_eq_sub]
  rw [descend.eq_def, childAt]
  dsimp only
  rw [if_pos index, rem]
  rcases shaped _ index with missing | ⟨pn, sub, found, -⟩
  · rw [missing]
    dsimp only
    cases descend junk act (level + 1) _ _ <;> rfl
  · rw [found]
    dsimp only
    cases descend junk act (level + 1) _ _ <;> rfl

/-- The child is numbered in itself, and the descent creates rightly exactly when its number is right
and the descent goes on rightly from it. -/
theorem childAt_spec (junk : Junk) {level page : Nat} {map : MapArray}
    (numbered : Numbered (level + 2) map.pn map.pfns)
    (inside : page < posLevelToPages (level + 2)) :
    (childAt junk level map page).level = level + 1 ∧
      Numbered (level + 1) (childAt junk level map page).pn (childAt junk level map page).pfns ∧
      (CreatesRight junk (level + 2) map.pn map.pfns page ↔
        (childAt junk level map page).pn =
            map.pn + page / posLevelToPages (level + 1) * posLevelToPages (level + 1) ∧
          CreatesRight junk (level + 1) (childAt junk level map page).pn
            (childAt junk level map page).pfns (page % posLevelToPages (level + 1))) := by
  rw [CreatesRight, childAt]
  rcases numbered _ (index_lt inside) with missing | ⟨sub, found, sub_numbered⟩
  · rw [missing]
    refine ⟨rfl, numbered_empty level _, ?_⟩
    apply and_congr_right
    intro same
    rw [← same]
    rfl
  · rw [found]
    exact ⟨rfl, sub_numbered, (and_iff_right rfl).symm⟩

/-- A descent leaves an array numbered exactly when it creates sub-arrays with the right numbers. -/
theorem descend_numbered_iff {β : Type} (junk : Junk) (act : Slot → β × Slot)
    (leaf : ∀ word : Slot, word.Leaf → (act word).2.Leaf) (level : Nat) :
    ∀ {map after : MapArray} {page : Nat} {result : β}, Numbered (level + 1) map.pn map.pfns →
      page < posLevelToPages (level + 1) →
      descend junk act (level + 1) map page = some (result, after) →
      (Numbered (level + 1) map.pn after.pfns ↔
        CreatesRight junk (level + 1) map.pn map.pfns page) := by
  induction level with
  | zero =>
      intro map after page result numbered inside step
      obtain ⟨words, spec, shaped, -⟩ := descend_spec junk act leaf 0 numbered.shaped inside
      rw [step] at spec
      cases spec
      exact iff_of_true shaped trivial
  | succ level ih =>
      intro map after page result numbered inside step
      have rest := mod_lt_pages page (level + 1)
      obtain ⟨child_level, child_numbered, creates⟩ := childAt_spec junk numbered inside
      obtain ⟨words, child_step, -, -⟩ :=
        descend_spec junk act leaf level child_numbered.shaped rest
      rw [descend_succ junk act numbered.shaped inside, child_step] at step
      cases step
      rw [creates, ← ih child_numbered rest child_step]
      have slot : MapArray.slot { childAt junk level map page with pfns := words } =
          .array (level + 1) (childAt junk level map page).pn words := by
        rw [MapArray.slot, child_level]
      show Numbered (level + 2) map.pn (Function.update map.pfns _ _) ↔ _
      rw [slot, numbered_update_iff numbered (index_lt inside)]

/-! ## The operations -/

/-- An insertion stores the frame of a page that has none and leaves the other pages alone. -/
theorem posInsertPfn_spec (junk : Junk) (pfn : Nat) {map : MapArray} {level page : Nat}
    (atLevel : map.level = level + 1) (shaped : Shaped (level + 1) map.pfns)
    (inside : page < posLevelToPages (level + 1)) :
    ∃ words, posInsertPfn junk map page (.frame pfn) =
        some (decide (map.frameAt page = none), { map with pfns := words }) ∧
      Shaped (level + 1) words ∧
      ∀ other, ({ map with pfns := words } : MapArray).frameAt other =
        if other = page then some ((map.frameAt page).getD pfn) else map.frameAt other := by
  rw [posInsertPfn]
  refine descend_fills junk rfl (fun _ => rfl) atLevel shaped inside ?_
  rw [MapArray.frameAt, atLevel]
  rcases wordAt_leaf level shaped inside with empty | ⟨found, frame⟩
  · rw [empty]
    rfl
  · rw [frame]
    rfl

/-- A call of `pos_find_and_alloc_pfn` returns the frame of the page, a fresh one if it has none,
stores it, leaves every other page alone and the array well formed. -/
def FindsFrame (junk : Junk) (fresh : Nat) (map : MapArray) (page : Nat) : Prop :=
  ∃ words, posFindAndAllocPfn junk fresh map page =
      some (.frame ((map.frameAt page).getD fresh), { map with pfns := words }) ∧
    (∀ other, ({ map with pfns := words } : MapArray).frameAt other =
      if other = page then some ((map.frameAt page).getD fresh) else map.frameAt other) ∧
    Numbered map.level map.pn words

/-- A call of `pos_insert_pfn_to_map_array` succeeds when the page has no frame, stores the new one
then, leaves every other page alone and the array well formed. -/
def InsertsFrame (junk : Junk) (pfn : Nat) (map : MapArray) (page : Nat) : Prop :=
  ∃ words, posInsertPfn junk map page (.frame pfn) =
      some (decide (map.frameAt page = none), { map with pfns := words }) ∧
    (∀ other, ({ map with pfns := words } : MapArray).frameAt other =
      if other = page then some ((map.frameAt page).getD pfn) else map.frameAt other) ∧
    Numbered map.level map.pn words

variable {map : MapArray} {page : Nat}

/-- An operation that does what it should to the frames leaves the array well formed exactly when it
creates sub-arrays with the right numbers. -/
theorem stays_numbered_iff {β : Type} (junk : Junk) {act : Slot → β × Slot} {result : β}
    {words : Nat → Slot} {holds : (Nat → Slot) → Prop}
    (leaf : ∀ word : Slot, word.Leaf → (act word).2.Leaf)
    (numbered : Numbered map.level map.pn map.pfns) (inside : page < posLevelToPages map.level)
    (step : descend junk act map.level map page = some (result, { map with pfns := words }))
    (holds_words : holds words) :
    (∃ words, descend junk act map.level map page = some (result, { map with pfns := words }) ∧
      holds words ∧ Numbered map.level map.pn words) ↔
    CreatesRight junk map.level map.pn map.pfns page := by
  obtain ⟨level, pn, pfns⟩ := map
  obtain ⟨below, rfl⟩ := numbered.exists_level
  rw [← descend_numbered_iff junk act leaf below numbered inside step]
  constructor
  · rintro ⟨other, found, -, other_numbered⟩
    rw [step] at found
    cases found
    exact other_numbered
  · exact fun words_numbered => ⟨words, step, holds_words, words_numbered⟩

theorem findsFrame_iff (junk : Junk) (fresh : Nat)
    (numbered : Numbered map.level map.pn map.pfns) (inside : page < posLevelToPages map.level) :
    FindsFrame junk fresh map page ↔ CreatesRight junk map.level map.pn map.pfns page := by
  obtain ⟨level, at_level⟩ := numbered.exists_level
  obtain ⟨words, step, -, frames⟩ := posFindAndAllocPfn_spec junk fresh at_level
    (at_level ▸ numbered).shaped (at_level ▸ inside)
  exact stays_numbered_iff junk (leaf_of_fills rfl fun _ => rfl) numbered inside step frames

theorem insertsFrame_iff (junk : Junk) (pfn : Nat)
    (numbered : Numbered map.level map.pn map.pfns) (inside : page < posLevelToPages map.level) :
    InsertsFrame junk pfn map page ↔ CreatesRight junk map.level map.pn map.pfns page := by
  obtain ⟨level, at_level⟩ := numbered.exists_level
  obtain ⟨words, step, -, frames⟩ := posInsertPfn_spec junk pfn at_level
    (at_level ▸ numbered).shaped (at_level ▸ inside)
  exact stays_numbered_iff junk (leaf_of_fills rfl fun _ => rfl) numbered inside step frames

end StorageStack.Pos
