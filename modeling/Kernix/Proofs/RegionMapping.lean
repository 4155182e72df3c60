import Kernix.Memory.Paging
import Kernix.Proofs.LargePages

/-! `map_region`. The frames of a region are taken before the first table is, so tables
and region share no frame: clearing the region leaves the tables as they are. -/

namespace Kernix.Proofs
open ByteMemory RadixTable

/-- The upper bits of an address repeat bit 47. -/
def Canonical (address : Nat) : Prop := address < 2 ^ 47 ∨ 2 ^ 64 - 2 ^ 47 ≤ address

instance (address : Nat) : Decidable (Canonical address) :=
  inferInstanceAs (Decidable (address < 2 ^ 47 ∨ 2 ^ 64 - 2 ^ 47 ≤ address))

/-- Where an address leads to, and whether the kernel may write there. Limine sets the bit
`WP` of `CR0`, so every entry on the path has to allow it. -/
def accessAddress (offset : Nat) (paging : Paging) (virtualAddr : Nat) : Option (Nat × Bool) :=
  if Canonical virtualAddr then
    (translate offset paging virtualAddr).map fun physical => (physical, rightsOf offset paging virtualAddr)
  else none

def writableAddress (offset : Nat) (paging : Paging) (virtualAddr : Nat) : Option Nat :=
  match accessAddress offset paging virtualAddr with
  | some (physical, true) => some physical
  | _ => none

theorem writableAddress_some {offset virtualAddr physical : Nat} {paging : Paging}
    (found : writableAddress offset paging virtualAddr = some physical) :
    Canonical virtualAddr ∧ translate offset paging virtualAddr = some physical ∧
      rightsOf offset paging virtualAddr = true := by
  unfold writableAddress accessAddress at found
  by_cases canonical : Canonical virtualAddr
  · rw [if_pos canonical] at found
    cases translated : translate offset paging virtualAddr with
    | none =>
      rw [translated] at found
      cases found
    | some place =>
      cases allowed : rightsOf offset paging virtualAddr with
      | false =>
        rw [translated, allowed] at found
        cases found
      | true =>
        rw [translated, allowed] at found
        cases found
        exact ⟨canonical, rfl, rfl⟩
  · rw [if_neg canonical] at found
    cases found

section pages
variable {offset : Nat} {paging after : Paging} {virtualAddr : Nat}

theorem samePage_inside {base : Nat} (aligned : base % pageSize = 0) {position : Nat} (inside : position < pageSize) :
    SamePage (base + position) base := by
  simp only [SamePage, Nat.shiftRight_eq_div_pow]
  simp only [pageSize] at aligned inside
  omega

/-- Canonical addresses of one page have the same page number. -/
theorem SamePage.number {first second : Nat} (same : SamePage first second) (left : Canonical first)
    (right : Canonical second) (bound : first < 2 ^ 64) (bound' : second < 2 ^ 64) :
    first / pageSize = second / pageSize := by
  simp only [SamePage, Nat.shiftRight_eq_div_pow] at same
  simp only [Canonical] at left right
  simp only [pageSize]
  omega

/-- What the mapping of a page does. -/
structure PageMapped (offset : Nat) (before after : Paging) (virtualAddr physical : Nat) : Prop where
  tree : PageTree offset after
  pointer : after.kernelPml4 = before.kernelPml4
  walk : walkOf offset after virtualAddr = ⟨1, physical + 3⟩
  walks : ∀ other, ¬SamePage virtualAddr other → walkOf offset after other = walkOf offset before other
  rights : ∀ other, ¬SamePage virtualAddr other → rightsOf offset after other = rightsOf offset before other
  writable : rightsOf offset before virtualAddr = true → rightsOf offset after virtualAddr = true
  used : ∀ frame, inUse before.physmem frame = true → inUse after.physmem frame = true
  fresh : ∀ path table, TablePath path → tableOf offset after path = some table →
    tableOf offset before path = some table ∨ inUse before.physmem (table / pageSize) = false

theorem writeEntry_rights_other {table other value : Nat} (tree : PageTree offset paging)
    (found : tableOf offset paging (tablePathOf virtualAddr) = some table) (differ : ¬SamePage virtualAddr other) :
    rightsOf offset (writeEntry paging table virtualAddr value) other = rightsOf offset paging other := by
  refine ((writeEntry_untouched tree found value).sameEntries (pathOf_small other) ?_).rights
  intro longer
  exact differ (pathOf_inj (longer.eq_of_length rfl))

theorem writeEntry_rights {table value : Nat} (tree : PageTree offset paging)
    (found : tableOf offset paging (tablePathOf virtualAddr) = some table) (fits : value < 2 ^ 64)
    (allowed : entryWritable value = true) (before : rightsOf offset paging virtualAddr = true) :
    rightsOf offset (writeEntry paging table virtualAddr value) virtualAddr = true := by
  have reached := (writeEntry_tables tree found value (tablePathOf_valid virtualAddr)).trans found
  have split : pathOf virtualAddr = tablePathOf virtualAddr ++ [ptIndex virtualAddr] := rfl
  have above : SameEntries pageFormat paging.memory (writeEntry paging table virtualAddr value).memory
      (rootTable offset paging) (tablePathOf virtualAddr) := by
    refine (writeEntry_untouched tree found value).sameEntries
      ⟨Nat.le_succ_of_le (tablePathOf_valid virtualAddr).short, (tablePathOf_valid virtualAddr).small⟩ ?_
    intro longer
    have length := longer.length_le
    simp only [tablePathOf, List.length_append, List.length_cons, List.length_nil] at length
    omega
  have entry : entryAt (writeEntry paging table virtualAddr value).memory table (ptIndex virtualAddr) = value :=
    load_store_fits _ fits
  rw [rightsOf, split, rights_append _ found, Bool.and_eq_true] at before
  rw [rightsOf, split, rights_append _ reached, Bool.and_eq_true]
  refine ⟨above.rights.trans before.1, ?_⟩
  simp only [RadixTable.rights, entry, allowed, Bool.or_true, Bool.and_true]
  split
  · rfl
  · rfl

theorem pagingMapPage_mapped {physical : Nat} (tree : PageTree offset paging)
    (plain : NoLargePage offset paging virtualAddr)
    (aligned : physical % pageSize = 0) (low : physical < 2 ^ 52)
    (result : pagingMapPage offset paging virtualAddr physical (ptePresent ||| pteWritable) = .ok after) :
    PageMapped offset paging after virtualAddr physical := by
  obtain ⟨walk, -, walks, tree'⟩ := paging_map_page_walks tree plain (by decide) result
  obtain ⟨middle, table, tree'', growth, enlarged, found, rfl⟩ := pagingMapPage_tables tree plain result
  have value : (physical &&& pteAddress) ||| (ptePresent ||| pteWritable) = physical + 3 := by
    rw [← Nat.or_assoc]
    exact link_entry aligned low
  rw [value] at walk walks tree' ⊢
  have allowed : entryWritable (physical + 3) = true := by
    rw [entryWritable, Nat.testBit_eq_decide_div_mod_eq]
    simp only [pageSize, decide_eq_true_eq] at *
    omega
  refine ⟨tree', growth.pointer, walk, walks, ?_, ?_, enlarged.used, ?_⟩
  · intro other differ
    rw [writeEntry_rights_other tree'' found differ, enlarged.rights]
  · intro before
    exact writeEntry_rights tree'' found (by omega) allowed ((enlarged.rights _).trans before)
  · intro path place valid reached
    rw [writeEntry_tables tree'' found _ valid] at reached
    exact enlarged.fresh path place valid reached

end pages

/-- How far the loop over the pages has got. -/
structure PagesMapped (offset : Nat) (base current : Paging) (virt phys count : Nat) : Prop where
  tree : PageTree offset current
  pointer : current.kernelPml4 = base.kernelPml4
  walk : ∀ i < count, walkOf offset current (virt + i * pageSize) = ⟨1, phys + i * pageSize + 3⟩
  walks : ∀ other, (∀ i < count, ¬SamePage (virt + i * pageSize) other) →
    walkOf offset current other = walkOf offset base other
  rights : ∀ other, (∀ i < count, ¬SamePage (virt + i * pageSize) other) →
    rightsOf offset current other = rightsOf offset base other
  used : ∀ frame, inUse base.physmem frame = true → inUse current.physmem frame = true
  fresh : ∀ path table, TablePath path → tableOf offset current path = some table →
    tableOf offset base path = some table ∨ inUse base.physmem (table / pageSize) = false

section loop
variable {offset virt phys count : Nat} {base current after : Paging}

theorem PagesMapped.start (tree : PageTree offset base) : PagesMapped offset base base virt phys 0 where
  tree := tree
  pointer := rfl
  walk _ none := by cases none
  walks _ _ := rfl
  rights _ _ := rfl
  used _ used := used
  fresh _ _ _ found := .inl found

/-- One more page. -/
theorem PagesMapped.next (mapped : PagesMapped offset base current virt phys count)
    (step : PageMapped offset current after (virt + count * pageSize) (phys + count * pageSize))
    (distinct : ∀ i < count, ¬SamePage (virt + count * pageSize) (virt + i * pageSize)) :
    PagesMapped offset base after virt phys (count + 1) where
  tree := step.tree
  pointer := step.pointer.trans mapped.pointer
  walk i bound := by
    by_cases last : i = count
    · subst last
      exact step.walk
    · rw [step.walks _ (distinct i (by omega))]
      exact mapped.walk i (by omega)
  walks other outside := by
    rw [step.walks other (outside count (Nat.lt_succ_self count))]
    exact mapped.walks other fun i bound => outside i (by omega)
  rights other outside := by
    rw [step.rights other (outside count (Nat.lt_succ_self count))]
    exact mapped.rights other fun i bound => outside i (by omega)
  used frame used := step.used frame (mapped.used frame used)
  fresh path table valid found := by
    rcases step.fresh path table valid found with earlier | free
    · exact mapped.fresh path table valid earlier
    · right
      by_contra used
      have later := mapped.used _ (by simpa using used)
      rw [later] at free
      cases free

/-- What the region is to be: its pages are different ones, and no path meets a large page. -/
structure PageRegion (offset : Nat) (base : Paging) (virt phys pages : Nat) : Prop where
  virt_aligned : virt % pageSize = 0
  virt_fits : virt + pages * pageSize ≤ 2 ^ 64
  phys_aligned : phys % pageSize = 0
  phys_fits : phys + pages * pageSize ≤ 2 ^ 52
  plain : ∀ i < pages, NoLargePage offset base (virt + i * pageSize)
  distinct : ∀ i < pages, ∀ j < pages, SamePage (virt + i * pageSize) (virt + j * pageSize) → i = j

/-- The next page of the region: its addresses do not wrap, no earlier page is the same one,
and its path is still without large pages. -/
theorem PagesMapped.page {pages : Nat} (region : PageRegion offset base virt phys pages)
    (mapped : PagesMapped offset base current virt phys count) (inside : count < pages) :
    u64 (virt + count * pageSize) = virt + count * pageSize ∧ u64 (phys + count * pageSize) = phys + count * pageSize ∧
      NoLargePage offset current (virt + count * pageSize) ∧ (phys + count * pageSize) % pageSize = 0 ∧
      phys + count * pageSize < 2 ^ 52 ∧ ∀ i < count, ¬SamePage (virt + count * pageSize) (virt + i * pageSize) := by
  have upper : (count + 1) * pageSize ≤ pages * pageSize := Nat.mul_le_mul_right _ inside
  have virtFits := region.virt_fits
  have physFits := region.phys_fits
  rw [Nat.add_one_mul] at upper
  have apart : ∀ i < count, ¬SamePage (virt + count * pageSize) (virt + i * pageSize) := by
    intro i early same
    have equal := region.distinct count inside i (by omega) same
    omega
  refine ⟨u64_eq (by simp only [pageSize] at *; omega), u64_eq (by simp only [pageSize] at *; omega), ?_, ?_,
    by simp only [pageSize] at *; omega, apart⟩
  · rw [NoLargePage, mapped.walks _ fun i early same => apart i early same.symm]
    exact region.plain count inside
  · rw [Nat.add_mul_mod_self_right]
    exact region.phys_aligned

theorem mapPages_mapped {pages left : Nat} (region : PageRegion offset base virt phys pages)
    (mapped : PagesMapped offset base current virt phys count) (total : count + left = pages)
    (result : mapPages offset phys virt left count current = .ok after) :
    PagesMapped offset base after virt phys pages := by
  induction left generalizing count current with
  | zero =>
    cases result
    exact total ▸ mapped
  | succ left ih =>
    obtain ⟨next, step, rest⟩ := bind_ok result
    obtain ⟨here, there, plain, aligned, low, apart⟩ := mapped.page region (show count < pages by omega)
    rw [here, there] at step
    exact ih (mapped.next (pagingMapPage_mapped mapped.tree plain aligned low step) apart) (by omega) rest

end loop

/-- The frames of a region are apart from all tables. -/
def TablesApart (offset : Nat) (paging : Paging) (phys pages : Nat) : Prop :=
  ∀ path table, TablePath path → tableOf offset paging path = some table →
    ∀ i < pages, table / pageSize ≠ phys / pageSize + i

theorem leafAddress_page {physical : Nat} (aligned : physical % pageSize = 0) (low : physical < 2 ^ 52)
    (virtualAddr : Nat) :
    leafAddress ⟨1, physical + 3⟩ virtualAddr = some (physical + virtualAddr % 2 ^ 12) := by
  obtain ⟨links, target⟩ := link_reads aligned low
  have present : (physical + 3).testBit 0 = true := by
    simp only [Format.links, Bool.and_eq_true] at links
    exact links.1
  have address : (physical + 3) &&& pteAddress = physical := target
  simp only [leafAddress, present, address, Bool.not_true, Bool.false_eq_true, if_false]

section clearing
variable {offset virt phys pages : Nat} {mapped : Paging}

/-- A state in which the first bytes of the region are cleared. -/
def clearedState (mapped : Paging) (phys done : Nat) : Paging :=
  { mapped with memory := fill mapped.memory phys done 0 }

/-- Clearing bytes of the region changes no entry of a table. -/
theorem clearedState_entries (tree : PageTree offset mapped) (apart : TablesApart offset mapped phys pages)
    (aligned : phys % pageSize = 0) {done : Nat} (inside : done ≤ pages * pageSize) {path : List Nat}
    (valid : Path pageFormat 4 path) :
    SameEntries pageFormat mapped.memory (clearedState mapped phys done).memory (rootTable offset mapped) path := by
  rintro first index rest table rfl found
  have length := valid.short
  simp only [List.length_append, List.length_cons] at length
  have route : TablePath first := ⟨by omega, fun place member => valid.small place (List.mem_append_left _ member)⟩
  have small : index < 512 := valid.small index (by simp)
  have place := (tree.bounds route found).1
  refine load_fill_apart _ ?_
  by_contra overlap
  have frame : table / pageSize - phys / pageSize < pages := by
    apply Nat.lt_of_mul_lt_mul_right (a := pageSize)
    simp only [pageSize] at *
    omega
  refine apart first table route found _ frame ?_
  simp only [pageSize] at *
  omega

theorem clearedState_walk (tree : PageTree offset mapped) (apart : TablesApart offset mapped phys pages)
    (aligned : phys % pageSize = 0) {done : Nat} (inside : done ≤ pages * pageSize) (virtualAddr : Nat) :
    walkOf offset (clearedState mapped phys done) virtualAddr = walkOf offset mapped virtualAddr :=
  (clearedState_entries tree apart aligned inside (pathOf_small virtualAddr)).walk

theorem clearedState_rights (tree : PageTree offset mapped) (apart : TablesApart offset mapped phys pages)
    (aligned : phys % pageSize = 0) {done : Nat} (inside : done ≤ pages * pageSize) (virtualAddr : Nat) :
    rightsOf offset (clearedState mapped phys done) virtualAddr = rightsOf offset mapped virtualAddr :=
  (clearedState_entries tree apart aligned inside (pathOf_small virtualAddr)).rights

theorem clearedState_tables (tree : PageTree offset mapped) (apart : TablesApart offset mapped phys pages)
    (aligned : phys % pageSize = 0) {done : Nat} (inside : done ≤ pages * pageSize) {path : List Nat}
    (valid : TablePath path) :
    tableOf offset (clearedState mapped phys done) path = tableOf offset mapped path :=
  (clearedState_entries tree apart aligned inside ⟨Nat.le_succ_of_le valid.short, valid.small⟩).tableAt

theorem clearedState_none (mapped : Paging) (phys : Nat) : clearedState mapped phys 0 = mapped := by
  have same : fill mapped.memory phys 0 0 = mapped.memory := by
    funext position
    exact if_neg (by omega)
  rw [clearedState, same]

theorem clearedState_word (mapped : Paging) (phys done : Nat) :
    store (clearedState mapped phys done).memory (phys + done) 4 0 = (clearedState mapped phys (done + 4)).memory := by
  funext position
  simp only [clearedState, store, fill, Nat.zero_div]
  by_cases word : phys + done ≤ position ∧ position < phys + done + 4
  · rw [if_pos word, if_pos (by omega)]
    rfl
  · rw [if_neg word]
    by_cases early : phys ≤ position ∧ position < phys + done
    · rw [if_pos early, if_pos (by omega)]
    · rw [if_neg early, if_neg (by omega)]

/-- The bytes of the region are found at their new addresses, while it is cleared. -/
theorem clearedState_translate {base : Paging} (region : PageRegion offset base virt phys pages)
    (ready : PagesMapped offset base mapped virt phys pages) (apart : TablesApart offset mapped phys pages)
    {done position : Nat} (inside : done ≤ pages * pageSize) (within : position < pages * pageSize) :
    translate offset (clearedState mapped phys done) (virt + position) = some (phys + position) := by
  have page : position / pageSize < pages := by
    apply Nat.div_lt_of_lt_mul
    rwa [Nat.mul_comm]
  have split : position / pageSize * pageSize + position % pageSize = position := Nat.div_add_mod' position pageSize
  have upper : position / pageSize * pageSize + pageSize ≤ pages * pageSize := by
    rw [← Nat.add_one_mul]
    exact Nat.mul_le_mul_right _ page
  have same : SamePage (virt + position) (virt + position / pageSize * pageSize) := by
    rw [show virt + position = virt + position / pageSize * pageSize + position % pageSize by omega]
    refine samePage_inside ?_ (Nat.mod_lt _ (by decide))
    rw [Nat.add_mul_mod_self_right]
    exact region.virt_aligned
  have walk : walkOf offset mapped (virt + position) = ⟨1, phys + position / pageSize * pageSize + 3⟩ := by
    rw [← ready.walk _ page, walkOf, walkOf, pathOf_page same]
  have fits := region.phys_fits
  have aligned := region.virt_aligned
  have place : (virt + position) % 2 ^ 12 = position % pageSize := by
    simp only [pageSize] at *
    omega
  rw [translate_eq, clearedState_walk ready.tree apart region.phys_aligned inside, walk,
    leafAddress_page (by rw [Nat.add_mul_mod_self_right]; exact region.phys_aligned) (by simp only [pageSize] at *; omega),
    place, Nat.add_assoc, split]

/-- The words of the region are cleared one after the other, and every one of them could
be written. -/
theorem memsetWords_clears {base after : Paging} {count done last : Nat} (region : PageRegion offset base virt phys pages)
    (ready : PagesMapped offset base mapped virt phys pages) (apart : TablesApart offset mapped phys pages)
    (words : done % 4 = 0) (total : done + 4 * count = pages * pageSize)
    (result : memsetWordsThrough (writableAddress offset) 0 count (clearedState mapped phys done) (u64 (virt + done)) =
      .ok (after, last)) :
    after = clearedState mapped phys (pages * pageSize) ∧
      ∀ k < count, Canonical (virt + done + 4 * k) ∧ rightsOf offset mapped (virt + done + 4 * k) = true := by
  induction count generalizing done with
  | zero =>
    cases result
    exact ⟨by rw [← total]; rfl, fun _ none => by cases none⟩
  | succ count ih =>
    obtain ⟨next, stored, rest⟩ := bind_ok result
    have inside : done ≤ pages * pageSize := by omega
    have fits := region.virt_fits
    rw [u64_eq (show virt + done < 2 ^ 64 by omega)] at stored rest
    unfold storeThrough at stored
    cases found : writableAddress offset (clearedState mapped phys done) (virt + done) with
    | none =>
      rw [found] at stored
      cases stored
    | some physical =>
      obtain ⟨canonical, translated, allowed⟩ := writableAddress_some found
      rw [clearedState_translate region ready apart inside (by omega)] at translated
      rw [clearedState_rights ready.tree apart region.phys_aligned inside] at allowed
      obtain rfl : phys + done = physical := Option.some.inj translated
      rw [found] at stored
      dsimp only at stored
      rw [clearedState_word] at stored
      cases stored
      rw [Nat.add_assoc] at rest
      obtain ⟨final, writable⟩ := @ih (done + 4) (by omega) (by omega) rest
      refine ⟨final, fun k bound => ?_⟩
      cases k with
      | zero => exact ⟨canonical, allowed⟩
      | succ k =>
        have later := writable k (by omega)
        rwa [show virt + (done + 4) + 4 * k = virt + done + 4 * (k + 1) by omega] at later

end clearing

theorem memsetHead_aligned (writable : Paging → Nat → Option Nat) (val n : Nat) (paging : Paging) {ptr : Nat}
    (start : ptr % 4 = 0) : memsetHeadThrough writable val n paging ptr = .ok (paging, ptr, n) := by
  cases n with
  | zero => rfl
  | succ n => rw [memsetHeadThrough, if_neg (not_not.mpr start)]

/-- A range that starts at a word and consists of words is cleared by the loop over words. -/
theorem memsetThrough_words {writable : Paging → Nat → Option Nat} {paging after : Paging} {ptr n : Nat}
    (start : ptr % 4 = 0)
    (whole : n % 4 = 0) (result : memsetThrough writable paging ptr 0 n = .ok after) :
    ∃ last, memsetWordsThrough writable 0 (n / 4) paging ptr = .ok (after, last) := by
  have head := memsetHead_aligned writable 0 n paging start
  obtain ⟨⟨first, p, left⟩, headed, rest⟩ := bind_ok result
  obtain ⟨⟨second, q⟩, words, tail⟩ := bind_ok rest
  have same : (first, p, left) = (paging, ptr, n) := Except.ok.inj (headed.symm.trans head)
  obtain ⟨rfl, rfl, rfl⟩ : first = paging ∧ p = ptr ∧ left = n := by simpa using same
  dsimp only at tail
  rw [whole] at tail
  cases tail
  exact ⟨q, words⟩

/-- Every word that was stored has a canonical address. -/
theorem memsetWords_canonical {offset count p last : Nat} {paging after : Paging}
    (result : memsetWordsThrough (writableAddress offset) 0 count paging p = .ok (after, last))
    (fits : p + 4 * count ≤ 2 ^ 64) : ∀ k < count, Canonical (p + 4 * k) := by
  induction count generalizing paging p with
  | zero => exact fun _ none => by cases none
  | succ count ih =>
    obtain ⟨next, stored, rest⟩ := bind_ok result
    intro k bound
    cases k with
    | zero =>
      unfold storeThrough at stored
      cases found : writableAddress offset paging p with
      | none =>
        rw [found] at stored
        cases stored
      | some physical => exact (writableAddress_some found).1
    | succ k =>
      by_cases more : count = 0
      · omega
      · rw [u64_eq (by omega)] at rest
        have later := ih rest (by omega) k (by omega)
        rwa [show p + 4 + 4 * k = p + 4 * (k + 1) by omega] at later

/-- A run of canonical words does not reach over the gap between the halves. -/
theorem canonical_range {virt words : Nat} (fits : virt + 4 * words ≤ 2 ^ 64)
    (canonical : ∀ k < words, Canonical (virt + 4 * k)) (aligned : virt % 4 = 0) :
    4 * words ≤ 2 ^ 47 ∧ ∀ position < 4 * words, Canonical (virt + position) := by
  by_cases none : words = 0
  · subst none
    exact ⟨Nat.zero_le _, fun _ inside => by omega⟩
  · rcases canonical 0 (by omega) with low | high
    · have upper : virt + 4 * words ≤ 2 ^ 47 := by
        by_contra above
        have gap := canonical ((2 ^ 47 - virt) / 4) (by omega)
        simp only [Canonical] at gap
        omega
      exact ⟨by omega, fun position inside => .inl (by omega)⟩
    · exact ⟨by omega, fun position inside => .inr (by omega)⟩

/-- What `map_region_alloc` is to do when it returns an address. -/
structure RegionMapped (offset : Nat) (before after : Paging) (virt phys size : Nat) : Prop where
  pages : ∀ i < size / pageSize, ∀ position < pageSize,
    accessAddress offset after (virt + i * pageSize + position) = some (phys + i * pageSize + position, true) ∧
      after.memory (phys + i * pageSize + position) = 0
  tables : ∀ i < size / pageSize, ∀ path table, TablePath path → tableOf offset after path = some table →
    table / pageSize ≠ phys / pageSize + i
  fresh : ∀ i < size / pageSize, inUse before.physmem (phys / pageSize + i) = false
  others : ∀ virtualAddr < 2 ^ 64, virtualAddr < virt ∨ virt + size ≤ virtualAddr →
    accessAddress offset after virtualAddr = accessAddress offset before virtualAddr

section region
variable {offset virt phys size : Nat} {paging after : Paging}

/-- A tree of tables stays one when free frames are taken. -/
theorem PageTree.taken {physmem : Physmem} {start count : Nat} (tree : PageTree offset paging)
    (marked : Marked paging.physmem physmem start count true) : PageTree offset { paging with physmem } := by
  refine ⟨tree.pointer, tree.aligned, ?_, tree.distinct, ?_⟩
  · show physmem.total * pageSize ≤ 2 ^ 52
    rw [marked.total]
    exact tree.width
  · intro path table valid found
    obtain ⟨inside, used⟩ := tree.used path table valid found
    show table / pageSize < physmem.total ∧ bitmapTest physmem.bitmap (table / pageSize) = 1
    rw [marked.total, bitmapTest_eq_one, marked.bits]
    refine ⟨inside, ?_⟩
    split
    · rfl
    · exact (bitmapTest_eq_one _ _).mp used

/-- The pages of a canonical range have different numbers. -/
theorem range_distinct {pages : Nat} (virtAligned : virt % pageSize = 0) (fits : virt + pages * pageSize ≤ 2 ^ 64)
    (canonical : ∀ position < pages * pageSize, Canonical (virt + position)) {i : Nat} (inside : i < pages) {other : Nat}
    (bound : other < 2 ^ 64) (canonical' : Canonical other) (same : SamePage (virt + i * pageSize) other) :
    virt + i * pageSize ≤ other ∧ other < virt + i * pageSize + pageSize := by
  have upper : i * pageSize + pageSize ≤ pages * pageSize := by
    rw [← Nat.add_one_mul]
    exact Nat.mul_le_mul_right _ inside
  have first : Canonical (virt + i * pageSize) := canonical _ (by simp only [pageSize] at *; omega)
  have number := same.number first canonical' (by simp only [pageSize] at *; omega) bound
  simp only [pageSize] at *
  omega

/-- Frames in use that are no tables do not become tables. -/
theorem PagesMapped.tables_apart {base mapped : Paging} {phys' count pages : Nat}
    (ready : PagesMapped offset base mapped virt phys' count) (apart : TablesApart offset base phys pages)
    (held : ∀ i < pages, inUse base.physmem (phys / pageSize + i) = true) : TablesApart offset mapped phys pages := by
  intro path table valid found i bound same
  rcases ready.fresh path table valid found with old | unused
  · exact apart path table valid old i bound same
  · rw [same, held i bound] at unused
    cases unused

/-- Free frames are no tables, also when they are taken. -/
theorem PageTree.run_apart {physmem : Physmem} {start pages : Nat} (tree : PageTree offset paging)
    (free : FreeRun paging.physmem start pages) :
    TablesApart offset { paging with physmem } (start * pageSize) pages := by
  intro path table valid found i bound same
  rw [Nat.mul_div_cancel _ (by decide : 0 < pageSize)] at same
  have used := (bitmapTest_eq_one _ _).mp (tree.used path table valid found).2
  rw [same, free _ (by omega) (by omega)] at used
  cases used

/-- The loop over the pages starts with frames that are no tables, and keeps them so. -/
theorem PagesMapped.apart {physmem : Physmem} {start pages : Nat} {mapped : Paging} (tree : PageTree offset paging)
    (free : FreeRun paging.physmem start pages) (marked : Marked paging.physmem physmem start pages true)
    (ready : PagesMapped offset { paging with physmem } mapped virt (start * pageSize) pages) :
    TablesApart offset mapped (start * pageSize) pages := by
  apply ready.tables_apart (tree.run_apart free)
  intro i bound
  rw [Nat.mul_div_cancel _ (by decide : 0 < pageSize), marked.bits, if_pos (by omega)]

/-- A region whose pages were mapped and cleared. -/
theorem regionMapped_of_cleared {base mapped : Paging} {pages : Nat} (region : PageRegion offset base virt phys pages)
    (ready : PagesMapped offset base mapped virt phys pages) (apart : TablesApart offset mapped phys pages)
    (canonical : ∀ position < pages * pageSize, Canonical (virt + position))
    (writable : ∀ i < pages, rightsOf offset mapped (virt + i * pageSize) = true) :
    (∀ i < pages, ∀ position < pageSize,
      accessAddress offset (clearedState mapped phys (pages * pageSize)) (virt + i * pageSize + position) =
          some (phys + i * pageSize + position, true) ∧
        (clearedState mapped phys (pages * pageSize)).memory (phys + i * pageSize + position) = 0) ∧
      ∀ other < 2 ^ 64, other < virt ∨ virt + pages * pageSize ≤ other →
        accessAddress offset (clearedState mapped phys (pages * pageSize)) other = accessAddress offset base other := by
  have whole := Nat.le_refl (pages * pageSize)
  constructor
  · intro i inside position bound
    have upper : i * pageSize + pageSize ≤ pages * pageSize := by
      rw [← Nat.add_one_mul]
      exact Nat.mul_le_mul_right _ inside
    have within : i * pageSize + position < pages * pageSize := by omega
    have aligned : (virt + i * pageSize) % pageSize = 0 := by
      rw [Nat.add_mul_mod_self_right]
      exact region.virt_aligned
    have allowed : rightsOf offset mapped (virt + i * pageSize + position) = true := by
      rw [rightsOf, pathOf_page (samePage_inside aligned bound)]
      exact writable i inside
    have translated := clearedState_translate region ready apart whole within
    have reached := canonical _ within
    rw [← Nat.add_assoc] at translated reached
    constructor
    · rw [accessAddress, if_pos reached, translated,
        clearedState_rights ready.tree apart region.phys_aligned whole, allowed, ← Nat.add_assoc]
      rfl
    · exact if_pos (by omega)
  · intro other bound outside
    unfold accessAddress
    by_cases reached : Canonical other
    · have away : ∀ i < pages, ¬SamePage (virt + i * pageSize) other := by
        intro i inside same
        have upper : i * pageSize + pageSize ≤ pages * pageSize := by
          rw [← Nat.add_one_mul]
          exact Nat.mul_le_mul_right _ inside
        have place := range_distinct region.virt_aligned region.virt_fits canonical inside bound reached same
        omega
      rw [if_pos reached, if_pos reached, translate_eq, translate_eq,
        clearedState_walk ready.tree apart region.phys_aligned whole,
        clearedState_rights ready.tree apart region.phys_aligned whole, ready.walks other away, ready.rights other away]
    · rw [if_neg reached, if_neg reached]

/-- Canonical pages over frames make a region. -/
theorem PageRegion.of_canonical {base : Paging} {pages : Nat} (virtAligned : virt % pageSize = 0)
    (fits : virt + pages * pageSize ≤ 2 ^ 64) (physAligned : phys % pageSize = 0)
    (frames : phys + pages * pageSize ≤ 2 ^ 52)
    (plain : ∀ i < pages, NoLargePage offset base (virt + i * pageSize))
    (canonical : ∀ position < pages * pageSize, Canonical (virt + position)) :
    PageRegion offset base virt phys pages := by
  refine ⟨virtAligned, fits, physAligned, frames, plain, ?_⟩
  intro i inside j inside' same
  have positive : 0 < pageSize := by decide
  have upper : j * pageSize + pageSize ≤ pages * pageSize := by
    rw [← Nat.add_one_mul]
    exact Nat.mul_le_mul_right _ inside'
  have place := range_distinct virtAligned fits canonical inside (by omega) (canonical (j * pageSize) (by omega)) same
  simp only [pageSize] at place
  omega

/-- A range of whole pages that was cleared through its addresses is canonical. -/
theorem memset_canonical {mapped cleared : Paging} {pages : Nat} (virtAligned : virt % pageSize = 0)
    (fits : virt + pages * pageSize ≤ 2 ^ 64)
    (clears : memsetThrough (writableAddress offset) mapped virt 0 (pages * pageSize) = .ok cleared) :
    (∃ last, memsetWordsThrough (writableAddress offset) 0 (pages * 1024) mapped virt = .ok (cleared, last)) ∧
      ∀ position < pages * pageSize, Canonical (virt + position) := by
  have quarter : pages * pageSize / 4 = pages * 1024 := by
    simp only [pageSize]
    omega
  have whole : 4 * (pages * 1024) = pages * pageSize := by
    simp only [pageSize]
    omega
  have start : virt % 4 = 0 := by
    simp only [pageSize] at virtAligned
    omega
  obtain ⟨last, words⟩ := memsetThrough_words start (by omega) clears
  rw [quarter] at words
  have range := canonical_range (by omega) (memsetWords_canonical words (by omega)) start
  rw [whole] at range
  exact ⟨⟨last, words⟩, range.2⟩

/-- When `map_region` returns, the pages are mapped and the frames cleared. -/
theorem mapRegion_cleared {base : Paging} {pages : Nat} (tree : PageTree offset base) (virtAligned : virt % pageSize = 0)
    (fits : virt + pages * pageSize ≤ 2 ^ 64) (physAligned : phys % pageSize = 0)
    (frames : phys + pages * pageSize ≤ 2 ^ 52)
    (plain : ∀ i < pages, NoLargePage offset base (virt + i * pageSize)) (some : 0 < pages)
    (apart : ∀ mapped, PagesMapped offset base mapped virt phys pages → TablesApart offset mapped phys pages)
    (result : mapRegion (writableAddress offset) offset base phys virt (pages * pageSize) = .ok after) :
    ∃ mapped, mapPages offset phys virt pages 0 base = .ok mapped ∧ after = clearedState mapped phys (pages * pageSize) ∧
      PageRegion offset base virt phys pages ∧ PagesMapped offset base mapped virt phys pages ∧
      (∀ position < pages * pageSize, Canonical (virt + position)) ∧
      ∀ i < pages, rightsOf offset mapped (virt + i * pageSize) = true := by
  obtain ⟨mapped, mappedPages, clears⟩ := bind_ok result
  rw [Nat.mul_div_cancel _ (by decide : 0 < pageSize)] at mappedPages
  obtain ⟨⟨last, words⟩, canonical⟩ := memset_canonical virtAligned fits clears
  have region := PageRegion.of_canonical virtAligned fits physAligned frames plain canonical
  have ready := mapPages_mapped region (.start tree) (Nat.zero_add _) mappedPages
  have nonempty : pageSize ≤ pages * pageSize := Nat.le_mul_of_pos_left _ some
  have positive : 0 < pageSize := by decide
  have first : memsetWordsThrough (writableAddress offset) 0 (pages * 1024) (clearedState mapped phys 0)
    (u64 (virt + 0)) =
      .ok (after, last) := by
    rw [clearedState_none, Nat.add_zero, u64_eq (by omega)]
    exact words
  obtain ⟨final, writable⟩ := memsetWords_clears region ready (apart mapped ready) rfl (by simp only [pageSize]; omega) first
  refine ⟨mapped, mappedPages, final, region, ready, canonical, fun i inside => ?_⟩
  have word := (writable (i * 1024) (Nat.mul_lt_mul_of_pos_right inside (by decide))).2
  rwa [show virt + 0 + 4 * (i * 1024) = virt + i * pageSize by simp only [pageSize]; omega] at word

/-- When the call returns an address, the region is mapped there. -/
theorem map_region_alloc_maps (tree : PageTree offset paging) (virtAligned : virt % pageSize = 0)
    (sizeAligned : size % pageSize = 0) (fits : virt + size ≤ 2 ^ 64)
    (plain : ∀ i < size / pageSize, NoLargePage offset paging (virt + i * pageSize))
    (result : mapRegionAlloc (writableAddress offset) offset paging virt size = .ok (phys, after)) :
    RegionMapped offset paging after virt phys size := by
  have whole : size / pageSize * pageSize = size := Nat.div_mul_cancel (Nat.dvd_of_mod_eq_zero sizeAligned)
  obtain ⟨⟨given, physmem⟩, allocated, result⟩ := bind_ok result
  dsimp only at allocated result
  by_cases none : given = 0
  · rw [if_pos none] at result
    cases result
  · rw [if_neg none] at result
    obtain ⟨cleared, mapping, result⟩ := bind_ok result
    cases result
    rcases physmemAllocTo_spec (physmemAllocTo_present allocated none) (size / pageSize) with
      ⟨start, taken, some, _, bound, free, _, expected, marked⟩ | ⟨expected, _⟩
    · cases allocated.symm.trans expected
      have frames : (start + size / pageSize) * pageSize ≤ 2 ^ 52 := (Nat.mul_le_mul_right _ bound).trans tree.width
      rw [Nat.add_mul] at frames
      rw [← whole] at mapping fits
      obtain ⟨mapped, -, rfl, region, ready, canonical, writable⟩ :=
        mapRegion_cleared (tree.taken marked) virtAligned fits
        (Nat.mul_mod_left _ _) frames plain (Nat.pos_of_ne_zero some)
          (fun mapped ready => ready.apart tree free marked) mapping
      have apart := ready.apart tree free marked
      obtain ⟨pages, others⟩ := regionMapped_of_cleared region ready apart canonical writable
      refine ⟨pages, ?_, ?_, fun other bound outside => others other bound (whole.symm ▸ outside)⟩
      · intro i inside path table valid found
        rw [clearedState_tables ready.tree apart region.phys_aligned (Nat.le_refl _) valid] at found
        exact apart path table valid found i inside
      · intro i inside
        rw [Nat.mul_div_cancel _ (by decide : 0 < pageSize)]
        exact free _ (by omega) (by omega)
    · cases allocated.symm.trans expected
      exact (none rfl).elim

/-- Words that may be written are cleared without an exception. -/
theorem memsetWords_returns {base mapped : Paging} {pages count done : Nat}
    (region : PageRegion offset base virt phys pages)
    (ready : PagesMapped offset base mapped virt phys pages) (apart : TablesApart offset mapped phys pages)
    (total : done + 4 * count = pages * pageSize) (canonical : ∀ position < pages * pageSize, Canonical (virt + position))
    (writable : ∀ position < pages * pageSize, rightsOf offset mapped (virt + position) = true) :
    ∃ after last, memsetWordsThrough (writableAddress offset) 0 count (clearedState mapped phys done)
      (u64 (virt + done)) =
      .ok (after, last) := by
  induction count generalizing done with
  | zero => exact ⟨_, _, rfl⟩
  | succ count ih =>
    have inside : done ≤ pages * pageSize := by omega
    have within : done < pages * pageSize := by omega
    have fits := region.virt_fits
    have found : writableAddress offset (clearedState mapped phys done) (virt + done) = some (phys + done) := by
      rw [writableAddress, accessAddress, if_pos (canonical done within),
        clearedState_translate region ready apart inside within,
        clearedState_rights ready.tree apart region.phys_aligned inside, writable done within]
      rfl
    obtain ⟨after, last, rest⟩ := @ih (done + 4) (by omega)
    refine ⟨after, last, ?_⟩
    rw [u64_eq (show virt + done < 2 ^ 64 by omega), memsetWordsThrough, storeThrough, found]
    dsimp only [bind, Except.bind]
    rw [clearedState_word, Nat.add_assoc]
    exact rest

theorem memset_returns {mapped : Paging} {ptr n : Nat} (start : ptr % 4 = 0) (whole : n % 4 = 0)
    (words : ∃ after last, memsetWordsThrough (writableAddress offset) 0 (n / 4) mapped ptr = .ok (after, last)) :
    ∃ after, memsetThrough (writableAddress offset) mapped ptr 0 n = .ok after := by
  obtain ⟨after, last, words⟩ := words
  refine ⟨after, ?_⟩
  unfold memsetThrough
  change (memsetHeadThrough (writableAddress offset) 0 n mapped ptr >>= _) = _
  rw [memsetHead_aligned _ 0 n mapped start]
  change (memsetWordsThrough (writableAddress offset) 0 (n / 4) mapped ptr >>= _) = _
  rw [words]
  dsimp only [bind, Except.bind]
  rw [whole]
  rfl

end region

/-- Tables with an empty root, and the frames 512 to 519 free. -/
def roomyTables : Paging where
  memory := fun _ => 0
  kernelPml4 := physToVirt heapStart 0x1000
  physmem := {
    pageframesAddress := heapStart, pageframes := fun _ => ⟨0, 0⟩, total := 520
    bitmap := fun byte => if byte < 64 then 0xFF else 0
    bitmapSize := 65, addrHighest := 520 * pageSize, total_lt := by decide }

theorem roomyTables_entry (table index : Nat) : entryAt roomyTables.memory table index = 0 := bareTables_entry table index

theorem roomyTables_root {path : List Nat} {table : Nat} (found : tableOf heapStart roomyTables path = some table) :
    path = [] ∧ table = 0x1000 := by
  cases path with
  | nil => exact ⟨rfl, (Option.some.inj found).symm⟩
  | cons index rest =>
    rw [tableOf, tableAt, roomyTables_entry] at found
    cases found

theorem roomyTables_tree : PageTree heapStart roomyTables := by
  refine ⟨by decide, by decide, by decide, ?_, ?_⟩
  · intro first second left right _ _ found found' _
    exact (roomyTables_root found).1.trans (roomyTables_root found').1.symm
  · intro path table _ found
    obtain ⟨_, rfl⟩ := roomyTables_root found
    exact ⟨by decide, by decide⟩

theorem roomyTables_plain (virtualAddr : Nat) : NoLargePage heapStart roomyTables virtualAddr := by
  rw [NoLargePage, walkOf, pathOf, walk, roomyTables_entry]
  rfl

theorem roomyTables_rights (virtualAddr : Nat) : rightsOf heapStart roomyTables virtualAddr = true := by
  rw [rightsOf, pathOf, rights, roomyTables_entry]
  rfl

theorem roomyTables_spare : 4 ≤ (spareFrames roomyTables.physmem).card := by
  have inside : ({512, 513, 514, 515} : Finset Nat) ⊆ spareFrames roomyTables.physmem := by
    intro frame member
    simp only [Finset.mem_insert, Finset.mem_singleton] at member
    simp only [spareFrames, Finset.mem_filter, mem_freeFrames]
    rcases member with rfl | rfl | rfl | rfl <;> decide
  exact Finset.card_le_card inside

theorem roomyTables_allocates : ∃ start physmem, physmemAllocTo roomyTables.physmem 1 = .ok (start * pageSize, physmem) ∧
    startSearch ≤ start ∧ start + 1 ≤ 520 ∧ FreeRun roomyTables.physmem start 1 ∧
      Marked roomyTables.physmem physmem start 1 true := by
  rcases @physmemAllocTo_spec roomyTables.physmem (by decide) 1 with
    ⟨start, physmem, _, low, bound, free, _, allocated, marked⟩ | ⟨_, full⟩
  · exact ⟨start, physmem, allocated, low, bound, free, marked⟩
  · refine (full (by decide) 512 (by decide) (by decide) fun frame low high => ?_).elim
    obtain rfl : frame = 512 := by omega
    decide

/-- A page at `0x400000` can be mapped in these tables. -/
theorem roomyTables_returns :
    ∃ phys after, mapRegionAlloc (writableAddress heapStart) heapStart roomyTables 0x400000 pageSize = .ok (phys,
      after) := by
  obtain ⟨start, physmem, allocated, low, bound, free, marked⟩ := roomyTables_allocates
  have tree := roomyTables_tree.taken marked
  have spare := roomyTables_spare.trans (spareFrames_take marked)
  have frames : start * pageSize + 1 * pageSize ≤ 2 ^ 52 := by
    rw [← Nat.add_mul]
    exact (Nat.mul_le_mul_right _ bound).trans (by decide)
  have aligned : start * pageSize % pageSize = 0 := Nat.mul_mod_left _ _
  have plain : NoLargePage heapStart { roomyTables with physmem } 0x400000 := roomyTables_plain 0x400000
  obtain ⟨mapped, result⟩ := paging_map_page_returns tree plain (marked.address.trans_ne (by decide))
    (Nat.le_of_succ_le_succ spare) (start * pageSize) (ptePresent ||| pteWritable)
  have step := pagingMapPage_mapped tree plain aligned (by simp only [pageSize] at frames ⊢; omega) result
  have canonical : ∀ position < 1 * pageSize, Canonical (0x400000 + position) := by
    intro position inside
    exact .inl (by simp only [pageSize] at inside; omega)
  have region : PageRegion heapStart { roomyTables with physmem } 0x400000 (start * pageSize) 1 :=
    .of_canonical (by decide) (by decide) aligned frames (fun _ _ => roomyTables_plain _) canonical
  have pages : mapPages heapStart (start * pageSize) 0x400000 1 0 { roomyTables with physmem } = .ok mapped := by
    have here : u64 (0x400000 + 0 * pageSize) = 0x400000 := by decide
    have there : u64 (start * pageSize + 0 * pageSize) = start * pageSize := by
      rw [Nat.zero_mul, Nat.add_zero, u64_eq (by omega)]
    rw [mapPages, here, there, result]
    rfl
  have ready := mapPages_mapped region (.start tree) (Nat.zero_add _) pages
  have apart := ready.apart roomyTables_tree free marked
  have allowed : ∀ position < 1 * pageSize, rightsOf heapStart mapped (0x400000 + position) = true := by
    intro position inside
    have page : SamePage (0x400000 + position) 0x400000 := samePage_inside (by decide) (by rwa [Nat.one_mul] at inside)
    rw [rightsOf, pathOf_page page]
    exact step.writable (roomyTables_rights 0x400000)
  have words := @memsetWords_returns _ _ _ _ _ _ (pageSize / 4) 0 region ready apart (by decide) canonical allowed
  have here : u64 (0x400000 + 0) = 0x400000 := by decide
  rw [clearedState_none, here] at words
  obtain ⟨cleared, clears⟩ := memset_returns (by decide) (by decide) words
  have positive : 0 < start := Nat.lt_of_lt_of_le (by decide) low
  have given : start * pageSize ≠ 0 := Nat.mul_ne_zero (Nat.ne_of_gt positive) (by decide)
  have one : pageSize / pageSize = 1 := by decide
  have mapping : mapRegion (writableAddress heapStart) heapStart { roomyTables with physmem } (start * pageSize) 0x400000
      pageSize = .ok cleared := by
    rw [mapRegion, one, pages]
    exact clears
  refine ⟨start * pageSize, cleared, ?_⟩
  rw [mapRegionAlloc, one, allocated]
  dsimp only [bind, Except.bind]
  rw [if_neg given, mapping]
  rfl

theorem roomyTables_region_mapped : ∃ phys after,
    mapRegionAlloc (writableAddress heapStart) heapStart roomyTables 0x400000 pageSize = .ok (phys, after) ∧
      RegionMapped heapStart roomyTables after 0x400000 phys pageSize := by
  obtain ⟨phys, after, result⟩ := roomyTables_returns
  exact ⟨phys, after, result, map_region_alloc_maps roomyTables_tree (by decide) (by decide) (by decide)
    (fun i _ => roomyTables_plain _) result⟩

end Kernix.Proofs
