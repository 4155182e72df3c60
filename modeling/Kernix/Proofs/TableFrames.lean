import Kernix.Proofs.RegionMapping

/-! How many frames a mapping takes: one for each table on the paths of its pages that is
missing. With fewer frames to spare it panics. -/

namespace Kernix.Proofs
open ByteMemory RadixTable

/-- The paths to the tables that the mapping of a page needs below the root. -/
def tablePrefixes (virtualAddr : Nat) : List (List Nat) :=
  [[pml4Index virtualAddr], [pml4Index virtualAddr, pdpIndex virtualAddr], tablePathOf virtualAddr]

def neededTables (pages : List Nat) : Finset (List Nat) := (pages.flatMap tablePrefixes).toFinset

def missingTables (offset : Nat) (paging : Paging) (paths : Finset (List Nat)) : Finset (List Nat) :=
  paths.filter fun path => tableOf offset paging path = none

/-- No entry in use on the way to a table is against writing. -/
def rightsTo (offset : Nat) (paging : Paging) (path : List Nat) : Bool :=
  rights pageFormat entryWritable paging.memory (rootTable offset paging) path

/-- Frames were taken only for tables that were missing. -/
structure TablesTaken (offset : Nat) (paths : Finset (List Nat)) (before after : Paging) : Prop where
  balance : (spareFrames after.physmem).card + (missingTables offset before paths).card =
    (spareFrames before.physmem).card + (missingTables offset after paths).card
  tables : ∀ path table, TablePath path → tableOf offset before path = some table → tableOf offset after path = some table
  rights : ∀ path, TablePath path → rightsTo offset after path = rightsTo offset before path
  address : after.physmem.pageframesAddress = before.physmem.pageframesAddress
  total : after.physmem.total = before.physmem.total

section taken
variable {offset : Nat} {paths : Finset (List Nat)} {before middle after paging current : Paging}

theorem TablesTaken.refl (offset : Nat) (paths : Finset (List Nat)) (paging : Paging) :
    TablesTaken offset paths paging paging :=
  ⟨rfl, fun _ _ _ found => found, fun _ _ => rfl, rfl, rfl⟩

theorem TablesTaken.trans (left : TablesTaken offset paths before middle)
    (right : TablesTaken offset paths middle after) :
    TablesTaken offset paths before after := by
  refine ⟨?_, ?_, fun path valid => (right.rights path valid).trans (left.rights path valid),
    right.address.trans left.address, right.total.trans left.total⟩
  · have first := left.balance
    have second := right.balance
    omega
  · exact fun path table valid found => right.tables path table valid (left.tables path table valid found)

/-- When nothing is left and something is missing, too little was there. -/
theorem TablesTaken.short (taken : TablesTaken offset paths before after)
    (short : (spareFrames after.physmem).card < (missingTables offset after paths).card) :
    (spareFrames before.physmem).card < (missingTables offset before paths).card := by
  have balance := taken.balance
  omega

theorem spareFrames_taken {before after : Physmem} {start count : Nat} (marked : Marked before after start count true)
    (low : startSearch ≤ start) (bound : start + count ≤ before.total) (free : FreeRun before start count) :
    (spareFrames after).card + count = (spareFrames before).card := by
  have inside : Finset.Ico start (start + count) ⊆ spareFrames before := by
    intro frame member
    obtain ⟨first, last⟩ := Finset.mem_Ico.mp member
    simp only [spareFrames, Finset.mem_filter, mem_freeFrames]
    exact ⟨⟨by omega, free frame first last⟩, by omega⟩
  have rest : spareFrames after = spareFrames before \ Finset.Ico start (start + count) := by
    ext frame
    simp only [spareFrames, Finset.mem_filter, mem_freeFrames, Finset.mem_sdiff, Finset.mem_Ico, marked.bits,
      marked.total]
    split
    next taken => simp [taken]
    next other => simp [other]
  have fewer := Finset.card_le_card inside
  rw [rest, Finset.card_sdiff_of_subset inside, Nat.card_Ico, Nat.add_sub_cancel_left]
  rw [Nat.card_Ico, Nat.add_sub_cancel_left] at fewer
  omega

/-- The frame that a level takes for a table that is missing. -/
theorem nextTable_takes {table index next : Nat} {message : String} (low : table < 2 ^ 52) (small : index < 512)
    (absent : pageFormat.present (entryAt paging.memory table index) = false)
    (result : nextTable offset paging (u64 (table + offset)) index message = .ok (next, after)) :
    ∃ start, startSearch ≤ start ∧ start + 1 ≤ paging.physmem.total ∧ FreeRun paging.physmem start 1 ∧
      Marked paging.physmem after.physmem start 1 true := by
  simp only [nextTable, entries_pointer _ low small, present_iff, absent, if_true] at result
  obtain ⟨⟨phys, physmem⟩, allocated, result⟩ := bind_ok result
  dsimp only at allocated result
  by_cases none : phys = 0
  · rw [if_pos none] at result
    cases result
  · rw [if_neg none] at result
    cases result
    rcases physmemAllocTo_spec (physmemAllocTo_present allocated none) 1 with
      ⟨start, physmem', _, above, bound, run, _, expected, marked⟩ | ⟨expected, _⟩
    · cases allocated.symm.trans expected
      exact ⟨start, above, bound, run, marked⟩
    · cases allocated.symm.trans expected
      exact (none rfl).elim

/-- A level panics where a table is missing and no frame is left. -/
theorem nextTable_fails {table index : Nat} {message : String} {stop : Stop} (low : table < 2 ^ 52) (small : index < 512)
    (present : paging.physmem.pageframesAddress ≠ 0)
    (result : nextTable offset paging (u64 (table + offset)) index message = .error stop) :
    pageFormat.present (entryAt paging.memory table index) = false ∧ (spareFrames paging.physmem).card = 0 := by
  simp only [nextTable, entries_pointer _ low small, present_iff] at result
  cases absent : pageFormat.present (entryAt paging.memory table index) with
  | true =>
    rw [if_neg (by rw [absent]; decide)] at result
    cases result
  | false =>
    refine ⟨rfl, ?_⟩
    by_contra some
    obtain ⟨next, after, returns, -⟩ := nextTable_returns offset low small present (Nat.pos_of_ne_zero some) message
    simp only [nextTable, entries_pointer _ low small, present_iff] at returns
    rw [returns] at result
    cases result

theorem tableOf_absent {path : List Nat} {table index : Nat} (found : tableOf offset paging path = some table)
    (absent : pageFormat.present (entryAt paging.memory table index) = false) :
    tableOf offset paging (path ++ [index]) = none := by
  rw [tableOf, tableAt_append, ← tableOf, found]
  simp only [Option.bind_some, tableAt, Format.links, absent, Bool.false_and, Bool.false_eq_true, if_false]

variable (wanted : ∀ path ∈ paths, TablePath path)
include wanted

/-- A level takes no frame but for its table. -/
theorem nextTable_taken {path : List Nat} {table index next : Nat} {message : String} (tree : PageTree offset paging)
    (valid : TablePath (path ++ [index])) (small : index < 512) (found : tableOf offset paging path = some table)
    (needed : path ++ [index] ∈ paths)
    (result : nextTable offset paging (u64 (table + offset)) index message = .ok (next, after)) :
    TablesTaken offset paths paging after := by
  cases nextTable_level tree valid.left small found result with
  | follows used target same =>
    subst same
    exact .refl offset paths after
  | links start physmem absent free inside marked target same =>
    obtain ⟨start', low, bound, run, marked'⟩ := nextTable_takes (tree.bounds valid.left found).2 small absent result
    have fewer := spareFrames_taken marked' low bound run
    subst same
    have linked := tree.linked free inside valid.left small found absent
    have zero : pageFormat.present 0 = false := rfl
    have allowed := tree.linked_writable free inside valid.left small found
    refine ⟨?_, ?_, ?_, marked.address, marked.total⟩
    · have erased : missingTables offset
          { paging with memory := linkMemory paging.memory table index (start * pageSize), physmem } paths =
            (missingTables offset paging paths).erase (path ++ [index]) := by
        ext other
        simp only [missingTables, Finset.mem_filter, Finset.mem_erase]
        constructor
        · rintro ⟨member, missing⟩
          refine ⟨?_, member, ?_⟩
          · rintro rfl
            exact Option.some_ne_none _ ((linked.reaches valid found).symm.trans missing)
          · rw [Option.eq_none_iff_forall_ne_some] at missing ⊢
            exact fun place old => missing place ((linked.tableAt_iff valid found zero
              (wanted other member)).mpr (.inr old))
        · rintro ⟨differ, member, missing⟩
          refine ⟨member, ?_⟩
          rw [Option.eq_none_iff_forall_ne_some] at missing ⊢
          intro place new
          rcases (linked.tableAt_iff valid found zero (wanted other member)).mp new with ⟨same, -⟩ | old
          · exact differ same
          · exact missing place old
      have was : path ++ [index] ∈ missingTables offset paging paths :=
        Finset.mem_filter.mpr ⟨needed, tableOf_absent found absent⟩
      have some := Finset.card_pos.mpr ⟨_, was⟩
      rw [erased, Finset.card_erase_of_mem was]
      omega
    · exact fun other place route reached => (linked.tableAt_iff valid found zero route).mpr (.inr reached)
    · exact fun other route => linked.rights valid found zero allowed ⟨Nat.le_succ_of_le route.short, route.small⟩

/-- How a level of a mapping ends. -/
theorem Descent.taken {virtualAddr table index : Nat} {first rest : List Nat}
    (descent : Descent offset paging current first table) (plain : NoLargePage offset paging virtualAddr)
    (split : pathOf virtualAddr = first ++ index :: rest) (more : rest ≠ []) (needed : first ++ [index] ∈ paths)
    (present : current.physmem.pageframesAddress ≠ 0) (message : String) :
    (∃ next after, nextTable offset current (u64 (table + offset)) index message = .ok (u64 (next + offset), after) ∧
      Descent offset paging after (first ++ [index]) next ∧ TablesTaken offset paths current after) ∨
    (∃ stop, nextTable offset current (u64 (table + offset)) index message = .error stop) ∧
      (spareFrames current.physmem).card < (missingTables offset current paths).card := by
  cases level : nextTable offset current (u64 (table + offset)) index message with
  | ok result =>
    obtain ⟨pointer, after⟩ := result
    obtain ⟨next, rfl, further⟩ := descent.next plain split more level
    exact .inl ⟨next, after, rfl, further, nextTable_taken wanted descent.tree (Descent.route split more)
      (Descent.small split)
      descent.found needed level⟩
  | error stop =>
    obtain ⟨absent, none⟩ := nextTable_fails descent.low (Descent.small split) present level
    refine .inr ⟨⟨stop, rfl⟩, ?_⟩
    rw [none]
    exact Finset.card_pos.mpr ⟨_, Finset.mem_filter.mpr ⟨needed, tableOf_absent descent.found absent⟩⟩

/-- States with the same tables and the same frames in use. -/
theorem TablesTaken.of_same (frames : after.physmem = before.physmem)
    (tables : ∀ path, TablePath path → tableOf offset after path = tableOf offset before path)
    (rights : ∀ path, TablePath path → rightsTo offset after path = rightsTo offset before path) :
    TablesTaken offset paths before after := by
  have missing : missingTables offset after paths = missingTables offset before paths :=
    Finset.filter_congr fun path member => by rw [tables path (wanted path member)]
  refine ⟨by rw [missing, frames], ?_, rights, by rw [frames], by rw [frames]⟩
  intro path table valid found
  rw [tables path valid, found]

/-- The entry of the page itself is on the way to no table. -/
theorem writeEntry_taken {virtualAddr table : Nat} (tree : PageTree offset paging)
    (found : tableOf offset paging (tablePathOf virtualAddr) = some table) (value : Nat) :
    TablesTaken offset paths paging (writeEntry paging table virtualAddr value) := by
  refine .of_same wanted rfl (fun path valid => writeEntry_tables tree found value valid) ?_
  intro path valid
  refine ((writeEntry_untouched tree found value).sameEntries ⟨Nat.le_succ_of_le valid.short, valid.small⟩ ?_).rights
  intro longer
  have length := longer.length_le
  have short := valid.short
  simp only [tablePathOf, List.length_append, List.length_cons, List.length_nil] at length
  omega

/-- How the mapping of a page ends: it takes the frames for its tables, or there are too few. -/
theorem pagingMapPage_taken {virtualAddr : Nat} (tree : PageTree offset paging)
    (plain : NoLargePage offset paging virtualAddr)
    (needed : ∀ path ∈ tablePrefixes virtualAddr, path ∈ paths) (present : paging.physmem.pageframesAddress ≠ 0)
    (physicalAddr flags : Nat) :
    (∃ after, pagingMapPage offset paging virtualAddr physicalAddr flags = .ok after ∧
      TablesTaken offset paths paging after ∧
      ∃ table, tableOf offset after (tablePathOf virtualAddr) = some table) ∨
    (∃ stop, pagingMapPage offset paging virtualAddr physicalAddr flags = .error stop) ∧
      (spareFrames paging.physmem).card < (missingTables offset paging paths).card := by
  have start : u64 (rootTable offset paging + offset) = paging.kernelPml4 := rootTable_pointer offset tree.pointer
  simp only [pagingMapPage, bind, Except.bind]
  rw [← start]
  rcases (Descent.start tree).taken wanted plain rfl (by simp) (needed _ (by simp [tablePrefixes])) present
    "Could not allocate PDPT!" with ⟨table4, first, level4, descent4, taken4⟩ | ⟨⟨stop, level4⟩, short⟩
  · rw [level4]
    dsimp only
    rcases descent4.taken wanted plain rfl (by simp) (needed _ (by simp [tablePrefixes]))
      (taken4.address.trans_ne present)
      "Could not allocate PD!" with ⟨table3, second, level3, descent3, taken3⟩ | ⟨⟨stop, level3⟩, short⟩
    · rw [level3]
      dsimp only
      have taken := taken4.trans taken3
      rcases descent3.taken wanted plain rfl (by simp) (needed _ (by simp [tablePrefixes, tablePathOf]))
        (taken.address.trans_ne present) "Could not allocate PT!" with ⟨table2, third, level2, descent2, taken2⟩ | ⟨⟨stop, level2⟩, short⟩
      · rw [level2]
        dsimp only
        have taken := taken.trans taken2
        rw [setEntries_pointer _ _ descent2.low (ptIndex_small virtualAddr)]
        exact .inl ⟨_, rfl, taken.trans (writeEntry_taken wanted descent2.tree descent2.found _), table2,
          (writeEntry_tables descent2.tree descent2.found _ descent2.valid).trans descent2.found⟩
      · rw [level2]
        exact .inr ⟨⟨stop, rfl⟩, taken.short short⟩
    · rw [level3]
      exact .inr ⟨⟨stop, rfl⟩, taken4.short short⟩
  · rw [level4]
    exact .inr ⟨⟨stop, rfl⟩, short⟩

/-- How the loop over the pages of a region ends. -/
theorem mapPages_taken {base : Paging} {virt phys pages count left : Nat}
    (region : PageRegion offset base virt phys pages)
    (needed : ∀ i < pages, ∀ path ∈ tablePrefixes (virt + i * pageSize), path ∈ paths)
    (mapped : PagesMapped offset base current virt phys count) (total : count + left = pages)
    (present : current.physmem.pageframesAddress ≠ 0) :
    (∃ after, mapPages offset phys virt left count current = .ok after ∧ TablesTaken offset paths current after ∧
      ∀ i < pages, count ≤ i → ∃ table, tableOf offset after (tablePathOf (virt + i * pageSize)) = some table) ∨
    (∃ stop, mapPages offset phys virt left count current = .error stop) ∧
      (spareFrames current.physmem).card < (missingTables offset current paths).card := by
  induction left generalizing count current with
  | zero => exact .inl ⟨current, rfl, .refl offset paths current, fun i inside late => by omega⟩
  | succ left ih =>
    have inside : count < pages := by omega
    obtain ⟨here, there, plain, aligned, low, apart⟩ := mapped.page region inside
    rw [mapPages, here, there]
    rcases pagingMapPage_taken wanted mapped.tree plain (needed count inside) present (phys + count * pageSize)
      (ptePresent ||| pteWritable) with ⟨next, step, taken, table, found⟩ | ⟨⟨stop, step⟩, short⟩
    · rw [step]
      simp only [bind, Except.bind]
      have further := mapped.next (pagingMapPage_mapped mapped.tree plain aligned low step) apart
      rcases ih further (by omega) (taken.address.trans_ne present) with ⟨after, rest, more, tables⟩ | ⟨fails, short⟩
      · refine .inl ⟨after, rest, taken.trans more, fun i bound late => ?_⟩
        by_cases first : i = count
        · subst first
          exact ⟨table, more.tables _ table (tablePathOf_valid _) found⟩
        · exact tables i bound (by omega)
      · exact .inr ⟨fails, taken.short short⟩
    · rw [step]
      exact .inr ⟨⟨stop, rfl⟩, short⟩

end taken

section regions
variable {offset virt phys pages : Nat} {paths : Finset (List Nat)} {base mapped after paging : Paging}

/-- What `map_region` leaves behind: its pages are mapped to its frames, none of which is a
table, and every table on their paths is there and allows to write. -/
structure RegionReady (offset : Nat) (paths : Finset (List Nat)) (base mapped : Paging) (virt phys pages : Nat) :
    Prop where
  region : PageRegion offset base virt phys pages
  ready : PagesMapped offset base mapped virt phys pages
  apart : TablesApart offset mapped phys pages
  canonical : ∀ position < pages * pageSize, Canonical (virt + position)
  writable : ∀ i < pages, rightsOf offset mapped (virt + i * pageSize) = true
  taken : TablesTaken offset paths base (clearedState mapped phys (pages * pageSize))
  allowed : ∀ i < pages, rightsTo offset base (tablePathOf (virt + i * pageSize)) = true
  tables : ∀ i < pages, ∃ table,
    tableOf offset (clearedState mapped phys (pages * pageSize)) (tablePathOf (virt + i * pageSize)) = some table

/-- A page that was just mapped can be written where its tables allow it. -/
theorem rightsOf_mapped {virtualAddr physical table : Nat}
    (found : tableOf offset paging (tablePathOf virtualAddr) = some table)
    (walk : walkOf offset paging virtualAddr = ⟨1, physical + 3⟩) (aligned : physical % pageSize = 0) :
    rightsOf offset paging virtualAddr = rightsTo offset paging (tablePathOf virtualAddr) := by
  have split : pathOf virtualAddr = tablePathOf virtualAddr ++ [ptIndex virtualAddr] := rfl
  rw [walkOf, split, walk_append found (by simp), RadixTable.walk, Leaf.mk.injEq] at walk
  have allowed : entryWritable (physical + 3) = true := by
    rw [entryWritable, Nat.testBit_eq_decide_div_mod_eq]
    simp only [pageSize, decide_eq_true_eq] at *
    omega
  rw [rightsOf, split, rights_append _ found, rightsTo]
  simp only [RadixTable.rights, walk.2, allowed, Bool.or_true, Bool.and_true]
  split <;> exact Bool.and_true _

theorem clearedState_taken (wanted : ∀ path ∈ paths, TablePath path) (tree : PageTree offset mapped)
    (apart : TablesApart offset mapped phys pages) (aligned : phys % pageSize = 0) :
    TablesTaken offset paths mapped (clearedState mapped phys (pages * pageSize)) := by
  refine .of_same wanted rfl (fun path valid => clearedState_tables tree apart aligned (Nat.le_refl _) valid) ?_
  exact fun path valid =>
    (clearedState_entries tree apart aligned (Nat.le_refl _) ⟨Nat.le_succ_of_le valid.short, valid.small⟩).rights

/-- Pages that can be written are cleared without an exception. -/
theorem memsetThrough_pages (region : PageRegion offset base virt phys pages)
    (ready : PagesMapped offset base mapped virt phys pages) (apart : TablesApart offset mapped phys pages)
    (canonical : ∀ position < pages * pageSize, Canonical (virt + position))
    (writable : ∀ i < pages, rightsOf offset mapped (virt + i * pageSize) = true) (some : 0 < pages) :
    ∃ after, memsetThrough (writableAddress offset) mapped virt 0 (pages * pageSize) = .ok after := by
  have quarter : pages * pageSize / 4 = pages * 1024 := by
    simp only [pageSize]
    omega
  have virtAligned := region.virt_aligned
  have fits := region.virt_fits
  have nonempty : pageSize ≤ pages * pageSize := Nat.le_mul_of_pos_left _ some
  have everywhere : ∀ position < pages * pageSize, rightsOf offset mapped (virt + position) = true := by
    intro position inside
    have page : position / pageSize < pages := by
      apply Nat.div_lt_of_lt_mul
      rwa [Nat.mul_comm]
    have aligned : (virt + position / pageSize * pageSize) % pageSize = 0 := by
      rw [Nat.add_mul_mod_self_right]
      exact virtAligned
    have same := samePage_inside aligned (Nat.mod_lt position (by decide : 0 < pageSize))
    rw [Nat.add_assoc, Nat.div_add_mod'] at same
    rw [rightsOf, pathOf_page same]
    exact writable _ page
  have words := @memsetWords_returns _ _ _ _ _ _ (pages * 1024) 0 region ready apart (by simp only [pageSize]; omega)
    canonical everywhere
  rw [clearedState_none, Nat.add_zero, u64_eq (by simp only [pageSize] at *; omega)] at words
  refine memset_returns (by simp only [pageSize] at *; omega) (by simp only [pageSize]; omega) ?_
  rw [quarter]
  exact words

/-- How `map_region` ends: the region is ready, or frames are missing for its tables, or one
of the tables on its paths is read-only and the clearing faults. -/
theorem mapRegion_taken (wanted : ∀ path ∈ paths, TablePath path) (tree : PageTree offset base)
    (region : PageRegion offset base virt phys pages)
    (canonical : ∀ position < pages * pageSize, Canonical (virt + position))
    (some : 0 < pages) (apart : TablesApart offset base phys pages)
    (held : ∀ i < pages, inUse base.physmem (phys / pageSize + i) = true)
    (needed : ∀ i < pages, ∀ path ∈ tablePrefixes (virt + i * pageSize), path ∈ paths)
    (present : base.physmem.pageframesAddress ≠ 0) :
    (∃ mapped, mapRegion (writableAddress offset) offset base phys virt (pages * pageSize) =
        .ok (clearedState mapped phys (pages * pageSize)) ∧ RegionReady offset paths base mapped virt phys pages) ∨
    (∃ stop, mapRegion (writableAddress offset) offset base phys virt (pages * pageSize) = .error stop) ∧
      ((spareFrames base.physmem).card < (missingTables offset base paths).card ∨
        ∃ i < pages, rightsTo offset base (tablePathOf (virt + i * pageSize)) = false) := by
  have whole : pages * pageSize / pageSize = pages := Nat.mul_div_cancel _ (by decide)
  rcases mapPages_taken wanted region needed (.start tree) (Nat.zero_add _) present with
    ⟨mapped, maps, taken, tables⟩ | ⟨⟨stop, fails⟩, short⟩
  · have ready := mapPages_mapped region (.start tree) (Nat.zero_add _) maps
    have kept := ready.tables_apart apart held
    have cleared := taken.trans (clearedState_taken wanted ready.tree kept region.phys_aligned)
    have rights : ∀ i < pages, rightsOf offset mapped (virt + i * pageSize) =
        rightsTo offset base (tablePathOf (virt + i * pageSize)) := by
      intro i inside
      obtain ⟨table, found⟩ := tables i inside (Nat.zero_le i)
      rw [rightsOf_mapped found (ready.walk i inside) (by rw [Nat.add_mul_mod_self_right]; exact region.phys_aligned),
        taken.rights _ (tablePathOf_valid _)]
    cases result : mapRegion (writableAddress offset) offset base phys virt (pages * pageSize) with
    | ok after =>
      obtain ⟨mapped', maps', rfl, -, -, -, writable⟩ := mapRegion_cleared tree region.virt_aligned region.virt_fits
        region.phys_aligned region.phys_fits region.plain some (fun _ ready => ready.tables_apart apart held) result
      cases maps.symm.trans maps'
      refine .inl ⟨mapped, rfl, region, ready, kept, canonical, writable, cleared, ?_, ?_⟩
      · intro i inside
        rw [← rights i inside]
        exact writable i inside
      · intro i inside
        obtain ⟨table, found⟩ := tables i inside (Nat.zero_le i)
        refine ⟨table, ?_⟩
        rw [clearedState_tables ready.tree kept region.phys_aligned (Nat.le_refl _) (tablePathOf_valid _)]
        exact found
    | error stop =>
      refine .inr ⟨⟨stop, rfl⟩, .inr ?_⟩
      by_contra none
      have writable : ∀ i < pages, rightsOf offset mapped (virt + i * pageSize) = true := by
        intro i inside
        rw [rights i inside]
        exact Bool.eq_true_of_not_eq_false fun refused => none ⟨i, inside, refused⟩
      obtain ⟨after, clears⟩ := memsetThrough_pages region ready kept canonical writable some
      rw [mapRegion, whole, maps] at result
      cases clears.symm.trans result
  · refine .inr ⟨⟨stop, ?_⟩, .inl short⟩
    rw [mapRegion, whole, fails]
    rfl

/-- The frames of the region can be written at its addresses, and nothing else is found elsewhere. -/
theorem RegionReady.access (ready : RegionReady offset paths base mapped virt phys pages) :
    (∀ position < pages * pageSize, accessAddress offset (clearedState mapped phys (pages * pageSize)) (virt + position) =
      some (phys + position, true)) ∧
    ∀ other < 2 ^ 64, other < virt ∨ virt + pages * pageSize ≤ other →
      accessAddress offset (clearedState mapped phys (pages * pageSize)) other = accessAddress offset base other := by
  obtain ⟨inner, outer⟩ := regionMapped_of_cleared ready.region ready.ready ready.apart ready.canonical ready.writable
  refine ⟨?_, outer⟩
  intro position inside
  have page : position / pageSize < pages := by
    apply Nat.div_lt_of_lt_mul
    rwa [Nat.mul_comm]
  have found := (inner _ page _ (Nat.mod_lt position (by decide : 0 < pageSize))).1
  rwa [Nat.add_assoc, Nat.add_assoc, Nat.div_add_mod'] at found

theorem RegionReady.tree (ready : RegionReady offset paths base mapped virt phys pages) :
    PageTree offset (clearedState mapped phys (pages * pageSize)) := by
  have tree := ready.ready.tree
  have same : ∀ path, TablePath path →
      tableOf offset (clearedState mapped phys (pages * pageSize)) path = tableOf offset mapped path :=
    fun path valid => clearedState_tables tree ready.apart ready.region.phys_aligned (Nat.le_refl _) valid
  refine ⟨tree.pointer, tree.aligned, tree.width, ?_, ?_⟩
  · intro first second left right one two found found'
    rw [same first one] at found
    rw [same second two] at found'
    exact tree.distinct first second left right one two found found'
  · intro path table valid found
    rw [same path valid] at found
    exact tree.used path table valid found

/-- Frames in use that are no tables do not become tables of the region. -/
theorem RegionReady.keeps_apart (ready : RegionReady offset paths base mapped virt phys pages) {other count : Nat}
    (apart : TablesApart offset base other count) (held : ∀ i < count, inUse base.physmem (other / pageSize + i) = true) :
    TablesApart offset (clearedState mapped phys (pages * pageSize)) other count := by
  intro path table valid found
  rw [clearedState_tables ready.ready.tree ready.apart ready.region.phys_aligned (Nat.le_refl _) valid] at found
  exact ready.ready.tables_apart apart held path table valid found

end regions

end Kernix.Proofs
