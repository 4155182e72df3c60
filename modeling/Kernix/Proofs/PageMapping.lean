import Kernix.Proofs.PageTables
import Kernix.Proofs.PhysmemFrames

/-! Mapping a page: three levels of tables, then one entry. Nothing but the page
itself changes its walk. -/

namespace Kernix.Proofs
open ByteMemory RadixTable

theorem NoLargePage.grow {offset virtualAddr : Nat} {before after : Paging}
    (plain : NoLargePage offset before virtualAddr) (growth : Extends offset before after) :
    NoLargePage offset after virtualAddr := by
  rw [NoLargePage, growth.walks]
  exact plain

/-- The entries on a path without large pages link to the next table. -/
theorem NoLargePage.links {offset virtualAddr table index : Nat} {paging : Paging}
    (plain : NoLargePage offset paging virtualAddr) (first rest : List Nat)
    (split : pathOf virtualAddr = first ++ index :: rest) (more : rest ≠ [])
    (found : tableOf offset paging first = some table)
    (used : pageFormat.present (entryAt paging.memory table index) = true) :
    pageFormat.links (entryAt paging.memory table index) = true := by
  rw [NoLargePage, walkOf, split] at plain
  exact links_of_level_one found more plain used

/-- The path to the table of the last level. -/
def tablePathOf (virtualAddr : Nat) : List Nat := [pml4Index virtualAddr, pdpIndex virtualAddr, pdIndex virtualAddr]

theorem tablePathOf_valid (virtualAddr : Nat) : TablePath (tablePathOf virtualAddr) :=
  ⟨le_refl _, fun index member => (pathOf_small virtualAddr).small index
    (List.mem_append_left [ptIndex virtualAddr] member)⟩

theorem ptIndex_small (virtualAddr : Nat) : ptIndex virtualAddr < 512 :=
  (pathOf_small virtualAddr).small _ (by simp [pathOf])

/-- The final write of a mapping: one entry of the last level. -/
def writeEntry (paging : Paging) (table virtualAddr value : Nat) : Paging :=
  { paging with memory := store paging.memory (table + 8 * ptIndex virtualAddr) 8 value }

/-- How far a mapping got: the table at the end of a path, in tables that only grew. -/
structure Descent (offset : Nat) (paging current : Paging) (path : List Nat) (table : Nat) : Prop where
  valid : TablePath path
  tree : PageTree offset current
  growth : Extends offset paging current
  found : tableOf offset current path = some table

section Descent
variable {offset virtualAddr table index : Nat} {paging current : Paging} {first rest : List Nat}

theorem Descent.start (tree : PageTree offset paging) :
    Descent offset paging paging [] (rootTable offset paging) :=
  ⟨⟨Nat.zero_le 3, fun _ member => by cases member⟩, tree, Extends.refl offset paging, rfl⟩

theorem Descent.low (descent : Descent offset paging current first table) : table < 2 ^ 52 :=
  (descent.tree.bounds descent.valid descent.found).2

theorem Descent.small (split : pathOf virtualAddr = first ++ index :: rest) : index < 512 := by
  apply (pathOf_small virtualAddr).small
  rw [split]
  simp

theorem Descent.route (split : pathOf virtualAddr = first ++ index :: rest) (more : rest ≠ []) :
    TablePath (first ++ [index]) := by
  have length : (pathOf virtualAddr).length = 4 := rfl
  rw [split, List.length_append, List.length_cons] at length
  have positive := List.length_pos_iff.mpr more
  refine ⟨by rw [List.length_append, List.length_singleton]; omega, fun place member => ?_⟩
  apply (pathOf_small virtualAddr).small
  rw [split, List.append_cons]
  exact List.mem_append_left rest member

/-- One level of a mapping: when it returns, the next table on the path is there. -/
theorem Descent.next (descent : Descent offset paging current first table)
    (plain : NoLargePage offset paging virtualAddr) (split : pathOf virtualAddr = first ++ index :: rest)
    (more : rest ≠ []) {pointer : Nat} {after : Paging} {message : String}
    (level : nextTable offset current (u64 (table + offset)) index message = .ok (pointer, after)) :
    ∃ next, pointer = u64 (next + offset) ∧ Descent offset paging after (first ++ [index]) next := by
  have valid := Descent.route split more
  obtain ⟨next, pointer_eq, found, tree, growth⟩ := nextTable_spec descent.tree first valid (Descent.small split)
    descent.found ((plain.grow descent.growth).links first rest split more descent.found) level
  exact ⟨next, pointer_eq, valid, tree, descent.growth.trans growth, found⟩

theorem Descent.enlarged (descent : Descent offset paging current first table)
    (split : pathOf virtualAddr = first ++ index :: rest) (more : rest ≠ []) {pointer : Nat} {after : Paging}
    {message : String} (level : nextTable offset current (u64 (table + offset)) index message = .ok (pointer, after)) :
    Enlarged offset current after :=
  (nextTable_level descent.tree descent.valid (Descent.small split) descent.found level).enlarged descent.tree
    (Descent.route split more) (Descent.small split) descent.found

end Descent

/-- When a mapping returns, the tables on its path are there, and one entry of
the last one was written. -/
theorem pagingMapPage_tables {offset virtualAddr physicalAddr flags : Nat} {paging after : Paging}
    (tree : PageTree offset paging) (plain : NoLargePage offset paging virtualAddr)
    (result : pagingMapPage offset paging virtualAddr physicalAddr flags = .ok after) :
    ∃ middle table, PageTree offset middle ∧ Extends offset paging middle ∧ Enlarged offset paging middle ∧
      tableOf offset middle (tablePathOf virtualAddr) = some table ∧
      after = writeEntry middle table virtualAddr ((physicalAddr &&& pteAddress) ||| flags) := by
  obtain ⟨⟨pdpt, first⟩, level4, result⟩ := bind_ok result
  obtain ⟨⟨pd, second⟩, level3, result⟩ := bind_ok result
  obtain ⟨⟨pt, third⟩, level2, result⟩ := bind_ok result
  dsimp only at level4 level3 level2 result
  rw [← rootTable_pointer offset tree.pointer] at level4
  obtain ⟨table4, rfl, descent4⟩ := (Descent.start tree).next plain rfl (by simp) level4
  obtain ⟨table3, rfl, descent3⟩ := descent4.next plain rfl (by simp) level3
  obtain ⟨table2, rfl, descent2⟩ := descent3.next plain rfl (by simp) level2
  have split4 : pathOf virtualAddr =
      [] ++ pml4Index virtualAddr :: [pdpIndex virtualAddr, pdIndex virtualAddr, ptIndex virtualAddr] := rfl
  have split3 : pathOf virtualAddr =
      [pml4Index virtualAddr] ++ pdpIndex virtualAddr :: [pdIndex virtualAddr, ptIndex virtualAddr] := rfl
  have split2 : pathOf virtualAddr =
      [pml4Index virtualAddr, pdpIndex virtualAddr] ++ pdIndex virtualAddr :: [ptIndex virtualAddr] := rfl
  have enlarged := ((Descent.start tree).enlarged split4 (by simp) level4).trans
    ((descent4.enlarged split3 (by simp) level3).trans (descent3.enlarged split2 (by simp) level2))
  refine ⟨third, table2, descent2.tree, descent2.growth, enlarged, descent2.found, ?_⟩
  rw [setEntries_pointer _ _ descent2.low (ptIndex_small virtualAddr)] at result
  exact (Except.ok.inj result).symm

section WriteEntry
variable {offset table virtualAddr : Nat} {paging : Paging} (tree : PageTree offset paging)
  (found : tableOf offset paging (tablePathOf virtualAddr) = some table) (value : Nat)
include tree found

theorem writeEntry_untouched :
    Untouched pageFormat paging.memory (writeEntry paging table virtualAddr value).memory (rootTable offset paging) 3
      (tablePathOf virtualAddr) (ptIndex virtualAddr) :=
  tree.radix.store_untouched (tablePathOf_valid virtualAddr) (ptIndex_small virtualAddr) found value

theorem writeEntry_tables {path : List Nat} (valid : TablePath path) :
    tableOf offset (writeEntry paging table virtualAddr value) path = tableOf offset paging path :=
  (writeEntry_untouched tree found value).tableAt_leaf rfl valid

theorem writeEntry_tree : PageTree offset (writeEntry paging table virtualAddr value) := by
  refine ⟨tree.pointer, tree.aligned, tree.width, ?_, ?_⟩
  · intro first second left right one two reached reached'
    rw [writeEntry_tables tree found value one] at reached
    rw [writeEntry_tables tree found value two] at reached'
    exact tree.distinct first second left right one two reached reached'
  · intro path place valid reached
    rw [writeEntry_tables tree found value valid] at reached
    exact tree.used path place valid reached

theorem writeEntry_walk_other {other : Nat} (differ : ¬SamePage virtualAddr other) :
    walkOf offset (writeEntry paging table virtualAddr value) other = walkOf offset paging other := by
  refine (writeEntry_untouched tree found value).walk_leaf rfl (pathOf_small other) rfl ?_
  exact fun same => differ (pathOf_inj same.symm)

theorem writeEntry_walk (fits : value < 2 ^ 64) :
    walkOf offset (writeEntry paging table virtualAddr value) virtualAddr = ⟨1, value⟩ := by
  have reached := (writeEntry_tables tree found value (tablePathOf_valid virtualAddr)).trans found
  have split : pathOf virtualAddr = tablePathOf virtualAddr ++ [ptIndex virtualAddr] := rfl
  rw [walkOf, split, walk_append reached (by simp), walk, entryAt]
  exact congrArg (Leaf.mk 1) (load_store_fits _ fits)

theorem writeEntry_frame {address : Nat}
    (changed : (writeEntry paging table virtualAddr value).memory address ≠ paging.memory address) :
    InTable offset (writeEntry paging table virtualAddr value) address := by
  refine ⟨tablePathOf virtualAddr, table, tablePathOf_valid virtualAddr, ?_, ?_⟩
  · rw [writeEntry_tables tree found value (tablePathOf_valid virtualAddr), found]
  · have small := ptIndex_small virtualAddr
    by_contra away
    refine changed (store_confined _ _ _ _ address ?_)
    simp only [pageSize] at away
    omega

end WriteEntry

/-- The format as the software reads it: the large page bit is never looked at. -/
def looseFormat : Format := { pageFormat with large := fun _ => false }

theorem loose_links (entry : Nat) : looseFormat.links entry = pageFormat.present entry := by
  simp [Format.links, looseFormat]

/-- `is_page_mapped` walks the tables in the loose format. -/
theorem isPageMapped_loose {offset virtualAddr : Nat} {paging : Paging} (pointer : paging.kernelPml4 < 2 ^ 64)
    (low : rootTable offset paging < 2 ^ 52) :
    isPageMapped offset paging virtualAddr =
      match tableAt looseFormat paging.memory (rootTable offset paging) (tablePathOf virtualAddr) with
      | none => false
      | some table => pageFormat.present (entryAt paging.memory table (ptIndex virtualAddr)) := by
  have small := (pathOf_small virtualAddr).small
  have small4 : pml4Index virtualAddr < 512 := small _ (by simp [pathOf])
  have small3 : pdpIndex virtualAddr < 512 := small _ (by simp [pathOf])
  have small2 : pdIndex virtualAddr < 512 := small _ (by simp [pathOf])
  have small1 : ptIndex virtualAddr < 512 := small _ (by simp [pathOf])
  have last : ∀ entry : Nat, decide (entry &&& ptePresent ≠ 0) = pageFormat.present entry := by
    intro entry
    have flip := present_iff entry
    cases used : pageFormat.present entry with
    | false => rw [flip.mpr used, decide_eq_false (by decide)]
    | true =>
      rw [used] at flip
      exact decide_eq_true (by simpa using flip)
  have follow : ∀ entry, looseFormat.target entry = entry &&& pteAddress := fun _ => rfl
  rw [isPageMapped, ← rootTable_pointer offset pointer]
  simp only [entries_pointer _ low small4, entries_pointer _ (target_lt _) small3, entries_pointer _ (target_lt _) small2,
    entries_pointer _ (target_lt _) small1, present_iff, last, tablePathOf, tableAt, loose_links, follow]
  generalize entryAt paging.memory (rootTable offset paging) (pml4Index virtualAddr) = entry4
  generalize entryAt paging.memory (entry4 &&& pteAddress) (pdpIndex virtualAddr) = entry3
  generalize entryAt paging.memory (entry3 &&& pteAddress) (pdIndex virtualAddr) = entry2
  cases pageFormat.present entry4 <;> cases pageFormat.present entry3 <;> cases pageFormat.present entry2 <;> rfl

/-- Along a path without large pages both formats find the same tables. -/
theorem loose_tables {offset virtualAddr : Nat} {paging : Paging} (plain : NoLargePage offset paging virtualAddr) :
    tableAt looseFormat paging.memory (rootTable offset paging) (tablePathOf virtualAddr) =
      tableOf offset paging (tablePathOf virtualAddr) := by
  refine tableAt_formats (fun _ => rfl) fun first index rest table split found => ?_
  rw [loose_links]
  cases used : pageFormat.present (entryAt paging.memory table index) with
  | false => simp [Format.links, used]
  | true =>
    have whole : pathOf virtualAddr = first ++ index :: (rest ++ [ptIndex virtualAddr]) := by
      rw [show pathOf virtualAddr = tablePathOf virtualAddr ++ [ptIndex virtualAddr] from rfl, split]
      simp
    exact (plain.links first _ whole (by simp) found used).symm

/-- Without large pages `is_page_mapped` reads the entry that the walk ends at. -/
theorem isPageMapped_eq {offset virtualAddr : Nat} {paging : Paging} (tree : PageTree offset paging)
    (plain : NoLargePage offset paging virtualAddr) :
    isPageMapped offset paging virtualAddr = pageFormat.present (walkOf offset paging virtualAddr).entry := by
  rw [isPageMapped_loose tree.pointer tree.root_lt, loose_tables plain]
  have split : pathOf virtualAddr = tablePathOf virtualAddr ++ [ptIndex virtualAddr] := rfl
  cases found : tableOf offset paging (tablePathOf virtualAddr) with
  | some table => rw [walkOf, split, walk_append found (by simp), walk]
  | none =>
    rw [NoLargePage, walkOf, split] at plain
    rw [walkOf, split, walk_missing found plain]
    rfl

/-- Mapping a page of a tree of tables, on a path without large pages: the walk of
the page yields the new entry, no other walk changes, and the tables are a tree again. -/
theorem paging_map_page_walks {offset virtualAddr physicalAddr flags : Nat} {paging after : Paging}
    (tree : PageTree offset paging) (plain : NoLargePage offset paging virtualAddr) (fits : flags < 2 ^ 64)
    (result : pagingMapPage offset paging virtualAddr physicalAddr flags = .ok after) :
    walkOf offset after virtualAddr = ⟨1, (physicalAddr &&& pteAddress) ||| flags⟩ ∧
      (isPageMapped offset after virtualAddr = true ↔ flags &&& ptePresent ≠ 0) ∧
      (∀ other, ¬SamePage virtualAddr other → walkOf offset after other = walkOf offset paging other) ∧
      PageTree offset after := by
  obtain ⟨middle, table, tree', growth, -, found, rfl⟩ := pagingMapPage_tables tree plain result
  have bound : (physicalAddr &&& pteAddress) ||| flags < 2 ^ 64 :=
    Nat.or_lt_two_pow (Nat.lt_trans (target_lt physicalAddr) (by decide)) fits
  have walked := writeEntry_walk tree' found _ bound
  have tree'' := writeEntry_tree tree' found ((physicalAddr &&& pteAddress) ||| flags)
  refine ⟨walked, ?_, ?_, tree''⟩
  · have plain' : NoLargePage offset (writeEntry middle table virtualAddr ((physicalAddr &&& pteAddress) ||| flags))
        virtualAddr := by
      rw [NoLargePage, walked]
    have mapped := isPageMapped_eq tree'' plain'
    rw [walked] at mapped
    have bit : pageFormat.present ((physicalAddr &&& pteAddress) ||| flags) = pageFormat.present flags := by
      have clear : Nat.testBit pteAddress 0 = false := by decide
      simp only [pageFormat, Nat.testBit_or, Nat.testBit_and, clear, Bool.and_false, Bool.false_or]
    rw [mapped, bit, ne_eq, present_iff, Bool.not_eq_false]
  · intro other differ
    exact (writeEntry_walk_other tree' found _ differ).trans (growth.walks other)

/-- The free frames that an allocation can find. -/
def spareFrames (physmem : Physmem) : Finset Nat := (freeFrames physmem).filter fun frame => startSearch ≤ frame

theorem spareFrames_take {before after : Physmem} {start : Nat} (marked : Marked before after start 1 true) :
    (spareFrames before).card ≤ (spareFrames after).card + 1 := by
  have rest : (spareFrames before).erase start ⊆ spareFrames after := by
    intro frame member
    obtain ⟨differ, inside⟩ := Finset.mem_erase.mp member
    simp only [spareFrames, Finset.mem_filter, mem_freeFrames, marked.total, marked.bits] at inside ⊢
    rw [if_neg (by omega)]
    exact inside
  have smaller := Finset.card_le_card rest
  have one : (spareFrames before).card - 1 ≤ ((spareFrames before).erase start).card :=
    Finset.pred_card_le_card_erase
  omega

/-- A level succeeds when a frame is to be had. -/
theorem nextTable_returns (offset : Nat) {table index : Nat} {paging : Paging} (low : table < 2 ^ 52)
    (small : index < 512) (mapped : paging.physmem.pageframesAddress ≠ 0) (spare : 0 < (spareFrames paging.physmem).card)
    (message : String) :
    ∃ next after, nextTable offset paging (u64 (table + offset)) index message = .ok (next, after) ∧
      after.physmem.pageframesAddress ≠ 0 ∧
      (spareFrames paging.physmem).card ≤ (spareFrames after.physmem).card + 1 := by
  simp only [nextTable, entries_pointer _ low small, present_iff]
  cases absent : pageFormat.present (entryAt paging.memory table index) with
  | true => exact ⟨_, _, rfl, mapped, Nat.le_succ _⟩
  | false =>
    rcases physmemAllocTo_spec mapped 1 with
      ⟨start, physmem, _, above, _, _, _, allocated, marked⟩ | ⟨_, full⟩
    · have given : start * pageSize ≠ 0 := Nat.mul_ne_zero (by simp only [startSearch] at above; omega) (by decide)
      simp only [if_true, bind, Except.bind, allocated, if_neg given]
      exact ⟨_, _, rfl, marked.address.trans_ne mapped, spareFrames_take marked⟩
    · obtain ⟨frame, member⟩ := Finset.card_pos.mp spare
      simp only [spareFrames, Finset.mem_filter, mem_freeFrames] at member
      refine (full (by decide) frame member.2 member.1.1 fun other after before => ?_).elim
      obtain rfl : other = frame := by omega
      exact member.1.2

theorem Descent.returns {offset virtualAddr table index : Nat} {paging current : Paging} {first rest : List Nat}
    (descent : Descent offset paging current first table) (plain : NoLargePage offset paging virtualAddr)
    (split : pathOf virtualAddr = first ++ index :: rest) (more : rest ≠ [])
    (mapped : current.physmem.pageframesAddress ≠ 0) (spare : 0 < (spareFrames current.physmem).card)
    (message : String) :
    ∃ next after, nextTable offset current (u64 (table + offset)) index message = .ok (u64 (next + offset), after) ∧
      Descent offset paging after (first ++ [index]) next ∧ after.physmem.pageframesAddress ≠ 0 ∧
      (spareFrames current.physmem).card ≤ (spareFrames after.physmem).card + 1 := by
  obtain ⟨pointer, after, level, kept, fewer⟩ :=
    nextTable_returns offset descent.low (Descent.small split) mapped spare message
  obtain ⟨next, rfl, further⟩ := descent.next plain split more level
  exact ⟨next, after, level, further, kept, fewer⟩

/-- With three frames to spare a mapping on a path without large pages never panics. -/
theorem paging_map_page_returns {offset virtualAddr : Nat} {paging : Paging} (tree : PageTree offset paging)
    (plain : NoLargePage offset paging virtualAddr) (mapped : paging.physmem.pageframesAddress ≠ 0)
    (spare : 3 ≤ (spareFrames paging.physmem).card) (physicalAddr flags : Nat) :
    ∃ after, pagingMapPage offset paging virtualAddr physicalAddr flags = .ok after := by
  obtain ⟨table4, first, level4, descent4, mapped4, spare4⟩ :=
    (Descent.start tree).returns plain rfl (by simp) mapped (by omega) "Could not allocate PDPT!"
  obtain ⟨table3, second, level3, descent3, mapped3, spare3⟩ :=
    descent4.returns plain rfl (by simp) mapped4 (by omega) "Could not allocate PD!"
  obtain ⟨table2, third, level2, _, _, _⟩ :=
    descent3.returns plain rfl (by simp) mapped3 (by omega) "Could not allocate PT!"
  rw [rootTable_pointer offset tree.pointer] at level4
  simp only [pagingMapPage, bind, Except.bind, level4, level3, level2]
  exact ⟨_, rfl⟩

/-- An empty root table in frame 1, with the frames below 512 in use. -/
def bareTables : Paging where
  memory := fun _ => 0
  kernelPml4 := physToVirt heapStart 0x1000
  physmem := {
    pageframesAddress := heapStart, pageframes := fun _ => ⟨0, 0⟩, total := 515
    bitmap := fun byte => if byte < 64 then 0xFF else 0
    bitmapSize := 65, addrHighest := 515 * pageSize, total_lt := by decide }

theorem bareTables_entry (table index : Nat) : entryAt bareTables.memory table index = 0 := by
  have blank : ∀ count address, load (fun _ => 0) address count = 0 := by
    intro count
    induction count with
    | zero => exact fun _ => rfl
    | succ count ih => exact fun address => by rw [load, ih]; rfl
  exact blank 8 _

private theorem bareTables_root {path : List Nat} {table : Nat} (found : tableOf heapStart bareTables path = some table) :
    path = [] ∧ table = 0x1000 := by
  cases path with
  | nil => exact ⟨rfl, (Option.some.inj found).symm⟩
  | cons index rest =>
    rw [tableOf, tableAt, bareTables_entry] at found
    cases found

theorem bareTables_tree : PageTree heapStart bareTables := by
  refine ⟨by decide, by decide, by decide, ?_, ?_⟩
  · intro first second left right _ _ found found' _
    exact (bareTables_root found).1.trans (bareTables_root found').1.symm
  · intro path table _ found
    obtain ⟨_, rfl⟩ := bareTables_root found
    exact ⟨by decide, by decide⟩

theorem bareTables_plain (virtualAddr : Nat) : NoLargePage heapStart bareTables virtualAddr := by
  rw [NoLargePage, walkOf, pathOf, walk, bareTables_entry]
  rfl

private theorem bareTables_spare : 3 ≤ (spareFrames bareTables.physmem).card := by
  have inside : ({512, 513, 514} : Finset Nat) ⊆ spareFrames bareTables.physmem := by
    intro frame member
    simp only [Finset.mem_insert, Finset.mem_singleton] at member
    simp only [spareFrames, Finset.mem_filter, mem_freeFrames]
    rcases member with rfl | rfl | rfl <;> decide
  exact Finset.card_le_card inside

theorem paging_map_page_walks_bareTables : ∃ after, pagingMapPage heapStart bareTables 0x400000 0x5000 3 = .ok after ∧
    walkOf heapStart after 0x400000 = ⟨1, 0x5003⟩ ∧ isPageMapped heapStart after 0x400000 = true ∧
    (∀ other, ¬SamePage 0x400000 other → walkOf heapStart after other = walkOf heapStart bareTables other) ∧
    PageTree heapStart after := by
  obtain ⟨after, result⟩ :=
    paging_map_page_returns bareTables_tree (bareTables_plain 0x400000) (by decide) bareTables_spare 0x5000 3
  obtain ⟨walked, mapped, others, tree⟩ :=
    paging_map_page_walks bareTables_tree (bareTables_plain 0x400000) (by decide) result
  exact ⟨after, result, walked, mapped.mpr (by decide), others, tree⟩

end Kernix.Proofs
