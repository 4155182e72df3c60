import Kernix.Proofs.PageMapping

/-! Large pages. The software never looks at `PTE_HUGE`, so on a path that meets a
large page it takes data for a table. -/

namespace Kernix.Proofs
open ByteMemory RadixTable

/-- The physical address that the processor finds for an address. In the root
table the large page bit is reserved, and using such an entry faults. -/
def hardwareWalk (memory : Memory) (root virtualAddr : Nat) : Option Nat :=
  let pml4e := entryAt memory root (pml4Index virtualAddr)
  if !pml4e.testBit 0 || pml4e.testBit 7 then none
  else
    let pdpte := entryAt memory (pml4e &&& pteAddress) (pdpIndex virtualAddr)
    if !pdpte.testBit 0 then none
    else if pdpte.testBit 7 then some ((pdpte &&& 0x000FFFFFC0000000) + virtualAddr % 2 ^ 30)
    else
      let pde := entryAt memory (pdpte &&& pteAddress) (pdIndex virtualAddr)
      if !pde.testBit 0 then none
      else if pde.testBit 7 then some ((pde &&& 0x000FFFFFFFE00000) + virtualAddr % 2 ^ 21)
      else
        let pte := entryAt memory (pde &&& pteAddress) (ptIndex virtualAddr)
        if !pte.testBit 0 then none else some ((pte &&& pteAddress) + virtualAddr % 2 ^ 12)

/-- The translation in a paging state. -/
def translate (offset : Nat) (paging : Paging) (virtualAddr : Nat) : Option Nat :=
  hardwareWalk paging.memory (rootTable offset paging) virtualAddr

/-- The address that the end of a walk stands for. -/
def leafAddress (leaf : Leaf) (virtualAddr : Nat) : Option Nat :=
  if !leaf.entry.testBit 0 then none
  else match leaf.level with
    | 1 => some ((leaf.entry &&& pteAddress) + virtualAddr % 2 ^ 12)
    | 2 => some ((leaf.entry &&& 0x000FFFFFFFE00000) + virtualAddr % 2 ^ 21)
    | 3 => some ((leaf.entry &&& 0x000FFFFFC0000000) + virtualAddr % 2 ^ 30)
    | _ => none

/-- Tables as the processor accepts them: a tree, with the reserved bit of the root clear. -/
structure WellFormedTables (offset : Nat) (paging : Paging) : Prop where
  tree : PageTree offset paging
  reserved : ∀ index < 512, (entryAt paging.memory (rootTable offset paging) index).testBit 7 = false

/-- What is asked of the two functions at an address: `is_page_mapped` agrees with
the processor, and a mapping writes nothing but tables and moves no other page. -/
def Respects (offset : Nat) (paging : Paging) (virtualAddr : Nat) : Prop :=
  (isPageMapped offset paging virtualAddr = true ↔ (translate offset paging virtualAddr).isSome) ∧
    ∀ physicalAddr flags after, flags < 2 ^ 64 →
      pagingMapPage offset paging virtualAddr physicalAddr flags = .ok after →
      (∀ address, after.memory address ≠ paging.memory address → InTable offset after address) ∧
        ∀ other, ¬SamePage virtualAddr other → translate offset after other = translate offset paging other

theorem translate_eq (offset : Nat) (paging : Paging) (virtualAddr : Nat) :
    translate offset paging virtualAddr = leafAddress (walkOf offset paging virtualAddr) virtualAddr := by
  simp only [translate, hardwareWalk, walkOf, pathOf, walk]
  generalize rootTable offset paging = root
  have target : ∀ entry, pageFormat.target entry = entry &&& pteAddress := fun _ => rfl
  have present : ∀ entry, pageFormat.present entry = entry.testBit 0 := fun _ => rfl
  have links : ∀ entry, pageFormat.links entry = (entry.testBit 0 && !entry.testBit 7) := fun _ => rfl
  simp only [target, present, links]
  generalize entryAt paging.memory root (pml4Index virtualAddr) = pml4e
  generalize entryAt paging.memory (pml4e &&& pteAddress) (pdpIndex virtualAddr) = pdpte
  generalize entryAt paging.memory (pdpte &&& pteAddress) (pdIndex virtualAddr) = pde
  generalize entryAt paging.memory (pde &&& pteAddress) (ptIndex virtualAddr) = pte
  cases used4 : pml4e.testBit 0 with
  | false => simp [leafAddress]
  | true =>
    cases large4 : pml4e.testBit 7 with
    | true => simp [leafAddress, used4]
    | false =>
      cases used3 : pdpte.testBit 0 with
      | false => simp [leafAddress]
      | true =>
        cases large3 : pdpte.testBit 7 with
        | true => simp [leafAddress, used3]
        | false =>
          cases used2 : pde.testBit 0 with
          | false => simp [leafAddress]
          | true =>
            cases large2 : pde.testBit 7 with
            | true => simp [leafAddress, used2]
            | false => simp [leafAddress]

/-- Without a large page on its path an address is treated as it should be. -/
theorem NoLargePage.respects {offset virtualAddr : Nat} {paging : Paging} (plain : NoLargePage offset paging virtualAddr)
    (tree : PageTree offset paging) : Respects offset paging virtualAddr := by
  constructor
  · rw [isPageMapped_eq tree plain, translate_eq]
    have level : (walkOf offset paging virtualAddr).level = 1 := plain
    simp only [leafAddress, level, pageFormat]
    cases (walkOf offset paging virtualAddr).entry.testBit 0 <;> simp
  · intro physicalAddr flags after fits result
    obtain ⟨middle, table, tree', growth, -, found, rfl⟩ := pagingMapPage_tables tree plain result
    refine ⟨fun address changed => ?_, fun other differ => ?_⟩
    · by_cases written : (writeEntry middle table virtualAddr ((physicalAddr &&& pteAddress) ||| flags)).memory address =
          middle.memory address
      · rw [written] at changed
        obtain ⟨path, place, valid, reached, low, high⟩ := growth.frame address changed
        exact ⟨path, place, valid, (writeEntry_tables tree' found _ valid).trans reached, low, high⟩
      · exact writeEntry_frame tree' found _ written
    · rw [translate_eq, translate_eq, writeEntry_walk_other tree' found _ differ, growth.walks]

/-- A mapping over present entries, large or not, writes one entry. -/
theorem nextTable_follow (offset : Nat) {table index : Nat} {paging : Paging} (low : table < 2 ^ 52) (small : index < 512)
    (used : pageFormat.present (entryAt paging.memory table index) = true) (message : String) :
    nextTable offset paging (u64 (table + offset)) index message =
      .ok (u64 ((entryAt paging.memory table index &&& pteAddress) + offset), paging) := by
  simp only [nextTable, entries_pointer _ low small, present_iff, used, Bool.true_eq_false, if_false]
  rfl

theorem pagingMapPage_loose {offset virtualAddr table : Nat} {paging : Paging} (tree : PageTree offset paging)
    (found : tableAt looseFormat paging.memory (rootTable offset paging) (tablePathOf virtualAddr) = some table)
    (physicalAddr flags : Nat) :
    pagingMapPage offset paging virtualAddr physicalAddr flags =
      .ok (writeEntry paging table virtualAddr ((physicalAddr &&& pteAddress) ||| flags)) ∧
      table % pageSize = 0 ∧ table < 2 ^ 52 := by
  have small : ∀ index ∈ pathOf virtualAddr, index < 512 := (pathOf_small virtualAddr).small
  have follow : ∀ entry, looseFormat.target entry = entry &&& pteAddress := fun _ => rfl
  simp only [tablePathOf, tableAt, loose_links, follow] at found
  split at found
  next used4 =>
    split at found
    next used3 =>
      split at found
      next used2 =>
        cases found
        refine ⟨?_, target_aligned _, target_lt _⟩
        have level4 := nextTable_follow offset tree.root_lt (small _ (by simp [pathOf])) used4 "Could not allocate PDPT!"
        have level3 := nextTable_follow offset (target_lt _) (small _ (by simp [pathOf])) used3 "Could not allocate PD!"
        have level2 := nextTable_follow offset (target_lt _) (small _ (by simp [pathOf])) used2 "Could not allocate PT!"
        rw [rootTable_pointer offset tree.pointer] at level4
        simp only [pagingMapPage, bind, Except.bind, level4, level3, level2]
        rw [setEntries_pointer _ _ (target_lt _) (ptIndex_small virtualAddr)]
        rfl
      next => cases found
    next => cases found
  next => cases found

section Garbage
variable {offset virtualAddr table : Nat} {paging : Paging}

/-- Any value can be written over the entry that the software takes for the last one. -/
theorem Respects.write (respects : Respects offset paging virtualAddr) (tree : PageTree offset paging)
    (found : tableAt looseFormat paging.memory (rootTable offset paging) (tablePathOf virtualAddr) = some table)
    (value : Nat) (fits : value < 2 ^ 64) :
    (∀ address, (writeEntry paging table virtualAddr value).memory address ≠ paging.memory address →
      InTable offset (writeEntry paging table virtualAddr value) address) ∧
    ∀ other, ¬SamePage virtualAddr other →
      translate offset (writeEntry paging table virtualAddr value) other = translate offset paging other := by
  obtain ⟨result, _, _⟩ := pagingMapPage_loose tree found 0 value
  rw [Nat.zero_and, Nat.zero_or] at result
  exact respects.2 0 value _ fits result

/-- If the frame is no table, the write that changes it is seen. -/
theorem not_respects_data (tree : PageTree offset paging)
    (found : tableAt looseFormat paging.memory (rootTable offset paging) (tablePathOf virtualAddr) = some table)
    (data : ∀ path, TablePath path → tableOf offset paging path ≠ some table) :
    ¬Respects offset paging virtualAddr := by
  intro respects
  obtain ⟨_, aligned, low⟩ := pagingMapPage_loose tree found 0 0
  have small := ptIndex_small virtualAddr
  have away : ∀ path place, TablePath path → tableOf offset paging path = some place →
      place + pageSize ≤ table ∨ table + pageSize ≤ place := by
    intro path place valid reached
    have differ : place ≠ table := fun same => data path valid (same ▸ reached)
    have other := (tree.bounds valid reached).1
    simp only [pageSize] at *
    omega
  obtain ⟨value, fits, differs⟩ : ∃ value < 2 ^ 64, value ≠ entryAt paging.memory table (ptIndex virtualAddr) := by
    by_cases zero : entryAt paging.memory table (ptIndex virtualAddr) = 0
    · exact ⟨1, by decide, by omega⟩
    · exact ⟨0, by decide, fun same => zero same.symm⟩
  have kept : ∀ path, TablePath path →
      tableOf offset (writeEntry paging table virtualAddr value) path = tableOf offset paging path := by
    intro path valid
    refine SameEntries.tableAt fun first index rest place split reached => load_store_apart _ ?_
    have inside : TablePath first := (split ▸ valid).left
    have apart := away first place inside reached
    have bound : index < 512 := valid.small index (by simp [split])
    simp only [pageSize] at apart
    omega
  obtain ⟨address, low', high', changed⟩ : ∃ address, table + 8 * ptIndex virtualAddr ≤ address ∧
      address < table + 8 * ptIndex virtualAddr + 8 ∧
      (writeEntry paging table virtualAddr value).memory address ≠ paging.memory address := by
    by_contra none
    have same : Agree (writeEntry paging table virtualAddr value).memory paging.memory
        (table + 8 * ptIndex virtualAddr) 8 := fun address low high => by
      by_contra changed
      exact none ⟨address, low, high, changed⟩
    have loaded := load_agree same
    rw [writeEntry, load_store_fits _ fits] at loaded
    exact differs loaded
  obtain ⟨path, place, valid, reached, below, above⟩ := (respects.write tree found value fits).1 address changed
  rw [kept path valid] at reached
  have apart := away path place valid reached
  simp only [pageSize] at apart above
  omega

/-- An address with four given indices. -/
theorem pathOf_surj {index4 index3 index2 index1 : Nat} (small4 : index4 < 512) (small3 : index3 < 512)
    (small2 : index2 < 512) (small1 : index1 < 512) : ∃ other, pathOf other = [index4, index3, index2, index1] := by
  refine ⟨index4 * 2 ^ 39 + index3 * 2 ^ 30 + index2 * 2 ^ 21 + index1 * 2 ^ 12, ?_⟩
  simp only [pathOf, pml4Index, pdpIndex, pdIndex, ptIndex, index_eq, List.cons.injEq, and_true]
  omega

theorem pathOf_page {first second : Nat} (same : SamePage first second) : pathOf first = pathOf second := by
  simp only [SamePage, Nat.shiftRight_eq_div_pow] at same
  simp only [pathOf, pml4Index, pdpIndex, pdIndex, ptIndex, index_eq, List.cons.injEq, and_true]
  omega

theorem leafAddress_isSome {leaf : Leaf} (level : leaf.level = 1 ∨ leaf.level = 2 ∨ leaf.level = 3)
    (used : leaf.entry.testBit 0 = true) (virtualAddr : Nat) : (leafAddress leaf virtualAddr).isSome := by
  unfold leafAddress
  rcases level with level | level | level <;> simp [level, used]

/-- Above the last level and below the root a walk ends at a large page. -/
theorem WellFormedTables.large_leaf (wellFormed : WellFormedTables offset paging)
    (large : ¬NoLargePage offset paging virtualAddr) :
    ((walkOf offset paging virtualAddr).level = 2 ∨ (walkOf offset paging virtualAddr).level = 3) ∧
      (walkOf offset paging virtualAddr).entry.testBit 0 = true ∧
      pageFormat.links (entryAt paging.memory (rootTable offset paging) (pml4Index virtualAddr)) = true := by
  have clear := wellFormed.reserved (pml4Index virtualAddr) ((pathOf_small virtualAddr).small _ (by simp [pathOf]))
  simp only [NoLargePage, walkOf, pathOf, walk] at large ⊢
  have present : ∀ entry, pageFormat.present entry = entry.testBit 0 := fun _ => rfl
  have links : ∀ entry, pageFormat.links entry = (entry.testBit 0 && !entry.testBit 7) := fun _ => rfl
  simp only [links, present, clear] at large ⊢
  generalize entryAt paging.memory (rootTable offset paging) (pml4Index virtualAddr) = pml4e at *
  generalize entryAt paging.memory (pageFormat.target pml4e) (pdpIndex virtualAddr) = pdpte at *
  generalize entryAt paging.memory (pageFormat.target pdpte) (pdIndex virtualAddr) = pde at *
  cases used4 : pml4e.testBit 0 with
  | false => simp [used4] at large
  | true =>
    cases used3 : pdpte.testBit 0 with
    | false => simp [used4, used3] at large
    | true =>
      cases large3 : pdpte.testBit 7 with
      | true => simp [used3]
      | false =>
        cases used2 : pde.testBit 0 with
        | false => simp [used4, used3, large3, used2] at large
        | true =>
          cases large2 : pde.testBit 7 with
          | true => simp [used2]
          | false => simp [used4, used3, large3, used2, large2] at large

section Table
variable {path tail : List Nat} {other : Nat} (tree : PageTree offset paging) (valid : TablePath path)
  (reached : tableOf offset paging path = some table)
  (through : pathOf other = path ++ ptIndex virtualAddr :: tail)
include tree valid reached through

/-- A walk through the overwritten entry, from the table that holds it. -/
theorem overwritten_walk (value : Nat) :
    walkOf offset (writeEntry paging table virtualAddr value) other =
      walk pageFormat (writeEntry paging table virtualAddr value).memory table (ptIndex virtualAddr :: tail) := by
  have untouched := tree.radix.store_untouched valid (ptIndex_small virtualAddr) reached value
  have kept : tableAt pageFormat (writeEntry paging table virtualAddr value).memory (rootTable offset paging) path =
      some table := by
    rw [← reached]
    refine (untouched.sameEntries ⟨Nat.le_succ_of_le valid.short, valid.small⟩ ?_).tableAt
    intro longer
    have length := longer.length_le
    simp only [List.length_append, List.length_singleton] at length
    omega
  rw [walkOf, through]
  exact walk_append kept (List.cons_ne_nil _ _)

/-- With the entry cleared nothing is mapped through it. -/
theorem overwritten_clear : translate offset (writeEntry paging table virtualAddr 0) other = none := by
  have entry : entryAt (writeEntry paging table virtualAddr 0).memory table (ptIndex virtualAddr) = 0 :=
    load_store_fits _ (by decide)
  rw [translate_eq, overwritten_walk tree valid reached through 0]
  cases tail with
  | nil => simp only [walk, entry]; rfl
  | cons next rest =>
    have stops : pageFormat.links 0 = false := by decide
    have absent : pageFormat.present 0 = false := by decide
    simp only [walk, entry, stops, absent, Bool.false_eq_true, if_false]
    rfl

/-- With a large page in the entry everything is mapped through it. -/
theorem overwritten_large (short : tail.length ≤ 2) :
    (translate offset (writeEntry paging table virtualAddr 0x81) other).isSome := by
  have entry : entryAt (writeEntry paging table virtualAddr 0x81).memory table (ptIndex virtualAddr) = 0x81 :=
    load_store_fits _ (by decide)
  have stops : pageFormat.links 0x81 = false := by decide
  have used : pageFormat.present 0x81 = true := by decide
  rw [translate_eq, overwritten_walk tree valid reached through 0x81]
  cases tail with
  | nil => exact leafAddress_isSome (Or.inl rfl) (by rw [walk, entry]; decide) other
  | cons next rest =>
    simp only [walk, entry, stops, Bool.false_eq_true, if_false, used, if_true]
    simp only [List.length_cons] at short
    refine leafAddress_isSome ?_ (show Nat.testBit 0x81 0 = true by decide) other
    dsimp only
    omega

/-- If another page is translated through the entry, the write is seen. -/
theorem not_respects_through
    (found : tableAt looseFormat paging.memory (rootTable offset paging) (tablePathOf virtualAddr) = some table)
    (short : tail.length ≤ 2) (differ : ¬SamePage virtualAddr other) : ¬Respects offset paging virtualAddr := by
  intro respects
  cases before : translate offset paging other with
  | some address =>
    have same := (respects.write tree found 0 (by decide)).2 other differ
    rw [overwritten_clear tree valid reached through, before] at same
    cases same
  | none =>
    have same := (respects.write tree found 0x81 (by decide)).2 other differ
    have mapped := overwritten_large tree valid reached through short
    rw [same, before] at mapped
    cases mapped

end Table

end Garbage

/-- A root entry made equal to another shares the tables below it. -/
theorem overwritten_shared {offset virtualAddr other slot shared : Nat} {paging : Paging} (tree : PageTree offset paging)
    (entry : entryAt paging.memory (rootTable offset paging) (pml4Index virtualAddr) = shared)
    (links : pageFormat.links shared = true)
    (through : pathOf other = [ptIndex virtualAddr, pdpIndex virtualAddr, pdIndex virtualAddr, slot]) :
    walkOf offset (writeEntry paging (rootTable offset paging) virtualAddr shared) other =
      walk pageFormat paging.memory (rootTable offset paging) (tablePathOf virtualAddr ++ [slot]) := by
  have valid : TablePath [] := ⟨Nat.zero_le 3, fun _ member => by cases member⟩
  have small := (pathOf_small virtualAddr).small
  have untouched := tree.radix.store_untouched valid (ptIndex_small virtualAddr) rfl shared
  have fits : shared < 2 ^ 64 := entry ▸ entryAt_lt _ _ _
  have written : entryAt (writeEntry paging (rootTable offset paging) virtualAddr shared).memory
      (rootTable offset paging) (ptIndex virtualAddr) = shared := load_store_fits _ fits
  have linked : tableAt pageFormat paging.memory (rootTable offset paging) [pml4Index virtualAddr] =
      some (pageFormat.target shared) := by
    rw [tableAt, entry, if_pos links]
    rfl
  have kept : SameEntries pageFormat paging.memory
      (writeEntry paging (rootTable offset paging) virtualAddr shared).memory (pageFormat.target shared)
      [pdpIndex virtualAddr, pdIndex virtualAddr, slot] := by
    intro first index rest place split reached
    have path := (pathOf_small other).small
    rw [through, split] at path
    have length := congrArg List.length split
    simp only [List.length_cons, List.length_nil, List.length_append] at length
    refine untouched (pml4Index virtualAddr :: first) index place ⟨?_, ?_⟩ (path index (by simp)) ?_
      (Or.inl (List.cons_ne_nil _ _))
    · simp only [List.length_cons]
      omega
    · intro member inside
      rcases List.mem_cons.mp inside with rfl | inside
      · exact small _ (by simp [pathOf])
      · exact path member (by simp [inside])
    · rw [tableAt, entry, if_pos links]
      exact reached
  rw [overwritten_walk tree valid rfl through, walk, written, if_pos links, kept.walk]
  exact (walk_append linked (List.cons_ne_nil _ _)).symm

/-- Some slot of the last level belongs to another page. -/
theorem other_slot (virtualAddr : Nat) : ∃ slot < 512, slot ≠ ptIndex virtualAddr := by
  by_cases zero : ptIndex virtualAddr = 0
  · exact ⟨1, by decide, by omega⟩
  · exact ⟨0, by decide, fun same => zero same.symm⟩

/-- A page with another last index is another page. -/
theorem other_page {virtualAddr other index4 index3 index2 slot : Nat}
    (through : pathOf other = [index4, index3, index2, slot]) (fresh : slot ≠ ptIndex virtualAddr) :
    ¬SamePage virtualAddr other := by
  intro same
  have paths := (pathOf_page same).trans through
  simp only [pathOf, List.cons.injEq, and_true] at paths
  exact fresh paths.2.2.2.symm

/-- In the root table: an unused entry can be made to share the tables of another. -/
theorem not_respects_root {offset virtualAddr : Nat} {paging : Paging} (wellFormed : WellFormedTables offset paging)
    (large : ¬NoLargePage offset paging virtualAddr)
    (found : tableAt looseFormat paging.memory (rootTable offset paging) (tablePathOf virtualAddr) =
      some (rootTable offset paging)) : ¬Respects offset paging virtualAddr := by
  intro respects
  have tree := wellFormed.tree
  have small : ∀ index ∈ pathOf virtualAddr, index < 512 := (pathOf_small virtualAddr).small
  have valid : TablePath [] := ⟨Nat.zero_le 3, fun _ member => by cases member⟩
  obtain ⟨slot, small1, fresh⟩ := other_slot virtualAddr
  obtain ⟨other, through⟩ := pathOf_surj (ptIndex_small virtualAddr) (small (pdpIndex virtualAddr) (by simp [pathOf]))
    (small (pdIndex virtualAddr) (by simp [pathOf])) small1
  have differ : ¬SamePage virtualAddr other := other_page through fresh
  cases before : translate offset paging other with
  | some address =>
    have same := (respects.write tree found 0 (by decide)).2 other differ
    rw [overwritten_clear tree valid rfl through, before] at same
    cases same
  | none =>
    obtain ⟨level, used, links⟩ := wellFormed.large_leaf large
    have above : walk pageFormat paging.memory (rootTable offset paging) (tablePathOf virtualAddr ++ [slot]) =
        walkOf offset paging virtualAddr := walk_above large
    have fits := entryAt_lt paging.memory (rootTable offset paging) (pml4Index virtualAddr)
    have same := (respects.write tree found _ fits).2 other differ
    rw [translate_eq, overwritten_shared tree rfl links through, above, before] at same
    have mapped := leafAddress_isSome (Or.inr level) used other
    rw [same] at mapped
    cases mapped

/-- A large page on the path of an address is always mistreated: the processor
translates it, and if the software agrees, some mapping does damage. -/
theorem not_respects_large {offset virtualAddr : Nat} {paging : Paging} (wellFormed : WellFormedTables offset paging)
    (large : ¬NoLargePage offset paging virtualAddr) : ¬Respects offset paging virtualAddr := by
  intro respects
  have tree := wellFormed.tree
  have small := ptIndex_small virtualAddr
  obtain ⟨level, used, _⟩ := wellFormed.large_leaf large
  have mapped : isPageMapped offset paging virtualAddr = true := by
    rw [respects.1, translate_eq]
    exact leafAddress_isSome (Or.inr level) used virtualAddr
  rw [isPageMapped_loose tree.pointer tree.root_lt] at mapped
  cases found : tableAt looseFormat paging.memory (rootTable offset paging) (tablePathOf virtualAddr) with
  | none =>
    rw [found] at mapped
    cases mapped
  | some table =>
    by_cases data : ∀ path, TablePath path → tableOf offset paging path ≠ some table
    · exact not_respects_data tree found data respects
    · push Not at data
      obtain ⟨path, valid, reached⟩ := data
      obtain ⟨slot, small1, fresh⟩ := other_slot virtualAddr
      have short := valid.short
      -- The frame is a table: which pages lie below the entry depends on its level.
      match path, valid, reached, short with
      | [], _, reached, _ =>
        cases reached
        exact not_respects_root wellFormed large found respects
      | [index4], valid, reached, _ =>
        obtain ⟨other, through⟩ := pathOf_surj (valid.small index4 (by simp)) small (by decide : 0 < 512) small1
        exact not_respects_through tree valid reached through found (by simp) (other_page through fresh) respects
      | [index4, index3], valid, reached, _ =>
        obtain ⟨other, through⟩ := pathOf_surj (valid.small index4 (by simp)) (valid.small index3 (by simp)) small small1
        exact not_respects_through tree valid reached through found (by simp) (other_page through fresh) respects
      | [index4, index3, index2], valid, reached, _ =>
        obtain ⟨other, through⟩ := pathOf_surj (valid.small index4 (by simp)) (valid.small index3 (by simp))
          (valid.small index2 (by simp)) small
        refine not_respects_through tree valid reached through found (by simp) (fun same => ?_) respects
        have paths : tablePathOf virtualAddr ++ [ptIndex virtualAddr] =
          [index4, index3, index2] ++ [ptIndex virtualAddr] :=
          (pathOf_page same).trans through
        have onPath : tablePathOf virtualAddr = [index4, index3, index2] := List.append_inj_left' paths rfl
        refine large ?_
        rw [← onPath] at reached
        rw [NoLargePage, walkOf, show pathOf virtualAddr = tablePathOf virtualAddr ++ [ptIndex virtualAddr] from rfl,
          walk_append reached (List.cons_ne_nil _ _)]
        rfl

/-- `is_page_mapped` and `paging_map_page` treat an address as the processor does
exactly when no large page lies on its path. -/
theorem respects_iff_no_large_page {offset : Nat} {paging : Paging} (wellFormed : WellFormedTables offset paging)
    (virtualAddr : Nat) : Respects offset paging virtualAddr ↔ NoLargePage offset paging virtualAddr := by
  constructor
  · intro respects
    by_contra large
    exact not_respects_large wellFormed large respects
  · exact fun plain => plain.respects wellFormed.tree

theorem respects_bareTables : Respects heapStart bareTables 0x400000 :=
  (respects_iff_no_large_page ⟨bareTables_tree, fun index _ => by rw [bareTables_entry]; decide⟩ 0x400000).mpr
    (bareTables_plain 0x400000)

/-- A root entry that leads to one large page of a gigabyte at physical address zero. -/
def largeTables : Paging :=
  { bareTables with memory := store (store (fun _ => 0) 0x1000 8 0x2003) 0x2000 8 0x83 }

private theorem largeTables_root {index : Nat} (small : index < 512) :
    entryAt largeTables.memory 0x1000 index = if index = 0 then 0x2003 else 0 := by
  have apart : entryAt largeTables.memory 0x1000 index = entryAt (store (fun _ => 0) 0x1000 8 0x2003) 0x1000 index :=
    load_store_apart _ (by omega)
  rw [apart]
  split
  next zero =>
    subst zero
    exact load_store_fits _ (by decide)
  next other => exact (load_store_apart _ (by omega)).trans (bareTables_entry 0x1000 index)

private theorem largeTables_page {index : Nat} (small : index < 512) :
    entryAt largeTables.memory 0x2000 index = if index = 0 then 0x83 else 0 := by
  split
  next zero =>
    subst zero
    exact load_store_fits _ (by decide)
  next other =>
    have apart : entryAt largeTables.memory 0x2000 index = entryAt (store (fun _ => 0) 0x1000 8 0x2003) 0x2000 index :=
      load_store_apart _ (by omega)
    rw [apart]
    exact (load_store_apart _ (by omega)).trans (bareTables_entry 0x2000 index)

private theorem largeTables_tables {path : List Nat} {table : Nat} (valid : TablePath path)
    (found : tableOf heapStart largeTables path = some table) :
    path = [] ∧ table = 0x1000 ∨ path = [0] ∧ table = 0x2000 := by
  have root : rootTable heapStart largeTables = 0x1000 := by decide
  have stops : pageFormat.links 0 = false := by decide
  have large : pageFormat.links 0x83 = false := by decide
  cases path with
  | nil => exact Or.inl ⟨rfl, (Option.some.inj found).symm.trans root⟩
  | cons index rest =>
    have small : index < 512 := valid.small index List.mem_cons_self
    rw [tableOf, root, tableAt, largeTables_root small] at found
    by_cases zero : index = 0
    · rw [if_pos zero, if_pos (by decide), show pageFormat.target 0x2003 = 0x2000 by decide] at found
      cases rest with
      | nil => exact Or.inr ⟨by rw [zero], (Option.some.inj found).symm⟩
      | cons slot others =>
        have small' : slot < 512 := valid.small slot (by simp)
        rw [tableAt, largeTables_page small'] at found
        split at found <;> simp_all
    · rw [if_neg zero, stops] at found
      cases found

private theorem largeTables_wellFormed : WellFormedTables heapStart largeTables := by
  have root : rootTable heapStart largeTables = 0x1000 := by decide
  refine ⟨⟨by decide, by decide, by decide, ?_, ?_⟩, ?_⟩
  · intro first second left right one two found found' same
    rcases largeTables_tables one found with ⟨rfl, rfl⟩ | ⟨rfl, rfl⟩ <;>
      rcases largeTables_tables two found' with ⟨rfl, rfl⟩ | ⟨rfl, rfl⟩
    · rfl
    · exact absurd same (by decide)
    · exact absurd same (by decide)
    · rfl
  · intro path table valid found
    rcases largeTables_tables valid found with ⟨_, rfl⟩ | ⟨_, rfl⟩
    · exact ⟨by decide, by decide⟩
    · exact ⟨by decide, by decide⟩
  · intro index small
    rw [root, largeTables_root small]
    split <;> decide

/-- A well-formed state in which the processor translates address 0 and
`is_page_mapped` denies it, having read the gigabyte as a table. -/
theorem large_page_misread : WellFormedTables heapStart largeTables ∧ translate heapStart largeTables 0 = some 0 ∧
    isPageMapped heapStart largeTables 0 = false ∧ ¬Respects heapStart largeTables 0 := by
  have translated : translate heapStart largeTables 0 = some 0 := by decide
  have unmapped : isPageMapped heapStart largeTables 0 = false := by decide
  refine ⟨largeTables_wellFormed, translated, unmapped, fun respects => ?_⟩
  have agrees := respects.1
  rw [translated, unmapped] at agrees
  exact absurd (agrees.mpr rfl) (by decide)

end Kernix.Proofs
