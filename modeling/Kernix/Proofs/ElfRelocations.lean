import Kernix.Proofs.HeapAccounting
import Kernix.Memory.Heap
import Kernix.Modules.ElfLoader
import Mathlib.Algebra.Order.BigOperators.Group.List

/-! The image that the loader leaves, and the rules of the ELF format for it. The blocks of
the heap lie above the addresses of 32 bits, so no relocation comes near the sections. The
addresses that the kernel exports are a parameter: whatever they are, the image stays as the
file has it. -/

namespace Kernix.Proofs
open ByteMemory HeapBlock KernelMemory

section Images

/-- Where a block of the kernel heap lies. -/
structure FromHeap (base size : Nat) : Prop where
  low : heapStart ≤ base
  high : base + size ≤ heapStart + heapSize

/-- Where the sections in front of one end. -/
def sectionOffset (shdrs : List Elf32Shdr) (index : Nat) : Nat := totalSizeOf (shdrs.take index)

variable {file : List UInt8} {heap : ElfHeap} {memory after : Memory} {loaded : ElfModule} {base size : Nat}
  {tables : ElfTables} {shdrs : List Elf32Shdr} {section_ : Elf32Shdr}

section Block

theorem FromHeap.u32_add (inside : FromHeap base size) {offset : Nat} (within : offset ≤ size) :
    u32 (base + offset) = u32 base + offset := by
  have low := inside.low
  have high := inside.high
  have start : heapStart = 2 ^ 32 * 4294934528 := rfl
  have width : heapSize = 33554432 := rfl
  unfold u32
  omega

theorem FromHeap.u32_fits (inside : FromHeap base size) : u32 base + size < 2 ^ 32 := by
  have low := inside.low
  have high := inside.high
  have start : heapStart = 2 ^ 32 * 4294934528 := rfl
  have width : heapSize = 33554432 := rfl
  unfold u32
  omega

/-- A word of the block is above the addresses of 32 bits. -/
theorem FromHeap.target (inside : FromHeap base size) {offset : Nat} (within : offset ≤ size) :
    2 ^ 32 ≤ u64 (base + offset) := by
  have low := inside.low
  have high := inside.high
  have start : heapStart = 18446603336221196288 := rfl
  have width : heapSize = 33554432 := rfl
  unfold u64
  omega

end Block

section Relocations

/-- Two memories have the same bytes at the addresses of 32 bits. -/
abbrev SameLow (first second : Memory) : Prop := Agree first second 0 (2 ^ 32)

theorem relocate_low (inside : FromHeap tables.moduleBase tables.moduleSize) {rel : Elf32Rel}
    (result : relocate tables memory rel = .ok (some after)) : SameLow after memory := by
  unfold relocate at result
  dsimp only at result
  split at result
  · cases result
  split at result
  · cases result
  split at result
  · split at result
    · cases result
    next within =>
      have high := inside.target (by omega : rel.rOffset ≤ tables.moduleSize)
      split at result
      all_goals
        cases result
        exact store_agree memory (.inl (by omega))
  · cases result

theorem relocateSection_low (inside : FromHeap tables.moduleBase tables.moduleSize) {relNum address : Nat}
    (result : relocateSection tables relNum address memory = .ok (some after)) : SameLow after memory := by
  induction relNum generalizing address memory with
  | zero =>
    cases result
    exact fun _ _ _ => rfl
  | succ relNum ih =>
    unfold relocateSection at result
    split at result
    next middle turn => exact (ih result).trans (relocate_low inside turn)
    next other failed => exact absurd result (failed after)

theorem relocateSections_low (inside : FromHeap tables.moduleBase tables.moduleSize)
    (result : relocateSections tables shdrs memory = .ok (some after)) : SameLow after memory := by
  induction shdrs generalizing memory with
  | nil =>
    cases result
    exact fun _ _ _ => rfl
  | cons section_ rest ih =>
    unfold relocateSections at result
    split at result
    next middle turn => exact (ih result).trans (relocateSection_low inside turn)
    next other failed => exact absurd result (failed after)

theorem elfLink_low (inside : FromHeap base size) (result : elfLink heap base size shdrs memory = .ok (some after)) :
    SameLow after memory := by
  unfold elfLink at result
  dsimp only at result
  split at result
  · cases result
  split at result
  · cases result
    exact fun _ _ _ => rfl
  next symtab _ =>
    split at result
    · cases result
      exact fun _ _ _ => rfl
    unfold elfResolveSymbols at result
    split at result
    · cases result
    split at result
    · cases result
    split at result
    · cases result
    · exact relocateSections_low inside result

end Relocations

section Sections

theorem totalSizeOf_cons (section_ : Elf32Shdr) (rest : List Elf32Shdr) :
    totalSizeOf (section_ :: rest) = (if section_.isAlloc then section_.shSize else 0) + totalSizeOf rest := by
  unfold totalSizeOf
  rw [List.filter_cons]
  split
  · rw [List.map_cons, List.sum_cons]
  · rw [Nat.zero_add]

theorem readFileAt_outside (file : List UInt8) (memory : Memory) {address offset size position : Nat}
    (outside : position < address ∨ address + size ≤ position) :
    readFileAt file memory address offset size position = memory position := by
  apply copy_confined
  omega

theorem readFileAt_inside (file : List UInt8) (memory : Memory) {address offset size index : Nat} (inside : index < size)
    (there : offset + index < file.length) :
    readFileAt file memory address offset size (address + index) = fileBytes file (offset + index) := by
  apply copy_inside
  omega

/-- What is read goes behind the addresses that were given out before. -/
theorem loadSections_below {address position : Nat} (before : position < address)
    (fits : address + totalSizeOf shdrs < 2 ^ 32) :
    (loadSections file shdrs address memory).2 position = memory position := by
  induction shdrs generalizing address memory with
  | nil => rfl
  | cons section_ rest ih =>
    rw [totalSizeOf_cons] at fits
    rw [loadSections]
    split
    next alloc =>
      rw [if_pos alloc] at fits
      have next : u32 (address + section_.shSize) = address + section_.shSize := Nat.mod_eq_of_lt (by omega)
      dsimp only
      rw [next, ih (by omega) (by omega), readFileAt_outside file memory (.inl before)]
    next skipped =>
      rw [if_neg skipped] at fits
      exact ih before (by omega)

/-- Each section to load is behind the ones before it. -/
theorem loadSections_at {address index position : Nat} (found : shdrs[index]? = some section_)
    (alloc : section_.isAlloc = true) (inside : position < section_.shSize)
    (there : section_.shOffset + position < file.length) (fits : address + totalSizeOf shdrs < 2 ^ 32) :
    (loadSections file shdrs address memory).2 (address + sectionOffset shdrs index + position) =
      fileBytes file (section_.shOffset + position) := by
  induction shdrs generalizing address index memory with
  | nil => cases found
  | cons first rest ih =>
    rw [totalSizeOf_cons] at fits
    rw [loadSections]
    cases index with
    | zero =>
      obtain rfl : first = section_ := Option.some.inj found
      rw [if_pos alloc] at fits
      have next : u32 (address + first.shSize) = address + first.shSize := Nat.mod_eq_of_lt (by omega)
      have here : address + sectionOffset (first :: rest) 0 + position = address + position := rfl
      rw [if_pos alloc, here]
      dsimp only
      rw [next, loadSections_below (by omega) (by omega)]
      exact readFileAt_inside file memory inside there
    | succ index =>
      rw [List.getElem?_cons_succ] at found
      have offset : sectionOffset (first :: rest) (index + 1) =
          (if first.isAlloc then first.shSize else 0) + sectionOffset rest index := by
        rw [sectionOffset, List.take_succ_cons, totalSizeOf_cons, sectionOffset]
      rw [offset]
      split
      next alloc =>
        rw [if_pos alloc] at fits
        have next : u32 (address + first.shSize) = address + first.shSize := Nat.mod_eq_of_lt (by omega)
        dsimp only
        rw [next, ← Nat.add_assoc]
        exact ih found (by omega)
      next skipped =>
        rw [if_neg skipped] at fits
        rw [Nat.zero_add]
        exact ih found (by omega)

theorem sectionOffset_le {index : Nat} (found : shdrs[index]? = some section_) (alloc : section_.isAlloc = true) :
    sectionOffset shdrs index + section_.shSize ≤ totalSizeOf shdrs := by
  induction shdrs generalizing index with
  | nil => cases found
  | cons first rest ih =>
    rw [totalSizeOf_cons]
    cases index with
    | zero =>
      obtain rfl : first = section_ := Option.some.inj found
      have none : sectionOffset (first :: rest) 0 = 0 := rfl
      rw [if_pos alloc, none]
      omega
    | succ index =>
      rw [List.getElem?_cons_succ] at found
      have rest := ih found
      rw [sectionOffset, List.take_succ_cons, totalSizeOf_cons]
      rw [sectionOffset] at rest
      omega

end Sections

end Images

/-- What `kmalloc` gives out for a request, in some heap that keeps its invariant. -/
def KmallocGives (size base : Nat) : Prop :=
  ∃ state blocks memory, AccountValid state blocks ∧ state.kernelMemory = heapStart ∧
    kernelMemoryAlloc state.memory state.kernelMemory size 1 = some (base, memory) ∧ base ≠ 0

/-- Where a section to load is put. -/
def loadAddress (file : List UInt8) (base index : Nat) : Nat := u32 (base + sectionOffset (shdrsOf file) index)

/-- One entry of a section with relocations of the file, with the section that it changes
and the symbols that it is about. -/
structure RelocationEntry (file : List UInt8) where
  rels : Elf32Shdr
  symtab : Elf32Shdr
  target : Elf32Shdr
  index : Nat
  table : rels ∈ shdrsOf file
  kind : rels.shType = shtRel
  symbols : (shdrsOf file)[rels.shLink]? = some symtab
  changed : (shdrsOf file)[rels.shInfo]? = some target
  alloc : target.isAlloc = true
  inFile : target.shOffset + target.shSize ≤ file.length
  listed : index < rels.shSize / elf32RelSize
  named : ((relAt (fileBytes file) (rels.shOffset + index * elf32RelSize)).rSym + 1) * elf32SymSize ≤ symtab.shSize
  inside : (relAt (fileBytes file) (rels.shOffset + index * elf32RelSize)).rOffset + 4 ≤ target.shSize

namespace RelocationEntry

variable {file : List UInt8} (entry : RelocationEntry file)

def rel : Elf32Rel := relAt (fileBytes file) (entry.rels.shOffset + entry.index * elf32RelSize)

def sym : Elf32Sym := symAt (fileBytes file) (entry.symtab.shOffset + entry.rel.rSym * elf32SymSize)

/-- P: the load address of the section that `sh_info` names, and `r_offset`. -/
def place (base : Nat) : Nat := loadAddress file base entry.rels.shInfo + entry.rel.rOffset

/-- A: what the file has in the word. -/
def addend : Nat := load (fileBytes file) (entry.target.shOffset + entry.rel.rOffset) 4

/-- S: the load address of the symbol's section and `st_value`, or what the kernel exports
under the symbol's name. -/
def symbolAddress (exported : Memory → Option Nat) (base : Nat) : Option Nat :=
  if entry.sym.stShndx = 0 then
    (shdrsOf file)[entry.symtab.shLink]?.bind fun strtab =>
      exported fun position => fileBytes file (strtab.shOffset + entry.sym.stName + position)
  else
    ((shdrsOf file)[entry.sym.stShndx]?.filter Elf32Shdr.isAlloc).map fun _ =>
      loadAddress file base entry.sym.stShndx + entry.sym.stValue

/-- A + S for `R_386_32` and A + S - P for `R_386_PC32`. -/
def value (exported : Memory → Option Nat) (base : Nat) : Option Nat :=
  (entry.symbolAddress exported base).bind fun address =>
    if entry.rel.rType = r38632 then some (u32 (entry.addend + address))
    else if entry.rel.rType = r386Pc32 then
      some (u32 (entry.addend + address + (2 ^ 32 - u32 (entry.place base))))
    else none

end RelocationEntry

/-- The address is in a word that the file relocates. -/
def Relocated (file : List UInt8) (base address : Nat) : Prop :=
  ∃ entry : RelocationEntry file, entry.place base ≤ address ∧ address < entry.place base + 4

/-- What the format asks of an image that was loaded. -/
structure ElfRight (exported : Memory → Option Nat) (file : List UInt8) (loaded : ElfModule) : Prop where
  relocated : ∀ (entry : RelocationEntry file) value, entry.value exported loaded.moduleBase = some value →
    load loaded.memory (entry.place loaded.moduleBase) 4 = value
  kept : ∀ index section_ position, (shdrsOf file)[index]? = some section_ → section_.isAlloc = true →
    position < section_.shSize → section_.shOffset + position < file.length →
    ¬Relocated file loaded.moduleBase (loadAddress file loaded.moduleBase index + position) →
    loaded.memory (loadAddress file loaded.moduleBase index + position) = fileBytes file (section_.shOffset + position)
  entry : u32 loaded.moduleBase ≤ loaded.entryPoint ∧ loaded.entryPoint < u32 loaded.moduleBase + loaded.moduleSize

/-- No relocation of the file changes its word, and the entry in the header is an address
of the image. -/
structure NothingToRelocate (exported : Memory → Option Nat) (file : List UInt8) (base : Nat) : Prop where
  words : ∀ (entry : RelocationEntry file) value, entry.value exported base = some value → value = entry.addend
  entry : u32 base ≤ (ehdrOf file).eEntry ∧ (ehdrOf file).eEntry < u32 base + totalSizeOf (shdrsOf file)

variable {file : List UInt8} {heap : ElfHeap} {memory : Memory} {loaded : ElfModule} {base size : Nat}

section Kmalloc

private theorem one_request (fits : size < 2 ^ 64) : u64 (1 * size) = size := by
  rw [Nat.one_mul]
  exact u64_eq fits

/-- A block of the kernel heap lies in its region. -/
theorem KmallocGives.fromHeap (given : KmallocGives size base) (small : size + 15 < 2 ^ 64) : FromHeap base size := by
  obtain ⟨state, blocks, memory, valid, place, result, nonzero⟩ := given
  have request : u64 (1 * size) = size := one_request (by omega)
  have rounded := le_roundUp small
  have alloc := valid.alloc size 1
  rw [request] at alloc
  rcases alloc fun _ _ fits => rounded.trans fits.2 with
    ⟨expected, _⟩ | ⟨pre, block, post, ptr, after, _, _, rfl, fits, expected, _, _, located, _⟩
  · cases result.symm.trans expected
    exact absurd rfl nonzero
  · cases result.symm.trans expected
    have extent := valid.heap.extent
    have room := fits.2
    have offset : kernelMemoryOffsetHeap + kernelMemorySizeHeap = heapSize := rfl
    rw [span_append, span_cons] at extent
    exact ⟨by omega, by omega⟩

theorem totalSizeOf_le {shdrs : List Elf32Shdr} (words : ∀ section_ ∈ shdrs, section_.shSize ≤ 2 ^ 32) :
    totalSizeOf shdrs ≤ shdrs.length * 2 ^ 32 := by
  have each : ∀ size ∈ (shdrs.filter Elf32Shdr.isAlloc).map Elf32Shdr.shSize, size ≤ 2 ^ 32 := by
    intro size member
    obtain ⟨section_, kept, rfl⟩ := List.mem_map.mp member
    exact words section_ (List.mem_of_mem_filter kept)
  have total := List.sum_le_card_nsmul _ _ each
  rw [List.length_map, Nat.nsmul_eq_mul] at total
  exact total.trans (Nat.mul_le_mul_right _ (List.length_filter_le _ _))

/-- A header counts its sections in sixteen bits and their bytes in thirty-two. -/
theorem totalSizeOf_fits (file : List UInt8) : totalSizeOf (shdrsOf file) + 15 < 2 ^ 64 := by
  have count : (ehdrOf file).eShnum < 256 ^ 2 := load_lt (fileBytes file) 48 2
  have total : totalSizeOf (shdrsOf file) ≤ (shdrsOf file).length * 2 ^ 32 := by
    apply totalSizeOf_le
    intro section_ member
    obtain ⟨index, _, rfl⟩ := List.mem_map.mp member
    exact Nat.le_of_lt (load_lt _ _ 4)
  have length : (shdrsOf file).length = (ehdrOf file).eShnum := by
    rw [shdrsOf, List.length_map, List.length_range]
  rw [length] at total
  omega

end Kmalloc

section Image

/-- What a load of a file leaves behind. -/
theorem elfLoadModule_some (accepted : elfLoadModule (some file) heap memory = .ok (some loaded)) :
    heap.base = some loaded.moduleBase ∧ loaded.moduleSize = totalSizeOf (shdrsOf file) ∧
      loaded.entryPoint = (ehdrOf file).eEntry ∧ ∃ shdrs read,
        loadSections file (shdrsOf file) (u32 loaded.moduleBase)
          (fill memory loaded.moduleBase (totalSizeOf (shdrsOf file)) 0) = (shdrs, read) ∧
        elfLink heap loaded.moduleBase (totalSizeOf (shdrsOf file)) shdrs read = .ok (some loaded.memory) := by
  unfold elfLoadModule at accepted
  dsimp only at accepted
  split at accepted
  · cases accepted
  split at accepted
  · cases accepted
  split at accepted
  · cases accepted
  split at accepted
  · cases accepted
  split at accepted
  · cases accepted
  split at accepted
  · cases accepted
  split at accepted
  · cases accepted
  next base block =>
    split at accepted
    · cases accepted
    split at accepted
    · cases accepted
    · cases accepted
    next linked =>
      cases accepted
      exact ⟨block, rfl, rfl, _, _, rfl, linked⟩

/-- The image is what the file has. -/
theorem loaded_image (given : KmallocGives (totalSizeOf (shdrsOf file)) loaded.moduleBase)
    (accepted : elfLoadModule (some file) heap memory = .ok (some loaded)) {index position : Nat} {section_ : Elf32Shdr}
    (found : (shdrsOf file)[index]? = some section_) (alloc : section_.isAlloc = true)
    (inside : position < section_.shSize) (there : section_.shOffset + position < file.length) :
    loaded.memory (loadAddress file loaded.moduleBase index + position) =
      fileBytes file (section_.shOffset + position) := by
  have block := given.fromHeap (totalSizeOf_fits file)
  have low := block.u32_fits
  have within := sectionOffset_le found alloc
  obtain ⟨_, _, _, shdrs, read, sections, linked⟩ := elfLoadModule_some accepted
  have address : loadAddress file loaded.moduleBase index = u32 loaded.moduleBase + sectionOffset (shdrsOf file) index :=
    block.u32_add (by omega)
  have same : loaded.memory (loadAddress file loaded.moduleBase index + position) =
      read (loadAddress file loaded.moduleBase index + position) := by
    apply elfLink_low block linked
    · exact Nat.zero_le _
    · omega
  have image : (loadSections file (shdrsOf file) (u32 loaded.moduleBase)
      (fill memory loaded.moduleBase (totalSizeOf (shdrsOf file)) 0)).2
        (u32 loaded.moduleBase + sectionOffset (shdrsOf file) index + position) =
      fileBytes file (section_.shOffset + position) := loadSections_at found alloc inside there low
  rw [same, address, ← image, sections]

theorem loaded_word (given : KmallocGives (totalSizeOf (shdrsOf file)) loaded.moduleBase)
    (accepted : elfLoadModule (some file) heap memory = .ok (some loaded)) (entry : RelocationEntry file) :
    load loaded.memory (entry.place loaded.moduleBase) 4 = entry.addend := by
  have fits := entry.inside
  have whole := entry.inFile
  apply load_moved
  intro offset inside
  rw [RelocationEntry.place, RelocationEntry.rel, Nat.add_assoc, Nat.add_assoc]
  exact loaded_image given accepted entry.changed entry.alloc (by omega) (by omega)

/-- The loader leaves every word as the file has it and hands on the entry of the header:
the image is right exactly when the file needs nothing else. -/
theorem elf_image_right_iff (exported : Memory → Option Nat) (block : heap.base = some base)
    (given : KmallocGives (totalSizeOf (shdrsOf file)) base)
    (accepted : elfLoadModule (some file) heap memory = .ok (some loaded)) :
    ElfRight exported file loaded ↔ NothingToRelocate exported file base := by
  obtain ⟨from_, total, entryPoint, _⟩ := elfLoadModule_some accepted
  obtain rfl : base = loaded.moduleBase := Option.some.inj (block.symm.trans from_)
  constructor
  · intro right
    refine ⟨fun entry value there => ?_, ?_⟩
    · exact (right.relocated entry value there).symm.trans (loaded_word given accepted entry)
    · have inside := right.entry
      rwa [entryPoint, total] at inside
  · intro nothing
    refine ⟨fun entry value there => ?_, ?_, ?_⟩
    · rw [nothing.words entry value there]
      exact loaded_word given accepted entry
    · intro index section_ position found alloc inside there _
      exact loaded_image given accepted found alloc inside there
    · rw [entryPoint, total]
      exact nothing.entry

/-- A file from its words. -/
def elfWords (words : List Nat) : List UInt8 :=
  words.flatMap fun word => (List.range 4).map fun byte => UInt8.ofNat (word / 256 ^ byte)

/-- The first block of a heap that was just laid out. -/
def firstBlock : Nat := heapStart + kernelMemoryOffsetHeap + 40

/-- A heap that refuses nothing. -/
def freshHeap : ElfHeap := ⟨true, true, some firstBlock, true, true⟩

theorem kmallocGives_first (asked : size ≠ 0) (small : size + 15 < 2 ^ 64) (fits : roundUp size ≤ heapTotal) :
    KmallocGives size firstBlock := by
  obtain ⟨memory, result, _⟩ := kernelMemoryInit_spec (fun _ => 0) (show 0 < heapStart by decide)
    (show headerSize ≤ heapSize by decide) (show heapStart + heapSize < 2 ^ 64 by decide)
  have valid : AccountValid ⟨memory, heapStart, []⟩ [⟨heapTotal, false⟩] :=
    (accountInitial_valid (by decide) ⟨_, _, result, rfl⟩).1
  have request : u64 (1 * size) = size := one_request (by omega)
  have alloc := valid.alloc size 1
  rw [request] at alloc
  rcases alloc fun _ _ large => (le_roundUp small).trans large.2 with
    ⟨_, full⟩ | ⟨pre, block, post, ptr, after, _, nonzero, split, _, given, _, _, located, _⟩
  · exact absurd ⟨rfl, fits⟩ (full asked _ (List.mem_singleton.mpr rfl))
  · have front : pre = [] := by
      cases pre with
      | nil => rfl
      | cons head rest => simp at split
    rw [front] at located
    rw [located] at given nonzero
    exact ⟨_, _, _, valid, rfl, given, nonzero⟩

private theorem accepted_of_isSome {result : Except Stop (Option ElfModule)}
    (there : result.toOption.join.isSome = true) :
    ∃ loaded, result = .ok (some loaded) := by
  rcases result with stop | none | loaded
  · cases there
  · cases there
  · exact ⟨loaded, rfl⟩

/-- An object of one word of text, which is also its string table, whose header has the
address that the word will get. -/
def plainObject : List UInt8 := elfWords
  [0x464C457F, 0, 0, 0, 0x30001, 1, 14688296, 0, 52, 0, 52, 0x280000, 0x10002,
    0, 0, 0, 0, 0, 0, 0, 0, 0, 0,
    0, 1, 6, 0, 132, 4, 0, 0, 4, 0,
    0x90909090]

theorem elf_image_right_plain : ∃ loaded, ElfRight (fun _ => none) plainObject loaded := by
  obtain ⟨loaded, accepted⟩ := accepted_of_isSome
    (show (elfLoadModule (some plainObject) freshHeap fun _ => 0).toOption.join.isSome = true by decide +kernel)
  have total : totalSizeOf (shdrsOf plainObject) = 4 := by decide +kernel
  have given : KmallocGives (totalSizeOf (shdrsOf plainObject)) firstBlock := by
    rw [total]
    exact kmallocGives_first (by decide) (by decide) (by decide)
  refine ⟨loaded, (elf_image_right_iff (fun _ => none) rfl given accepted).mpr ⟨fun entry => ?_, ?_⟩⟩
  · have absent : ∀ section_ ∈ shdrsOf plainObject, section_.shType ≠ shtRel := by decide +kernel
    exact absurd entry.kind (absent entry.rels entry.table)
  · decide +kernel

/-- An object of one word of text and one relocation, of the type `R_386_32`, which asks for
the address of the text. All of its tables are loaded. -/
def relocatedObject : List UInt8 := elfWords
  [0x464C457F, 0, 0, 0, 0x30001, 1, 0, 0, 52, 0, 52, 0x280000, 0x40005,
    0, 0, 0, 0, 0, 0, 0, 0, 0, 0,
    0, 1, 6, 0, 252, 4, 0, 0, 4, 0,
    0, 9, 2, 0, 256, 8, 3, 1, 4, 8,
    0, 2, 2, 0, 264, 32, 4, 0, 4, 16,
    0, 3, 2, 0, 296, 1, 0, 0, 1, 0,
    0,
    0, 0x101,
    0, 0, 0, 0, 0, 0, 0, 0x10000,
    0]

def textRelocation : RelocationEntry relocatedObject where
  rels := shdrAt (fileBytes relocatedObject) 132
  symtab := shdrAt (fileBytes relocatedObject) 172
  target := shdrAt (fileBytes relocatedObject) 92
  index := 0
  table := List.mem_of_getElem? (show (shdrsOf relocatedObject)[2]? = _ from rfl)
  kind := by decide +kernel
  symbols := rfl
  changed := rfl
  alloc := by decide +kernel
  inFile := by decide +kernel
  listed := by decide +kernel
  named := by decide +kernel
  inside := by decide +kernel

/-- The loader accepts the object, but the word keeps its zero, and the entry is no address
of the image. -/
theorem elf_image_wrong : ∃ heap memory loaded, KmallocGives (totalSizeOf (shdrsOf relocatedObject)) loaded.moduleBase ∧
    elfLoadModule (some relocatedObject) heap memory = .ok (some loaded) ∧
    textRelocation.value (fun _ => none) loaded.moduleBase = some 14688296 ∧
    load loaded.memory (textRelocation.place loaded.moduleBase) 4 = 0 ∧
    loaded.entryPoint < u32 loaded.moduleBase ∧ ¬ElfRight (fun _ => none) relocatedObject loaded := by
  obtain ⟨loaded, accepted⟩ := accepted_of_isSome
    (show (elfLoadModule (some relocatedObject) freshHeap fun _ => 0).toOption.join.isSome = true by decide +kernel)
  obtain ⟨block, _, entryPoint, _⟩ := elfLoadModule_some accepted
  have base : firstBlock = loaded.moduleBase := Option.some.inj block
  have total : totalSizeOf (shdrsOf relocatedObject) = 45 := by decide +kernel
  have given : KmallocGives (totalSizeOf (shdrsOf relocatedObject)) loaded.moduleBase := by
    rw [total, ← base]
    exact kmallocGives_first (by decide) (by decide) (by decide)
  have rule : textRelocation.value (fun _ => none) loaded.moduleBase = some 14688296 := by
    rw [← base]
    decide +kernel
  have word : load loaded.memory (textRelocation.place loaded.moduleBase) 4 = 0 := by
    rw [loaded_word given accepted textRelocation]
    decide +kernel
  refine ⟨_, _, loaded, given, accepted, rule, word, ?_, fun right => ?_⟩
  · rw [entryPoint, ← base]
    decide +kernel
  · have asked := right.relocated textRelocation _ rule
    rw [word] at asked
    cases asked

end Image

end Kernix.Proofs
