import Kernix.Proofs.ElfRelocations

/-! The loader with every element that it uses looked up first. It stops at the first one
that lies outside: a header behind the array of the headers, an eleventh section with
relocations, a symbol, a name, a word of the image, or a section to load. Each number comes
from the file, and the code compares none of them with anything. -/

namespace Kernix.Proofs
open ByteMemory

section Checked

variable (file : List UInt8) (tables : ElfTables) (symstrSize : Nat)

/-- A section to load must go into the block. -/
def loadSectionsInside (base totalSize : Nat) : List Elf32Shdr → Nat → Memory → Except Stop (List Elf32Shdr × Memory)
  | [], _, memory => .ok ([], memory)
  | section_ :: rest, currentAddr, memory =>
    if section_.isAlloc then
      if section_.shSize ≠ 0 ∧ (currentAddr < base ∨ base + totalSize < currentAddr + section_.shSize) then
        .error .undefined
      else do
        let memory := readFileAt file memory currentAddr section_.shOffset section_.shSize
        let (rest, memory) ← loadSectionsInside base totalSize rest (u32 (currentAddr + section_.shSize)) memory
        return ({ section_ with shAddr := currentAddr } :: rest, memory)
    else do
      let (rest, memory) ← loadSectionsInside base totalSize rest currentAddr memory
      return (section_ :: rest, memory)

/-- The name of a symbol must lie in the string table when it is looked up, and when the
relocation is made. The symbol and the word are looked up in `relocate`. -/
def relocateInside (memory : Memory) (rel : Elf32Rel) : Except Stop (Option Memory) :=
  let sym := symAt tables.syms (rel.rSym * elf32SymSize)
  if (sym.stShndx = 0 ∨ rel.rType = r38632 ∨ rel.rType = r386Pc32) ∧ symstrSize ≤ sym.stName then .error .undefined
  else relocate tables memory rel

def relocateSectionInside : Nat → Nat → Memory → Except Stop (Option Memory)
  | 0, _, memory => .ok (some memory)
  | relNum + 1, address, memory =>
    match relocateInside tables symstrSize memory (relAt memory address) with
    | .ok (some memory) => relocateSectionInside relNum (address + elf32RelSize) memory
    | other => other

def relocateSectionsInside : List Elf32Shdr → Memory → Except Stop (Option Memory)
  | [], memory => .ok (some memory)
  | section_ :: rest, memory =>
    match relocateSectionInside tables symstrSize (section_.shSize / elf32RelSize) section_.shAddr memory with
    | .ok (some memory) => relocateSectionsInside rest memory
    | other => other

end Checked

def elfResolveSymbolsInside (heap : ElfHeap) (moduleBase moduleSize : Nat) (symtab : Elf32Shdr)
    (strtab : Option Elf32Shdr) (relSections : List Elf32Shdr) (memory : Memory) : Except Stop (Option Memory) :=
  if heap.syms = false ∨ symtab.shSize = 0 then .ok none
  else
    match strtab with
    | none => .error .undefined
    | some strtab =>
      if heap.symstr = false ∨ strtab.shSize = 0 then .ok none
      else
        let tables : ElfTables :=
          { moduleBase
            moduleSize
            syms := fun position => memory (symtab.shAddr + position)
            symsSize := symtab.shSize
            symstr := fun position => memory (strtab.shAddr + position) }
        relocateSectionsInside tables strtab.shSize relSections memory

/-- Every symbol table must name a section of the file. -/
def elfLinkInside (heap : ElfHeap) (moduleBase moduleSize : Nat) (shdrs : List Elf32Shdr) (memory : Memory) :
    Except Stop (Option Memory) :=
  let relSections := shdrs.filter fun section_ => section_.shType = shtRel
  let symtabs := shdrs.filter fun section_ => section_.shType = shtSymtab
  if relSectionsMax < relSections.length then .error .undefined
  else if symtabs.any fun symtab => shdrs.length ≤ symtab.shLink then .error .undefined
  else
    match symtabs.getLast? with
    | none => .ok (some memory)
    | some symtab =>
      if relSections = [] then .ok (some memory)
      else elfResolveSymbolsInside heap moduleBase moduleSize symtab shdrs[symtab.shLink]? relSections memory

def elfLoadModuleInside (file : List UInt8) (heap : ElfHeap) (memory : Memory) : Except Stop (Option ElfModule) :=
  let ehdr := ehdrOf file
  if file.length < elf32EhdrSize then .ok none
  else if ehdr.eIdent 0 ≠ 0x7F ∨ ehdr.eIdent 1 ≠ 0x45 ∨ ehdr.eIdent 2 ≠ 0x4C ∨ ehdr.eIdent 3 ≠ 0x46 then .ok none
  else if ehdr.eType ≠ etRel ∨ ehdr.eMachine ≠ em386 then .ok none
  else if heap.shdrs = false ∨ ehdr.eShnum = 0 then .ok none
  else
    let shdrs := shdrsOf file
    match shdrs[ehdr.eShstrndx]? with
    | none => .error .undefined
    | some strtab =>
      if heap.strtab = false ∨ strtab.shSize = 0 then .ok none
      else
        let totalSize := totalSizeOf shdrs
        match heap.base with
        | none => .ok none
        | some base =>
          if totalSize = 0 then .ok none
          else
            match loadSectionsInside file base totalSize shdrs (u32 base) (fill memory base totalSize 0) with
            | .error stop => .error stop
            | .ok (shdrs, memory) =>
              match elfLinkInside heap base totalSize shdrs memory with
              | .error stop => .error stop
              | .ok none => .ok none
              | .ok (some memory) => .ok (some ⟨memory, base, totalSize, ehdr.eEntry⟩)

/-- All that the loader uses is inside, and it returns. -/
def ElfInside (file : List UInt8) (heap : ElfHeap) (memory : Memory) : Prop :=
  ∃ result, elfLoadModuleInside file heap memory = .ok result

variable {file : List UInt8} {heap : ElfHeap} {memory after : Memory} {tables : ElfTables} {base size symstrSize : Nat}
  {shdrs relSections : List Elf32Shdr} {relocated : Option Memory}

section Agreement

/-! What the checks let through is what the loader does. -/

theorem loadSectionsInside_eq {address : Nat} {loaded : List Elf32Shdr}
    (result : loadSectionsInside file base size shdrs address memory = .ok (loaded, after)) :
    loadSections file shdrs address memory = (loaded, after) := by
  induction shdrs generalizing address memory loaded with
  | nil =>
    cases result
    rfl
  | cons section_ rest ih =>
    rw [loadSectionsInside] at result
    rw [loadSections]
    split at result
    next alloc =>
      split at result
      next => cases result
      next =>
        obtain ⟨⟨others, last⟩, loads, result⟩ := bind_ok result
        cases result
        rw [if_pos alloc]
        dsimp only
        rw [ih loads]
    next other =>
      obtain ⟨⟨others, last⟩, loads, result⟩ := bind_ok result
      cases result
      rw [if_neg other, ih loads]

theorem relocateInside_eq {rel : Elf32Rel} (result : relocateInside tables symstrSize memory rel = .ok relocated) :
    relocate tables memory rel = .ok relocated := by
  unfold relocateInside at result
  dsimp only at result
  split at result
  next => cases result
  next => exact result

theorem relocateSectionInside_eq {relNum address : Nat}
    (result : relocateSectionInside tables symstrSize relNum address memory = .ok relocated) :
    relocateSection tables relNum address memory = .ok relocated := by
  induction relNum generalizing address memory with
  | zero => exact result
  | succ relNum ih =>
    rw [relocateSectionInside] at result
    rw [relocateSection]
    split at result
    next middle turn =>
      rw [relocateInside_eq turn]
      exact ih result
    next other =>
      rw [relocateInside_eq result]
      cases relocated with
      | none => rfl
      | some memory => exact absurd result (other memory)

theorem relocateSectionsInside_eq (result : relocateSectionsInside tables symstrSize shdrs memory = .ok relocated) :
    relocateSections tables shdrs memory = .ok relocated := by
  induction shdrs generalizing memory with
  | nil => exact result
  | cons section_ rest ih =>
    rw [relocateSectionsInside] at result
    rw [relocateSections]
    split at result
    next middle turn =>
      rw [relocateSectionInside_eq turn]
      exact ih result
    next other =>
      rw [relocateSectionInside_eq result]
      cases relocated with
      | none => rfl
      | some memory => exact absurd result (other memory)

theorem elfResolveSymbolsInside_eq {symtab : Elf32Shdr} {strtab : Option Elf32Shdr}
    (result : elfResolveSymbolsInside heap base size symtab strtab relSections memory = .ok relocated) :
    elfResolveSymbols heap base size symtab strtab relSections memory = .ok relocated := by
  unfold elfResolveSymbolsInside at result
  unfold elfResolveSymbols
  split at result
  next refused => rwa [if_pos refused]
  next given =>
    rw [if_neg given]
    split at result
    next => cases result
    next strtab =>
      dsimp only
      split at result
      next refused => rwa [if_pos refused]
      next given' =>
        rw [if_neg given']
        exact relocateSectionsInside_eq result

theorem elfLinkInside_eq (result : elfLinkInside heap base size shdrs memory = .ok relocated) :
    elfLink heap base size shdrs memory = .ok relocated := by
  unfold elfLinkInside at result
  unfold elfLink
  dsimp only at result ⊢
  split at result
  next => cases result
  next few =>
    rw [if_neg few]
    split at result
    next => cases result
    next =>
      generalize (shdrs.filter fun section_ => section_.shType = shtSymtab).getLast? = last at result ⊢
      cases last with
      | none => exact result
      | some symtab =>
        dsimp only at result ⊢
        split at result
        next empty => rwa [if_pos empty]
        next some =>
          rw [if_neg some]
          exact elfResolveSymbolsInside_eq result

/-- A run that stays inside is a run of the loader. -/
theorem elfLoadModuleInside_eq {loaded : Option ElfModule} (result : elfLoadModuleInside file heap memory = .ok loaded) :
    elfLoadModule (some file) heap memory = .ok loaded := by
  unfold elfLoadModuleInside at result
  unfold elfLoadModule
  dsimp only at result ⊢
  split at result
  next short => rwa [if_pos short]
  next whole =>
  rw [if_neg whole]
  split at result
  next magic => rwa [if_pos magic]
  next magic =>
  rw [if_neg magic]
  split at result
  next kind => rwa [if_pos kind]
  next kind =>
  rw [if_neg kind]
  split at result
  next refused => rwa [if_pos refused]
  next headers =>
  rw [if_neg headers]
  generalize (shdrsOf file)[(ehdrOf file).eShstrndx]? = found at result ⊢
  cases found with
  | none => cases result
  | some strtab =>
  dsimp only at result ⊢
  split at result
  next refused => rwa [if_pos refused]
  next names =>
  rw [if_neg names]
  generalize heap.base = block at result ⊢
  cases block with
  | none => exact result
  | some base =>
  dsimp only at result ⊢
  split at result
  next empty => rwa [if_pos empty]
  next some =>
  rw [if_neg some]
  split at result
  next => cases result
  next shdrs read loads =>
  rw [loadSectionsInside_eq loads]
  dsimp only
  split at result
  next => cases result
  next links =>
    rw [elfLinkInside_eq links]
    exact result
  next links =>
    rw [elfLinkInside_eq links]
    exact result

end Agreement

/-- The headers of the sections are read. -/
structure HeadersRead (file : List UInt8) (heap : ElfHeap) : Prop where
  whole : elf32EhdrSize ≤ file.length
  magic : (ehdrOf file).eIdent 0 = 0x7F ∧ (ehdrOf file).eIdent 1 = 0x45 ∧ (ehdrOf file).eIdent 2 = 0x4C ∧
    (ehdrOf file).eIdent 3 = 0x46
  kind : (ehdrOf file).eType = etRel ∧ (ehdrOf file).eMachine = em386
  block : heap.shdrs = true
  some : (ehdrOf file).eShnum ≠ 0

/-- A file is given up before a section of it is loaded: its header is refused, or the
section that it names is there but there is no block for it or for the image. -/
def RefusedEarly (file : List UInt8) (heap : ElfHeap) : Prop :=
  HeadersRead file heap → ∃ strtab, (shdrsOf file)[(ehdrOf file).eShstrndx]? = some strtab ∧
    (heap.strtab = false ∨ strtab.shSize = 0 ∨ heap.base = none ∨ totalSizeOf (shdrsOf file) = 0)

private theorem u32_small (value : Nat) : u32 value < 2 ^ 32 := Nat.mod_lt _ (by decide)

/-- The first section with bytes does not go into a block above the addresses of 32 bits. -/
theorem loadSectionsInside_stops {address : Nat} (high : 2 ^ 32 ≤ base) (low : address < 2 ^ 32)
    (some : totalSizeOf shdrs ≠ 0) : loadSectionsInside file base size shdrs address memory = .error .undefined := by
  induction shdrs generalizing address memory with
  | nil => exact absurd rfl some
  | cons section_ rest ih =>
    rw [totalSizeOf_cons] at some
    rw [loadSectionsInside]
    by_cases alloc : section_.isAlloc = true
    · rw [if_pos alloc] at some ⊢
      by_cases bytes : section_.shSize = 0
      · rw [if_neg (by simp [bytes])]
        dsimp only
        rw [ih (u32_small _) (by omega)]
        rfl
      · rw [if_pos ⟨bytes, Or.inl (by omega)⟩]
    · rw [if_neg alloc] at some ⊢
      rw [ih low (by omega)]
      rfl

/-- The loader stays inside exactly when it gives up before it loads. The heap lies above
the addresses of 32 bits to which the sections go. -/
theorem elf_accesses_inside_iff (memory : Memory)
    (given : ∀ base, heap.base = some base → KmallocGives (totalSizeOf (shdrsOf file)) base) :
    ElfInside file heap memory ↔ RefusedEarly file heap := by
  constructor
  · rintro ⟨result, loads⟩ headers
    unfold elfLoadModuleInside at loads
    dsimp only at loads
    rw [if_neg (Nat.not_lt.mpr headers.whole), if_neg (by simp [headers.magic]), if_neg (by simp [headers.kind]),
      if_neg (by simp [headers.block, headers.some])] at loads
    split at loads
    next => cases loads
    next strtab found =>
      refine ⟨strtab, found, ?_⟩
      by_contra accepted
      push Not at accepted
      obtain ⟨names, sized, block, total⟩ := accepted
      obtain ⟨base, block⟩ := Option.ne_none_iff_exists'.mp block
      have inside := (given base block).fromHeap (totalSizeOf_fits file)
      have low := inside.low
      have start : heapStart = 2 ^ 32 * 4294934528 := rfl
      rw [if_neg (by simp [names, sized]), block] at loads
      dsimp only at loads
      rw [if_neg total, loadSectionsInside_stops (by omega) (u32_small base) total]
        at loads
      cases loads
  · intro refused
    unfold ElfInside elfLoadModuleInside
    dsimp only
    split
    next => exact ⟨_, rfl⟩
    next whole =>
    split
    next => exact ⟨_, rfl⟩
    next magic =>
    split
    next => exact ⟨_, rfl⟩
    next kind =>
    split
    next => exact ⟨_, rfl⟩
    next headers =>
    push Not at magic kind headers
    obtain ⟨strtab, found, gone⟩ := refused ⟨by omega, magic, kind, by simpa using headers.1, headers.2⟩
    rw [found]
    dsimp only
    split
    next => exact ⟨_, rfl⟩
    next names =>
    split
    next => exact ⟨_, rfl⟩
    next base block =>
      push Not at names
      rcases gone with none | none | none | empty
      · exact absurd none names.1
      · exact absurd none names.2
      · cases none.symm.trans block
      · rw [if_pos empty]
        exact ⟨_, rfl⟩

/-- An object like `plainObject`, for another machine. -/
def otherObject : List UInt8 := elfWords
  [0x464C457F, 0, 0, 0, 0x3E0001, 1, 14688296, 0, 52, 0, 52, 0x280000, 0x10002,
    0, 0, 0, 0, 0, 0, 0, 0, 0, 0,
    0, 1, 6, 0, 132, 4, 0, 0, 4, 0,
    0x90909090]

theorem elf_accesses_inside_iff_other : ElfInside otherObject freshHeap fun _ => 0 := by
  refine (elf_accesses_inside_iff (fun _ => 0) ?_).mpr fun headers => absurd headers.kind.2 (by decide +kernel)
  intro base block
  cases block
  have total : totalSizeOf (shdrsOf otherObject) = 4 := by decide +kernel
  rw [total]
  exact kmallocGives_first (by decide) (by decide) (by decide)

/-- An object like `plainObject`, whose header names a section that is not there. -/
def namelessObject : List UInt8 := elfWords
  [0x464C457F, 0, 0, 0, 0x30001, 1, 14688296, 0, 52, 0, 52, 0x280000, 0xFFFF0002,
    0, 0, 0, 0, 0, 0, 0, 0, 0, 0,
    0, 1, 6, 0, 132, 4, 0, 0, 4, 0,
    0x90909090]

/-- The size of the names is read far behind the headers. -/
theorem elf_accesses_inside_fails : ¬∀ (file : List UInt8) (heap : ElfHeap) (memory : Memory),
    (∀ base, heap.base = some base → KmallocGives (totalSizeOf (shdrsOf file)) base) →
      ElfInside file heap memory := by
  intro always
  have total : totalSizeOf (shdrsOf namelessObject) = 4 := by decide +kernel
  obtain ⟨result, loads⟩ := always namelessObject freshHeap (fun _ => 0) fun base block => by
    cases block
    rw [total]
    exact kmallocGives_first (by decide) (by decide) (by decide)
  have stops : (elfLoadModuleInside namelessObject freshHeap fun _ => 0).toOption.isSome = false := by decide +kernel
  rw [loads] at stops
  cases stops

end Kernix.Proofs
