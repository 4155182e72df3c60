import Kernix.Lib.ByteMemory
import Kernix.Machine

/-! The loader of `elf_loader.c`. A file is the list of its bytes, and the tables that the
loader copies into blocks of its own are the bytes they had when they were copied. The
sections go to addresses of 32 bits, the relocated words to those of the block that
`kmalloc` gave for the module. What is printed is left out. -/

namespace Kernix
open ByteMemory

/-- The bytes of a file. A block of `kmalloc` is cleared, so a read past the end of the file
leaves zeros in it. -/
def fileBytes (file : List UInt8) : Memory := fun position => file.getD position 0

/-- `fs_lseek` and `fs_read`: what the file has of the range is written to the address. -/
def readFileAt (file : List UInt8) (memory : Memory) (address offset size : Nat) : Memory :=
  copy memory address (min size (file.length - offset)) fun position => fileBytes file (offset + position)

/-- `sizeof(Elf32_Ehdr)`. -/
abbrev elf32EhdrSize : Nat := 52
/-- `sizeof(Elf32_Shdr)`. -/
abbrev elf32ShdrSize : Nat := 40
/-- `sizeof(Elf32_Sym)`. -/
abbrev elf32SymSize : Nat := 16
/-- `sizeof(Elf32_Rel)`. -/
abbrev elf32RelSize : Nat := 8

abbrev etRel : Nat := 1
abbrev em386 : Nat := 3
abbrev shtSymtab : Nat := 2
abbrev shtRel : Nat := 9
abbrev shfAlloc : Nat := 0x2
abbrev r38632 : Nat := 1
abbrev r386Pc32 : Nat := 2

/-- The length of `rel_sections`. -/
abbrev relSectionsMax : Nat := 10

/-- The fields of `Elf32_Ehdr` that are read. -/
structure Elf32Ehdr where
  eIdent : Memory
  eType : Nat
  eMachine : Nat
  eEntry : Nat
  eShoff : Nat
  eShnum : Nat
  eShstrndx : Nat

/-- The fields of `Elf32_Shdr` that are read. -/
structure Elf32Shdr where
  shType : Nat
  shFlags : Nat
  shAddr : Nat
  shOffset : Nat
  shSize : Nat
  shLink : Nat
  shInfo : Nat

structure Elf32Sym where
  stName : Nat
  stValue : Nat
  stShndx : Nat

structure Elf32Rel where
  rOffset : Nat
  rInfo : Nat

def ehdrOf (file : List UInt8) : Elf32Ehdr :=
  let bytes := fileBytes file
  ⟨bytes, load bytes 16 2, load bytes 18 2, load bytes 24 4, load bytes 32 4, load bytes 48 2, load bytes 50 2⟩

def shdrAt (bytes : Memory) (address : Nat) : Elf32Shdr :=
  ⟨load bytes (address + 4) 4, load bytes (address + 8) 4, load bytes (address + 12) 4, load bytes (address + 16) 4,
    load bytes (address + 20) 4, load bytes (address + 24) 4, load bytes (address + 28) 4⟩

def symAt (bytes : Memory) (address : Nat) : Elf32Sym :=
  ⟨load bytes address 4, load bytes (address + 4) 4, load bytes (address + 14) 2⟩

def relAt (bytes : Memory) (address : Nat) : Elf32Rel := ⟨load bytes address 4, load bytes (address + 4) 4⟩

/-- `ELF32_R_SYM`. -/
def Elf32Rel.rSym (rel : Elf32Rel) : Nat := rel.rInfo / 2 ^ 8

/-- `ELF32_R_TYPE`. -/
def Elf32Rel.rType (rel : Elf32Rel) : Nat := rel.rInfo % 2 ^ 8

def Elf32Shdr.isAlloc (section_ : Elf32Shdr) : Bool := section_.shFlags &&& shfAlloc ≠ 0

/-- The array of the section headers. -/
def shdrsOf (file : List UInt8) : List Elf32Shdr :=
  let ehdr := ehdrOf file
  (List.range ehdr.eShnum).map fun i => shdrAt (fileBytes file) (ehdr.eShoff + i * elf32ShdrSize)

/-- The loop that adds up the sizes of the sections to load. -/
def totalSizeOf (shdrs : List Elf32Shdr) : Nat := ((shdrs.filter Elf32Shdr.isAlloc).map Elf32Shdr.shSize).sum

/-- The loop that reads the sections to load, from an address on. -/
def loadSections (file : List UInt8) : List Elf32Shdr → Nat → Memory → List Elf32Shdr × Memory
  | [], _, memory => ([], memory)
  | section_ :: rest, currentAddr, memory =>
    if section_.isAlloc then
      let memory := readFileAt file memory currentAddr section_.shOffset section_.shSize
      let (rest, memory) := loadSections file rest (u32 (currentAddr + section_.shSize)) memory
      ({ section_ with shAddr := currentAddr } :: rest, memory)
    else
      let (rest, memory) := loadSections file rest currentAddr memory
      (section_ :: rest, memory)

/-- The stub of `symbols.c` knows no name. -/
def kernelSymbolLookup (_name : Memory) : Nat := 0

def elfLookupSymbol (name : Memory) : Nat := u32 (kernelSymbolLookup name)

/-- The module's block, and the copies of the symbols and of their names. -/
structure ElfTables where
  moduleBase : Nat
  moduleSize : Nat
  syms : Memory
  symsSize : Nat
  symstr : Memory

/-- One turn of the loop over the relocations. It returns nothing when the loader gives up. -/
def relocate (tables : ElfTables) (memory : Memory) (rel : Elf32Rel) : Except Stop (Option Memory) :=
  if tables.symsSize < (rel.rSym + 1) * elf32SymSize then .error .undefined
  else
    let sym := symAt tables.syms (rel.rSym * elf32SymSize)
    let lookedUp := elfLookupSymbol fun position => tables.symstr (sym.stName + position)
    if sym.stShndx = 0 ∧ lookedUp = 0 then .ok none
    else
      let symAddr := if sym.stShndx ≠ 0 then sym.stValue else lookedUp
      let target := u64 (tables.moduleBase + rel.rOffset)
      if rel.rType = r38632 ∨ rel.rType = r386Pc32 then
        if tables.moduleSize < rel.rOffset + 4 then .error .undefined
        else
          let value := load memory target 4 + symAddr
          if rel.rType = r38632 then .ok (some (store memory target 4 (u32 value)))
          else .ok (some (store memory target 4 (u32 (value + (2 ^ 32 - u32 target)))))
      else .ok none

/-- The relocations of a section, which are read where the section was loaded. -/
def relocateSection (tables : ElfTables) : Nat → Nat → Memory → Except Stop (Option Memory)
  | 0, _, memory => .ok (some memory)
  | relNum + 1, address, memory =>
    match relocate tables memory (relAt memory address) with
    | .ok (some memory) => relocateSection tables relNum (address + elf32RelSize) memory
    | other => other

def relocateSections (tables : ElfTables) : List Elf32Shdr → Memory → Except Stop (Option Memory)
  | [], memory => .ok (some memory)
  | section_ :: rest, memory =>
    match relocateSection tables (section_.shSize / elf32RelSize) section_.shAddr memory with
    | .ok (some memory) => relocateSections tables rest memory
    | other => other

/-- What `kmalloc` has for the requests of the loader: whether there is a block, and which
one the module gets. No request for zero bytes succeeds. -/
structure ElfHeap where
  shdrs : Bool
  strtab : Bool
  base : Option Nat
  syms : Bool
  symstr : Bool

def elfResolveSymbols (heap : ElfHeap) (moduleBase moduleSize : Nat) (symtab : Elf32Shdr) (strtab : Option Elf32Shdr)
    (relSections : List Elf32Shdr) (memory : Memory) : Except Stop (Option Memory) :=
  if heap.syms = false ∨ symtab.shSize = 0 then .ok none
  else
    match strtab with
    | none => .error .undefined
    | some strtab =>
      if heap.symstr = false ∨ strtab.shSize = 0 then .ok none
      else
        let tables : ElfTables :=
          { moduleBase
            moduleSize
            syms := fun position => memory (symtab.shAddr + position)
            symsSize := symtab.shSize
            symstr := fun position => memory (strtab.shAddr + position) }
        relocateSections tables relSections memory

/-- What the loader gives back, with the memory that it leaves. -/
structure ElfModule where
  memory : Memory
  moduleBase : Nat
  moduleSize : Nat
  entryPoint : Nat

/-- The relocations, when there are a symbol table and sections with relocations. -/
def elfLink (heap : ElfHeap) (moduleBase moduleSize : Nat) (shdrs : List Elf32Shdr) (memory : Memory) :
    Except Stop (Option Memory) :=
  let relSections := shdrs.filter fun section_ => section_.shType = shtRel
  if relSectionsMax < relSections.length then .error .undefined
  else
    match (shdrs.filter fun section_ => section_.shType = shtSymtab).getLast? with
    | none => .ok (some memory)
    | some symtab =>
      if relSections = [] then .ok (some memory)
      else elfResolveSymbols heap moduleBase moduleSize symtab shdrs[symtab.shLink]? relSections memory

/-- `elf_load_module` of a file, or of none when the path cannot be opened. It returns
nothing when it fails. -/
def elfLoadModule (file : Option (List UInt8)) (heap : ElfHeap) (memory : Memory) : Except Stop (Option ElfModule) :=
  match file with
  | none => .ok none
  | some file =>
    let ehdr := ehdrOf file
    if file.length < elf32EhdrSize then .ok none
    else if ehdr.eIdent 0 ≠ 0x7F ∨ ehdr.eIdent 1 ≠ 0x45 ∨ ehdr.eIdent 2 ≠ 0x4C ∨ ehdr.eIdent 3 ≠ 0x46 then .ok none
    else if ehdr.eType ≠ etRel ∨ ehdr.eMachine ≠ em386 then .ok none
    else if heap.shdrs = false ∨ ehdr.eShnum = 0 then .ok none
    else
      let shdrs := shdrsOf file
      match shdrs[ehdr.eShstrndx]? with
      | none => .error .undefined
      | some strtab =>
        if heap.strtab = false ∨ strtab.shSize = 0 then .ok none
        else
          let totalSize := totalSizeOf shdrs
          match heap.base with
          | none => .ok none
          | some base =>
            if totalSize = 0 then .ok none
            else
              let (shdrs, memory) := loadSections file shdrs (u32 base) (fill memory base totalSize 0)
              match elfLink heap base totalSize shdrs memory with
              | .error stop => .error stop
              | .ok none => .ok none
              | .ok (some memory) => .ok (some ⟨memory, base, totalSize, ehdr.eEntry⟩)

end Kernix
