import Kernix.Common.Array
import Kernix.Lib.Holdings
import Kernix.Modules.ElfLoader

/-! The loader with the blocks of the heap and the descriptors that it takes and gives
back, exit by exit, and the table of loaded modules of `lkm.c`. What the heap and the table
of files answer is an input, and so is what lies behind the arrays that the loader reads
without looking at their lengths. Functions, versions and dependencies of modules are
pointers, where 0 is `NULL`; a name is the string that its pointer leads to. The functions
of modules are not part of the kernel: what `init` returns is an input, and a call of `exit`
is recorded. -/

namespace Kernix
open ByteMemory

/-- The blocks of the heap, and the open descriptors. -/
structure Ledger where
  blocks : Holdings Nat
  files : Holdings Int

/-- The heap gives a block that is not in use, or it fails, as it does for zero bytes. -/
def Ledger.kmalloc (ledger : Ledger) (answer size : Nat) : Option Nat × Ledger :=
  if size = 0 ∨ answer = 0 then (none, ledger)
  else
    let (block, blocks) := ledger.blocks.take answer
    (block, { ledger with blocks })

def Ledger.kfree (ledger : Ledger) (block : Nat) : Ledger :=
  if block = 0 then ledger else { ledger with blocks := ledger.blocks.give block }

/-- The descriptor, or nothing when it is negative. -/
def Ledger.fsOpen (ledger : Ledger) (answer : Int) : Option Int × Ledger :=
  if answer < 0 then (none, ledger)
  else
    let (fd, files) := ledger.files.take answer
    (fd, { ledger with files })

def Ledger.fsClose (ledger : Ledger) (fd : Int) : Ledger := { ledger with files := ledger.files.give fd }

/-- What the calls of the loader answer: the descriptor, and the addresses of the blocks,
which are 0 where the heap fails. -/
structure ElfAnswers where
  fd : Int
  shdrs : Nat
  strtab : Nat
  base : Nat
  syms : Nat
  symstr : Nat

/-- What is read behind the section headers and behind the symbols. -/
structure BeyondTables where
  shdr : Nat → Elf32Shdr
  sym : Nat → Elf32Sym

/-- `&shdrs[index]`. -/
def headerAt (beyond : BeyondTables) (shdrs : List Elf32Shdr) (index : Nat) : Elf32Shdr :=
  (shdrs[index]?).getD (beyond.shdr index)

section symbols
variable (beyond : BeyondTables) (tables : ElfTables) (syms symstr : Nat)

/-- One turn of the loop over the relocations. A turn that gives up frees both copies. -/
def relocateIn (ledger : Ledger) (memory : Memory) (rel : Elf32Rel) : Except Stop (Option Memory × Ledger) :=
  let sym :=
    if tables.symsSize < (rel.rSym + 1) * elf32SymSize then beyond.sym rel.rSym
    else symAt tables.syms (rel.rSym * elf32SymSize)
  let lookedUp := elfLookupSymbol fun position => tables.symstr (sym.stName + position)
  if sym.stShndx = 0 ∧ lookedUp = 0 then .ok (none, (ledger.kfree symstr).kfree syms)
  else
    let symAddr := if sym.stShndx ≠ 0 then sym.stValue else lookedUp
    let target := u64 (tables.moduleBase + rel.rOffset)
    if rel.rType = r38632 ∨ rel.rType = r386Pc32 then
      if tables.moduleSize < rel.rOffset + 4 then .error .undefined
      else
        let value := load memory target 4 + symAddr
        if rel.rType = r38632 then .ok (some (store memory target 4 (u32 value)), ledger)
        else .ok (some (store memory target 4 (u32 (value + (2 ^ 32 - u32 target)))), ledger)
    else .ok (none, (ledger.kfree symstr).kfree syms)

def relocateSectionIn (ledger : Ledger) : Nat → Nat → Memory → Except Stop (Option Memory × Ledger)
  | 0, _, memory => .ok (some memory, ledger)
  | relNum + 1, address, memory =>
    match relocateIn beyond tables syms symstr ledger memory (relAt memory address) with
    | .ok (some memory, ledger) => relocateSectionIn ledger relNum (address + elf32RelSize) memory
    | other => other

def relocateSectionsIn (ledger : Ledger) : List Elf32Shdr → Memory → Except Stop (Option Memory × Ledger)
  | [], memory => .ok (some memory, ledger)
  | section_ :: rest, memory =>
    match relocateSectionIn beyond tables syms symstr ledger (section_.shSize / elf32RelSize) section_.shAddr memory with
    | .ok (some memory, ledger) => relocateSectionsIn ledger rest memory
    | other => other

end symbols

def elfResolveSymbolsIn (beyond : BeyondTables) (answers : ElfAnswers) (ledger : Ledger) (moduleBase moduleSize : Nat)
    (symtab strtab : Elf32Shdr) (relSections : List Elf32Shdr) (memory : Memory) : Except Stop (Option Memory × Ledger) :=
  match ledger.kmalloc answers.syms symtab.shSize with
  | (none, ledger) => .ok (none, ledger)
  | (some syms, ledger) =>
    match ledger.kmalloc answers.symstr strtab.shSize with
    | (none, ledger) => .ok (none, ledger.kfree syms)
    | (some symstr, ledger) =>
      let tables : ElfTables :=
        { moduleBase
          moduleSize
          syms := fun position => memory (symtab.shAddr + position)
          symsSize := symtab.shSize
          symstr := fun position => memory (strtab.shAddr + position) }
      match relocateSectionsIn beyond tables syms symstr ledger relSections memory with
      | .ok (some memory, ledger) => .ok (some memory, (ledger.kfree symstr).kfree syms)
      | other => other

def elfLinkIn (beyond : BeyondTables) (answers : ElfAnswers) (ledger : Ledger) (moduleBase moduleSize : Nat)
    (shdrs : List Elf32Shdr) (memory : Memory) : Except Stop (Option Memory × Ledger) :=
  let relSections := shdrs.filter fun section_ => section_.shType = shtRel
  if relSectionsMax < relSections.length then .error .undefined
  else
    match (shdrs.filter fun section_ => section_.shType = shtSymtab).getLast? with
    | none => .ok (some memory, ledger)
    | some symtab =>
      if relSections = [] then .ok (some memory, ledger)
      else
        elfResolveSymbolsIn beyond answers ledger moduleBase moduleSize symtab (headerAt beyond shdrs symtab.shLink)
          relSections memory

/-- `elf_load_module`, with the blocks and the descriptor that each of its exits gives back. -/
def elfLoadModuleIn (beyond : BeyondTables) (file : Option (List UInt8)) (answers : ElfAnswers) (ledger : Ledger)
    (memory : Memory) : Except Stop (Option ElfModule × Ledger) :=
  match file with
  | none => .ok (none, ledger)
  | some file =>
    match ledger.fsOpen answers.fd with
    | (none, ledger) => .ok (none, ledger)
    | (some fd, ledger) =>
      let ehdr := ehdrOf file
      if file.length < elf32EhdrSize then .ok (none, ledger.fsClose fd)
      else if ehdr.eIdent 0 ≠ 0x7F ∨ ehdr.eIdent 1 ≠ 0x45 ∨ ehdr.eIdent 2 ≠ 0x4C ∨ ehdr.eIdent 3 ≠ 0x46 then
        .ok (none, ledger.fsClose fd)
      else if ehdr.eType ≠ etRel ∨ ehdr.eMachine ≠ em386 then .ok (none, ledger.fsClose fd)
      else
        match ledger.kmalloc answers.shdrs (ehdr.eShnum * elf32ShdrSize) with
        | (none, ledger) => .ok (none, ledger.fsClose fd)
        | (some shdrsBlock, ledger) =>
          let shdrs := shdrsOf file
          match ledger.kmalloc answers.strtab (headerAt beyond shdrs ehdr.eShstrndx).shSize with
          | (none, ledger) => .ok (none, (ledger.kfree shdrsBlock).fsClose fd)
          | (some strtab, ledger) =>
            let totalSize := totalSizeOf shdrs
            match ledger.kmalloc answers.base totalSize with
            | (none, ledger) => .ok (none, ((ledger.kfree strtab).kfree shdrsBlock).fsClose fd)
            | (some base, ledger) =>
              let (shdrs, memory) := loadSections file shdrs (u32 base) (fill memory base totalSize 0)
              match elfLinkIn beyond answers ledger base totalSize shdrs memory with
              | .error stop => .error stop
              | .ok (none, ledger) =>
                .ok (none, (((ledger.kfree base).kfree strtab).kfree shdrsBlock).fsClose fd)
              | .ok (some memory, ledger) =>
                .ok (some ⟨memory, base, totalSize, ehdr.eEntry⟩, ((ledger.kfree strtab).kfree shdrsBlock).fsClose fd)

/-- `MAX_LKMS`. -/
abbrev maxLkms : Nat := 256

structure LkmModule where
  name : List UInt8
  version : Nat
  depends : Nat
  init : Nat
  exit : Nat
  moduleCore : Nat
  size : Nat

/-- The table, what the heap has in use, and the exit functions that were called, the last one first. -/
structure LkmState where
  loadedLkms : Fin maxLkms → LkmModule
  lkmCount : Nat
  ledger : Ledger
  exits : List Nat

def lkmInit (state : LkmState) : LkmState :=
  { state with loadedLkms := fun _ => ⟨[], 0, 0, 0, 0, 0, 0⟩, lkmCount := 0 }

/-- The fields that are not set keep what the slot had. -/
def lkmLoad (beyond : BeyondTables) (file : Option (List UInt8)) (answers : ElfAnswers) (memory : ByteMemory.Memory)
    (initFunc : Nat → Int) (state : LkmState) : Except Stop (Int × LkmState) := do
  if maxLkms ≤ state.lkmCount then return (-1, state)
  let (loaded, ledger) ← elfLoadModuleIn beyond file answers state.ledger memory
  let state := { state with ledger }
  match loaded with
  | none => return (-1, state)
  | some loaded =>
    if initFunc loaded.entryPoint ≠ 0 then return (-1, { state with ledger := state.ledger.kfree loaded.moduleBase })
    let mod ← elementAt state.loadedLkms state.lkmCount
    let mod :=
      { mod with name := literal "unknown", moduleCore := loaded.moduleBase, size := loaded.moduleSize, init := loaded.entryPoint }
    let loadedLkms ← setElement state.loadedLkms state.lkmCount mod
    return (0, { state with loadedLkms, lkmCount := state.lkmCount + 1 })

def lkmUnload (state : LkmState) (name : List UInt8) : Except Stop (Int × LkmState) := do
  match ← findElement state.loadedLkms (fun mod => strEquals mod.name name) state.lkmCount 0 with
  | none => return (-1, state)
  | some i =>
    let mod ← elementAt state.loadedLkms i
    let exits := if mod.exit ≠ 0 then mod.exit :: state.exits else state.exits
    let ledger := if mod.moduleCore ≠ 0 then state.ledger.kfree mod.moduleCore else state.ledger
    let loadedLkms ← shiftElements state.loadedLkms (state.lkmCount - 1 - i) i
    return (0, { loadedLkms, lkmCount := state.lkmCount - 1, ledger, exits })

/-- The place of the module that is found. -/
def lkmFind (state : LkmState) (name : List UInt8) : Except Stop (Option Nat) :=
  findElement state.loadedLkms (fun mod => strEquals mod.name name) state.lkmCount 0

def lkmRegisterBuiltin (state : LkmState) (mod : Option LkmModule) : Except Stop (Int × LkmState) :=
  if maxLkms ≤ state.lkmCount then .ok (-1, state)
  else
    match mod with
    | none => .ok (-1, state)
    | some mod => do
      let loadedLkms ← setElement state.loadedLkms state.lkmCount mod
      return (0, { state with loadedLkms, lkmCount := state.lkmCount + 1 })

end Kernix
