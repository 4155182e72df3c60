import Kernix.Modules.Lkm
import Kernix.Proofs.ElfRelocations

/-! The loader gives back all that it takes, on every exit, up to the image of the module
that it returns. -/

namespace Kernix.Proofs
open ByteMemory Holdings

variable {beyond : BeyondTables} {file : Option (List UInt8)} {answers : ElfAnswers} {ledger after : Ledger}
  {memory : Memory} {block other size : Nat} {fd : Int} {loaded : Option ElfModule}

def addBlock (ledger : Ledger) (block : Nat) : Ledger := { ledger with blocks := ledger.blocks.add block }

def addFile (ledger : Ledger) (fd : Int) : Ledger := { ledger with files := ledger.files.add fd }

/-- Nothing is left of a load that fails. Of one that succeeds the image of the module is left,
a block that was not in use. Neither gives back what is not in use, which the ledger would count. -/
def LoadBalanced (before : Ledger) (loaded : Option ElfModule) (after : Ledger) : Prop :=
  match loaded with
  | none => after = before
  | some loaded =>
    loaded.moduleBase ≠ 0 ∧ loaded.moduleBase ∉ before.blocks.held ∧ after = addBlock before loaded.moduleBase

section Ledgers

theorem kmalloc_cases (ledger : Ledger) (answer size : Nat) :
    ledger.kmalloc answer size = (none, ledger) ∨
      answer ≠ 0 ∧ answer ∉ ledger.blocks.held ∧ ledger.kmalloc answer size = (some answer, addBlock ledger answer) := by
  unfold Ledger.kmalloc
  by_cases fails : size = 0 ∨ answer = 0
  · exact .inl (if_pos fails)
  · rw [if_neg fails]
    rcases ledger.blocks.take_cases answer with ⟨-, takes⟩ | ⟨fresh, takes⟩
    · rw [takes]
      exact .inl rfl
    · rw [takes]
      exact .inr ⟨fun zero => fails (.inr zero), fresh, rfl⟩

theorem fsOpen_cases (ledger : Ledger) (answer : Int) :
    ledger.fsOpen answer = (none, ledger) ∨ ledger.fsOpen answer = (some answer, addFile ledger answer) := by
  unfold Ledger.fsOpen
  by_cases fails : answer < 0
  · exact .inl (if_pos fails)
  · rw [if_neg fails]
    rcases ledger.files.take_cases answer with ⟨-, takes⟩ | ⟨-, takes⟩
    · rw [takes]
      exact .inl rfl
    · rw [takes]
      exact .inr rfl

theorem kfree_last (given : block ≠ 0) : (addBlock ledger block).kfree block = ledger := by
  unfold Ledger.kfree
  rw [if_neg given]
  simp [addBlock]

theorem kfree_under (given : block ≠ 0) (differ : block ≠ other) :
    (addBlock (addBlock ledger block) other).kfree block = addBlock ledger other := by
  unfold Ledger.kfree
  rw [if_neg given]
  simp only [addBlock, give_under differ]

theorem fsClose_last : (addFile ledger fd).fsClose fd = ledger := by
  simp [Ledger.fsClose, addFile]

theorem fsClose_under : (addBlock (addFile ledger fd) block).fsClose fd = addBlock ledger block := by
  simp [Ledger.fsClose, addFile, addBlock]

end Ledgers

section Relocations
variable {tables : ElfTables} {syms symstr : Nat} {relocated : Option Memory}

/-- What the relocations leave: both copies while they go on, and none when they give up. -/
def copiesLeft (ledger : Ledger) (syms symstr : Nat) (relocated : Option Memory) : Ledger :=
  match relocated with
  | none => (ledger.kfree symstr).kfree syms
  | some _ => ledger

theorem relocateIn_left {rel : Elf32Rel}
    (result : relocateIn beyond tables syms symstr ledger memory rel = .ok (relocated, after)) :
    after = copiesLeft ledger syms symstr relocated := by
  unfold relocateIn at result
  dsimp only at result
  generalize (if tables.symsSize < (rel.rSym + 1) * elf32SymSize then beyond.sym rel.rSym
    else symAt tables.syms (rel.rSym * elf32SymSize)) = sym at result
  split at result
  · cases result
    rfl
  split at result
  · split at result
    · cases result
    split at result
    · cases result
      rfl
    · cases result
      rfl
  · cases result
    rfl

theorem relocateSectionIn_left {relNum address : Nat}
    (result : relocateSectionIn beyond tables syms symstr ledger relNum address memory = .ok (relocated, after)) :
    after = copiesLeft ledger syms symstr relocated := by
  induction relNum generalizing ledger address memory with
  | zero =>
    cases result
    rfl
  | succ relNum ih =>
    unfold relocateSectionIn at result
    split at result
    next middle kept turn =>
      obtain rfl : kept = ledger := relocateIn_left turn
      exact ih result
    next => exact relocateIn_left result

theorem relocateSectionsIn_left {shdrs : List Elf32Shdr}
    (result : relocateSectionsIn beyond tables syms symstr ledger shdrs memory = .ok (relocated, after)) :
    after = copiesLeft ledger syms symstr relocated := by
  induction shdrs generalizing ledger memory with
  | nil =>
    cases result
    rfl
  | cons section_ rest ih =>
    unfold relocateSectionsIn at result
    split at result
    next middle kept turn =>
      obtain rfl : kept = ledger := relocateSectionIn_left turn
      exact ih result
    next => exact relocateSectionIn_left result

/-- Both copies are given back, whether the symbols are resolved or not. -/
theorem elfResolveSymbolsIn_balances {base : Nat} {symtab strtab : Elf32Shdr} {relSections : List Elf32Shdr}
    (result : elfResolveSymbolsIn beyond answers ledger base size symtab strtab relSections memory =
      .ok (relocated, after)) :
    after = ledger := by
  unfold elfResolveSymbolsIn at result
  rcases kmalloc_cases ledger answers.syms symtab.shSize with none | ⟨given, -, takes⟩
  · rw [none] at result
    cases result
    rfl
  rw [takes] at result
  dsimp only at result
  rcases kmalloc_cases (addBlock ledger answers.syms) answers.symstr strtab.shSize with none | ⟨given', -, takes'⟩
  · rw [none] at result
    cases result
    exact kfree_last given
  rw [takes'] at result
  dsimp only at result
  have back :
      ((addBlock (addBlock ledger answers.syms) answers.symstr).kfree answers.symstr).kfree answers.syms = ledger := by
    rw [kfree_last given', kfree_last given]
  split at result
  next middle kept turns =>
    cases result
    rw [relocateSectionsIn_left turns]
    exact back
  next gives =>
    have left := relocateSectionsIn_left result
    cases relocated with
    | none => exact left.trans back
    | some middle => exact absurd result (gives middle after)

theorem elfLinkIn_balances {base : Nat} {shdrs : List Elf32Shdr}
    (result : elfLinkIn beyond answers ledger base size shdrs memory = .ok (relocated, after)) : after = ledger := by
  unfold elfLinkIn at result
  dsimp only at result
  split at result
  · cases result
  split at result
  · cases result
    rfl
  split at result
  · cases result
    rfl
  · exact elfResolveSymbolsIn_balances result

end Relocations

theorem elfLoadModuleIn_balances
    (result : elfLoadModuleIn beyond file answers ledger memory = .ok (loaded, after)) :
    LoadBalanced ledger loaded after := by
  unfold elfLoadModuleIn at result
  cases file with
  | none =>
    cases result
    rfl
  | some file =>
    dsimp only at result
    rcases fsOpen_cases ledger answers.fd with none | opens
    · rw [none] at result
      cases result
      rfl
    rw [opens] at result
    dsimp only at result
    iterate 3
      split at result
      · cases result
        exact fsClose_last
    rcases kmalloc_cases (addFile ledger answers.fd) answers.shdrs ((ehdrOf file).eShnum * elf32ShdrSize) with
      none | ⟨given, -, takes⟩
    · rw [none] at result
      cases result
      exact fsClose_last
    rw [takes] at result
    dsimp only at result
    rcases kmalloc_cases (addBlock (addFile ledger answers.fd) answers.shdrs) answers.strtab
        (headerAt beyond (shdrsOf file) (ehdrOf file).eShstrndx).shSize with none | ⟨given', -, takes'⟩
    · rw [none] at result
      cases result
      show ((addBlock (addFile ledger answers.fd) answers.shdrs).kfree answers.shdrs).fsClose answers.fd = ledger
      rw [kfree_last given, fsClose_last]
    rw [takes'] at result
    dsimp only at result
    rcases kmalloc_cases (addBlock (addBlock (addFile ledger answers.fd) answers.shdrs) answers.strtab) answers.base
        (totalSizeOf (shdrsOf file)) with none | ⟨given'', fresh, takes''⟩
    · rw [none] at result
      cases result
      show Ledger.fsClose (Ledger.kfree (Ledger.kfree _ answers.strtab) answers.shdrs) answers.fd = ledger
      rw [kfree_last given', kfree_last given, fsClose_last]
    rw [takes''] at result
    dsimp only at result
    split at result
    next => cases result
    next links =>
      cases result
      rw [elfLinkIn_balances links]
      show Ledger.fsClose (Ledger.kfree (Ledger.kfree (Ledger.kfree _ answers.base) answers.strtab) answers.shdrs)
        answers.fd = ledger
      rw [kfree_last given'', kfree_last given', kfree_last given, fsClose_last]
    next middle kept links =>
      cases result
      obtain rfl := elfLinkIn_balances links
      obtain ⟨strtab, shdrs, unused⟩ :
          answers.base ≠ answers.strtab ∧ answers.base ≠ answers.shdrs ∧ answers.base ∉ ledger.blocks.held := by
        simpa [addBlock, addFile, add] using fresh
      refine ⟨given'', unused, ?_⟩
      rw [kfree_under given' strtab.symm, kfree_under given shdrs.symm, fsClose_under]

section Images
variable {tables : ElfTables} {syms symstr base : Nat} {relocated : Option Memory} {heap : ElfHeap}

/-- What the answers of the calls are to a heap that is only asked whether it has a block. -/
def heapOf (answers : ElfAnswers) : ElfHeap where
  shdrs := answers.shdrs ≠ 0
  strtab := answers.strtab ≠ 0
  base := if answers.base = 0 then none else some answers.base
  syms := answers.syms ≠ 0
  symstr := answers.symstr ≠ 0

/-- No call is answered by something in use: not by what the ledger holds, and not by what an
earlier call was answered. -/
structure Unused (answers : ElfAnswers) (ledger : Ledger) : Prop where
  opened : 0 ≤ answers.fd
  fd : answers.fd ∉ ledger.files.held
  shdrs : answers.shdrs ∉ ledger.blocks.held
  strtab : answers.strtab = 0 ∨ answers.strtab ∉ answers.shdrs :: ledger.blocks.held
  base : answers.base = 0 ∨ answers.base ∉ answers.strtab :: answers.shdrs :: ledger.blocks.held
  syms : answers.syms = 0 ∨ answers.syms ∉ answers.base :: answers.strtab :: answers.shdrs :: ledger.blocks.held
  symstr : answers.symstr = 0 ∨
    answers.symstr ∉ answers.syms :: answers.base :: answers.strtab :: answers.shdrs :: ledger.blocks.held

theorem kmalloc_unused {answer : Nat} (unused : answer = 0 ∨ answer ∉ ledger.blocks.held) :
    ledger.kmalloc answer size =
      if size = 0 ∨ answer = 0 then (none, ledger) else (some answer, addBlock ledger answer) := by
  unfold Ledger.kmalloc
  by_cases fails : size = 0 ∨ answer = 0
  · rw [if_pos fails, if_pos fails]
  · rw [if_neg fails, if_neg fails]
    have fresh := unused.resolve_left fun zero => fails (.inr zero)
    rw [Holdings.take, if_neg fresh]
    rfl

theorem relocateIn_eq {rel : Elf32Rel} (result : relocate tables memory rel = .ok relocated) :
    relocateIn beyond tables syms symstr ledger memory rel =
      .ok (relocated, copiesLeft ledger syms symstr relocated) := by
  unfold relocate at result
  unfold relocateIn
  split at result
  · cases result
  rename_i within
  rw [if_neg within]
  dsimp only at result ⊢
  split at result
  · rename_i unresolved
    cases result
    rw [if_pos unresolved]
    rfl
  rename_i resolved
  rw [if_neg resolved]
  split at result
  · rename_i kind
    rw [if_pos kind]
    split at result
    · cases result
    rename_i inside
    rw [if_neg inside]
    split at result
    · rename_i plain
      cases result
      rw [if_pos plain]
      rfl
    · rename_i relative
      cases result
      rw [if_neg relative]
      rfl
  · rename_i kind
    cases result
    rw [if_neg kind]
    rfl

theorem relocateSectionIn_eq {relNum address : Nat}
    (result : relocateSection tables relNum address memory = .ok relocated) :
    relocateSectionIn beyond tables syms symstr ledger relNum address memory =
      .ok (relocated, copiesLeft ledger syms symstr relocated) := by
  induction relNum generalizing address memory with
  | zero =>
    cases result
    rfl
  | succ relNum ih =>
    unfold relocateSection at result
    unfold relocateSectionIn
    split at result
    next middle turn =>
      rw [relocateIn_eq turn]
      exact ih result
    next stops =>
      rw [relocateIn_eq result]
      cases relocated with
      | none => rfl
      | some middle => exact absurd result (stops middle)

theorem relocateSectionsIn_eq {shdrs : List Elf32Shdr} (result : relocateSections tables shdrs memory = .ok relocated) :
    relocateSectionsIn beyond tables syms symstr ledger shdrs memory =
      .ok (relocated, copiesLeft ledger syms symstr relocated) := by
  induction shdrs generalizing memory with
  | nil =>
    cases result
    rfl
  | cons section_ rest ih =>
    unfold relocateSections at result
    unfold relocateSectionsIn
    split at result
    next middle turn =>
      rw [relocateSectionIn_eq turn]
      exact ih result
    next stops =>
      rw [relocateSectionIn_eq result]
      cases relocated with
      | none => rfl
      | some middle => exact absurd result (stops middle)

theorem headerAt_some {shdrs : List Elf32Shdr} {index : Nat} {section_ : Elf32Shdr}
    (there : shdrs[index]? = some section_) : headerAt beyond shdrs index = section_ := by
  simp [headerAt, there]

theorem elfResolveSymbolsIn_eq {symtab : Elf32Shdr} {shdrs relSections : List Elf32Shdr} {link : Nat}
    (unused : answers.syms = 0 ∨ answers.syms ∉ ledger.blocks.held)
    (unused' : answers.symstr = 0 ∨ answers.symstr ∉ answers.syms :: ledger.blocks.held)
    (result : elfResolveSymbols (heapOf answers) base size symtab shdrs[link]? relSections memory = .ok relocated) :
    ∃ after, elfResolveSymbolsIn beyond answers ledger base size symtab (headerAt beyond shdrs link) relSections memory =
      .ok (relocated, after) := by
  unfold elfResolveSymbols at result
  unfold elfResolveSymbolsIn
  rw [kmalloc_unused unused]
  by_cases fails : symtab.shSize = 0 ∨ answers.syms = 0
  · rw [if_pos (by simpa [heapOf, or_comm] using fails)] at result
    cases result
    rw [if_pos fails]
    exact ⟨_, rfl⟩
  rw [if_neg (by simpa [heapOf, or_comm] using fails)] at result
  rw [if_neg fails]
  dsimp only
  rcases there : shdrs[link]? with _ | strtab
  · rw [there] at result
    cases result
  rw [there] at result
  have second : ∀ size, (addBlock ledger answers.syms).kmalloc answers.symstr size = _ := fun _ => kmalloc_unused unused'
  rw [headerAt_some there, second]
  dsimp only at result
  by_cases fails' : strtab.shSize = 0 ∨ answers.symstr = 0
  · rw [if_pos (by simpa [heapOf, or_comm] using fails')] at result
    cases result
    rw [if_pos fails']
    exact ⟨_, rfl⟩
  rw [if_neg (by simpa [heapOf, or_comm] using fails')] at result
  rw [if_neg fails']
  dsimp only
  rw [relocateSectionsIn_eq result]
  cases relocated with
  | none => exact ⟨_, rfl⟩
  | some middle => exact ⟨_, rfl⟩

theorem elfLinkIn_eq {shdrs : List Elf32Shdr} (unused : answers.syms = 0 ∨ answers.syms ∉ ledger.blocks.held)
    (unused' : answers.symstr = 0 ∨ answers.symstr ∉ answers.syms :: ledger.blocks.held)
    (result : elfLink (heapOf answers) base size shdrs memory = .ok relocated) :
    elfLinkIn beyond answers ledger base size shdrs memory = .ok (relocated, ledger) := by
  have links : ∃ after, elfLinkIn beyond answers ledger base size shdrs memory = .ok (relocated, after) := by
    unfold elfLink at result
    unfold elfLinkIn
    dsimp only at result ⊢
    split at result
    · cases result
    rename_i few
    rw [if_neg few]
    rcases (shdrs.filter fun section_ => section_.shType = shtSymtab).getLast?.eq_none_or_eq_some with none | ⟨symtab,
      found⟩
    · rw [none] at result ⊢
      cases result
      exact ⟨_, rfl⟩
    rw [found] at result ⊢
    dsimp only at result ⊢
    split at result
    · rename_i none
      cases result
      rw [if_pos none]
      exact ⟨_, rfl⟩
    · rename_i some
      rw [if_neg some]
      exact elfResolveSymbolsIn_eq unused unused' result
  obtain ⟨after, links⟩ := links
  obtain rfl := elfLinkIn_balances links
  exact links

/-- Where the loader that only asks whether there are blocks returns, it is the one that
counts them. -/
theorem elfLoadModuleIn_eq (unused : Unused answers ledger)
    (result : elfLoadModule file (heapOf answers) memory = .ok loaded) :
    ∃ after, elfLoadModuleIn beyond file answers ledger memory = .ok (loaded, after) := by
  unfold elfLoadModule at result
  unfold elfLoadModuleIn
  cases file with
  | none =>
    cases result
    exact ⟨_, rfl⟩
  | some file =>
    have opens : ledger.fsOpen answers.fd = (some answers.fd, addFile ledger answers.fd) := by
      rw [Ledger.fsOpen, if_neg (not_lt.mpr unused.opened), Holdings.take, if_neg unused.fd]
      rfl
    rw [opens]
    dsimp only at result ⊢
    iterate 3
      split at result
      · rename_i refuses
        cases result
        rw [if_pos refuses]
        exact ⟨_, rfl⟩
      rename_i passes
      rw [if_neg passes]
    have first : ∀ size, (addFile ledger answers.fd).kmalloc answers.shdrs size = _ :=
      fun _ => kmalloc_unused (.inr unused.shdrs)
    rw [first]
    by_cases fails : (ehdrOf file).eShnum * elf32ShdrSize = 0 ∨ answers.shdrs = 0
    · rw [if_pos (by simpa [heapOf, or_comm] using fails)] at result
      cases result
      rw [if_pos fails]
      exact ⟨_, rfl⟩
    rw [if_neg (by simpa [heapOf, or_comm] using fails)] at result
    rw [if_neg fails]
    dsimp only
    rcases there : (shdrsOf file)[(ehdrOf file).eShstrndx]? with _ | strtab
    · rw [there] at result
      cases result
    rw [there] at result
    have second : ∀ size, (addBlock (addFile ledger answers.fd) answers.shdrs).kmalloc answers.strtab size = _ :=
      fun _ => kmalloc_unused unused.strtab
    rw [headerAt_some there, second]
    dsimp only at result
    by_cases fails' : strtab.shSize = 0 ∨ answers.strtab = 0
    · rw [if_pos (by simpa [heapOf, or_comm] using fails')] at result
      cases result
      rw [if_pos fails']
      exact ⟨_, rfl⟩
    rw [if_neg (by simpa [heapOf, or_comm] using fails')] at result
    rw [if_neg fails']
    dsimp only
    have third : ∀ size,
        (addBlock (addBlock (addFile ledger answers.fd) answers.shdrs) answers.strtab).kmalloc answers.base size = _ :=
      fun _ => kmalloc_unused unused.base
    rw [third]
    by_cases none : answers.base = 0
    · rw [if_pos (.inr none)]
      have base : (heapOf answers).base = Option.none := by simp [heapOf, none]
      rw [base] at result
      cases result
      exact ⟨_, rfl⟩
    have base : (heapOf answers).base = some answers.base := by simp [heapOf, none]
    rw [base] at result
    dsimp only at result
    split at result
    · rename_i empty
      cases result
      rw [if_pos (.inl empty)]
      exact ⟨_, rfl⟩
    rename_i full
    rw [if_neg (not_or.mpr ⟨full, none⟩)]
    dsimp only
    split at result
    next => cases result
    next links =>
      cases result
      rw [elfLinkIn_eq unused.syms unused.symstr links]
      exact ⟨_, rfl⟩
    next middle links =>
      cases result
      rw [elfLinkIn_eq unused.syms unused.symstr links]
      exact ⟨_, rfl⟩

end Images

/-- The table is as it was when nothing is loaded, and has one record more, with the image,
when a module is. -/
def LkmBalanced (before : LkmState) (ret : Int) (after : LkmState) : Prop :=
  ret = -1 ∧ after = before ∨
    ret = 0 ∧ ∃ (free : before.lkmCount < maxLkms) (image : Nat),
      image ≠ 0 ∧ image ∉ before.ledger.blocks.held ∧ after.ledger = addBlock before.ledger image ∧
      after.lkmCount = before.lkmCount + 1 ∧ (after.loadedLkms ⟨before.lkmCount, free⟩).moduleCore = image ∧
      (∀ slot, slot.val ≠ before.lkmCount → after.loadedLkms slot = before.loadedLkms slot) ∧ after.exits = before.exits

section Tables
variable {initFunc : Nat → Int} {state loadedState : LkmState} {ret : Int}

/-- The ways through a load. Past the loader either `init` refuses, and the image goes back,
or the next record becomes the module's. -/
theorem lkmLoad_cases (result : lkmLoad beyond file answers memory initFunc state = .ok (ret, loadedState)) :
    ret = -1 ∧ loadedState = state ∨
      ∃ (free : state.lkmCount < maxLkms) (loaded : ElfModule),
        elfLoadModuleIn beyond file answers state.ledger memory =
          .ok (some loaded, addBlock state.ledger loaded.moduleBase) ∧
        loaded.moduleBase ≠ 0 ∧ loaded.moduleBase ∉ state.ledger.blocks.held ∧ initFunc loaded.entryPoint = 0 ∧ ret = 0 ∧
        loadedState =
          { state with
            loadedLkms := Function.update state.loadedLkms ⟨state.lkmCount, free⟩
              { state.loadedLkms ⟨state.lkmCount, free⟩ with
                name := literal "unknown"
                moduleCore := loaded.moduleBase
                size := loaded.moduleSize
                init := loaded.entryPoint }
            lkmCount := state.lkmCount + 1
            ledger := addBlock state.ledger loaded.moduleBase } := by
  unfold lkmLoad at result
  by_cases full : maxLkms ≤ state.lkmCount
  · rw [if_pos full] at result
    cases result
    exact .inl ⟨rfl, rfl⟩
  rw [if_neg full] at result
  obtain ⟨⟨loaded, ledger⟩, loads, result⟩ := bind_ok result
  have balanced := elfLoadModuleIn_balances loads
  cases loaded with
  | none =>
    cases result
    obtain rfl : ledger = state.ledger := balanced
    exact .inl ⟨rfl, rfl⟩
  | some loaded =>
    obtain ⟨given, fresh, rfl⟩ := balanced
    dsimp only at result
    by_cases refuses : initFunc loaded.entryPoint ≠ 0
    · rw [if_pos refuses, kfree_last given] at result
      cases result
      exact .inl ⟨rfl, rfl⟩
    · rw [if_neg refuses] at result
      have free : state.lkmCount < maxLkms := Nat.lt_of_not_le full
      obtain ⟨mod, reads, result⟩ := bind_ok result
      obtain rfl := Except.ok.inj ((elementAt_eq _ free).symm.trans reads)
      obtain ⟨table, writes, result⟩ := bind_ok result
      obtain rfl := Except.ok.inj ((setElement_eq _ free _).symm.trans writes)
      cases result
      exact .inr ⟨free, loaded, loads, given, fresh, not_not.mp refuses, rfl, rfl⟩

theorem lkmLoad_balances (result : lkmLoad beyond file answers memory initFunc state = .ok (ret, loadedState)) :
    LkmBalanced state ret loadedState := by
  rcases lkmLoad_cases result with ⟨rfl, rfl⟩ | ⟨free, loaded, -, given, fresh, -, rfl, rfl⟩
  · exact .inl ⟨rfl, rfl⟩
  · refine .inr ⟨rfl, free, loaded.moduleBase, given, fresh, rfl, rfl, ?_, ?_, rfl⟩
    · simp
    · intro slot other
      exact Function.update_of_ne (fun same => other (congrArg Fin.val same)) _ _

end Tables

/-- Nothing is read behind the tables. -/
def nothingBeyond : BeyondTables := ⟨fun _ => ⟨0, 0, 0, 0, 0, 0, 0⟩, fun _ => ⟨0, 0, 0⟩⟩

/-- The first descriptor, and the first blocks of a heap that was just laid out. -/
def firstAnswers : ElfAnswers := ⟨0, firstBlock, firstBlock + 64, firstBlock + 128, firstBlock + 192, firstBlock + 256⟩

/-- No module is loaded, and nothing is in use. -/
def noModules : LkmState := lkmInit ⟨fun _ => ⟨[], 0, 0, 0, 0, 0, 0⟩, 0, ⟨⟨[], 0⟩, ⟨[], 0⟩⟩, []⟩

end Kernix.Proofs
