import Kernix.Proofs.FsFrames
import Kernix.Proofs.Strings
import Mathlib.Data.List.Induction

/-! Which mount a path belongs to. `find_mnt` compares bytes: it takes the longest
target that the path starts with, the first such one of the table, and does not
look at where components end. -/

namespace Kernix.Proofs
open ByteMemory

variable {δ : Type}

/-- A slot that `find_mnt` considers for a path. -/
structure Offers (mnts : Fin fsMaxMnts → FsMnt) (path : List UInt8) (slot : Fin fsMaxMnts) : Prop where
  active : (mnts slot).active = true
  nonempty : 0 < (text (mnts slot).path).length
  start : text (mnts slot).path <+: path

/-- The longest offer among some slots, the first one where targets are repeated. -/
structure Longest (mnts : Fin fsMaxMnts → FsMnt) (path : List UInt8) (slots : List (Fin fsMaxMnts))
    (best : Fin fsMaxMnts) : Prop where
  among : best ∈ slots
  offers : Offers mnts path best
  least : ∀ other ∈ slots, Offers mnts path other →
    (text (mnts other).path).length < (text (mnts best).path).length ∨
      (text (mnts other).path).length = (text (mnts best).path).length ∧ best ≤ other

/-- What `best` and `best_len` say about the slots that the loop has seen. -/
def Scanned (mnts : Fin fsMaxMnts → FsMnt) (path : List UInt8) (slots : List (Fin fsMaxMnts)) :
    Option (Fin fsMaxMnts) × Nat → Prop
  | (none, length) => length = 0 ∧ ∀ slot ∈ slots, ¬Offers mnts path slot
  | (some best, length) => length = (text (mnts best).path).length ∧ Longest mnts path slots best

private theorem Scanned.skip {mnts : Fin fsMaxMnts → FsMnt} {path : List UInt8} {slots : List (Fin fsMaxMnts)}
    {best : Option (Fin fsMaxMnts) × Nat} {slot : Fin fsMaxMnts} (scanned : Scanned mnts path slots best)
    (after : ∀ other ∈ slots, other < slot)
    (short : Offers mnts path slot → (text (mnts slot).path).length ≤ best.2) :
    Scanned mnts path (slots ++ [slot]) best := by
  obtain ⟨best, length⟩ := best
  cases best with
  | none =>
    refine ⟨scanned.1, fun other member => ?_⟩
    rcases List.mem_append.mp member with member | member
    · exact scanned.2 other member
    · rw [List.mem_singleton.mp member]
      intro offers
      have positive := offers.nonempty
      have bound := short offers
      have zero := scanned.1
      dsimp only at bound
      omega
  | some best =>
    obtain ⟨same, longest⟩ := scanned
    refine ⟨same, List.mem_append_left _ longest.among, longest.offers, fun other member offers => ?_⟩
    rcases List.mem_append.mp member with member | member
    · exact longest.least other member offers
    · rw [List.mem_singleton.mp member] at offers ⊢
      have bound := short offers
      have early := after best longest.among
      dsimp only at bound
      rw [same] at bound
      rcases Nat.lt_or_eq_of_le bound with shorter | equal
      · exact Or.inl shorter
      · exact Or.inr ⟨equal, Fin.le_of_lt early⟩

private theorem Scanned.take {mnts : Fin fsMaxMnts → FsMnt} {path : List UInt8} {slots : List (Fin fsMaxMnts)}
    {best : Option (Fin fsMaxMnts) × Nat} {slot : Fin fsMaxMnts} (scanned : Scanned mnts path slots best)
    (offers : Offers mnts path slot) (longer : best.2 < (text (mnts slot).path).length) :
    Scanned mnts path (slots ++ [slot]) (some slot, (text (mnts slot).path).length) := by
  refine ⟨rfl, List.mem_append_right _ List.mem_cons_self, offers, fun other member others => ?_⟩
  rcases List.mem_append.mp member with member | member
  · obtain ⟨best, length⟩ := best
    cases best with
    | none => exact (scanned.2 other member others).elim
    | some best =>
      obtain ⟨same, longest⟩ := scanned
      dsimp only at longer
      rw [same] at longer
      left
      rcases longest.least other member others with shorter | ⟨equal, _⟩
      · omega
      · omega
  · rw [List.mem_singleton.mp member]
    exact Or.inr ⟨rfl, Fin.le_refl slot⟩

private theorem betterMnt_scanned {mnts : Fin fsMaxMnts → FsMnt} {path : List UInt8} {slots : List (Fin fsMaxMnts)}
    {best : Option (Fin fsMaxMnts) × Nat} {slot : Fin fsMaxMnts} (scanned : Scanned mnts path slots best)
    (after : ∀ other ∈ slots, other < slot) : Scanned mnts path (slots ++ [slot]) (betterMnt mnts path best slot) := by
  unfold betterMnt
  dsimp only
  split
  next idle =>
    refine scanned.skip after fun offers => ?_
    simp [offers.active] at idle
  next busy =>
    split
    next longer =>
      refine scanned.take ⟨by simpa using busy, by omega, (strStartsWith_iff _ _).mp longer.2⟩ longer.1
    next short =>
      refine scanned.skip after fun offers => ?_
      by_contra longer
      exact short ⟨by omega, (strStartsWith_iff _ _).mpr offers.start⟩

private theorem scan_all (mnts : Fin fsMaxMnts → FsMnt) (path : List UInt8) (slots : List (Fin fsMaxMnts))
    (sorted : slots.Pairwise (· < ·)) : Scanned mnts path slots (slots.foldl (betterMnt mnts path) (none, 0)) := by
  induction slots using List.reverseRecOn with
  | nil => exact ⟨rfl, by simp⟩
  | append_singleton slots slot ih =>
    obtain ⟨before, _, after⟩ := List.pairwise_append.mp sorted
    rw [List.foldl_append]
    exact betterMnt_scanned (ih before) fun other member => after other member slot List.mem_cons_self

theorem findMnt_longest {mnts : Fin fsMaxMnts → FsMnt} {path : List UInt8} {best : Fin fsMaxMnts}
    (found : findMnt mnts path = some best) : Longest mnts path (List.finRange fsMaxMnts) best := by
  have scanned := scan_all mnts path _ (List.pairwise_lt_finRange fsMaxMnts)
  unfold findMnt at found
  generalize (List.finRange fsMaxMnts).foldl (betterMnt mnts path) (none, 0) = result at scanned found
  obtain ⟨best', length⟩ := result
  cases found
  exact scanned.2

theorem findMnt_none {mnts : Fin fsMaxMnts → FsMnt} {path : List UInt8} (missing : findMnt mnts path = none)
    (slot : Fin fsMaxMnts) : ¬Offers mnts path slot := by
  have scanned := scan_all mnts path _ (List.pairwise_lt_finRange fsMaxMnts)
  unfold findMnt at missing
  generalize (List.finRange fsMaxMnts).foldl (betterMnt mnts path) (none, 0) = result at scanned missing
  obtain ⟨best, length⟩ := result
  cases missing
  exact scanned.2 slot (List.mem_finRange slot)

theorem NodeMade.mnts {before after : FsState δ} {name : List UInt8} {type : UInt8} {node : Nat}
    (made : NodeMade before name type node after) : after.mnts = before.mnts := by
  cases made with
  | refused made => exact (KeepsTree.create made).mnts
  | fresh _ creates => exact (KeepsTree.create creates).mnts

/-- A driver fills in the root and the private data of its slot. -/
theorem mountAs_mnts {ext4Mount : Ext4Mount δ} {before after : FsState δ} {slot : Fin fsMaxMnts}
    {src : Option (List UInt8)} {tgt : List UInt8} {type : FsType} {ret : Int}
    (result : mountAs ext4Mount before slot src tgt type = .ok (ret, after)) :
    ∃ root priv, after.mnts = Function.update before.mnts slot { before.mnts slot with root, priv } := by
  have kept : before.mnts = Function.update before.mnts slot
      { before.mnts slot with root := (before.mnts slot).root, priv := (before.mnts slot).priv } :=
    (Function.update_eq_self slot before.mnts).symm
  cases type with
  | tmpfs =>
    obtain ⟨⟨root, made⟩, makes, rest⟩ := bind_ok result
    have same := (fsMknode_made makes).mnts
    dsimp only at rest
    split at rest
    next =>
      cases rest
      exact ⟨_, _, same.trans kept⟩
    next =>
      cases rest
      refine ⟨root, (before.mnts slot).priv, ?_⟩
      simp only [FsState.setMnt, FsState.setNode, same]
  | devfs =>
    obtain ⟨⟨root, made⟩, makes, rest⟩ := bind_ok result
    have same := (fsMknode_made makes).mnts
    dsimp only at rest
    split at rest
    next =>
      cases rest
      exact ⟨_, _, same.trans kept⟩
    next =>
      cases rest
      refine ⟨root, (before.mnts slot).priv, ?_⟩
      simp only [FsState.setMnt, FsState.setNode, same]
  | ext4 =>
    obtain ⟨mounted, _, rest⟩ := bind_ok result
    cases rest
    exact ⟨mounted.root, mounted.priv, rfl⟩

/-- A mount that returns 0 fills the first free slot and leaves the others alone. -/
theorem fsMount_mnts {ext4Mount : Ext4Mount δ} {before after : FsState δ} {src : Option (List UInt8)}
    {tgt typeName : List UInt8} (clean : 0 ∉ tgt)
    (result : fsMount ext4Mount before src tgt typeName = .ok (0, after)) :
    ∃ slot mnt, (before.mnts slot).active = false ∧ (∀ earlier < slot, (before.mnts earlier).active = true) ∧
      mnt.active = true ∧ text mnt.path = tgt ∧ after.mnts = Function.update before.mnts slot mnt := by
  unfold fsMount at result
  split at result
  next => cases result
  next slot found =>
    obtain ⟨idle, busy⟩ := FirstIndex.found_iff.mp found
    split at result
    next => cases result
    next type _ =>
      obtain ⟨path, copied, rest⟩ := bind_ok result
      obtain ⟨⟨ret, mounted⟩, mounts, rest⟩ := bind_ok rest
      obtain ⟨root, priv, filled⟩ := mountAs_mnts mounts
      dsimp only at rest
      split at rest
      next failed =>
        cases rest
        exact (failed rfl).elim
      next =>
        obtain ⟨printed, prints, rest⟩ := bind_ok rest
        cases rest
        have shown := (KeepsTree.systemPrintAll prints).mnts
        refine ⟨slot, ⟨path, some type, root, priv, true⟩, by simpa using idle, fun earlier early => ?_, rfl,
          (strCopy_text clean copied).2, ?_⟩
        · simpa using busy earlier early
        · rw [shown]
          simp [FsState.setMnt, filled]

/-- The targets of a table that was filled by successful mounts, in their order. -/
inductive Mounted (ext4Mount : Ext4Mount δ) : List (List UInt8) → FsState δ → Prop where
  | empty {state : FsState δ} (idle : ∀ slot, (state.mnts slot).active = false) : Mounted ext4Mount [] state
  | mount {targets : List (List UInt8)} {before after : FsState δ} {src : Option (List UInt8)} {tgt typeName : List UInt8}
      (mounted : Mounted ext4Mount targets before) (clean : 0 ∉ tgt)
      (result : fsMount ext4Mount before src tgt typeName = .ok (0, after)) :
      Mounted ext4Mount (targets ++ [tgt]) after

/-- The slots in use are the first ones, and they hold the targets in order. -/
structure Table (targets : List (List UInt8)) (mnts : Fin fsMaxMnts → FsMnt) : Prop where
  room : targets.length ≤ fsMaxMnts
  active : ∀ slot, (mnts slot).active = true ↔ slot.val < targets.length
  path : ∀ slot, slot.val < targets.length → targets[slot.val]? = some (text (mnts slot).path)

theorem Mounted.table {ext4Mount : Ext4Mount δ} {targets : List (List UInt8)} {state : FsState δ}
    (mounted : Mounted ext4Mount targets state) : Table targets state.mnts := by
  induction mounted with
  | empty idle => exact ⟨Nat.zero_le _, by simp [idle], by simp⟩
  | @mount targets before after src tgt typeName mounted clean result ih =>
    obtain ⟨slot, mnt, idle, busy, active, path, filled⟩ := fsMount_mnts clean result
    have place : slot.val = targets.length := by
      have high : ¬slot.val < targets.length := fun low => by
        rw [(ih.active slot).mpr low] at idle
        cases idle
      have low : ¬targets.length < slot.val := fun high => by
        have early := busy ⟨targets.length, by omega⟩ (by simpa [Fin.lt_def] using high)
        exact (Nat.lt_irrefl _ ((ih.active _).mp early)).elim
      omega
    have room := slot.isLt
    refine ⟨?_, fun other => ?_, fun other inside => ?_⟩
    · simp only [List.length_append, List.length_singleton]
      omega
    · simp only [filled, Function.update_apply, List.length_append, List.length_singleton]
      split
      next same =>
        rw [same]
        exact iff_of_true active (by omega)
      next different =>
        rw [ih.active]
        have apart : other.val ≠ slot.val := fun same => different (Fin.ext same)
        omega
    · simp only [List.length_append, List.length_singleton] at inside
      simp only [filled, Function.update_apply]
      split
      next same => rw [same, path, place, List.getElem?_concat_length]
      next different =>
        have apart : other.val ≠ slot.val := fun same => different (Fin.ext same)
        rw [List.getElem?_append_left (by omega)]
        exact ih.path other (by omega)

/-- A target that a path starts with, up to the end of one of its components. -/
def WholePrefix (target path : List UInt8) : Prop :=
  ∃ rest, path = target ++ rest ∧ (rest = [] ∨ rest.head? = some slash ∨ target.getLast? = some slash)

/-- The place of the mount that a path should belong to: the longest target that
covers it, and of several mounts there the latest. -/
def Chosen (targets : List (List UInt8)) (path : List UInt8) (place : Nat) : Prop :=
  ∃ target, targets[place]? = some target ∧ WholePrefix target path ∧
    (∀ other ∈ targets, WholePrefix other path → other.length ≤ target.length) ∧
    ∀ later : Nat, targets[later]? = some target → later ≤ place

/-- `find_mnt` chooses as it should, and a path that was just mounted leads to its root. -/
structure FindsMount (targets : List (List UInt8)) (state : FsState δ) (path : List UInt8) : Prop where
  finds : ∀ slot, findMnt state.mnts path = some slot ↔ Chosen targets path slot.val
  mounted : targets.getLast? = some path → ∀ slot : Fin fsMaxMnts, slot.val + 1 = targets.length →
    fsResolve state path = .ok (state.mnts slot).root

/-- The longest target that a path starts with, if there is one, is no empty one,
covers the path, and was mounted once. -/
def Unambiguous (targets : List (List UInt8)) (path : List UInt8) : Prop :=
  ∀ (place : Nat) (target : List UInt8), targets[place]? = some target → target <+: path →
    (∀ other ∈ targets, other <+: path → other.length ≤ target.length) →
    target ≠ [] ∧ WholePrefix target path ∧ ∀ other : Nat, targets[other]? = some target → other = place

theorem WholePrefix.start {target path : List UInt8} (covers : WholePrefix target path) : target <+: path := by
  obtain ⟨rest, rfl, _⟩ := covers
  exact List.prefix_append target rest

theorem prefix_length_eq {first second path : List UInt8} (left : first <+: path) (right : second <+: path)
    (same : first.length = second.length) : first = second := by
  rw [List.prefix_iff_eq_take.mp left, List.prefix_iff_eq_take.mp right, same]

theorem exists_latest {targets : List (List UInt8)} {place : Nat} {target : List UInt8}
    (here : targets[place]? = some target) :
    ∃ last : Nat, targets[last]? = some target ∧ ∀ later : Nat, targets[later]? = some target → later ≤ last := by
  have bound : ∀ other : Nat, targets[other]? = some target → other ≤ targets.length := fun other found =>
    (List.getElem?_eq_some_iff.mp found).1.le
  let held (other : Nat) : Prop := targets[other]? = some target
  have spec : held (Nat.findGreatest held targets.length) :=
    Nat.findGreatest_spec (bound place here) (show held place from here)
  exact ⟨_, spec, fun later found => Nat.le_findGreatest (bound later found) (show held later from found)⟩

theorem Chosen.unique {targets : List (List UInt8)} {path : List UInt8} {first second : Nat}
    (left : Chosen targets path first) (right : Chosen targets path second) : first = second := by
  obtain ⟨target, here, covers, longest, latest⟩ := left
  obtain ⟨other, there, covers', longest', latest'⟩ := right
  have same : target = other := prefix_length_eq covers.start covers'.start
    (Nat.le_antisymm (longest' target (List.mem_of_getElem? here) covers)
      (longest other (List.mem_of_getElem? there) covers'))
  subst same
  exact Nat.le_antisymm (latest' first here) (latest second there)

namespace Table
variable {targets : List (List UInt8)} {mnts : Fin fsMaxMnts → FsMnt} {path : List UInt8}

theorem slot (table : Table targets mnts) {place : Nat} {target : List UInt8} (here : targets[place]? = some target) :
    ∃ slot : Fin fsMaxMnts, slot.val = place ∧ (mnts slot).active = true ∧ text (mnts slot).path = target := by
  obtain ⟨inside, _⟩ := List.getElem?_eq_some_iff.mp here
  have room := table.room
  let slot : Fin fsMaxMnts := ⟨place, by omega⟩
  refine ⟨slot, rfl, (table.active slot).mpr inside, ?_⟩
  exact Option.some.inj ((table.path slot inside).symm.trans here)

theorem target (table : Table targets mnts) {slot : Fin fsMaxMnts} (active : (mnts slot).active = true) :
    targets[slot.val]? = some (text (mnts slot).path) :=
  table.path slot ((table.active slot).mp active)

/-- The slot that is found holds the longest target that the path starts with. -/
theorem longest (table : Table targets mnts) {best : Fin fsMaxMnts} (found : findMnt mnts path = some best) :
    ∀ other ∈ targets, other <+: path → other.length ≤ (text (mnts best).path).length := by
  intro other member start
  obtain ⟨place, here⟩ := List.getElem?_of_mem member
  obtain ⟨slot, _, active, rfl⟩ := table.slot here
  rcases Nat.eq_zero_or_pos (text (mnts slot).path).length with empty | nonempty
  · omega
  · rcases (findMnt_longest found).least slot (List.mem_finRange slot) ⟨active, nonempty, start⟩ with shorter | ⟨equal, _⟩
    · exact shorter.le
    · exact equal.le

theorem finds_chosen (table : Table targets mnts) (single : Unambiguous targets path) {best : Fin fsMaxMnts}
    (found : findMnt mnts path = some best) : Chosen targets path best.val := by
  have offers := (findMnt_longest found).offers
  have here := table.target offers.active
  obtain ⟨_, covers, once⟩ := single best.val _ here offers.start (table.longest found)
  exact ⟨_, here, covers, fun other member covered => table.longest found other member covered.start,
    fun later again => (once later again).le⟩

theorem chosen_found (table : Table targets mnts) (single : Unambiguous targets path) {slot : Fin fsMaxMnts}
    (chosen : Chosen targets path slot.val) : findMnt mnts path = some slot := by
  cases found : findMnt mnts path with
  | some best => rw [Fin.ext ((table.finds_chosen single found).unique chosen)]
  | none =>
    -- Nothing offers itself, so every target the path starts with is empty, also the chosen one.
    obtain ⟨target, here, covers, _⟩ := chosen
    have empty : ∀ other ∈ targets, other <+: path → other.length = 0 := by
      intro other member start
      obtain ⟨place, there⟩ := List.getElem?_of_mem member
      obtain ⟨slot, _, active, rfl⟩ := table.slot there
      exact Nat.eq_zero_of_not_pos fun nonempty => findMnt_none found slot ⟨active, nonempty, start⟩
    have least : ∀ other ∈ targets, other <+: path → other.length ≤ target.length := fun other member start => by
      rw [empty other member start]
      exact Nat.zero_le _
    have nonempty := (single slot.val target here covers.start least).1
    exact (nonempty (List.length_eq_zero_iff.mp (empty target (List.mem_of_getElem? here) covers.start))).elim

theorem unambiguous (table : Table targets mnts) (absolute : path.head? = some slash)
    (finds : ∀ slot, findMnt mnts path = some slot ↔ Chosen targets path slot.val) : Unambiguous targets path := by
  intro place target here start longest
  cases found : findMnt mnts path with
  | none =>
    obtain ⟨slot, _, active, rfl⟩ := table.slot here
    have empty : text (mnts slot).path = [] := List.length_eq_zero_iff.mp
      (Nat.eq_zero_of_not_pos fun nonempty => findMnt_none found slot ⟨active, nonempty, start⟩)
    -- The empty target covers an absolute path, so its latest mount should have been found.
    rw [empty] at here longest
    obtain ⟨last, there, latest⟩ := exists_latest here
    obtain ⟨slot, rfl, _⟩ := table.slot there
    have chosen : Chosen targets path slot.val :=
      ⟨[], there, ⟨path, rfl, Or.inr (Or.inl absolute)⟩, fun other member covers => longest other member covers.start,
        latest⟩
    rw [(finds slot).mpr chosen] at found
    cases found
  | some best =>
    have scan := findMnt_longest found
    obtain ⟨target', there, covers, _, latest⟩ := (finds best).mp found
    obtain rfl : target' = text (mnts best).path := Option.some.inj (there.symm.trans (table.target scan.offers.active))
    have same : target = text (mnts best).path := prefix_length_eq start covers.start
      (Nat.le_antisymm (table.longest found target (List.mem_of_getElem? here) start)
        (longest _ (List.mem_of_getElem? there) covers.start))
    subst same
    have once : ∀ other : Nat, targets[other]? = some (text (mnts best).path) → other = best.val := by
      intro other again
      obtain ⟨slot, rfl, active, equal⟩ := table.slot again
      have first : best ≤ slot := by
        rcases scan.least slot (List.mem_finRange slot) ⟨active, equal ▸ scan.offers.nonempty, equal ▸ start⟩ with
          shorter | ⟨_, first⟩
        · rw [equal] at shorter
          exact (Nat.lt_irrefl _ shorter).elim
        · exact first
      exact Nat.le_antisymm (latest slot.val again) first
    refine ⟨List.length_pos_iff.mp scan.offers.nonempty, covers, fun other again => ?_⟩
    rw [once other again, once place here]

end Table

theorem WholePrefix.refl (path : List UInt8) : WholePrefix path path := ⟨[], (List.append_nil path).symm, Or.inl rfl⟩

/-- A path that is itself the target of the slot found for it leads to the root. -/
theorem fsResolve_target {state : FsState δ} {path : List UInt8} {slot : Fin fsMaxMnts}
    (absolute : path.head? = some slash) (found : findMnt state.mnts path = some slot)
    (target : text (state.mnts slot).path = path) : fsResolve state path = .ok (state.mnts slot).root := by
  have rest : relativePath path path = [] := by
    unfold relativePath
    rw [List.drop_length]
  unfold fsResolve
  rw [if_neg (not_not.mpr absolute), found]
  dsimp only
  split
  next none => rw [none]
  next =>
    rw [target, rest]
    rfl

/-- After any sequence of successful mounts a path is sent to the mount it should
belong to exactly when the longest target that it starts with covers it and was
mounted once. -/
theorem find_mnt_finds_iff {ext4Mount : Ext4Mount δ} {targets : List (List UInt8)} {state : FsState δ}
    {path : List UInt8} (mounted : Mounted ext4Mount targets state) (absolute : path.head? = some slash) :
    FindsMount targets state path ↔ Unambiguous targets path := by
  have table := mounted.table
  constructor
  · exact fun correct => table.unambiguous absolute correct.finds
  · intro single
    refine ⟨fun slot => ⟨table.finds_chosen single, table.chosen_found single⟩, fun last slot place => ?_⟩
    have here : targets[slot.val]? = some path := by
      rw [← last, List.getLast?_eq_getElem?, ← place]
      rfl
    have longest : ∀ other ∈ targets, other <+: path → other.length ≤ path.length := fun _ _ start => start.length_le
    obtain ⟨_, covers, once⟩ := single slot.val path here (List.prefix_refl path) longest
    have chosen : Chosen targets path slot.val :=
      ⟨path, here, covers, fun other member covered => longest other member covered.start,
        fun later again => (once later again).le⟩
    obtain ⟨slot', same, _, target⟩ := table.slot here
    obtain rfl := Fin.ext same
    exact fsResolve_target absolute (table.chosen_found single chosen) target

/-- Mount one target after the other, as long as every mount returns 0. -/
def mountAll (ext4Mount : Ext4Mount δ) (state : FsState δ) : List (List UInt8 × FsType) → Option (FsState δ)
  | [] => some state
  | (tgt, type) :: requests =>
    match fsMount ext4Mount state none tgt type.name with
    | .ok (0, after) => mountAll ext4Mount after requests
    | _ => none

theorem mountAll_mounted {ext4Mount : Ext4Mount δ} {targets : List (List UInt8)} {first last : FsState δ}
    {requests : List (List UInt8 × FsType)} (mounted : Mounted ext4Mount targets first)
    (clean : ∀ request ∈ requests, 0 ∉ request.1) (run : mountAll ext4Mount first requests = some last) :
    Mounted ext4Mount (targets ++ requests.map Prod.fst) last := by
  induction requests generalizing targets first with
  | nil =>
    cases run
    simpa using mounted
  | cons request requests ih =>
    obtain ⟨tgt, type⟩ := request
    unfold mountAll at run
    split at run
    next after result =>
      have rest := ih (.mount mounted (clean (tgt, type) List.mem_cons_self) result)
        (fun other member => clean other (List.mem_cons_of_mem _ member)) run
      simpa using rest
    next => cases run

/-- A kernel heap as `kernel_memory_init` lays it out in memory full of zeros. -/
def zeroedHeap : Memory :=
  match kernelMemoryInit (fun _ => 0) heapStart heapSize with
  | .ok (_, memory) => memory
  | .error _ => fun _ => 0

/-- A machine without a disk. -/
def noDisk : Ext4Mount Unit := fun state _ _ => .ok ⟨-1, 0, 0, state.memory, state.nodes⟩

/-- `fs_init` and the three types behind it, on a machine without devices. -/
def registeredFs : FsState Unit :=
  { fsStatic zeroedHeap heapStart () with types := [.tmpfs, .devfs, .ext4] }

theorem registeredFs_mounted : Mounted noDisk [] registeredFs := .empty fun _ => rfl

theorem find_mnt_finds_iff_device :
    ∃ state, Mounted noDisk [literal "/", literal "/dev"] state ∧
      (FindsMount [literal "/", literal "/dev"] state (literal "/dev/mouse") ↔
        Unambiguous [literal "/", literal "/dev"] (literal "/dev/mouse")) := by
  have returns : (mountAll noDisk registeredFs [(literal "/", .tmpfs), (literal "/dev", .devfs)]).isSome = true := by
    decide +kernel
  obtain ⟨state, run⟩ := Option.isSome_iff_exists.mp returns
  have mounted := mountAll_mounted registeredFs_mounted (by decide) run
  exact ⟨state, mounted, find_mnt_finds_iff mounted (by decide)⟩

/-- A mount at `/dev` captures `/devices/x`. -/
theorem find_mnt_captures :
    ¬ ∀ (targets : List (List UInt8)) (state : FsState Unit) (path : List UInt8), Mounted noDisk targets state →
      path.head? = some slash → FindsMount targets state path := by
  intro claim
  have returns : (mountAll noDisk registeredFs [(literal "/", .tmpfs), (literal "/dev", .devfs)]).map
      (fun state => findMnt state.mnts (literal "/devices/x")) = some (some 1) := by decide +kernel
  obtain ⟨state, run, found⟩ := Option.map_eq_some_iff.mp returns
  have mounted := mountAll_mounted registeredFs_mounted (by decide) run
  obtain ⟨target, here, ⟨rest, split, ends⟩, _⟩ := ((claim _ state _ mounted (by decide)).finds 1).mp found
  cases here
  have tail : rest = literal "ices/x" := List.append_cancel_left split.symm
  rw [tail] at ends
  revert ends
  decide

end Kernix.Proofs
