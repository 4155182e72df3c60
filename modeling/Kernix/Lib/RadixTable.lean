import Kernix.Lib.ByteMemory
import Mathlib.Data.List.Basic

/-! Radix trees of tables in byte memory, the way a page walk reads them. A table
is found by the list of indices that leads to it from the root. The results say
which tables and which walks survive a write to one entry. -/

namespace RadixTable
open ByteMemory

/-- How eight-byte entries are read: whether one is in use, whether it maps a
range by itself instead of pointing to a table, and where it points. -/
structure Format where
  fanout : Nat
  present : Nat → Bool
  large : Nat → Bool
  target : Nat → Nat

/-- An entry that leads to a table of the next level. -/
def Format.links (format : Format) (entry : Nat) : Bool := format.present entry && !format.large entry

variable {format : Format} {memory after : Memory} {root table depth index : Nat} {path : List Nat}

def entryAt (memory : Memory) (table index : Nat) : Nat := load memory (table + 8 * index) 8

theorem entryAt_lt (memory : Memory) (table index : Nat) : entryAt memory table index < 2 ^ 64 := load_lt _ _ 8

/-- The table that a list of indices leads to. -/
def tableAt (format : Format) (memory : Memory) (table : Nat) : List Nat → Option Nat
  | [] => some table
  | index :: rest =>
    if format.links (entryAt memory table index) then
      tableAt format memory (format.target (entryAt memory table index)) rest
    else none

/-- Where a walk ends: the entry, and how many levels of tables it stands for. -/
structure Leaf where
  level : Nat
  entry : Nat
  deriving DecidableEq, Repr

/-- The walk of a full list of indices. A missing table reads as an empty one. -/
def walk (format : Format) (memory : Memory) (table : Nat) : List Nat → Leaf
  | [] => ⟨0, 0⟩
  | [index] => ⟨1, entryAt memory table index⟩
  | index :: next :: rest =>
    if format.links (entryAt memory table index) then
      walk format memory (format.target (entryAt memory table index)) (next :: rest)
    else if format.present (entryAt memory table index) then ⟨rest.length + 2, entryAt memory table index⟩
    else ⟨1, 0⟩

/-- No entry in use that a walk meets is against an access. -/
def rights (format : Format) (allows : Nat → Bool) (memory : Memory) (table : Nat) : List Nat → Bool
  | [] => true
  | index :: rest =>
    if format.present (entryAt memory table index) then
      allows (entryAt memory table index) &&
        (!format.links (entryAt memory table index) ||
          rights format allows memory (format.target (entryAt memory table index)) rest)
    else true

theorem tableAt_append (first second : List Nat) :
    tableAt format memory root (first ++ second) =
      (tableAt format memory root first).bind fun table => tableAt format memory table second := by
  induction first generalizing root with
  | nil => rfl
  | cons index rest ih =>
    simp only [List.cons_append, tableAt]
    split
    · exact ih
    · rfl

theorem walk_append {first second : List Nat} (found : tableAt format memory root first = some table)
    (more : second ≠ []) : walk format memory root (first ++ second) = walk format memory table second := by
  induction first generalizing root with
  | nil =>
    cases found
    rfl
  | cons index rest ih =>
    simp only [tableAt] at found
    split at found
    next links =>
      obtain ⟨next, others, same⟩ := List.exists_cons_of_ne_nil (List.append_ne_nil_of_right_ne_nil rest more)
      rw [List.cons_append, same, walk, if_pos links, ← same]
      exact ih found
    next => cases found

/-- A walk that meets an entry without a table ends there. -/
theorem walk_stop {first rest : List Nat} (found : tableAt format memory root first = some table)
    (more : rest ≠ []) (stops : format.links (entryAt memory table index) = false) :
    walk format memory root (first ++ index :: rest) =
      if format.present (entryAt memory table index) then ⟨rest.length + 1, entryAt memory table index⟩
      else ⟨1, 0⟩ := by
  rw [walk_append found (List.cons_ne_nil _ _)]
  obtain ⟨next, others, rfl⟩ := List.exists_cons_of_ne_nil more
  rw [walk, stops]
  simp only [Bool.false_eq_true, if_false, List.length_cons]

/-- A walk that reaches the last level followed a link at every entry in use above it. -/
theorem links_of_level_one {first rest : List Nat} (found : tableAt format memory root first = some table)
    (more : rest ≠ []) (last : (walk format memory root (first ++ index :: rest)).level = 1)
    (used : format.present (entryAt memory table index) = true) :
    format.links (entryAt memory table index) = true := by
  by_contra stops
  rw [walk_stop found more (by simpa using stops), if_pos used] at last
  exact more (List.length_eq_zero_iff.mp (Nat.succ.inj last))

/-- A walk to a missing table that meets no large entry reads nothing. -/
theorem walk_missing (missing : tableAt format memory root path = none)
    (last : (walk format memory root (path ++ [index])).level = 1) :
    walk format memory root (path ++ [index]) = ⟨1, 0⟩ := by
  induction path generalizing root with
  | nil => cases missing
  | cons slot rest ih =>
    obtain ⟨next, others, same⟩ := List.exists_cons_of_ne_nil (List.append_ne_nil_of_right_ne_nil rest
      (List.cons_ne_nil index []))
    rw [List.cons_append, same, walk, ← same] at last ⊢
    rw [tableAt] at missing
    split at missing
    next links =>
      rw [if_pos links] at last ⊢
      exact ih missing last
    next stops =>
      rw [if_neg stops] at last ⊢
      split at last
      · cases last
      next absent => rw [if_neg absent]

/-- A walk that ends above the last level does not depend on the last index. -/
theorem walk_above {last other : Nat} (above : (walk format memory root (path ++ [last])).level ≠ 1) :
    walk format memory root (path ++ [other]) = walk format memory root (path ++ [last]) := by
  induction path generalizing root with
  | nil => exact (above rfl).elim
  | cons slot rest ih =>
    cases rest with
    | nil =>
      simp only [List.cons_append, List.nil_append, walk] at above ⊢
      split
      next links =>
        rw [if_pos links] at above
        exact (above rfl).elim
      next => rfl
    | cons next others =>
      simp only [List.cons_append, walk, List.length_append, List.length_singleton] at above ih ⊢
      split
      next links =>
        rw [if_pos links] at above
        exact ih above
      next => rfl

/-- Two memories give the same entries along a path. -/
def SameEntries (format : Format) (memory after : Memory) (root : Nat) (path : List Nat) : Prop :=
  ∀ first index rest table, path = first ++ index :: rest → tableAt format memory root first = some table →
    entryAt after table index = entryAt memory table index

theorem SameEntries.tail {rest : List Nat} (same : SameEntries format memory after root (index :: rest))
    (links : format.links (entryAt memory root index) = true) :
    SameEntries format memory after (format.target (entryAt memory root index)) rest := by
  intro first slot others table split found
  refine same (index :: first) slot others table (by rw [split]; rfl) ?_
  rw [tableAt, if_pos links]
  exact found

theorem SameEntries.tableAt (same : SameEntries format memory after root path) :
    tableAt format after root path = tableAt format memory root path := by
  induction path generalizing root with
  | nil => rfl
  | cons index rest ih =>
    have head := same [] index rest root rfl rfl
    simp only [RadixTable.tableAt, head]
    split
    next links => exact ih (same.tail links)
    next => rfl

theorem SameEntries.walk (same : SameEntries format memory after root path) :
    walk format after root path = walk format memory root path := by
  induction path generalizing root with
  | nil => rfl
  | cons index rest ih =>
    have head := same [] index rest root rfl rfl
    cases rest with
    | nil => simp only [RadixTable.walk, head]
    | cons next others =>
      simp only [RadixTable.walk, head]
      split
      next links => exact ih (same.tail links)
      next => rfl

theorem SameEntries.rights {allows : Nat → Bool} (same : SameEntries format memory after root path) :
    rights format allows after root path = rights format allows memory root path := by
  induction path generalizing root with
  | nil => rfl
  | cons index rest ih =>
    have head := same [] index rest root rfl rfl
    simp only [RadixTable.rights, head]
    cases links : format.links (entryAt memory root index) with
    | true => rw [ih (same.tail links)]
    | false => rfl

/-- The rights along a path are those up to a table on it and those from there on. -/
theorem rights_append {allows : Nat → Bool} {first : List Nat} (second : List Nat)
    (found : RadixTable.tableAt format memory root first = some table) :
    rights format allows memory root (first ++ second) =
      (rights format allows memory root first && rights format allows memory table second) := by
  induction first generalizing root with
  | nil =>
    cases found
    rfl
  | cons index rest ih =>
    simp only [RadixTable.tableAt] at found
    split at found
    next links =>
      have present : format.present (entryAt memory root index) = true := by
        simp only [Format.links, Bool.and_eq_true] at links
        exact links.1
      simp only [List.cons_append, RadixTable.rights, links, present, if_true, Bool.not_true, Bool.false_or, ih found,
        Bool.and_assoc]
    next => cases found

/-- Two formats that agree on the entries along a path find the same tables on it. -/
theorem tableAt_formats {other : Format} (targets : ∀ entry, other.target entry = format.target entry)
    (agree : ∀ first index rest table, path = first ++ index :: rest → tableAt format memory root first = some table →
      other.links (entryAt memory table index) = format.links (entryAt memory table index)) :
    tableAt other memory root path = tableAt format memory root path := by
  induction path generalizing root with
  | nil => rfl
  | cons index rest ih =>
    simp only [tableAt, agree [] index rest root rfl rfl, targets]
    split
    next links =>
      refine ih fun first slot others table split found => ?_
      refine agree (index :: first) slot others table (by rw [split]; rfl) ?_
      rw [tableAt, if_pos links]
      exact found
    next => rfl

/-- A list of at most `depth` indices. -/
structure Path (format : Format) (depth : Nat) (path : List Nat) : Prop where
  short : path.length ≤ depth
  small : ∀ index ∈ path, index < format.fanout

theorem Path.left {first second : List Nat} (valid : Path format depth (first ++ second)) :
    Path format depth first :=
  ⟨by have := valid.short; rw [List.length_append] at this; omega,
    fun index member => valid.small index (List.mem_append_left _ member)⟩

/-- Different paths lead to tables that do not overlap. -/
def Tree (format : Format) (memory : Memory) (root depth : Nat) : Prop :=
  ∀ first second left right, Path format depth first → Path format depth second → first ≠ second →
    tableAt format memory root first = some left → tableAt format memory root second = some right →
    left + 8 * format.fanout ≤ right ∨ right + 8 * format.fanout ≤ left

/-- All entries of the tree but one are the same. -/
def Untouched (format : Format) (memory after : Memory) (root depth : Nat) (path : List Nat) (index : Nat) : Prop :=
  ∀ other slot place, Path format depth other → slot < format.fanout →
    tableAt format memory root other = some place → other ≠ path ∨ slot ≠ index →
    entryAt after place slot = entryAt memory place slot

/-- Paths that avoid the changed entry see no difference. -/
theorem Untouched.sameEntries {other : List Nat} (untouched : Untouched format memory after root depth path index)
    (valid : Path format (depth + 1) other) (avoids : ¬path ++ [index] <+: other) :
    SameEntries format memory after root other := by
  rintro first slot rest place rfl found
  have length := valid.short
  simp only [List.length_append, List.length_cons] at length
  refine untouched first slot place ⟨by omega, fun index member => valid.small index (by simp [member])⟩
    (valid.small slot (by simp)) found ?_
  by_contra both
  obtain ⟨rfl, rfl⟩ : first = path ∧ slot = index := by
    constructor
    · by_contra differ
      exact both (Or.inl differ)
    · by_contra differ
      exact both (Or.inr differ)
  exact avoids ⟨rest, by simp⟩

/-- A store to one entry of a tree touches no other. -/
theorem Tree.store_untouched (tree : Tree format memory root depth) (valid : Path format depth path)
    (small : index < format.fanout) (found : tableAt format memory root path = some table) (value : Nat) :
    Untouched format memory (store memory (table + 8 * index) 8 value) root depth path index := by
  intro other slot place route inside reached differ
  refine load_store_apart memory ?_
  by_cases same : other = path
  · subst same
    have here : place = table := Option.some.inj (reached.symm.trans found)
    have apart : slot ≠ index := differ.resolve_left (fun differ => differ rfl)
    omega
  · have apart := tree other path place table route valid same reached found
    omega

/-- A write into a table of the last level moves no table. -/
theorem Untouched.tableAt_leaf {other : List Nat} (untouched : Untouched format memory after root depth path index)
    (full : path.length = depth) (valid : Path format depth other) :
    tableAt format after root other = tableAt format memory root other := by
  refine (untouched.sameEntries ⟨by have := valid.short; omega, valid.small⟩ ?_).tableAt
  intro longer
  have length := longer.length_le
  have short := valid.short
  simp only [List.length_append, List.length_singleton] at length
  omega

/-- A write into a table of the last level changes only the walk that ends there. -/
theorem Untouched.walk_leaf {other : List Nat} (untouched : Untouched format memory after root depth path index)
    (full : path.length = depth) (valid : Path format (depth + 1) other) (whole : other.length = depth + 1)
    (differ : other ≠ path ++ [index]) : walk format after root other = walk format memory root other := by
  refine (untouched.sameEntries valid ?_).walk
  intro longer
  exact differ (longer.eq_of_length (by simp [full, whole])).symm

/-- A free entry was made to point to an empty table outside the tree. -/
structure Linked (format : Format) (memory after : Memory) (root depth : Nat) (path : List Nat)
    (table index fresh : Nat) : Prop where
  untouched : Untouched format memory after root depth path index
  absent : format.present (entryAt memory table index) = false
  links : format.links (entryAt after table index) = true
  target : format.target (entryAt after table index) = fresh
  empty : ∀ slot < format.fanout, entryAt after fresh slot = 0
  outside : ∀ other place, Path format depth other → tableAt format memory root other = some place →
    fresh + 8 * format.fanout ≤ place ∨ place + 8 * format.fanout ≤ fresh

section Linked
variable {fresh : Nat} (linked : Linked format memory after root depth path table index fresh)
  (valid : Path format depth (path ++ [index])) (found : tableAt format memory root path = some table)
  (zero : format.present 0 = false)
include linked valid

/-- The entries above the new link are the same. -/
theorem Linked.sameAbove : SameEntries format memory after root path := by
  refine linked.untouched.sameEntries ⟨Nat.le_succ_of_le valid.left.short, valid.left.small⟩ ?_
  intro longer
  have length := longer.length_le
  simp only [List.length_append, List.length_singleton] at length
  omega

include found

theorem Linked.reaches : tableAt format after root (path ++ [index]) = some fresh := by
  have route := (linked.sameAbove valid).tableAt.trans found
  rw [tableAt_append, route]
  simp only [Option.bind_some, tableAt, linked.links, if_true, linked.target]

include zero

/-- Nothing hangs below the new table. -/
theorem Linked.below {slot : Nat} {rest : List Nat} (small : slot < format.fanout) :
    tableAt format after root (path ++ [index] ++ slot :: rest) = none := by
  rw [tableAt_append, linked.reaches valid found]
  simp only [Option.bind_some, tableAt, linked.empty slot small, Format.links, zero, Bool.false_and, Bool.false_eq_true,
    if_false]

/-- The tables afterwards: those there were, and the new one. -/
theorem Linked.tableAt_iff {other : List Nat} {place : Nat} (inside : Path format depth other) :
    tableAt format after root other = some place ↔
      (other = path ++ [index] ∧ place = fresh) ∨ tableAt format memory root other = some place := by
  have before : ∀ rest, tableAt format memory root (path ++ [index] ++ rest) = none := by
    intro rest
    rw [List.append_assoc, tableAt_append, found]
    simp only [Option.bind_some, List.cons_append, List.nil_append, tableAt, Format.links, linked.absent,
      Bool.false_and, Bool.false_eq_true, if_false]
  by_cases through : path ++ [index] <+: other
  · obtain ⟨rest, rfl⟩ := through
    rw [before rest]
    cases rest with
    | nil =>
      rw [List.append_nil, linked.reaches valid found]
      simp [eq_comm]
    | cons slot rest =>
      have small := inside.small slot (by simp)
      rw [linked.below valid found zero small]
      simp
  · have same := (linked.untouched.sameEntries
      ⟨Nat.le_succ_of_le inside.short, inside.small⟩ through).tableAt
    have differ : other ≠ path ++ [index] := fun equal => through (equal ▸ List.prefix_rfl)
    simp [same, differ]

theorem Linked.tree (tree : Tree format memory root depth) : Tree format after root depth := by
  intro first second left right one two differ found' found''
  rcases (linked.tableAt_iff valid found zero one).mp found' with ⟨same, rfl⟩ | old
  · rcases (linked.tableAt_iff valid found zero two).mp found'' with ⟨same', rfl⟩ | old'
    · exact (differ (same.trans same'.symm)).elim
    · exact linked.outside second right two old'
  · rcases (linked.tableAt_iff valid found zero two).mp found'' with ⟨same', rfl⟩ | old'
    · exact (linked.outside first left one old).symm
    · exact tree first second left right one two differ old old'

/-- An empty table reads the same as a missing one, so no walk changes. -/
theorem Linked.walk {other : List Nat} (inside : Path format (depth + 1) other) (whole : other.length = depth + 1) :
    walk format after root other = walk format memory root other := by
  by_cases through : path ++ [index] <+: other
  · obtain ⟨rest, rfl⟩ := through
    have short := valid.short
    simp only [List.length_append, List.length_singleton] at short whole
    have more : rest ≠ [] := by
      rintro rfl
      simp only [List.length_nil] at whole
      omega
    have unlinked : format.links (entryAt memory table index) = false := by simp [Format.links, linked.absent]
    have stopped := walk_stop found more unlinked
    rw [linked.absent] at stopped
    simp only [Bool.false_eq_true, if_false] at stopped
    rw [List.append_assoc, List.singleton_append, stopped, ← List.singleton_append, ← List.append_assoc,
      walk_append (linked.reaches valid found) more]
    obtain ⟨slot, others, rfl⟩ := List.exists_cons_of_ne_nil more
    have bare := linked.empty slot (inside.small slot (by simp))
    cases others with
    | nil => simp only [RadixTable.walk, bare]
    | cons next others => simp only [RadixTable.walk, bare, Format.links, zero, Bool.false_and, Bool.false_eq_true,
      if_false]
  · exact (linked.untouched.sameEntries inside through).walk

/-- A link that allows an access takes no right away. -/
theorem Linked.rights {allows : Nat → Bool} {other : List Nat} (allowed : allows (entryAt after table index) = true)
    (inside : Path format (depth + 1) other) :
    rights format allows after root other = rights format allows memory root other := by
  by_cases through : path ++ [index] <+: other
  · obtain ⟨rest, rfl⟩ := through
    have route := (linked.sameAbove valid).tableAt.trans found
    have above : RadixTable.rights format allows after root path = RadixTable.rights format allows memory root path :=
      (linked.sameAbove valid).rights
    have below : RadixTable.rights format allows after fresh rest = true := by
      cases rest with
      | nil => rfl
      | cons slot others =>
        have bare := linked.empty slot (inside.small slot (by simp))
        simp only [RadixTable.rights, bare, zero, Bool.false_eq_true, if_false]
    have used : format.present (entryAt after table index) = true := by
      have links := linked.links
      simp only [Format.links, Bool.and_eq_true] at links
      exact links.1
    rw [List.append_assoc, rights_append _ route, rights_append _ found, above]
    simp only [List.singleton_append, RadixTable.rights, linked.absent, used, allowed, linked.links, linked.target, below,
      if_true, Bool.false_eq_true, if_false, Bool.not_true, Bool.or_true, Bool.and_true]
  · exact (linked.untouched.sameEntries inside through).rights

end Linked

end RadixTable
