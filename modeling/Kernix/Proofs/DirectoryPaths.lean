import Kernix.Proofs.FsTrees
import Kernix.Proofs.MountTable

/-! Paths that name directories. What a path resolves to goes on from what the part in
front of a slash resolves to, as long as both belong to the same mount. -/

namespace Kernix.Proofs
open ByteMemory

variable {δ : Type} {state : FsState δ} {path front back : List UInt8}

def NamesDirectory (state : FsState δ) (path : List UInt8) : Prop :=
  ∃ node, fsResolve state path = .ok node ∧ node ≠ 0 ∧ (state.nodes node).type = fsDir

/-- A path names a directory, and so does all of it in front of any of its slashes. -/
structure Leads (state : FsState δ) (path : List UInt8) : Prop where
  names : NamesDirectory state path
  fronts : ∀ front back, path = front ++ slash :: back → front ≠ [] → NamesDirectory state front

/-- The root is a directory, and every mount is at the path of one. -/
structure MountPoints (state : FsState δ) : Prop where
  root : NamesDirectory state [slash]
  targets : ∀ slot, (state.mnts slot).active = true → 0 < (text (state.mnts slot).path).length →
    Leads state (text (state.mnts slot).path)

theorem prefix_iff_of_short {target path front : List UInt8} (start : front <+: path)
    (short : target <+: path → target.length ≤ front.length) :
    target <+: front ↔ target <+: path :=
  ⟨fun inside => inside.trans start, fun inside => List.prefix_of_prefix_length_le inside start (short inside)⟩

/-- The mount of a path is the one of what it starts with, when its target is inside of that. -/
theorem findMnt_front {mnts : Fin fsMaxMnts → FsMnt} {slot : Fin fsMaxMnts} (found : findMnt mnts path = some slot)
    (start : front <+: path) (short : (text (mnts slot).path).length ≤ front.length) :
    findMnt mnts front = some slot := by
  have longest := findMnt_longest found
  have same (other : Fin fsMaxMnts) (active : (mnts other).active = true) :
      strStartsWith front (text (mnts other).path) = strStartsWith path (text (mnts other).path) := by
    rw [Bool.eq_iff_iff, strStartsWith_iff, strStartsWith_iff]
    apply prefix_iff_of_short start
    intro inside
    by_cases nonempty : 0 < (text (mnts other).path).length
    · rcases longest.least other (List.mem_finRange _) ⟨active, nonempty, inside⟩ with less | ⟨equal, -⟩ <;> omega
    · omega
  have passes : betterMnt mnts front = betterMnt mnts path := by
    funext best other
    unfold betterMnt
    dsimp only
    by_cases active : (mnts other).active = true
    · rw [same other active]
    · rw [Bool.not_eq_true] at active
      simp [active]
  rw [← found, findMnt, findMnt, passes]

theorem relativePath_slash {target front : List UInt8} (short : target.length ≤ front.length) (root : Nat) :
    resolveFrom state (relativePath target (front ++ slash :: back)) root [] =
      resolveFrom state (relativePath target front ++ slash :: back) root [] := by
  unfold relativePath
  rw [List.drop_append_of_le_length short]
  cases front.drop target.length with
  | nil => simp [resolveFrom]
  | cons byte rest =>
    rw [List.cons_append]
    dsimp only
    split <;> rfl

/-- The components in front of a slash come before those behind it. -/
theorem resolveFrom_slash {cur : Nat} (given : cur ≠ 0) (comp : List UInt8) :
    resolveFrom state (front ++ slash :: back) cur comp = (do
      let middle ← resolveFrom state front cur comp
      if middle = 0 then return 0
      resolveFrom state back middle []) := by
  induction front generalizing cur comp with
  | nil =>
    simp only [List.nil_append, resolveFrom, if_true]
    by_cases some : 0 < comp.length
    · rw [if_pos some, if_pos some]
    · rw [if_neg some, if_neg some, List.eq_nil_of_length_eq_zero (by omega : comp.length = 0)]
      simp [bind, Except.bind, given]
  | cons byte front ih =>
    rw [List.cons_append, resolveFrom, resolveFrom]
    split
    · split
      · cases lookupIn state cur comp with
        | error => rfl
        | ok child =>
          simp only [bind, Except.bind]
          by_cases missing : child = 0
          · rw [if_pos missing, if_pos missing]
            rfl
          · rw [if_neg missing, if_neg missing]
            exact ih missing []
      · exact ih given comp
    · exact ih given _

/-- Only a directory is looked into. -/
theorem lookupIn_directory {dir child : Nat} {name : List UInt8} (found : lookupIn state dir name = .ok child)
    (given : child ≠ 0) : (state.nodes dir).type = fsDir := by
  unfold lookupIn at found
  by_contra other
  split at found
  · cases found
    exact given rfl
  · rw [tmpfsLookup, if_pos other] at found
    cases found
    exact given rfl
  · rw [devfsLookup, if_pos other] at found
    cases found
    exact given rfl

/-- On the way to a directory there are directories. -/
theorem resolveFrom_directory {rel comp : List UInt8} {cur node : Nat} (leads : resolveFrom state rel cur comp = .ok node)
    (given : node ≠ 0) (directory : (state.nodes node).type = fsDir) : (state.nodes cur).type = fsDir := by
  induction rel generalizing comp with
  | nil =>
    rw [resolveFrom] at leads
    split at leads
    · exact lookupIn_directory leads given
    · cases leads
      exact directory
  | cons byte rel ih =>
    rw [resolveFrom] at leads
    split at leads
    · split at leads
      · obtain ⟨child, found, rest⟩ := bind_ok leads
        by_cases missing : child = 0
        · rw [if_pos missing] at rest
          cases rest
          exact absurd rfl given
        · exact lookupIn_directory found missing
      · exact ih leads
    · exact ih leads

/-- A path whose mount is found, and how it is resolved from there. -/
theorem NamesDirectory.mount (names : NamesDirectory state path) : ∃ slot node, path.head? = some slash ∧
    findMnt state.mnts path = some slot ∧ (state.mnts slot).root ≠ 0 ∧
    resolveFrom state (relativePath (text (state.mnts slot).path) path) (state.mnts slot).root [] = .ok node ∧
    node ≠ 0 ∧ (state.nodes node).type = fsDir := by
  obtain ⟨node, resolves, given, directory⟩ := names
  unfold fsResolve at resolves
  split at resolves
  · cases resolves
    exact absurd rfl given
  next absolute =>
    split at resolves
    · cases resolves
      exact absurd rfl given
    next slot found =>
      split at resolves
      · cases resolves
        exact absurd rfl given
      next rooted => exact ⟨slot, node, not_not.mp absolute, found, rooted, resolves, given, directory⟩

theorem fsResolve_eq {slot : Fin fsMaxMnts} (absolute : path.head? = some slash)
    (found : findMnt state.mnts path = some slot)
    (rooted : (state.mnts slot).root ≠ 0) : fsResolve state path =
      resolveFrom state (relativePath (text (state.mnts slot).path) path) (state.mnts slot).root [] := by
  unfold fsResolve
  rw [if_neg (not_not.mpr absolute), found]
  dsimp only
  rw [if_neg rooted]

theorem head_front {front back : List UInt8} (some_ : front ≠ []) (absolute : (front ++ back).head? = some slash) :
    front.head? = some slash := by
  obtain ⟨byte, rest, rfl⟩ := List.exists_cons_of_ne_nil some_
  exact absolute

/-- What a directory is named by leads to it. -/
theorem NamesDirectory.leads (points : MountPoints state) (names : NamesDirectory state path) : Leads state path := by
  refine ⟨names, ?_⟩
  rintro front back rfl some
  obtain ⟨slot, node, absolute, found, rooted, resolves, given, directory⟩ := names.mount
  have offers := (findMnt_longest found).offers
  by_cases short : (text (state.mnts slot).path).length ≤ front.length
  · have inside := findMnt_front found (List.prefix_append _ _) short
    rw [relativePath_slash short, resolveFrom_slash rooted] at resolves
    obtain ⟨middle, reaches, rest⟩ := bind_ok resolves
    by_cases missing : middle = 0
    · rw [if_pos missing] at rest
      cases rest
      exact absurd rfl given
    · rw [if_neg missing] at rest
      refine ⟨middle, ?_, missing, resolveFrom_directory rest given directory⟩
      rw [fsResolve_eq (head_front some absolute) inside rooted, reaches]
  · have start := List.prefix_of_prefix_length_le (List.prefix_append front (slash :: back)) offers.start (by omega)
    obtain ⟨tail, whole⟩ := start
    have longer := offers.start
    rw [← whole, List.prefix_append_right_inj] at longer
    cases tail with
    | nil =>
      rw [List.append_nil] at whole
      rw [whole] at short
      omega
    | cons byte tail =>
      obtain ⟨rfl, -⟩ := List.cons_prefix_cons.mp longer
      exact (points.targets slot offers.active offers.nonempty).fronts front tail whole.symm some

/-- A slash behind the name of a directory still leads to a directory. -/
theorem NamesDirectory.closed (points : MountPoints state) (names : NamesDirectory state path) :
    NamesDirectory state (path ++ [slash]) := by
  obtain ⟨slot, node, absolute, found, rooted, resolves, given, directory⟩ := names.mount
  have some : path ≠ [] := by
    rintro rfl
    cases absolute
  have opens : (path ++ [slash]).head? = Option.some slash := by
    rw [List.head?_append, absolute]
    rfl
  cases other : findMnt state.mnts (path ++ [slash]) with
  | none =>
    have offers := (findMnt_longest found).offers
    exact absurd ⟨offers.active, offers.nonempty, offers.start.trans (List.prefix_append _ _)⟩ (findMnt_none other slot)
  | some best =>
    have offers := (findMnt_longest other).offers
    by_cases short : (text (state.mnts best).path).length ≤ path.length
    · have same := findMnt_front other (List.prefix_append _ _) short
      cases found.symm.trans same
      refine ⟨node, ?_, given, directory⟩
      rw [fsResolve_eq opens other rooted, relativePath_slash short, resolveFrom_slash rooted, resolves]
      simp [bind, Except.bind, given, resolveFrom]
    · have whole := offers.start.eq_of_length_le (by rw [List.length_append, List.length_singleton]; omega)
      rw [← whole]
      exact (points.targets best offers.active offers.nonempty).names

end Kernix.Proofs
