import Kernix.Lib.Runs
import Kernix.Proofs.DirectoryPaths
import Kernix.Proofs.FsReach
import Kernix.Proofs.VolumePaths
import Kernix.Shell.FsCommands

/-! The working directory of the shell. After a directory is entered its path ends in a
slash, and the next `cd ..` takes nothing but this slash away. A path resolves by the names
between its slashes, which are looked up one after the other, from the root of the mount
that its target selects. -/

namespace Kernix.Proofs
open ByteMemory Transition

variable {δ : Type} {state : FsState δ} {cwd after middle : PathBuffer} {found path front rest : List UInt8}

/-- The path that `cd` looks for. -/
def combined (cwd s : List UInt8) : List UInt8 :=
  let path := if s = [] then [slash] else s
  if path.head? = some slash then path
  else if cwd.getLast? = some slash then cwd ++ path
  else cwd ++ slash :: path

/-- The path as `cd` keeps it. -/
def closed (path : List UInt8) : List UInt8 := if path.getLast? = some slash then path else path ++ [slash]

/-- The path of the directory above, where `cd ..` has gone up. -/
structure WentUp (state : FsState δ) (before after : List UInt8) : Prop where
  names : NamesDirectory state after
  components : components after = (components before).dropLast

/-- `cd ..` goes up from a path that does not end in a slash, and stays at the root. -/
def GoesUp (path : List UInt8) : Prop := components path = [] ∨ path.getLast? ≠ some slash

/-- A name of one component. -/
structure SingleName (name : List UInt8) : Prop where
  some : name ≠ []
  plain : slash ∉ name
  clean : 0 ∉ name
  other : name ≠ literal ".."

/-- A `cd` whose combined path is shorter than `MAX_PATH_LEN`, and that returns. -/
structure CdMoves (state : FsState δ) (before : PathBuffer) (s : List UInt8) (after : PathBuffer) : Prop where
  clean : 0 ∉ s
  short : s ≠ literal ".." → (combined (text before) s).length < maxPathLen
  runs : cmdCd state before s = .ok after

section Components

theorem componentsFrom_append (front rest comp : List UInt8) :
    componentsFrom (front ++ slash :: rest) comp = componentsFrom front comp ++ componentsFrom rest [] := by
  induction front generalizing comp with
  | nil =>
    simp only [List.nil_append, componentsFrom, if_true]
    split <;> rfl
  | cons byte front ih =>
    rw [List.cons_append, componentsFrom, componentsFrom]
    split
    · split
      · exact ih []
      · rw [ih [], List.cons_append]
    · exact ih _

theorem componentsFrom_plain (plain : slash ∉ rest) (comp : List UInt8) :
    componentsFrom rest comp = if comp ++ rest = [] then [] else [comp ++ rest] := by
  induction rest generalizing comp with
  | nil => rw [componentsFrom, List.append_nil]
  | cons byte rest ih =>
    obtain ⟨other, plain⟩ := not_or.mp (mt List.mem_cons.mpr plain)
    rw [componentsFrom, if_neg (Ne.symm other), ih plain, List.append_assoc, List.singleton_append]

theorem components_append (plain : slash ∉ rest) :
    components (front ++ slash :: rest) = components front ++ if rest = [] then [] else [rest] := by
  rw [components, componentsFrom_append, componentsFrom_plain plain, List.nil_append]
  rfl

/-- A path with a slash, cut at the last one. -/
theorem exists_split_last (divided : slash ∈ path) : ∃ front rest, path = front ++ slash :: rest ∧ slash ∉ rest := by
  obtain ⟨back, front, split, plain⟩ := List.eq_append_cons_of_mem (List.mem_reverse.mpr divided)
  refine ⟨front.reverse, back.reverse, ?_, by simpa using plain⟩
  rw [← List.reverse_reverse path, split]
  simp

theorem exists_last_slash (absolute : path.head? = some slash) :
    ∃ front rest, path = front ++ slash :: rest ∧ slash ∉ rest :=
  exists_split_last (List.mem_of_head? absolute)

theorem lastSlash_plain (plain : slash ∉ rest) (p last : Nat) : lastSlash rest p last = last := by
  induction rest generalizing p with
  | nil => rfl
  | cons byte rest ih =>
    obtain ⟨other, plain⟩ := not_or.mp (mt List.mem_cons.mpr plain)
    rw [lastSlash, if_neg (Ne.symm other), ih plain]

theorem lastSlash_append (plain : slash ∉ rest) (front : List UInt8) (p last : Nat) :
    lastSlash (front ++ slash :: rest) p last = p + front.length := by
  induction front generalizing p last with
  | nil =>
    rw [List.nil_append, lastSlash, if_pos rfl, lastSlash_plain plain]
    rfl
  | cons byte front ih =>
    rw [List.cons_append, lastSlash, ih, List.length_cons]
    omega

end Components

section Buffers

theorem lastByte_eq (lies : TextIs cwd 0 found) {byte : UInt8} (last : found.getLast? = some byte) :
    lastByte cwd = .ok byte := by
  unfold lastByte
  rw [lies.ok]
  simp only [bind, Except.bind, last]
  rfl

/-- A slash goes behind a path that does not end in one, when there is room for it. -/
theorem appendSlash_closes (lies : TextIs cwd 0 found) (some_ : found ≠ []) :
    (∃ after, appendSlash cwd = .ok after ∧ TextIs after 0 (closed found)) ∨
      maxPathLen ≤ (closed found).length ∧ ¬∃ after, appendSlash cwd = .ok after := by
  have fits := lies.fits
  obtain ⟨byte, last⟩ : ∃ byte, found.getLast? = some byte := ⟨_, List.getLast?_eq_some_getLast some_⟩
  unfold appendSlash closed
  rw [lastByte_eq lies last, last]
  simp only [bind, Except.bind, ne_eq, ite_not, Option.some.injEq]
  by_cases ends : byte = slash
  · rw [if_pos ends, if_pos ends]
    exact .inl ⟨cwd, rfl, lies⟩
  · rw [if_neg ends, if_neg ends]
    by_cases room : found.length + 1 < maxPathLen
    · exact .inl (strAppend_joins lies (by decide) room)
    · refine .inr ⟨by simpa using room, ?_⟩
      rintro ⟨after, appends⟩
      unfold strAppend at appends
      rw [lies.ok] at appends
      have past := (strCopyFrom_copied (by decide) appends).fits
      exact room past

/-- `cd ..` keeps what is in front of the last slash. -/
theorem cdParent_cuts (lies : TextIs cwd 0 (front ++ slash :: rest)) (plain : slash ∉ rest) :
    ∃ after, cdParent cwd = .ok after ∧ TextIs after 0 (if front = [] then [slash] else front) := by
  have fits := lies.fits
  rw [List.length_append, List.length_cons] at fits
  unfold cdParent
  rw [lies.ok]
  simp only [bind, Except.bind, lastSlash_append plain, Nat.zero_add]
  by_cases root : front = []
  · subst root
    have short : [slash].length < maxPathLen := by decide
    obtain ⟨after, copies⟩ := strCopy_returns cwd short
    refine ⟨after, copies, ?_⟩
    exact (strCopyFrom_copied (by decide) copies).lies (by decide)
  · have positive : front.length ≠ 0 := by simpa using root
    rw [if_pos positive, if_neg root, setElement_eq _ (by omega)]
    exact ⟨_, rfl, lies.truncate (by omega)⟩

/-- The combined path is put together in `full_path`. -/
theorem fullPath_combines (lies : TextIs cwd 0 found) (some_ : found ≠ []) {s : List UInt8} (clean : 0 ∉ s)
    (short : (combined found s).length < maxPathLen) :
    ∃ full, fullPath cwd (if s = [] then [slash] else s) = .ok full ∧ TextIs full 0 (combined found s) := by
  have pure_ : 0 ∉ (if s = [] then [slash] else s) := by
    split
    · decide
    · exact clean
  unfold combined at short ⊢
  unfold fullPath
  generalize (if s = [] then [slash] else s) = path at pure_ short ⊢
  dsimp only at short ⊢
  by_cases absolute : path.head? = some slash
  · rw [if_pos absolute] at short ⊢
    rw [if_pos absolute]
    obtain ⟨full, copies⟩ := strCopy_returns (fun _ => 0 : PathBuffer) short
    exact ⟨full, copies, (strCopyFrom_copied pure_ copies).lies pure_⟩
  · rw [if_neg absolute] at short ⊢
    rw [if_neg absolute, lies.ok]
    have shape : (if found.getLast? = some slash then found ++ path else found ++ slash :: path) =
      closed found ++ path := by
      unfold closed
      split
      · rfl
      · rw [List.append_assoc, List.singleton_append]
    rw [shape] at short ⊢
    rw [List.length_append] at short
    have room : found.length < maxPathLen := by
      have fits := lies.fits
      omega
    obtain ⟨full, copies⟩ := strCopy_returns (fun _ => 0 : PathBuffer) room
    have copied := (strCopyFrom_copied lies.clean copies).lies lies.clean
    simp only [bind, Except.bind, copies]
    rcases appendSlash_closes copied some_ with ⟨ended, ends, whole⟩ | ⟨long, -⟩
    · rw [ends]
      exact strAppend_joins whole pure_ short
    · omega

end Buffers

section Command
variable {s : List UInt8}

theorem combined_absolute (absolute : found.head? = some slash) (s : List UInt8) :
    (combined found s).head? = some slash := by
  unfold combined
  generalize (if s = [] then [slash] else s) = path
  dsimp only
  split
  next rooted => exact rooted
  next =>
    split
    · rw [List.head?_append, absolute]
      rfl
    · rw [List.head?_append, absolute]
      rfl

theorem cmdCd_stays (lies : TextIs cwd 0 found) (some_ : found ≠ []) (clean : 0 ∉ s) (other : s ≠ literal "..")
    (short : (combined found s).length < maxPathLen) (resolves : ∃ node, fsResolve state (combined found s) = .ok node)
    (missing : ¬NamesDirectory state (combined found s)) : cmdCd state cwd s = .ok cwd := by
  obtain ⟨node, resolves⟩ := resolves
  obtain ⟨full, combines, whole⟩ := fullPath_combines lies some_ clean short
  have path : (if s = [] then [slash] else s) ≠ literal ".." := by
    split
    · decide
    · exact other
  unfold cmdCd
  dsimp only
  rw [if_neg path, combines]
  simp only [bind, Except.bind]
  rw [whole.ok]
  dsimp only
  rw [resolves]
  dsimp only
  by_cases none : node = 0
  · rw [if_pos none]
    rfl
  · rw [if_neg none, if_pos fun directory => missing ⟨node, resolves, none, directory⟩]
    rfl

theorem cmdCd_enters (lies : TextIs cwd 0 found) (absolute : found.head? = some slash) (clean : 0 ∉ s) (other : s ≠ literal "..")
    (short : (combined found s).length < maxPathLen) (names : NamesDirectory state (combined found s)) :
    (∃ after, cmdCd state cwd s = .ok after ∧ TextIs after 0 (closed (combined found s))) ∨
      maxPathLen ≤ (closed (combined found s)).length ∧ ¬∃ after, cmdCd state cwd s = .ok after := by
  have rooted := combined_absolute absolute s
  have some_ : found ≠ [] := by
    rintro rfl
    cases absolute
  obtain ⟨node, resolves, given, directory⟩ := names
  obtain ⟨full, combines, whole⟩ := fullPath_combines lies some_ clean short
  have path : (if s = [] then [slash] else s) ≠ literal ".." := by
    split
    · decide
    · exact other
  obtain ⟨entered, copies⟩ := strCopy_returns cwd short
  have copied := (strCopyFrom_copied whole.clean copies).lies whole.clean
  have runs : cmdCd state cwd s = if 1 < (combined found s).length then appendSlash entered else .ok entered := by
    unfold cmdCd
    dsimp only
    rw [if_neg path, combines]
    simp only [bind, Except.bind]
    rw [whole.ok]
    dsimp only
    rw [resolves]
    dsimp only
    rw [if_neg given, if_neg (not_not.mpr directory), copies]
    rfl
  rw [runs]
  generalize combined found s = path at rooted copied
  by_cases long : 1 < path.length
  · rw [if_pos long]
    exact appendSlash_closes copied (by rintro rfl; cases rooted)
  · rw [if_neg long]
    obtain ⟨byte, rest, rfl⟩ : ∃ byte rest, path = byte :: rest := List.exists_cons_of_ne_nil (by rintro rfl; cases rooted)
    rw [List.length_cons] at long
    obtain rfl := List.eq_nil_of_length_eq_zero (by omega : rest.length = 0)
    cases Option.some.inj rooted
    exact .inl ⟨entered, rfl, copied⟩

/-- `cd ..` is the only argument that is looked at first. -/
theorem cmdCd_parent (cwd : PathBuffer) : cmdCd state cwd (literal "..") = cdParent cwd := by
  unfold cmdCd
  dsimp only
  rw [if_pos (by decide)]

end Command

/-- What `cd` keeps: `cwd` holds a path that leads to a directory. -/
structure WorksIn (state : FsState δ) (cwd : PathBuffer) (found : List UInt8) : Prop where
  lies : TextIs cwd 0 found
  leads : Leads state found

theorem WorksIn.absolute (works : WorksIn state cwd found) : found.head? = some slash := by
  obtain ⟨_, _, absolute, -⟩ := works.leads.names.mount
  exact absolute

theorem NamesDirectory.closed_path (points : MountPoints state) (names : NamesDirectory state path) :
    NamesDirectory state (Proofs.closed path) := by
  unfold Proofs.closed
  split
  · exact names
  · exact names.closed points

theorem start_works (points : MountPoints state) : WorksIn state cwdStart [slash] := by
  refine ⟨⟨by decide, ?_, rfl, by decide⟩, points.root.leads points⟩
  intro index inside
  rw [List.length_singleton] at inside
  obtain rfl : index = 0 := by omega
  rfl

/-- `cd ..` leads to a directory: what stands in front of the last slash. -/
theorem WorksIn.cut (points : MountPoints state) (works : WorksIn state cwd (front ++ slash :: rest))
    (plain : slash ∉ rest) :
    ∃ after, cmdCd state cwd (literal "..") = .ok after ∧ WorksIn state after (if front = [] then [slash] else front) := by
  obtain ⟨after, cuts, lies⟩ := cdParent_cuts works.lies plain
  refine ⟨after, (cmdCd_parent cwd).trans cuts, lies, ?_⟩
  split
  · exact points.root.leads points
  next some => exact (works.leads.fronts front rest rfl some).leads points

/-- Every `cd` that returns leads to a directory. -/
theorem WorksIn.moves (points : MountPoints state) (total : ∀ path, ∃ node, fsResolve state path = .ok node)
    (works : WorksIn state cwd found) {s : List UInt8} (moves : CdMoves state cwd s after) :
    ∃ next, WorksIn state after next := by
  by_cases up : s = literal ".."
  · subst up
    obtain ⟨front, rest, rfl, plain⟩ := exists_last_slash works.absolute
    obtain ⟨other, cuts, next⟩ := works.cut points plain
    cases cuts.symm.trans moves.runs
    exact ⟨_, next⟩
  · have short := moves.short up
    rw [works.lies.text_found] at short
    have absolute := works.absolute
    by_cases names : NamesDirectory state (combined found s)
    · rcases cmdCd_enters works.lies absolute moves.clean up short names with ⟨other, enters, lies⟩ | ⟨-, never⟩
      · cases enters.symm.trans moves.runs
        exact ⟨_, lies, (names.closed_path points).leads points⟩
      · exact absurd ⟨after, moves.runs⟩ never
    · have stays := cmdCd_stays works.lies (by rintro rfl; cases absolute) moves.clean up short (total _) names
      cases stays.symm.trans moves.runs
      exact ⟨found, works⟩

/-- What stands in front of the last slash is a path upwards only where there is something
behind it. -/
theorem wentUp_iff (plain : slash ∉ rest) (names : NamesDirectory state (if front = [] then [slash] else front)) :
    WentUp state (front ++ slash :: rest) (if front = [] then [slash] else front) ↔ GoesUp (front ++ slash :: rest) := by
  have above : components (if front = [] then [slash] else front) = components front := by
    split
    next empty =>
      rw [empty]
      rfl
    next => rfl
  have whole : components (front ++ slash :: rest) = components front ++ if rest = [] then [] else [rest] :=
    components_append plain
  by_cases empty : rest = []
  · subst empty
    rw [if_pos rfl, List.append_nil] at whole
    constructor
    · intro up
      have same := up.components
      rw [above, whole] at same
      have length := congrArg List.length same
      rw [List.length_dropLast] at length
      left
      rw [whole]
      exact List.eq_nil_of_length_eq_zero (by omega)
    · rintro (none | other)
      · refine ⟨names, ?_⟩
        rw [above, whole]
        rw [whole] at none
        rw [none]
        rfl
      · exact absurd (by simp) other
  · rw [if_neg empty] at whole
    refine iff_of_true ⟨names, ?_⟩ (.inr ?_)
    · rw [above, whole, List.dropLast_concat]
    · rw [List.getLast?_append_of_ne_nil _ (List.cons_ne_nil _ _), List.getLast?_cons_of_ne_nil empty]
      intro last
      exact plain (List.mem_of_getLast? last)

theorem combined_single {name : List UInt8} (single : SingleName name) : combined found name = closed found ++ name := by
  unfold combined closed
  dsimp only
  rw [if_neg single.some, if_neg fun first => single.plain (List.mem_of_head? first)]
  split
  · rfl
  · rw [List.append_assoc, List.singleton_append]

theorem closed_single {name : List UInt8} (single : SingleName name) :
    closed (combined found name) = combined found name ++ [slash] := by
  rw [combined_single single, closed, if_neg]
  rw [List.getLast?_append_of_ne_nil _ single.some]
  exact fun last => single.plain (List.mem_of_getLast? last)

/-- What is right about `cd` in a state of the shell, and what is not. -/
structure CdRight (state : FsState δ) (cwd : PathBuffer) : Prop where
  names : NamesDirectory state (text cwd)
  returns : ∀ s, 0 ∉ s → s ≠ literal ".." → (combined (text cwd) s).length < maxPathLen →
    ((∃ after, cmdCd state cwd s = .ok after) ↔
      (NamesDirectory state (combined (text cwd) s) → (closed (combined (text cwd) s)).length < maxPathLen))
  up : ∃ after, cmdCd state cwd (literal "..") = .ok after ∧ (WentUp state (text cwd) (text after) ↔ GoesUp (text cwd))
  back : ∀ name middle, SingleName name → NamesDirectory state (combined (text cwd) name) →
    CdMoves state cwd name middle →
    ∃ after, cmdCd state middle (literal "..") = .ok after ∧
      (fsResolve state (text after) = fsResolve state (text cwd) ↔
        fsResolve state (combined (text cwd) name) = fsResolve state (text cwd))

section Runs
variable (points : MountPoints state)
include points

theorem WorksIn.goesUp (works : WorksIn state cwd found) :
    ∃ after, cmdCd state cwd (literal "..") = .ok after ∧ (WentUp state (text cwd) (text after) ↔ GoesUp (text cwd)) := by
  obtain ⟨front, rest, rfl, plain⟩ := exists_last_slash works.absolute
  obtain ⟨after, cuts, above⟩ := works.cut points plain
  refine ⟨after, cuts, ?_⟩
  rw [works.lies.text_found, above.lies.text_found]
  exact wentUp_iff plain above.leads.names

/-- Behind `cd name` the command `cd ..` takes only the slash away. -/
theorem WorksIn.comesBack (works : WorksIn state cwd found) {name : List UInt8} (single : SingleName name)
    (names : NamesDirectory state (combined found name)) (moves : CdMoves state cwd name middle) :
    ∃ after, cmdCd state middle (literal "..") = .ok after ∧ text after = combined found name := by
  have short := moves.short single.other
  rw [works.lies.text_found] at short
  rcases cmdCd_enters works.lies works.absolute single.clean single.other short names with ⟨entered, enters,
    lies⟩ | ⟨-, never⟩
  · cases enters.symm.trans moves.runs
    have works' : WorksIn state middle (closed (combined found name)) := ⟨lies, (names.closed_path points).leads points⟩
    rw [closed_single single] at works'
    obtain ⟨after, cuts, above⟩ := works'.cut points List.not_mem_nil
    have given : combined found name ≠ [] := by
      rw [combined_single single]
      exact List.append_ne_nil_of_right_ne_nil _ single.some
    rw [if_neg given] at above
    exact ⟨after, cuts, above.lies.text_found⟩
  · exact absurd ⟨middle, moves.runs⟩ never

end Runs

theorem WorksIn.returns (total : ∀ path, ∃ node, fsResolve state path = .ok node)
 (works : WorksIn state cwd found) {s : List UInt8} (clean : 0 ∉ s) (other : s ≠ literal "..")
    (short : (combined found s).length < maxPathLen) : (∃ after, cmdCd state cwd s = .ok after) ↔
      (NamesDirectory state (combined found s) → (closed (combined found s)).length < maxPathLen) := by
  have absolute := works.absolute
  by_cases names : NamesDirectory state (combined found s)
  · rcases cmdCd_enters works.lies absolute clean other short names with ⟨after, enters, lies⟩ | ⟨long, never⟩
    · have room := lies.fits
      rw [Nat.zero_add] at room
      exact iff_of_true ⟨after, enters⟩ fun _ => room
    · exact iff_of_false never fun room => absurd (room names) (Nat.not_lt.mpr long)
  · have stays := cmdCd_stays works.lies (by rintro rfl; cases absolute) clean other short (total _) names
    exact iff_of_true ⟨cwd, stays⟩ fun given => absurd given names

/-- The working directory is one wherever the commands have led, but `cd ..` goes up from
it only where its path does not end in a slash, and never behind a `cd` to a directory. -/
theorem working_directory_iff (reached : FsReachable state) (points : MountPoints state)
    (cds : Reachable (· = cwdStart) (CdMoves state) cwd) : CdRight state cwd := by
  obtain ⟨blocks, roles, valid⟩ := fs_reachable_wellFormed reached
  have total (path : List UInt8) : ∃ node, fsResolve state path = .ok node := by
    obtain ⟨node, resolves, -⟩ := valid.resolve path
    exact ⟨node, resolves⟩
  have works : ∃ found, WorksIn state cwd found := by
    refine cds.invariant (fun cwd => ∃ found, WorksIn state cwd found) ?_ ?_
    · rintro _ rfl
      exact ⟨_, start_works points⟩
    · rintro before s after ⟨found, works⟩ moves
      exact works.moves points total moves
  obtain ⟨found, works⟩ := works
  have shown := works.lies.text_found
  refine ⟨?_, ?_, works.goesUp points, ?_⟩
  · rw [shown]
    exact works.leads.names
  · intro s clean other short
    rw [shown] at short ⊢
    exact works.returns total clean other short
  · intro name middle single names moves
    rw [shown] at names ⊢
    obtain ⟨after, cuts, same⟩ := works.comesBack points single names moves
    refine ⟨after, cuts, ?_⟩
    rw [same]

/-- Only the root is mounted. -/
theorem mountPoints_root (names : NamesDirectory state [slash])
    (only : ∀ slot, (state.mnts slot).active = true → text (state.mnts slot).path = [slash]) : MountPoints state := by
  refine ⟨names, ?_⟩
  intro slot active _
  rw [only slot active]
  refine ⟨names, ?_⟩
  intro front back split some
  obtain ⟨byte, front, rfl⟩ := List.exists_cons_of_ne_nil some
  have length := congrArg List.length split
  simp only [List.length_append, List.length_cons, List.length_nil] at length
  omega

private def enteredName : List UInt8 := literal "d"

/-- The directory `/d` is found in the root, and is another one. -/
private def holdsDirectory (state : FsState Unit) : Bool :=
  match fsResolve state [slash], fsResolve state (combined [slash] enteredName) with
  | .ok root, .ok inner =>
    root ≠ 0 && (state.nodes root).type = fsDir && inner ≠ 0 && (state.nodes inner).type = fsDir && root ≠ inner &&
      decide (∀ slot, (state.mnts slot).active = true → text (state.mnts slot).path = [slash])
  | _, _ => false

private def makesDirectory (start : FsState Unit) : Bool :=
  match fsMkdir start (literal "/d") with
  | .ok (_, state) => holdsDirectory state
  | .error _ => false

private theorem enteredName_single : SingleName enteredName := ⟨by decide, by decide, by decide, by decide⟩

private theorem directory_held : ∃ (state : FsState Unit), FsReachable state ∧ MountPoints state ∧
    NamesDirectory state (combined [slash] enteredName) ∧
      fsResolve state (combined [slash] enteredName) ≠ fsResolve state [slash] := by
  obtain ⟨start, reached, fine⟩ := rootedFs_any makesDirectory (by decide +kernel)
  unfold makesDirectory at fine
  split at fine
  next ret state made =>
    unfold holdsDirectory at fine
    split at fine
    next root inner leads enters =>
      simp only [Bool.and_eq_true, decide_eq_true_eq] at fine
      obtain ⟨⟨⟨⟨⟨given, directory⟩, given'⟩, directory'⟩, other⟩, only⟩ := fine
      refine ⟨state, .mkdir reached made, mountPoints_root ⟨root, leads, given, directory⟩ only,
        ⟨inner, enters, given', directory'⟩, ?_⟩
      rw [leads, enters]
      intro same
      exact other (Except.ok.inj same).symm
    next => cases fine
  next => cases fine

theorem working_directory_iff_root : ∃ state : FsState Unit, CdRight state cwdStart := by
  obtain ⟨state, reached, points, _, _⟩ := directory_held
  exact ⟨state, working_directory_iff reached points (.initial rfl)⟩

/-- Behind `cd d` the command `cd ..` stays in `/d`. -/
theorem working_directory_fails : ¬∀ (state : FsState Unit) (cwd : PathBuffer), FsReachable state → MountPoints state →
    Reachable (· = cwdStart) (CdMoves state) cwd →
      ∀ name middle, SingleName name → NamesDirectory state (combined (text cwd) name) → CdMoves state cwd name middle →
        ∃ after, cmdCd state middle (literal "..") = .ok after ∧ fsResolve state (text after) = fsResolve state (text cwd) := by
  intro back
  obtain ⟨state, reached, points, names, other⟩ := directory_held
  have works := start_works points
  have shown := works.lies.text_found
  have short : (combined [slash] enteredName).length < maxPathLen := by decide
  rcases cmdCd_enters works.lies works.absolute enteredName_single.clean enteredName_single.other short names with
    ⟨middle, enters, -⟩ | ⟨long, -⟩
  · have moves : CdMoves state cwdStart enteredName middle := by
      refine ⟨enteredName_single.clean, ?_, enters⟩
      intro _
      rw [shown]
      exact short
    obtain ⟨after, cuts, same⟩ := back state cwdStart reached points (.initial rfl) enteredName middle enteredName_single
      (by rw [shown]; exact names) moves
    obtain ⟨after', cuts', stays⟩ := works.comesBack points enteredName_single names moves
    cases cuts.symm.trans cuts'
    rw [stays, shown] at same
    exact other same
  · exact absurd long (by decide)

section Names

/-- The parts between the slashes, without the empty ones, each cut off after 63 bytes. -/
def pathNames (rel : List UInt8) : List (List UInt8) := ((rel.splitOn slash).filter (· ≠ [])).map (·.take 63)

/-- One lookup after the other. Where there is no node there is nothing to look into. -/
def lookupPath (state : FsState δ) (root : Nat) (names : List (List UInt8)) : Except Stop Nat :=
  names.foldlM (fun node name => if node = 0 then .ok 0 else lookupIn state node name) root

/-- The part of a path behind the target of a mount. -/
def behindMount (state : FsState δ) (slot : Fin fsMaxMnts) (path : List UInt8) : List UInt8 :=
  path.drop (text (state.mnts slot).path).length

/-- A path resolves by its names, and a slash behind another one or at the end of the path
does not matter to the mount. -/
structure ResolvesByNames (state : FsState δ) (slot : Fin fsMaxMnts) (path : List UInt8) : Prop where
  folds : fsResolve state path = lookupPath state (state.mnts slot).root (pathNames (behindMount state slot path))
  repeated : ∀ front back, behindMount state slot path = front ++ slash :: back →
    let more := text (state.mnts slot).path ++ (front ++ slash :: slash :: back)
    findMnt state.mnts more = some slot → fsResolve state more = fsResolve state path
  trailing : findMnt state.mnts (path ++ [slash]) = some slot → fsResolve state (path ++ [slash]) = fsResolve state path

section Names

theorem pathNames_append (front back : List UInt8) :
    pathNames (front ++ slash :: back) = pathNames front ++ pathNames back := by
  unfold pathNames
  rw [List.splitOn_append_cons_self, List.filter_append, List.map_append]

theorem pathNames_plain {name : List UInt8} (plain : slash ∉ name) :
    pathNames name = if name = [] then [] else [name.take 63] := by
  unfold pathNames
  rw [List.splitOn_eq_singleton plain]
  by_cases empty : name = [] <;> simp [empty]

theorem pathNames_repeated (front back : List UInt8) :
    pathNames (front ++ slash :: slash :: back) = pathNames (front ++ slash :: back) := by
  have none := pathNames_append [] back
  rw [List.nil_append, pathNames_plain List.not_mem_nil, if_pos rfl, List.nil_append] at none
  rw [pathNames_append, pathNames_append, none]

theorem pathNames_trailing (front : List UInt8) : pathNames (front ++ [slash]) = pathNames front := by
  rw [pathNames_append, pathNames_plain List.not_mem_nil, if_pos rfl, List.append_nil]

end Names

section Lookups

theorem lookupPath_none (names : List (List UInt8)) : lookupPath state 0 names = .ok 0 := by
  induction names with
  | nil => rfl
  | cons name names ih => exact ih

theorem lookupPath_cons {node : Nat} (given : node ≠ 0) (name : List UInt8) (names : List (List UInt8)) :
    lookupPath state node (name :: names) = lookupIn state node name >>= fun next => lookupPath state next names := by
  unfold lookupPath
  rw [List.foldlM_cons, if_neg given]

/-- The loop has read `comp` of a name, of which it has kept 63 bytes. -/
theorem resolveFrom_names (rel : List UInt8) {cur : Nat} (given : cur ≠ 0) {comp : List UInt8} (plain : slash ∉ comp) :
    resolveFrom state rel cur (comp.take 63) = lookupPath state cur (pathNames (comp ++ rel)) := by
  have kept : 0 < (comp.take 63).length ↔ comp ≠ [] := by
    rw [List.length_take, ← List.length_pos_iff]
    omega
  induction rel generalizing cur comp with
  | nil =>
    rw [List.append_nil, pathNames_plain plain, resolveFrom]
    by_cases empty : comp = []
    · rw [if_pos empty, if_neg (fun some => kept.mp some empty)]
      rfl
    · rw [if_neg empty, if_pos (kept.mpr empty), lookupPath_cons given]
      exact (bind_pure _).symm
  | cons byte rel ih =>
    have start : slash ∉ ([] : List UInt8) := List.not_mem_nil
    rw [resolveFrom]
    by_cases ends : byte = slash
    · subst ends
      rw [if_pos rfl, pathNames_append, pathNames_plain plain]
      by_cases empty : comp = []
      · rw [if_neg (fun some => kept.mp some empty), if_pos empty, empty]
        exact ih given start (by simp)
      · rw [if_pos (kept.mpr empty), if_neg empty, List.singleton_append, lookupPath_cons given]
        refine bind_congr fun next => ?_
        by_cases missing : next = 0
        · rw [if_pos missing, missing, lookupPath_none]
          rfl
        · rw [if_neg missing]
          exact ih missing start (by simp)
    · rw [if_neg ends]
      have longer : (if (comp.take 63).length < 63 then comp.take 63 ++ [byte] else comp.take 63) =
        (comp ++ [byte]).take 63 := by
        rw [List.length_take]
        split
        · rw [List.take_of_length_le (by omega), List.take_of_length_le (by rw [List.length_append, List.length_singleton]; omega)]
        · rw [List.take_append_of_le_length (by omega)]
      rw [longer, ih given (by simpa [plain] using Ne.symm ends) (by simp), List.append_assoc, List.singleton_append]

end Lookups

/-- The loop begins behind a slash that follows the target. -/
theorem pathNames_relative (target path : List UInt8) :
    pathNames (relativePath target path) = pathNames (path.drop target.length) := by
  unfold relativePath
  cases path.drop target.length with
  | nil => rfl
  | cons byte rel =>
    dsimp only
    split
    next ends =>
      have none := pathNames_append [] rel
      rw [List.nil_append, pathNames_plain List.not_mem_nil, if_pos rfl, List.nil_append] at none
      rw [ends, none]
    next => rfl

theorem fsResolve_folds (absolute : path.head? = some slash) (found : findMnt state.mnts path = some slot) :
    fsResolve state path = lookupPath state (state.mnts slot).root (pathNames (behindMount state slot path)) := by
  by_cases rooted : (state.mnts slot).root = 0
  · rw [rooted, lookupPath_none]
    unfold fsResolve
    rw [if_neg (not_not.mpr absolute), found]
    exact if_pos rooted
  · rw [fsResolve_eq absolute found rooted]
    refine (resolveFrom_names _ rooted List.not_mem_nil).trans ?_
    rw [List.nil_append, pathNames_relative]
    rfl

theorem fs_resolve_folds (absolute : path.head? = some slash) (found : findMnt state.mnts path = some slot) :
    ResolvesByNames state slot path := by
  have offers := (findMnt_longest found).offers
  have targeted : (text (state.mnts slot).path).head? = some slash := by
    obtain ⟨rest, whole⟩ := offers.start
    exact head_front (List.ne_nil_of_length_pos offers.nonempty) (whole ▸ absolute)
  refine ⟨fsResolve_folds absolute found, ?_, ?_⟩
  · intro front back behind
    dsimp only
    intro chosen
    have absolute' : (text (state.mnts slot).path ++ (front ++ slash :: slash :: back)).head? = some slash := by
      rw [List.head?_append, targeted]
      rfl
    rw [fsResolve_folds absolute' chosen, fsResolve_folds absolute found, behind, behindMount, List.drop_left,
      pathNames_repeated]
  · intro chosen
    have absolute' : (path ++ [slash]).head? = some slash := by
      rw [List.head?_append, absolute]
      rfl
    rw [fsResolve_folds absolute' chosen, fsResolve_folds absolute found, behindMount, behindMount,
      List.drop_append_of_le_length offers.start.length_le, pathNames_trailing]

theorem fs_resolve_folds_root : ∃ (state : FsState Unit) (slot : Fin fsMaxMnts),
    FsReachable state ∧ ResolvesByNames state slot (literal "//a//b/") := by
  obtain ⟨state, reached, found⟩ := rootedFs_any (fun state => (findMnt state.mnts (literal "//a//b/")).isSome) (by decide +kernel)
  obtain ⟨slot, chosen⟩ := Option.isSome_iff_exists.mp found
  exact ⟨state, slot, reached, fs_resolve_folds (by decide) chosen⟩

end Names

end Kernix.Proofs
