import Mathlib.Data.List.Basic
import Mathlib.Logic.Function.Basic

/-! Work under a lock. An operation makes one access after the other to the data that the
lock protects, and the processors take turns access by access, in any order. All that they
do comes to the same as the operations one after the other, in the order in which the lock
was taken. -/

namespace Mutex
universe u v w x y
variable {β : Type u} {ρ : Type v} {ι : Type w} {σ κ : Type x}

/-- A lock with the atomic instruction that tries to take it. -/
structure Lock (β : Type u) where
  free : β
  tryTake : β → Bool × β
  release : β → β

/-- The word of a lock that somebody has. -/
def Lock.held (lock : Lock β) : β := (lock.tryTake lock.free).2

structure Lock.Lawful (lock : Lock β) : Prop where
  opens : (lock.tryTake lock.free).1 = true
  shut : lock.tryTake lock.held = (false, lock.held)
  released : lock.release lock.held = lock.free
  differ : lock.held ≠ lock.free

/-- An access to the data, by code with local variables. -/
abbrev Access (σ κ : Type x) := σ × κ → σ × κ

/-- What an operation does while it has the lock. -/
structure Work (σ κ : Type x) where
  start : κ
  accesses : List (Access σ κ)

def finish (accesses : List (Access σ κ)) (both : σ × κ) : σ × κ := accesses.foldl (fun both access => access both) both

/-- An operation that nobody interrupts. -/
def Work.whole (work : Work σ κ) (data : σ) : σ × κ := finish work.accesses (data, work.start)

/-- Where a processor is. -/
inductive Place (ι : Type w) (σ κ : Type x) where
  | outside
  | waiting (op : ι)
  | inside (left : List (Access σ κ)) (locals : κ)

/-- The lock, the data and the processors; and the operations that have taken the lock, in
this order, with the local variables of those that have left it again. -/
structure System (β : Type u) (ρ : Type v) (ι : Type w) (σ κ : Type x) where
  word : β
  data : σ
  places : ρ → Place ι σ κ
  taken : List ι
  returned : List κ

/-- A processor starts an operation, which waits for the lock or gives up; or it goes on. -/
inductive Turn (ρ : Type v) (ι : Type w) where
  | call (processor : ρ) (op : ι)
  | attempt (processor : ρ) (op : ι)
  | go (processor : ρ)

def System.start (lock : Lock β) (data : σ) : System β ρ ι σ κ := ⟨lock.free, data, fun _ => .outside, [], []⟩

variable [DecidableEq ρ] (lock : Lock β) (work : ι → Work σ κ)

def System.move (system : System β ρ ι σ κ) (processor : ρ) (place : Place ι σ κ) : System β ρ ι σ κ :=
  { system with places := Function.update system.places processor place }

/-- One try to take the lock, with the place of a processor that fails. -/
def enter (system : System β ρ ι σ κ) (processor : ρ) (op : ι) (otherwise : Place ι σ κ) : System β ρ ι σ κ :=
  let (taken, word) := lock.tryTake system.word
  if taken then
    { system.move processor (.inside (work op).accesses (work op).start) with word, taken := system.taken ++ [op] }
  else { system.move processor otherwise with word }

def turn (system : System β ρ ι σ κ) : Turn ρ ι → System β ρ ι σ κ
  | .call processor op =>
    match system.places processor with
    | .outside => system.move processor (.waiting op)
    | _ => system
  | .attempt processor op =>
    match system.places processor with
    | .outside => enter lock work system processor op .outside
    | _ => system
  | .go processor =>
    match system.places processor with
    | .outside => system
    | .waiting op => enter lock work system processor op (.waiting op)
    | .inside (access :: left) locals =>
      let (data, locals) := access (system.data, locals)
      { system.move processor (.inside left locals) with data }
    | .inside [] locals =>
      { system.move processor .outside with
        word := lock.release system.word
        returned := system.returned ++ [locals] }

/-- The operations one after the other: their local variables, and the data behind them. -/
def serial : List ι → σ → List κ × σ
  | [], data => ([], data)
  | op :: ops, data =>
    let (data, locals) := (work op).whole data
    let (others, data) := serial ops data
    (locals :: others, data)

theorem serial_concat (ops : List ι) (op : ι) (data : σ) :
    serial work (ops ++ [op]) data = ((serial work ops data).1 ++ [((work op).whole (serial work ops data).2).2],
      ((work op).whole (serial work ops data).2).1) := by
  induction ops generalizing data with
  | nil => rfl
  | cons first ops ih =>
    rw [List.cons_append]
    unfold serial
    dsimp only
    rw [ih]
    rfl

def Place.isInside : Place ι σ κ → Bool
  | .inside _ _ => true
  | _ => false

/-- Either the lock is free and all operations are done, or one processor has it and goes
on with the last of them. -/
inductive Ordered (data : σ) (system : System β ρ ι σ κ) : Prop where
  | idle (word : system.word = lock.free) (nobody : ∀ processor, (system.places processor).isInside = false)
      (done : (system.returned, system.data) = serial work system.taken data)
  | busy (holder : ρ) (left : List (Access σ κ)) (locals : κ) (ops : List ι) (op : ι) (word : system.word = lock.held)
      (inside : system.places holder = .inside left locals)
      (others : ∀ processor, processor ≠ holder → (system.places processor).isInside = false)
      (taken : system.taken = ops ++ [op]) (returned : system.returned = (serial work ops data).1)
      (rest : finish left (system.data, locals) = (work op).whole (serial work ops data).2)

variable {lock work} {data : σ} {system : System β ρ ι σ κ} {processor : ρ}

/-- The processors that are inside are the same when one outside moves to another place outside. -/
theorem Ordered.moved (ordered : Ordered lock work data system) (before : (system.places processor).isInside = false)
    {place : Place ι σ κ} (after : place.isInside = false) : Ordered lock work data (system.move processor place) := by
  have outside (other : ρ) (apart : (system.places other).isInside = false) :
      (Function.update system.places processor place other).isInside = false := by
    by_cases same : other = processor
    · rw [same, Function.update_self, after]
    · rw [Function.update_of_ne same, apart]
  cases ordered with
  | idle word nobody done => exact .idle word (fun other => outside other (nobody other)) done
  | busy holder left locals ops op word inside others taken returned rest =>
    have apart : holder ≠ processor := by
      rintro rfl
      rw [inside] at before
      cases before
    refine .busy holder left locals ops op word ?_ (fun other differ => outside other (others other differ)) taken
      returned rest
    exact (Function.update_of_ne apart _ _).trans inside

theorem Ordered.enters (lawful : lock.Lawful) (ordered : Ordered lock work data system)
    (before : (system.places processor).isInside = false) (op : ι) {otherwise : Place ι σ κ}
    (after : otherwise.isInside = false) : Ordered lock work data (enter lock work system processor op otherwise) := by
  unfold enter
  cases ordered with
  | idle word nobody done =>
    rw [word]
    dsimp only
    rw [if_pos lawful.opens]
    refine .busy processor _ _ system.taken op rfl (Function.update_self _ _ _) (fun other differ => ?_) rfl
      (congrArg Prod.fst done) ?_
    · exact (congrArg _ (Function.update_of_ne differ _ _)).trans (nobody other)
    · exact congrArg (fun pair => (work op).whole pair.2) done
  | busy holder left locals ops last word inside others taken returned rest =>
    have again := (Ordered.busy holder left locals ops last word inside others taken returned rest).moved before after
    rw [word, lawful.shut]
    simpa [System.move, word] using again

/-- A turn keeps the order. -/
theorem Ordered.keeps (lawful : lock.Lawful) (ordered : Ordered lock work data system) (label : Turn ρ ι) :
    Ordered lock work data (turn lock work system label) := by
  cases label with
  | call processor op =>
    unfold Mutex.turn
    dsimp only
    split
    next outside => exact ordered.moved (by rw [outside]; rfl) rfl
    next => exact ordered
  | attempt processor op =>
    unfold Mutex.turn
    dsimp only
    split
    next outside => exact ordered.enters lawful (by rw [outside]; rfl) op rfl
    next => exact ordered
  | go processor =>
    unfold Mutex.turn
    dsimp only
    split
    next => exact ordered
    next op waits => exact ordered.enters lawful (by rw [waits]; rfl) op rfl
    next access left locals inside =>
      cases ordered with
      | idle word nobody done =>
        have none := nobody processor
        rw [inside] at none
        cases none
      | busy holder left' locals' ops op word place others taken returned rest =>
        have same : holder = processor := by
          by_contra apart
          have none := others processor (Ne.symm apart)
          rw [inside] at none
          cases none
        subst same
        cases place.symm.trans inside
        refine .busy holder left (access (system.data, locals)).2 ops op word (Function.update_self _ _ _)
          (fun other differ => ?_) taken returned rest
        exact (congrArg _ (Function.update_of_ne differ _ _)).trans (others other differ)
    next locals inside =>
      cases ordered with
      | idle word nobody done =>
        have none := nobody processor
        rw [inside] at none
        cases none
      | busy holder left' locals' ops op word place others taken returned rest =>
        have same : holder = processor := by
          by_contra apart
          have none := others processor (Ne.symm apart)
          rw [inside] at none
          cases none
        subst same
        cases place.symm.trans inside
        refine .idle ?_ (fun other => ?_) ?_
        · exact (congrArg lock.release word).trans lawful.released
        · by_cases same : other = holder
          · rw [same]
            exact congrArg _ (Function.update_self _ _ _)
          · exact (congrArg _ (Function.update_of_ne same _ _)).trans (others other same)
        · have ends : (system.data, locals) = (work op).whole (serial work ops data).2 := rest
          show (system.returned ++ [locals], system.data) = serial work system.taken data
          rw [taken, serial_concat, returned, ← ends]

/-- Every run keeps the order. -/
theorem ordered_run (lawful : lock.Lawful) (data : σ) (turns : List (Turn ρ ι)) :
    Ordered lock work data (turns.foldl (turn lock work) (System.start lock data)) := by
  have starts : Ordered lock work data (System.start (ρ := ρ) (ι := ι) (κ := κ) lock data) := .idle rfl (fun _ => rfl) rfl
  generalize System.start lock data = system at starts
  induction turns generalizing system with
  | nil => exact starts
  | cons label turns ih => exact ih _ (starts.keeps lawful label)

section Consequences

/-- At most one processor is inside. -/
theorem Ordered.alone (ordered : Ordered lock work data system) {first second : ρ}
    (inside : (system.places first).isInside = true) (inside' : (system.places second).isInside = true) :
    first = second := by
  cases ordered with
  | idle _ nobody _ =>
    rw [nobody first] at inside
    cases inside
  | busy holder _ _ _ _ _ _ others _ _ _ =>
    have held (processor : ρ) (inside : (system.places processor).isInside = true) : processor = holder := by
      by_contra apart
      rw [others processor apart] at inside
      cases inside
    rw [held first inside, held second inside']

omit [DecidableEq ρ] in
/-- The lock is free exactly when nobody is inside. -/
theorem Ordered.free_iff (lawful : lock.Lawful) (ordered : Ordered lock work data system) :
    system.word = lock.free ↔ ∀ processor, (system.places processor).isInside = false := by
  cases ordered with
  | idle word nobody _ => exact iff_of_true word nobody
  | busy holder _ _ _ _ word inside _ _ _ _ =>
    refine iff_of_false (fun free => lawful.differ (word.symm.trans free)) fun nobody => ?_
    have none := nobody holder
    rw [inside] at none
    cases none

omit [DecidableEq ρ] in
/-- While the lock is free, the data are those of the operations one after the other. -/
theorem Ordered.done (lawful : lock.Lawful) (ordered : Ordered lock work data system) (free : system.word = lock.free) :
    (system.returned, system.data) = serial work system.taken data := by
  cases ordered with
  | idle _ _ done => exact done
  | busy _ _ _ _ _ word _ _ _ _ _ => exact absurd (word.symm.trans free) lawful.differ

variable (work) in
/-- A processor that is alone in going on comes out, and everybody else stays where it is. -/
theorem leaves (lawful : lock.Lawful) {left : List (Access σ κ)} {locals : κ} (word : system.word = lock.held)
    (inside : system.places processor = .inside left locals) :
    ∃ after, (List.replicate (left.length + 1) (.go processor)).foldl (turn lock work) system = after ∧
      after.word = lock.free ∧ ∀ other, other ≠ processor → after.places other = system.places other := by
  induction left generalizing system locals with
  | nil =>
    refine ⟨_, rfl, ?_, fun other differ => ?_⟩
    · show (turn lock work system (.go processor)).word = lock.free
      unfold turn
      dsimp only
      rw [inside]
      exact (congrArg lock.release word).trans lawful.released
    · show (turn lock work system (.go processor)).places other = system.places other
      unfold turn
      dsimp only
      rw [inside]
      exact Function.update_of_ne differ _ _
  | cons access left ih =>
    have moved : turn lock work system (.go processor) =
        { system.move processor (.inside left (access (system.data, locals)).2) with
          data := (access (system.data, locals)).1 } := by
      unfold turn
      dsimp only
      rw [inside]
    obtain ⟨after, run, free, kept⟩ := ih (by rw [moved]; exact word :
      (turn lock work system (.go processor)).word = lock.held) (by rw [moved]; exact Function.update_self _ _ _)
    refine ⟨after, run, free, fun other differ => (kept other differ).trans ?_⟩
    rw [moved]
    exact Function.update_of_ne differ _ _

/-- Whoever waits gets in, once the one that has the lock has gone on to its end. -/
theorem Ordered.gets_in (lawful : lock.Lawful) (ordered : Ordered lock work data system) {op : ι}
    (waits : system.places processor = .waiting op) :
    ∃ turns : List (Turn ρ ι), (∀ label ∈ turns, ∃ active, label = .go active) ∧
      ((turns.foldl (turn lock work) system).places processor) = .inside (work op).accesses (work op).start := by
  have enters (before : System β ρ ι σ κ) (free : before.word = lock.free)
      (same : before.places processor = .waiting op) :
      (turn lock work before (.go processor)).places processor = .inside (work op).accesses (work op).start := by
    unfold turn
    dsimp only
    rw [same]
    unfold enter
    rw [free]
    dsimp only
    rw [if_pos lawful.opens]
    exact Function.update_self _ _ _
  cases ordered with
  | idle word nobody done => exact ⟨[.go processor], by simp, enters system word waits⟩
  | busy holder left locals ops last word inside others taken returned rest =>
    have apart : processor ≠ holder := by
      rintro rfl
      cases waits.symm.trans inside
    obtain ⟨after, run, free, kept⟩ := leaves work lawful word inside
    refine ⟨List.replicate (left.length + 1) (.go holder) ++ [.go processor], ?_, ?_⟩
    · intro label member
      rcases List.mem_append.mp member with first | last
      · exact ⟨holder, List.eq_of_mem_replicate first⟩
      · exact ⟨processor, List.mem_singleton.mp last⟩
    · rw [List.foldl_append, run]
      exact enters after free ((kept processor apart).trans waits)

end Consequences

end Mutex
