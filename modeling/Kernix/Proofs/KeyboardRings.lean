import Kernix.Memory.GraphicsManager

/-! The ring of key events against the queue it is meant to be. `keyboard_next` sets the
count to zero and takes one off, so that no call after it finds the ring as it is. -/

namespace Kernix.Proofs

inductive RingCall where
  | put (event : KeyEvent)
  | next
  deriving DecidableEq

variable {places : Nat} {ring : KeyboardRing places} {pending : List KeyEvent}

/-- What the counters of the ring have to be. -/
def Counted (ring : KeyboardRing places) : Prop :=
  ring.count ≤ ring.len ∧ ring.head = (ring.tail + ring.count) % ring.len

/-- The calls return what a bounded queue of the pending events returns, and the
counters fit in each state. -/
def FifoRun : KeyboardRing places → List KeyEvent → List RingCall → Prop
  | ring, _, [] => Counted ring
  | ring, pending, .put event :: calls => Counted ring ∧ ∃ ret after, keyboardPut ring event = .ok (ret, after) ∧
      (ret ≠ 0 ↔ pending.length = ring.len) ∧ FifoRun after (if ret = 0 then pending ++ [event] else pending) calls
  | ring, pending, .next :: calls => Counted ring ∧ ∃ ret out after, keyboardNext ring = .ok (ret, out, after) ∧
      (ret ≠ 0 ↔ pending = []) ∧ (ret = 0 → out = pending.head?) ∧
      FifoRun after (if ret = 0 then pending.tail else pending) calls

theorem FifoRun.start {calls : List RingCall} (run : FifoRun ring pending calls) : Counted ring := by
  cases calls with
  | nil => exact run
  | cons call calls => cases call <;> exact run.1

/-- A ring into which events have only been put. -/
structure Filled (ring : KeyboardRing places) (pending : List KeyEvent) : Prop where
  len : ring.len = places
  positive : 0 < places
  fits : places < 2 ^ 32
  tail : ring.tail = 0
  count : ring.count = pending.length
  bound : pending.length ≤ places
  head : ring.head = pending.length % places
  front : ∀ event ∈ pending.head?, ring.buf ⟨0, positive⟩ = event

theorem Filled.counted (filled : Filled ring pending) : Counted ring := by
  rw [Counted, filled.count, filled.len, filled.tail, filled.head, Nat.zero_add]
  exact ⟨filled.bound, rfl⟩

theorem keyboardInit_filled {count : Nat} (positive : 0 < count) (fits : count < 2 ^ 32) :
    ∃ ring, graphicsManagerKeyboardInit count = some ring ∧ Filled ring [] := by
  refine ⟨_, if_neg (by omega), Nat.mod_eq_of_lt fits, positive, fits, rfl, rfl, Nat.zero_le _, (Nat.zero_mod _).symm, ?_⟩
  intro event member
  cases member

theorem Filled.full (filled : Filled ring pending) (full : pending.length = places) (event : KeyEvent) :
    keyboardPut ring event = .ok (1, ring) := by
  rw [keyboardPut, filled.len, filled.count, if_pos (by omega)]
  rfl

theorem Filled.put (filled : Filled ring pending) (room : pending.length < places) (event : KeyEvent) :
    ∃ after, keyboardPut ring event = .ok (0, after) ∧ Filled after (pending ++ [event]) := by
  have fits := filled.fits
  have small : pending.length % places = pending.length := Nat.mod_eq_of_lt room
  have bumped : u32 (pending.length + 1) = pending.length + 1 := Nat.mod_eq_of_lt (by omega)
  unfold keyboardPut
  rw [filled.len, filled.count, filled.head, small, if_neg (by omega), setElement_eq _ room, bumped]
  refine ⟨_, rfl, rfl, filled.positive, fits, filled.tail, by simp, ?_, by simp, ?_⟩
  · rw [List.length_append, List.length_singleton]
    exact room
  · intro first member
    cases pending with
    | nil =>
      cases member
      simp
    | cons earlier rest =>
      simp only [List.length_cons]
      rw [Function.update_of_ne (by simp [Fin.ext_iff])]
      exact filled.front first member

/-- However many events are put in, the ring keeps to the queue. -/
theorem Filled.puts (filled : Filled ring pending) {calls : List RingCall} (puts : ∀ call ∈ calls, call ≠ .next) :
    FifoRun ring pending calls := by
  induction calls generalizing ring pending with
  | nil => exact filled.counted
  | cons call calls ih =>
    cases call with
    | next => exact absurd rfl (puts .next List.mem_cons_self)
    | put event =>
      have rest : ∀ call ∈ calls, call ≠ .next := fun call member => puts call (List.mem_cons_of_mem _ member)
      refine ⟨filled.counted, ?_⟩
      by_cases full : pending.length = places
      · refine ⟨1, ring, filled.full full event, ?_, ih filled rest⟩
        rw [filled.len]
        simp [full]
      · have bound := filled.bound
        obtain ⟨after, stores, stored⟩ := filled.put (by omega) event
        refine ⟨0, after, stores, ?_, ih stored rest⟩
        rw [filled.len]
        simp [full]

/-- `keyboard_next` answers with the slot of the tail, whether an event is pending or
not, and leaves the largest count behind. -/
theorem Filled.next (filled : Filled ring pending) :
    keyboardNext ring = .ok (0, some (ring.buf ⟨0, filled.positive⟩),
      { ring with tail := 1 % places, count := 2 ^ 32 - 1 }) := by
  have positive := filled.positive
  have first : elementAt ring.buf (0 : Nat) = .ok (ring.buf ⟨0, positive⟩) := elementAt_eq _ positive
  unfold keyboardNext
  dsimp only
  rw [if_neg (by decide), filled.tail, first, filled.len]
  simp only [bind, Except.bind]
  rw [if_neg (by omega)]
  rfl

/-- The one run with a `keyboard_next` in which nothing goes wrong. -/
def TakenOnce (len : Nat) (calls : List RingCall) : Prop :=
  len = 2 ^ 32 - 1 ∧ ∃ event, calls = [.put event, .next]

/-- The counters behind a `keyboard_next` fit by chance alone. -/
theorem Filled.next_counted (filled : Filled ring pending) (some : pending ≠ []) :
    Counted { ring with tail := 1 % places, count := 2 ^ 32 - 1 } ↔ places = 2 ^ 32 - 1 ∧ pending.length = 1 := by
  have fits := filled.fits
  have bound := filled.bound
  have length := List.length_pos_iff.mpr some
  unfold Counted
  dsimp only
  rw [filled.len, filled.head]
  constructor
  · rintro ⟨high, heads⟩
    have largest : places = 2 ^ 32 - 1 := by omega
    subst largest
    omega
  · rintro ⟨rfl, one⟩
    omega

/-- Behind a `keyboard_next` the ring is full for the code and empty for the queue. -/
theorem spent_run {calls : List RingCall} (counted : Counted ring) (spent : ring.len = ring.count) (some : 0 < ring.len) :
    FifoRun ring [] calls ↔ calls = [] := by
  refine ⟨fun run => ?_, ?_⟩
  · cases calls with
    | nil => rfl
    | cons call calls =>
      cases call with
      | put event =>
        obtain ⟨_, ret, after, puts, fails, _⟩ := run
        rw [keyboardPut, if_pos (by omega)] at puts
        cases puts
        have empty : 0 = ring.len := fails.mp (by decide)
        omega
      | next =>
        obtain ⟨_, ret, out, after, takes, fails, _⟩ := run
        have failed : ret ≠ 0 := fails.mpr rfl
        unfold keyboardNext at takes
        dsimp only at takes
        rw [if_neg (by decide)] at takes
        obtain ⟨value, _, rest⟩ := bind_ok takes
        rw [if_neg (by omega)] at rest
        cases rest
        exact absurd rfl failed
  · rintro rfl
    exact counted

/-- A run with a `keyboard_next` in front. -/
theorem Filled.next_iff (filled : Filled ring pending) (calls : List RingCall) :
    FifoRun ring pending (.next :: calls) ↔ places = 2 ^ 32 - 1 ∧ pending.length = 1 ∧ calls = [] := by
  have positive := filled.positive
  constructor
  · rintro ⟨_, ret, out, after, takes, fails, _, run⟩
    rw [filled.next] at takes
    cases takes
    have some : pending ≠ [] := fun none => fails.mpr none rfl
    have counted := run.start
    obtain ⟨largest, one⟩ := (filled.next_counted some).mp counted
    have last : pending.tail = [] := by
      apply List.eq_nil_of_length_eq_zero
      rw [List.length_tail]
      omega
    rw [if_pos rfl, last] at run
    have spent : ring.len = 2 ^ 32 - 1 := by rw [filled.len, largest]
    exact ⟨largest, one, (spent_run counted spent (by rw [spent]; decide)).mp run⟩
  · rintro ⟨largest, one, rfl⟩
    have some : pending ≠ [] := by
      rintro rfl
      cases one
    refine ⟨filled.counted, 0, _, _, filled.next, by simpa using some, fun _ => ?_, ?_⟩
    · obtain ⟨event, rest, rfl⟩ := List.exists_cons_of_ne_nil some
      simp [filled.front event rfl]
    · exact (filled.next_counted some).mpr ⟨largest, one⟩

theorem Filled.fifo_iff (filled : Filled ring pending) (calls : List RingCall) :
    FifoRun ring pending calls ↔ (∀ call ∈ calls, call ≠ .next) ∨
      (pending = [] ∧ TakenOnce places calls) ∨ (places = 2 ^ 32 - 1 ∧ pending.length = 1 ∧ calls = [.next]) := by
  have positive := filled.positive
  induction calls generalizing ring pending with
  | nil => exact ⟨fun _ => .inl (by simp), fun _ => filled.counted⟩
  | cons call calls ih =>
    cases call with
    | next =>
      rw [filled.next_iff]
      simp [TakenOnce]
    | put event =>
      simp only [List.forall_mem_cons, ne_eq, reduceCtorEq, not_false_eq_true, true_and, TakenOnce, List.cons.injEq,
        RingCall.put.injEq, false_and, and_false, or_false]
      by_cases full : pending.length = places
      · have some : pending ≠ [] := by
          rintro rfl
          simp at full
          omega
        have run : FifoRun ring pending (.put event :: calls) ↔ FifoRun ring pending calls := by
          constructor
          · rintro ⟨_, ret, after, puts, _, rest⟩
            rw [filled.full full event] at puts
            cases puts
            exact rest
          · intro rest
            refine ⟨filled.counted, 1, ring, filled.full full event, ?_, rest⟩
            simp [filled.len, full]
        rw [run]
        refine (ih filled).trans ?_
        constructor
        · rintro (puts | ⟨none, _⟩ | ⟨largest, one, _⟩)
          · exact .inl puts
          · exact absurd none some
          · omega
        · rintro (puts | ⟨none, _⟩)
          · exact .inl puts
          · exact absurd none some
      · have bound := filled.bound
        obtain ⟨after, stores, stored⟩ := filled.put (by omega) event
        have run : FifoRun ring pending (.put event :: calls) ↔ FifoRun after (pending ++ [event]) calls := by
          constructor
          · rintro ⟨_, ret, after, puts, _, rest⟩
            rw [stores] at puts
            cases puts
            exact rest
          · intro rest
            refine ⟨filled.counted, 0, after, stores, ?_, rest⟩
            simp [filled.len, full]
        rw [run]
        refine (ih stored).trans ?_
        simp [and_comm, and_assoc]

/-- The calls on a new ring keep to the queue when nothing is taken out of it. -/
theorem keyboard_ring_fifo_iff (len : Nat) (positive : 0 < len) (fits : len < 2 ^ 32) (calls : List RingCall) :
    (∃ ring, graphicsManagerKeyboardInit len = some ring ∧ FifoRun ring [] calls) ↔
      (∀ call ∈ calls, call ≠ .next) ∨ TakenOnce len calls := by
  obtain ⟨ring, init, filled⟩ := keyboardInit_filled positive fits
  have run := filled.fifo_iff calls
  simp only [true_and, List.length_nil] at run
  rw [init]
  simp only [Option.some.injEq, exists_eq_left']
  rw [run]
  simp

/-- Two presses go into a ring of sixteen. -/
theorem keyboard_ring_fifo_iff_puts :
    ∃ ring, graphicsManagerKeyboardInit 16 = some ring ∧ FifoRun ring [] [.put ⟨0x1E, 0, 1⟩, .put ⟨0x30, 0, 1⟩] :=
  (keyboard_ring_fifo_iff 16 (by decide) (by decide) _).mpr (.inl (by simp))

/-- An event is taken out of a new ring, in which none is pending. -/
theorem empty_ring_answers : ¬∃ ring, graphicsManagerKeyboardInit 16 = some ring ∧ FifoRun ring [] [.next] := by
  rintro ⟨ring, init, run⟩
  obtain ⟨_, same, filled⟩ := @keyboardInit_filled 16 (by decide) (by decide)
  cases init.symm.trans same
  have largest := (filled.next_iff []).mp run
  exact absurd largest.1 (by decide)

end Kernix.Proofs
