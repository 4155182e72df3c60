import Mathlib.Tactic.Ring

/-! Flat byte memory with little-endian loads and stores. Every result is about
which bytes an access touches: a load sees only its own bytes, and a store
leaves every byte outside its range alone. -/

namespace ByteMemory

/-- Memory as the processor sees it: one byte at each address. -/
abbrev Memory := Nat → UInt8

/-- The `count` bytes from `address`, least significant first. -/
def load (memory : Memory) (address : Nat) : Nat → Nat
  | 0 => 0
  | count + 1 => (memory address).toNat + 256 * load memory (address + 1) count

/-- Write the `count` low bytes of `value` from `address` on. -/
def store (memory : Memory) (address count value : Nat) : Memory := fun position =>
  if address ≤ position ∧ position < address + count then
    UInt8.ofNat (value / 256 ^ (position - address))
  else memory position

/-- Set every byte of a range to one value. -/
def fill (memory : Memory) (address count : Nat) (value : UInt8) : Memory := fun position =>
  if address ≤ position ∧ position < address + count then value else memory position

/-- Write `count` bytes, given by their offsets, from `address` on. -/
def copy (memory : Memory) (address count : Nat) (bytes : Nat → UInt8) : Memory := fun position =>
  if address ≤ position ∧ position < address + count then bytes (position - address) else memory position

/-- Two memories agree on the bytes of a range. -/
def Agree (first second : Memory) (address count : Nat) : Prop :=
  ∀ position, address ≤ position → position < address + count → first position = second position

/-- Two memories differ at most inside a range. -/
def Confined (first second : Memory) (address count : Nat) : Prop :=
  ∀ position, position < address ∨ address + count ≤ position → first position = second position

theorem Confined.refl (memory : Memory) (address count : Nat) : Confined memory memory address count :=
  fun _ _ => rfl

theorem Confined.trans {first second third : Memory} {address count : Nat}
    (left : Confined first second address count) (right : Confined second third address count) :
    Confined first third address count :=
  fun position outside => (left position outside).trans (right position outside)

theorem Confined.mono {first second : Memory} {address count start length : Nat}
    (same : Confined first second start length) (low : address ≤ start)
    (high : start + length ≤ address + count) : Confined first second address count :=
  fun position outside => same position (by omega)

theorem Confined.agree {first second : Memory} {address count start length : Nat}
    (same : Confined first second address count)
    (apart : start + length ≤ address ∨ address + count ≤ start) : Agree first second start length :=
  fun position low high => same position (by omega)

theorem store_confined (memory : Memory) (address count value : Nat) :
    Confined (store memory address count value) memory address count := by
  intro position outside
  simp only [store]
  rw [if_neg (by omega)]

theorem fill_confined (memory : Memory) (address count : Nat) (value : UInt8) :
    Confined (fill memory address count value) memory address count := by
  intro position outside
  simp only [fill]
  rw [if_neg (by omega)]

theorem copy_confined (memory : Memory) (address count : Nat) (bytes : Nat → UInt8) :
    Confined (copy memory address count bytes) memory address count := by
  intro position outside
  simp only [copy]
  rw [if_neg (by omega)]

theorem copy_nothing (memory : Memory) (address : Nat) (bytes : Nat → UInt8) : copy memory address 0 bytes = memory := by
  funext position
  exact copy_confined memory address 0 bytes position (by omega)

theorem copy_inside (memory : Memory) (address : Nat) {count offset : Nat} (bytes : Nat → UInt8)
    (inside : offset < count) :
    copy memory address count bytes (address + offset) = bytes offset := by
  simp only [copy]
  rw [if_pos (by omega), Nat.add_sub_cancel_left]

theorem Agree.symm {first second : Memory} {address count : Nat}
    (same : Agree first second address count) : Agree second first address count :=
  fun position low high => (same position low high).symm

theorem Agree.trans {first second third : Memory} {address count : Nat}
    (left : Agree first second address count) (right : Agree second third address count) :
    Agree first third address count :=
  fun position low high => (left position low high).trans (right position low high)

theorem Agree.mono {first second : Memory} {address count start length : Nat}
    (same : Agree first second address count) (low : address ≤ start)
    (high : start + length ≤ address + count) : Agree first second start length :=
  fun position after before => same position (by omega) (by omega)

theorem load_agree {first second : Memory} {address count : Nat}
    (same : Agree first second address count) : load first address count = load second address count := by
  induction count generalizing address with
  | zero => rfl
  | succ count ih =>
    have head : first address = second address := same address (by omega) (by omega)
    have tail : load first (address + 1) count = load second (address + 1) count :=
      ih (same.mono (by omega) (by omega))
    simp only [load, head, tail]

/-- The same bytes at another place make the same number. -/
theorem load_moved {first second : Memory} {address start count : Nat}
    (same : ∀ offset < count, first (address + offset) = second (start + offset)) :
    load first address count = load second start count := by
  induction count generalizing address start with
  | zero => rfl
  | succ count ih =>
    have head : first address = second start := same 0 (by omega)
    have tail : load first (address + 1) count = load second (start + 1) count := by
      apply ih
      intro offset inside
      have byte := same (offset + 1) (by omega)
      rwa [Nat.add_comm offset 1, ← Nat.add_assoc, ← Nat.add_assoc] at byte
    simp only [load, head, tail]

theorem store_agree (memory : Memory) {address count value start length : Nat}
    (apart : start + length ≤ address ∨ address + count ≤ start) :
    Agree (store memory address count value) memory start length :=
  (store_confined memory address count value).agree apart

theorem fill_agree (memory : Memory) {address count start length : Nat} {value : UInt8}
    (apart : start + length ≤ address ∨ address + count ≤ start) :
    Agree (fill memory address count value) memory start length :=
  (fill_confined memory address count value).agree apart

/-- A load is blind to a store beside it. -/
theorem load_store_apart (memory : Memory) {address count value start length : Nat}
    (apart : start + length ≤ address ∨ address + count ≤ start) :
    load (store memory address count value) start length = load memory start length :=
  load_agree (store_agree memory apart)

theorem load_fill_apart (memory : Memory) {address count start length : Nat} {value : UInt8}
    (apart : start + length ≤ address ∨ address + count ≤ start) :
    load (fill memory address count value) start length = load memory start length :=
  load_agree (fill_agree memory apart)

theorem load_lt (memory : Memory) (address count : Nat) : load memory address count < 256 ^ count := by
  induction count generalizing address with
  | zero => simp [load]
  | succ count ih =>
    have byte := (memory address).toNat_lt
    have rest := ih (address + 1)
    simp only [load, Nat.pow_succ]
    omega

private theorem store_tail (memory : Memory) (address count value : Nat) :
    Agree (store memory address (count + 1) value) (store memory (address + 1) count (value / 256))
      (address + 1) count := by
  intro position low high
  have shifted : position - address = (position - (address + 1)) + 1 := by omega
  simp only [store]
  rw [if_pos (by omega), if_pos (by omega), shifted, Nat.pow_succ', Nat.div_div_eq_div_mul]

/-- A load of exactly the stored range returns the value cut to its width. -/
theorem load_store (memory : Memory) (address count value : Nat) :
    load (store memory address count value) address count = value % 256 ^ count := by
  induction count generalizing memory address value with
  | zero => simp [load, Nat.mod_one]
  | succ count ih =>
    have head : (store memory address (count + 1) value address).toNat = value % 256 := by
      simp [store]
    have tail := (load_agree (store_tail memory address count value)).trans (ih memory (address + 1) (value / 256))
    simp only [load, head, tail]
    rw [Nat.pow_succ', Nat.mod_mul]

/-- Nothing is lost when the value fits. -/
theorem load_store_fits (memory : Memory) {address count value : Nat} (fits : value < 256 ^ count) :
    load (store memory address count value) address count = value :=
  (load_store memory address count value).trans (Nat.mod_eq_of_lt fits)

/-- A number is loaded from its bytes. -/
theorem load_bytes {memory : Memory} {address count value : Nat}
    (bytes : ∀ offset < count, memory (address + offset) = UInt8.ofNat (value / 256 ^ offset)) :
    load memory address count = value % 256 ^ count := by
  rw [← load_store memory address count value]
  apply load_agree
  intro position low high
  have byte := bytes (position - address) (by omega)
  rw [Nat.add_sub_cancel' low] at byte
  simp only [store]
  rw [if_pos ⟨low, high⟩, byte]

/-- The bytes of a loaded number. -/
theorem byte_load (memory : Memory) (address : Nat) {count offset : Nat} (inside : offset < count) :
    UInt8.ofNat (load memory address count / 256 ^ offset) = memory (address + offset) := by
  induction count generalizing address offset with
  | zero => cases inside
  | succ count ih =>
    have byte := (memory address).toNat_lt
    cases offset with
    | zero =>
      simp only [load, Nat.pow_zero, Nat.div_one, Nat.add_zero]
      apply UInt8.toNat_inj.mp
      rw [UInt8.toNat_ofNat']
      omega
    | succ offset =>
      have shifted : load memory address (count + 1) / 256 ^ (offset + 1) =
          load memory (address + 1) count / 256 ^ offset := by
        rw [Nat.pow_succ', ← Nat.div_div_eq_div_mul]
        congr 1
        simp only [load]
        omega
      rw [shifted, ih (address + 1) (Nat.lt_of_succ_lt_succ inside)]
      congr 1
      omega

theorem load_fill_zero (memory : Memory) {address count start length : Nat}
    (low : address ≤ start) (high : start + length ≤ address + count) :
    load (fill memory address count 0) start length = 0 := by
  induction length generalizing start with
  | zero => rfl
  | succ length ih =>
    have byte : fill memory address count 0 start = 0 := by
      simp only [fill]
      rw [if_pos (by omega)]
    have rest : load (fill memory address count 0) (start + 1) length = 0 := ih (by omega) (by omega)
    simp only [load, byte, rest]
    rfl

end ByteMemory
