import Kernix.Drivers.Memory
import Mathlib.Tactic.Ring

/-! `memset` fills its range, and `memcpy` copies its own when nothing that it writes is
read again, whatever the alignment of the pointers. -/

namespace Kernix.Proofs
open ByteMemory

section Memset

private theorem fill_nothing (memory : Memory) (address : Nat) (value : UInt8) :
    fill memory address 0 value = memory := by
  funext position
  simp only [fill]
  rw [if_neg (by omega)]

/-- A value whose bytes are all the same is stored as a fill. -/
private theorem store_repeated (memory : Memory) (address count word : Nat) (value : UInt8)
    (repeated : ∀ index, index < count → UInt8.ofNat (word / 256 ^ index) = value) :
    store memory address count word = fill memory address count value := by
  funext position
  simp only [store, fill]
  split
  · exact repeated _ (by omega)
  · rfl

private theorem fill_append (memory : Memory) (address first second : Nat) (value : UInt8) :
    fill (fill memory address first value) (address + first) second value =
      fill memory address (first + second) value := by
  funext position
  simp only [fill]
  split_ifs <;> first | rfl | omega

private theorem store_byte (memory : Memory) (address : Nat) (value : UInt8) :
    store memory address 1 value.toNat = fill memory address 1 value := by
  apply store_repeated
  intro index inside
  obtain rfl : index = 0 := by omega
  simp

private theorem or_shifted {low shift : Nat} (high : Nat) (small : low < 2 ^ shift) :
    low ||| high <<< shift = low + high * 2 ^ shift := by
  rw [Nat.or_comm, ← Nat.shiftLeft_add_eq_or_of_lt small, Nat.shiftLeft_eq, Nat.add_comm]

private theorem replicated_byte (value : UInt8) (index : Nat) (inside : index < 4) :
    UInt8.ofNat ((value.toNat ||| (value.toNat <<< 8) ||| (value.toNat <<< 16) ||| (value.toNat <<< 24)) /
      256 ^ index) = value := by
  have byte : value.toNat < 256 := value.toNat_lt
  have pair := or_shifted value.toNat (show value.toNat < 2 ^ 8 by omega)
  have triple := or_shifted value.toNat (show value.toNat + value.toNat * 2 ^ 8 < 2 ^ 16 by omega)
  have quad := or_shifted value.toNat
    (show value.toNat + value.toNat * 2 ^ 8 + value.toNat * 2 ^ 16 < 2 ^ 24 by omega)
  apply UInt8.toNat_inj.mp
  rw [UInt8.toNat_ofNat', pair, triple, quad]
  generalize value.toNat = byteValue at byte ⊢
  have digits : byteValue + byteValue * 2 ^ 8 + byteValue * 2 ^ 16 + byteValue * 2 ^ 24 =
      byteValue + 256 * (byteValue + 256 * (byteValue + 256 * byteValue)) := by ring
  have peel : ∀ high, (byteValue + 256 * high) / 256 = high := fun high => by omega
  have cases : index = 0 ∨ index = 1 ∨ index = 2 ∨ index = 3 := by omega
  rw [digits]
  rcases cases with rfl | rfl | rfl | rfl <;>
    simp only [Nat.pow_succ, Nat.pow_zero, Nat.one_mul, Nat.div_one, ← Nat.div_div_eq_div_mul, peel] <;> omega

private theorem store_word (memory : Memory) (address : Nat) (value : UInt8) :
    store memory address 4
      (value.toNat ||| (value.toNat <<< 8) ||| (value.toNat <<< 16) ||| (value.toNat <<< 24)) =
      fill memory address 4 value :=
  store_repeated memory address 4 _ value (replicated_byte value)

/-- Where a loop stands after covering the first bytes of its range. The pointer
may have wrapped only if nothing is left to write. -/
private structure Progress (memory : Memory) (ptr n : Nat) (value : UInt8) (current : Memory) (p left : Nat) : Prop where
  filled : ∃ done, done + left = n ∧ current = fill memory ptr done value
  pointer : left ≠ 0 → p = ptr + (n - left)

private theorem Progress.advance {memory current : Memory} {ptr n p left count : Nat} {value : UInt8}
    (progress : Progress memory ptr n value current p (left + count)) (bound : ptr + n ≤ 2 ^ 64)
    (positive : count ≠ 0) :
    Progress memory ptr n value (fill current p count value) (u64 (p + count)) left := by
  obtain ⟨done, total, rfl⟩ := progress.filled
  have place := progress.pointer (by omega)
  refine ⟨⟨done + count, by omega, ?_⟩, ?_⟩
  · rw [place, show ptr + (n - (left + count)) = ptr + done by omega, fill_append]
  · intro rest
    rw [place, u64_eq (by omega)]
    omega

private theorem memsetHead_progress {memory current : Memory} {ptr n p : Nat} {value : UInt8} (left : Nat)
    (progress : Progress memory ptr n value current p left) (bound : ptr + n ≤ 2 ^ 64) :
    let (after, q, rest) := memsetHead value.toNat left current p
    Progress memory ptr n value after q rest := by
  induction left generalizing current p with
  | zero => exact progress
  | succ left ih =>
    simp only [memsetHead]
    split
    · rw [store_byte]
      exact ih (progress.advance bound (by decide))
    · exact progress

private theorem memsetWords_progress {memory current : Memory} {ptr n p : Nat} {value : UInt8} (words tail : Nat)
    (progress : Progress memory ptr n value current p (4 * words + tail)) (bound : ptr + n ≤ 2 ^ 64) :
    let (after, q) := memsetWords
      (value.toNat ||| (value.toNat <<< 8) ||| (value.toNat <<< 16) ||| (value.toNat <<< 24)) words current p
    Progress memory ptr n value after q tail := by
  induction words generalizing current p with
  | zero => simpa only [Nat.mul_zero, Nat.zero_add] using! progress
  | succ words ih =>
    simp only [memsetWords, store_word]
    apply ih
    apply Progress.advance _ bound (by decide)
    rwa [show 4 * words + tail + 4 = 4 * (words + 1) + tail by omega]

private theorem memsetTail_progress {memory current : Memory} {ptr n p : Nat} {value : UInt8} (left : Nat)
    (progress : Progress memory ptr n value current p left) (bound : ptr + n ≤ 2 ^ 64) :
    memsetTail value.toNat left current p = fill memory ptr n value := by
  induction left generalizing current p with
  | zero =>
    obtain ⟨done, total, rfl⟩ := progress.filled
    rw [← total]
    rfl
  | succ left ih =>
    simp only [memsetTail, store_byte]
    exact ih (progress.advance bound (by decide))

/-- On a range that does not wrap, `memset` is a fill. -/
theorem memset_eq_fill (memory : Memory) (ptr n : Nat) (value : UInt8) (bound : ptr + n ≤ 2 ^ 64) :
    memset memory ptr value n = fill memory ptr n value := by
  have start : Progress memory ptr n value memory ptr n :=
    ⟨⟨0, by omega, (fill_nothing memory ptr value).symm⟩, fun _ => by omega⟩
  have head := memsetHead_progress n start bound
  simp only [memset]
  generalize memsetHead value.toNat n memory ptr = first at head ⊢
  obtain ⟨after, p, left⟩ := first
  have split : left = 4 * (left / 4) + left % 4 := by omega
  simp only at head ⊢
  rw [split] at head
  have middle := memsetWords_progress (left / 4) (left % 4) head bound
  generalize memsetWords _ (left / 4) after p = second at middle ⊢
  exact memsetTail_progress (left % 4) middle bound

end Memset

section Memcpy

/-- Storing what was loaded extends a copy by that many bytes. -/
private theorem store_loaded {memory current : Memory} {dst done count : Nat} {bytes loaded : Nat → UInt8}
    (copied : current = copy memory dst done bytes) (same : Agree loaded bytes done count) :
    store current (dst + done) count (load loaded done count) = copy memory dst (done + count) bytes := by
  subst copied
  funext position
  simp only [store, copy]
  by_cases fresh : dst + done ≤ position ∧ position < dst + done + count
  · have byte := byte_load loaded done (show position - (dst + done) < count by omega)
    have place : done + (position - (dst + done)) = position - dst := by omega
    rw [if_pos fresh, byte, place, if_pos (by omega)]
    exact same _ (by omega) (by omega)
  · rw [if_neg fresh]
    by_cases old : dst ≤ position ∧ position < dst + done
    · rw [if_pos old, if_pos (by omega)]
    · rw [if_neg old, if_neg (by omega)]

variable {memory current : Memory} {dst n d s : Nat} {source : Memory → Nat → UInt8} {holds : Memory → Nat → Prop}

/-- Every store of `memcpy`, be it of a byte or of a word, keeps what holds of the memory and
of the number of bytes that were copied. -/
def KeptByStores (dst n : Nat) (source : Memory → Nat → UInt8) (holds : Memory → Nat → Prop) : Prop :=
  ∀ current done count, done + count ≤ n → holds current done →
    holds (store current (dst + done) count (load (source current) done count)) (done + count)

/-- Where a loop stands after copying the first bytes of its range. The pointer to
the destination may have wrapped only if nothing is left to copy. -/
private structure CopyProgress (holds : Memory → Nat → Prop) (dst n : Nat) (current : Memory) (d s left : Nat) :
    Prop where
  total : s + left = n
  held : holds current s
  pointer : left ≠ 0 → d = dst + s

private theorem CopyProgress.advance {left count : Nat} (progress : CopyProgress holds dst n current d s (left + count))
    (kept : KeptByStores dst n source holds) (bound : dst + n ≤ 2 ^ 64) (positive : count ≠ 0) :
    CopyProgress holds dst n (store current d count (load (source current) s count)) (u64 (d + count)) (s + count)
      left := by
  have total := progress.total
  refine ⟨by omega, ?_, fun rest => ?_⟩
  · rw [progress.pointer (by omega)]
    exact kept current s count (by omega) progress.held
  · rw [progress.pointer (by omega), u64_eq (by omega)]
    omega

private theorem memcpyHead_progress (left : Nat) (progress : CopyProgress holds dst n current d s left)
    (kept : KeptByStores dst n source holds) (bound : dst + n ≤ 2 ^ 64) :
    let (after, d, s, rest) := memcpyHead source left current d s
    CopyProgress holds dst n after d s rest := by
  induction left generalizing current d s with
  | zero => exact progress
  | succ left ih =>
    simp only [memcpyHead]
    split
    · exact ih (progress.advance kept bound (by decide))
    · exact progress

private theorem memcpyWords_progress (words tail : Nat)
    (progress : CopyProgress holds dst n current d s (4 * words + tail)) (kept : KeptByStores dst n source holds)
    (bound : dst + n ≤ 2 ^ 64) :
    let (after, d, s) := memcpyWords source words current d s
    CopyProgress holds dst n after d s tail := by
  induction words generalizing current d s with
  | zero => simpa only [Nat.mul_zero, Nat.zero_add] using! progress
  | succ words ih =>
    simp only [memcpyWords]
    apply ih
    apply CopyProgress.advance _ kept bound (by decide)
    rwa [show 4 * words + tail + 4 = 4 * (words + 1) + tail by omega]

private theorem memcpyTail_progress (left : Nat) (progress : CopyProgress holds dst n current d s left)
    (kept : KeptByStores dst n source holds) (bound : dst + n ≤ 2 ^ 64) :
    holds (memcpyTail source left current d s) n := by
  induction left generalizing current d s with
  | zero =>
    obtain rfl : s = n := progress.total
    exact progress.held
  | succ left ih =>
    simp only [memcpyTail]
    exact ih (progress.advance kept bound (by decide))

/-- On a range that does not wrap, what every store keeps holds in the end. -/
theorem memcpy_rule (kept : KeptByStores dst n source holds) (bound : dst + n ≤ 2 ^ 64) (start : holds memory 0) :
    holds (memcpy memory dst source n) n := by
  have begun : CopyProgress holds dst n memory dst 0 n := ⟨Nat.zero_add n, start, fun _ => rfl⟩
  have head := memcpyHead_progress n begun kept bound
  simp only [memcpy]
  generalize memcpyHead source n memory dst 0 = first at head ⊢
  obtain ⟨after, d, s, left⟩ := first
  have split : left = 4 * (left / 4) + left % 4 := by omega
  simp only at head ⊢
  rw [split] at head
  have middle := memcpyWords_progress (left / 4) (left % 4) head kept bound
  generalize memcpyWords source (left / 4) after d s = second at middle ⊢
  exact memcpyTail_progress (left % 4) middle kept bound

/-- `memcpy` writes to its range only, whatever it reads. -/
theorem memcpy_confined (memory : Memory) (source : Memory → Nat → UInt8) (bound : dst + n ≤ 2 ^ 64) :
    Confined (memcpy memory dst source n) memory dst n := by
  have kept : KeptByStores dst n source fun current done => Confined current memory dst done := by
    intro current done count _ confined
    have stored := store_confined current (dst + done) count (load (source current) done count)
    exact (stored.mono (by omega) (by omega)).trans (confined.mono (Nat.le_refl dst) (by omega))
  exact memcpy_rule kept bound (.refl memory dst 0)

/-- What is still to be read does not depend on what was written. -/
def ReadsAhead (source : Memory → Nat → UInt8) (memory : Memory) (dst n : Nat) : Prop :=
  ∀ current done, Confined current memory dst done → Agree (source current) (source memory) done (n - done)

theorem memcpy_ahead (ahead : ReadsAhead source memory dst n) (bound : dst + n ≤ 2 ^ 64) :
    memcpy memory dst source n = copy memory dst n (source memory) := by
  have kept : KeptByStores dst n source fun current done => current = copy memory dst done (source memory) := by
    intro current done count inside copied
    have confined : Confined current memory dst done := copied ▸ copy_confined memory dst done _
    exact store_loaded copied ((ahead current done confined).mono (Nat.le_refl done) (by omega))
  exact memcpy_rule kept bound (copy_nothing memory dst _).symm

/-- The bytes of the source do not depend on what is written to the destination. -/
def Stable (source : Memory → Nat → UInt8) (memory : Memory) (dst n : Nat) : Prop :=
  ∀ other, Confined other memory dst n → Agree (source other) (source memory) 0 n

/-- On a range that does not wrap, `memcpy` from a stable source is a copy. -/
theorem memcpy_eq_copy (memory : Memory) (dst n : Nat) (source : Memory → Nat → UInt8)
    (stable : Stable source memory dst n) (bound : dst + n ≤ 2 ^ 64) :
    memcpy memory dst source n = copy memory dst n (source memory) := by
  refine memcpy_ahead (fun current done confined => ?_) bound
  by_cases within : done ≤ n
  · exact (stable current (confined.mono (Nat.le_refl dst) (by omega))).mono (Nat.zero_le done) (by omega)
  · exact fun position low high => absurd low (by omega)

/-- A buffer of the caller is a stable source. -/
theorem bytesOf_stable (buffer : List UInt8) (memory : Memory) (dst n : Nat) : Stable (bytesOf buffer) memory dst n :=
  fun _ _ _ _ _ => rfl

/-- So are the bytes of another place in memory. -/
theorem bytesFrom_stable {address dst n : Nat} (memory : Memory) (apart : address + n ≤ dst ∨ dst + n ≤ address) :
    Stable (bytesFrom address) memory dst n :=
  fun _ confined offset _ inside => confined (address + offset) (by omega)

/-- Neither does a place that is not in front of the destination. -/
theorem bytesFrom_ahead {src : Nat} (memory : Memory) (safe : src + n ≤ dst ∨ dst + n ≤ src ∨ dst ≤ src) :
    ReadsAhead (bytesFrom src) memory dst n :=
  fun _ _ confined offset low high => confined (src + offset) (by omega)

/-- The plain loop over the bytes, in ascending order. -/
def copyAscending (memory : Memory) (dst src : Nat) : Nat → Memory
  | 0 => memory
  | n + 1 =>
    let memory := copyAscending memory dst src n
    Function.update memory (dst + n) (memory (src + n))

theorem copyAscending_confined (memory : Memory) (dst src n : Nat) :
    Confined (copyAscending memory dst src n) memory dst n := by
  induction n with
  | zero => exact .refl memory dst 0
  | succ n ih =>
    intro position outside
    rw [copyAscending, Function.update_of_ne (by omega)]
    exact ih position (by omega)

theorem copyAscending_ahead {src : Nat} (ahead : ReadsAhead (bytesFrom src) memory dst n) {done : Nat}
    (within : done ≤ n) : copyAscending memory dst src done = copy memory dst done (bytesFrom src memory) := by
  induction done with
  | zero => exact (copy_nothing memory dst _).symm
  | succ done ih =>
    have read : copyAscending memory dst src done (src + done) = memory (src + done) :=
      ahead _ done (copyAscending_confined memory dst src done) done (Nat.le_refl done) (by omega)
    have front := ih (by omega)
    funext position
    rw [copyAscending, read, front, Function.update_apply]
    by_cases last : position = dst + done
    · rw [if_pos last, last, copy_inside memory dst (bytesFrom src memory) (Nat.lt_succ_self done)]
      rfl
    · rw [if_neg last]
      simp only [copy]
      congr 1
      exact propext (by omega)

end Memcpy

section Memmove

variable {memory current : Memory} {dst src n : Nat}

/-- A range of the copy has its bytes from the memory at the start, and nothing else changed. -/
structure Moved (memory : Memory) (dst src low high : Nat) (current : Memory) : Prop where
  inside : ∀ offset, low ≤ offset → offset < high → current (dst + offset) = memory (src + offset)
  outside : ∀ position, position < dst + low ∨ dst + high ≤ position → current position = memory position

/-- A byte is moved next to those that were moved before. -/
private theorem Moved.store {low high low' high' offset : Nat} (moved : Moved memory dst src low high current)
    (unread : src + offset < dst + low ∨ dst + high ≤ src + offset)
    (edge : offset = high ∧ low' = low ∧ high' = high + 1 ∨ offset + 1 = low ∧ low' = offset ∧ high' = high)
    (ordered : low ≤ high) :
    Moved memory dst src low' high'
      (ByteMemory.store current (dst + offset) 1 (load current (src + offset) 1)) := by
  have byte : load current (src + offset) 1 = (memory (src + offset)).toNat := by
    rw [load, load, moved.outside _ unread]
    rfl
  rw [byte]
  have elsewhere {position : Nat} (apart : position ≠ dst + offset) :
      ByteMemory.store current (dst + offset) 1 (memory (src + offset)).toNat position = current position :=
    store_confined _ _ _ _ position (by omega)
  constructor
  · intro other above below
    by_cases same : other = offset
    · rw [same]
      simp [ByteMemory.store]
    · rw [elsewhere (by omega)]
      exact moved.inside other (by omega) (by omega)
  · intro position outside
    rw [elsewhere (by omega)]
    exact moved.outside position (by omega)

theorem memmoveUp_moved (below : dst ≤ src) {left i : Nat} (fits : dst + (i + left) ≤ 2 ^ 64)
    (room : src + (i + left) ≤ 2 ^ 64) (moved : Moved memory dst src 0 i current) :
    Moved memory dst src 0 (i + left) (memmoveUp dst src left i current) := by
  induction left generalizing i current with
  | zero => exact moved
  | succ left ih =>
    rw [memmoveUp, u64_eq (by omega), u64_eq (by omega)]
    have next := moved.store (Or.inr (by omega)) (Or.inl ⟨rfl, rfl, rfl⟩) (Nat.zero_le i)
    have rest := ih (by omega) (by omega) next
    rwa [show i + 1 + left = i + (left + 1) by omega] at rest

theorem memmoveDown_moved (above : src ≤ dst) {i : Nat} (fits : dst + i ≤ 2 ^ 64) (room : src + i ≤ 2 ^ 64)
    (moved : Moved memory dst src i n current) (inside : i ≤ n) :
    Moved memory dst src 0 n (memmoveDown dst src i current) := by
  induction i generalizing current with
  | zero => exact moved
  | succ i ih =>
    rw [memmoveDown, u64_eq (by omega), u64_eq (by omega)]
    exact ih (by omega) (by omega) (moved.store (Or.inl (by omega)) (Or.inr ⟨rfl, rfl, rfl⟩) inside) (by omega)

/-- `memmove` moves the bytes as they were, however the ranges overlap. -/
theorem memmove_moved (memory : Memory) (fits : dst + n ≤ 2 ^ 64) (room : src + n ≤ 2 ^ 64) :
    Moved memory dst src 0 n (memmove memory dst src n) := by
  have nothing (i : Nat) : Moved memory dst src i i memory :=
    ⟨fun offset above below => by omega, fun _ _ => rfl⟩
  unfold memmove
  split
  case isTrue below =>
    have moved : Moved memory dst src 0 (0 + n) (memmoveUp dst src n 0 memory) :=
      memmoveUp_moved (by omega) (by omega) (by omega) (nothing 0)
    rwa [Nat.zero_add] at moved
  case isFalse above => exact memmoveDown_moved (by omega) fits room (nothing n) (Nat.le_refl n)

end Memmove

/-- What the three functions leave in every byte of memory. -/
structure MemoryCallsRight (memory : Memory) (dst src n : Nat) (val : UInt8) : Prop where
  memset : ∀ position, Kernix.memset memory dst val n position =
    if dst ≤ position ∧ position < dst + n then val else memory position
  memcpy : src + n ≤ dst ∨ dst + n ≤ src ∨ dst ≤ src →
    Kernix.memcpy memory dst (bytesFrom src) n = copyAscending memory dst src n
  memcpyConfined : Confined (Kernix.memcpy memory dst (bytesFrom src) n) memory dst n
  memmove : ∀ position, Kernix.memmove memory dst src n position =
    if dst ≤ position ∧ position < dst + n then memory (src + (position - dst)) else memory position

/-- The words in which the loops go make no difference, for any addresses and any length of
ranges that lie in the address space. -/
theorem memory_calls_right (memory : Memory) {dst src n : Nat} (val : UInt8) (fits : dst + n ≤ 2 ^ 64)
    (room : src + n ≤ 2 ^ 64) : MemoryCallsRight memory dst src n val where
  memset position := by rw [memset_eq_fill memory dst n val fits, fill]
  memcpy safe := by
    have ahead := bytesFrom_ahead memory safe
    rw [memcpy_ahead ahead fits, copyAscending_ahead ahead (Nat.le_refl n)]
  memcpyConfined := memcpy_confined memory (bytesFrom src) fits
  memmove position := by
    have moved := memmove_moved memory fits room
    split
    case isTrue inside =>
      have byte := moved.inside (position - dst) (Nat.zero_le _) (by omega)
      rwa [Nat.add_sub_cancel' inside.1] at byte
    case isFalse outside => exact moved.outside position (by omega)

/-- The source is one byte behind the destination, and neither is aligned. -/
theorem memory_calls_right_overlap : MemoryCallsRight (fun place => UInt8.ofNat place) 0x1001 0x1002 7 0xFF :=
  memory_calls_right (fun place => UInt8.ofNat place) 0xFF (by decide) (by decide)

end Kernix.Proofs
