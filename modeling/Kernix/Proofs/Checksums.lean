import Kernix.Lib.OnesComplement
import Kernix.Net.Network

/-! The two checksum functions compute the complement of a one's-complement sum, and
a header that holds its own checksum is summed up to zero. -/

namespace Kernix.Proofs
open ByteMemory

variable {memory : Memory} {address len place : Nat}

/-- The largest 16-bit word. -/
abbrev topWord : Nat := 2 ^ 16 - 1

/-- The bytes that a checksum is made of. -/
def rangeBytes (memory : Memory) (address len : Nat) : List UInt8 := (List.range len).map fun i => memory (address + i)

/-- The little-endian words of a byte sequence, with a zero behind an odd last byte. -/
def wordsOf : List UInt8 → List Nat
  | [] => []
  | [low] => [low.toNat]
  | low :: high :: rest => (low.toNat + 256 * high.toNat) :: wordsOf rest

theorem wordsOf_le (bytes : List UInt8) : ∀ word ∈ wordsOf bytes, word ≤ topWord := by
  induction bytes using wordsOf.induct with
  | case1 => simp [wordsOf]
  | case2 low =>
    intro word member
    have byte := low.toNat_lt
    rw [List.mem_singleton.mp member, topWord]
    omega
  | case3 low high rest ih =>
    intro word member
    have left := low.toNat_lt
    have right := high.toNat_lt
    obtain same | later := List.mem_cons.mp member
    · rw [same, topWord]
      omega
    · exact ih word later

section Words

theorem rangeBytes_succ (memory : Memory) (address len : Nat) :
    rangeBytes memory address (len + 1) = memory address :: rangeBytes memory (address + 1) len := by
  simp only [rangeBytes, List.range_succ_eq_map, List.map_cons, List.map_map, Nat.add_zero]
  congr 1
  apply List.map_congr_left
  intro i _
  simp only [Function.comp_apply]
  congr 1
  omega

theorem wordSum_eq (memory : Memory) (address len : Nat) :
    wordSum memory address len = (wordsOf (rangeBytes memory address len)).sum := by
  induction address, len using wordSum.induct with
  | case1 => rfl
  | case2 => simp [wordSum, rangeBytes, wordsOf]
  | case3 address len ih =>
    rw [wordSum, ih, rangeBytes_succ, rangeBytes_succ, wordsOf, List.sum_cons]
    simp only [load, Nat.mul_zero, Nat.add_zero]

/-- Each two bytes add at most one full word. -/
theorem wordSum_le (memory : Memory) (address len : Nat) : wordSum memory address len ≤ topWord * ((len + 1) / 2) := by
  induction address, len using wordSum.induct with
  | case1 => exact Nat.le_refl 0
  | case2 address =>
    have byte := (memory address).toNat_lt
    rw [wordSum]
    unfold topWord at *
    omega
  | case3 address len ih =>
    have word := load_lt memory address 2
    rw [wordSum]
    unfold topWord at *
    omega

theorem checksumWords_eq (memory : Memory) (address sum len : Nat) (bound : sum < 2 ^ 32) :
    checksumWords memory address sum len = u32 (sum + wordSum memory address len) := by
  induction address, sum, len using checksumWords.induct memory with
  | case1 => exact (Nat.mod_eq_of_lt bound).symm
  | case2 => rfl
  | case3 address sum len ih =>
    rw [checksumWords, ih (Nat.mod_lt _ (by decide)), wordSum]
    simp only [u32, Nat.mod_add_mod, Nat.add_assoc]

end Words

section Folding

/-- The folding loop ends with the one word that the sum is folded to. -/
theorem foldCarries_eq (sum : Nat) : foldCarries sum = OnesComplement.residue topWord sum := by
  induction sum using foldCarries.induct with
  | case1 sum small =>
    have word : sum ≤ topWord := by
      unfold topWord
      omega
    rw [foldCarries, if_pos small, OnesComplement.residue_eq (by decide) word]
  | case2 sum large ih =>
    rw [foldCarries, if_neg large, ih]
    exact OnesComplement.residue_folds (by decide) (OnesComplement.folds_carry topWord sum)

theorem foldCarries_mod (sum : Nat) : foldCarries sum % 2 ^ 16 = foldCarries sum := by
  have bound : OnesComplement.residue topWord sum ≤ topWord := OnesComplement.residue_le (by decide) sum
  rw [foldCarries_eq]
  exact Nat.mod_eq_of_lt (Nat.lt_succ_of_le bound)

theorem networkChecksum_eq (memory : Memory) (address len : Nat) :
    networkChecksum memory address len =
      OnesComplement.complement topWord (OnesComplement.residue topWord (u32 (wordSum memory address len))) := by
  unfold networkChecksum
  rw [if_neg (by omega), Int.toNat_natCast]
  dsimp only
  rw [foldCarries_mod, foldCarries_eq]
  rfl

theorem checksum_eq (memory : Memory) (address len : Nat) :
    checksum memory address len = networkChecksum memory address len := by
  rw [networkChecksum_eq, checksum, checksumWords_eq _ _ _ _ (by decide), Nat.zero_add, foldCarries_mod, foldCarries_eq]
  rfl

/-- Up to 65535 bytes the accumulator holds the whole sum. -/
theorem networkChecksum_sum (short : len ≤ 65535) :
    networkChecksum memory address len =
      OnesComplement.complement topWord (OnesComplement.sum topWord (wordsOf (rangeBytes memory address len))) := by
  have limit := wordSum_le memory address len
  have whole : u32 (wordSum memory address len) = wordSum memory address len := by
    apply Nat.mod_eq_of_lt
    unfold topWord at limit
    omega
  rw [networkChecksum_eq, whole, wordSum_eq, OnesComplement.sum_eq_residue (by decide) (wordsOf_le _)]

end Folding

section Verification

theorem wordSum_store_apart {value : Nat} (apart : address + len ≤ place ∨ place + 2 ≤ address) :
    wordSum (store memory place 2 value) address len = wordSum memory address len := by
  rw [wordSum_eq, wordSum_eq]
  congr 2
  apply List.map_congr_left
  intro i inside
  have bound := List.mem_range.mp inside
  exact store_confined memory place 2 value _ (by omega)

/-- A word of the header that is stored over a zero adds its value to the sum. -/
theorem wordSum_store (offset : Nat) {value : Nat} (inside : 2 * offset + 2 ≤ len) (fits : value < 2 ^ 16)
    (cleared : load memory (address + 2 * offset) 2 = 0) :
    wordSum (store memory (address + 2 * offset) 2 value) address len = wordSum memory address len + value := by
  induction offset generalizing address len with
  | zero =>
    obtain ⟨rest, rfl⟩ := Nat.exists_eq_add_of_le' inside
    have stored : load (store memory address 2 value) address 2 = value := load_store_fits memory fits
    rw [Nat.mul_zero, Nat.add_zero] at cleared ⊢
    rw [wordSum, wordSum, stored, wordSum_store_apart (by omega), cleared]
    omega
  | succ offset ih =>
    obtain ⟨rest, rfl⟩ := Nat.exists_eq_add_of_le' (show 2 ≤ len by omega)
    have moved : address + 2 * (offset + 1) = address + 2 + 2 * offset := by omega
    rw [moved] at cleared ⊢
    have head : load (store memory (address + 2 + 2 * offset) 2 value) address 2 = load memory address 2 :=
      load_store_apart memory (by omega)
    rw [wordSum, wordSum, head, ih (by omega) cleared, Nat.add_assoc]

/-- The accumulator does not pass its end when the checksum of what it holds is added:
the largest accumulator is itself a multiple of the largest word. -/
theorem u32_complement (sum : Nat) :
    u32 (sum + OnesComplement.complement topWord (OnesComplement.residue topWord (u32 sum))) =
      u32 sum + OnesComplement.complement topWord (OnesComplement.residue topWord (u32 sum)) := by
  unfold u32
  rw [← Nat.mod_add_mod, Nat.mod_eq_of_lt]
  have bound : sum % 2 ^ 32 < 2 ^ 32 := Nat.mod_lt _ (by decide)
  unfold OnesComplement.complement OnesComplement.residue topWord
  split <;> omega

/-- A header with its own checksum in it. -/
theorem networkChecksum_stored (offset : Nat) (inside : 2 * offset + 2 ≤ len)
    (cleared : load memory (address + 2 * offset) 2 = 0) :
    networkChecksum (store memory (address + 2 * offset) 2 (networkChecksum memory address len)) address len = 0 := by
  have fits : networkChecksum memory address len < 2 ^ 16 := by
    rw [networkChecksum_eq]
    unfold OnesComplement.complement topWord
    omega
  rw [networkChecksum_eq, wordSum_store offset inside fits cleared, networkChecksum_eq, u32_complement,
    OnesComplement.residue_complement (by decide)]
  exact Nat.sub_self topWord

end Verification

/-- Both functions give the complement of the one's-complement sum of the words, and a
header of whole words that holds its checksum is verified by a second one. -/
theorem checksums_verify :
    (∀ (memory : Memory) (address len : Nat), len ≤ 65535 →
      networkChecksum memory address len = checksum memory address len ∧
      networkChecksum memory address len =
        OnesComplement.complement topWord (OnesComplement.sum topWord (wordsOf (rangeBytes memory address len)))) ∧
    (∀ (memory : Memory) (address len place : Nat), len % 2 = 0 → place % 2 = 0 → place + 2 ≤ len →
      load memory (address + place) 2 = 0 →
      networkChecksum (store memory (address + place) 2 (networkChecksum memory address len)) address len = 0) := by
  constructor
  · intro memory address len short
    exact ⟨(checksum_eq memory address len).symm, networkChecksum_sum short⟩
  · intro memory address len place _ aligned inside cleared
    obtain ⟨offset, rfl⟩ := Nat.dvd_of_mod_eq_zero aligned
    exact networkChecksum_stored offset inside cleared

/-- The 20 bytes of a header whose bytes are all zero. -/
theorem checksums_verify_zeros :
    networkChecksum (fun _ => 0) 0 (3 : Nat) = checksum (fun _ => 0) 0 3 ∧
    networkChecksum (store (fun _ => 0) (0 + 10) 2 (networkChecksum (fun _ => 0) 0 (20 : Nat))) 0 (20 : Nat) = 0 :=
  ⟨(checksums_verify.1 (fun _ => 0) 0 3 (by decide)).1,
    checksums_verify.2 (fun _ => 0) 0 20 10 (by decide) (by decide) (by decide) (by decide)⟩

end Kernix.Proofs
