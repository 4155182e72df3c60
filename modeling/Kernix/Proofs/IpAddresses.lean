import Kernix.Common.Array
import Kernix.Net.Network
import Mathlib.Data.List.TakeWhile

/-! What `parse_ip` makes of a string. The scan reads up to four numbers between dots
and never compares one of them, nor their count, with what an address may hold. -/

namespace Kernix.Proofs

/-- A run of digits continues the number in front of it. -/
def readFrom (part : Nat) (digits : List UInt8) : Nat :=
  digits.foldl (fun value digit => value * 10 + (digit.toNat - 0x30)) part

/-- The value of a run of decimal digits. -/
def decimal (digits : List UInt8) : Nat := readFrom 0 digits

def IsDigit (char : UInt8) : Prop := 0x30 ≤ char ∧ char ≤ 0x39

instance : DecidablePred IsDigit := fun char => inferInstanceAs (Decidable (0x30 ≤ char ∧ char ≤ 0x39))

/-- The characters that the scan goes past. -/
def AddressChar (char : UInt8) : Prop := IsDigit char ∨ char = 0x2E

instance : DecidablePred AddressChar := fun char => inferInstanceAs (Decidable (IsDigit char ∨ char = 0x2E))

def AddressChars (str : List UInt8) : Prop := ∀ char ∈ str, AddressChar char

instance : DecidablePred AddressChars := fun str => List.decidableBAll AddressChar str

/-- A decimal number in 0..255. -/
def IsOctet (part : List UInt8) : Prop := part ≠ [] ∧ (∀ char ∈ part, IsDigit char) ∧ decimal part ≤ 255

instance : DecidablePred IsOctet := fun part =>
  inferInstanceAs (Decidable (part ≠ [] ∧ (∀ char ∈ part, IsDigit char) ∧ decimal part ≤ 255))

/-- Exactly four decimal numbers in 0..255 separated by single dots. -/
def IsQuad (str : List UInt8) : Prop := (str.splitOn 0x2E).length = 4 ∧ ∀ part ∈ str.splitOn 0x2E, IsOctet part

instance : DecidablePred IsQuad := fun str =>
  inferInstanceAs (Decidable ((str.splitOn 0x2E).length = 4 ∧ ∀ part ∈ str.splitOn 0x2E, IsOctet part))

/-- The numbers of a list of parts in the bytes of a word, the first in the byte above `below` others. -/
def packParts (below : Nat) : List (List UInt8) → Nat
  | [] => 0
  | part :: rest => decimal part * 2 ^ (8 * below) ||| packParts (below - 1) rest

/-- What a string means as an address: zero unless it is one. -/
def addressOf (str : List UInt8) : Nat := if IsQuad str then packParts 3 (str.splitOn 0x2E) else 0

/-- The parts in front of the first character that the scan does not go past. -/
def scannedParts (str : List UInt8) : List (List UInt8) := (str.takeWhile fun char => AddressChar char).splitOn 0x2E

/-- The strings that make the scan end with zero, whatever their parts look like. -/
structure ScanRejects (str : List UInt8) : Prop where
  /-- At most three dots come in front of the character that ends the scan. -/
  parts : (scannedParts str).length ≤ 4
  /-- Every number is that of an `int`. -/
  fits : ∀ part ∈ scannedParts str, decimal part < 2 ^ 31
  /-- Another character ends the scan, or no number reaches into the 32 bits. -/
  zero : (∃ char ∈ str, ¬ AddressChar char) ∨
    ∀ (i : Nat) (part : List UInt8), (scannedParts str)[i]? = some part → 256 ^ (i + 1) ∣ decimal part

section Parts

variable {run : List UInt8}

theorem digit_addressChar (digits : ∀ char ∈ run, IsDigit char) : AddressChars run :=
  fun char member => Or.inl (digits char member)

theorem digit_undotted (digits : ∀ char ∈ run, IsDigit char) : 0x2E ∉ run :=
  fun dot => absurd (digits 0x2E dot) (by decide)

theorem takeWhile_digits (digits : ∀ char ∈ run, IsDigit char) (rest : List UInt8) :
    ((run ++ rest).takeWhile fun char => AddressChar char) = run ++ rest.takeWhile fun char => AddressChar char :=
  List.takeWhile_append_of_pos fun char member => decide_eq_true (digit_addressChar digits char member)

theorem scannedParts_digits (digits : ∀ char ∈ run, IsDigit char) : scannedParts run = [run] := by
  have whole := takeWhile_digits digits []
  rw [List.append_nil, List.takeWhile_nil, List.append_nil] at whole
  rw [scannedParts, whole, List.splitOn_eq_singleton (digit_undotted digits)]

theorem scannedParts_dot (digits : ∀ char ∈ run, IsDigit char) (rest : List UInt8) :
    scannedParts (run ++ 0x2E :: rest) = run :: scannedParts rest := by
  rw [scannedParts, takeWhile_digits digits, List.takeWhile_cons_of_pos (by decide), List.splitOn_append_cons_self,
    List.splitOn_eq_singleton (digit_undotted digits)]
  rfl

theorem scannedParts_other (digits : ∀ char ∈ run, IsDigit char) {char : UInt8} (other : ¬ AddressChar char)
    (rest : List UInt8) : scannedParts (run ++ char :: rest) = [run] := by
  rw [scannedParts, takeWhile_digits digits, List.takeWhile_cons_of_neg (by simpa using other), List.append_nil,
    List.splitOn_eq_singleton (digit_undotted digits)]

/-- A string is a run of digits, alone, in front of a dot, or in front of a character that
ends the scan. -/
theorem string_cases (str : List UInt8) :
    ∃ run, (∀ char ∈ run, IsDigit char) ∧
      (str = run ∨ (∃ rest, str = run ++ 0x2E :: rest) ∨ ∃ char rest, ¬ AddressChar char ∧ str = run ++ char :: rest) := by
  have whole := List.takeWhile_append_dropWhile (p := fun char => decide (IsDigit char)) (l := str)
  refine ⟨str.takeWhile fun char => IsDigit char, fun char member => by simpa using List.mem_takeWhile_imp member, ?_⟩
  cases tail : str.dropWhile fun char => IsDigit char with
  | nil =>
    rw [tail, List.append_nil] at whole
    exact Or.inl whole.symm
  | cons char rest =>
    rw [tail] at whole
    have stopped : ¬ IsDigit char := by
      have first := List.head?_dropWhile_not (fun char => decide (IsDigit char)) str
      simpa [tail] using first
    by_cases dot : char = 0x2E
    · subst dot
      exact Or.inr (Or.inl ⟨rest, whole.symm⟩)
    · exact Or.inr (Or.inr ⟨char, rest, not_or.mpr ⟨stopped, dot⟩, whole.symm⟩)

end Parts

section Scan

theorem readFrom_ge (part : Nat) (digits : List UInt8) : part ≤ readFrom part digits := by
  induction digits generalizing part with
  | nil => exact Nat.le_refl part
  | cons digit digits ih =>
    have rest := ih (part * 10 + (digit.toNat - 0x30))
    unfold readFrom at rest ⊢
    rw [List.foldl_cons]
    omega

/-- The digits of a number are read into it as long as it is that of an `int`. -/
theorem parseIpFrom_digits (ip : Nat) {part : Nat} {shift : Int} {run : List UInt8} (tail : List UInt8)
    (high : 0 ≤ shift) (small : part < 2 ^ 31) (digits : ∀ char ∈ run, IsDigit char) :
    parseIpFrom ip part shift (run ++ tail) =
      if readFrom part run < 2 ^ 31 then parseIpFrom ip (readFrom part run) shift tail else .error .undefined := by
  induction run generalizing part with
  | nil =>
    rw [readFrom, List.foldl_nil, if_pos small]
    rfl
  | cons char run ih =>
    obtain ⟨first, rest⟩ := List.forall_mem_cons.mp digits
    rw [List.cons_append, parseIpFrom, if_neg (by omega), if_pos (show 0x30 ≤ char ∧ char ≤ 0x39 from first)]
    dsimp only
    split
    case isTrue fits =>
      exact ih fits rest
    case isFalse large =>
      have grown := readFrom_ge (part * 10 + (char.toNat - 0x30)) run
      have same : readFrom part (char :: run) = readFrom (part * 10 + (char.toNat - 0x30)) run := rfl
      rw [same, if_neg (by omega)]

theorem shiftedPart_eq (part n : Nat) : shiftedPart part (8 * (n + 1 : Nat) - 8) = .ok (u32 (part * 2 ^ (8 * n))) := by
  have shift : (8 * (n + 1 : Nat) - 8 : Int).toNat = 8 * n := by omega
  rw [shiftedPart, if_pos (by omega), shift]

theorem u32_or (left right : Nat) : u32 (left ||| right) = u32 left ||| u32 right := Nat.or_mod_two_pow

/-- What the scan makes of a string with `n` shifts left. -/
theorem parseIpFrom_eq (n ip : Nat) (str : List UInt8) :
    parseIpFrom ip 0 (8 * n - 8) str =
      if (scannedParts str).length ≤ n ∧ ∀ part ∈ scannedParts str, decimal part < 2 ^ 31 then
        .ok (if AddressChars str then ip ||| u32 (packParts (n - 1) (scannedParts str)) else 0)
      else .error .undefined := by
  induction n generalizing ip str with
  | zero =>
    have parts : scannedParts str ≠ [] := List.splitOn_ne_nil _ _
    rw [if_neg (fun bound => parts (List.length_eq_zero_iff.mp (Nat.le_zero.mp bound.1)))]
    cases str <;> rfl
  | succ n ih =>
    have high : (0 : Int) ≤ 8 * (n + 1 : Nat) - 8 := by omega
    obtain ⟨run, digits, rfl | ⟨rest, rfl⟩ | ⟨char, rest, other, rfl⟩⟩ := string_cases str
    · have read := parseIpFrom_digits ip [] high (by decide : 0 < 2 ^ 31) digits
      rw [List.append_nil] at read
      rw [read, scannedParts_digits digits, if_pos (digit_addressChar digits)]
      simp only [parseIpFrom, shiftedPart_eq, List.length_singleton, List.forall_mem_singleton, packParts, Nat.or_zero]
      simp only [Nat.le_add_left, true_and, Nat.add_sub_cancel]
      rfl
    · have stopped : ¬ (0x30 ≤ (0x2E : UInt8) ∧ (0x2E : UInt8) ≤ 0x39) := by decide
      have dropped : (8 * (n + 1 : Nat) - 8 - 8 : Int) = 8 * n - 8 := by omega
      have scanned : AddressChars (run ++ 0x2E :: rest) ↔ AddressChars rest := by
        rw [AddressChars, List.forall_mem_append, List.forall_mem_cons]
        exact ⟨fun all => all.2.2, fun all => ⟨digit_addressChar digits, by decide, all⟩⟩
      rw [parseIpFrom_digits ip _ high (by decide : 0 < 2 ^ 31) digits, scannedParts_dot digits, parseIpFrom,
        if_neg (not_lt.mpr high), if_neg stopped, if_pos rfl, shiftedPart_eq]
      simp only [bind, Except.bind, dropped, ih, scanned, List.length_cons, List.forall_mem_cons, packParts, u32_or,
        Nat.add_sub_cancel, Nat.add_le_add_iff_right, ← Nat.or_assoc]
      change (if decimal run < 2 ^ 31 then _ else _) = _
      by_cases fits : decimal run < 2 ^ 31
      · rw [if_pos fits]
        simp only [fits, true_and]
        rfl
      · rw [if_neg fits, if_neg (fun all => fits all.2.1)]
    · have stopped : ¬ (0x30 ≤ char ∧ char ≤ 0x39) := fun digit => other (Or.inl digit)
      have undotted : char ≠ 0x2E := fun dot => other (Or.inr dot)
      have notAll : ¬ AddressChars (run ++ char :: rest) :=
        fun all => other (all char (List.mem_append_right run List.mem_cons_self))
      rw [parseIpFrom_digits ip _ high (by decide : 0 < 2 ^ 31) digits, scannedParts_other digits other, parseIpFrom,
        if_neg (not_lt.mpr high), if_neg stopped, if_neg undotted, if_neg notAll]
      simp only [List.length_singleton, List.forall_mem_singleton, Nat.le_add_left, true_and]
      rfl

end Scan

section Addresses

/-- Nothing of the parts stays in 32 bits only when each is a multiple of the place it is
shifted out of. -/
theorem packParts_zero_iff {below : Nat} {parts : List (List UInt8)} (few : parts.length ≤ below + 1)
    (bound : below ≤ 3) :
    u32 (packParts below parts) = 0 ↔
      ∀ (i : Nat) (part : List UInt8), parts[i]? = some part → 256 ^ (4 - below + i) ∣ decimal part := by
  induction parts generalizing below with
  | nil => simp [packParts, u32]
  | cons part parts ih =>
    have split : 2 ^ 32 = 256 ^ (4 - below) * 2 ^ (8 * below) := by
      rw [show 256 = 2 ^ 8 from rfl, ← Nat.pow_mul, ← Nat.pow_add]
      congr 1
      omega
    have head : u32 (decimal part * 2 ^ (8 * below)) = 0 ↔ 256 ^ (4 - below) ∣ decimal part := by
      rw [u32, ← Nat.dvd_iff_mod_eq_zero, split]
      exact Nat.mul_dvd_mul_iff_right (Nat.two_pow_pos _)
    have place : ∀ (i : Nat) (other : List UInt8), parts[i]? = some other → 4 - (below - 1) + i = 4 - below + (i + 1) := by
      intro i other found
      have inside := (List.getElem?_eq_some_iff.mp found).1
      rw [List.length_cons] at few
      omega
    rw [List.length_cons] at few
    rw [packParts, u32_or, Nat.or_eq_zero_iff, head, ih (by omega) (by omega)]
    constructor
    · rintro ⟨divides, rest⟩ i other found
      cases i with
      | zero =>
        cases found
        exact divides
      | succ i =>
        rw [← place i other found]
        exact rest i other found
    · intro all
      refine ⟨all 0 part rfl, ?_⟩
      intro i other found
      rw [place i other found]
      exact all (i + 1) other found

theorem packParts_lt {below : Nat} {parts : List (List UInt8)} (bound : below ≤ 3)
    (octets : ∀ part ∈ parts, decimal part ≤ 255) : packParts below parts < 2 ^ 32 := by
  induction parts generalizing below with
  | nil => exact Nat.two_pow_pos 32
  | cons part parts ih =>
    obtain ⟨first, rest⟩ := List.forall_mem_cons.mp octets
    refine Nat.or_lt_two_pow ?_ (ih (by omega) rest)
    calc decimal part * 2 ^ (8 * below) ≤ 255 * 2 ^ (8 * 3) :=
          Nat.mul_le_mul first (Nat.pow_le_pow_right (by decide) (by omega))
      _ < 2 ^ 32 := by decide

theorem mem_splitOn {str : List UInt8} {char : UInt8} (member : char ∈ str) :
    char = 0x2E ∨ ∃ part ∈ str.splitOn 0x2E, char ∈ part := by
  induction str with
  | nil => cases member
  | cons first str ih =>
    rw [List.splitOn_cons_eq_if_modifyHead]
    by_cases dot : first = 0x2E
    · rw [if_pos (beq_iff_eq.mpr dot)]
      obtain rfl | later := List.mem_cons.mp member
      · exact Or.inl dot
      · refine (ih later).imp_right ?_
        rintro ⟨part, inside, found⟩
        exact ⟨part, List.mem_cons_of_mem _ inside, found⟩
    · rw [if_neg (mt beq_iff_eq.mp dot)]
      cases parts : str.splitOn 0x2E with
      | nil => exact absurd parts (List.splitOn_ne_nil _ _)
      | cons part parts' =>
        rw [parts] at ih
        rw [List.modifyHead_cons]
        obtain rfl | later := List.mem_cons.mp member
        · exact Or.inr ⟨_, List.mem_cons_self, List.mem_cons_self⟩
        · obtain dot | ⟨found, inside, held⟩ := ih later
          · exact Or.inl dot
          · obtain rfl | behind := List.mem_cons.mp inside
            · exact Or.inr ⟨_, List.mem_cons_self, List.mem_cons_of_mem _ held⟩
            · exact Or.inr ⟨found, List.mem_cons_of_mem _ behind, held⟩

theorem IsQuad.addressChars {str : List UInt8} (quad : IsQuad str) : AddressChars str := by
  intro char member
  obtain dot | ⟨part, inside, held⟩ := mem_splitOn member
  · exact Or.inr dot
  · exact Or.inl ((quad.2 part inside).2.1 char held)

theorem scannedParts_all {str : List UInt8} (all : AddressChars str) :
    scannedParts str = str.splitOn 0x2E := by
  rw [scannedParts, List.takeWhile_eq_self_iff.mpr (fun char member => decide_eq_true (all char member))]

/-- What the whole scan returns. -/
theorem parseIp_eq (str : List UInt8) :
    parseIp str =
      if (scannedParts str).length ≤ 4 ∧ ∀ part ∈ scannedParts str, decimal part < 2 ^ 31 then
        .ok (if AddressChars str then u32 (packParts 3 (scannedParts str)) else 0)
      else .error .undefined := by
  have scan := parseIpFrom_eq 4 0 str
  rw [Nat.zero_or] at scan
  exact scan

theorem parseIp_quad {str : List UInt8} (quad : IsQuad str) : parseIp str = .ok (addressOf str) := by
  have octets : ∀ part ∈ str.splitOn 0x2E, decimal part ≤ 255 := fun part member => (quad.2 part member).2.2
  have inside : (str.splitOn 0x2E).length ≤ 4 ∧ ∀ part ∈ str.splitOn 0x2E, decimal part < 2 ^ 31 :=
    ⟨quad.1.le, fun part member => (octets part member).trans_lt (by decide)⟩
  have word : u32 (packParts 3 (str.splitOn 0x2E)) = packParts 3 (str.splitOn 0x2E) :=
    Nat.mod_eq_of_lt (packParts_lt (by decide) octets)
  rw [parseIp_eq, scannedParts_all quad.addressChars, if_pos inside, if_pos quad.addressChars, word, addressOf, if_pos quad]

/-- A string that is no address gives zero exactly when the scan is one that rejects it. -/
theorem parseIp_zero_iff (str : List UInt8) : parseIp str = .ok 0 ↔ ScanRejects str := by
  rw [parseIp_eq]
  constructor
  · intro result
    split at result
    case isFalse => cases result
    case isTrue inside =>
      refine ⟨inside.1, inside.2, ?_⟩
      by_cases all : AddressChars str
      · rw [if_pos all] at result
        have small := (packParts_zero_iff inside.1 (by decide)).mp (Except.ok.inj result)
        refine Or.inr ?_
        intro i part found
        rw [Nat.add_comm]
        exact small i part found
      · rw [AddressChars] at all
        push Not at all
        exact Or.inl all
  · intro rejected
    rw [if_pos ⟨rejected.parts, rejected.fits⟩]
    obtain ⟨char, member, other⟩ | small := rejected.zero
    · rw [if_neg (fun all => other (all char member))]
    · have zero : u32 (packParts 3 (scannedParts str)) = 0 := by
        apply (packParts_zero_iff rejected.parts (by decide)).mpr
        intro i part found
        rw [Nat.add_comm]
        exact small i part found
      rw [zero, ite_self]

end Addresses

/-- The scan meets what an address is on the addresses and on the strings it rejects. -/
theorem parseIp_iff (str : List UInt8) : parseIp str = .ok (addressOf str) ↔ IsQuad str ∨ ScanRejects str := by
  by_cases quad : IsQuad str
  · exact ⟨fun _ => Or.inl quad, fun _ => parseIp_quad quad⟩
  · have zero : addressOf str = 0 := if_neg quad
    rw [zero, parseIp_zero_iff]
    exact ⟨Or.inr, fun either => either.resolve_left quad⟩

/-- Three parts are taken for an address. -/
theorem parseIp_three_parts : ¬ ∀ str : List UInt8, parseIp str = .ok (addressOf str) := by
  intro right
  exact absurd (right (literal "1.2.3")) (by decide)

end Kernix.Proofs
