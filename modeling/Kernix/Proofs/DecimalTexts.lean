import Kernix.Common.Numbers
import Kernix.Lib.Numerals
import Kernix.Lib.SlotList
import Kernix.Proofs.BlockStrings
import Kernix.Proofs.IpAddresses
import Mathlib.Tactic.IntervalCases

/-! The texts of numbers. Both printers make the magnitude of a number first, which the
least `int` does not have. -/

namespace Kernix.Proofs
open SlotList

variable {size : Nat} {buffer : Fin size → UInt8} {chars : List UInt8}

section Reversal

/-- A range of a buffer, turned around. -/
def mirrored (buffer : Fin size → UInt8) (first count : Nat) : Fin size → UInt8 := fun index =>
  if inside : first ≤ index.val ∧ index.val < first + count ∧ first + count ≤ size then
    buffer ⟨first + (first + count - 1 - index.val), by omega⟩
  else buffer index

/-- Two bytes of a buffer, exchanged. -/
def exchanged (buffer : Fin size → UInt8) (first last : Fin size) : Fin size → UInt8 :=
  Function.update (Function.update buffer first (buffer last)) last (buffer first)

theorem swapChars_eq {first last : Nat} (inside : first < size) (within : last < size) (apart : first ≠ last) :
    swapChars buffer first last = .ok (exchanged buffer ⟨first, inside⟩ ⟨last, within⟩) := by
  have other : (⟨last, within⟩ : Fin size) ≠ ⟨first, inside⟩ := by simpa [Fin.ext_iff] using Ne.symm apart
  have back (left right : UInt8) : right ^^^ (left ^^^ right) = left := by
    rw [UInt8.xor_comm left right, ← UInt8.xor_assoc, UInt8.xor_self, UInt8.zero_xor]
  have front (left right : UInt8) : left ^^^ right ^^^ left = right := by
    rw [UInt8.xor_comm left right, UInt8.xor_assoc, UInt8.xor_self, UInt8.xor_zero]
  simp only [swapChars, elementAt_eq _ inside, elementAt_eq _ within, setElement_eq _ inside, setElement_eq _ within,
    bind, Except.bind, Function.update_self, Function.update_of_ne other, Function.update_of_ne other.symm, back, front]
  rw [Function.update_comm other, Function.update_idem, exchanged]

theorem exchanged_mirrored {first inner : Nat} (low : first < size) (high : first + inner + 1 < size) :
    mirrored (exchanged buffer ⟨first, low⟩ ⟨first + inner + 1, high⟩) (first + 1) inner =
      mirrored buffer first (inner + 2) := by
  have lower (index : Fin size) (here : index.val = first) :
      exchanged buffer ⟨first, low⟩ ⟨first + inner + 1, high⟩ index = buffer ⟨first + inner + 1, high⟩ := by
    rw [exchanged, Function.update_of_ne (by simp only [ne_eq, Fin.ext_iff]; omega),
      show index = ⟨first, low⟩ from Fin.ext here, Function.update_self]
  have upper (index : Fin size) (here : index.val = first + inner + 1) :
      exchanged buffer ⟨first, low⟩ ⟨first + inner + 1, high⟩ index = buffer ⟨first, low⟩ := by
    rw [exchanged, show index = ⟨first + inner + 1, high⟩ from Fin.ext here, Function.update_self]
  have outer (index : Fin size) (above : index.val ≠ first) (below : index.val ≠ first + inner + 1) :
      exchanged buffer ⟨first, low⟩ ⟨first + inner + 1, high⟩ index = buffer index := by
    rw [exchanged, Function.update_of_ne (by simpa [Fin.ext_iff] using below),
      Function.update_of_ne (by simpa [Fin.ext_iff] using above)]
  have place {left right : Nat} (within : left < size) (same : left = right) :
      buffer ⟨left, within⟩ = buffer ⟨right, same ▸ within⟩ := congrArg buffer (Fin.ext same)
  funext index
  simp only [mirrored]
  by_cases between : first + 1 ≤ index.val ∧ index.val < first + 1 + inner
  · rw [dif_pos (by omega), dif_pos (by omega), outer _ (by simp only; omega) (by simp only; omega)]
    exact place _ (by omega)
  · rw [dif_neg (by omega)]
    by_cases start : index.val = first
    · rw [dif_pos (by omega), lower index start]
      exact place _ (by omega)
    · by_cases stop : index.val = first + inner + 1
      · rw [dif_pos (by omega), upper index stop]
        exact place _ (by omega)
      · rw [dif_neg (by omega), outer index start stop]

/-- The ends are exchanged, and the range between them is turned around. -/
theorem reverseBetween_eq {turns first count : Nat} (inside : first + count ≤ size) (enough : count < turns) :
    reverseBetween turns buffer first (first + count - 1 : Int) = .ok (mirrored buffer first count) := by
  induction turns generalizing buffer first count with
  | zero => cases enough
  | succ turns ih =>
    rw [reverseBetween]
    by_cases short : count ≤ 1
    · rw [if_neg (by omega)]
      congr 1
      funext index
      rw [mirrored]
      split
      · congr 1
        apply Fin.ext
        dsimp only
        omega
      · rfl
    · obtain ⟨inner, rfl⟩ : ∃ inner, count = inner + 2 := ⟨count - 2, by omega⟩
      have last : (first + (inner + 2 : Nat) - 1 : Int) = (first + inner + 1 : Nat) := by omega
      have next : ((first + inner + 1 : Nat) : Int) - 1 = (first + 1 : Nat) + inner - 1 := by omega
      have start : (first : Int) + 1 = (first + 1 : Nat) := by omega
      have low : first < size := by omega
      have high : first + inner + 1 < size := by omega
      rw [last, if_pos (by omega), swapChars_eq low high (by omega)]
      simp only [bind, Except.bind]
      rw [start, next]
      exact (ih (by omega) (by omega)).trans (congrArg Except.ok (exchanged_mirrored low high))

/-- The string of a buffer. -/
theorem held_text_lies (held : SlotList.Holds buffer (chars ++ [0])) (clean : 0 ∉ chars) : TextIs buffer 0 chars := by
  have fits := held.fits
  simp only [List.length_append, List.length_singleton] at fits
  refine ⟨by omega, fun index inside => ?_, ?_, clean⟩
  · have byte := held.slot index (by simp only [List.length_append, List.length_singleton]; omega)
    rw [List.getElem_append_left inside] at byte
    rw [← byte]
    exact congrArg buffer (Fin.ext (Nat.zero_add index))
  · have byte := held.slot chars.length (by simp only [List.length_append, List.length_singleton]; omega)
    rw [List.getElem_concat_length rfl] at byte
    rw [← byte]
    exact congrArg buffer (Fin.ext (Nat.zero_add chars.length))

theorem strReverse_lies (lies : TextIs buffer 0 chars) :
    ∃ after, strReverse buffer = .ok after ∧ TextIs after 0 chars.reverse := by
  have fits := lies.fits
  have inside : 0 + chars.length ≤ size := by omega
  refine ⟨mirrored buffer 0 chars.length, ?_, ?_⟩
  · unfold strReverse
    rw [lies.ok]
    have whole : reverseBetween (size + 1) buffer (0 : Nat) ((0 : Nat) + chars.length - 1 : Int) = _ :=
      reverseBetween_eq inside (by omega)
    simpa only [bind, Except.bind, Nat.cast_zero, Int.zero_add] using whole
  · refine ⟨by rw [List.length_reverse]; exact fits, fun index within => ?_, ?_, by simpa using lies.clean⟩
    · rw [List.length_reverse] at within
      have byte := lies.bytes (chars.length - 1 - index) (by omega)
      rw [mirrored, dif_pos (by simp only; omega), List.getElem_reverse, ← byte]
      exact congrArg buffer (Fin.ext (by simp only; omega))
    · rw [mirrored, dif_neg (by simp only [List.length_reverse]; omega)]
      have last := lies.terminated
      simp only [List.length_reverse]
      exact last

end Reversal

section Digits

/-- The digits of a number as they are put into a buffer, the lowest one first. -/
def lowChars (n : Nat) : List UInt8 := (Numerals.lowFirst 10 n).map fun digit : Nat => digitChar digit

theorem lowChars_step (n : Nat) :
    lowChars n = digitChar (n % 10 : Nat) :: if n / 10 = 0 then [] else lowChars (n / 10) := by
  rw [lowChars, Numerals.lowFirst_step (by decide), List.map_cons]
  split <;> rfl

theorem length_lowChars_le {n count : Nat} (some : 0 < count) (small : n < 10 ^ count) :
    (lowChars n).length ≤ count := by
  rw [lowChars, List.length_map]
  exact Numerals.length_lowFirst_le (by decide) some small

theorem digitChar_eq {digit : Nat} (small : digit < 10) : digitChar digit = UInt8.ofNat (0x30 + digit) := by
  rw [digitChar]
  congr 1
  omega

theorem digitChar_isDigit {digit : Nat} (small : digit < 10) : IsDigit (digitChar digit) := by
  rw [digitChar_eq small]
  unfold IsDigit
  interval_cases digit <;> decide

theorem digitChar_toNat {digit : Nat} (small : digit < 10) : (digitChar digit).toNat - 0x30 = digit := by
  rw [digitChar_eq small]
  interval_cases digit <;> rfl

theorem lowChars_digits {n : Nat} {char : UInt8} (member : char ∈ lowChars n) : IsDigit char := by
  obtain ⟨digit, inside, rfl⟩ := List.mem_map.mp member
  exact digitChar_isDigit (Numerals.lowFirst_lt (by decide) inside)

/-- One byte more. -/
theorem setElement_pushes (held : SlotList.Holds buffer chars) (room : chars.length < size) (char : UInt8) :
    ∃ after, setElement buffer (chars.length : Int) char = .ok after ∧ SlotList.Holds after (chars ++ [char]) :=
  ⟨_, setElement_eq buffer room char, held.push room char⟩

theorem putDigits_holds {turns n : Nat} (held : SlotList.Holds buffer chars) (room : chars.length + (lowChars n).length ≤ size)
    (enough : (lowChars n).length ≤ turns) :
    ∃ after, putDigits turns buffer chars.length n = .ok (after, ((chars ++ lowChars n).length : Int)) ∧
      SlotList.Holds after (chars ++ lowChars n) := by
  induction turns generalizing buffer chars n with
  | zero =>
    rw [lowChars_step] at enough
    cases enough
  | succ turns ih =>
    have digits := lowChars_step n
    rw [digits] at room enough ⊢
    simp only [List.length_cons] at room enough
    obtain ⟨after, sets, held'⟩ := setElement_pushes held (by omega) (digitChar (n % 10 : Nat))
    have low : (n : Int).tmod 10 = (n % 10 : Nat) := rfl
    have high : (n : Int).tdiv 10 = (n / 10 : Nat) := rfl
    have next : (chars.length : Int) + 1 = ((chars ++ [digitChar (n % 10 : Nat)]).length : Nat) := by simp
    rw [putDigits, low, sets]
    simp only [bind, Except.bind, high, next]
    by_cases last : n / 10 = 0
    · rw [if_pos last] at room enough ⊢
      rw [if_neg (by omega)]
      exact ⟨after, rfl, held'⟩
    · rw [if_neg last] at room enough ⊢
      rw [if_pos (by omega)]
      have more : (chars ++ [digitChar (n % 10 : Nat)]).length + (lowChars (n / 10)).length ≤ size := by
        simp only [List.length_append, List.length_singleton]
        omega
      obtain ⟨final, puts, held''⟩ := ih held' more (by omega)
      rw [List.append_assoc, List.singleton_append] at puts held''
      exact ⟨final, puts, held''⟩

/-- The other loop stops at zero at once. -/
theorem tempDigits_holds {turns n : Nat} {temp : TempBuffer} {chars : List UInt8} (held : SlotList.Holds temp chars)
    (positive : 0 < n) (room : chars.length + (lowChars n).length ≤ 12) (enough : (lowChars n).length < turns) :
    ∃ after, tempDigits turns temp chars.length n = .ok (after, ((chars ++ lowChars n).length : Int)) ∧
      SlotList.Holds after (chars ++ lowChars n) := by
  induction turns generalizing temp chars n with
  | zero => cases enough
  | succ turns ih =>
    have digits := lowChars_step n
    rw [digits] at room enough ⊢
    simp only [List.length_cons] at room enough
    obtain ⟨after, sets, held'⟩ := setElement_pushes held (by omega) (digitChar (n % 10 : Nat))
    have low : (n : Int).tmod 10 = (n % 10 : Nat) := rfl
    have high : (n : Int).tdiv 10 = (n / 10 : Nat) := rfl
    have next : (chars.length : Int) + 1 = ((chars ++ [digitChar (n % 10 : Nat)]).length : Nat) := by simp
    rw [tempDigits, if_pos (by omega), low, sets]
    simp only [bind, Except.bind, high, next]
    by_cases last : n / 10 = 0
    · rw [if_pos last] at room enough ⊢
      obtain ⟨turns, rfl⟩ := Nat.exists_eq_succ_of_ne_zero (by omega : turns ≠ 0)
      rw [last, tempDigits, if_neg (by decide)]
      exact ⟨after, rfl, held'⟩
    · rw [if_neg last] at room enough ⊢
      have more : (chars ++ [digitChar (n % 10 : Nat)]).length + (lowChars (n / 10)).length ≤ 12 := by
        simp only [List.length_append, List.length_singleton]
        omega
      obtain ⟨final, puts, held''⟩ := ih held' (Nat.pos_of_ne_zero last) more (by omega)
      rw [List.append_assoc, List.singleton_append] at puts held''
      exact ⟨final, puts, held''⟩

theorem copyBack_holds {temp : TempBuffer} {digits : List UInt8} (held : SlotList.Holds temp digits) {count : Nat}
    (within : count ≤ digits.length) (kept : SlotList.Holds buffer chars) (room : chars.length + count ≤ size) :
    ∃ after, copyBack temp count buffer chars.length =
        .ok (after, ((chars ++ (digits.take count).reverse).length : Int)) ∧
      SlotList.Holds after (chars ++ (digits.take count).reverse) := by
  induction count generalizing buffer chars with
  | zero => exact ⟨buffer, by simp [copyBack], by simpa using kept⟩
  | succ count ih =>
    have fits := held.fits
    have inside : count < digits.length := within
    obtain ⟨after, sets, kept'⟩ := setElement_pushes kept (by omega) digits[count]
    have next : (chars.length : Int) + 1 = ((chars ++ [digits[count]]).length : Nat) := by simp
    obtain ⟨final, copies, held'⟩ := ih (by omega) kept' (by simp only [List.length_append, List.length_singleton]; omega)
    have split : (digits.take (count + 1)).reverse = digits[count] :: (digits.take count).reverse := by
      rw [List.take_succ_eq_append_getElem inside, List.reverse_append, List.reverse_singleton, List.singleton_append]
    rw [split, copyBack, elementAt_eq temp (by omega), held.slot count inside]
    simp only [bind, Except.bind, sets, next]
    rw [List.append_assoc, List.singleton_append] at copies held'
    exact ⟨final, copies, held'⟩

end Digits

/-- The text of a number: a minus sign exactly for a negative one, and its digits without
zeros in front. -/
structure CanonicalText (text : List UInt8) (v : Int) : Prop where
  digits : ∃ digits, text = (if v < 0 then [minus] else []) ++ digits ∧ digits ≠ [] ∧ (∀ char ∈ digits, IsDigit char) ∧
    (digits.head? = some 0x30 → digits = [0x30]) ∧ decimal digits = v.natAbs

/-- The text as the printers make it. -/
def signedText (v : Int) : List UInt8 := (if v < 0 then [minus] else []) ++ (lowChars v.natAbs).reverse

section Texts

theorem lowChars_ne_nil (n : Nat) : lowChars n ≠ [] := by
  rw [lowChars_step]
  exact List.cons_ne_nil _ _

theorem decimal_lowChars (n : Nat) : decimal (lowChars n).reverse = n := by
  have general (digits : List Nat) (small : ∀ digit ∈ digits, digit < 10) :
      decimal (digits.map fun digit : Nat => digitChar digit).reverse = Nat.ofDigits 10 digits := by
    induction digits with
    | nil => rfl
    | cons digit digits ih =>
      obtain ⟨first, others⟩ := List.forall_mem_cons.mp small
      have rest := ih others
      unfold decimal readFrom at rest ⊢
      rw [List.map_cons, List.reverse_cons, List.foldl_append, rest, List.foldl_cons, List.foldl_nil,
        digitChar_toNat first, Nat.ofDigits_cons]
      omega
  have value := general (Numerals.lowFirst 10 n) fun _ member => Numerals.lowFirst_lt (by decide) member
  rw [Numerals.ofDigits_lowFirst] at value
  exact value

theorem lowChars_leading {n : Nat} (zero : (lowChars n).getLast? = some 0x30) : lowChars n = [0x30] := by
  rw [lowChars, List.getLast?_map] at zero
  obtain ⟨digit, last, char⟩ := Option.map_eq_some_iff.mp zero
  have small : digit < 10 := Numerals.lowFirst_lt (by decide) (List.mem_of_getLast? last)
  have same : digit = 0 := by
    have value := digitChar_toNat small
    rw [char] at value
    exact value.symm
  subst same
  rw [lowChars, Numerals.lowFirst_leading last]
  rfl

theorem signedText_canonical (v : Int) : CanonicalText (signedText v) v := by
  refine ⟨(lowChars v.natAbs).reverse, rfl, ?_, ?_, ?_, decimal_lowChars _⟩
  · exact fun empty => lowChars_ne_nil _ (List.reverse_eq_nil_iff.mp empty)
  · exact fun char member => lowChars_digits (List.mem_reverse.mp member)
  · intro zero
    rw [List.head?_reverse] at zero
    rw [lowChars_leading zero, List.reverse_singleton]

theorem signedText_clean (v : Int) : 0 ∉ signedText v := by
  intro zero
  rcases List.mem_append.mp zero with sign | digit
  · split at sign
    · exact absurd (List.mem_singleton.mp sign) (by decide)
    · cases sign
  · exact absurd (lowChars_digits (List.mem_reverse.mp digit)) (by decide)

theorem digitsToInt_eq {part : Nat} {digits : List UInt8} (all : ∀ char ∈ digits, IsDigit char)
    (small : readFrom part digits < 2 ^ 31) : digitsToInt part digits = .ok (readFrom part digits : Int) := by
  induction digits generalizing part with
  | nil => rfl
  | cons char digits ih =>
    obtain ⟨first, others⟩ := List.forall_mem_cons.mp all
    have grown := readFrom_ge (part * 10 + (char.toNat - 0x30)) digits
    have step : readFrom part (char :: digits) = readFrom (part * 10 + (char.toNat - 0x30)) digits := rfl
    have low : 0x30 ≤ char.toNat := UInt8.le_iff_toNat_le.mp first.1
    rw [step] at small ⊢
    have next : (part : Int) * 10 + (char.toNat - 0x30) = (part * 10 + (char.toNat - 0x30) : Nat) := by omega
    rw [digitsToInt, if_pos (show 0x30 ≤ char ∧ char ≤ 0x39 from first), intValue_returns (by omega) (by omega)]
    simp only [bind, Except.bind]
    rw [next, intValue_returns (by omega) (by omega)]
    exact ih others small

/-- The parser reads the text back. -/
theorem strToInt_signedText {v : Int} (least : -2 ^ 31 < v) (most : v < 2 ^ 31) : strToInt (signedText v) = .ok v := by
  have value := decimal_lowChars v.natAbs
  have all : ∀ char ∈ (lowChars v.natAbs).reverse, IsDigit char :=
    fun char member => lowChars_digits (List.mem_reverse.mp member)
  have reads : digitsToInt 0 (lowChars v.natAbs).reverse = .ok (v.natAbs : Int) := by
    have read : digitsToInt (0 : Nat) (lowChars v.natAbs).reverse = .ok (decimal (lowChars v.natAbs).reverse : Int) :=
      digitsToInt_eq all (show decimal _ < 2 ^ 31 by omega)
    rwa [value] at read
  unfold strToInt signedText
  by_cases negative : v < 0
  · rw [if_pos negative, List.singleton_append, List.dropWhile_cons_of_neg (by decide), signedToInt, if_pos rfl, reads]
    simp only [bind, Except.bind]
    rw [intValue_returns (by omega) (by omega)]
    congr 1
    omega
  · rw [if_neg negative, List.nil_append]
    obtain ⟨char, rest, split⟩ := List.exists_cons_of_ne_nil
      (fun empty => lowChars_ne_nil v.natAbs (List.reverse_eq_nil_iff.mp empty))
    have digit : IsDigit char := all char (by rw [split]; exact List.mem_cons_self)
    have other (sign : UInt8) (apart : ¬IsDigit sign) : char ≠ sign := fun same => apart (same ▸ digit)
    have start : (char :: rest).dropWhile (fun char => char = 0x20 ∨ char = 0x09) = char :: rest :=
      List.dropWhile_cons_of_neg (by simp [other 0x20 (by decide), other 0x09 (by decide)])
    rw [split] at reads ⊢
    rw [start, signedToInt, if_neg (other minus (by decide)), if_neg (other 0x2B (by decide)),
      reads]
    congr 1
    omega

theorem magnitude_eq {v : Int} (least : -2 ^ 31 < v) (most : v < 2 ^ 31) : magnitude v = .ok (v.natAbs : Int) := by
  unfold magnitude
  split
  · rw [intValue_returns (by omega) (by omega)]
    congr 1
    omega
  · congr 1
    omega

theorem lowChars_short {v : Int} (least : -2 ^ 31 < v) (most : v < 2 ^ 31) : (lowChars v.natAbs).length ≤ 10 :=
  length_lowChars_le (by decide) (by omega)

theorem putSign_holds (held : SlotList.Holds buffer chars) (room : chars.length < size) (v : Int) :
    ∃ after, putSign (decide (v < 0)) buffer chars.length =
        .ok (after, ((chars ++ if v < 0 then [minus] else []).length : Int)) ∧
      SlotList.Holds after (chars ++ if v < 0 then [minus] else []) := by
  unfold putSign
  by_cases negative : v < 0
  · obtain ⟨after, sets, held'⟩ := setElement_pushes held room minus
    rw [if_pos (decide_eq_true negative), if_pos negative, sets]
    exact ⟨after, by simp [bind, Except.bind, pure, Except.pure], held'⟩
  · rw [if_neg (by simpa using negative), if_neg negative, List.append_nil]
    exact ⟨buffer, rfl, held⟩

/-- The digits are put from the lowest on, and turned around. -/
theorem strFromInt_writes (buffer : Fin 12 → UInt8) {v : Int} (least : -2 ^ 31 < v) (most : v < 2 ^ 31) :
    ∃ after, strFromInt buffer v = .ok after ∧ TextIs after 0 (signedText v) := by
  have short := lowChars_short least most
  obtain ⟨digits, puts, held⟩ := putDigits_holds (holds_nil buffer) (by simpa using short.trans (by decide)) short
  rw [List.nil_append] at puts held
  obtain ⟨signed, signs, held'⟩ := putSign_holds held (by omega) v
  have length : (lowChars v.natAbs ++ if v < 0 then [minus] else []).length < 12 := by
    split <;> simp <;> omega
  obtain ⟨ended, ends, held''⟩ := setElement_pushes held' length 0
  have text : (lowChars v.natAbs ++ if v < 0 then [minus] else []).reverse = signedText v := by
    unfold signedText
    split <;> simp
  have clean : 0 ∉ lowChars v.natAbs ++ if v < 0 then [minus] else [] := by
    rw [← List.mem_reverse, text]
    exact signedText_clean v
  obtain ⟨after, reverses, lies⟩ := strReverse_lies (held_text_lies held'' clean)
  refine ⟨after, ?_, text ▸ lies⟩
  unfold strFromInt
  rw [magnitude_eq least most]
  simp only [bind, Except.bind]
  rw [show putDigits intDigits buffer 0 (v.natAbs : Int) = _ from puts]
  simp only [signs, ends, reverses]

/-- The digits are kept in an array of their own, and copied from its end on. -/
theorem intToString_writes (buffer : Fin 12 → UInt8) {v : Int} (least : -2 ^ 31 < v) (most : v < 2 ^ 31) :
    ∃ after, intToString v buffer = .ok after ∧ TextIs after 0 (signedText v) := by
  have short := lowChars_short least most
  unfold intToString
  rw [magnitude_eq least most]
  simp only [bind, Except.bind]
  by_cases zero : v = 0
  · subst zero
    obtain ⟨first, sets, held⟩ := setElement_pushes (holds_nil buffer) (by decide) (digitChar 0)
    obtain ⟨after, ends, held'⟩ := setElement_pushes held (by decide) 0
    rw [if_pos (by decide), show setElement buffer 0 (digitChar 0) = _ from sets]
    exact ⟨after, ends, held_text_lies held' (by decide)⟩
  · obtain ⟨temp, temps, held⟩ := tempDigits_holds (holds_nil fun _ : Fin 12 => (0 : UInt8)) (by omega : 0 < v.natAbs)
      (by simpa using short.trans (by decide)) (Nat.lt_succ_of_le short)
    rw [List.nil_append] at temps held
    obtain ⟨signed, signs, held'⟩ := putSign_holds (holds_nil buffer) (by decide) v
    rw [List.nil_append] at signs held'
    have sign : (if v < 0 then [minus] else []).length ≤ 1 := by split <;> simp
    obtain ⟨copied, copies, held''⟩ := copyBack_holds held (Nat.le_refl _) held' (by omega)
    rw [List.take_length] at copies held''
    have text : (if v < 0 then [minus] else []) ++ (lowChars v.natAbs).reverse = signedText v := rfl
    rw [text] at copies held''
    obtain ⟨after, ends, lies⟩ := setElement_pushes held'' (by rw [← text]; simp; omega) 0
    refine ⟨after, ?_, held_text_lies lies (signedText_clean v)⟩
    rw [if_neg (by omega), show tempDigits (intDigits + 1) _ 0 (v.natAbs : Int) = _ from temps]
    simp only [show putSign _ buffer 0 = _ from signs]
    rw [Int.toNat_natCast, copies]
    exact ends

end Texts

/-- Both printers write the same text into a buffer, and the parser reads it back. -/
structure NumberWritten (buffer : Fin 12 → UInt8) (v : Int) (text : List UInt8) : Prop where
  fromInt : ∃ after, strFromInt buffer v = .ok after ∧ TextIs after 0 text
  toText : ∃ after, intToString v buffer = .ok after ∧ TextIs after 0 text
  toInt : strToInt text = .ok v

/-- Every `int` but the least one has its text. -/
theorem number_written_iff (buffer : Fin 12 → UInt8) {v : Int} (int : -2 ^ 31 ≤ v ∧ v < 2 ^ 31) :
    (∃ text, CanonicalText text v ∧ NumberWritten buffer v text) ↔ v ≠ -2 ^ 31 := by
  constructor
  · rintro ⟨text, -, ⟨after, writes, -⟩, -, -⟩ rfl
    cases writes
  · intro other
    have least : -2 ^ 31 < v := by omega
    exact ⟨signedText v, signedText_canonical v, strFromInt_writes buffer least int.2,
      intToString_writes buffer least int.2, strToInt_signedText least int.2⟩

theorem number_written_iff_least : ∃ text, CanonicalText text (-2147483647) ∧
    NumberWritten (fun _ => 0) (-2147483647) text :=
  (number_written_iff (fun _ => 0) (by decide)).mpr (by decide)

/-- The magnitude of the least `int` is none. -/
theorem number_written_fails : ¬∀ (buffer : Fin 12 → UInt8) (v : Int), -2 ^ 31 ≤ v ∧ v < 2 ^ 31 →
    ∃ text, CanonicalText text v ∧ NumberWritten buffer v text := by
  intro right
  obtain ⟨text, -, ⟨after, writes, -⟩, -, -⟩ := right (fun _ => 0) (-2147483648) (by decide)
  cases writes

end Kernix.Proofs
