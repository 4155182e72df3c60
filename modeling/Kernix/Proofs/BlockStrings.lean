import Kernix.Common.Array
import Kernix.Fs.Ext4Layout
import Kernix.Proofs.Strings

/-! Strings inside a block buffer: what `textAt` finds, and what a copy of it leaves. The
entries of a directory block are strings one after the other, each with the number of its
inode behind it, up to an empty string. -/

namespace Kernix.Proofs
open ByteMemory

/-- A string lies at a position of a buffer, with its terminator. -/
structure TextIs {size : Nat} (buf : Fin size → UInt8) (position : Nat) (found : List UInt8) : Prop where
  fits : position + found.length < size
  bytes : ∀ index (inside : index < found.length), buf ⟨position + index, inside_fits fits inside⟩ = found[index]
  terminated : buf ⟨position + found.length, fits⟩ = 0
  clean : 0 ∉ found

theorem takeWhile_clean {found rest : List UInt8} (clean : 0 ∉ found) :
    (found ++ 0 :: rest).takeWhile (· ≠ 0) = found := by
  rw [List.takeWhile_append_of_pos]
  · simp
  · intro byte member
    simp only [ne_eq, decide_eq_true_eq]
    rintro rfl
    exact clean member

theorem textAt_ok {size : Nat} {buf : Fin size → UInt8} {position : Nat} {found : List UInt8}
    (result : textAt buf position = .ok found) : TextIs buf position found := by
  unfold textAt at result
  dsimp only at result
  split at result
  next zero =>
    obtain ⟨front, back, split, clean⟩ := List.eq_append_cons_of_mem zero
    rw [split, takeWhile_clean clean] at result
    cases result
    have length := congrArg List.length split
    simp only [List.length_drop, List.length_ofFn, List.length_append, List.length_cons] at length
    have place (index : Nat) (inside : position + index < size) (within : index < (found ++ 0 :: back).length) :
        buf ⟨position + index, inside⟩ = (found ++ 0 :: back)[index] := by
      simp only [← split, List.getElem_drop, List.getElem_ofFn]
    refine ⟨by omega, fun index inside => ?_, ?_, clean⟩
    · rw [place index _ (by simp; omega), List.getElem_append_left inside]
    · rw [place found.length _ (by simp), List.getElem_append_right (Nat.le_refl _)]
      simp
  next => cases result

theorem TextIs.drop {size : Nat} {buf : Fin size → UInt8} {position : Nat} {found : List UInt8}
    (lies : TextIs buf position found) :
    (List.ofFn buf).drop position = found ++ 0 :: (List.ofFn buf).drop (position + found.length + 1) := by
  have fits := lies.fits
  apply List.ext_getElem
  · simp only [List.length_drop, List.length_ofFn, List.length_append, List.length_cons]
    omega
  · intro index inside _
    simp only [List.length_drop, List.length_ofFn] at inside
    rw [List.getElem_drop, List.getElem_ofFn]
    rcases Nat.lt_trichotomy index found.length with before | rfl | after
    · rw [List.getElem_append_left before]
      exact lies.bytes index before
    · rw [List.getElem_append_right (Nat.le_refl _)]
      simpa using lies.terminated
    · obtain ⟨more, rfl⟩ := Nat.exists_eq_add_of_lt after
      rw [List.getElem_append_right (by omega)]
      simp only [Nat.add_assoc, Nat.add_sub_cancel_left, List.getElem_cons_succ, List.getElem_drop, List.getElem_ofFn]
      congr 2
      omega

theorem TextIs.ok {size : Nat} {buf : Fin size → UInt8} {position : Nat} {found : List UInt8}
    (lies : TextIs buf position found) : textAt buf position = .ok found := by
  unfold textAt
  dsimp only
  rw [lies.drop, if_pos (by simp), takeWhile_clean lies.clean]

/-- A buffer with a zero from a position on holds a string there. -/
theorem textAt_returns {size : Nat} {buf : Fin size → UInt8} {position : Nat} (stop : Fin size)
    (behind : position ≤ stop.val) (zero : buf stop = 0) : ∃ found, textAt buf position = .ok found := by
  have member : 0 ∈ (List.ofFn buf).drop position := by
    rw [List.mem_iff_getElem]
    refine ⟨stop.val - position, by simp; omega, ?_⟩
    rw [List.getElem_drop, List.getElem_ofFn, ← zero]
    congr 1
    apply Fin.ext
    dsimp only
    omega
  unfold textAt
  exact ⟨_, if_pos member⟩

/-- The copy of a string lies where it was put. -/
theorem Copied.lies {size : Nat} {before after : Fin size → UInt8} {position : Nat} {source : List UInt8}
    (copied : Copied before after position source) (clean : 0 ∉ source) : TextIs after position source :=
  ⟨copied.fits, copied.bytes, copied.terminated, clean⟩

/-- What is copied out of a buffer is the string there. -/
theorem strCopyAt_ok {size length : Nat} {before after : Fin size → UInt8} {buf : Fin length → UInt8} {position : Nat}
    (result : strCopyAt before buf position = .ok after) :
    ∃ found, TextIs buf position found ∧ Copied before after 0 found := by
  unfold strCopyAt at result
  obtain ⟨found, finds, copies⟩ := bind_ok result
  have lies := textAt_ok finds
  exact ⟨found, lies, strCopyFrom_copied lies.clean copies⟩

/-- A string that the array has room for is copied out of a buffer. -/
theorem TextIs.copies {size length : Nat} {buf : Fin length → UInt8} {position : Nat} {found : List UInt8}
    (lies : TextIs buf position found) (before : Fin size → UInt8) (fits : found.length < size) :
    ∃ after, strCopyAt before buf position = .ok after ∧ Copied before after 0 found := by
  have room : 0 + found.length < size := by omega
  obtain ⟨after, copies⟩ := strCopyFrom_returns before room
  refine ⟨after, ?_, strCopyFrom_copied lies.clean copies⟩
  unfold strCopyAt
  rw [lies.ok]
  exact copies

/-- There is one string at a position. -/
theorem TextIs.unique {size : Nat} {buf : Fin size → UInt8} {position : Nat} {first second : List UInt8}
    (left : TextIs buf position first) (right : TextIs buf position second) : first = second :=
  Except.ok.inj (left.ok.symm.trans right.ok)

/-- The text of an array is the string in it. -/
theorem TextIs.text_found {size : Nat} {array : Fin size → UInt8} {found : List UInt8} (lies : TextIs array 0 found) :
    text array = found := by
  have fits := lies.fits
  have bytes := lies.bytes
  have terminated := lies.terminated
  simp only [Nat.zero_add] at fits bytes terminated
  exact text_eq fits bytes terminated lies.clean

/-- A zero in a string ends it there. -/
theorem TextIs.truncate {size : Nat} {buf : Fin size → UInt8} {front back : List UInt8}
    (lies : TextIs buf 0 (front ++ back)) (inside : front.length < size) :
    TextIs (Function.update buf ⟨front.length, inside⟩ 0) 0 front := by
  have fits := lies.fits
  have clean := lies.clean
  simp only [List.length_append, List.mem_append, not_or] at fits clean
  refine ⟨by omega, ?_, ?_, clean.1⟩
  · intro index within
    have byte := lies.bytes index (by simp only [List.length_append]; omega)
    rw [Function.update_of_ne (by simp only [ne_eq, Fin.ext_iff]; omega), byte, List.getElem_append_left within]
  · simp

/-- A string goes behind the one that an array holds. -/
theorem strAppend_joins {size : Nat} {before : Fin size → UInt8} {found source : List UInt8}
    (lies : TextIs before 0 found)
    (clean : 0 ∉ source) (fits : found.length + source.length < size) :
    ∃ after, strAppend before source = .ok after ∧ TextIs after 0 (found ++ source) := by
  obtain ⟨after, copies⟩ := strCopyFrom_returns before fits
  have copied := strCopyFrom_copied clean copies
  have bytes := lies.bytes
  have behind := copied.bytes
  have terminated := copied.terminated
  simp only [Nat.zero_add] at bytes
  refine ⟨after, ?_, ?_, ?_, ?_, ?_⟩
  · unfold strAppend
    rw [lies.ok]
    exact copies
  · simpa using fits
  · intro index inside
    rw [List.length_append] at inside
    simp only [Nat.zero_add]
    rcases Nat.lt_or_ge index found.length with early | late
    · rw [List.getElem_append_left early, copied.front _ early, bytes index early]
    · obtain ⟨offset, rfl⟩ := Nat.exists_eq_add_of_le late
      rw [List.getElem_append_right late, behind offset (by omega)]
      simp only [Nat.add_sub_cancel_left]
  · simp only [List.length_append, Nat.zero_add, terminated]
  · simp only [List.mem_append, not_or]
    exact ⟨lies.clean, clean⟩

/-- A string is copied from one row over another. -/
theorem strCopyRow_copies {rows size : Nat} {array : Fin rows → Fin size → UInt8} {target source position : Nat}
    {found : List UInt8} (inside : target < rows) (held : source < rows)
    (lies : TextIs (array ⟨source, held⟩) position found) :
    ∃ row, strCopyRow array target source position = .ok (Function.update array ⟨target, inside⟩ row) ∧
      TextIs row 0 found := by
  have fits := lies.fits
  obtain ⟨row, copies, copied⟩ := lies.copies (array ⟨target, inside⟩) (by omega)
  refine ⟨row, ?_, copied.lies lies.clean⟩
  unfold strCopyRow
  rw [if_neg (by omega), elementAt_eq _ held, elementAt_eq _ inside]
  simp only [bind, Except.bind, Int.toNat_natCast, copies]
  exact setElement_eq _ inside _

section Entries

/-- Two buffers with the same bytes in front of a position. -/
def SameFront {size : Nat} (before after : Fin size → UInt8) (stop : Nat) : Prop :=
  ∀ index : Fin size, index.val < stop → after index = before index

theorem TextIs.front {size position stop : Nat} {before after : Fin size → UInt8} {found : List UInt8}
    (lies : TextIs before position found) (same : SameFront before after stop) (inside : position + found.length < stop) :
    TextIs after position found := by
  refine ⟨lies.fits, fun index within => ?_, ?_, lies.clean⟩
  · rw [same _ (by dsimp only; omega)]
    exact lies.bytes index within
  · rw [same ⟨_, lies.fits⟩ inside]
    exact lies.terminated

/-- The walk to the end does not go back, and it ends at an empty string. -/
theorem entriesEnd_stop {size fuel entry stop : Nat} {buf : Fin size → UInt8}
    (ends : entriesEnd buf fuel entry = .ok stop) :
    entry ≤ stop ∧ TextIs buf stop [] := by
  induction fuel generalizing entry with
  | zero => cases ends
  | succ fuel ih =>
    unfold entriesEnd at ends
    obtain ⟨found, finds, ends⟩ := bind_ok ends
    split at ends
    next empty =>
      cases ends
      exact ⟨Nat.le_refl _, textAt_ok (empty ▸ finds)⟩
    next =>
      obtain ⟨later, lies⟩ := ih ends
      exact ⟨by omega, lies⟩

/-- What appending an entry leaves in the block. -/
structure Appended {size : Nat} (before after : Fin size → UInt8) (entry : Nat) (name : List UInt8) (inodeNum : Nat) :
    Prop where
  fits : entry + name.length + 5 ≤ size
  front : SameFront before after entry
  lies : TextIs after entry name
  number : numberAt after (entry + name.length + 1) = .ok (inodeNum % 2 ^ 32)
  behind : ∀ index : Fin size, entry + name.length + 5 ≤ index.val → after index = before index

theorem appendEntry_ok {size entry inodeNum : Nat} {before after : Fin size → UInt8} {name : List UInt8}
    (clean : 0 ∉ name)
    (result : appendEntry before entry name inodeNum = .ok after) : Appended before after entry name inodeNum := by
  unfold appendEntry at result
  obtain ⟨copy, copies, result⟩ := bind_ok result
  have copied := strCopyFrom_copied clean copies
  split at result
  next => cases result
  next large =>
    cases result
    have room := not_lt.mp large
    have apart (index : Fin size) (outside : index.val < entry + name.length + 1 ∨ entry + name.length + 5 ≤ index.val) :
        (cut (store (flat copy) (entry + name.length + 1) 4 inodeNum) : Fin size → UInt8) index = copy index := by
      unfold cut
      rw [store_confined (flat copy) (entry + name.length + 1) 4 inodeNum index.val (by omega), flat, dif_pos index.isLt]
    refine ⟨room, fun index early => ?_, ?_, ?_, fun index late => ?_⟩
    · rw [apart index (Or.inl (by omega)), copied.front index early]
    · have same : SameFront copy (cut (store (flat copy) (entry + name.length + 1) 4 inodeNum))
        (entry + name.length + 1) :=
        fun index early => apart index (Or.inl early)
      exact (copied.lies clean).front same (by omega)
    · unfold numberAt
      rw [if_pos (by omega)]
      congr 1
      rw [← show 256 ^ 4 = 2 ^ 32 by decide, ← load_store (flat copy) (entry + name.length + 1) 4 inodeNum]
      apply load_agree
      intro position low high
      rw [flat, dif_pos (by omega)]
      rfl
    · rw [apart index (Or.inr late), copied.back index (by omega)]

/-- An entry that was appended is found, or an older one with its name. -/
theorem findEntry_appended {size fuel entry stop inodeNum : Nat} {before after : Fin size → UInt8} {name : List UInt8}
    (named : name ≠ []) (ends : entriesEnd before fuel entry = .ok stop)
    (appended : Appended before after stop name inodeNum) :
    ∃ found, findEntry after name fuel entry = .ok (some found) := by
  have room := appended.fits
  induction fuel generalizing entry with
  | zero => cases ends
  | succ fuel ih =>
    unfold entriesEnd at ends
    obtain ⟨found, finds, ends⟩ := bind_ok ends
    have lies := textAt_ok finds
    unfold findEntry
    split at ends
    next empty =>
      cases ends
      rw [appended.lies.ok]
      dsimp only [bind, Except.bind]
      rw [if_neg named, if_pos ((strEquals_iff name name).mpr rfl), appended.number]
      exact ⟨_, rfl⟩
    next more =>
      have later := (entriesEnd_stop ends).1
      rw [(lies.front appended.front (by omega)).ok]
      dsimp only [bind, Except.bind]
      rw [if_neg more]
      split
      next =>
        unfold numberAt
        rw [if_pos (by omega)]
        exact ⟨_, rfl⟩
      next => exact ih ends

/-- No entry has the empty name. -/
theorem findEntry_unnamed {size fuel entry : Nat} {buf : Fin size → UInt8} (inodeNum : Nat) :
    findEntry buf [] fuel entry ≠ .ok (some inodeNum) := by
  intro result
  induction fuel generalizing entry with
  | zero => cases result
  | succ fuel ih =>
    unfold findEntry at result
    obtain ⟨found, _, result⟩ := bind_ok result
    split at result
    next => cases result
    next named =>
      split at result
      next same => exact named ((strEquals_iff found []).mp same)
      next => exact ih result

end Entries

end Kernix.Proofs
