import Kernix.Proofs.ConsoleLine
import Kernix.Shell.Kedit
import Mathlib.Data.List.Induction

/-! The rows of the editor as a list of texts: what a copy of a row leaves, and what
the loops leave that move the rows below the cursor up or down. -/

namespace Kernix.Proofs

variable {lines after : Fin maxLines → EditLine} {position : Nat} {texts : List (List UInt8)}

/-- The rows from a position on hold the texts. -/
def RowsAre (lines : Fin maxLines → EditLine) : Nat → List (List UInt8) → Prop
  | _, [] => True
  | position, text :: texts =>
    (∃ inside : position < maxLines, TextIs (lines ⟨position, inside⟩) 0 text) ∧ RowsAre lines (position + 1) texts

theorem rows_append {front back : List (List UInt8)} :
    RowsAre lines position (front ++ back) ↔
      RowsAre lines position front ∧ RowsAre lines (position + front.length) back := by
  induction front generalizing position with
  | nil => simp [RowsAre]
  | cons text front ih =>
    simp only [List.cons_append, RowsAre, ih, and_assoc, List.length_cons]
    rw [Nat.add_assoc position 1, Nat.add_comm 1]

/-- The texts depend on their own rows alone. -/
theorem RowsAre.congr (rows : RowsAre lines position texts)
    (same : ∀ index : Fin maxLines, position ≤ index.val → index.val < position + texts.length →
      after index = lines index) :
    RowsAre after position texts := by
  induction texts generalizing position with
  | nil => trivial
  | cons text texts ih =>
    obtain ⟨⟨inside, lies⟩, rest⟩ := rows
    simp only [List.length_cons] at same
    refine ⟨⟨inside, ?_⟩, ih rest fun index from_ upto => same index (by omega) (by omega)⟩
    rw [same ⟨position, inside⟩ (Nat.le_refl _) (by dsimp only; omega)]
    exact lies

/-- Each text lies in its row. -/
theorem RowsAre.row (rows : RowsAre lines position texts) {index : Nat} (inside : index < texts.length) :
    ∃ fits : position + index < maxLines, TextIs (lines ⟨position + index, fits⟩) 0 texts[index] := by
  have whole : texts = texts.take index ++ texts[index] :: texts.drop (index + 1) := by simp
  rw [whole, rows_append] at rows
  obtain ⟨-, ⟨fits, lies⟩, -⟩ := rows
  have length : (texts.take index).length = index := List.length_take_of_le (Nat.le_of_lt inside)
  simp only [length] at fits lies
  exact ⟨fits, lies⟩

/-- Rows that hold their texts one by one hold them all. -/
theorem rows_of (each : ∀ index (inside : index < texts.length),
    ∃ fits : position + index < maxLines, TextIs (lines ⟨position + index, fits⟩) 0 texts[index]) :
    RowsAre lines position texts := by
  induction texts generalizing position with
  | nil => trivial
  | cons text texts ih =>
    refine ⟨each 0 (by simp), ih fun index inside => ?_⟩
    have here : position + 1 + index = position + (index + 1) := by omega
    simp only [here]
    exact each (index + 1) (by simpa using inside)

/-- A row outside the texts may change. -/
theorem RowsAre.update (rows : RowsAre lines position texts) {index : Fin maxLines} (row : EditLine)
    (outside : index.val < position ∨ position + texts.length ≤ index.val) :
    RowsAre (Function.update lines index row) position texts := by
  apply rows.congr
  intro other low high
  apply Function.update_of_ne
  rintro rfl
  omega

/-- A string is copied over a row. -/
theorem copyRow_copies {source : EditLine} {found : List UInt8} (lies : TextIs source 0 found) {index : Nat}
    (inside : index < maxLines) (lines : Fin maxLines → EditLine) :
    ∃ row, copyRow lines index source = .ok (Function.update lines ⟨index, inside⟩ row) ∧ TextIs row 0 found := by
  have fits := lies.fits
  obtain ⟨row, copies, copied⟩ := lies.copies (lines ⟨index, inside⟩) (by omega)
  refine ⟨row, ?_, copied.lies lies.clean⟩
  unfold copyRow
  rw [elementAt_eq _ inside]
  simp only [bind, Except.bind, copies]
  exact setElement_eq _ inside _

/-- The rows behind a text take its place. -/
theorem closeRows_removes {gone : List UInt8} {back : List (List UInt8)} (rows : RowsAre lines position (gone :: back)) :
    ∃ after, closeRows back.length position lines = .ok after ∧ RowsAre after position back ∧
      ∀ index : Fin maxLines, index.val < position → after index = lines index := by
  induction back generalizing lines position gone with
  | nil => exact ⟨lines, rfl, trivial, fun _ _ => rfl⟩
  | cons next back ih =>
    obtain ⟨⟨inside, -⟩, rest⟩ := rows
    obtain ⟨inside', lies⟩ := rest.1
    obtain ⟨row, copies, copied⟩ := copyRow_copies lies inside lines
    have moved : RowsAre (Function.update lines ⟨position, inside⟩ row) (position + 1) (next :: back) :=
      rest.update row (.inl (Nat.lt_succ_self position))
    obtain ⟨after, closes, behind, front⟩ := ih moved
    refine ⟨after, ?_, ⟨⟨inside, ?_⟩, behind⟩, ?_⟩
    · have step : ((position : Int) + 1) = ((position + 1 : Nat) : Int) := by omega
      rw [List.length_cons, closeRows, step, elementAt_eq _ inside']
      simp only [bind, Except.bind, copies]
      exact closes
    · rw [front ⟨position, inside⟩ (Nat.lt_succ_self position), Function.update_self]
      exact copied
    · intro index early
      rw [front index (by omega)]
      apply Function.update_of_ne
      rw [ne_eq, Fin.ext_iff]
      dsimp only
      omega

/-- The texts move one row down. -/
theorem openRows_moves (rows : RowsAre lines position texts) (room : position + texts.length < maxLines) :
    ∃ after, openRows texts.length ((position + texts.length : Nat) : Int) lines = .ok after ∧
      RowsAre after (position + 1) texts ∧
      ∀ index : Fin maxLines, index.val ≤ position ∨ position + texts.length < index.val → after index = lines index := by
  induction texts using List.reverseRecOn generalizing lines with
  | nil => exact ⟨lines, rfl, trivial, fun _ _ => rfl⟩
  | append_singleton texts last ih =>
    obtain ⟨front, ⟨inside, lies⟩, -⟩ := rows_append.mp rows
    rw [List.length_append, List.length_singleton] at room ⊢
    obtain ⟨row, copies, copied⟩ := copyRow_copies lies room lines
    have kept : RowsAre (Function.update lines ⟨position + (texts.length + 1), room⟩ row) position texts :=
      front.update row (.inr (by dsimp only; omega))
    obtain ⟨after, opens, moved, same⟩ := ih kept (by omega)
    refine ⟨after, ?_, rows_append.mpr ⟨moved, ⟨by omega, ?_⟩, trivial⟩, ?_⟩
    · have step : (((position + (texts.length + 1) : Nat) : Int) - 1) = ((position + texts.length : Nat) : Int) := by
        omega
      rw [openRows, step, elementAt_eq _ inside]
      simp only [bind, Except.bind, copies]
      exact opens
    · have here : position + 1 + texts.length = position + (texts.length + 1) := by omega
      simp only [here]
      rw [same _ (.inr (by dsimp only; omega)), Function.update_self]
      exact copied
    · intro index outside
      rw [same index (by omega)]
      apply Function.update_of_ne
      rw [ne_eq, Fin.ext_iff]
      dsimp only
      omega

/-- The loop of the backspace takes one character out of a line. -/
theorem closeGap_removes {row : EditLine} {front back : List UInt8} {item : UInt8}
    (lies : TextIs row 0 (front ++ item :: back)) :
    ∃ after, closeGap (back.length + 1) front.length row = .ok after ∧ TextIs after 0 (front ++ back) := by
  induction back generalizing row front item with
  | nil =>
    have fits := lies.fits
    have terminated := lies.terminated
    simp only [List.length_append, List.length_singleton, Nat.zero_add] at fits terminated
    have step : ((front.length : Int) + 1) = ((front.length + 1 : Nat) : Int) := by omega
    have cut := TextIs.truncate lies (by omega)
    refine ⟨_, ?_, by simpa using cut⟩
    rw [List.length_nil, closeGap, step, elementAt_eq _ fits, terminated]
    simp only [bind, Except.bind]
    rw [setElement_eq _ (by omega)]
    rfl
  | cons byte back ih =>
    obtain ⟨inside, second, moved⟩ := lies.pulled
    obtain ⟨after, closes, left⟩ := ih moved
    refine ⟨after, ?_, by simpa using left⟩
    have step : ((front.length : Int) + 1) = ((front.length + 1 : Nat) : Int) := by omega
    rw [List.length_cons, closeGap, step, elementAt_eq _ inside, second]
    simp only [bind, Except.bind]
    rw [setElement_eq _ (by omega), ← closes]
    simp

/-- The end of a string lies where the rest of it stops. -/
theorem TextIs.suffix {size : Nat} {buf : Fin size → UInt8} {front back : List UInt8}
    (lies : TextIs buf 0 (front ++ back)) :
    TextIs buf front.length back := by
  have fits := lies.fits
  have bytes := lies.bytes
  have terminated := lies.terminated
  have clean := lies.clean
  simp only [List.length_append, Nat.zero_add, List.mem_append, not_or] at fits bytes terminated clean
  refine ⟨fits, ?_, terminated, clean.2⟩
  intro index inside
  rw [bytes (front.length + index) (by omega), List.getElem_append_right (Nat.le_add_right _ _)]
  simp only [Nat.add_sub_cancel_left]

/-- A line is split into two rows. -/
theorem splitRow_splits {front back : List UInt8} {y : Nat} {inside : y < maxLines} (room : y + 1 < maxLines)
    (lies : TextIs (lines ⟨y, inside⟩) 0 (front ++ back)) :
    ∃ cut rest, splitRow lines front.length y =
        .ok (Function.update (Function.update lines ⟨y, inside⟩ cut) ⟨y + 1, room⟩ rest) ∧
      TextIs cut 0 front ∧ TextIs rest 0 back := by
  have fits := lies.fits
  simp only [List.length_append] at fits
  have behind := lies.suffix
  obtain ⟨rest, copies, copied⟩ := behind.copies (fun _ => 0 : EditLine) (by omega)
  obtain ⟨row, lands, landed⟩ := copyRow_copies (copied.lies behind.clean) room
    (Function.update lines ⟨y, inside⟩ (Function.update (lines ⟨y, inside⟩) ⟨front.length, by omega⟩ 0))
  refine ⟨_, row, ?_, lies.truncate (by omega), landed⟩
  have step : ((y : Int) + 1) = ((y + 1 : Nat) : Int) := by omega
  unfold splitRow
  rw [elementAt_eq _ inside]
  simp only [bind, Except.bind, Int.toNat_natCast]
  rw [copies]
  simp only
  rw [setElement_eq _ (by omega)]
  simp only
  rw [setElement_eq _ inside, step]
  exact lands

end Kernix.Proofs
