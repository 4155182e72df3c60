import Kernix.Lib.Segments
import Kernix.Shell.Console
import Mathlib.Data.List.DropRight

/-! A chained line is cut into rows at its separators. A separator at the very end of the
line makes the code end a second row at the position where the first one ended. -/

namespace Kernix.Proofs
open Segments

/-- The separator is two of these. -/
abbrev ampersand : UInt8 := 0x26

/-- A row with a number of bytes in front that have a value. -/
structure RowStarts (row : CommandRow) (found : List UInt8) : Prop where
  fits : found.length < maxInputLen
  bytes : ∀ index (inside : index < found.length), row ⟨index, Nat.lt_trans inside fits⟩ = some found[index]

/-- A row that holds a string. -/
structure RowHolds (row : CommandRow) (found : List UInt8) : Prop extends RowStarts row found where
  terminated : row ⟨found.length, fits⟩ = some 0
  clean : 0 ∉ found

variable {row : CommandRow} {commands : ChainedCommands} {found : List UInt8}

theorem rowStarts_nil (row : CommandRow) : RowStarts row [] := by
  refine ⟨by decide, ?_⟩
  intro index inside
  cases inside

theorem RowStarts.push (starts : RowStarts row found) (byte : UInt8) (room : found.length + 1 < maxInputLen) :
    RowStarts (Function.update row ⟨found.length, starts.fits⟩ (some byte)) (found ++ [byte]) := by
  refine ⟨by rw [List.length_append, List.length_singleton]; exact room, ?_⟩
  intro index inside
  simp only [List.length_append, List.length_singleton] at inside
  by_cases last : index = found.length
  · subst last
    simp
  · have early : index < found.length := by omega
    rw [Function.update_of_ne (by simpa [Fin.ext_iff] using last), starts.bytes index early,
      List.getElem_append_left early]

theorem RowStarts.finish (starts : RowStarts row found) (clean : 0 ∉ found) :
    RowHolds (Function.update row ⟨found.length, starts.fits⟩ (some 0)) found := by
  refine ⟨⟨starts.fits, ?_⟩, Function.update_self _ _ _, clean⟩
  intro index inside
  rw [Function.update_of_ne (by simp only [ne_eq, Fin.mk.injEq]; omega)]
  exact starts.bytes index inside

theorem setCommandChar_eq (commands : ChainedCommands) {cmdCount cmdPos : Nat} (count : cmdCount < maxChainedCmds)
    (position : cmdPos < maxInputLen) (char : UInt8) :
    setCommandChar commands cmdCount cmdPos char = .ok (Function.update commands ⟨cmdCount, count⟩
      (Function.update (commands ⟨cmdCount, count⟩) ⟨cmdPos, position⟩ (some char))) := by
  unfold setCommandChar
  rw [elementAt_eq _ count]
  simp only [bind, Except.bind]
  rw [setElement_eq _ position]
  exact setElement_eq _ count _

/-- There is no ninth row. -/
theorem setCommandChar_outside (commands : ChainedCommands) (cmdPos : Int) (char : UInt8) :
    setCommandChar commands maxChainedCmds cmdPos char = .error .undefined := by
  unfold setCommandChar elementAt
  rw [dif_neg (by omega)]
  rfl

theorem update_twice (commands : ChainedCommands) (place : Fin maxChainedCmds) (first second : CommandRow) :
    Function.update (Function.update commands place first) place second = Function.update commands place second :=
  Function.update_idem _ _ _

/-- The inner loop fills its row with the segment. A separator also ends the string. -/
theorem copySegment_fills {cmdCount : Nat} (count : cmdCount < maxChainedCmds) {p : List UInt8}
    (starts : RowStarts (commands ⟨cmdCount, count⟩) found) (written : 0 ∉ found) (clean : 0 ∉ p)
    (short : found.length + p.length < maxInputLen) :
    ∃ row, RowStarts row (found ++ (cutAt ampersand p).1) ∧
      ((cutAt ampersand p).2 = none →
        copySegment commands cmdCount found.length p =
          .ok (Function.update commands ⟨cmdCount, count⟩ row, cmdCount, (found ++ (cutAt ampersand p).1).length, [])) ∧
      (∀ rest, (cutAt ampersand p).2 = some rest → RowHolds row (found ++ (cutAt ampersand p).1) ∧
        copySegment commands cmdCount found.length p =
          .ok (Function.update commands ⟨cmdCount, count⟩ row, cmdCount + 1, (found ++ (cutAt ampersand p).1).length,
            rest)) := by
  induction p generalizing found commands with
  | nil =>
    refine ⟨commands ⟨cmdCount, count⟩, by simpa [cutAt] using starts, fun _ => ?_, fun rest ends => ?_⟩
    · rw [copySegment, Function.update_eq_self]
      simp [cutAt]
    · cases ends
  | cons byte p ih =>
    simp only [List.length_cons] at short
    by_cases both : byte = ampersand ∧ p.head? = some ampersand
    · have ended : cutAt ampersand (byte :: p) = ([], some p.tail) := if_pos both
      refine ⟨Function.update (commands ⟨cmdCount, count⟩) ⟨found.length, starts.fits⟩ (some 0), ?_,
        fun none => ?_, fun rest ends => ?_⟩
      · rw [ended, List.append_nil]
        exact (starts.finish written).toRowStarts
      · rw [ended] at none
        cases none
      · rw [ended] at ends ⊢
        cases ends
        rw [List.append_nil]
        refine ⟨starts.finish written, ?_⟩
        rw [copySegment, if_pos (by omega), if_pos both, setCommandChar_eq commands count starts.fits]
        rfl
    · have onward : cutAt ampersand (byte :: p) = (byte :: (cutAt ampersand p).1, (cutAt ampersand p).2) := if_neg both
      have pushed := starts.push byte (by omega)
      simp only [List.mem_cons, not_or] at clean
      have next := @ih (Function.update commands ⟨cmdCount, count⟩ _) _
        (by rw [Function.update_self]; exact pushed) (by simp [written, clean.1]) clean.2 (by simp only [List.length_append, List.length_singleton]; omega)
      obtain ⟨row, held, plain, separated⟩ := next
      have copies : copySegment commands cmdCount found.length (byte :: p) =
          copySegment (Function.update commands ⟨cmdCount, count⟩
            (Function.update (commands ⟨cmdCount, count⟩) ⟨found.length, starts.fits⟩ (some byte)))
            cmdCount (found ++ [byte]).length p := by
        rw [copySegment, if_pos (by omega), if_neg both, setCommandChar_eq commands count starts.fits,
          List.length_append, List.length_singleton]
        rfl
      rw [onward]
      simp only [List.append_assoc, List.singleton_append] at held plain separated
      refine ⟨row, held, fun none => ?_, fun rest ends => ?_⟩
      · rw [copies, plain none, update_twice]
      · rw [copies, (separated rest ends).2, update_twice]
        exact ⟨(separated rest ends).1, rfl⟩

/-- The first rows hold strings. -/
structure RowsHold (commands : ChainedCommands) (done : List (List UInt8)) : Prop where
  fits : done.length ≤ maxChainedCmds
  held : ∀ index (inside : index < done.length), RowHolds (commands ⟨index, Nat.lt_of_lt_of_le inside fits⟩) done[index]

/-- The rows from one on have no values yet. -/
def FreshFrom (commands : ChainedCommands) (count : Nat) : Prop :=
  ∀ place : Fin maxChainedCmds, count ≤ place.val → commands place = fun _ => none

variable {done : List (List UInt8)}

theorem RowsHold.push (rows : RowsHold commands done) (count : done.length < maxChainedCmds)
    (holds : RowHolds row found) :
    RowsHold (Function.update commands ⟨done.length, count⟩ row) (done ++ [found]) := by
  refine ⟨by rw [List.length_append, List.length_singleton]; exact count, ?_⟩
  intro index inside
  simp only [List.length_append, List.length_singleton] at inside
  by_cases last : index = done.length
  · subst last
    simpa using holds
  · have early : index < done.length := by omega
    rw [Function.update_of_ne (by simpa [Fin.ext_iff] using last), List.getElem_append_left early]
    exact rows.held index early

theorem FreshFrom.push {count : Nat} (fresh : FreshFrom commands count) (inside : count < maxChainedCmds)
    (row : CommandRow) :
    FreshFrom (Function.update commands ⟨count, inside⟩ row) (count + 1) := by
  intro place behind
  rw [Function.update_of_ne (by simp only [ne_eq, Fin.ext_iff]; omega)]
  exact fresh place (by omega)

/-- The separator that ends the line is followed by a row that the code fills wrongly:
the ninth, or one that it starts at a position behind the first. -/
def Dangles (cmdCount : Nat) (p : List UInt8) : Prop :=
  ∃ front segment, split ampersand p = front ++ [segment, []] ∧ cmdCount + front.length < maxChainedCmds ∧
    (cmdCount + front.length + 1 = maxChainedCmds ∨ segment.dropWhile isSpace ≠ [])

/-- The strings that the rows get from what is left of the line. -/
def rowTexts (cmdCount : Nat) (p : List UInt8) : List (List UInt8) :=
  if p = [] then [] else ((split ampersand p).take (maxChainedCmds - cmdCount)).map (List.dropWhile isSpace)

theorem maxInputLen_pos : 0 < maxInputLen := by decide

/-- What the loop over the segments leaves for a line that is cut without a mistake. -/
def RowsFilled (result : Except Stop (ChainedCommands × Nat)) (texts : List (List UInt8)) : Prop :=
  ∃ after, result = .ok (after, texts.length) ∧ RowsHold after texts

/-- And for one that is not: it leaves the array, or a last row without a first byte. -/
def RowsBroken (result : Except Stop (ChainedCommands × Nat)) : Prop :=
  (∃ stop, result = .error stop) ∨
    ∃ after texts, ∃ place : Fin maxChainedCmds, result = .ok (after, texts.length + 1) ∧ RowsHold after texts ∧
      place.val = texts.length ∧ after place ⟨0, maxInputLen_pos⟩ = none

/-- The inner loop behind the spaces, from the start of a row. -/
theorem segment_copied {cmdCount : Nat} (count : cmdCount < maxChainedCmds) {p : List UInt8} (clean : 0 ∉ p)
    (short : p.length < maxInputLen) :
    ∃ row, RowStarts row ((cutAt ampersand p).1.dropWhile isSpace) ∧
      ((cutAt ampersand p).2 = none →
        copySegment commands cmdCount 0 (p.dropWhile isSpace) =
          .ok (Function.update commands ⟨cmdCount, count⟩ row, cmdCount,
            ((cutAt ampersand p).1.dropWhile isSpace).length, [])) ∧
      (∀ rest, (cutAt ampersand p).2 = some rest → RowHolds row ((cutAt ampersand p).1.dropWhile isSpace) ∧
        copySegment commands cmdCount 0 (p.dropWhile isSpace) =
          .ok (Function.update commands ⟨cmdCount, count⟩ row, cmdCount + 1,
            ((cutAt ampersand p).1.dropWhile isSpace).length, rest)) := by
  have skipped := @cut_dropWhile _ _ ampersand isSpace (by decide) p
  have suffix := (List.dropWhile_suffix isSpace (l := p)).length_le
  have kept : 0 ∉ p.dropWhile isSpace := fun member => clean ((List.dropWhile_suffix _).subset member)
  have fits : ([] : List UInt8).length + (p.dropWhile isSpace).length < maxInputLen := by
    rw [List.length_nil]
    omega
  have copied := copySegment_fills count (rowStarts_nil (commands ⟨cmdCount, count⟩)) List.not_mem_nil kept fits
  simpa only [skipped, List.nil_append, List.length_nil] using copied

/-- One pass over a segment behind which nothing is left. -/
theorem segmentLoop_last (fuel : Nat) (count : done.length < maxChainedCmds) (rows : RowsHold commands done)
    {p : List UInt8} (some : p ≠ []) (clean : 0 ∉ p) (short : p.length < maxInputLen)
    (ends : (cutAt ampersand p).2 = none) :
    RowsFilled (segmentLoop (fuel + 1) commands done.length p) (done ++ [(cutAt ampersand p).1.dropWhile isSpace]) := by
  obtain ⟨row, starts, copies, -⟩ := @segment_copied commands done.length count p clean short
  have fresh : 0 ∉ (cutAt ampersand p).1.dropWhile isSpace := fun member =>
    clean (mem_cut ((List.dropWhile_suffix _).subset member))
  refine ⟨_, ?_, rows.push count (starts.finish fresh)⟩
  rw [segmentLoop, if_pos ⟨some, count⟩, copies ends]
  simp only [bind, Except.bind]
  rw [if_pos (.inl trivial), setCommandChar_eq _ count starts.fits, Function.update_self, update_twice]
  simp [pure, Except.pure]

/-- One pass over a segment that a separator ends, with more behind it. -/
theorem segmentLoop_next (fuel : Nat) (count : done.length < maxChainedCmds) {p rest : List UInt8}
    (clean : 0 ∉ p) (short : p.length < maxInputLen) (ends : (cutAt ampersand p).2 = some rest) (more : rest ≠ []) :
    ∃ row, RowHolds row ((cutAt ampersand p).1.dropWhile isSpace) ∧
      segmentLoop (fuel + 1) commands done.length p =
        segmentLoop fuel (Function.update commands ⟨done.length, count⟩ row) (done.length + 1) rest := by
  have some : p ≠ [] := by
    rintro rfl
    cases ends
  obtain ⟨row, -, -, separated⟩ := @segment_copied commands done.length count p clean short
  obtain ⟨holds, copies⟩ := separated rest ends
  have lengths : (cutAt ampersand p).1.length + 2 + rest.length = p.length := cut_length (Prod.ext rfl ends)
  have shorter := (List.dropWhile_suffix isSpace (l := (cutAt ampersand p).1)).length_le
  refine ⟨row, holds, ?_⟩
  rw [segmentLoop, if_pos ⟨some, count⟩, copies]
  simp only [bind, Except.bind]
  rw [if_neg]
  rintro (none | far)
  · exact more none
  · omega

/-- One pass over a segment that a separator ends at the end of the line. The row behind
it is ended at the position where the segment ended. -/
theorem segmentLoop_end (fuel : Nat) (count : done.length < maxChainedCmds) (rows : RowsHold commands done)
    (fresh : FreshFrom commands done.length) {p : List UInt8} (clean : 0 ∉ p) (short : p.length < maxInputLen)
    (ends : (cutAt ampersand p).2 = some []) :
    (done.length + 1 = maxChainedCmds ∨ (cutAt ampersand p).1.dropWhile isSpace ≠ [] →
      RowsBroken (segmentLoop (fuel + 1) commands done.length p)) ∧
    (¬(done.length + 1 = maxChainedCmds ∨ (cutAt ampersand p).1.dropWhile isSpace ≠ []) →
      RowsFilled (segmentLoop (fuel + 1) commands done.length p)
        (done ++ [(cutAt ampersand p).1.dropWhile isSpace] ++ [[]])) := by
  have filled : p ≠ [] := by
    rintro rfl
    cases ends
  obtain ⟨row, -, -, separated⟩ := @segment_copied commands done.length count p clean short
  obtain ⟨holds, copies⟩ := separated [] ends
  have pass : segmentLoop (fuel + 1) commands done.length p = (do
      let commands ← setCommandChar (Function.update commands ⟨done.length, count⟩ row) (done.length + 1 : Nat)
        ((cutAt ampersand p).1.dropWhile isSpace).length 0
      return (commands, done.length + 1 + 1)) := by
    rw [segmentLoop, if_pos ⟨filled, count⟩, copies]
    simp only [bind, Except.bind]
    rw [if_pos (.inl trivial)]
  have pushed := rows.push count holds
  have fits := holds.fits
  rw [pass]
  by_cases ninth : done.length + 1 = maxChainedCmds
  · refine ⟨fun _ => .inl ⟨.undefined, ?_⟩, fun fine => absurd (.inl ninth) fine⟩
    rw [ninth, setCommandChar_outside]
    rfl
  · have inside : done.length + 1 < maxChainedCmds := by omega
    have unused := (fresh.push count row) ⟨done.length + 1, inside⟩ (Nat.le_refl _)
    rw [setCommandChar_eq _ inside fits, unused]
    by_cases blank : (cutAt ampersand p).1.dropWhile isSpace = []
    · refine ⟨?_, fun _ => ?_⟩
      · rintro (last | text)
        · exact absurd last ninth
        · exact absurd blank text
      · have room : (done ++ [(cutAt ampersand p).1.dropWhile isSpace]).length < maxChainedCmds := by
          rw [List.length_append, List.length_singleton]
          exact inside
        refine ⟨_, ?_, pushed.push room ((rowStarts_nil fun _ => none).finish List.not_mem_nil)⟩
        simp [blank, pure, Except.pure, bind, Except.bind]
    · have behind : (⟨0, maxInputLen_pos⟩ : Fin maxInputLen) ≠
        ⟨((cutAt ampersand p).1.dropWhile isSpace).length, fits⟩ := by
        have length := List.length_pos_iff.mpr blank
        simp only [ne_eq, Fin.mk.injEq]
        omega
      have length : (done ++ [(cutAt ampersand p).1.dropWhile isSpace]).length = done.length + 1 := by simp
      refine ⟨fun _ => ?_, fun fine => absurd (.inr blank) fine⟩
      refine .inr ⟨Function.update (Function.update commands ⟨done.length, count⟩ row) ⟨done.length + 1, inside⟩
          (Function.update (fun _ => none) ⟨_, fits⟩ (some 0)),
        done ++ [(cutAt ampersand p).1.dropWhile isSpace], ⟨done.length + 1, inside⟩, ?_, ?_, length.symm, ?_⟩
      · rw [length]
        rfl
      · refine ⟨by omega, fun index within => ?_⟩
        rw [Function.update_of_ne (by simp only [ne_eq, Fin.mk.injEq]; omega)]
        exact pushed.held index within
      · rw [Function.update_self, Function.update_of_ne behind]

theorem not_dangles {cmdCount : Nat} {p : List UInt8} (ends : (cutAt ampersand p).2 = none) : ¬Dangles cmdCount p := by
  rintro ⟨front, segment, cuts, -⟩
  rw [split_single ends] at cuts
  have lengths := congrArg List.length cuts
  simp at lengths

theorem dangles_end {cmdCount : Nat} (count : cmdCount < maxChainedCmds) {p : List UInt8}
    (ends : (cutAt ampersand p).2 = some []) :
    Dangles cmdCount p ↔ cmdCount + 1 = maxChainedCmds ∨ (cutAt ampersand p).1.dropWhile isSpace ≠ [] := by
  have cuts : split ampersand p = [(cutAt ampersand p).1, []] := split_rest ends
  constructor
  · rintro ⟨front, segment, same, -, wrong⟩
    rw [cuts] at same
    have lengths := congrArg List.length same
    obtain rfl : front = [] := by
      apply List.eq_nil_of_length_eq_zero
      simpa using lengths
    obtain ⟨rfl, -⟩ := List.cons.inj same
    exact wrong
  · intro wrong
    exact ⟨[], _, cuts, count, wrong⟩

theorem dangles_next {cmdCount : Nat} {p rest : List UInt8} (ends : (cutAt ampersand p).2 = some rest)
    (more : rest ≠ []) :
    Dangles cmdCount p ↔ Dangles (cmdCount + 1) rest := by
  have cuts : split ampersand p = (cutAt ampersand p).1 :: split ampersand rest := split_rest ends
  constructor
  · rintro ⟨front, segment, same, inside, wrong⟩
    rw [cuts] at same
    cases front with
    | nil => exact absurd (split_empty_iff.mp (List.cons.inj same).2) more
    | cons first front =>
      rw [List.length_cons] at inside wrong
      exact ⟨front, segment, (List.cons.inj same).2, by omega, wrong.imp_left (by omega)⟩
  · rintro ⟨front, segment, same, inside, wrong⟩
    refine ⟨(cutAt ampersand p).1 :: front, segment, by rw [cuts, same]; rfl, ?_, ?_⟩
    · rw [List.length_cons]
      omega
    · rw [List.length_cons]
      exact wrong.imp_left (by omega)

/-- The loop fills the rows with the segments, unless the line dangles. -/
theorem segmentLoop_cuts (fuel : Nat) (enough : maxChainedCmds < fuel + done.length) (rows : RowsHold commands done)
    (fresh : FreshFrom commands done.length) {p : List UInt8} (clean : 0 ∉ p) (short : p.length < maxInputLen) :
    (Dangles done.length p → RowsBroken (segmentLoop fuel commands done.length p)) ∧
    (¬Dangles done.length p →
      RowsFilled (segmentLoop fuel commands done.length p) (done ++ rowTexts done.length p)) := by
  induction fuel generalizing done commands p with
  | zero => exact absurd rows.fits (by omega)
  | succ fuel ih =>
    by_cases stops : p ≠ [] ∧ done.length < maxChainedCmds
    · obtain ⟨some, count⟩ := stops
      obtain ⟨left, room⟩ : ∃ left, maxChainedCmds - done.length = left + 1 :=
        ⟨maxChainedCmds - done.length - 1, by omega⟩
      cases ends : (cutAt ampersand p).2 with
      | none =>
        have texts : rowTexts done.length p = [(cutAt ampersand p).1.dropWhile isSpace] := by
          rw [rowTexts, if_neg some, split_single ends, room]
          simp
        rw [texts]
        exact ⟨fun dangles => absurd dangles (not_dangles ends),
          fun _ => segmentLoop_last fuel count rows some clean short ends⟩
      | some rest =>
        by_cases last : rest = []
        · subst last
          have passes := segmentLoop_end fuel count rows fresh clean short ends
          refine ⟨fun dangles => passes.1 ((dangles_end count ends).mp dangles), fun fine => ?_⟩
          have right := mt (dangles_end count ends).mpr fine
          have texts : rowTexts done.length p = [(cutAt ampersand p).1.dropWhile isSpace, []] := by
            obtain ⟨more, two⟩ : ∃ more, left = more + 1 := ⟨left - 1, by omega⟩
            rw [rowTexts, if_neg some, split_rest ends, room, two]
            simp [split]
          have filled := passes.2 right
          rw [List.append_assoc] at filled
          rw [texts]
          exact filled
        · obtain ⟨row, holds, next⟩ := @segmentLoop_next commands done fuel count p rest clean short ends last
          have lengths : (cutAt ampersand p).1.length + 2 + rest.length = p.length := cut_length (Prod.ext rfl ends)
          have length : (done ++ [(cutAt ampersand p).1.dropWhile isSpace]).length = done.length + 1 := by simp
          have texts : done ++ rowTexts done.length p =
              done ++ [(cutAt ampersand p).1.dropWhile isSpace] ++ rowTexts (done.length + 1) rest := by
            have fewer : maxChainedCmds - (done.length + 1) = left := by omega
            rw [rowTexts, if_neg some, split_rest ends, room, rowTexts, if_neg last, fewer, List.append_assoc]
            rfl
          have onward := @ih _ (done ++ [(cutAt ampersand p).1.dropWhile isSpace]) (by omega)
            (rows.push count holds) (by rw [length]; exact fresh.push count row) rest
            (fun member => clean (mem_rest ends member)) (by omega)
          rw [length] at onward
          rw [next, texts, dangles_next ends last]
          exact onward
    · have halts : segmentLoop (fuel + 1) commands done.length p = .ok (commands, done.length) := if_neg stops
      have texts : rowTexts done.length p = [] := by
        unfold rowTexts
        split
        next => rfl
        next some =>
          have full : maxChainedCmds - done.length = 0 := by
            have late := not_and.mp stops some
            omega
          rw [full]
          rfl
      refine ⟨?_, fun _ => ?_⟩
      · rintro ⟨front, segment, same, inside, -⟩
        have full : ¬p ≠ [] := fun some => stops ⟨some, by omega⟩
        rw [not_ne_iff.mp full] at same
        have lengths := congrArg List.length same
        simp [split] at lengths
      · rw [texts, List.append_nil]
        exact ⟨commands, halts, rows⟩

theorem RowHolds.char (holds : RowHolds row found) {index : Nat} (inside : index < found.length) :
    commandChar row index = .ok found[index] := by
  have fits := holds.fits
  unfold commandChar
  rw [elementAt_eq _ (by omega)]
  simp only [bind, Except.bind]
  rw [holds.bytes index inside]
  rfl

theorem RowHolds.stop (holds : RowHolds row found) : commandChar row found.length = .ok 0 := by
  unfold commandChar
  rw [elementAt_eq _ holds.fits]
  simp only [bind, Except.bind]
  rw [holds.terminated]
  rfl

theorem RowHolds.length (holds : RowHolds row found) {fuel len : Nat} (le : len ≤ found.length)
    (enough : found.length < fuel + len) : rowLength row fuel len = .ok found.length := by
  induction fuel generalizing len with
  | zero => omega
  | succ fuel ih =>
    rw [rowLength]
    rcases Nat.lt_or_eq_of_le le with inside | rfl
    · have nonzero : found[len] ≠ 0 := by
        intro zero
        exact holds.clean (zero ▸ List.getElem_mem inside)
      rw [holds.char inside]
      simp only [bind, Except.bind]
      rw [if_neg nonzero]
      exact ih inside (by omega)
    · rw [holds.stop]
      rfl

theorem RowHolds.cut {front : List UInt8} {byte : UInt8} (holds : RowHolds row (front ++ [byte]))
    (inside : front.length < maxInputLen) :
    RowHolds (Function.update row ⟨front.length, inside⟩ (some 0)) front := by
  have starts : RowStarts row front := by
    refine ⟨inside, fun index within => ?_⟩
    have held := holds.bytes index (by simp; omega)
    rw [held, List.getElem_append_left within]
  exact starts.finish fun member => holds.clean (List.mem_append_left _ member)

/-- The spaces at the end are replaced one by one. -/
theorem RowHolds.trim (holds : RowHolds row found) :
    ∃ after, trimRow row found.length = .ok after ∧ RowHolds after (found.rdropWhile isSpace) := by
  induction found using List.reverseRecOn generalizing row with
  | nil => exact ⟨row, rfl, holds⟩
  | append_singleton front byte ih =>
    have fits := holds.fits
    rw [List.length_append, List.length_singleton] at fits
    have last : commandChar row front.length = .ok byte := by
      have char := @RowHolds.char _ _ holds front.length (by simp)
      simpa using char
    rw [List.length_append, List.length_singleton, trimRow, last]
    simp only [bind, Except.bind]
    by_cases space : isSpace byte = true
    · obtain ⟨after, trims, left⟩ := ih (holds.cut (by omega))
      rw [if_pos space, setElement_eq _ (by omega), List.rdropWhile_concat_pos _ _ _ space]
      exact ⟨after, trims, left⟩
    · rw [if_neg space, List.rdropWhile_concat_neg _ _ _ space]
      exact ⟨row, rfl, holds⟩

theorem RowHolds.text (holds : RowHolds row found) {fuel position : Nat} (le : position ≤ found.length)
    (enough : found.length < fuel + position) : rowText row fuel position = .ok (found.drop position) := by
  induction fuel generalizing position with
  | zero => omega
  | succ fuel ih =>
    rw [rowText]
    rcases Nat.lt_or_eq_of_le le with inside | rfl
    · have nonzero : found[position] ≠ 0 := by
        intro zero
        exact holds.clean (zero ▸ List.getElem_mem inside)
      have next : ((position : Int) + 1) = ((position + 1 : Nat) : Int) := by omega
      rw [holds.char inside]
      simp only [bind, Except.bind]
      rw [if_neg nonzero, next, ih inside (by omega), List.drop_eq_getElem_cons inside]
      rfl
    · rw [holds.stop, List.drop_length]
      rfl

/-- What is executed of the strings in the rows. -/
def executedTexts (texts : List (List UInt8)) : List (List UInt8) :=
  (texts.map (List.rdropWhile isSpace)).filter (· ≠ [])

theorem executedTexts_cons (text : List UInt8) (texts : List (List UInt8)) :
    executedTexts (text :: texts) = executedTexts [text] ++ executedTexts texts := by
  unfold executedTexts
  rw [← List.filter_append]
  rfl

/-- The pass over a row that holds a string. -/
theorem RowHolds.execute (holds : RowHolds row found) :
    executeRow row = .ok (executedTexts [found]) := by
  obtain ⟨after, trims, trimmed⟩ := holds.trim
  have fits := trimmed.fits
  have enough := holds.fits
  have length := @RowHolds.length _ _ holds (maxInputLen + 1) 0 (Nat.zero_le _) (by omega)
  rw [executeRow, length]
  simp only [bind, Except.bind]
  rw [trims]
  dsimp only
  by_cases blank : found.rdropWhile isSpace = []
  · have first : commandChar after 0 = .ok 0 := by
      have stop := trimmed.stop
      rwa [blank] at stop
    rw [first]
    simp [executedTexts, blank, pure, Except.pure]
  · obtain ⟨byte, rest, shape⟩ := List.exists_cons_of_ne_nil blank
    have nonzero : byte ≠ 0 := by
      rintro rfl
      exact trimmed.clean (shape ▸ List.mem_cons_self)
    have first : commandChar after 0 = .ok byte := by
      have char := @RowHolds.char _ _ trimmed 0 (by rw [shape]; exact Nat.zero_lt_succ _)
      simpa [shape] using char
    have text : rowText after (maxInputLen + 1) 0 = .ok (found.rdropWhile isSpace) :=
      @RowHolds.text _ _ trimmed (maxInputLen + 1) 0 (Nat.zero_le _) (by omega)
    rw [first]
    dsimp only
    rw [if_pos nonzero, text]
    simp [executedTexts, blank, pure, Except.pure]

/-- The rows in front are executed, whatever the ones behind them do. -/
theorem executeRows_held {texts : List (List UInt8)} (rows : RowsHold commands texts)
    {place : Nat} (inside : place ≤ texts.length) (more : Nat) :
    executeRows commands (texts.length - place + more) place =
      (executeRows commands more texts.length).map (executedTexts (texts.drop place) ++ ·) := by
  induction gap : texts.length - place generalizing place with
  | zero =>
    obtain rfl : place = texts.length := by omega
    rw [Nat.zero_add, List.drop_length]
    cases executeRows commands more texts.length with
    | error stop => rfl
    | ok rest => rfl
  | succ left ih =>
    have within : place < texts.length := by omega
    have fits := rows.fits
    have next : ((place : Int) + 1) = ((place + 1 : Nat) : Int) := by omega
    have passes : left + 1 + more = left + more + 1 := by omega
    have executes := (rows.held place within).execute
    have rest := @ih (place + 1) within (by omega)
    rw [passes, executeRows, elementAt_eq _ (by omega)]
    simp only [bind, Except.bind]
    rw [executes]
    dsimp only
    rw [next, rest, List.drop_eq_getElem_cons within]
    cases executeRows commands more texts.length with
    | error stop => rfl
    | ok rest =>
      rw [executedTexts_cons texts[place] (texts.drop (place + 1))]
      exact congrArg Except.ok (List.append_assoc _ _ _).symm

/-- The commands of a chained line: the first segments, without the spaces around them
and without the empty ones. -/
def chainedSegments (input : List UInt8) : List (List UInt8) :=
  executedTexts (((split ampersand input).take maxChainedCmds).map (List.dropWhile isSpace))

theorem executedTexts_rowTexts (input : List UInt8) : executedTexts (rowTexts 0 input) = chainedSegments input := by
  unfold rowTexts chainedSegments
  split
  next empty =>
    rw [empty]
    rfl
  next => rfl

/-- A line that fits into the buffer is executed segment by segment when it does not end
in a separator that the code trips over. -/
theorem chained_commands_iff (input : List UInt8) (short : input.length ≤ 255) (clean : 0 ∉ input) :
    parseAndExecuteChained input = .ok (chainedSegments input) ↔ ¬Dangles 0 input := by
  have rows : RowsHold (fun _ _ => none) [] := ⟨Nat.zero_le _, fun index inside => absurd inside (Nat.not_lt_zero _)⟩
  have fresh : FreshFrom (fun _ _ => none) 0 := fun _ _ => rfl
  obtain ⟨broken, filled⟩ := @segmentLoop_cuts _ [] (maxChainedCmds + 1) (by decide) rows fresh input clean
    (Nat.lt_succ_of_le short)
  simp only [List.length_nil, List.nil_append] at broken filled
  constructor
  · intro right dangles
    have some : input ≠ [] := by
      rintro rfl
      obtain ⟨front, segment, same, -⟩ := dangles
      have lengths := congrArg List.length same
      simp [split] at lengths
    rw [parseAndExecuteChained, if_neg some] at right
    rcases broken dangles with ⟨stop, fails⟩ | ⟨after, texts, place, loops, held, here, unset⟩
    · rw [fails] at right
      cases right
    · rw [loops] at right
      have executes := executeRows_held held (Nat.zero_le _) 1
      have unread : commandChar (after place) 0 = .error .undefined := by
        have first : elementAt (after place) (0 : Nat) = .ok none := by
          rw [elementAt_eq _ maxInputLen_pos, unset]
        unfold commandChar
        erw [first]
        rfl
      have row : executeRows after 1 texts.length = .error .undefined := by
        have selected : elementAt after (texts.length : Int) = .ok (after place) := by
          rw [← here, elementAt_eq _ place.isLt]
        rw [executeRows, selected]
        simp only [bind, Except.bind]
        rw [executeRow, rowLength]
        simp only [bind, Except.bind]
        erw [unread]
      rw [List.drop_zero, row] at executes
      cases executes.symm.trans right
  · intro fine
    by_cases empty : input = []
    · subst empty
      rfl
    · obtain ⟨after, loops, held⟩ := filled fine
      have executes := executeRows_held held (Nat.zero_le _) 0
      rw [parseAndExecuteChained, if_neg empty, loops]
      refine executes.trans ?_
      rw [executeRows, List.drop_zero, executedTexts_rowTexts]
      simp [Except.map]

/-- Two commands, with spaces around the separator. -/
theorem chained_commands_iff_two :
    parseAndExecuteChained (literal "ls && date ") = .ok (chainedSegments (literal "ls && date ")) := by
  refine (chained_commands_iff _ (by decide) (by decide)).mpr ?_
  rintro ⟨front, segment, same, -⟩
  have last : (split ampersand (literal "ls && date ")).getLast? = some [] := by
    rw [same]
    simp
  exact absurd last (by decide)

/-- The line "ls&&" leads to a read of a byte that has no value. -/
theorem dangling_line_undefined : parseAndExecuteChained (literal "ls&&") ≠ .ok (chainedSegments (literal "ls&&")) := by
  have undefined : parseAndExecuteChained (literal "ls&&") = .error .undefined := rfl
  rw [undefined]
  exact fun same => by cases same

end Kernix.Proofs
