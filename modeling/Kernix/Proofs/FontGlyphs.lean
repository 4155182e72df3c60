import Kernix.Common.Psf
import Kernix.Gui.Bitmaps
import Kernix.Proofs.SavedTexts

/-! The glyphs of a loaded font. The end of a bitmap is computed in 32 bits before it is
compared with the size of the font, the header is read before anyone knows that it is
there, and a longer file is cut off after 64 KiB. -/

namespace Kernix.Proofs
open ByteMemory

variable {δ : Type} {state after : FsState δ}

/-- The header size of a loaded font. -/
def fontHeaderSize (load : PsfLoad) : Nat :=
  if load.font.version = 2 then ByteMemory.load load.fontBuffer 8 4 else psf1HeaderSize

/-- The bitmaps that are found lie where they should and inside the font, those in the file
are found, and no field of the header lies behind the bytes of the font. -/
structure GlyphsRight (bytes : List UInt8) (load : PsfLoad) : Prop where
  bounded : ∀ charcode offset, psfGetGlyphBitmap load.font load.fontBuffer charcode = some offset →
    offset + load.font.charSize ≤ load.font.size ∧ offset = fontHeaderSize load + charcode * load.font.charSize
  found : ∀ charcode < load.font.numChars,
    fontHeaderSize load + charcode * load.font.charSize + load.font.charSize ≤ bytes.length →
      ∃ offset, psfGetGlyphBitmap load.font load.fontBuffer charcode = some offset
  inside : ∀ field ∈ load.fields, field.1 + field.2 ≤ load.font.size

/-- What a file says of its glyphs. -/
structure GlyphTable where
  headerSize : Nat
  numChars : Nat
  charSize : Nat

def glyphTable (file : Memory) : GlyphTable :=
  if load file 0 4 = psf2Magic then ⟨load file 8 4, load file 16 4, load file 20 4⟩
  else ⟨psf1HeaderSize, if load file 2 1 &&& 0x01 ≠ 0 then 512 else 256, load file 3 1⟩

/-- The end of a bitmap. -/
def GlyphTable.stop (table : GlyphTable) (charcode : Nat) : Nat :=
  table.headerSize + charcode * table.charSize + table.charSize

/-- The header of a new font is whole. The end of each bitmap fits into 32 bits, or is still
too large when it is cut to them; and none lies inside the file behind its first 64 KiB. -/
structure FontFits (bytes : List UInt8) : Prop where
  whole : load (localBytes bytes) 0 4 = psf2Magic → 32 ≤ bytes.length
  narrow : ∀ charcode < (glyphTable (localBytes bytes)).numChars,
    (glyphTable (localBytes bytes)).stop charcode < 2 ^ 32 ∨
      min maxFontSize bytes.length < (glyphTable (localBytes bytes)).stop charcode % 2 ^ 32
  short : ∀ charcode < (glyphTable (localBytes bytes)).numChars,
    (glyphTable (localBytes bytes)).stop charcode ≤ bytes.length →
      (glyphTable (localBytes bytes)).stop charcode ≤ maxFontSize

section Reading

variable {fd : Int} {slot : Fin fsMaxFds} {node : Nat} {bytes : List UInt8}

/-- The buffer holds the first bytes of the file. -/
def HoldsFirst (fontBuffer : Memory) (bytes : List UInt8) (count : Nat) : Prop :=
  Agree fontBuffer (localBytes bytes) 0 count

/-- The next bytes of the file behind those that are there. -/
theorem HoldsFirst.append {fontBuffer : Memory} {pos cnt : Nat} (holds : HoldsFirst fontBuffer bytes pos) :
    HoldsFirst (copy fontBuffer pos ((bytes.drop pos).take cnt).length fun offset =>
      ((bytes.drop pos).take cnt).getD offset 0) bytes (pos + min cnt (bytes.length - pos)) := by
  intro position low high
  have length : ((bytes.drop pos).take cnt).length = min cnt (bytes.length - pos) := by
    rw [List.length_take, List.length_drop]
  rw [length]
  by_cases old : position < pos
  · rw [copy_confined fontBuffer pos _ _ position (by omega)]
    exact holds position low (by omega)
  · obtain ⟨offset, rfl⟩ := Nat.exists_eq_add_of_le (Nat.le_of_not_lt old)
    rw [copy_inside fontBuffer pos _ (by omega)]
    have near : offset < cnt := by omega
    simp only [localBytes, List.getD_eq_getElem?_getD, List.getElem?_take, if_pos near, List.getElem?_drop]

/-- A turn takes the bytes that are still there, up to the end of the buffer. -/
theorem readFont_turn (left : Nat) {pos : Nat} {fontBuffer : Memory} (saving : Saving state slot node (bytes.take pos) bytes)
    (place : fdSlot fd = some slot) (inside : pos ≤ bytes.length) (room : pos ≤ maxFontSize)
    (holds : HoldsFirst fontBuffer bytes pos) :
    ∃ fontBuffer' after', HoldsFirst fontBuffer' bytes (pos + min (maxFontSize - pos) (bytes.length - pos)) ∧
      Saving after' slot node (bytes.take (pos + min (maxFontSize - pos) (bytes.length - pos))) bytes ∧
      readFont fd (left + 1) state fontBuffer pos =
        if pos < bytes.length ∧ bytes.length < maxFontSize then readFont fd left after' fontBuffer' bytes.length
        else .ok (min maxFontSize bytes.length, fontBuffer', after') := by
  have size : maxFontSize = 65536 := rfl
  obtain ⟨after', reads, -, -, saving'⟩ := saving.read place inside (show maxFontSize - pos < 2 ^ 63 by omega)
  refine ⟨_, after', holds.append, saving', ?_⟩
  have length : ((bytes.drop pos).take (maxFontSize - pos)).length = min (maxFontSize - pos) (bytes.length - pos) := by
    rw [List.length_take, List.length_drop]
  have taken : u32 (u64OfInt ((min (maxFontSize - pos) (bytes.length - pos) : Nat) : Int)) =
      min (maxFontSize - pos) (bytes.length - pos) := by
    rw [u64OfInt_eq (by omega)]
    exact Nat.mod_eq_of_lt (by omega)
  have sum : u32 (pos + min (maxFontSize - pos) (bytes.length - pos)) =
      pos + min (maxFontSize - pos) (bytes.length - pos) := Nat.mod_eq_of_lt (by omega)
  rw [readFont, reads]
  simp only [bind, Except.bind]
  rw [if_neg (by rw [length]; omega)]
  simp only [taken, sum]
  by_cases more : pos < bytes.length ∧ bytes.length < maxFontSize
  · have all : pos + min (maxFontSize - pos) (bytes.length - pos) = bytes.length := by omega
    rw [if_pos more, if_pos (by omega), if_neg (by omega), all]
  · rw [if_neg more]
    split
    · rw [if_pos (by omega)]
      rw [show pos + min (maxFontSize - pos) (bytes.length - pos) = min maxFontSize bytes.length by omega]
      rfl
    · rw [show pos = min maxFontSize bytes.length by omega]
      rfl

/-- The loop takes the file up to the end of the buffer, in at most two turns. -/
theorem readFont_file (turns : Nat) (fontBuffer : Memory) (saving : Saving state slot node [] bytes)
    (place : fdSlot fd = some slot) :
    ∃ fontBuffer' after', readFont fd (turns + 2) state fontBuffer 0 =
        .ok (min maxFontSize bytes.length, fontBuffer', after') ∧
      HoldsFirst fontBuffer' bytes (min maxFontSize bytes.length) ∧
      Saving after' slot node (bytes.take (min maxFontSize bytes.length)) bytes := by
  obtain ⟨first, after', holds, saving', turn⟩ := readFont_turn (turns + 1) (by rwa [List.take_zero]) place
    (Nat.zero_le _) (Nat.zero_le _) (fun _ low high => absurd high (by omega) : HoldsFirst fontBuffer bytes 0)
  rw [Nat.sub_zero, Nat.sub_zero, Nat.zero_add] at holds saving'
  by_cases more : 0 < bytes.length ∧ bytes.length < maxFontSize
  · have all : min maxFontSize bytes.length = bytes.length := by omega
    rw [if_pos more] at turn
    rw [all] at holds saving' ⊢
    obtain ⟨second, last, holds', saving'', turn'⟩ := readFont_turn turns saving' place (Nat.le_refl _)
      (by omega) holds
    rw [if_neg (by omega), all] at turn'
    rw [Nat.sub_self, Nat.min_zero, Nat.add_zero] at holds' saving''
    exact ⟨second, last, turn.trans turn', holds', saving''⟩
  · rw [if_neg more] at turn
    exact ⟨first, after', turn, holds, saving'⟩

end Reading

/-- A font with the glyphs of a table. -/
structure FontOf (table : GlyphTable) (load : PsfLoad) : Prop where
  loaded : load.font.loaded = true
  numChars : load.font.numChars = table.numChars
  charSize : load.font.charSize = table.charSize
  headerSize : fontHeaderSize load = table.headerSize

/-- The bitmaps that are found. -/
theorem FontOf.bitmap {table : GlyphTable} {load : PsfLoad} (font : FontOf table load) {charcode : Nat}
    (known : charcode < table.numChars) :
    psfGetGlyphBitmap load.font load.fontBuffer charcode =
      if load.font.size < u32 (table.stop charcode) then none
      else some (u32 (table.headerSize + charcode * table.charSize)) := by
  have header := font.headerSize
  unfold fontHeaderSize at header
  have start : u32 (table.headerSize + u32 (charcode * table.charSize)) =
      u32 (table.headerSize + charcode * table.charSize) := by
    unfold u32
    omega
  have stop : u32 (u32 (table.headerSize + charcode * table.charSize) + table.charSize) = u32 (table.stop charcode) := by
    unfold u32 GlyphTable.stop
    omega
  unfold psfGetGlyphBitmap
  rw [if_neg (by rw [font.loaded, font.numChars]; simpa using known)]
  simp only [header, font.charSize, start, stop]

/-- What a header that is accepted makes of the font. -/
theorem psfHeader_font {ret : Int} {font : PsfFont} {fields : List (Nat × Nat)} {fontBuffer : Memory} {totalRead : Nat}
    (reads : psfHeader fontBuffer totalRead = (ret, font, fields)) (accepted : ret = 0) (some : psf1HeaderSize ≤ totalRead) :
    FontOf (glyphTable fontBuffer) ⟨ret, font, fields, fontBuffer⟩ ∧ font.size = totalRead ∧
      ((∀ field ∈ fields, field.1 + field.2 ≤ totalRead) ↔ (load fontBuffer 0 4 = psf2Magic → 32 ≤ totalRead)) := by
  have size : psf1HeaderSize = 4 := rfl
  by_cases new : load fontBuffer 0 4 = psf2Magic
  · simp only [psfHeader, if_pos new] at reads
    cases reads
    refine ⟨⟨rfl, ?_, ?_, ?_⟩, rfl, ?_⟩
    · simp only [glyphTable, if_pos new]
    · simp only [glyphTable, if_pos new]
    · simp only [glyphTable, fontHeaderSize, if_pos new, if_pos]
    · simp only [List.forall_mem_cons, new, true_imp_iff]
      constructor
      · rintro ⟨-, -, -, -, last, -⟩
        exact last
      · exact fun whole => ⟨by omega, by omega, by omega, by omega, by omega, List.forall_mem_nil _⟩
  · simp only [psfHeader, if_neg new] at reads
    by_cases old : load fontBuffer 0 4 &&& 0xFFFF = psf1Magic
    · rw [if_pos old] at reads
      cases reads
      refine ⟨⟨rfl, ?_, ?_, ?_⟩, rfl, ?_⟩
      · simp only [glyphTable, if_neg new]
      · simp only [glyphTable, if_neg new]
      · simp only [glyphTable, fontHeaderSize, if_neg new]
        rfl
      · simp only [List.forall_mem_cons, new, false_imp_iff, iff_true]
        exact ⟨by omega, by omega, by omega, List.forall_mem_nil _⟩
    · rw [if_neg old] at reads
      cases reads
      cases accepted

/-- The table of the buffer is that of the file when the header has been read. -/
theorem glyphTable_agree {bytes : List UInt8} {fontBuffer : Memory} {totalRead : Nat}
    (holds : HoldsFirst fontBuffer bytes totalRead) (some : psf1HeaderSize ≤ totalRead)
    (whole : load fontBuffer 0 4 = psf2Magic → 32 ≤ totalRead) :
    glyphTable fontBuffer = glyphTable (localBytes bytes) := by
  have size : psf1HeaderSize = 4 := rfl
  have field {start count : Nat} (inside : start + count ≤ totalRead) :
      load fontBuffer start count = load (localBytes bytes) start count :=
    load_agree (holds.mono (Nat.zero_le _) (by omega))
  unfold glyphTable
  rw [field (show 0 + 4 ≤ totalRead by omega)] at whole ⊢
  by_cases new : load (localBytes bytes) 0 4 = psf2Magic
  · have length := whole new
    rw [if_pos new, if_pos new, field (by omega), field (by omega), field (by omega)]
  · rw [if_neg new, if_neg new, field (by omega), field (by omega)]

/-- The bitmaps of a font, one by one. -/
theorem glyphs_iff {bytes : List UInt8} {load : PsfLoad} {table : GlyphTable} (font : FontOf table load)
    (size : load.font.size = min maxFontSize bytes.length) :
    GlyphsRight bytes load ↔ (∀ field ∈ load.fields, field.1 + field.2 ≤ load.font.size) ∧
      (∀ charcode < table.numChars,
        table.stop charcode < 2 ^ 32 ∨ min maxFontSize bytes.length < table.stop charcode % 2 ^ 32) ∧
      ∀ charcode < table.numChars, table.stop charcode ≤ bytes.length → table.stop charcode ≤ maxFontSize := by
  have most : maxFontSize = 65536 := rfl
  constructor
  · rintro ⟨bounded, found, inside⟩
    rw [font.numChars] at found
    rw [font.charSize, font.headerSize] at bounded found
    refine ⟨inside, fun charcode known => ?_, fun charcode known lies => ?_⟩
    · have start := bounded charcode
      rw [font.bitmap known, size] at start
      by_cases far : min maxFontSize bytes.length < u32 (table.stop charcode)
      · exact Or.inr far
      · obtain ⟨fits, same⟩ := start _ (if_neg far)
        refine Or.inl ?_
        unfold GlyphTable.stop
        omega
    · obtain ⟨offset, finds⟩ := found charcode known lies
      obtain ⟨fits, same⟩ := bounded charcode offset finds
      rw [size] at fits
      unfold GlyphTable.stop
      omega
  · rintro ⟨inside, narrow, short⟩
    refine ⟨fun charcode offset finds => ?_, fun charcode known lies => ?_, inside⟩
    · have known : charcode < table.numChars := by
        by_contra unknown
        rw [psfGetGlyphBitmap, if_pos (Or.inr (by rw [font.numChars]; omega))] at finds
        cases finds
      rw [font.bitmap known, size] at finds
      rw [font.charSize, font.headerSize, size]
      split at finds
      next => cases finds
      next near =>
        cases finds
        have small := (narrow charcode known).resolve_right near
        rw [u32, Nat.mod_eq_of_lt small] at near
        unfold GlyphTable.stop at small near
        rw [u32, Nat.mod_eq_of_lt (by omega)]
        exact ⟨Nat.le_of_not_lt near, rfl⟩
    · rw [font.numChars] at known
      rw [font.charSize, font.headerSize] at lies
      have cut := short charcode known lies
      have same : u32 (table.stop charcode) = table.stop charcode := Nat.mod_eq_of_lt (by omega)
      rw [font.bitmap known, size, same, if_neg (by unfold GlyphTable.stop at cut ⊢; omega)]
      exact ⟨_, rfl⟩

/-- A font is loaded from every file that starts as one, and its glyphs are right exactly
when they fit. -/
theorem glyphs_right_iff {path : List UInt8} {node turns : Nat} (fontBuffer : Memory) (reached : FsReachable state)
    (leads : fsResolve state path = .ok node) (given : node ≠ 0) (file : IsFile state node) (enough : 2 ≤ turns) :
    ∃ load after, psfLoad turns state fontBuffer path = .ok (load, after) ∧
      (load.ret = 0 → (GlyphsRight (content state node) load ↔ FontFits (content state node))) := by
  have most : maxFontSize = 65536 := rfl
  have least : psf1HeaderSize = 4 := rfl
  obtain ⟨blocks, roles, valid⟩ := fs_reachable_wellFormed reached
  obtain ⟨fd, opened, opens⟩ := valid.fsOpen_returns fun asked => absurd rfl (show 0 &&& oCreat ≠ 0 from asked)
  by_cases success : 0 ≤ fd
  · obtain ⟨slot, place, saving⟩ := fsOpen_saving valid leads given file opens success
    obtain ⟨turns, rfl⟩ := Nat.exists_eq_add_of_le' enough
    obtain ⟨fontBuffer', after', reads, holds, saving'⟩ := readFont_file turns fontBuffer saving place
    obtain ⟨_, _, valid'⟩ := saving'.valid
    obtain ⟨last, closes, _⟩ := valid'.close place saving'.used
    obtain ⟨⟨ret, font, fields⟩, header⟩ : ∃ found,
      psfHeader fontBuffer' (min maxFontSize (content state node).length) = found := ⟨_, rfl⟩
    have loads : psfLoad (turns + 2) state fontBuffer path =
        if min maxFontSize (content state node).length < psf1HeaderSize then .ok (⟨-1, noFont, [], fontBuffer'⟩, last)
        else .ok (⟨ret, font, fields, fontBuffer'⟩, last) := by
      unfold psfLoad
      simp only [bind, Except.bind, opens, reads, closes, header]
      rw [if_neg (by omega)]
      rfl
    by_cases little : min maxFontSize (content state node).length < psf1HeaderSize
    · rw [if_pos little] at loads
      exact ⟨_, last, loads, fun accepted : (-1 : Int) = 0 => absurd accepted (by decide)⟩
    · rw [if_neg little] at loads
      refine ⟨_, last, loads, fun accepted : ret = 0 => ?_⟩
      have some := Nat.le_of_not_lt little
      obtain ⟨glyphs, size, whole⟩ := psfHeader_font header accepted some
      have magic : load fontBuffer' 0 4 = load (localBytes (content state node)) 0 4 :=
        load_agree (holds.mono (Nat.zero_le _) (by omega))
      have long : 32 ≤ min maxFontSize (content state node).length ↔ 32 ≤ (content state node).length := by omega
      rw [magic, long] at whole
      rw [glyphs_iff glyphs size]
      dsimp only
      rw [size, whole]
      by_cases complete : load (localBytes (content state node)) 0 4 = psf2Magic → 32 ≤ (content state node).length
      · rw [glyphTable_agree holds some (by rwa [magic, long])]
        exact ⟨fun ⟨_, narrow, short⟩ => ⟨complete, narrow, short⟩, fun fits => ⟨fits.whole, fits.narrow, fits.short⟩⟩
      · exact ⟨fun right => absurd right.1 complete, fun fits => absurd fits.whole complete⟩
  · refine ⟨⟨-1, noFont, [], fontBuffer⟩, opened, ?_, fun accepted : (-1 : Int) = 0 => absurd accepted (by decide)⟩
    unfold psfLoad
    simp only [bind, Except.bind, opens]
    rw [if_pos (by omega)]
    rfl

/-- The numbers of a header, as their bytes. -/
private def fontHeader (numbers : List Nat) : List UInt8 :=
  numbers.flatMap fun number => (List.range 4).map fun offset => UInt8.ofNat (number / 256 ^ offset)

/-- A font of one bitmap with two bytes. -/
private def smallFont : List UInt8 := fontHeader [psf2Magic, 0, 32, 0, 1, 2, 1, 16] ++ [0x18, 0x24]

/-- Nothing but a header, which places the only bitmap at the end of what 32 bits can hold. -/
private def wrappedFont : List UInt8 := fontHeader [psf2Magic, 0, 0xFFFFFFF0, 0, 1, 16, 16, 8]

/-- The font can be loaded. -/
private def loadsFont (state : FsState Unit) : Bool :=
  match psfLoad 2 state (fun _ => 0) (literal "/font") with
  | .ok (load, _) => load.ret = 0
  | .error _ => false

private theorem font_loaded {state : FsState Unit} {load : PsfLoad} {after : FsState Unit} (loaded : loadsFont state = true)
    (loads : psfLoad 2 state (fun _ => 0) (literal "/font") = .ok (load, after)) : load.ret = 0 := by
  rw [loadsFont, loads] at loaded
  exact of_decide_eq_true loaded

theorem glyphs_right_iff_small : ∃ (state after : FsState Unit) (load : PsfLoad), FsReachable state ∧
    psfLoad 2 state (fun _ => 0) (literal "/font") = .ok (load, after) ∧ load.ret = 0 ∧ GlyphsRight smallFont load := by
  obtain ⟨state, node, reached, leads, given, file, same, loaded⟩ :=
    file_held (show rootedFs.any (fun start => (runCalls start (fileCalls (literal "/font") smallFont)).any
      fun state => fileHolds (literal "/font") smallFont state && loadsFont state) = true by decide +kernel)
  obtain ⟨load, after, loads, right⟩ := glyphs_right_iff (fun _ => 0) reached leads given file (Nat.le_refl 2)
  rw [same] at right
  refine ⟨state, after, load, reached, loads, font_loaded loaded loads, (right (font_loaded loaded loads)).mpr ⟨?_, ?_, ?_⟩⟩
  · decide
  · decide +kernel
  · decide +kernel

/-- The only bitmap is found, at an offset of almost 2^32. -/
private def findsFar (state : FsState Unit) : Bool :=
  match psfLoad 2 state (fun _ => 0) (literal "/font") with
  | .ok (load, _) => load.ret = 0 ∧ load.font.size = 32 ∧
      psfGetGlyphBitmap load.font load.fontBuffer 0 = some 0xFFFFFFF0
  | .error _ => false

/-- A bitmap far behind the font is taken to lie in it. -/
theorem glyphs_right_fails : ¬∀ (state : FsState Unit) (fontBuffer : Memory) (path : List UInt8) (node : Nat),
    FsReachable state → fsResolve state path = .ok node → node ≠ 0 → IsFile state node →
      ∃ load after, psfLoad 2 state fontBuffer path = .ok (load, after) ∧
        (load.ret = 0 → GlyphsRight (content state node) load) := by
  intro always
  obtain ⟨state, node, reached, leads, given, file, same, far⟩ :=
    file_held (show rootedFs.any (fun start => (runCalls start (fileCalls (literal "/font") wrappedFont)).any
      fun state => fileHolds (literal "/font") wrappedFont state && findsFar state) = true by decide +kernel)
  obtain ⟨load, after, loads, right⟩ := always state (fun _ => 0) (literal "/font") node reached leads given file
  simp only [findsFar, loads, decide_eq_true_eq] at far
  obtain ⟨accepted, size, finds⟩ := far
  have fits := ((right accepted).bounded 0 _ finds).1
  omega

end Kernix.Proofs
