import Kernix.Proofs.FsLoans
import Kernix.Proofs.SavedTexts

/-! The two loaders of BMP files. `gui_load_bmp` skips the offset of the pixels from behind
the headers, where `load_cursor_bmp` starts again at the beginning of the file; in turn
the latter gives its blocks away when the file cannot be opened a second time. -/

namespace Kernix.Proofs
open ByteMemory Raster

variable {δ : Type} {state after : FsState δ} {live taken : List (Nat × Nat)} {fds : Fin fsMaxFds → Nat}
  {blocks : List Block} {roles : Roles} {path : List UInt8} {fd : Int} {slot : Fin fsMaxFds} {file width : Nat}
  {accepts : BmpInfoHeader → Bool} {prepared : Option PreparedImage} {image : BmpImage}
  {release : FsState δ → BmpImage → Except Stop (FsState δ)}

/-- After the headers were accepted and the memory was found, the file cannot be opened again. -/
def ReopenRefused (state : FsState δ) (path : List UInt8) : Prop :=
  ∃ prepared ready closed ret fd last, prepareImage cursorAccepts state path = .ok (some prepared, ready) ∧
    fsClose ready prepared.fd = .ok (ret, closed) ∧ fsOpen closed path oRdonly = .ok (fd, last) ∧ fd < 0

section Exits

namespace Lent

theorem readObject {size : Nat} {result : Option (List UInt8)} (lent : Lent live taken fds state)
    (reads : readObject state fd size = .ok (result, after)) : Lent live taken fds after := by
  unfold Kernix.readObject at reads
  obtain ⟨⟨ret, buf, middle⟩, first, rest⟩ := bind_ok reads
  have lent' := lent.read first
  dsimp only at rest
  split at rest
  · cases rest
  · split at rest
    · cases rest
      exact lent'
    · split at rest
      · cases rest
      · cases rest
        exact lent'

theorem readBmpHeaders {headers : Option (BmpFileHeader × BmpInfoHeader)} (lent : Lent live taken fds state)
    (reads : readBmpHeaders state fd = .ok (headers, after)) : Lent live taken fds after := by
  unfold Kernix.readBmpHeaders at reads
  obtain ⟨⟨bytes, middle⟩, first, rest⟩ := bind_ok reads
  have lent' := lent.readObject first
  cases bytes with
  | none =>
    cases rest
    exact lent'
  | some bytes =>
    dsimp only at rest
    split at rest
    · cases rest
      exact lent'
    · obtain ⟨⟨bytes', last⟩, second, rest⟩ := bind_ok rest
      have lent'' := lent'.readObject second
      cases bytes' with
      | none | some =>
        cases rest
        exact lent''

theorem skipBytes {passes dataOffset : Nat} (lent : Lent live taken fds state)
    (skips : skipBytes fd passes state dataOffset = .ok after) : Lent live taken fds after := by
  induction passes generalizing state dataOffset with
  | zero => cases skips
  | succ passes ih =>
    rw [Kernix.skipBytes] at skips
    split at skips
    · cases skips
      exact lent
    · obtain ⟨⟨ret, buf, middle⟩, reads, rest⟩ := bind_ok skips
      have lent' := lent.read reads
      dsimp only at rest
      split at rest
      · cases rest
      · split at rest
        · cases rest
          exact lent'
        · exact ih lent' rest

/-- `fs_close(fd); return NULL;` gives the descriptor back. -/
theorem closeFailed {α : Type} {result : Option α}
    (lent : Lent ((file, width) :: live) taken (Function.update fds slot file) state) (place : fdSlot fd = some slot)
    (given : file ≠ 0) (was : fds slot = 0) (closes : closeFailed state fd = .ok (result, after)) :
    result = none ∧ Lent live taken fds after := by
  obtain ⟨last, closed, lent'⟩ := lent.close place given was
  unfold Kernix.closeFailed at closes
  rw [closed] at closes
  cases closes
  exact ⟨rfl, lent'⟩

end Lent

/-- An image is prepared: it has a descriptor and two blocks. -/
structure Ready (live : List (Nat × Nat)) (fds : Fin fsMaxFds → Nat) (prepared : PreparedImage) (ready : FsState δ)
    (slot : Fin fsMaxFds) (file width widest wide : Nat) : Prop where
  place : fdSlot prepared.fd = some slot
  given : file ≠ 0
  was : fds slot = 0
  room : roundUp fsFileSize ≤ width
  address : prepared.image.address ≠ 0
  pixels : prepared.image.pixels ≠ 0
  lent : Lent ((file, width) :: live) [(prepared.image.pixels, widest), (prepared.image.address, wide)]
    (Function.update fds slot file) ready

/-- The first part of the loaders has everything that it needs, or it gives back what it has. -/
theorem prepareImage_lent (lent : Lent live [] fds state)
    (prepares : prepareImage accepts state path = .ok (prepared, after)) :
    prepared = none ∧ Lent live [] fds after ∨ ∃ ready slot file width widest wide, prepared = some ready ∧
      Ready live fds ready after slot file width widest wide := by
  unfold prepareImage at prepares
  obtain ⟨⟨fd, opened⟩, opens, rest⟩ := bind_ok prepares
  dsimp only at rest
  rcases lent.opens opens with ⟨failed, lent⟩ | ⟨slot, file, width, rfl, was, given, room, lent⟩
  · rw [if_pos failed] at rest
    cases rest
    exact .inl ⟨rfl, lent⟩
  · have place : fdSlot (slot.val : Int) = some slot := by simp [fdSlot]
    rw [if_neg (by omega)] at rest
    obtain ⟨⟨headers, read⟩, reads, rest⟩ := bind_ok rest
    have lent := lent.readBmpHeaders reads
    cases headers with
    | none => exact .inl (lent.closeFailed place given was rest)
    | some headers =>
      dsimp only at rest
      split at rest
      · exact .inl (lent.closeFailed place given was rest)
      · obtain ⟨⟨address, held⟩, asks, onward⟩ := bind_ok rest
        dsimp only at onward
        rcases lent.allocArray asks with ⟨rfl, rfl⟩ | ⟨nonzero, wide, lent⟩
        · rw [if_pos rfl] at onward
          exact .inl (lent.closeFailed place given was onward)
        · rw [if_neg nonzero] at onward
          split at onward
          · cases onward
          · obtain ⟨⟨pixels, full⟩, asks', last⟩ := bind_ok onward
            dsimp only at last
            rcases lent.allocArray asks' with ⟨rfl, rfl⟩ | ⟨nonzero', widest, lent⟩
            · rw [if_pos rfl] at last
              obtain ⟨freed, frees, last⟩ := bind_ok last
              exact .inl ((lent.free frees).closeFailed place given was last)
            · rw [if_neg nonzero'] at last
              cases last
              exact .inr ⟨_, slot, file, width, widest, wide, rfl, place, given, was, room, nonzero, nonzero', lent⟩

/-- A call that gives the two blocks of an image back. -/
def Releases (release : FsState δ → BmpImage → Except Stop (FsState δ)) : Prop :=
  ∀ {live fds state} {image : BmpImage} {widest wide : Nat}, image.address ≠ 0 → image.pixels ≠ 0 →
    Lent live [(image.pixels, widest), (image.address, wide)] fds state →
      ∃ after, release state image = .ok after ∧ Lent live [] fds after

theorem freeCursor_releases : Releases (δ := δ) freeCursor := by
  intro live fds state image widest wide _ _ lent
  obtain ⟨middle, frees⟩ := lent.frees
  have lent' := lent.free frees
  obtain ⟨after, frees'⟩ := lent'.frees
  refine ⟨after, ?_, lent'.free frees'⟩
  unfold freeCursor
  rw [frees]
  exact frees'

theorem guiFreeBmp_releases : Releases (δ := δ) guiFreeBmp := by
  intro live fds state image widest wide address pixels lent
  obtain ⟨after, frees, lent'⟩ := freeCursor_releases address pixels lent
  refine ⟨after, ?_, lent'⟩
  unfold guiFreeBmp
  rw [if_neg address, if_neg pixels]
  exact frees

/-- The last part of the loaders gives everything back when it fails. -/
theorem readImage_lent {dataOffset widest wide : Nat} (releases : Releases release)
    (lent : Lent ((file, width) :: live) [(image.pixels, widest), (image.address, wide)]
      (Function.update fds slot file) state)
    (place : fdSlot fd = some slot) (given : file ≠ 0) (was : fds slot = 0) (address : image.address ≠ 0)
    (pixels : image.pixels ≠ 0) (reads : readImage release state fd dataOffset image = .ok (none, after)) :
    Lent live [] fds after := by
  unfold readImage at reads
  obtain ⟨skipped, skips, rest⟩ := bind_ok reads
  have lent := lent.skipBytes skips
  dsimp only at rest
  split at rest
  · cases rest
  · obtain ⟨⟨bytes, read⟩, second, rest⟩ := bind_ok rest
    have lent := lent.readObject second
    obtain ⟨closed, closes, lent⟩ := lent.close place given was
    rw [closes] at rest
    cases bytes with
    | none =>
      obtain ⟨freed, frees, lent⟩ := releases address pixels lent
      dsimp only [bind, Except.bind] at rest
      rw [frees] at rest
      cases rest
      exact lent
    | some => cases rest

/-- A failed `gui_load_bmp` has given everything back. -/
theorem guiLoadBmp_balanced (valid : FsValid state blocks roles) (loads : guiLoadBmp state path = .ok (none, after)) :
    SameHoldings state after := by
  refine (Lent.sameHoldings_iff valid ?_).mpr rfl
  unfold guiLoadBmp at loads
  obtain ⟨⟨prepared, ready⟩, prepares, rest⟩ := bind_ok loads
  rcases prepareImage_lent valid.lent prepares with ⟨rfl, lent⟩ | ⟨ready', slot, file, width, widest, wide, rfl, holds⟩
  · cases rest
    exact lent
  · exact readImage_lent guiFreeBmp_releases holds.lent holds.place holds.given holds.was holds.address holds.pixels rest

/-- A failed `load_cursor_bmp` has given everything back unless the file could not be opened again. -/
theorem loadCursorBmp_balanced_iff (valid : FsValid state blocks roles)
    (loads : loadCursorBmp state path = .ok (none, after)) : SameHoldings state after ↔ ¬ReopenRefused state path := by
  unfold loadCursorBmp at loads
  obtain ⟨⟨prepared, ready⟩, prepares, rest⟩ := bind_ok loads
  rcases prepareImage_lent valid.lent prepares with ⟨rfl, lent⟩ | ⟨ready', slot, file, width, widest, wide, rfl, holds⟩
  · cases rest
    refine iff_of_true (lent.sameHoldings_iff valid |>.mpr rfl) ?_
    rintro ⟨_, _, _, _, _, _, prepares', -⟩
    cases prepares.symm.trans prepares'
  · obtain ⟨closed, closes, lent⟩ := holds.lent.close holds.place holds.given holds.was
    dsimp only at rest
    rw [closes] at rest
    obtain ⟨⟨fd, opened⟩, opens, rest⟩ := @bind_ok _ _ (fsOpen closed path oRdonly) _ _ rest
    dsimp only at rest
    rcases lent.opens opens with ⟨failed, lent⟩ | ⟨slot', file', width', rfl, was, given, -, lent⟩
    · rw [if_pos failed] at rest
      cases rest
      refine iff_of_false (fun same => ?_) fun fine => fine ⟨_, _, _, _, _, _, prepares, closes, opens, failed⟩
      cases (lent.sameHoldings_iff valid).mp same
    · rw [if_neg (by omega)] at rest
      have lent := readImage_lent freeCursor_releases lent (by simp [fdSlot]) given was holds.address holds.pixels rest
      refine iff_of_true ((lent.sameHoldings_iff valid).mpr rfl) ?_
      rintro ⟨_, _, _, _, _, _, prepares', closes', opens', failed⟩
      cases prepares.symm.trans prepares'
      cases closes.symm.trans closes'
      cases opens.symm.trans opens'
      omega

end Exits

section Pixels

/-- One byte of a number, at its place in the number. -/
theorem byte_at (value shift bit : Nat) :
    ((value >>> shift &&& 0xFF) <<< shift).testBit bit =
      (decide (shift ≤ bit) && decide (bit < shift + 8) && value.testBit bit) := by
  rw [show (0xFF : Nat) = 2 ^ 8 - 1 from rfl]
  simp only [Nat.testBit_shiftLeft, Nat.testBit_and, Nat.testBit_shiftRight, Nat.testBit_two_pow_sub_one]
  by_cases low : shift ≤ bit
  · rw [Nat.add_sub_cancel' low]
    have same : decide (bit - shift < 8) = decide (bit < shift + 8) := by
      rw [decide_eq_decide]
      omega
    simp [low, same, Bool.and_comm]
  · simp [low]

/-- Taking a pixel apart loses nothing. -/
theorem repackPixel_eq {bmpPixel : Nat} (fits : bmpPixel < 2 ^ 32) : repackPixel bmpPixel = bmpPixel := by
  apply Nat.eq_of_testBit_eq
  intro bit
  have first := byte_at bmpPixel 0 bit
  rw [Nat.shiftLeft_zero] at first
  simp only [repackPixel, Nat.testBit_or, byte_at, first]
  by_cases inside : bit < 32
  · have one : (24 ≤ bit ∧ bit < 24 + 8) ∨ (16 ≤ bit ∧ bit < 16 + 8) ∨ (8 ≤ bit ∧ bit < 8 + 8) ∨ bit < 0 + 8 := by omega
    rcases one with ⟨low, high⟩ | ⟨low, high⟩ | ⟨low, high⟩ | high
    all_goals cases bmpPixel.testBit bit <;> simp [*]
  · rw [Nat.testBit_lt_two_pow (Nat.lt_of_lt_of_le fits (Nat.pow_le_pow_right (by decide) (Nat.le_of_not_lt inside)))]
    simp

/-- A part of a file has the numbers that the file has there. -/
theorem localBytes_slice {bytes : List UInt8} {pos size start count : Nat} (inside : start + count ≤ size) :
    load (localBytes ((bytes.drop pos).take size)) start count = load (localBytes bytes) (pos + start) count := by
  apply load_moved
  intro offset small
  simp only [localBytes, List.getD_eq_getElem?_getD]
  rw [List.getElem?_take_of_lt (by omega), List.getElem?_drop, Nat.add_assoc]

/-- The loops leave the rows of the file, the last row first. -/
theorem copyPixels_load (memory : Memory) (pixels : Nat) {width height x y : Nat} (bmpPixels : List UInt8)
    (column : x < width) (row : y < height) :
    load (copyPixels memory pixels width height bmpPixels) (pixels + 4 * place width x y) 4 =
      load (localBytes bmpPixels) (4 * place width x (height - 1 - y)) 4 := by
  have fits : load (localBytes bmpPixels) (4 * place width x (height - 1 - y)) 4 < 2 ^ 32 := load_lt _ _ 4
  have same := repackPixel_eq fits
  rw [copyPixels, paint_load memory pixels width column row (by rw [same]; exact fits)]
  exact same

end Pixels

section Files

variable {old written : List UInt8} {node pos : Nat}

/-- Memory is found without looking at the files or the devices. -/
theorem allocArray_frame {size count ptr : Nat} (asks : state.allocArray size count = .ok (ptr, after))
    (files : Nat → FsFile) (devices : δ) :
    FsState.allocArray { state with files, devices } size count = .ok (ptr, { after with files, devices }) := by
  unfold FsState.allocArray at asks ⊢
  split at asks
  next address memory finds =>
    rw [finds]
    split at asks
    · cases asks
    next fits =>
      cases asks
      exact if_neg fits
  next => cases asks

theorem allocArray_memory {size count ptr : Nat} (asks : state.allocArray size count = .ok (ptr, after)) :
    ∃ memory, after = { state with memory } := by
  unfold FsState.allocArray at asks
  split at asks
  next address memory finds =>
    split at asks
    · cases asks
    · cases asks
      exact ⟨memory, rfl⟩
  next => cases asks

theorem Saving.allocArray {size count ptr : Nat} (saving : Saving state slot node written old)
    (asks : state.allocArray size count = .ok (ptr, after)) : Saving after slot node written old := by
  obtain ⟨⟨blocks, roles, valid⟩, used, opened, file, start, bytes⟩ := saving
  rcases valid.allocArray asks with ⟨-, rfl⟩ | ⟨blocks', width, -, unseen⟩
  · exact ⟨⟨blocks, roles, valid⟩, used, opened, file, start, bytes⟩
  · have live : roles node = some .node := opened ▸ valid.opened slot used
    refine ⟨⟨blocks', roles, unseen.valid⟩, by rwa [unseen.tree.fds], ?_, unseen.tree.isFile.mpr file, ?_, ?_⟩
    · rw [openedNode, unseen.files, unseen.tree.fds]
      exact opened
    · rw [Proofs.position, unseen.files, unseen.tree.fds]
      exact start
    · rw [unseen.contents node live file]
      exact bytes

/-- A file fills an object when it has as many bytes left. -/
theorem Saving.readObject {size : Nat} (saving : Saving state slot node (old.take pos) old)
    (place : fdSlot fd = some slot) (inside : pos ≤ old.length) (short : size < 2 ^ 63) :
    ∃ after, readObject state fd size =
        .ok (if pos + size ≤ old.length then some ((old.drop pos).take size) else none, after) ∧
      (∃ files devices, after = { state with files, devices }) ∧
      Saving after slot node (old.take (pos + min size (old.length - pos))) old := by
  obtain ⟨after, reads, -, -, saving'⟩ := saving.read place inside short
  refine ⟨after, ?_, fsRead_frame reads, saving'⟩
  have count : ((old.drop pos).take size).length = min size (old.length - pos) := by
    rw [List.length_take, List.length_drop]
  unfold Kernix.readObject
  rw [reads]
  simp only [bind, Except.bind, count]
  rw [if_neg (by omega)]
  by_cases enough : pos + size ≤ old.length
  · rw [if_neg (by omega), if_neg (by omega), if_pos enough]
    rfl
  · rw [if_pos (by omega), if_neg enough]
    rfl

theorem u32_difference {left right : Nat} (small : left < 2 ^ 32) (le : right ≤ left) :
    u32 (u64OfInt ((left : Int) - (right : Nat))) = left - right := by
  unfold u32 u64OfInt
  omega

/-- The skipped bytes are those from where the file is, up to its end. -/
theorem Saving.skipBytes {passes dataOffset : Nat} (saving : Saving state slot node (old.take pos) old)
    (place : fdSlot fd = some slot) (inside : pos ≤ old.length) (small : dataOffset < 2 ^ 32)
    (enough : dataOffset ≤ passes) :
    ∃ after, skipBytes fd (passes + 1) state dataOffset = .ok after ∧
      Saving after slot node (old.take (min (pos + dataOffset) old.length)) old := by
  induction passes generalizing state pos dataOffset with
  | zero =>
    obtain rfl : dataOffset = 0 := by omega
    refine ⟨state, rfl, ?_⟩
    rwa [Nat.add_zero, Nat.min_eq_left inside]
  | succ passes ih =>
    rw [Kernix.skipBytes]
    by_cases done : dataOffset = 0
    · subst done
      refine ⟨state, rfl, ?_⟩
      rwa [Nat.add_zero, Nat.min_eq_left inside]
    · have size : skipBufSize = 1024 := rfl
      obtain ⟨middle, reads, -, -, saving'⟩ := saving.read place inside
        (show min dataOffset skipBufSize < 2 ^ 63 by omega)
      rw [if_neg done, reads]
      simp only [bind, Except.bind, List.length_take, List.length_drop]
      rw [if_neg (by omega)]
      by_cases more : pos < old.length
      · rw [if_neg (by omega), u32_difference small (by omega)]
        obtain ⟨after, skips, saving''⟩ := ih saving' (by omega)
          (show dataOffset - min (min dataOffset skipBufSize) (old.length - pos) < 2 ^ 32 by omega) (by omega)
        refine ⟨after, skips, ?_⟩
        have sum : min (pos + min (min dataOffset skipBufSize) (old.length - pos) +
            (dataOffset - min (min dataOffset skipBufSize) (old.length - pos))) old.length =
            min (pos + dataOffset) old.length := by omega
        rwa [sum] at saving''
      · rw [if_pos (by omega)]
        refine ⟨middle, rfl, ?_⟩
        have stop : pos + min (min dataOffset skipBufSize) (old.length - pos) = min (pos + dataOffset) old.length := by
          omega
        rwa [stop] at saving'

/-- A bottom-up file with 32 bits for each pixel and all of its pixels, which begin behind
the headers. -/
structure WellFormedBmp (bytes : List UInt8) (offset width height : Nat) : Prop where
  type : load (localBytes bytes) 0 2 = 0x4D42
  start : load (localBytes bytes) 10 4 = offset
  columns : load (localBytes bytes) 18 4 = width
  rows : load (localBytes bytes) 22 4 = height
  bpp : load (localBytes bytes) 28 2 = 32
  compression : load (localBytes bytes) 30 4 = 0
  behind : 54 ≤ offset
  wide : 0 < width ∧ width < 2 ^ 31
  high : 0 < height ∧ height < 2 ^ 31
  complete : offset + 4 * (height * width) ≤ bytes.length

/-- There are a descriptor, a block for the image and one for its pixels. -/
def Allocates (state : FsState δ) (path : List UInt8) (count : Nat) : Prop :=
  ∃ fd opened address held pixels full, fsOpen state path oRdonly = .ok (fd, opened) ∧ 0 ≤ fd ∧
    opened.allocArray bmpImageSize 1 = .ok (address, held) ∧ address ≠ 0 ∧
    held.allocArray 4 count = .ok (pixels, full) ∧ pixels ≠ 0

/-- Both headers of a well-formed file are read. -/
theorem Saving.readBmpHeaders {offset width height : Nat} (saving : Saving state slot node [] old)
    (place : fdSlot fd = some slot) (formed : WellFormedBmp old offset width height) :
    ∃ after, readBmpHeaders state fd = .ok (some (⟨0x4D42, offset⟩, ⟨width, height, 32⟩), after) ∧
      (∃ files devices, after = { state with files, devices }) ∧ Saving after slot node (old.take 54) old := by
  have long : 54 ≤ old.length := formed.behind.trans ((Nat.le_add_right _ _).trans formed.complete)
  have start : Saving state slot node (old.take 0) old := by rwa [List.take_zero]
  obtain ⟨first, reads, ⟨files, devices, rfl⟩, saving'⟩ :=
    start.readObject place (Nat.zero_le _) (show bmpFileHeaderSize < 2 ^ 63 by decide)
  have next : 0 + min bmpFileHeaderSize (old.length - 0) = 14 := by
    have size : bmpFileHeaderSize = 14 := rfl
    omega
  rw [next] at saving'
  obtain ⟨second, reads', ⟨files', devices', rfl⟩, saving''⟩ :=
    saving'.readObject place (by omega) (show bmpInfoHeaderSize < 2 ^ 63 by decide)
  have last : 14 + min bmpInfoHeaderSize (old.length - 14) = 54 := by
    have size : bmpInfoHeaderSize = 40 := rfl
    omega
  rw [last] at saving''
  refine ⟨_, ?_, ⟨files', devices', rfl⟩, saving''⟩
  have fileHeader : bmpFileHeaderOf ((old.drop 0).take bmpFileHeaderSize) = ⟨0x4D42, offset⟩ := by
    rw [bmpFileHeaderOf, localBytes_slice (by decide), localBytes_slice (by decide), formed.type, formed.start]
  have infoHeader : bmpInfoHeaderOf ((old.drop 14).take bmpInfoHeaderSize) = ⟨width, height, 32⟩ := by
    rw [bmpInfoHeaderOf, localBytes_slice (by decide), localBytes_slice (by decide), localBytes_slice (by decide),
      formed.columns, formed.rows, formed.bpp, i32_eq formed.wide.2, i32_eq formed.high.2]
  rw [if_pos (by omega)] at reads
  rw [if_pos (by omega)] at reads'
  unfold Kernix.readBmpHeaders
  rw [reads]
  simp only [bind, Except.bind, fileHeader]
  rw [if_neg (by decide), reads']
  dsimp only
  rw [infoHeader]
  rfl

/-- The picture has no more pixels than the heap has bytes. -/
theorem WellFormedBmp.count {offset width height : Nat} (valid : FsValid state blocks roles)
    (live : roles node = some .node)
    (isFile : IsFile state node) (formed : WellFormedBmp (content state node) offset width height) :
    (width : Int) * (height : Int) = (height * width : Nat) ∧ height * width < 2 ^ 31 ∧ offset < 2 ^ 32 := by
  have size := valid.size_le live isFile
  rw [← content_length] at size
  have complete := formed.complete
  have heap : kernelMemorySizeHeap < 2 ^ 31 := by decide
  exact ⟨by push_cast; ring, by omega, by omega⟩

/-- A well-formed file is prepared when there is memory for it. -/
theorem prepareImage_file {offset width height : Nat} (valid : FsValid state blocks roles)
    (leads : fsResolve state path = .ok node) (given : node ≠ 0) (isFile : IsFile state node)
    (formed : WellFormedBmp (content state node) offset width height)
    (allocates : Allocates state path (height * width)) (accepted : accepts ⟨width, height, 32⟩ = true) :
    ∃ fd address pixels ready slot,
      prepareImage accepts state path = .ok (some ⟨fd, offset, ⟨address, width, height, pixels⟩⟩, ready) ∧
      fdSlot fd = some slot ∧ Saving ready slot node ((content state node).take 54) (content state node) ∧
      ready.nodes = state.nodes ∧ ready.mnts = state.mnts := by
  obtain ⟨_, resolves, live⟩ := valid.resolve path
  cases resolves.symm.trans leads
  obtain ⟨product, few, -⟩ := formed.count valid (live given) isFile
  obtain ⟨fd, opened, address, held, pixels, full, opens, success, asks, nonzero, asks', nonzero'⟩ := allocates
  obtain ⟨slot, place, saving⟩ := fsOpen_saving valid leads given isFile opens success
  obtain ⟨nodes, mnts⟩ := (fsOpen_opened opens).tree leads given
  obtain ⟨read, reads, ⟨files, devices, rfl⟩, saving'⟩ := saving.readBmpHeaders place formed
  have second := allocArray_frame asks files devices
  have third := allocArray_frame asks' files devices
  have saving'' := (saving'.allocArray second).allocArray third
  obtain ⟨memory, rfl⟩ := allocArray_memory asks
  obtain ⟨memory', rfl⟩ := allocArray_memory asks'
  refine ⟨fd, address, pixels, _, slot, ?_, place, saving'', nodes, mnts⟩
  unfold prepareImage
  simp only [bind, Except.bind, opens, reads, second, product]
  rw [if_neg (by omega), if_neg (by simp [accepted]), if_neg nonzero, if_neg (by omega), u64OfInt_eq (by omega),
    third]
  dsimp only
  rw [if_neg nonzero']
  rfl

/-- The image has the pixels of the file from a position on, the last row first. -/
def ShowsFrom (state : FsState δ) (image : BmpImage) (bytes : List UInt8) (start width height : Nat) : Prop :=
  image.width = width ∧ image.height = height ∧ ∀ x < width, ∀ y < height,
    load state.memory (image.pixels + 4 * place width x y) 4 =
      load (localBytes bytes) (start + 4 * place width x (height - 1 - y)) 4

/-- The pixels are those that lie the offset further on, where the file has so many bytes. -/
theorem readImage_file {offset width height widest wide record : Nat} (releases : Releases release)
    (saving : Saving state slot node (old.take pos) old) (inside : pos ≤ old.length)
    (lent : Lent ((file, record) :: live) [(image.pixels, widest), (image.address, wide)]
      (Function.update fds slot file) state)
    (place : fdSlot fd = some slot) (given : file ≠ 0) (was : fds slot = 0) (address : image.address ≠ 0)
    (pixels : image.pixels ≠ 0) (columns : image.width = width) (rows : image.height = height)
    (product : (width : Int) * (height : Int) = (height * width : Nat)) (some : 0 < height * width)
    (few : height * width < 2 ^ 31) (small : offset < 2 ^ 32) :
    ∃ after, readImage release state fd offset image =
        .ok (if pos + offset + 4 * (height * width) ≤ old.length then Option.some image else none, after) ∧
      (pos + offset + 4 * (height * width) ≤ old.length → ShowsFrom after image old (pos + offset) width height) := by
  have space : addressSpace = addressSpace - 1 + 1 := rfl
  obtain ⟨skipped, skips, saving'⟩ := saving.skipBytes place inside small
    (show offset ≤ addressSpace - 1 from (Nat.le_sub_one_of_lt small).trans (by decide))
  rw [← space] at skips
  obtain ⟨read, reads, -, -⟩ := saving'.readObject place (Nat.min_le_right _ _)
    (show 4 * (height * width) < 2 ^ 63 by omega)
  obtain ⟨closed, closes, lent'⟩ := ((lent.skipBytes skips).readObject reads).close place given was
  have enough : min (pos + offset) old.length + 4 * (height * width) ≤ old.length ↔
      pos + offset + 4 * (height * width) ≤ old.length := by omega
  simp only [enough] at reads
  unfold readImage
  simp only [bind, Except.bind, skips, columns, rows, product, Int.toNat_natCast]
  rw [if_neg (by omega), reads]
  dsimp only
  rw [closes]
  by_cases whole : pos + offset + 4 * (height * width) ≤ old.length
  · simp only [if_pos whole]
    refine ⟨_, rfl, fun _ => ⟨columns, rows, fun x column y row => ?_⟩⟩
    have start : min (pos + offset) old.length = pos + offset := Nat.min_eq_left (by omega)
    have here := place_lt column (show height - 1 - y < height by omega)
    rw [copyPixels_load _ _ _ column row, start, localBytes_slice (by omega)]
  · simp only [if_neg whole]
    obtain ⟨after, frees, -⟩ := releases address pixels lent'
    rw [frees]
    exact ⟨after, rfl, fun enough => absurd enough whole⟩

section Pictures
variable {offset width height : Nat} (valid : FsValid state blocks roles) (leads : fsResolve state path = .ok node)
  (given : node ≠ 0) (isFile : IsFile state node)

include valid leads given isFile

/-- What `gui_load_bmp` shows lies 54 bytes behind the pixels. -/
theorem guiLoadBmp_file (formed : WellFormedBmp (content state node) offset width height)
    (allocates : Allocates state path (height * width)) :
    ∃ image after, guiLoadBmp state path =
        .ok (if 54 + offset + 4 * (height * width) ≤ (content state node).length then some image else none, after) ∧
      (54 + offset + 4 * (height * width) ≤ (content state node).length →
        ShowsFrom after image (content state node) (54 + offset) width height) := by
  obtain ⟨_, resolves, live⟩ := valid.resolve path
  cases resolves.symm.trans leads
  obtain ⟨product, few, small⟩ := formed.count valid (live given) isFile
  obtain ⟨fd, address, pixels, ready, slot, prepares, place, saving, -⟩ :=
    prepareImage_file valid leads given isFile formed allocates (show guiAccepts ⟨width, height, 32⟩ = true from rfl)
  rcases prepareImage_lent valid.lent prepares with ⟨none, -⟩ | ⟨prepared, slot', file, _, _, _, same, holds⟩
  · cases none
  · cases same
    cases place.symm.trans holds.place
    have long : 54 ≤ (content state node).length :=
      formed.behind.trans ((Nat.le_add_right _ _).trans formed.complete)
    obtain ⟨after, reads, shows⟩ := readImage_file guiFreeBmp_releases saving long holds.lent place holds.given holds.was
      holds.address holds.pixels rfl rfl product (Nat.mul_pos formed.high.1 formed.wide.1) few small
    refine ⟨_, after, ?_, shows⟩
    unfold guiLoadBmp
    rw [prepares]
    exact reads

/-- `load_cursor_bmp` shows the pixels when the file can be opened again. -/
theorem loadCursorBmp_file (formed : WellFormedBmp (content state node) offset 16 16)
    (allocates : Allocates state path (16 * 16)) (reopens : ¬ReopenRefused state path) :
    ∃ cursor after, loadCursorBmp state path = .ok (some cursor, after) ∧
      ShowsFrom after cursor (content state node) offset 16 16 := by
  obtain ⟨_, resolves, live⟩ := valid.resolve path
  cases resolves.symm.trans leads
  obtain ⟨product, few, small⟩ := formed.count valid (live given) isFile
  obtain ⟨fd, address, pixels, ready, slot, prepares, place, saving, nodes, mnts⟩ :=
    prepareImage_file valid leads given isFile formed allocates (show cursorAccepts ⟨16, 16, 32⟩ = true from rfl)
  rcases prepareImage_lent valid.lent prepares with ⟨none, -⟩ | ⟨prepared, slot', file, _, _, _, same, holds⟩
  · cases none
  · cases same
    obtain ⟨closed, closes, lent⟩ := holds.lent.close holds.place holds.given holds.was
    obtain ⟨nodes', mnts'⟩ := fsClose_tree closes
    have again : fsResolve closed path = .ok node :=
      (fsResolve_congr (nodes'.trans nodes) (mnts'.trans mnts) path).trans leads
    have long : 54 ≤ (content state node).length :=
      formed.behind.trans ((Nat.le_add_right _ _).trans formed.complete)
    have bytes : content closed node = content state node := by
      rw [saving.close place closes, List.length_take_of_le long, List.take_append_drop]
    have isFile' : IsFile closed node := isFile.kept (nodes'.trans nodes)
    have formed' := lent
    obtain ⟨blocks', roles', valid', -⟩ := formed'
    obtain ⟨fd', opened, opens⟩ := valid'.fsOpen_returns fun asked => absurd rfl (show oRdonly &&& oCreat ≠ 0 from asked)
    rcases lent.opens opens with ⟨failed, -⟩ | ⟨slot', file', record, rfl, was, nonzero, -, lent'⟩
    · exact absurd ⟨_, _, _, _, _, _, prepares, closes, opens, failed⟩ reopens
    · obtain ⟨slot'', place', saving'⟩ := fsOpen_saving valid' again given isFile' opens (Int.natCast_nonneg _)
      obtain rfl : slot' = slot'' := by simpa [fdSlot] using place'
      rw [bytes] at saving'
      obtain ⟨after, reads, shows⟩ := readImage_file freeCursor_releases
        (show Saving opened slot' node ((content state node).take 0) _ by rwa [List.take_zero])
          (Nat.zero_le _) lent' place'
        nonzero was holds.address holds.pixels rfl rfl product (by decide) few small
      have whole : 0 + offset + 4 * (16 * 16) ≤ (content state node).length := by
        rw [Nat.zero_add]
        exact formed.complete
      rw [if_pos whole] at reads
      refine ⟨_, after, ?_, Nat.zero_add offset ▸ shows whole⟩
      unfold loadCursorBmp
      simp only [bind, Except.bind, prepares, closes, opens]
      rw [if_neg (by omega)]
      exact reads

end Pictures

end Files

section Refusals

theorem readObject_frame {size : Nat} {result : Option (List UInt8)}
    (reads : readObject state fd size = .ok (result, after)) :
    ∃ files devices, after = { state with files, devices } := by
  unfold readObject at reads
  obtain ⟨⟨ret, buf, middle⟩, first, rest⟩ := bind_ok reads
  have frame := fsRead_frame first
  dsimp only at rest
  split at rest
  · cases rest
  · split at rest
    · cases rest
      exact frame
    · split at rest
      · cases rest
      · cases rest
        exact frame

theorem readBmpHeaders_frame {headers : Option (BmpFileHeader × BmpInfoHeader)}
    (reads : readBmpHeaders state fd = .ok (headers, after)) :
    ∃ files devices, after = { state with files, devices } := by
  unfold readBmpHeaders at reads
  obtain ⟨⟨bytes, middle⟩, first, rest⟩ := bind_ok reads
  obtain ⟨files, devices, rfl⟩ := readObject_frame first
  cases bytes with
  | none =>
    cases rest
    exact ⟨files, devices, rfl⟩
  | some bytes =>
    dsimp only at rest
    split at rest
    · cases rest
      exact ⟨files, devices, rfl⟩
    · obtain ⟨⟨bytes', last⟩, second, rest⟩ := bind_ok rest
      obtain ⟨files', devices', rfl⟩ := readObject_frame second
      cases bytes' with
      | none | some =>
        cases rest
        exact ⟨files', devices', rfl⟩

/-- What an open finds that creates nothing. -/
theorem Located.resolves {node : Nat} (located : Located state path oRdonly node after) :
    after = state ∧ fsResolve state path = .ok node := by
  cases located with
  | found resolves => exact ⟨rfl, resolves⟩
  | orphan _ asked | fixed _ asked | created _ asked => exact absurd rfl asked

/-- An image is prepared from a node that is there, and the tree stays as it was. -/
theorem prepareImage_tree {ready : PreparedImage}
    (prepares : prepareImage accepts state path = .ok (some ready, after)) :
    ∃ node, fsResolve state path = .ok node ∧ node ≠ 0 ∧ after.nodes = state.nodes ∧ after.mnts = state.mnts := by
  unfold prepareImage at prepares
  obtain ⟨⟨fd, opened⟩, opens, rest⟩ := bind_ok prepares
  have found : ∃ node, fsResolve state path = .ok node ∧ (0 ≤ fd → node ≠ 0) := by
    cases fsOpen_opened opens with
    | missing located => exact ⟨_, located.resolves.2, fun success => absurd success (by decide)⟩
    | noRecord located given | refused located given | full located given | opened located given =>
      exact ⟨_, located.resolves.2, fun _ => given⟩
  obtain ⟨node, leads, nonzero⟩ := found
  dsimp only at rest
  split at rest
  · cases rest
  next success =>
    have given := nonzero (by omega)
    obtain ⟨nodes, mnts⟩ := (fsOpen_opened opens).tree leads given
    obtain ⟨⟨headers, read⟩, reads, onward⟩ := bind_ok rest
    obtain ⟨files, devices, rfl⟩ := readBmpHeaders_frame reads
    have refuses {α : Type} {state after : FsState δ} {value : α}
        (closes : closeFailed state fd = .ok (some value, after)) : False := by
      obtain ⟨_, _, ends⟩ := bind_ok closes
      cases ends
    cases headers with
    | none => exact (refuses onward).elim
    | some headers =>
      dsimp only at onward
      split at onward
      · exact (refuses onward).elim
      · obtain ⟨⟨address, held⟩, asks, onward⟩ := bind_ok onward
        obtain ⟨memory, rfl⟩ := allocArray_memory asks
        dsimp only at onward
        split at onward
        · exact (refuses onward).elim
        · split at onward
          · cases onward
          · obtain ⟨⟨pixels, full⟩, asks', onward⟩ := bind_ok onward
            obtain ⟨memory', rfl⟩ := allocArray_memory asks'
            dsimp only at onward
            split at onward
            · obtain ⟨_, _, onward⟩ := bind_ok onward
              exact (refuses onward).elim
            · cases onward
              exact ⟨node, leads, given, nodes, mnts⟩

/-- Only a device can refuse to be opened again: for a file there are a descriptor and a
block, those that the close gave back. -/
theorem ReopenRefused.device (valid : FsValid state blocks roles) (refused : ReopenRefused state path) :
    ∃ node, fsResolve state path = .ok node ∧ (state.nodes node).ops = some .devfs := by
  obtain ⟨prepared, ready, closed, ret, fd, last, prepares, closes, opens, failed⟩ := refused
  obtain ⟨node, leads, given, nodes, mnts⟩ := prepareImage_tree prepares
  obtain ⟨nodes', mnts'⟩ := fsClose_tree closes
  have again : fsResolve closed path = .ok node :=
    (fsResolve_congr (nodes'.trans nodes) (mnts'.trans mnts) path).trans leads
  refine ⟨node, leads, ?_⟩
  rcases prepareImage_lent valid.lent prepares with ⟨none, -⟩ | ⟨prepared', slot, file, width, _, _, same, holds⟩
  · cases none
  · cases same
    obtain ⟨closed', closes', lent⟩ := holds.lent.close holds.place holds.given holds.was
    cases closes.symm.trans closes'
    obtain ⟨blocks', roles', valid', table, -, -⟩ := lent
    have opened : ready.fds slot = file := by
      obtain ⟨_, _, _, table, -, -⟩ := holds.lent
      rw [table, Function.update_self]
    have low : 3 ≤ slot.val := by
      obtain ⟨_, _, valid, -, -, -⟩ := holds.lent
      exact valid.low slot (by rw [opened]; exact holds.given)
    cases fsOpen_opened opens with
    | missing located =>
      cases located.resolves.2.symm.trans again
      exact absurd rfl given
    | noRecord located _ made =>
      obtain ⟨rfl, -⟩ := located.resolves
      have found : fsGetFile ready prepared.fd = file := by
        rw [fsGetFile, holds.place]
        exact opened
      obtain ⟨block, member, free, wide⟩ := holds.lent.close_room found holds.given closes valid'
      rcases valid'.owned.create (by decide) (by decide) made with ⟨-, -, full⟩ | ⟨_, _, allocation, -⟩
      · exact absurd ⟨free, holds.room.trans wide⟩ (full block member)
      · exact absurd rfl allocation.given
    | refused located _ creates _ denied =>
      obtain ⟨rfl, leads'⟩ := located.resolves
      cases again.symm.trans leads'
      obtain ⟨memory, -, rfl⟩ := create_ok creates
      rw [← nodes, ← nodes']
      unfold offered openNode at denied
      split at denied
      · exact absurd rfl denied
      · exact absurd rfl denied
      next device => exact device
    | full located _ creates room _ taken =>
      obtain ⟨rfl, -⟩ := located.resolves
      obtain ⟨_, _, _, _, _, _, fds, _⟩ := valid'.offers _ oRdonly creates room
      refine absurd ?_ (taken slot low)
      rw [fds, table]
      exact holds.was
    | opened => exact absurd failed (by omega)

end Refusals

/-- The bytes that lie 54 further on are the pixels once more. -/
def PixelsRepeated (bytes : List UInt8) (offset count : Nat) : Prop :=
  (bytes.drop (54 + offset)).take count = (bytes.drop offset).take count

/-- A file that repeats its pixels has the bytes for it. -/
theorem PixelsRepeated.whole {bytes : List UInt8} {offset count : Nat} (repeats : PixelsRepeated bytes offset count)
    (complete : offset + count ≤ bytes.length) (some : 0 < count) : 54 + offset + count ≤ bytes.length := by
  have lengths := congrArg List.length repeats
  simp only [List.length_take, List.length_drop] at lengths
  omega

/-- What lies 54 bytes further on shows the pixels exactly when it repeats them. -/
theorem ShowsFrom.repeated_iff {bytes : List UInt8} {offset width height : Nat}
    (shows : ShowsFrom state image bytes (54 + offset) width height)
    (whole : 54 + offset + 4 * (height * width) ≤ bytes.length) :
    ShowsFrom state image bytes offset width height ↔ PixelsRepeated bytes offset (4 * (height * width)) := by
  obtain ⟨columns, rows, pixels⟩ := shows
  have pictures : ShowsFrom state image bytes offset width height ↔ ∀ index < height * width,
      load (localBytes bytes) (54 + offset + 4 * index) 4 = load (localBytes bytes) (offset + 4 * index) 4 := by
    rw [← flipped_iff]
    constructor
    · rintro ⟨-, -, right⟩ x column y row
      exact (pixels x column y row).symm.trans (right x column y row)
    · exact fun same => ⟨columns, rows, fun x column y row => (pixels x column y row).trans (same x column y row)⟩
  rw [pictures, words_iff, PixelsRepeated]
  constructor
  · intro same
    apply List.ext_getElem
    · simp only [List.length_take, List.length_drop]
      omega
    · intro place inside inside'
      have small : place < 4 * (height * width) := Nat.lt_of_lt_of_le inside (List.length_take_le _ _)
      have byte := same place small
      simp only [localBytes] at byte
      rw [List.getD_eq_getElem _ _ (by omega), List.getD_eq_getElem _ _ (by omega)] at byte
      simpa using byte
  · intro same place small
    have byte := congrArg (fun part => part.getD place 0) same
    simp only [List.getD_eq_getElem?_getD, List.getElem?_take_of_lt small, List.getElem?_drop] at byte
    exact byte

/-- What the two loaders are for. -/
structure BitmapsLoaded (state : FsState δ) (path : List UInt8) : Prop where
  /-- A well-formed file is shown when there is memory for it. -/
  loads : ∀ node offset width height, fsResolve state path = .ok node → node ≠ 0 → IsFile state node →
    WellFormedBmp (content state node) offset width height → Allocates state path (height * width) →
      ∃ image after, guiLoadBmp state path = .ok (some image, after) ∧
        ShowsFrom after image (content state node) offset width height
  /-- A cursor is shown alike by both. -/
  alike : ∀ node offset, fsResolve state path = .ok node → node ≠ 0 → IsFile state node →
    WellFormedBmp (content state node) offset 16 16 → Allocates state path (16 * 16) →
      ∃ image after cursor after', guiLoadBmp state path = .ok (some image, after) ∧
        loadCursorBmp state path = .ok (some cursor, after') ∧
          ∀ x < 16, ∀ y < 16, load after.memory (image.pixels + 4 * place 16 x y) 4 =
            load after'.memory (cursor.pixels + 4 * place 16 x y) 4
  /-- Nothing is lost when they fail. -/
  gui : ∀ after, guiLoadBmp state path = .ok (none, after) → SameHoldings state after
  cursor : ∀ after, loadCursorBmp state path = .ok (none, after) → SameHoldings state after

/-- The loaders are right exactly when the well-formed files repeat their pixels 54 bytes
further on, and the file can be opened again. -/
theorem bitmaps_loaded_iff (reached : FsReachable state) (path : List UInt8) :
    BitmapsLoaded state path ↔
      (∀ node offset width height, fsResolve state path = .ok node → node ≠ 0 → IsFile state node →
        WellFormedBmp (content state node) offset width height → Allocates state path (height * width) →
          PixelsRepeated (content state node) offset (4 * (height * width))) ∧ ¬ReopenRefused state path := by
  obtain ⟨blocks, roles, valid⟩ := fs_reachable_wellFormed reached
  constructor
  · intro right
    refine ⟨fun node offset width height leads given isFile formed allocates => ?_, fun refused => ?_⟩
    · obtain ⟨image, after, loads, shows⟩ := right.loads node offset width height leads given isFile formed allocates
      obtain ⟨image', after', loads', shows'⟩ := guiLoadBmp_file valid leads given isFile formed allocates
      have same := Except.ok.inj (loads'.symm.trans loads)
      by_cases whole : 54 + offset + 4 * (height * width) ≤ (content state node).length
      · rw [if_pos whole] at same
        cases same
        exact ((shows' whole).repeated_iff whole).mp shows
      · rw [if_neg whole] at same
        cases same
    · obtain ⟨prepared, ready, closed, ret, fd, last, prepares, closes, opens, failed⟩ := refused
      have loads : loadCursorBmp state path = .ok (none, last) := by
        unfold loadCursorBmp
        simp only [bind, Except.bind, prepares, closes, opens, if_pos failed]
        rfl
      exact (loadCursorBmp_balanced_iff valid loads).mp (right.cursor last loads)
        ⟨prepared, ready, closed, ret, fd, last, prepares, closes, opens, failed⟩
  · rintro ⟨repeats, reopens⟩
    have loads {node offset width height : Nat} (leads : fsResolve state path = .ok node) (given : node ≠ 0)
        (isFile : IsFile state node) (formed : WellFormedBmp (content state node) offset width height)
        (allocates : Allocates state path (height * width)) : ∃ image after,
          guiLoadBmp state path = .ok (some image, after) ∧
            ShowsFrom after image (content state node) offset width height := by
      obtain ⟨image, after, loads, shows⟩ := guiLoadBmp_file valid leads given isFile formed allocates
      have again := repeats node offset width height leads given isFile formed allocates
      have whole := again.whole formed.complete
        (Nat.mul_pos (by decide) (Nat.mul_pos formed.high.1 formed.wide.1))
      rw [if_pos whole] at loads
      exact ⟨image, after, loads, ((shows whole).repeated_iff whole).mpr again⟩
    refine ⟨fun _ _ _ _ leads given isFile formed allocates => loads leads given isFile formed allocates, ?_,
      fun after => guiLoadBmp_balanced valid, fun after result => (loadCursorBmp_balanced_iff valid result).mpr reopens⟩
    intro node offset leads given isFile formed allocates
    obtain ⟨image, after, loads, -, -, shows⟩ := loads leads given isFile formed allocates
    obtain ⟨cursor, after', loads', -, -, shows'⟩ :=
      loadCursorBmp_file valid leads given isFile formed allocates reopens
    exact ⟨image, after, cursor, after', loads, loads',
      fun x column y row => (shows x column y row).trans (shows' x column y row).symm⟩

/-- The file of a picture of one pixel, whose headers are followed by the bytes. -/
private def onePixel (rest : List UInt8) : List UInt8 :=
  [0x42, 0x4D, 58, 0, 0, 0, 0, 0, 0, 0, 54, 0, 0, 0, 40, 0, 0, 0, 1, 0, 0, 0, 1, 0, 0, 0, 1, 0, 32, 0, 0, 0, 0, 0] ++
    List.replicate 20 0 ++ rest

private theorem onePixel_formed {bytes : List UInt8}
    (fields : load (localBytes bytes) 0 2 = 0x4D42 ∧ load (localBytes bytes) 10 4 = 54 ∧
      load (localBytes bytes) 18 4 = 1 ∧ load (localBytes bytes) 22 4 = 1 ∧ load (localBytes bytes) 28 2 = 32 ∧
      load (localBytes bytes) 30 4 = 0 ∧ 58 ≤ bytes.length) : WellFormedBmp bytes 54 1 1 := by
  obtain ⟨type, start, columns, rows, bpp, compression, complete⟩ := fields
  exact ⟨type, start, columns, rows, bpp, compression, Nat.le_refl _, by decide, by decide, complete⟩

private def picture : List UInt8 := literal "/picture.bmp"

private def allocatesOne (state : FsState Unit) : Bool :=
  match fsOpen state picture oRdonly with
  | .ok (fd, opened) =>
    match opened.allocArray bmpImageSize 1 with
    | .ok (address, held) =>
      match held.allocArray 4 1 with
      | .ok (pixels, _) => 0 ≤ fd && address ≠ 0 && pixels ≠ 0
      | .error _ => false
    | .error _ => false
  | .error _ => false

private theorem one_allocated {state : FsState Unit} (allocates : allocatesOne state = true) :
    Allocates state picture (1 * 1) := by
  unfold allocatesOne at allocates
  split at allocates
  next fd opened opens =>
    split at allocates
    next address held asks =>
      split at allocates
      next pixels full asks' =>
        simp only [Bool.and_eq_true, decide_eq_true_eq] at allocates
        obtain ⟨⟨success, given⟩, given'⟩ := allocates
        exact ⟨fd, opened, address, held, pixels, full, opens, success, asks, given, asks', given'⟩
      next => cases allocates
    next => cases allocates
  next => cases allocates

private def noCursor (state : FsState Unit) : Bool :=
  match prepareImage cursorAccepts state picture with
  | .ok (none, _) => true
  | _ => false

/-- A file that repeats its pixel is shown. -/
theorem bitmaps_loaded_iff_repeated : ∃ (state : FsState Unit) (node : Nat), FsReachable state ∧
    fsResolve state picture = .ok node ∧ WellFormedBmp (content state node) 54 1 1 ∧ BitmapsLoaded state picture := by
  obtain ⟨state, node, reached, leads, given, isFile, same, checked⟩ := file_held (show rootedFs.any (fun start =>
    (runCalls start (fileCalls picture (onePixel (List.replicate 58 0)))).any fun state =>
      fileHolds picture (onePixel (List.replicate 58 0)) state && noCursor state) = true by decide +kernel)
  refine ⟨state, node, reached, leads, onePixel_formed (by rw [same]; decide +kernel),
    (bitmaps_loaded_iff reached picture).mpr ⟨?_, ?_⟩⟩
  · intro node' offset width height leads' _ _ formed _
    cases leads.symm.trans leads'
    rw [same] at formed ⊢
    obtain rfl : offset = 54 := formed.start.symm
    obtain rfl : width = 1 := formed.columns.symm
    obtain rfl : height = 1 := formed.rows.symm
    unfold PixelsRepeated
    decide
  · rintro ⟨_, _, _, _, _, _, prepares, -⟩
    unfold noCursor at checked
    rw [prepares] at checked
    cases checked

/-- A file that ends with its pixel is taken for one that is too short. -/
theorem bitmaps_loaded_fails : ¬∀ (state : FsState Unit) (path : List UInt8),
    FsReachable state → BitmapsLoaded state path := by
  intro right
  obtain ⟨state, node, reached, leads, given, isFile, same, checked⟩ := file_held (show rootedFs.any (fun start =>
    (runCalls start (fileCalls picture (onePixel [0x10, 0x20, 0x30, 0xFF]))).any fun state =>
      fileHolds picture (onePixel [0x10, 0x20, 0x30, 0xFF]) state && allocatesOne state) = true by decide +kernel)
  have formed : WellFormedBmp (content state node) 54 1 1 := onePixel_formed (by rw [same]; decide +kernel)
  have allocates := one_allocated checked
  obtain ⟨blocks, roles, valid⟩ := fs_reachable_wellFormed reached
  obtain ⟨image, after, loads, -⟩ :=
    (right state picture reached).loads node 54 1 1 leads given isFile formed allocates
  obtain ⟨image', after', loads', -⟩ := guiLoadBmp_file valid leads given isFile formed allocates
  rw [if_neg (by rw [same]; decide)] at loads'
  cases loads.symm.trans loads'

end Kernix.Proofs
