import Kernix.Proofs.ServedCalls

/-! The loops of `ext4_read` and `ext4_write`, pass by pass. Both add what they have done to
the pointer and to the index behind it, so the second pass works at twice the distance. -/

namespace Kernix.Proofs
open ByteMemory

variable {δ : Type}

/-- How a pass ends: there is nothing left to do, the call fails, or some bytes were moved. -/
inductive Pass (δ : Type) where
  | ends
  | fails (after : Ext4State δ)
  | moves (count : Nat) (bytes : Memory) (next : Ext4State δ)

/-- One pass of the loop of `ext4_read`. -/
def readPass (address file : Nat) (inode : Ext4Inode) (cnt : Nat) (state : Ext4State δ) : Except Stop (Pass δ) :=
  if cnt = 0 then .ok .ends
  else do
    let data := state.datas address
    let current := state.fs.files file
    if data.blockSize = 0 then throw .undefined
    let block ← ext4GetBlockFromExtents inode (current.pos / data.blockSize)
    if block = 0 then return .ends
    let offset := current.pos % data.blockSize
    let toRead := min (data.blockSize - offset) cnt
    let (blockBuf, state) ← state.alloc data.blockSize
    if blockBuf = 0 then return .fails state
    let result ← ext4ReadBlock state.disk data block
    let state := { state with disk := result.disk }
    if result.ret < 0 then
      let state ← state.free blockBuf
      return .fails state
    let state ← state.free blockBuf
    let fs := state.fs.setFile file { current with pos := u64 (current.pos + toRead) }
    return .moves toRead (fun i => result.bytes (offset + i)) { state with fs }

/-- One pass of the loop of `ext4_write`, with the bytes from the index on. -/
def writePass (address file : Nat) (inode : Ext4Inode) (cnt : Nat) (bytes : Memory) (state : Ext4State δ) :
    Except Stop (Pass δ) :=
  if cnt = 0 then .ok .ends
  else do
    let data := state.datas address
    let current := state.fs.files file
    if data.blockSize = 0 then throw .undefined
    let block ← ext4GetBlockFromExtents inode (current.pos / data.blockSize)
    if block = 0 then return .ends
    let offset := current.pos % data.blockSize
    let toWrite := min (data.blockSize - offset) cnt
    let (blockBuf, state) ← state.alloc data.blockSize
    if blockBuf = 0 then return .fails state
    let result ← ext4ReadBlock state.disk data block
    let state := { state with disk := result.disk }
    if result.ret < 0 then
      let state ← state.free blockBuf
      return .fails state
    let (ret, disk) ← ext4WriteBlock state.disk data block (copy result.bytes offset toWrite bytes)
    let state ← { state with disk }.free blockBuf
    if ret < 0 then return .fails state
    let fs := state.fs.setFile file { current with pos := u64 (current.pos + toWrite) }
    return .moves toWrite result.bytes { state with fs }

theorem readLoop_pass (address file : Nat) (inode : Ext4Inode) (fuel cnt read base : Nat) (buf : Memory) (state : Ext4State δ) :
    readLoop address file inode (fuel + 1) cnt read base buf state = (do
      match ← readPass address file inode cnt state with
      | .ends => return (i64 read, buf, state)
      | .fails after => return (-1, buf, after)
      | .moves count bytes next =>
        readLoop address file inode fuel (cnt - count) (read + count) (base + count) (copy buf (base + read) count bytes) next) := by
  unfold readPass
  rw [readLoop]
  split
  next => rfl
  next =>
    dsimp only [bind, Except.bind]
    split
    next => rfl
    next =>
      cases ext4GetBlockFromExtents inode ((state.fs.files file).pos / (state.datas address).blockSize) with
      | error stop => rfl
      | ok block =>
        dsimp only
        split
        next => rfl
        next =>
          cases state.alloc (state.datas address).blockSize with
          | error stop => rfl
          | ok given =>
            dsimp only
            split
            next => rfl
            next =>
              cases ext4ReadBlock given.2.disk (state.datas address) block with
              | error stop => rfl
              | ok result =>
                dsimp only
                split
                next =>
                  cases Ext4State.free { given.2 with disk := result.disk } given.1 with
                  | error stop => rfl
                  | ok freed => rfl
                next =>
                  cases Ext4State.free { given.2 with disk := result.disk } given.1 with
                  | error stop => rfl
                  | ok freed => rfl

theorem writeLoop_pass (address file : Nat) (inode : Ext4Inode) (buf : Memory) (fuel cnt written base : Nat) (state : Ext4State δ) :
    writeLoop address file inode buf (fuel + 1) cnt written base state = (do
      match ← writePass address file inode cnt (fun i => buf (base + written + i)) state with
      | .ends => return (some written, state)
      | .fails after => return (none, after)
      | .moves count _ next => writeLoop address file inode buf fuel (cnt - count) (written + count) (base + count) next) := by
  unfold writePass
  rw [writeLoop]
  split
  next => rfl
  next =>
    dsimp only [bind, Except.bind]
    split
    next => rfl
    next =>
      cases ext4GetBlockFromExtents inode ((state.fs.files file).pos / (state.datas address).blockSize) with
      | error stop => rfl
      | ok block =>
        dsimp only
        split
        next => rfl
        next =>
          cases state.alloc (state.datas address).blockSize with
          | error stop => rfl
          | ok given =>
            dsimp only
            split
            next => rfl
            next =>
              cases ext4ReadBlock given.2.disk (state.datas address) block with
              | error stop => rfl
              | ok result =>
                dsimp only
                split
                next =>
                  cases Ext4State.free { given.2 with disk := result.disk } given.1 with
                  | error stop => rfl
                  | ok freed => rfl
                next =>
                  cases ext4WriteBlock result.disk (state.datas address) block
                    (copy result.bytes ((state.fs.files file).pos % (state.datas address).blockSize)
                      (min ((state.datas address).blockSize - (state.fs.files file).pos % (state.datas address).blockSize) cnt)
                      fun i => buf (base + written + i)) with
                  | error stop => rfl
                  | ok wrote =>
                    dsimp only
                    cases Ext4State.free { given.2 with disk := wrote.2 } given.1 with
                    | error stop => rfl
                    | ok freed =>
                      dsimp only
                      split <;> rfl

private theorem setFile_file (state : FsState δ) (address : Nat) (file : FsFile) : (state.setFile address file).files address = file :=
  @Function.update_self Nat (fun _ => FsFile) _ address file state.files

/-- What every pass that moves bytes has in common: the piece of the file that it is about. -/
structure Piece (before : Ext4State δ) (address file : Nat) (inode : Ext4Inode) (cnt count block : Nat) (next : Ext4State δ) :
    Prop where
  asked : cnt ≠ 0
  sized : 0 < (before.datas address).blockSize
  found : ext4GetBlockFromExtents inode ((before.fs.files file).pos / (before.datas address).blockSize) = .ok block
  given : block ≠ 0
  counted : count = min ((before.datas address).blockSize - (before.fs.files file).pos % (before.datas address).blockSize) cnt
  datas : next.datas = before.datas
  inodes : next.inodes = before.inodes
  position : (next.fs.files file).pos = u64 ((before.fs.files file).pos + count)

/-- A pass has something to do, and it stays inside its block. -/
theorem Piece.fits {before next : Ext4State δ} {address file cnt count block : Nat} {inode : Ext4Inode}
    (piece : Piece before address file inode cnt count block next) : 0 < count ∧ count ≤ cnt ∧
      (before.fs.files file).pos % (before.datas address).blockSize + count ≤ (before.datas address).blockSize := by
  have asked := piece.asked
  have counted := piece.counted
  have offset := Nat.mod_lt (before.fs.files file).pos piece.sized
  omega

theorem readPass_ends {before : Ext4State δ} {address file cnt : Nat} {inode : Ext4Inode}
    (result : readPass address file inode cnt before = .ok .ends) :
    cnt = 0 ∨ ext4GetBlockFromExtents inode ((before.fs.files file).pos / (before.datas address).blockSize) = .ok 0 := by
  unfold readPass at result
  split at result
  next none => exact Or.inl none
  next =>
    dsimp only at result
    split at result
    next => cases result
    obtain ⟨block, found, result⟩ := bind_ok result
    split at result
    next hole => exact Or.inr (hole ▸ found)
    obtain ⟨⟨buf, held⟩, _, result⟩ := bind_ok result
    dsimp only at result
    split at result
    next => cases result
    obtain ⟨read, _, result⟩ := bind_ok result
    split at result
    next =>
      obtain ⟨_, _, result⟩ := bind_ok result
      cases result
    next =>
      obtain ⟨_, _, result⟩ := bind_ok result
      cases result

theorem readPass_moves {before next : Ext4State δ} {address file cnt count : Nat} {inode : Ext4Inode} {bytes : Memory}
    (formatted : Formatted (before.datas address)) (result : readPass address file inode cnt before = .ok (.moves count bytes next)) :
    ∃ block, Piece before address file inode cnt count block next ∧ SameContents before.disk next.disk ∧
      ∀ i < count, bytes i = byteAt before.disk
        (blockPlace before.disk (before.datas address) block ((before.fs.files file).pos % (before.datas address).blockSize + i)) := by
  unfold readPass at result
  split at result
  next => cases result
  next asked =>
    dsimp only at result
    split at result
    next => cases result
    next sized =>
    obtain ⟨block, found, result⟩ := bind_ok result
    split at result
    next => cases result
    next given =>
    obtain ⟨⟨buf, held⟩, allocated, result⟩ := bind_ok result
    dsimp only at result
    split at result
    next => cases result
    obtain ⟨read, reads, result⟩ := bind_ok result
    obtain ⟨memory, _, rfl⟩ := alloc_ok allocated
    obtain ⟨contents, either, success⟩ := ext4ReadBlock_spec formatted reads
    split at result
    next =>
      obtain ⟨_, _, result⟩ := bind_ok result
      cases result
    next fine =>
      have success := (success (returned_zero either fine)).2
      obtain ⟨freed, frees, result⟩ := bind_ok result
      obtain ⟨memory', _, rfl⟩ := ext4Free_ok frees
      cases result
      have offset := Nat.mod_lt (before.fs.files file).pos (Nat.pos_of_ne_zero sized)
      refine ⟨block, ⟨asked, Nat.pos_of_ne_zero sized, found, given, rfl, rfl, rfl, ?_⟩, contents, fun i inside => success _ (by omega)⟩
      exact congrArg FsFile.pos (setFile_file _ _ _)

theorem writePass_ends {before : Ext4State δ} {address file cnt : Nat} {inode : Ext4Inode} {chunk : Memory}
    (result : writePass address file inode cnt chunk before = .ok .ends) :
    cnt = 0 ∨ ext4GetBlockFromExtents inode ((before.fs.files file).pos / (before.datas address).blockSize) = .ok 0 := by
  unfold writePass at result
  split at result
  next none => exact Or.inl none
  next =>
    dsimp only at result
    split at result
    next => cases result
    obtain ⟨block, found, result⟩ := bind_ok result
    split at result
    next hole => exact Or.inr (hole ▸ found)
    obtain ⟨⟨buf, held⟩, _, result⟩ := bind_ok result
    dsimp only at result
    split at result
    next => cases result
    obtain ⟨read, _, result⟩ := bind_ok result
    split at result
    next =>
      obtain ⟨_, _, result⟩ := bind_ok result
      cases result
    next =>
      obtain ⟨_, _, result⟩ := bind_ok result
      obtain ⟨_, _, result⟩ := bind_ok result
      split at result
      next => cases result
      next => cases result

/-- The bytes of the piece are on the disk, and nothing else has changed there. -/
theorem writePass_moves {before next : Ext4State δ} {address file cnt count : Nat} {inode : Ext4Inode} {chunk bytes : Memory}
    (formatted : Formatted (before.datas address)) (result : writePass address file inode cnt chunk before = .ok (.moves count bytes next)) :
    ∃ block, Piece before address file inode cnt count block next ∧ SameLayout before.disk next.disk ∧
      (∀ i < count, byteAt next.disk (blockPlace before.disk (before.datas address) block
        ((before.fs.files file).pos % (before.datas address).blockSize + i)) = chunk i) ∧
      ∀ place, (∀ i < count, place ≠ blockPlace before.disk (before.datas address) block
        ((before.fs.files file).pos % (before.datas address).blockSize + i)) → byteAt next.disk place = byteAt before.disk place := by
  unfold writePass at result
  split at result
  next => cases result
  next asked =>
    dsimp only at result
    split at result
    next => cases result
    next sized =>
    obtain ⟨block, found, result⟩ := bind_ok result
    split at result
    next => cases result
    next given =>
    obtain ⟨⟨buf, held⟩, allocated, result⟩ := bind_ok result
    dsimp only at result
    split at result
    next => cases result
    obtain ⟨read, reads, result⟩ := bind_ok result
    obtain ⟨memory, _, rfl⟩ := alloc_ok allocated
    obtain ⟨contents, either, success⟩ := ext4ReadBlock_spec formatted reads
    split at result
    next =>
      obtain ⟨_, _, result⟩ := bind_ok result
      cases result
    next fine =>
      have success := (success (returned_zero either fine)).2
      obtain ⟨⟨ret, disk⟩, writes, result⟩ := bind_ok result
      obtain ⟨layout, either', frame, stored⟩ := ext4WriteBlock_spec formatted writes
      obtain ⟨freed, frees, result⟩ := bind_ok result
      obtain ⟨memory', _, rfl⟩ := ext4Free_ok frees
      split at result
      next => cases result
      next done =>
        have stored := stored (returned_zero either' done)
        cases result
        have offset := Nat.mod_lt (before.fs.files file).pos (Nat.pos_of_ne_zero sized)
        refine ⟨block, ⟨asked, Nat.pos_of_ne_zero sized, found, given, rfl, rfl, rfl, ?_⟩, contents.layout.trans layout,
          fun i inside => ?_, fun place apart => ?_⟩
        · exact congrArg FsFile.pos (setFile_file _ _ _)
        · have lies := stored ((before.fs.files file).pos % (before.datas address).blockSize + i) (by omega)
          rw [contents.layout.blockPlace] at lies
          exact lies.trans (copy_inside _ _ _ inside)
        · by_cases outside : ∀ i < (before.datas address).blockSize, place ≠ blockPlace before.disk (before.datas address) block i
          · exact (frame place fun i within => by rw [contents.layout.blockPlace]; exact outside i within).trans (contents.bytes place)
          · push Not at outside
            obtain ⟨i, within, rfl⟩ := outside
            have lies := stored i within
            rw [contents.layout.blockPlace] at lies
            refine lies.trans ((copy_confined _ _ _ _ i ?_).trans (success i within))
            by_contra covered
            refine apart (i - (before.fs.files file).pos % (before.datas address).blockSize) (by omega) ?_
            rw [Nat.add_sub_cancel' (by omega)]

section Reading
variable {address file fuel cnt read base : Nat} {inode : Ext4Inode} {buf buf' : Memory} {n : Int} {before after : Ext4State δ}

/-- What lies in front of the place for the next bytes stays. -/
private theorem readLoop_front (result : readLoop address file inode fuel cnt read base buf before = .ok (n, buf', after)) :
    ∀ j < base + read, buf' j = buf j := by
  induction fuel generalizing cnt read base buf before with
  | zero => cases result
  | succ fuel ih =>
    rw [readLoop_pass] at result
    obtain ⟨pass, _, rest⟩ := bind_ok result
    intro j early
    cases pass with
    | ends =>
      cases rest
      rfl
    | fails =>
      cases rest
      rfl
    | moves count bytes next =>
      rw [ih rest j (by omega), copy_confined buf (base + read) count bytes j (Or.inl early)]

/-- The course of the loop does not depend on what the buffer holds. -/
theorem readLoop_others (result : readLoop address file inode fuel cnt read base buf before = .ok (n, buf', after))
    (other : Memory) : ∃ other', readLoop address file inode fuel cnt read base other before = .ok (n, other', after) := by
  induction fuel generalizing cnt read base buf before other with
  | zero => cases result
  | succ fuel ih =>
    rw [readLoop_pass] at result ⊢
    obtain ⟨pass, passes, rest⟩ := bind_ok result
    rw [passes]
    cases pass with
    | ends =>
      cases rest
      exact ⟨other, rfl⟩
    | fails =>
      cases rest
      exact ⟨other, rfl⟩
    | moves count bytes next => exact ih rest _

/-- What a loop that does not fail counts. -/
private theorem readLoop_counts (formatted : Formatted (before.datas address))
    (result : readLoop address file inode fuel cnt read base buf before = .ok (n, buf', after)) :
    n = -1 ∨ ∃ total, n = i64 total ∧ read ≤ total ∧ total ≤ read + cnt := by
  induction fuel generalizing cnt read base buf before with
  | zero => cases result
  | succ fuel ih =>
    rw [readLoop_pass] at result
    obtain ⟨pass, passes, rest⟩ := bind_ok result
    cases pass with
    | ends =>
      cases rest
      exact Or.inr ⟨read, rfl, Nat.le_refl _, Nat.le_add_right _ _⟩
    | fails =>
      cases rest
      exact Or.inl rfl
    | moves count bytes next =>
      obtain ⟨block, piece, _⟩ := readPass_moves formatted passes
      have fits := piece.fits
      rcases ih (piece.datas ▸ formatted) rest with failed | ⟨total, counted, low, high⟩
      · exact Or.inl failed
      · exact Or.inr ⟨total, counted, by omega, by omega⟩

end Reading

/-- A byte of a file, as the inode finds it on a disk. -/
def FileByte (disk : Disk) (data : Ext4Data) (inode : Ext4Inode) (position : Nat) (value : UInt8) : Prop :=
  ∃ block, ext4GetBlockFromExtents inode (position / data.blockSize) = .ok block ∧
    byteAt disk (blockPlace disk data block (position % data.blockSize)) = value

theorem FileByte.unique {disk : Disk} {data : Ext4Data} {inode : Ext4Inode} {position : Nat} {first second : UInt8}
    (one : FileByte disk data inode position first) (two : FileByte disk data inode position second) : first = second := by
  obtain ⟨block, found, lies⟩ := one
  obtain ⟨block', found', lies'⟩ := two
  cases found.symm.trans found'
  exact lies.symm.trans lies'

/-- A request that one pass serves: it does not leave its block, or a hole ends it there. -/
def OneChunk (data : Ext4Data) (inode : Ext4Inode) (pos cnt : Nat) : Prop :=
  cnt ≤ data.blockSize - pos % data.blockSize ∨ ext4GetBlockFromExtents inode (pos / data.blockSize) = .ok 0 ∨
    ext4GetBlockFromExtents inode (u64 (pos + (data.blockSize - pos % data.blockSize)) / data.blockSize) = .ok 0

/-- The bytes of a piece are bytes of the file. -/
private theorem Piece.place {before next : Ext4State δ} {address file cnt count block i : Nat} {inode : Ext4Inode}
    (piece : Piece before address file inode cnt count block next) (inside : i < count) :
    ((before.fs.files file).pos + i) / (before.datas address).blockSize =
        (before.fs.files file).pos / (before.datas address).blockSize ∧
      ((before.fs.files file).pos + i) % (before.datas address).blockSize =
        (before.fs.files file).pos % (before.datas address).blockSize + i := by
  have fits := piece.fits
  have whole := Nat.mod_add_div (before.fs.files file).pos (before.datas address).blockSize
  exact (Nat.div_mod_unique piece.sized).mpr ⟨by omega, by omega⟩

/-- After the only pass of a request there is nothing left to do. -/
private theorem OneChunk.done {before next : Ext4State δ} {address file cnt count block : Nat} {inode : Ext4Inode}
    (one : OneChunk (before.datas address) inode (before.fs.files file).pos cnt)
    (piece : Piece before address file inode cnt count block next) {count' block' : Nat} {next' : Ext4State δ}
    (again : Piece next address file inode (cnt - count) count' block' next') : False := by
  have more := again.asked
  have counted := piece.counted
  have found := again.found
  rw [piece.datas, piece.position] at found
  rcases one with short | hole | hole
  · omega
  · cases piece.found.symm.trans hole
    exact piece.given rfl
  · rw [show count = (before.datas address).blockSize - (before.fs.files file).pos % (before.datas address).blockSize by omega] at found
    cases found.symm.trans hole
    exact again.given rfl

theorem i64_counted {value : Nat} (small : value < 2 ^ 64) (counted : 0 ≤ i64 value) : i64 value = value := by
  unfold i64 at counted ⊢
  split at counted
  next fits => rw [if_pos fits]
  next => omega

/-- A request of one chunk gets the bytes of the file, and nothing else of the buffer changes. -/
theorem readLoop_one {address file fuel cnt : Nat} {inode : Ext4Inode} {buf buf' : Memory} {n : Int}
    {before after : Ext4State δ} (formatted : Formatted (before.datas address)) (sized : cnt < 2 ^ 64)
    (one : OneChunk (before.datas address) inode (before.fs.files file).pos cnt)
    (result : readLoop address file inode fuel cnt 0 0 buf before = .ok (n, buf', after)) (counted : 0 ≤ n) :
    (∀ i : Nat, (i : Int) < n → FileByte before.disk (before.datas address) inode ((before.fs.files file).pos + i) (buf' i)) ∧
      ∀ i, cnt ≤ i → buf' i = buf i := by
  cases fuel with
  | zero => cases result
  | succ fuel =>
    rw [readLoop_pass] at result
    obtain ⟨pass, passes, rest⟩ := bind_ok result
    cases pass with
    | ends =>
      cases rest
      exact ⟨fun i few => absurd few (by simp [i64]), fun i _ => rfl⟩
    | fails =>
      cases rest
      exact absurd counted (by decide)
    | moves count bytes next =>
      obtain ⟨block, piece, contents, lies⟩ := readPass_moves formatted passes
      have fits := piece.fits
      cases fuel with
      | zero => cases rest
      | succ fuel =>
        dsimp only at rest
        rw [readLoop_pass] at rest
        obtain ⟨pass', passes', rest⟩ := bind_ok rest
        cases pass' with
        | ends =>
          cases rest
          simp only [Nat.zero_add] at counted ⊢
          rw [i64_counted (by omega) counted]
          refine ⟨fun i few => ?_, fun i late => copy_confined buf 0 count bytes i (Or.inr (by omega))⟩
          have inside : i < count := by omega
          have byte := copy_inside buf 0 bytes inside
          rw [Nat.zero_add] at byte
          obtain ⟨quotient, remainder⟩ := piece.place inside
          exact ⟨block, by rw [quotient]; exact piece.found, by rw [remainder, byte, lies i inside]⟩
        | fails =>
          cases rest
          exact absurd counted (by decide)
        | moves count' bytes' next' =>
          obtain ⟨block', again, _⟩ := readPass_moves (piece.datas ▸ formatted) passes'
          exact (one.done piece again).elim

/-- A request of several chunks leaves a byte behind the first chunk as it was. -/
theorem readLoop_several {address file fuel cnt : Nat} {inode : Ext4Inode} {buf buf' : Memory} {n : Int}
    {before after : Ext4State δ} (formatted : Formatted (before.datas address)) (sized : cnt < 2 ^ 64)
    (several : ¬OneChunk (before.datas address) inode (before.fs.files file).pos cnt)
    (result : readLoop address file inode fuel cnt 0 0 buf before = .ok (n, buf', after)) (counted : 0 ≤ n) :
    let gap := (before.datas address).blockSize - (before.fs.files file).pos % (before.datas address).blockSize
    (gap : Int) < n ∧ buf' gap = buf gap := by
  intro gap
  unfold OneChunk at several
  push Not at several
  obtain ⟨long, covered, onward⟩ := several
  cases fuel with
  | zero => cases result
  | succ fuel =>
    rw [readLoop_pass] at result
    obtain ⟨pass, passes, rest⟩ := bind_ok result
    cases pass with
    | ends =>
      rcases readPass_ends passes with none | hole
      · omega
      · exact (covered hole).elim
    | fails =>
      cases rest
      exact absurd counted (by decide)
    | moves count bytes next =>
      obtain ⟨block, piece, _⟩ := readPass_moves formatted passes
      have fits := piece.fits
      have whole := piece.counted
      have formatted' : Formatted (next.datas address) := piece.datas ▸ formatted
      cases fuel with
      | zero => cases rest
      | succ fuel =>
        dsimp only at rest
        rw [readLoop_pass] at rest
        obtain ⟨pass', passes', rest⟩ := bind_ok rest
        cases pass' with
        | ends =>
          rcases readPass_ends passes' with none | hole
          · omega
          · rw [piece.datas, piece.position, whole, Nat.min_eq_left (by omega)] at hole
            exact (onward hole).elim
        | fails =>
          cases rest
          exact absurd counted (by decide)
        | moves count' bytes' next' =>
          obtain ⟨block', again, _⟩ := readPass_moves formatted' passes'
          have fits' := again.fits
          have front := readLoop_front rest count (by omega)
          rw [copy_confined _ _ _ _ count (Or.inl (by omega)), copy_confined _ _ _ _ count (Or.inr (by omega))] at front
          have here : gap = count := by omega
          rw [here]
          refine ⟨?_, front⟩
          rcases readLoop_counts (again.datas ▸ formatted') rest with failed | ⟨total, same, low, high⟩
          · rw [failed] at counted
            exact absurd counted (by decide)
          · rw [same] at counted ⊢
            rw [i64_counted (by omega) counted]
            omega

section Writing
variable {address file fuel cnt written base : Nat} {inode : Ext4Inode} {buf : Memory} {result : Option Nat}
variable {before after : Ext4State δ}

/-- Only the bytes from the index on matter. -/
private theorem writeLoop_others (other : Memory) (same : ∀ j, base + written ≤ j → other j = buf j) :
    writeLoop address file inode other fuel cnt written base before = writeLoop address file inode buf fuel cnt written base before := by
  induction fuel generalizing cnt written base before with
  | zero => rfl
  | succ fuel ih =>
    rw [writeLoop_pass, writeLoop_pass]
    have chunk : (fun i => other (base + written + i)) = fun i => buf (base + written + i) :=
      funext fun i => same _ (Nat.le_add_right _ _)
    rw [chunk]
    congr 1
    funext pass
    cases pass with
    | ends => rfl
    | fails => rfl
    | moves count bytes next => exact ih fun j late => same j (by omega)

/-- A pass only takes the bytes that fit into its block. -/
private theorem writePass_congr {first second : Memory} (same : ∀ i < (before.datas address).blockSize -
      (before.fs.files file).pos % (before.datas address).blockSize, first i = second i) :
    writePass address file inode cnt first before = writePass address file inode cnt second before := by
  have copies (bytes : Memory) : copy bytes ((before.fs.files file).pos % (before.datas address).blockSize)
      (min ((before.datas address).blockSize - (before.fs.files file).pos % (before.datas address).blockSize) cnt) first =
      copy bytes ((before.fs.files file).pos % (before.datas address).blockSize)
        (min ((before.datas address).blockSize - (before.fs.files file).pos % (before.datas address).blockSize) cnt) second := by
    funext position
    unfold copy
    split
    next inside => exact same _ (by omega)
    next => rfl
  unfold writePass
  dsimp only
  simp only [copies]

theorem writeLoop_counts {total : Nat} (formatted : Formatted (before.datas address))
    (run : writeLoop address file inode buf fuel cnt written base before = .ok (some total, after)) :
    written ≤ total ∧ total ≤ written + cnt := by
  induction fuel generalizing cnt written base before with
  | zero => cases run
  | succ fuel ih =>
    rw [writeLoop_pass] at run
    obtain ⟨pass, passes, rest⟩ := bind_ok run
    cases pass with
    | ends =>
      cases rest
      exact ⟨Nat.le_refl _, Nat.le_add_right _ _⟩
    | fails => cases rest
    | moves count bytes next =>
      obtain ⟨block, piece, _⟩ := writePass_moves formatted passes
      have fits := piece.fits
      obtain ⟨low, high⟩ := ih (piece.datas ▸ formatted) rest
      exact ⟨by omega, by omega⟩

end Writing

/-- What a write of one chunk comes to: its bytes are on the disk, and nothing else has changed. -/
structure ChunkStored (before : Ext4State δ) (address file : Nat) (inode : Ext4Inode) (cnt : Nat) (buf : Memory) (total : Nat)
    (after : Ext4State δ) : Prop where
  datas : after.datas = before.datas
  inodes : after.inodes = before.inodes
  layout : SameLayout before.disk after.disk
  short : total ≤ cnt
  stored : ∀ i < total, ∃ block, block ≠ 0 ∧
    ext4GetBlockFromExtents inode (((before.fs.files file).pos + i) / (before.datas address).blockSize) = .ok block ∧
    byteAt after.disk (blockPlace before.disk (before.datas address) block
      (((before.fs.files file).pos + i) % (before.datas address).blockSize)) = buf i
  frame : ∀ place, (∀ i < total, ∀ block,
    ext4GetBlockFromExtents inode (((before.fs.files file).pos + i) / (before.datas address).blockSize) = .ok block →
    place ≠ blockPlace before.disk (before.datas address) block (((before.fs.files file).pos + i) % (before.datas address).blockSize)) →
    byteAt after.disk place = byteAt before.disk place

theorem writeLoop_one {address file fuel cnt total : Nat} {inode : Ext4Inode} {buf : Memory}
    {before after : Ext4State δ} (formatted : Formatted (before.datas address))
    (one : OneChunk (before.datas address) inode (before.fs.files file).pos cnt)
    (run : writeLoop address file inode buf fuel cnt 0 0 before = .ok (some total, after)) :
    ChunkStored before address file inode cnt buf total after := by
  cases fuel with
  | zero => cases run
  | succ fuel =>
    rw [writeLoop_pass] at run
    obtain ⟨pass, passes, rest⟩ := bind_ok run
    cases pass with
    | ends =>
      cases rest
      exact ⟨rfl, rfl, .refl _, Nat.zero_le _, fun i few => absurd few (Nat.not_lt_zero i), fun place _ => rfl⟩
    | fails => cases rest
    | moves count bytes next =>
      obtain ⟨block, piece, layout, stored, frame⟩ := writePass_moves formatted passes
      have fits := piece.fits
      cases fuel with
      | zero => cases rest
      | succ fuel =>
        dsimp only at rest
        rw [writeLoop_pass] at rest
        obtain ⟨pass', passes', rest⟩ := bind_ok rest
        cases pass' with
        | ends =>
          cases rest
          simp only [Nat.zero_add] at stored ⊢
          refine ⟨piece.datas, piece.inodes, layout, fits.2.1, fun i inside => ?_, fun place apart => ?_⟩
          · obtain ⟨quotient, remainder⟩ := piece.place inside
            exact ⟨block, piece.given, by rw [quotient]; exact piece.found, by rw [remainder]; exact stored i inside⟩
          · refine frame place fun i inside => ?_
            obtain ⟨quotient, remainder⟩ := piece.place inside
            rw [← remainder]
            exact apart i inside block (by rw [quotient]; exact piece.found)
        | fails => cases rest
        | moves count' bytes' next' =>
          obtain ⟨block', again, _⟩ := writePass_moves (piece.datas ▸ formatted) passes'
          exact (one.done piece again).elim

/-- A request of several chunks passes over a byte behind the first chunk. -/
theorem writeLoop_several {address file fuel cnt total : Nat} {inode : Ext4Inode} {buf : Memory}
    {before after : Ext4State δ} (formatted : Formatted (before.datas address))
    (several : ¬OneChunk (before.datas address) inode (before.fs.files file).pos cnt)
    (run : writeLoop address file inode buf fuel cnt 0 0 before = .ok (some total, after)) :
    let gap := (before.datas address).blockSize - (before.fs.files file).pos % (before.datas address).blockSize
    gap < total ∧ ∀ other : Memory, (∀ j, j ≠ gap → other j = buf j) →
      writeLoop address file inode other fuel cnt 0 0 before = .ok (some total, after) := by
  intro gap
  unfold OneChunk at several
  push Not at several
  obtain ⟨long, covered, onward⟩ := several
  cases fuel with
  | zero => cases run
  | succ fuel =>
    have whole := run
    rw [writeLoop_pass] at run
    obtain ⟨pass, passes, rest⟩ := bind_ok run
    cases pass with
    | ends =>
      rcases writePass_ends passes with none | hole
      · omega
      · exact (covered hole).elim
    | fails => cases rest
    | moves count bytes next =>
      obtain ⟨block, piece, _⟩ := writePass_moves formatted passes
      have fits := piece.fits
      have counted := piece.counted
      have formatted' : Formatted (next.datas address) := piece.datas ▸ formatted
      have more : count < total := by
        cases fuel with
        | zero => cases rest
        | succ fuel =>
          dsimp only at rest
          rw [writeLoop_pass] at rest
          obtain ⟨pass', passes', rest⟩ := bind_ok rest
          cases pass' with
          | ends =>
            rcases writePass_ends passes' with none | hole
            · omega
            · rw [piece.datas, piece.position, counted, Nat.min_eq_left (by omega)] at hole
              exact (onward hole).elim
          | fails => cases rest
          | moves count' bytes' next' =>
            obtain ⟨block', again, _⟩ := writePass_moves formatted' passes'
            have fits' := again.fits
            have counts := writeLoop_counts (again.datas ▸ formatted') rest
            omega
      have here : gap = count := by omega
      rw [here]
      refine ⟨more, fun other same => ?_⟩
      have passes' : writePass address file inode cnt (fun i => other (0 + 0 + i)) before = .ok (.moves count bytes next) :=
        (writePass_congr fun i inside => same _ (by omega)).trans passes
      rw [writeLoop_pass, passes']
      exact (writeLoop_others other fun j late => same j (by omega)).trans rest

end Kernix.Proofs
