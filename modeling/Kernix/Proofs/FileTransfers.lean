import Kernix.Proofs.BlockCopies
import Kernix.Proofs.MountTable

/-! Requests to files of ext4. One chunk is moved as it should be; behind the first chunk of
a larger request there is a gap in the buffer. -/

namespace Kernix.Proofs
open ByteMemory

variable {δ : Type}

/-- `data` of an open file. -/
def fileData (state : Ext4State δ) (file : Nat) : Ext4Data := state.datas (state.fs.nodes (state.fs.files file).node).priv

/-- The inode of an open file is decoded, as the first lines of both calls do it. -/
def Decoded (state : Ext4State δ) (file : Nat) (inode : Ext4Inode) (opened : Ext4State δ) : Prop :=
  ext4ReadInode state.localInode.2 (state.fs.nodes (state.fs.files file).node).priv
    (state.inodes (state.fs.files file).node)
    state.localInode.1 = .ok (0, inode, opened)

/-- How many bytes a read asks for, once the end of the file is taken into account. -/
def readCount (inode : Ext4Inode) (pos cnt : Nat) : Nat :=
  if inode.sizeLo ≤ pos then 0 else if inode.sizeLo < u64 (pos + cnt) then inode.sizeLo - pos else cnt

private theorem readCount_le (inode : Ext4Inode) (pos cnt : Nat) : readCount inode pos cnt ≤ cnt := by
  unfold readCount
  split
  next => exact Nat.zero_le _
  next =>
    split
    next =>
      have wrapped : u64 (pos + cnt) ≤ pos + cnt := Nat.mod_le _ _
      omega
    next => exact Nat.le_refl _

/-- A read that returns `n` has put the next `n` bytes of the file into the buffer, and nothing
behind the bytes that it was asked for. -/
def ReadsFile (state : Ext4State δ) (file : Nat) (inode : Ext4Inode) (cnt : Nat) : Prop :=
  ∀ buf n buf' after, ext4Read state file buf cnt = .ok (n, buf', after) → 0 ≤ n →
    (∀ i : Nat, (i : Int) < n → FileByte state.disk (fileData state file) inode ((state.fs.files file).pos + i) (buf' i)) ∧
      ∀ i, cnt ≤ i → buf' i = buf i

/-- A write that returns `n` has put the first `n` bytes of the buffer into the file, and it has
changed nothing else on the disk but the block of the inode. -/
def WritesFile (state : Ext4State δ) (file : Nat) (inode : Ext4Inode) (cnt : Nat) : Prop :=
  ∀ buf n after, ext4Write state file buf cnt = .ok (n, after) → 0 ≤ n →
    (∀ i : Nat, (i : Int) < n → FileByte after.disk (fileData state file) inode ((state.fs.files file).pos + i) (buf i)) ∧
      ∀ place, (∀ i : Nat, (i : Int) < n → ∀ block,
          ext4GetBlockFromExtents inode (((state.fs.files file).pos + i) / (fileData state file).blockSize) = .ok block →
          place ≠ blockPlace state.disk (fileData state file) block
            (((state.fs.files file).pos + i) % (fileData state file).blockSize)) →
        (∀ table offset, inodePlace (fileData state file) (state.inodes (state.fs.files file).node) = .ok (table,
          offset) →
          ∀ i < (fileData state file).blockSize, place ≠ blockPlace state.disk (fileData state file) table i) →
        byteAt after.disk place = byteAt state.disk place

/-- The record of the inode lies in none of the blocks of the file. -/
def RecordApart (state : Ext4State δ) (file : Nat) (inode : Ext4Inode) : Prop :=
  ∀ table offset, inodePlace (fileData state file) (state.inodes (state.fs.files file).node) = .ok (table, offset) →
    ∀ index block, ext4GetBlockFromExtents inode index = .ok block → block ≠ 0 →
      BlocksApart state.disk (fileData state file) table block

theorem FileByte.congr {before after : Disk} {data : Ext4Data} {inode : Ext4Inode} {position : Nat} {value : UInt8}
    (same : SameContents before after) (lies : FileByte after data inode position value) :
    FileByte before data inode position value := by
  obtain ⟨block, found, byte⟩ := lies
  rw [same.bytes, same.layout.blockPlace] at byte
  exact ⟨block, found, byte⟩

/-- What decoding the inode leaves as it was. -/
private theorem Decoded.kept {state opened : Ext4State δ} {file : Nat} {inode : Ext4Inode}
    (formatted : Formatted (fileData state file))
    (decoded : Decoded state file inode opened) :
    opened.datas = state.datas ∧ opened.inodes = state.inodes ∧ opened.fs.files = state.fs.files ∧
      SameContents state.disk opened.disk := by
  have formatted' : Formatted (state.localInode.2.datas (state.fs.nodes (state.fs.files file).node).priv) := formatted
  have read := ext4ReadInode_spec formatted' decoded
  obtain ⟨_, _, same⟩ := read.touched
  exact ⟨by rw [same]; rfl, by rw [same]; rfl, by rw [same]; rfl, read.contents⟩

/-- A read is its loop, with the count that the end of the file leaves. -/
private theorem Decoded.read {state opened : Ext4State δ} {file : Nat} {inode : Ext4Inode}
    (formatted : Formatted (fileData state file))
    (decoded : Decoded state file inode opened) (buf : Memory) (cnt : Nat) :
    ext4Read state file buf cnt = if inode.sizeLo ≤ (state.fs.files file).pos then .ok (0, buf, opened)
      else readLoop (state.fs.nodes (state.fs.files file).node).priv file inode
        (readCount inode (state.fs.files file).pos cnt + 1)
          (readCount inode (state.fs.files file).pos cnt) 0 0 buf opened := by
  obtain ⟨_, _, files, _⟩ := decoded.kept formatted
  have decodes : ext4ReadInode state.localInode.2 (state.fs.nodes (state.fs.files file).node).priv
      (state.localInode.2.inodes (state.fs.files file).node) state.localInode.1 = .ok (0, inode, opened) := decoded
  unfold ext4Read readCount
  dsimp only [bind, Except.bind]
  rw [decodes]
  dsimp only
  rw [if_neg (by decide), files]
  split
  next => rfl
  next inside => rfl

private theorem read_transfer_iff {state opened : Ext4State δ} {file cnt : Nat} {inode : Ext4Inode}
    (formatted : Formatted (fileData state file)) (sized : cnt < 2 ^ 64) (decoded : Decoded state file inode opened)
    (returns : ∃ buf n buf' after, ext4Read state file buf cnt = .ok (n, buf', after) ∧ 0 ≤ n) :
    ReadsFile state file inode cnt ↔
      OneChunk (fileData state file) inode (state.fs.files file).pos (readCount inode (state.fs.files file).pos cnt) := by
  obtain ⟨datas, _, files, contents⟩ := decoded.kept formatted
  have data : opened.datas (state.fs.nodes (state.fs.files file).node).priv = fileData state file := by rw [datas]; rfl
  have pos : (opened.fs.files file).pos = (state.fs.files file).pos := by rw [files]
  have few := readCount_le inode (state.fs.files file).pos cnt
  constructor
  · intro reads
    by_contra several
    obtain ⟨buf, n, buf', after, result, counted⟩ := returns
    rw [decoded.read formatted] at result
    split at result
    next ends =>
      refine several (Or.inl ?_)
      unfold readCount
      rw [if_pos ends]
      exact Nat.zero_le _
    next inside =>
      have several' : ¬OneChunk (opened.datas (state.fs.nodes (state.fs.files file).node).priv) inode
        (opened.fs.files file).pos
          (readCount inode (state.fs.files file).pos cnt) := by
        rw [data, pos]
        exact several
      -- The byte in the gap is what the buffer holds there, and the file has only one.
      have gap (value : UInt8) : FileByte state.disk (fileData state file) inode ((state.fs.files file).pos +
          ((fileData state file).blockSize - (state.fs.files file).pos % (fileData state file).blockSize)) value := by
        obtain ⟨filled, run⟩ := readLoop_others result fun _ => value
        obtain ⟨inside', kept⟩ := readLoop_several (data ▸ formatted) (by omega) several' run counted
        rw [data, pos] at inside' kept
        have byte := (reads (fun _ => value) n filled after (by rw [decoded.read formatted, if_neg inside]; exact run) counted).1 _ inside'
        rw [kept] at byte
        exact byte
      exact absurd ((gap 0).unique (gap 1)) (by decide)
  · intro one buf n buf' after result counted
    rw [decoded.read formatted] at result
    split at result
    next =>
      cases result
      exact ⟨fun i few => absurd few (by omega), fun i _ => rfl⟩
    next =>
      obtain ⟨bytes, behind⟩ := readLoop_one (data ▸ formatted) (by omega) (by rw [data, pos]; exact one) result counted
      rw [data, pos] at bytes
      exact ⟨fun i inside => (bytes i inside).congr contents, fun i late => behind i (by omega)⟩

/-- The end of a write: a file that has grown gets its new size. -/
def settle (state : Ext4State δ) (file : Nat) (inode : Ext4Inode) (written : Option Nat) (after : Ext4State δ) :
    Except Stop (Int × Ext4State δ) := do
  match written with
  | none => return (-1, after)
  | some written =>
    if inode.sizeLo < (after.fs.files file).pos then
      let (_, after) ← ext4WriteInode after (state.fs.nodes (state.fs.files file).node).priv
        (after.inodes (state.fs.files file).node)
        (inode.setSizeLo ((after.fs.files file).pos % 2 ^ 32))
      return (i64 written, after)
    return (i64 written, after)

/-- A write is its loop and its end. -/
private theorem Decoded.write {state opened : Ext4State δ} {file : Nat} {inode : Ext4Inode}
    (decoded : Decoded state file inode opened) (buf : Memory) (cnt : Nat) :
    ext4Write state file buf cnt = (do
      let (written, after) ← writeLoop (state.fs.nodes (state.fs.files file).node).priv file inode buf
        (cnt + 1) cnt 0 0 opened
      settle state file inode written after) := by
  have decodes : ext4ReadInode state.localInode.2 (state.fs.nodes (state.fs.files file).node).priv
      (state.localInode.2.inodes (state.fs.files file).node) state.localInode.1 = .ok (0, inode, opened) := decoded
  unfold ext4Write settle
  dsimp only [bind, Except.bind]
  rw [decodes]
  dsimp only
  rewrite [if_neg (by decide)]
  cases writeLoop (state.fs.nodes (state.fs.files file).node).priv file inode buf (cnt + 1) cnt 0 0 opened with
  | error stop => rfl
  | ok run =>
    obtain ⟨written, after⟩ := run
    cases written with
    | none => rfl
    | some written => rfl

private theorem another_byte (byte : UInt8) : ∃ value, value ≠ byte := by
  by_cases zero : byte = 0
  · exact ⟨1, by rw [zero]; decide⟩
  · exact ⟨0, fun same => zero same.symm⟩

private theorem settle_counts {state before after : Ext4State δ} {file total : Nat} {inode : Ext4Inode} {n : Int}
    (result : settle state file inode (some total) before = .ok (n, after)) : n = i64 total := by
  unfold settle at result
  dsimp only at result
  split at result
  next =>
    obtain ⟨_, _, result⟩ := bind_ok result
    cases result
    rfl
  next =>
    cases result
    rfl

/-- The end of a write changes the block of the inode at most. -/
private theorem settle_frame {state before after : Ext4State δ} {file : Nat} {inode : Ext4Inode}
    {written : Option Nat} {n : Int}
    (formatted : Formatted (fileData state file)) (datas : before.datas = state.datas)
    (inodes : before.inodes = state.inodes)
    (result : settle state file inode written before = .ok (n, after)) (counted : 0 ≤ n) :
    SameLayout before.disk after.disk ∧ ∃ total, written = some total ∧ n = i64 total ∧ ∀ place,
      (∀ table offset, inodePlace (fileData state file) (state.inodes (state.fs.files file).node) = .ok (table, offset) →
        ∀ i < (fileData state file).blockSize, place ≠ blockPlace before.disk (fileData state file) table i) →
      byteAt after.disk place = byteAt before.disk place := by
  have data : before.datas (state.fs.nodes (state.fs.files file).node).priv = fileData state file := by rw [datas]; rfl
  unfold settle at result
  cases written with
  | none =>
    cases result
    exact absurd counted (by decide)
  | some total =>
    dsimp only at result
    split at result
    next =>
      obtain ⟨⟨ret, stored⟩, writes, result⟩ := bind_ok result
      cases result
      have recorded := ext4WriteInode_spec (data ▸ formatted) writes
      obtain ⟨table, offset, place, frame, _⟩ := recorded.frame
      rw [data, inodes] at place
      rw [data] at frame
      exact ⟨recorded.layout, total, rfl, rfl, fun other apart => frame other (apart table offset place)⟩
    next =>
      cases result
      exact ⟨.refl _, total, rfl, rfl, fun _ _ => rfl⟩

private theorem write_transfer_iff {state opened : Ext4State δ} {file cnt : Nat} {inode : Ext4Inode}
    (formatted : Formatted (fileData state file)) (sized : cnt < 2 ^ 64) (decoded : Decoded state file inode opened)
    (recordApart : RecordApart state file inode)
    (returns : ∃ buf n after, ext4Write state file buf cnt = .ok (n, after) ∧ 0 ≤ n) :
    WritesFile state file inode cnt ↔ OneChunk (fileData state file) inode (state.fs.files file).pos cnt := by
  obtain ⟨datas, inodes, files, contents⟩ := decoded.kept formatted
  have data : opened.datas (state.fs.nodes (state.fs.files file).node).priv = fileData state file := by rw [datas]; rfl
  have pos : (opened.fs.files file).pos = (state.fs.files file).pos := by rw [files]
  constructor
  · intro writes
    by_contra several
    have several' : ¬OneChunk (opened.datas (state.fs.nodes (state.fs.files file).node).priv) inode
      (opened.fs.files file).pos cnt := by
      rw [data, pos]
      exact several
    obtain ⟨buf, n, after, result, counted⟩ := returns
    have whole := result
    rw [decoded.write] at result
    obtain ⟨⟨written, middle⟩, run, ends⟩ := bind_ok result
    cases written with
    | none =>
      cases ends
      exact absurd counted (by decide)
    | some total =>
      obtain ⟨inside, others⟩ := writeLoop_several (data ▸ formatted) several' run
      obtain ⟨low, high⟩ := writeLoop_counts (data ▸ formatted) run
      have number := settle_counts ends
      rw [data, pos] at inside others
      generalize (fileData state file).blockSize - (state.fs.files file).pos %
        (fileData state file).blockSize = gap at inside others
      -- Nobody looks at the byte in the gap, so two buffers that differ there leave the same file.
      obtain ⟨value, different⟩ := another_byte (buf gap)
      have run' := others (Function.update buf gap value) fun j apart => Function.update_of_ne apart _ _
      have result' : ext4Write state file (Function.update buf gap value) cnt = .ok (n, after) := by
        rw [decoded.write, run']
        exact ends
      have early : (gap : Int) < n := by
        rw [number] at counted ⊢
        rw [i64_counted (by omega) counted]
        omega
      have one := (writes _ n after whole counted).1 _ early
      have two := (writes _ n after result' counted).1 _ early
      rw [Function.update_self] at two
      exact different (two.unique one)
  · intro one buf n after result counted
    rw [decoded.write] at result
    obtain ⟨⟨written, middle⟩, run, ends⟩ := bind_ok result
    cases written with
    | none =>
      cases ends
      exact absurd counted (by decide)
    | some total =>
      have chunk := writeLoop_one (data ▸ formatted) (by rw [data, pos]; exact one) run
      obtain ⟨layout, total', same, number, frame⟩ :=
        settle_frame formatted (chunk.datas.trans datas) (chunk.inodes.trans inodes) ends counted
      cases same
      have short := chunk.short
      have stored := chunk.stored
      have unchanged := chunk.frame
      rw [data, pos] at stored unchanged
      rw [number] at counted ⊢
      rw [i64_counted (by omega) counted]
      have layout' : SameLayout state.disk middle.disk := contents.layout.trans chunk.layout
      refine ⟨fun i few => ?_, fun place outside unrecorded => ?_⟩
      · obtain ⟨block, given, found, byte⟩ := stored i (by omega)
        refine ⟨block, found, ?_⟩
        rw [layout.blockPlace, layout'.blockPlace, ← contents.layout.blockPlace]
        refine (frame _ fun table offset place j within equal => ?_).trans byte
        rw [layout'.blockPlace, contents.layout.blockPlace] at equal
        exact recordApart table offset place _ block found given j within _
          (Nat.mod_lt _ (Nat.pos_of_ne_zero fun none => by omega)) equal.symm
      · rw [frame place fun table offset known j within => by rw [layout'.blockPlace]; exact unrecorded table offset known j within,
          unchanged place fun i few block found => by rw [contents.layout.blockPlace]; exact outside i (by omega) block found]
        exact contents.bytes place

/-- Calls that return a count have moved the bytes they should exactly when one chunk was
enough for them. -/
theorem file_transfer_iff {state opened : Ext4State δ} {file cnt : Nat} {inode : Ext4Inode}
    (formatted : Formatted (fileData state file)) (sized : cnt < 2 ^ 64) (decoded : Decoded state file inode opened) :
    ((∃ buf n buf' after, ext4Read state file buf cnt = .ok (n, buf', after) ∧ 0 ≤ n) →
      (ReadsFile state file inode cnt ↔
        OneChunk (fileData state file) inode (state.fs.files file).pos (readCount inode (state.fs.files file).pos cnt))) ∧
    (RecordApart state file inode → (∃ buf n after, ext4Write state file buf cnt = .ok (n, after) ∧ 0 ≤ n) →
      (WritesFile state file inode cnt ↔ OneChunk (fileData state file) inode (state.fs.files file).pos cnt)) :=
  ⟨read_transfer_iff formatted sized decoded, write_transfer_iff formatted sized decoded⟩

/-- A file of 1024 bytes in the blocks 9 and 10 of an image, opened and not yet moved. -/
private def openedImage : Ext4State Unit :=
  let start := imageState zeroedHeap (cut (store (store (store (fun _ => 0) 4 4 1024) 40 4 9) 44 4 10)) fun _ => 0
  { start with
    datas := fun _ => { imageData with blockSize := 512 }
    fs := start.fs.setFile 9 ⟨5, 0, 0⟩ }

private theorem openedImage_formatted : Formatted (fileData openedImage 9) :=
  ⟨show sectorSize ∣ 512 by decide, show 512 < 2 ^ 32 by decide⟩

/-- The inode is decoded, and a request comes to its end. -/
private def readsOn (cnt : Nat) : Bool :=
  match ext4ReadInode openedImage.localInode.2 0 2 openedImage.localInode.1,
    ext4Read openedImage 9 (fun _ => 0xAA) cnt with
  | .ok (ret, _, _), .ok (n, _, _) => ret = 0 && n = cnt
  | _, _ => false

/-- The byte that belongs behind the first block is not what the buffer holds there. -/
private def leavesGap : Bool :=
  match ext4ReadInode openedImage.localInode.2 0 2 openedImage.localInode.1,
    ext4Read openedImage 9 (fun _ => 0xAA) 1024 with
  | .ok (ret, inode, _), .ok (n, buf, _) => ret = 0 && n = 1024 &&
    ext4GetBlockFromExtents inode 1 = .ok 10 && buf 512 = 0xAA
  | _, _ => false

/-- Four bytes of a file are read as they should be. -/
theorem file_transfer_iff_short : ∃ inode opened, Decoded openedImage 9 inode opened ∧
    ReadsFile openedImage 9 inode 4 := by
  have checked : readsOn 4 = true := by decide +kernel
  unfold readsOn at checked
  split at checked
  next ret inode opened n buf' after decodes reads =>
    simp only [Bool.and_eq_true, decide_eq_true_eq] at checked
    obtain ⟨rfl, rfl⟩ := checked
    have decoded : Decoded openedImage 9 inode opened := decodes
    have one : OneChunk (fileData openedImage 9) inode (openedImage.fs.files 9).pos (readCount inode 0 4) :=
      Or.inl ((readCount_le inode 0 4).trans (show 4 ≤ 512 - 0 % 512 by decide))
    exact ⟨inode, opened, decoded,
      ((file_transfer_iff openedImage_formatted (by decide) decoded).1 ⟨_, 4, buf', after, reads, by decide⟩).mpr one⟩
  next => cases checked

/-- The second block of a file lands behind a gap. -/
theorem file_transfer_fails :
    ¬∀ (state opened : Ext4State Unit) (file cnt : Nat) (inode : Ext4Inode), Formatted (fileData state file) →
      cnt < 2 ^ 64 →
      Decoded state file inode opened → ReadsFile state file inode cnt := by
  intro always
  have checked : leavesGap = true := by decide +kernel
  unfold leavesGap at checked
  split at checked
  next ret inode opened n buf' after decodes reads =>
    simp only [Bool.and_eq_true, decide_eq_true_eq] at checked
    obtain ⟨⟨⟨rfl, rfl⟩, found⟩, gap⟩ := checked
    have transfers := always openedImage opened 9 1024 inode openedImage_formatted (by decide) decodes
    obtain ⟨block, found', byte⟩ := (transfers _ 1024 buf' after reads (by decide)).1 512 (by decide)
    cases found.symm.trans found'
    rw [gap] at byte
    exact absurd byte (by decide)
  next => cases checked

end Kernix.Proofs
