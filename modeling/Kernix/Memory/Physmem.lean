import Kernix.Machine
import Kernix.Memory.Heap
import Mathlib.Logic.Function.Basic

/-! The page frame allocator of `physmem.c`: a bitmap of used frames and one
record per frame, laid out in the first usable area that has room for both. -/

namespace Kernix

/-- The memory map types that the allocator tells apart. -/
inductive MemmapType where
  | usable
  | bootloaderReclaimable
  | other (value : Nat)
  deriving DecidableEq, Repr

structure MemmapEntry where
  base : Nat
  length : Nat
  kind : MemmapType
  base_lt : base < 2 ^ 64
  length_lt : length < 2 ^ 64

/-- `physmem_pageframe_t`. -/
structure Pageframe where
  rc : Nat
  flags : Nat
  deriving DecidableEq, Repr

/-- `sizeof(physmem_pageframe_t)`: two `u32`. -/
abbrev pageframeSize : Nat := 8

/-- The static variables of `physmem.c`, with the two arrays they point at. -/
structure Physmem where
  /-- The pointer `physmem_pageframes`. -/
  pageframesAddress : Nat
  pageframes : Nat → Pageframe
  total : Nat
  bitmap : Nat → UInt8
  bitmapSize : Nat
  addrHighest : Nat
  /-- Frame numbers are addresses divided by the page size. -/
  total_lt : total < 2 ^ 52

def bitmapTest (bitmap : Nat → UInt8) (idx : Nat) : Nat :=
  ((bitmap (idx >>> 3)).toNat >>> (idx &&& 7)) &&& 1

def bitmapSet (bitmap : Nat → UInt8) (idx : Nat) : Nat → UInt8 :=
  Function.update bitmap (idx >>> 3) (bitmap (idx >>> 3) ||| 1 <<< UInt8.ofNat (idx &&& 7))

def bitmapClear (bitmap : Nat → UInt8) (idx : Nat) : Nat → UInt8 :=
  Function.update bitmap (idx >>> 3) (bitmap (idx >>> 3) &&& ~~~(1 <<< UInt8.ofNat (idx &&& 7)))

namespace Physmem

/-- The body of the loops that mark a frame as used. -/
def useFrame (flags : Nat) (physmem : Physmem) (frame : Nat) : Physmem :=
  { physmem with
    bitmap := bitmapSet physmem.bitmap frame
    pageframes := Function.update physmem.pageframes frame ⟨1, flags⟩ }

/-- The body of the loops that mark a frame as free. -/
def freeFrame (physmem : Physmem) (frame : Nat) : Physmem :=
  { physmem with
    bitmap := bitmapClear physmem.bitmap frame
    pageframes := Function.update physmem.pageframes frame ⟨0, frameFree⟩ }

end Physmem

open Physmem

/-- `for (frame = start; frame < start + count; frame++)`. -/
def forFrames (body : Physmem → Nat → Physmem) (start : Nat) : Nat → Physmem → Physmem
  | 0, physmem => physmem
  | count + 1, physmem => forFrames body (start + 1) count (body physmem start)

/-- One round of the loop in `physmem_addr_mark`. -/
def physmemAddrMarkEntry (physmem : Physmem) (entry : MemmapEntry) : Physmem :=
  let frameStart := entry.base / pageSize
  if frameStart ≥ physmem.total then physmem
  else
    let frameEnd := u64 (entry.base + entry.length) / pageSize
    let frameEnd := if frameEnd > physmem.total then physmem.total else frameEnd
    if entry.kind = .usable then forFrames freeFrame frameStart (frameEnd - frameStart) physmem
    else forFrames (useFrame (frameUsed ||| frameKernel)) frameStart (frameEnd - frameStart) physmem

def physmemAddrMark (physmem : Physmem) (mpr : List MemmapEntry) : Except Stop Physmem :=
  if physmem.pageframesAddress = 0 then .error (.panic "PHYSMEM ADDR MARK PHYSMEM PAGEFRAMES NULL")
  else .ok (mpr.foldl physmemAddrMarkEntry physmem)

def physmemAddrMarkUsed (physmem : Physmem) (physmemAddr count : Nat) : Except Stop Physmem :=
  if physmem.pageframesAddress = 0 then .error (.panic "PHYSMEM ADDR MARK USED PHYSMEM PAGEFRAMES NULL")
  else
    let frameStart := physmemAddr / pageSize
    let frameEnd := u64 (frameStart + count)
    let frameEnd := if frameEnd > physmem.total then physmem.total else frameEnd
    .ok (forFrames (useFrame frameUsed) frameStart (frameEnd - frameStart) physmem)

def physmemAddrMarkFree (physmem : Physmem) (physmemAddr count : Nat) : Except Stop Physmem :=
  if physmem.pageframesAddress = 0 then .error (.panic "PHYSMEM ADDR MARK FREE PHYSMEM PAGEFRAMES NULL")
  else
    let frameStart := physmemAddr / pageSize
    let frameEnd := u64 (frameStart + count)
    let frameEnd := if frameEnd > physmem.total then physmem.total else frameEnd
    .ok (forFrames freeFrame frameStart (frameEnd - frameStart) physmem)

/-- The first usable entry with `size` bytes that does not start below `lowest`. -/
def trackingPass (mpr : List MemmapEntry) (size lowest : Nat) : Option Nat :=
  (mpr.find? fun entry => entry.kind = .usable ∧ entry.length ≥ size ∧ entry.base ≥ lowest).map MemmapEntry.base

/-- Three passes: above 16 MiB, above 1 MiB, anywhere. The result is `NULL` when all fail. -/
def physmemAddrGetTracking (mpr : Option (List MemmapEntry)) (hpr : Option Nat) (size : Nat) : Except Stop Nat :=
  match mpr, hpr with
  | none, _ => .error (.panic "PHYSMEM ADDR GET LIMINE MEMMAP EQ NULL\n")
  | _, none => .error (.panic "PHYSMEM ADDR GET LIMINE HHDM EQ NULL\n")
  | some mpr, some _ => .ok
    (((trackingPass mpr size 0x1000000).orElse fun _ =>
      (trackingPass mpr size 0x100000).orElse fun _ => trackingPass mpr size 0).getD 0)

def usedBytesToFrameCount (size : Nat) : Nat := u64 (size + pageSize - 1) / pageSize

/-- The end of the highest entry that is or can become usable. -/
def physmemHighest (mpr : List MemmapEntry) : Nat :=
  mpr.foldl (fun highest entry =>
    if entry.kind = .usable ∨ entry.kind = .bootloaderReclaimable then
      let endAddr := u64 (entry.base + entry.length)
      if endAddr > highest then endAddr else highest
    else highest) 0

theorem physmemHighest_lt (mpr : List MemmapEntry) : physmemHighest mpr < 2 ^ 64 := by
  have start : (0 : Nat) < 2 ^ 64 := by decide
  refine List.foldlRecOn (motive := fun highest => highest < 2 ^ 64) mpr _ start ?_
  intro highest bound entry _
  dsimp only
  split
  · split
    · exact u64_lt _
    · exact bound
  · exact bound

/-- `physmem_init` over what the tracking area held before. `hpr` is the offset of
the direct map, or `none` for a missing response. -/
def physmemInit (pageframes : Nat → Pageframe) (bitmap : Nat → UInt8) (mpr : Option (List MemmapEntry))
    (hpr : Option Nat) : Except Stop Physmem :=
  match mpr with
  -- `mpr->entry_count` is read before the pointer is checked.
  | none => .error .undefined
  | some entries => do
    let addrHighest := physmemHighest entries
    let total := addrHighest / pageSize
    let physmemSize := u64 (total * pageframeSize)
    let bitmapSize := (total + 7) / 8
    let pageframeAddr ← physmemAddrGetTracking mpr hpr (u64 (physmemSize + bitmapSize))
    if pageframeAddr = 0 then .error (.panic "No usable memory found for physmem_pageframes")
    else
      let physmem : Physmem := {
        pageframesAddress := u64 (pageframeAddr + hpr.getD 0), pageframes, total
        bitmap := fun index => if index < bitmapSize then 0xFF else bitmap index
        bitmapSize, addrHighest
        total_lt := by
          have bound := physmemHighest_lt entries
          simp only [total, addrHighest, pageSize]
          omega }
      let physmem ← physmemAddrMark physmem entries
      let toUsed := usedBytesToFrameCount (u64 (physmemSize + bitmapSize))
      physmemAddrMarkUsed physmem pageframeAddr toUsed

/-- The search loop of `physmem_alloc_to`, with `left` frames still to look at. -/
def physmemSearch (bitmap : Nat → UInt8) (count : Nat) : Nat → Nat → Nat → Nat → Option Nat
  | 0, _, _, _ => none
  | left + 1, frame, consecutive, startFrame =>
    if bitmapTest bitmap frame = 0 then
      let startFrame := if consecutive = 0 then frame else startFrame
      if consecutive + 1 ≥ count then some startFrame
      else physmemSearch bitmap count left (frame + 1) (consecutive + 1) startFrame
    else physmemSearch bitmap count left (frame + 1) 0 startFrame

/-- The frame at which every search starts. -/
abbrev startSearch : Nat := 512

def physmemAllocTo (physmem : Physmem) (count : Nat) : Except Stop (Nat × Physmem) :=
  if count = 0 then .ok (0, physmem)
  else
    match physmemSearch physmem.bitmap count (physmem.total - startSearch) startSearch 0 0 with
    | none => .ok (0, physmem)
    | some startFrame => do
      let physmemAddr := u64 (startFrame * pageSize)
      let physmem ← physmemAddrMarkUsed physmem physmemAddr count
      return (physmemAddr, physmem)

def physmemFreeTo (physmem : Physmem) (physmemAddr count : Nat) : Except Stop Physmem :=
  if count = 0 then .ok physmem else physmemAddrMarkFree physmem physmemAddr count

def physmemFreeGet (physmem : Physmem) : Nat :=
  (List.range physmem.total).foldl
    (fun count frame => if bitmapTest physmem.bitmap frame = 0 then count + 1 else count) 0

end Kernix
