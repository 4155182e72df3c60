import Kernix.Proofs.PhysmemFrames

/-! What `physmem_init` leaves in the bitmap: a frame is free when it lies in a
usable entry and not under the allocator's own arrays. -/

namespace Kernix.Proofs
open Physmem Transition

/-- Two entries that share no byte and do not lie inside each other. -/
def Apart (first second : MemmapEntry) : Prop :=
  first.base + first.length ≤ second.base ∨ second.base + second.length ≤ first.base

instance (first second : MemmapEntry) : Decidable (Apart first second) := by
  unfold Apart
  infer_instance

/-- A usable entry overlaps no other. -/
def Separate (first second : MemmapEntry) : Prop :=
  first.kind = .usable ∨ second.kind = .usable → Apart first second

instance (first second : MemmapEntry) : Decidable (Separate first second) := by
  unfold Separate
  infer_instance

instance : Std.Symm Separate := ⟨fun _ _ separate either => (separate either.symm).symm⟩

/-- What the boot protocol promises: usable entries are whole pages and overlap nothing. -/
structure WellFormedMap (entries : List MemmapEntry) : Prop where
  aligned : ∀ entry ∈ entries, entry.kind = .usable → entry.base % pageSize = 0 ∧ entry.length % pageSize = 0
  apart : entries.Pairwise Separate

/-- A frame inside a usable entry. -/
def InsideUsable (entries : List MemmapEntry) (frame : Nat) : Prop :=
  ∃ entry ∈ entries, entry.kind = .usable ∧ entry.base ≤ frame * pageSize ∧
    (frame + 1) * pageSize ≤ entry.base + entry.length

/-- A frame that holds a byte of the pageframe array or of the bitmap behind it. -/
def Metadata (physmem : Physmem) (offset frame : Nat) : Prop :=
  u64Sub physmem.pageframesAddress offset < (frame + 1) * pageSize ∧
    frame * pageSize < u64Sub physmem.pageframesAddress offset + (physmem.total * pageframeSize + physmem.bitmapSize)

/-- The frames that `physmem_addr_mark` visits for an entry. -/
def Covers (entry : MemmapEntry) (frame : Nat) : Prop :=
  entry.base / pageSize ≤ frame ∧ frame < u64 (entry.base + entry.length) / pageSize

instance (entry : MemmapEntry) (frame : Nat) : Decidable (Covers entry frame) := by
  unfold Covers
  infer_instance

theorem WellFormedMap.apart_of {entries : List MemmapEntry} (wellFormed : WellFormedMap entries)
    {first second : MemmapEntry} (left : first ∈ entries) (right : second ∈ entries) (usable : first.kind = .usable)
    (differ : first ≠ second) : Apart first second :=
  wellFormed.apart.forall left right differ (Or.inl usable)

/-- A visited frame of a usable entry lies inside it. -/
theorem WellFormedMap.covered {entries : List MemmapEntry} (wellFormed : WellFormedMap entries) {entry : MemmapEntry}
    {frame : Nat} (member : entry ∈ entries) (usable : entry.kind = .usable) (covers : Covers entry frame) :
    entry.base ≤ frame * pageSize ∧ (frame + 1) * pageSize ≤ entry.base + entry.length := by
  obtain ⟨aligned, _⟩ := wellFormed.aligned entry member usable
  obtain ⟨low, high⟩ := covers
  have cut : u64 (entry.base + entry.length) ≤ entry.base + entry.length := Nat.mod_le _ _
  simp only [pageSize] at *
  omega

/-- Entries of both kinds never visit the same frame. -/
theorem WellFormedMap.consistent {entries : List MemmapEntry} (wellFormed : WellFormedMap entries)
    {first second : MemmapEntry} {frame : Nat} (left : first ∈ entries) (right : second ∈ entries)
    (usable : first.kind = .usable) (reserved : second.kind ≠ .usable) (covers : Covers first frame) :
    ¬Covers second frame := by
  rintro ⟨low, high⟩
  obtain ⟨after, before⟩ := wellFormed.covered left usable covers
  have cut : u64 (second.base + second.length) ≤ second.base + second.length := Nat.mod_le _ _
  have apart := wellFormed.apart_of left right usable (fun same => reserved (same ▸ usable))
  simp only [Apart, pageSize] at *
  omega

theorem highest_le {entries : List MemmapEntry} {bound : Nat}
    (below : ∀ entry ∈ entries, u64 (entry.base + entry.length) ≤ bound) : physmemHighest entries ≤ bound := by
  refine List.foldlRecOn (motive := fun highest => highest ≤ bound) entries _ (Nat.zero_le bound) ?_
  intro highest small entry member
  dsimp only
  split
  · split
    · exact below entry member
    · exact small
  · exact small

/-- Below the highest usable address an entry visits all the frames inside it:
an entry that runs past the end of the address space is the highest of all. -/
theorem WellFormedMap.covers {entries : List MemmapEntry} (wellFormed : WellFormedMap entries) {entry : MemmapEntry}
    {frame : Nat} (member : entry ∈ entries) (usable : entry.kind = .usable) (low : entry.base ≤ frame * pageSize)
    (high : (frame + 1) * pageSize ≤ entry.base + entry.length) (inside : frame < physmemHighest entries / pageSize) :
    Covers entry frame := by
  have base := entry.base_lt
  have length := entry.length_lt
  by_cases wraps : entry.base + entry.length < 2 ^ 64
  · rw [Covers, u64_eq wraps]
    simp only [pageSize] at *
    omega
  · have top : physmemHighest entries ≤ entry.base := by
      apply highest_le
      intro other present
      by_cases same : entry = other
      · subst same
        have cut : u64 (entry.base + entry.length) = entry.base + entry.length - 2 ^ 64 := by
          simp only [u64]
          omega
        omega
      · have cut : u64 (other.base + other.length) ≤ other.base + other.length := Nat.mod_le _ _
        have range := other.base_lt
        rcases wellFormed.apart_of member present usable same with before | after
        · omega
        · omega
    simp only [pageSize] at *
    omega

/-- One entry rewrites exactly the bits it covers. -/
theorem physmemAddrMarkEntry_bits (physmem : Physmem) (entry : MemmapEntry) :
    (physmemAddrMarkEntry physmem entry).total = physmem.total ∧
      (physmemAddrMarkEntry physmem entry).pageframesAddress = physmem.pageframesAddress ∧
      (physmemAddrMarkEntry physmem entry).bitmapSize = physmem.bitmapSize ∧
      ∀ frame < physmem.total, inUse (physmemAddrMarkEntry physmem entry) frame =
        if Covers entry frame then decide (entry.kind ≠ .usable) else inUse physmem frame := by
  simp only [physmemAddrMarkEntry]
  by_cases beyond : entry.base / pageSize ≥ physmem.total
  · rw [if_pos beyond]
    refine ⟨rfl, rfl, rfl, fun frame inside => ?_⟩
    rw [if_neg]
    rintro ⟨low, _⟩
    omega
  · rw [if_neg beyond]
    have clamp : (if u64 (entry.base + entry.length) / pageSize > physmem.total then physmem.total
        else u64 (entry.base + entry.length) / pageSize) =
        min (u64 (entry.base + entry.length) / pageSize) physmem.total := by
      split <;> omega
    rw [clamp]
    have range : ∀ frame < physmem.total, entry.base / pageSize ≤ frame ∧ frame < entry.base / pageSize +
        (min (u64 (entry.base + entry.length) / pageSize) physmem.total - entry.base / pageSize) ↔
        Covers entry frame := by
      intro frame inside
      simp only [Covers]
      omega
    split
    next usable =>
      have marked := forFrames_marked freeFrame_marked (entry.base / pageSize)
        (min (u64 (entry.base + entry.length) / pageSize) physmem.total - entry.base / pageSize) physmem
      refine ⟨marked.total, marked.address, marked.bitmapSize, fun frame inside => ?_⟩
      simp [marked.bits, range frame inside, usable]
    next reserved =>
      have marked := forFrames_marked (useFrame_marked (frameUsed ||| frameKernel)) (entry.base / pageSize)
        (min (u64 (entry.base + entry.length) / pageSize) physmem.total - entry.base / pageSize) physmem
      refine ⟨marked.total, marked.address, marked.bitmapSize, fun frame inside => ?_⟩
      simp [marked.bits, range frame inside, reserved]

theorem markEntries_keeps (physmem : Physmem) (entries : List MemmapEntry) :
    (entries.foldl physmemAddrMarkEntry physmem).total = physmem.total ∧
      (entries.foldl physmemAddrMarkEntry physmem).pageframesAddress = physmem.pageframesAddress ∧
      (entries.foldl physmemAddrMarkEntry physmem).bitmapSize = physmem.bitmapSize := by
  induction entries generalizing physmem with
  | nil => exact ⟨rfl, rfl, rfl⟩
  | cons entry rest ih =>
    obtain ⟨total, address, size, _⟩ := physmemAddrMarkEntry_bits physmem entry
    obtain ⟨total', address', size'⟩ := ih (physmemAddrMarkEntry physmem entry)
    exact ⟨total'.trans total, address'.trans address, size'.trans size⟩

/-- With all bits set before, the marking pass clears exactly the usable frames. -/
theorem markEntries_bits (physmem : Physmem) (entries : List MemmapEntry)
    (consistent : ∀ first ∈ entries, ∀ second ∈ entries, ∀ frame, first.kind = .usable → second.kind ≠ .usable →
      Covers first frame → ¬Covers second frame)
    (full : ∀ frame < physmem.total, inUse physmem frame = true) :
    ∀ frame < physmem.total, inUse (entries.foldl physmemAddrMarkEntry physmem) frame = false ↔
      ∃ entry ∈ entries, entry.kind = .usable ∧ Covers entry frame := by
  intro frame inside
  induction entries using List.reverseRecOn with
  | nil => simp [full frame inside]
  | append_singleton entries last ih =>
    have earlier := ih (fun first left second right =>
      consistent first (List.mem_append_left _ left) second (List.mem_append_left _ right))
    obtain ⟨_, _, _, bits⟩ := physmemAddrMarkEntry_bits (entries.foldl physmemAddrMarkEntry physmem) last
    rw [List.foldl_append, List.foldl_cons, List.foldl_nil,
      bits frame ((markEntries_keeps physmem entries).1 ▸ inside)]
    split
    next covers =>
      constructor
      · intro free
        exact ⟨last, by simp, by simpa using free, covers⟩
      · rintro ⟨entry, member, usable, touches⟩
        by_contra used
        have reserved : last.kind ≠ .usable := by simpa using used
        exact consistent entry member last (by simp) frame usable reserved touches covers
    next misses =>
      rw [earlier]
      constructor
      · rintro ⟨entry, member, rest⟩
        exact ⟨entry, List.mem_append_left _ member, rest⟩
      · rintro ⟨entry, member, usable, covers⟩
        rcases List.mem_append.mp member with member | member
        · exact ⟨entry, member, usable, covers⟩
        · rw [List.mem_singleton.mp member] at covers
          exact (misses covers).elim

theorem trackingPass_usable {entries : List MemmapEntry} {size lowest address : Nat}
    (found : trackingPass entries size lowest = some address) :
    ∃ entry ∈ entries, entry.kind = .usable ∧ entry.base = address := by
  obtain ⟨entry, search, rfl⟩ := Option.map_eq_some_iff.mp found
  have accepted := List.find?_some search
  simp only [decide_eq_true_eq] at accepted
  exact ⟨entry, List.mem_of_find?_eq_some search, accepted.1, rfl⟩

/-- The tracking area starts where a usable entry starts. -/
theorem tracking_usable {entries : List MemmapEntry} {offset size address : Nat}
    (result : physmemAddrGetTracking (some entries) (some offset) size = .ok address) (given : address ≠ 0) :
    ∃ entry ∈ entries, entry.kind = .usable ∧ entry.base = address := by
  have found := Except.ok.inj result
  cases first : trackingPass entries size 0x1000000 with
  | some base =>
    rw [first] at found
    exact found ▸ trackingPass_usable first
  | none =>
    cases second : trackingPass entries size 0x100000 with
    | some base =>
      rw [first, second] at found
      exact found ▸ trackingPass_usable second
    | none =>
      cases third : trackingPass entries size 0 with
      | some base =>
        rw [first, second, third] at found
        exact found ▸ trackingPass_usable third
      | none =>
        rw [first, second, third] at found
        exact (given found.symm).elim

/-- The bytes of the pageframe array and of the bitmap. -/
def metadataSize (total : Nat) : Nat := total * pageframeSize + (total + 7) / 8

theorem metadataSize_eq {total : Nat} (small : total < 2 ^ 52) :
    u64 (u64 (total * pageframeSize) + (total + 7) / 8) = metadataSize total := by
  have array : u64 (total * pageframeSize) = total * pageframeSize := u64_eq (by simp only [pageframeSize]; omega)
  rw [array]
  exact u64_eq (by simp only [pageframeSize]; omega)

theorem highestFrame_lt (entries : List MemmapEntry) : physmemHighest entries / pageSize < 2 ^ 52 := by
  have bound := physmemHighest_lt entries
  simp only [pageSize]
  omega

private theorem full_byte : ∀ bit : Fin 8, (0xFF : UInt8).toBitVec.getLsbD bit.val = true := by
  decide

/-- A successful `physmem_init` in its three stages: an allocator with all bits
set, the marking pass, and the marking of the arrays themselves. -/
theorem physmemInit_stages {pageframes : Nat → Pageframe} {bitmap : Nat → UInt8} {mpr : Option (List MemmapEntry)}
    {hpr : Option Nat} {physmem : Physmem} (result : physmemInit pageframes bitmap mpr hpr = .ok physmem) :
    ∃ entries offset address blank, mpr = some entries ∧ hpr = some offset ∧
      (∃ entry ∈ entries, entry.kind = .usable ∧ entry.base = address) ∧
      blank.pageframesAddress = u64 (address + offset) ∧ blank.pageframesAddress ≠ 0 ∧
      blank.total = physmemHighest entries / pageSize ∧ blank.bitmapSize = (blank.total + 7) / 8 ∧
      (∀ frame < blank.total, inUse blank frame = true) ∧
      physmemAddrMarkUsed (entries.foldl physmemAddrMarkEntry blank) address
        (usedBytesToFrameCount (metadataSize blank.total)) = .ok physmem := by
  cases mpr with
  | none => cases result
  | some entries =>
    cases hpr with
    | none => cases result
    | some offset =>
      simp only [physmemInit, metadataSize_eq (highestFrame_lt entries)] at result
      cases tracking : physmemAddrGetTracking (some entries) (some offset)
          (metadataSize (physmemHighest entries / pageSize)) with
      | error stop =>
        rw [tracking] at result
        cases result
      | ok address =>
        rw [tracking] at result
        by_cases null : address = 0
        · simp only [null] at result
          cases result
        · simp only [bind, Except.bind, if_neg null, Option.getD_some, physmemAddrMark] at result
          by_cases missing : u64 (address + offset) = 0
          · simp only [if_pos missing] at result
            cases result
          · simp only [if_neg missing] at result
            refine ⟨entries, offset, address, _, rfl, rfl, tracking_usable tracking null, ?_, ?_, ?_, ?_, ?_, result⟩
            · rfl
            · exact missing
            · rfl
            · rfl
            · intro frame inside
              have byte : frame / 8 < (physmemHighest entries / pageSize + 7) / 8 := by
                dsimp only at inside
                omega
              simp only [inUse, BitArray.test, if_pos byte]
              exact full_byte ⟨frame % 8, Nat.mod_lt _ (by decide)⟩

/-- The frames marked for the arrays are those that hold a byte of them. -/
theorem metadata_frames {address total frame : Nat} (aligned : address % pageSize = 0) (bound : address < 2 ^ 64)
    (small : total < 2 ^ 52) (inside : frame < total) :
    (address / pageSize ≤ frame ∧ frame < address / pageSize +
      (min (u64 (address / pageSize + usedBytesToFrameCount (metadataSize total))) total - address / pageSize)) ↔
    address < (frame + 1) * pageSize ∧ frame * pageSize < address + metadataSize total := by
  have count : usedBytesToFrameCount (metadataSize total) = (metadataSize total + pageSize - 1) / pageSize := by
    rw [usedBytesToFrameCount, u64_eq]
    simp only [metadataSize, pageframeSize, pageSize]
    omega
  have nowrap : address / pageSize + usedBytesToFrameCount (metadataSize total) < 2 ^ 64 := by
    rw [count]
    simp only [metadataSize, pageframeSize, pageSize]
    omega
  rw [u64_eq nowrap, count]
  simp only [metadataSize, pageframeSize, pageSize] at *
  omega

/-- The bitmap after a successful `physmem_init` on any well-formed memory map. -/
theorem physmemInit_bits {pageframes : Nat → Pageframe} {bitmap : Nat → UInt8} {entries : List MemmapEntry}
    {offset : Nat} {physmem : Physmem} (wellFormed : WellFormedMap entries)
    (result : physmemInit pageframes bitmap (some entries) (some offset) = .ok physmem) :
    ∀ frame < physmem.total,
      inUse physmem frame = false ↔ InsideUsable entries frame ∧ ¬Metadata physmem offset frame := by
  obtain ⟨_, _, address, blank, same, same', ⟨area, member, usable, base⟩, pointer, present, highest, size, full,
    marks⟩ :=
    physmemInit_stages result
  cases same
  cases same'
  obtain ⟨total, address', size'⟩ := markEntries_keeps blank entries
  have bits := markEntries_bits blank entries
    (fun _ left _ right _ usable reserved covers => wellFormed.consistent left right usable reserved covers) full
  obtain ⟨after, expected, marked⟩ := physmemAddrMarkUsed_marked (address'.trans_ne present) address
    (usedBytesToFrameCount (metadataSize blank.total))
  cases marks.symm.trans expected
  intro frame inside
  rw [marked.total, total] at inside
  have small := blank.total_lt
  have bound : address < 2 ^ 64 := base ▸ area.base_lt
  have aligned : address % pageSize = 0 := base ▸ (wellFormed.aligned area member usable).1
  have arrays : Metadata physmem offset frame ↔
      address < (frame + 1) * pageSize ∧ frame * pageSize < address + metadataSize blank.total := by
    rw [Metadata, marked.address, address', pointer, u64Sub_offset bound, marked.total, total, marked.bitmapSize,
      size', size]
    rfl
  have covered : (∃ entry ∈ entries, entry.kind = .usable ∧ Covers entry frame) ↔ InsideUsable entries frame := by
    constructor
    · rintro ⟨entry, member, usable, covers⟩
      exact ⟨entry, member, usable, wellFormed.covered member usable covers⟩
    · rintro ⟨entry, member, usable, low, high⟩
      exact ⟨entry, member, usable, wellFormed.covers member usable low high (highest ▸ inside)⟩
  have range := arrays.trans (metadata_frames aligned bound small inside).symm
  rw [marked.bits, total]
  split
  next under => simp [range.mpr under]
  next clear => rw [bits frame inside, covered, and_iff_left (fun arrays => clear (range.mp arrays))]

theorem physmemInit_present {pageframes : Nat → Pageframe} {bitmap : Nat → UInt8} {mpr : Option (List MemmapEntry)}
    {hpr : Option Nat} {physmem : Physmem} (result : physmemInit pageframes bitmap mpr hpr = .ok physmem) :
    physmem.pageframesAddress ≠ 0 := by
  obtain ⟨entries, _, address, blank, _, _, _, _, present, _, _, _, marks⟩ := physmemInit_stages result
  obtain ⟨_, kept, _⟩ := markEntries_keeps blank entries
  obtain ⟨after, expected, marked⟩ := physmemAddrMarkUsed_marked (kept.trans_ne present) address
    (usedBytesToFrameCount (metadataSize blank.total))
  cases marks.symm.trans expected
  exact marked.address.trans_ne (kept.trans_ne present)

theorem initialised_valid {physmem : Physmem} (initialised : Initialised physmem) : PhysmemValid ⟨physmem, []⟩ := by
  obtain ⟨_, _, _, _, result⟩ := initialised
  refine ⟨physmemInit_present result, by simp, by simp, ?_⟩
  exact ⟨.nil, by simp [pool]⟩

/-- When the tracking area is found and its mapping is not null, `physmem_init` succeeds. -/
theorem physmemInit_succeeds (pageframes : Nat → Pageframe) (bitmap : Nat → UInt8) {entries : List MemmapEntry}
    {offset address : Nat} (tracking : physmemAddrGetTracking (some entries) (some offset)
      (metadataSize (physmemHighest entries / pageSize)) = .ok address)
    (given : address ≠ 0) (mapped : u64 (address + offset) ≠ 0) :
    ∃ physmem, physmemInit pageframes bitmap (some entries) (some offset) = .ok physmem ∧
      physmem.total = physmemHighest entries / pageSize ∧ physmem.pageframesAddress = u64 (address + offset) ∧
      physmem.bitmapSize = (physmem.total + 7) / 8 := by
  simp only [physmemInit, metadataSize_eq (highestFrame_lt entries), tracking, bind, Except.bind, if_neg given,
    Option.getD_some, physmemAddrMark, if_neg mapped]
  generalize setting : ({ pageframesAddress := u64 (address + offset), .. } : Physmem) = blank
  obtain ⟨total, kept, size⟩ := markEntries_keeps blank entries
  subst setting
  obtain ⟨after, expected, marked⟩ := physmemAddrMarkUsed_marked (kept.trans_ne mapped) address
    (usedBytesToFrameCount (metadataSize (physmemHighest entries / pageSize)))
  refine ⟨after, expected, marked.total.trans total, marked.address.trans kept, ?_⟩
  rw [marked.bitmapSize, size, marked.total, total]

/-- Four megabytes of usable memory between two reserved areas. -/
def exampleMap : List MemmapEntry :=
  [⟨0, 0x9FC00, .other 1, by decide, by decide⟩, ⟨0x100000, 0x400000, .usable, by decide, by decide⟩,
    ⟨0x500000, 0x1200, .other 1, by decide, by decide⟩]

private theorem exampleMap_wellFormed : WellFormedMap exampleMap := ⟨by decide, by decide⟩

private theorem exampleMap_init : ∃ physmem,
    physmemInit (fun _ => ⟨0, 0⟩) (fun _ => 0) (some exampleMap) (some heapStart) = .ok physmem ∧
      physmem.total = 0x500 ∧ physmem.pageframesAddress = 0xFFFF800000100000 ∧ physmem.bitmapSize = 0xA0 := by
  have tracking : physmemAddrGetTracking (some exampleMap) (some heapStart)
      (metadataSize (physmemHighest exampleMap / pageSize)) = .ok 0x100000 := rfl
  obtain ⟨physmem, result, total, address, size⟩ := physmemInit_succeeds (fun _ => ⟨0, 0⟩) (fun _ => 0) tracking
    (by decide) (by decide)
  exact ⟨physmem, result, total, address, size.trans (by rw [total]; rfl)⟩

/-- After `physmem_init` on a well-formed map exactly the usable frames outside
the allocator's own arrays are free, and no later allocation holds any other frame. -/
theorem physmem_init_frees {pageframes : Nat → Pageframe} {bitmap : Nat → UInt8} {entries : List MemmapEntry}
    {offset : Nat} {physmem : Physmem} (wellFormed : WellFormedMap entries)
    (result : physmemInit pageframes bitmap (some entries) (some offset) = .ok physmem) :
    (∀ frame < physmem.total, bitmapTest physmem.bitmap frame = 0 ↔
      InsideUsable entries frame ∧ ¬Metadata physmem offset frame) ∧
    ∀ state, Reachable (· = ⟨physmem, []⟩) PhysmemStep state → ∀ allocation ∈ state.live, ∀ frame,
      Holds allocation frame → InsideUsable entries frame ∧ ¬Metadata physmem offset frame := by
  have bits := physmemInit_bits wellFormed result
  refine ⟨fun frame inside => ?_, fun state reached allocation member frame holds => ?_⟩
  · rw [bitmapTest_eq, Bool.toNat_eq_zero]
    exact bits frame inside
  · obtain ⟨_, territory, _⟩ := physmem_run (initialised_valid ⟨_, _, _, _, result⟩) reached
    have held : frame ∈ IntervalPool.territory (pool state) := by
      refine Finset.mem_union_right _ (Finset.mem_biUnion.mpr ⟨frames allocation, ?_, (holds_iff _ _).mp holds⟩)
      exact List.mem_toFinset.mpr (List.mem_map_of_mem member)
    rw [territory] at held
    have free : frame ∈ freeFrames physmem := by simpa [IntervalPool.territory, pool] using held
    obtain ⟨inside, clear⟩ := (mem_freeFrames physmem frame).mp free
    exact (bits frame inside).mp clear

theorem physmem_init_frees_exampleMap : ∃ physmem,
    physmemInit (fun _ => ⟨0, 0⟩) (fun _ => 0) (some exampleMap) (some heapStart) = .ok physmem ∧
    (∀ frame < 0x500, bitmapTest physmem.bitmap frame = 0 ↔
      InsideUsable exampleMap frame ∧ ¬Metadata physmem heapStart frame) ∧
    ∀ state, Reachable (· = ⟨physmem, []⟩) PhysmemStep state → ∀ allocation ∈ state.live, ∀ frame,
      Holds allocation frame → InsideUsable exampleMap frame ∧ ¬Metadata physmem heapStart frame := by
  obtain ⟨physmem, result, total, _⟩ := exampleMap_init
  obtain ⟨bits, runs⟩ := physmem_init_frees exampleMap_wellFormed result
  exact ⟨physmem, result, total ▸ bits, runs⟩

/-- In every run from an initialised allocator the live allocations are disjoint
and marked used, and no frame is lost or counted twice. -/
theorem physmem_run_conserves {physmem : Physmem} {state : PhysmemState} (initialised : Initialised physmem)
    (reached : Reachable (· = ⟨physmem, []⟩) PhysmemStep state) :
    (state.live.Pairwise fun first second => ∀ frame, ¬(Holds first frame ∧ Holds second frame)) ∧
      (∀ allocation ∈ state.live, ∀ frame, Holds allocation frame →
        frame < state.physmem.total ∧ bitmapTest state.physmem.bitmap frame = 1) ∧
      physmemFreeGet state.physmem + (state.live.map Prod.snd).sum = physmemFreeGet physmem := by
  obtain ⟨valid, _, total⟩ := physmem_run (initialised_valid initialised) reached
  refine ⟨?_, ?_, ?_⟩
  · refine (List.pairwise_map.mp valid.apart.apart).imp ?_
    rintro first second disjoint frame ⟨left, right⟩
    exact Finset.disjoint_left.mp disjoint ((holds_iff first frame).mp left) ((holds_iff second frame).mp right)
  · intro allocation member frame holds
    have inside : frame < state.physmem.total := lt_of_lt_of_le holds.2 (valid.inside allocation member)
    have taken := Finset.disjoint_left.mp (valid.apart.taken _ (List.mem_map_of_mem member))
      ((holds_iff allocation frame).mp holds)
    have used : inUse state.physmem frame = true := by
      by_contra free
      exact taken ((mem_freeFrames _ _).mpr ⟨inside, by simpa using free⟩)
    refine ⟨inside, ?_⟩
    rw [bitmapTest_eq, ← inUse, used]
    rfl
  · simp only [IntervalPool.total, pool, List.map_map, List.map_nil, List.sum_nil, Nat.add_zero] at total
    rw [physmemFreeGet_eq, physmemFreeGet_eq, ← total]
    rfl

theorem physmem_run_conserves_exampleMap : ∃ (physmem : Physmem) (state : PhysmemState), state.live.length = 1 ∧
    (state.live.Pairwise fun first second => ∀ frame, ¬(Holds first frame ∧ Holds second frame)) ∧
    (∀ allocation ∈ state.live, ∀ frame, Holds allocation frame →
      frame < state.physmem.total ∧ bitmapTest state.physmem.bitmap frame = 1) ∧
    physmemFreeGet state.physmem + (state.live.map Prod.snd).sum = physmemFreeGet physmem := by
  obtain ⟨physmem, result, total, address, size⟩ := exampleMap_init
  have run : FreeRun physmem startSearch 1 := by
    intro frame low high
    simp only [startSearch] at low high
    obtain rfl : frame = 512 := by omega
    refine (physmemInit_bits exampleMap_wellFormed result 512 (by rw [total]; decide)).mpr ⟨?_, ?_⟩
    · exact ⟨⟨0x100000, 0x400000, .usable, by decide, by decide⟩, by simp [exampleMap], rfl, by decide, by decide⟩
    · rw [Metadata, address, total, size]
      decide
  rcases physmemAllocTo_spec (physmemInit_present result) 1 with
    ⟨start, after, _, low, _, _, _, allocated, _⟩ | ⟨_, full⟩
  · have given : start * pageSize ≠ 0 := by
      simp only [startSearch] at low
      simp only [pageSize]
      omega
    have reached : Reachable (· = ⟨physmem, []⟩) PhysmemStep ⟨after, [(start * pageSize, 1)]⟩ := by
      refine .step (.initial rfl) (show PhysmemStep _ (.alloc 1) _ from ⟨_, _, allocated, ?_⟩)
      rw [if_neg given]
    exact ⟨physmem, _, rfl, physmem_run_conserves ⟨_, _, _, _, result⟩ reached⟩
  · exact (full (by decide) startSearch (le_refl _) (by rw [total]; decide) run).elim

end Kernix.Proofs
