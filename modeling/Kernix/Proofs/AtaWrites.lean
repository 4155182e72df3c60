import Kernix.Drivers.Ata

/-! Both polls of a write wait for `DRQ`, which a flush does not set when it has ended
well: a write that succeeds is reported as one that failed. -/

namespace Kernix.Proofs
open Ata

variable {σ : Type} (ports : Ports σ) (base : UInt16)

/-- The status that a device answers when it is read for the given time from now on. -/
def statusAt (count : Nat) (device : σ) : UInt8 := (ports.inb (base + ataStatus) (readStatus ports base count device)).1

def Busy (status : UInt8) : Prop := status &&& ataStatusBsy ≠ 0

/-- `ERR` or `DF`, with `BSY` clear. -/
def Faulty (status : UInt8) : Prop :=
  status &&& ataStatusBsy = 0 ∧ (status &&& ataStatusErr ≠ 0 ∨ status &&& ataStatusDf ≠ 0)

/-- `DRQ` without an error, with `BSY` clear. -/
def WantsData (status : UInt8) : Prop :=
  status &&& ataStatusBsy = 0 ∧ status &&& ataStatusErr = 0 ∧ status &&& ataStatusDf = 0 ∧ status &&& ataStatusDrq ≠ 0

/-- `BSY`, `DRQ`, `ERR` and `DF` clear. -/
def Idle (status : UInt8) : Prop :=
  status &&& ataStatusBsy = 0 ∧ status &&& ataStatusErr = 0 ∧ status &&& ataStatusDf = 0 ∧ status &&& ataStatusDrq = 0

/-- The device is busy for a while and then asks for the data, before the time limit of
the poll that waits for it. -/
def Accepts (device : σ) : Prop :=
  ∃ count < timeout, (∀ earlier < count, Busy (statusAt ports base earlier device)) ∧
    WantsData (statusAt ports base count device)

/-- The device is busy for a while and then reports an error. -/
def Fails (device : σ) : Prop :=
  ∃ count, (∀ earlier < count, Busy (statusAt ports base earlier device)) ∧ Faulty (statusAt ports base count device)

/-- The device is busy for a while and has then done a command without data. It stays
so until the next command. -/
def Completes (device : σ) : Prop :=
  ∃ count, (∀ earlier < count, Busy (statusAt ports base earlier device)) ∧
    ∀ later ≥ count, Idle (statusAt ports base later device)

/-- What a write is to return, for a device that has got its command. -/
structure WriteReported (buf : Fin 512 → UInt8) (device : σ) (ret : Int) : Prop where
  success : Accepts ports base device →
    Completes ports base (writeAndFlush ports base buf (ataPoll ports base device).2) → ret = 0
  failure : Fails ports base device ∨
    Accepts ports base device ∧ Fails ports base (writeAndFlush ports base buf (ataPoll ports base device).2) → ret = -1

variable {ports base}

theorem statusAt_succ (count : Nat) (device : σ) :
    statusAt ports base (count + 1) device = statusAt ports base count (ports.inb (base + ataStatus) device).2 := rfl

/-- A poll that meets nothing but busy and idle states runs into its time limit. -/
theorem pollFrom_idle {left : Nat} {device : σ}
    (quiet : ∀ count < left, Busy (statusAt ports base count device) ∨ Idle (statusAt ports base count device)) :
    (pollFrom ports base left device).1 = -2 := by
  induction left generalizing device with
  | zero => rfl
  | succ left ih =>
    have rest := @ih (ports.inb (base + ataStatus) device).2 fun count inside => by
      rw [← statusAt_succ]
      exact quiet (count + 1) (by omega)
    unfold pollFrom
    rcases quiet 0 (by omega) with busy | ⟨ready, fine, whole, none⟩
    · simp only [Busy, statusAt, readStatus] at busy
      dsimp only
      rw [if_neg busy]
      exact rest
    · simp only [statusAt, readStatus] at ready fine whole none
      dsimp only
      rw [if_pos ready, if_neg (not_not.mpr fine), if_neg (not_not.mpr whole), if_neg (not_not.mpr none)]
      exact rest

/-- A poll of a device that reports an error does not end well, however long it is busy. -/
theorem pollFrom_fails {left count : Nat} {device : σ}
    (busy : ∀ earlier < count, Busy (statusAt ports base earlier device))
    (faulty : Faulty (statusAt ports base count device)) : (pollFrom ports base left device).1 ≠ 0 := by
  induction left generalizing count device with
  | zero =>
    simp [pollFrom]
  | succ left ih =>
    unfold pollFrom
    dsimp only
    cases count with
    | zero =>
      obtain ⟨ready, error | fault⟩ := faulty
      · simp only [statusAt, readStatus] at ready error
        rw [if_pos ready, if_pos error]
        simp
      · simp only [statusAt, readStatus] at ready fault
        rw [if_pos ready]
        by_cases error : (ports.inb (base + ataStatus) device).1 &&& ataStatusErr ≠ 0
        · rw [if_pos error]
          simp
        · rw [if_neg error, if_pos fault]
          simp
    | succ count =>
      have first := busy 0 (by omega)
      simp only [Busy, statusAt, readStatus] at first
      rw [if_neg first]
      apply @ih count
      · intro earlier inside
        rw [← statusAt_succ]
        exact busy (earlier + 1) (by omega)
      · rw [← statusAt_succ]
        exact faulty

theorem ataPoll_completed {device : σ} (completes : Completes ports base device) : (ataPoll ports base device).1 ≠ 0 := by
  obtain ⟨count, busy, idle⟩ := completes
  have limit : (ataPoll ports base device).1 = -2 := by
    apply pollFrom_idle
    intro read _
    by_cases early : read < count
    · exact .inl (busy read early)
    · exact .inr (idle read (by omega))
  rw [limit]
  decide

theorem ataPoll_failed {device : σ} (fails : Fails ports base device) : (ataPoll ports base device).1 ≠ 0 := by
  obtain ⟨count, busy, faulty⟩ := fails
  exact pollFrom_fails busy faulty

/-- A write succeeds only when both polls do. -/
theorem transfer_eq (buf : Fin 512 → UInt8) (device : σ) :
    (transfer ports base buf device).1 =
      if (ataPoll ports base device).1 = 0 ∧
        (ataPoll ports base (writeAndFlush ports base buf (ataPoll ports base device).2)).1 = 0 then 0 else -1 := by
  unfold transfer
  dsimp only
  by_cases first : (ataPoll ports base device).1 = 0
  · rw [if_neg (not_not.mpr first)]
    by_cases second : (ataPoll ports base (writeAndFlush ports base buf (ataPoll ports base device).2)).1 = 0
    · rw [if_neg (not_not.mpr second), if_pos ⟨first, second⟩]
    · rw [if_pos second, if_neg (fun both => second both.2)]
  · rw [if_pos first, if_neg (fun both => first both.1)]

/-- What is returned is right exactly when the device does not do the whole write
without an error. -/
theorem transfer_reported_iff (buf : Fin 512 → UInt8) (device : σ) :
    WriteReported ports base buf device (transfer ports base buf device).1 ↔
      ¬(Accepts ports base device ∧
        Completes ports base (writeAndFlush ports base buf (ataPoll ports base device).2)) := by
  rw [transfer_eq]
  constructor
  · rintro reported ⟨accepts, completes⟩
    have success := reported.success accepts completes
    rw [if_neg (fun both => ataPoll_completed completes both.2)] at success
    exact absurd success (by decide)
  · intro incomplete
    refine ⟨fun accepts completes => absurd ⟨accepts, completes⟩ incomplete, ?_⟩
    rintro (fails | ⟨_, fails⟩)
    · exact if_neg fun both => ataPoll_failed fails both.1
    · exact if_neg fun both => ataPoll_failed fails both.2

/-- The state of the device when `ata_write_sector` has given its command. -/
def issueWrite (ports : Ports σ) (base : UInt16) (drive : UInt8) (lba : Nat) (device : σ) : σ :=
  if 0x10000000 ≤ lba then issueLba48 ports base drive lba device else issueLba28 ports base drive lba device

/-- A device accepts the data of a command and completes the flush. -/
def Succeeds (ports : Ports σ) (base : UInt16) (buf : Fin 512 → UInt8) (device : σ) : Prop :=
  Accepts ports base device ∧ Completes ports base (writeAndFlush ports base buf (ataPoll ports base device).2)

/-- Both write functions report what the device says exactly when it does not do the
whole write without an error. -/
theorem ata_write_reported_iff (ports : Ports σ) (base : UInt16) (drive : UInt8) (lba : Nat) (buf : Fin 512 → UInt8)
    (device : σ) :
    (WriteReported ports base buf (issueWrite ports base drive lba device)
        (Ata.ataWriteSector ports base drive lba buf device).1 ↔
      ¬Succeeds ports base buf (issueWrite ports base drive lba device)) ∧
    (WriteReported ports base buf (issueLba48 ports base drive lba device)
        (ataWriteSectorLba48 ports base drive lba buf device).1 ↔
      ¬Succeeds ports base buf (issueLba48 ports base drive lba device)) := by
  refine ⟨?_, transfer_reported_iff buf _⟩
  unfold Ata.ataWriteSector issueWrite
  split
  · exact transfer_reported_iff buf _
  · exact transfer_reported_iff buf _

/-- A drive that is never busy: it asks for the data of a write until it is flushed. -/
def promptDrive : Ports Bool where
  inb _ flushed := (if flushed then 0x40 else 0x48, flushed)
  outb _ value flushed := if value = ataCmdFlush then true else flushed
  outw _ _ flushed := flushed

theorem promptDrive_statusAt (count : Nat) (flushed : Bool) :
    statusAt promptDrive 0x1F0 count flushed = if flushed then 0x40 else 0x48 := by
  induction count with
  | zero => rfl
  | succ count ih => exact ih

theorem promptDrive_pollFrom (left : Nat) (flushed : Bool) : (pollFrom promptDrive 0x1F0 left flushed).2 = flushed := by
  induction left with
  | zero => rfl
  | succ left ih =>
    cases flushed with
    | false => rfl
    | true => exact ih

theorem promptDrive_succeeds (buf : Fin 512 → UInt8) : Succeeds promptDrive 0x1F0 buf false := by
  have polled : (ataPoll promptDrive 0x1F0 false).2 = false := promptDrive_pollFrom _ false
  have flushed : writeAndFlush promptDrive 0x1F0 buf false = true := rfl
  constructor
  · refine ⟨0, by decide, fun earlier before => absurd before (by omega), ?_⟩
    rw [promptDrive_statusAt]
    exact ⟨rfl, rfl, rfl, by decide⟩
  · rw [polled, flushed]
    refine ⟨0, fun earlier before => absurd before (by omega), fun later _ => ?_⟩
    rw [promptDrive_statusAt]
    exact ⟨rfl, rfl, rfl, rfl⟩

/-- A sector of zeros, written to a drive that is never busy. -/
theorem prompt_write_not_reported :
    ¬WriteReported promptDrive 0x1F0 (fun _ => 0) (issueWrite promptDrive 0x1F0 0 5 false)
      (Ata.ataWriteSector promptDrive 0x1F0 0 5 (fun _ => 0) false).1 := by
  have issued : issueWrite promptDrive 0x1F0 0 5 false = false := by decide
  have short : Ata.ataWriteSector promptDrive 0x1F0 0 5 (fun _ => 0) false =
      transfer promptDrive 0x1F0 (fun _ => 0) (issueLba28 promptDrive 0x1F0 0 5 false) := if_neg (by decide)
  intro reported
  rw [short] at reported
  exact (transfer_reported_iff _ _).mp reported (issued ▸ promptDrive_succeeds _)

end Kernix.Proofs
