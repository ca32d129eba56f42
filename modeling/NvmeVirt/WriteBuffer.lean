import Mathlib.Algebra.Group.Nat.Defs
import NvmeVirt.FaultOutcome

namespace NvmeVirt.WriteBuffer

/-- The functions whose `NVMEV_ASSERT`, `BUG_ON` or pointers can stop the
module. -/
inductive Site where
  | initLines
  | setMaptblEnt
  | ppa2pgidx
  | getNewPage
  | advanceWritePointer
  | markPageInvalid
  | markPageValid
  | gcWritePage
  | cleanOneFlashpg
  | bufferAllocate
  | znsWriteZrwa
  | flushExplicitZrwa
  | resetZone
  | getMappingEntry
  | findNextSlot
  | newMappingEntry
  | performKvBatch
  | getIoWorker
  | procIoSq
  | allocateWorkQueueEntry
  | insertReqSorted
  | reclaimCompletedReqs
  | doPerformIo
  | fillCqResult
  | procIoCq
  | chmodelInit
  | chmodelRequest
  | ssdAdvanceNand
  | scheduleIoUnits
  | doPerformIoUsingDma
  | procBars
  | procAdminSq
  | procAdminReq
  | kvIterClose
  | kvIterRead
  | bitmapAllocatorInit
  | bitmapAllocate
  | ssdInitParams
  | storageMapped
deriving DecidableEq, Repr

inductive Fault where
  /-- `NVMEV_ASSERT` or `BUG_ON` fired. -/
  | bugOn (site : Site)
  /-- `get_next_free_line` found no line; no caller survives its `NULL`. -/
  | noFreeLine
  /-- A table that was never allocated is used. -/
  | nullPointer (site : Site)
  | divideByZero (site : Site)
  /-- A loop that would not end. -/
  | endlessLoop (site : Site)
  /-- A buffer is used beyond its end. -/
  | outOfBounds (site : Site)
  /-- A local variable is read before it was set. -/
  | uninitialized (site : Site)
deriving DecidableEq, Repr

def nvmevAssert (c : Prop) [Decidable c] (site : Site) : Except Fault Unit :=
  if c then .ok () else .error (.bugOn site)

@[simp] theorem nvmevAssert_of {c : Prop} [Decidable c] (h : c) (site : Site) :
    nvmevAssert c site = .ok () := by
  simp [nvmevAssert, h]

theorem of_nvmevAssert {c : Prop} [Decidable c] {site : Site} {u : Unit}
    (h : nvmevAssert c site = .ok u) : c := by
  rw [nvmevAssert] at h
  split at h
  · next hc => exact hc
  · cases h

/-- `LBA_TO_BYTE`, with the 512-byte blocks of every shipped configuration. -/
def lbaToByte (lba : Nat) : Nat := lba * 512

/-- `struct buffer`. -/
structure Buffer where
  size : Nat
  remaining : Nat
deriving DecidableEq, Repr

def bufferInit (size : Nat) : Buffer := { size := size, remaining := size }

/-- `buffer_allocate`: all of `size` bytes or nothing; the granted size is
returned as a `uint32_t`. -/
def bufferAllocate (buf : Buffer) (size : Nat) : Except Fault (Nat × Buffer) := do
  nvmevAssert (size ≤ buf.size) .bufferAllocate
  let size := if buf.remaining < size then 0 else size
  return (size % 2 ^ 32, { buf with remaining := buf.remaining - size })

theorem bufferAllocate_cases {buf buf' : Buffer} {size granted : Nat}
    (hrun : bufferAllocate buf size = .ok (granted, buf')) :
    buf'.size = buf.size ∧
      ((buf.remaining < size ∧ granted = 0 ∧ buf' = buf) ∨
        (granted = size % 2 ^ 32 ∧ buf'.remaining + size = buf.remaining)) := by
  obtain ⟨-, -, hrun⟩ := FaultOutcome.exists_of_bind_eq_ok hrun
  by_cases hlt : buf.remaining < size
  · rw [if_pos hlt] at hrun
    cases hrun
    exact ⟨rfl, .inl ⟨hlt, rfl, rfl⟩⟩
  · rw [if_neg hlt] at hrun
    cases hrun
    refine ⟨rfl, .inr ⟨rfl, ?_⟩⟩
    change buf.remaining - size + size = buf.remaining
    omega

theorem bufferAllocate_total (buf : Buffer) (size : Nat) :
    FaultOutcome.Outcome (bufferAllocate buf size) (fun _ => size ≤ buf.size)
      (fun _ => buf.size < size) := by
  rw [bufferAllocate, nvmevAssert]
  split
  · next hle => exact hle
  · next hgt => exact Nat.lt_of_not_le hgt

def bufferRelease (buf : Buffer) (size : Nat) : Buffer :=
  { buf with remaining := buf.remaining + size }

def bufferRefill (buf : Buffer) : Buffer := { buf with remaining := buf.size }

end NvmeVirt.WriteBuffer
