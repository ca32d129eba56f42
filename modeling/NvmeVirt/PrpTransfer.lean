import NvmeVirt.ByteMemory
import NvmeVirt.WriteBuffer

/-!
The loop that moves the data of a command between the host pages named by its
physical region pages and a memory of the device: `__do_perform_io` of `io.c`,
and the copies of it in `kv_ftl.c`, for which every page frame is valid.
-/

namespace NvmeVirt.PrpTransfer

open ByteMemory
open FaultOutcome
open WriteBuffer

/-- `PAGE_SIZE`. -/
def pageSize : Nat := 4096

structure DataPtr where
  prp1 : Nat
  prp2 : Nat
deriving DecidableEq, Repr

inductive Direction where
  | toDevice
  | toHost
  /-- The opcode moves no data. -/
  | neither
deriving DecidableEq, Repr

/-- A little-endian `u64`. -/
def readU64 (mem : Memory) (a : Nat) : Nat :=
  (slice mem a 8).foldr (fun byte rest => byte.toNat + 256 * rest) 0

/-- The locals `prp_offs`, `prp2_offs` and `paddr_list` of the loop. -/
structure PrpCursor where
  prpOffs : Nat
  prp2Offs : Nat
  paddrList : Option Nat
deriving DecidableEq, Repr

def PrpCursor.start : PrpCursor := { prpOffs := 0, prp2Offs := 0, paddrList := none }

section Walk

variable (pfnValid : Nat → Bool) (dptr : DataPtr)

/-- Where `paddr_list` points: `+=` counts in entries of the list when the page
had to be remapped. -/
def listAddr (paddr : Nat) : Nat :=
  if pfnValid (paddr / pageSize) then paddr else paddr + 8 * (paddr % pageSize)

/-- Where `vaddr + mem_offs` points: a remapped page starts at `paddr` itself. -/
def dataAddr (paddr memOffs : Nat) : Nat :=
  if pfnValid (paddr / pageSize) then paddr / pageSize * pageSize + memOffs
  else paddr + memOffs

/-- The page of the next round; a third round without a list dereferences
`NULL`. -/
def nextPaddr (host : Memory) (remaining : Nat) (cursor : PrpCursor) :
    Except Fault (Nat × PrpCursor) :=
  let prpOffs := cursor.prpOffs + 1
  if prpOffs = 1 then
    .ok (dptr.prp1, { cursor with prpOffs := prpOffs })
  else if prpOffs = 2 then
    if pageSize < remaining then
      let list := listAddr pfnValid dptr.prp2
      .ok (readU64 host list, { prpOffs := prpOffs, prp2Offs := 1, paddrList := some list })
    else
      .ok (dptr.prp2, { cursor with prpOffs := prpOffs })
  else
    match cursor.paddrList with
    | none => .error (.nullPointer .doPerformIo)
    | some list =>
        .ok (readU64 host (list + 8 * cursor.prp2Offs),
          { cursor with prpOffs := prpOffs, prp2Offs := cursor.prp2Offs + 1 })

def ioSize (paddr remaining : Nat) : Nat :=
  let size := min remaining pageSize
  if pageSize < size + paddr % pageSize then pageSize - paddr % pageSize else size

structure Transfer where
  host : Memory
  device : Memory
  offset : Nat
  remaining : Nat
  cursor : PrpCursor

/-- The `while (remaining)` loop; every round moves at least one byte. -/
def transferLoop (dir : Direction) : Nat → Transfer → Except Fault Transfer
  | 0, t => if t.remaining = 0 then .ok t else .error (.endlessLoop .doPerformIo)
  | fuel + 1, t =>
      if t.remaining = 0 then .ok t
      else do
        let (paddr, cursor) ← nextPaddr pfnValid dptr t.host t.remaining t.cursor
        let addr := dataAddr pfnValid paddr (paddr % pageSize)
        let size := ioSize paddr t.remaining
        let rest :=
          { t with
            offset := t.offset + size
            remaining := t.remaining - size
            cursor := cursor }
        match dir with
        | .toDevice =>
            transferLoop dir fuel
              { rest with device := memcpy t.device t.offset t.host addr size }
        | .toHost =>
            transferLoop dir fuel
              { rest with host := memcpy t.host addr t.device t.offset size }
        | .neither => transferLoop dir fuel rest

/-- The transfer of `length` bytes at `offset` of the device. -/
def performIo (dir : Direction) (host device : Memory) (offset length : Nat) :
    Except Fault (Memory × Memory) := do
  let t ← transferLoop pfnValid dptr dir length
    { host := host
      device := device
      offset := offset
      remaining := length
      cursor := .start }
  return (t.host, t.device)

/-- The bytes that the pages of a command hold, in the order of the walk. -/
def gatherLoop (host : Memory) : Nat → Nat → PrpCursor → Except Fault (List UInt8)
  | 0, remaining, _ =>
      if remaining = 0 then .ok [] else .error (.endlessLoop .doPerformIo)
  | fuel + 1, remaining, cursor =>
      if remaining = 0 then .ok []
      else do
        let (paddr, cursor) ← nextPaddr pfnValid dptr host remaining cursor
        let size := ioSize paddr remaining
        let rest ← gatherLoop host fuel (remaining - size) cursor
        return slice host (dataAddr pfnValid paddr (paddr % pageSize)) size ++ rest

/-- The payload of a command of `length` bytes. -/
def payload (host : Memory) (length : Nat) : Except Fault (List UInt8) :=
  gatherLoop pfnValid dptr host length length .start

end Walk

variable {pfnValid : Nat → Bool} {dptr : DataPtr}

theorem ioSize_le (paddr remaining : Nat) : ioSize paddr remaining ≤ remaining := by
  have hmod := Nat.mod_lt paddr (show 0 < pageSize by decide)
  rw [ioSize]
  split <;> omega

theorem gatherLoop_length {host : Memory} {fuel remaining : Nat} {cursor : PrpCursor}
    {bytes : List UInt8}
    (hrun : gatherLoop pfnValid dptr host fuel remaining cursor = .ok bytes) :
    bytes.length = remaining := by
  induction fuel generalizing remaining cursor bytes with
  | zero =>
      rw [gatherLoop] at hrun
      split at hrun
      · next hzero =>
        cases hrun
        exact hzero.symm
      · cases hrun
  | succ fuel ih =>
      rw [gatherLoop] at hrun
      split at hrun
      · next hzero =>
        cases hrun
        exact hzero.symm
      · obtain ⟨⟨paddr, cursor'⟩, -, hrun⟩ := exists_of_bind_eq_ok hrun
        obtain ⟨rest, hrest, hrun⟩ := exists_of_bind_eq_ok hrun
        cases hrun
        have hle := ioSize_le paddr remaining
        rw [List.length_append, length_slice, ih hrest]
        omega

theorem transferLoop_toDevice {fuel : Nat} {t t' : Transfer}
    (hrun : transferLoop pfnValid dptr .toDevice fuel t = .ok t') :
    ∃ bytes, gatherLoop pfnValid dptr t.host fuel t.remaining t.cursor = .ok bytes ∧
      t'.host = t.host ∧ t'.device = overwrite t.device t.offset bytes := by
  induction fuel generalizing t with
  | zero =>
      rw [transferLoop] at hrun
      split at hrun
      · next hzero =>
        cases hrun
        exact ⟨[], by rw [gatherLoop, if_pos hzero], rfl, by simp⟩
      · cases hrun
  | succ fuel ih =>
      rw [transferLoop] at hrun
      split at hrun
      · next hzero =>
        cases hrun
        exact ⟨[], by rw [gatherLoop, if_pos hzero], rfl, by simp⟩
      · next hmore =>
        obtain ⟨⟨paddr, cursor⟩, hnext, hrun⟩ := exists_of_bind_eq_ok hrun
        obtain ⟨bytes, hbytes, hhost, hdevice⟩ := ih hrun
        refine ⟨slice t.host (dataAddr pfnValid paddr (paddr % pageSize))
          (ioSize paddr t.remaining) ++ bytes, ?_, hhost, ?_⟩
        · rw [gatherLoop, if_neg hmore, hnext]
          dsimp only at hbytes
          simp only [ok_bind, hbytes]
          rfl
        · rw [hdevice, memcpy_eq_overwrite]
          exact overwrite_append length_slice

theorem performIo_toDevice {host device host' device' : Memory} {offset length : Nat}
    (hrun : performIo pfnValid dptr .toDevice host device offset length =
      .ok (host', device')) :
    ∃ bytes, payload pfnValid dptr host length = .ok bytes ∧ bytes.length = length ∧
      host' = host ∧ device' = overwrite device offset bytes := by
  obtain ⟨t, ht, hrun⟩ := exists_of_bind_eq_ok hrun
  cases hrun
  obtain ⟨bytes, hbytes, hhost, hdevice⟩ := transferLoop_toDevice ht
  exact ⟨bytes, hbytes, gatherLoop_length hbytes, hhost, hdevice⟩

theorem transferLoop_of_gatherLoop {fuel : Nat} {t : Transfer} {bytes : List UInt8}
    (h : gatherLoop pfnValid dptr t.host fuel t.remaining t.cursor = .ok bytes) :
    ∃ t', transferLoop pfnValid dptr .toDevice fuel t = .ok t' := by
  induction fuel generalizing t bytes with
  | zero =>
      rw [gatherLoop] at h
      split at h
      · next hzero => exact ⟨t, by rw [transferLoop, if_pos hzero]⟩
      · cases h
  | succ fuel ih =>
      rw [gatherLoop] at h
      split at h
      · next hzero => exact ⟨t, by rw [transferLoop, if_pos hzero]⟩
      · next hmore =>
        obtain ⟨⟨paddr, cursor⟩, hnext, h⟩ := exists_of_bind_eq_ok h
        obtain ⟨rest, hrest, -⟩ := exists_of_bind_eq_ok h
        rw [transferLoop, if_neg hmore, hnext]
        exact ih (t := ⟨t.host, _, _, _, cursor⟩) hrest

theorem performIo_of_payload {host device : Memory} {offset length : Nat} {bytes : List UInt8}
    (h : payload pfnValid dptr host length = .ok bytes) :
    performIo pfnValid dptr .toDevice host device offset length =
      .ok (host, overwrite device offset bytes) := by
  obtain ⟨t, ht⟩ := transferLoop_of_gatherLoop (t := ⟨host, device, offset, length, .start⟩) h
  have hrun : performIo pfnValid dptr .toDevice host device offset length =
      .ok (t.host, t.device) := by
    rw [performIo, ht]
    rfl
  obtain ⟨bytes', hbytes', -, hhost, hdevice⟩ := performIo_toDevice hrun
  rw [payload] at h hbytes'
  rw [h] at hbytes'
  cases hbytes'
  rw [hrun, hhost, hdevice]

theorem transferLoop_toHost_device {fuel : Nat} {t t' : Transfer}
    (hrun : transferLoop pfnValid dptr .toHost fuel t = .ok t') : t'.device = t.device := by
  induction fuel generalizing t with
  | zero =>
      rw [transferLoop] at hrun
      split at hrun
      · cases hrun
        rfl
      · cases hrun
  | succ fuel ih =>
      rw [transferLoop] at hrun
      split at hrun
      · cases hrun
        rfl
      · obtain ⟨⟨paddr, cursor⟩, -, hrun⟩ := exists_of_bind_eq_ok hrun
        exact ih (t := ⟨_, t.device, _, _, cursor⟩) hrun

theorem performIo_toHost_device {host device host' device' : Memory} {offset length : Nat}
    (hrun : performIo pfnValid dptr .toHost host device offset length =
      .ok (host', device')) : device' = device := by
  obtain ⟨t, ht, hrun⟩ := exists_of_bind_eq_ok hrun
  cases hrun
  exact transferLoop_toHost_device ht

end NvmeVirt.PrpTransfer
