import Mathlib.Logic.Relation
import NvmeVirt.PrpTransfer
import NvmeVirt.ZonedRuns

namespace NvmeVirt.ZonedRejections

open ByteMemory
open FaultOutcome
open FlashGeometry
open IoWorkers
open PrpTransfer
open Relation
open WriteBuffer
open ZonedAccounting
open ZonedFtl
open ZonedRuns

variable {dev : ZonedDevice} {ftl ftl' : ZnsFtl} {cmd cmd' : ZnsCommand}
  {reply : Option Reply} {zid : Nat}

theorem lbaToByte_nrLba (cmd : ZnsCommand) :
    0 < lbaToByte cmd.nrLba ∧ lbaToByte cmd.nrLba < 2 ^ 32 := by
  obtain ⟨hpos, hsize⟩ := ZnsCommand.nrLba_bounds cmd
  rw [lbaToByte]
  omega

/-- Where a write command goes: an append to a zone without a random write area
goes to its write pointer. -/
def targetLba (dev : ZonedDevice) (ftl : ZnsFtl) (cmd : ZnsCommand) : Nat :=
  let desc := ftl.zoneDescs (lbaToZone dev.spp dev.zpp cmd.slba)
  if cmd.opcode = .zoneAppend ∧ desc.zrwav = false then desc.wp else cmd.slba

/-- What `__zns_write` makes of a command before it looks at it. -/
structure PlainAttempt (dev : ZonedDevice) (ftl ftl' : ZnsFtl) (cmd cmd' : ZnsCommand)
    (reply : Option Reply) (zid : Nat) : Prop where
  slot : cmd' = { cmd with slba := targetLba dev ftl cmd }
  refused : reply = none →
    (ftl.buffers (writeBufferRef dev.zpp zid)).remaining < lbaToByte cmd.nrLba
  answered : ∀ r, reply = some r → ∃ buf status base,
    buf.remaining + lbaToByte cmd.nrLba =
      (ftl.buffers (writeBufferRef dev.zpp zid)).remaining ∧
    commitWrite dev.spp dev.zpp (ftl.setBuffer (writeBufferRef dev.zpp zid) buf) zid
      (targetLba dev ftl cmd) cmd.nrLba = (status, base) ∧
    r.status = status ∧ ftl' = base

theorem znsWritePlain_attempt (hzid : lbaToZone dev.spp dev.zpp cmd.slba = zid)
    (hplain : (ftl.zoneDescs zid).zrwav = false)
    (hrun : znsWritePlain dev.spp dev.zpp ftl cmd = .ok (reply, cmd', ftl')) :
    PlainAttempt dev ftl ftl' cmd cmd' reply zid := by
  have htarget : targetLba dev ftl cmd =
      if cmd.opcode = .zoneAppend then (ftl.zoneDescs zid).wp else cmd.slba := by
    rw [targetLba, hzid]
    simp [hplain]
  obtain ⟨hpos, hsize⟩ := lbaToByte_nrLba cmd
  rw [znsWritePlain, hzid, ← htarget] at hrun
  obtain ⟨⟨granted, buf⟩, hbuf, hrun⟩ := exists_of_bind_eq_ok hrun
  dsimp only at hrun
  obtain ⟨-, ⟨hlt, rfl, rfl⟩ | ⟨hgranted, hremaining⟩⟩ := bufferAllocate_cases hbuf
  · rw [if_pos hpos] at hrun
    cases hrun
    exact ⟨rfl, fun _ => hlt, by simp⟩
  · rw [Nat.mod_eq_of_lt hsize] at hgranted
    subst hgranted
    rw [if_neg (Nat.lt_irrefl _)] at hrun
    cases hrun
    refine ⟨rfl, by simp, fun r hr => ⟨buf, _, _, hremaining, rfl, ?_, rfl⟩⟩
    cases hr
    rfl

section Rejection

/-- The state of the FTL that a rejected write should leave alone: the zones, the
open and active counters and the buffer of the zone. -/
def Untouched (dev : ZonedDevice) (ftl ftl' : ZnsFtl) (zid : Nat) : Prop :=
  ftl'.zoneDescs = ftl.zoneDescs ∧ ftl'.resInfos = ftl.resInfos ∧
    (ftl'.buffers (writeBufferRef dev.zpp zid)).remaining =
      (ftl.buffers (writeBufferRef dev.zpp zid)).remaining

variable {limits : ZoneResource → Nat} {storage : Nat → UInt8} {events : List ZnsEvent}

theorem reached_accounted (hrange : ∀ e ∈ events, EventInRange dev e)
    (hrun : znsRun dev.spp dev.zpp (fresh dev limits storage) events = .ok ftl) :
    Accounted dev ftl := by
  obtain ⟨log, hlogged⟩ := exists_loggedRun (fun _ => []) hrun
  exact (loggedRun_kept (fresh_kept dev limits storage) hrange hlogged).accounted

theorem znsProcNvmeIoCmd_split (hop : cmd.opcode = .write ∨ cmd.opcode = .zoneAppend) :
    znsProcNvmeIoCmd dev.spp dev.zpp ftl cmd =
      if (ftl.zoneDescs (lbaToZone dev.spp dev.zpp cmd.slba)).zrwav then
        znsWriteZrwa dev.spp dev.zpp ftl cmd
      else znsWritePlain dev.spp dev.zpp ftl cmd := by
  rw [znsProcNvmeIoCmd_write hop, znsWrite, lpnToZone_lbaToLpn]

theorem znsProcNvmeIoCmd_plain (hop : cmd.opcode = .write ∨ cmd.opcode = .zoneAppend)
    (hplain : (ftl.zoneDescs (lbaToZone dev.spp dev.zpp cmd.slba)).zrwav = false) :
    znsProcNvmeIoCmd dev.spp dev.zpp ftl cmd = znsWritePlain dev.spp dev.zpp ftl cmd := by
  rw [znsProcNvmeIoCmd_split hop, if_neg (by simp [hplain])]

/-- Every rejected write keeps the zones and the counters, schedules nothing, and
is short of the buffer space it had taken. -/
theorem rejected_write_leaks_buffer {r : Reply}
    (hrange : ∀ e ∈ events, EventInRange dev e)
    (hrun : znsRun dev.spp dev.zpp (fresh dev limits storage) events = .ok ftl)
    (hop : cmd.opcode = .write ∨ cmd.opcode = .zoneAppend)
    (hslba : cmd.slba < dev.zpp.nrZones * byteToLba dev.zpp.zoneSize)
    (hplain : (ftl.zoneDescs (lbaToZone dev.spp dev.zpp cmd.slba)).zrwav = false)
    (hcmd : znsProcNvmeIoCmd dev.spp dev.zpp ftl cmd = .ok (some r, cmd', ftl'))
    (hrejected : r.status ≠ .success) :
    ¬Untouched dev ftl ftl' (lbaToZone dev.spp dev.zpp cmd.slba) ∧
      ftl'.zoneDescs = ftl.zoneDescs ∧ ftl'.resInfos = ftl.resInfos ∧
      ftl'.pending = ftl.pending ∧
      (ftl'.buffers (writeBufferRef dev.zpp
          (lbaToZone dev.spp dev.zpp cmd.slba))).remaining + lbaToByte cmd.nrLba =
        (ftl.buffers (writeBufferRef dev.zpp
          (lbaToZone dev.spp dev.zpp cmd.slba))).remaining := by
  have hz := lbaToZone_lt hslba
  have hsound := (reached_accounted hrange hrun).sound hz
  rw [znsProcNvmeIoCmd_plain hop hplain] at hcmd
  obtain ⟨buf, status, base, hremaining, hcommit, rfl, rfl⟩ :=
    (znsWritePlain_attempt rfl hplain hcmd).answered r rfl
  obtain ⟨hpos, hsize⟩ := ZnsCommand.nrLba_bounds cmd
  have hsame : Same ftl (ftl.setBuffer
      (writeBufferRef dev.zpp (lbaToZone dev.spp dev.zpp cmd.slba)) buf) := ⟨rfl, rfl⟩
  have hkept : ftl' = ftl.setBuffer
      (writeBufferRef dev.zpp (lbaToZone dev.spp dev.zpp cmd.slba)) buf := by
    obtain ⟨hsuccess, -⟩ | ⟨-, hkept⟩ := commitWrite_spec ((hsame.move hsound).sound hsound) hz
      hplain (targetLba dev ftl cmd) hpos hsize
    · rw [hcommit] at hsuccess
      exact absurd hsuccess hrejected
    · rw [hcommit] at hkept
      exact hkept
  have hbuf : ftl'.buffers (writeBufferRef dev.zpp (lbaToZone dev.spp dev.zpp cmd.slba)) =
      buf := by
    rw [hkept]
    simp [ZnsFtl.setBuffer]
  rw [Untouched, hbuf]
  refine ⟨fun huntouched => ?_, ?_, ?_, ?_, hremaining⟩
  · have hbytes := (lbaToByte_nrLba cmd).1
    have hleft := huntouched.2.2
    omega
  · rw [hkept]
    rfl
  · rw [hkept]
    rfl
  · rw [hkept]
    rfl

def twoZonesFresh : ZnsFtl := fresh twoZones (fun _ => 2) fun _ => 0

def misplacedWrite : ZnsCommand := command .write 8 7 (.other 0)

set_option maxRecDepth 4000 in
theorem rejected_write_changes_state :
    ∃ r cmd' ftl', znsRun twoZones.spp twoZones.zpp twoZonesFresh [] = .ok twoZonesFresh ∧
      znsProcNvmeIoCmd twoZones.spp twoZones.zpp twoZonesFresh misplacedWrite =
        .ok (some r, cmd', ftl') ∧
      r.status ≠ .success ∧ ¬Untouched twoZones twoZonesFresh ftl' 0 := by
  refine ⟨_, _, _, rfl, rfl, by decide, ?_⟩
  rintro ⟨-, -, hleft⟩
  exact absurd hleft (by decide)

set_option maxRecDepth 4000 in
theorem rejected_write_leaks_buffer_misplaced :
    ∃ r cmd' ftl', znsProcNvmeIoCmd twoZones.spp twoZones.zpp twoZonesFresh misplacedWrite =
        .ok (some r, cmd', ftl') ∧
      (ftl'.buffers (writeBufferRef twoZones.zpp 0)).remaining + lbaToByte 8 =
        (twoZonesFresh.buffers (writeBufferRef twoZones.zpp 0)).remaining := by
  obtain ⟨r, cmd', ftl', hcmd, hrejected⟩ : ∃ r cmd' ftl',
      znsProcNvmeIoCmd twoZones.spp twoZones.zpp twoZonesFresh misplacedWrite =
        .ok (some r, cmd', ftl') ∧ r.status ≠ .success :=
    ⟨_, _, _, rfl, by decide⟩
  have hfresh : znsRun twoZones.spp twoZones.zpp twoZonesFresh [] = .ok twoZonesFresh := rfl
  exact ⟨r, cmd', ftl', hcmd, (rejected_write_leaks_buffer (List.forall_mem_nil _) hfresh
    (.inl rfl) (by decide) rfl hcmd hrejected).2.2.2.2⟩

end Rejection

section Medium

/-- What `__do_perform_io` does with the data of an opcode. -/
def direction : Opcode → Direction
  | .write => .toDevice
  | .zoneAppend => .toDevice
  | .read => .toHost
  | _ => .neither

/-- `__do_perform_io` on the command that stands in the submission queue. -/
def doPerformIo (pfnValid : Nat → Bool) (host storage : Memory) (cmd : ZnsCommand) :
    Except Fault (Memory × Memory) :=
  performIo pfnValid ⟨cmd.prp1, cmd.prp2⟩ (direction cmd.opcode) host storage
    (lbaToByte cmd.slba % 2 ^ 64) (lbaToByte cmd.nrLba)

/-- The copying part of `nvmev_io_worker` for the entry `w` that was queued for
the command. -/
def copyEntry (pfnValid : Nat → Bool) (host storage : Memory) (w : IoWork)
    (cmd : ZnsCommand) : Except Fault (Memory × Memory) :=
  if w.isCopied then .ok (host, storage)
  else if w.isInternal then .ok (host, storage)
  else doPerformIo pfnValid host storage cmd

/-- The entry that `__enqueue_io_req` makes of an answer with this status. -/
def queuedWork (status : Nat) (reply : Reply) : IoWork :=
  Request.fill (.host 1 1 0 0 { status := status, nsecsTarget := 0, result := reply.result } 0)
    zeroedWork

theorem storage_zrwaAllocate {size : Nat} {granted : Bool}
    (hrun : zrwaAllocate dev.zpp ftl zid size = .ok (granted, ftl')) :
    ftl'.storage = ftl.storage := by
  rw [zrwaAllocate] at hrun
  split at hrun
  · cases hrun
  · obtain ⟨⟨size, buf⟩, -, hrun⟩ := exists_of_bind_eq_ok hrun
    cases hrun
    rfl

theorem storage_openForZrwaWrite {status : Status}
    (hrun : openForZrwaWrite dev.zpp ftl zid = .ok (status, ftl')) :
    ftl'.storage = ftl.storage := by
  cases zrwaOpens_of_openForZrwaWrite hrun with
  | already => rfl
  | refused => rfl
  | opens _ _ hbase => exact (storage_zrwaAllocate hbase :)

theorem storage_increaseWritePtr (nrLba : Nat) :
    (increaseWritePtr dev.spp dev.zpp ftl zid nrLba).storage = ftl.storage := by
  rw [increaseWritePtr]
  dsimp only
  split <;> rfl

/-- A write to a zone with a random write area stays where it was sent, moves no
bytes of its own, and reports nothing. -/
theorem znsWriteZrwa_spec
    (hrun : znsWriteZrwa dev.spp dev.zpp ftl cmd = .ok (reply, cmd', ftl')) :
    ftl'.storage = ftl.storage ∧ cmd' = cmd ∧ ∀ r, reply = some r → r.result = 0 := by
  obtain ⟨rfl, hwrites⟩ := zrwaWrites_of_znsWriteZrwa hrun
  cases hwrites with
  | rejected => exact ⟨rfl, rfl, fun r hr => by cases hr; rfl⟩
  | answered _ hopen =>
      exact ⟨storage_openForZrwaWrite hopen, rfl, fun r hr => by cases hr; rfl⟩
  | refused _ hopen hfilled =>
      have hstorage := storage_openForZrwaWrite hopen
      exact ⟨(storage_zrwaAllocate hfilled).trans hstorage, rfl, by simp⟩
  | flushes _ hopen hfilled =>
      have hstorage := storage_openForZrwaWrite hopen
      have hfilled' := (storage_zrwaAllocate hfilled).trans hstorage
      exact ⟨(storage_increaseWritePtr _).trans hfilled', rfl, fun r hr => by cases hr; rfl⟩

theorem storage_openForWrite (ftl : ZnsFtl) (zid slba : Nat) :
    (openForWrite ftl zid slba).2.storage = ftl.storage := by
  have hacquire : ∀ (base : ZnsFtl) (type : ZoneResource),
      (acquireZoneResource base type).2.storage = base.storage := by
    intro base type
    rw [acquireZoneResource]
    split <;> rfl
  have hopen : ∀ base : ZnsFtl, (openImplicitly base zid).2.storage = base.storage := by
    intro base
    have hbase := hacquire base .openZone
    rw [openImplicitly]
    split
    · next h => rwa [h] at hbase
    · next h => rwa [h] at hbase
  rw [openForWrite]
  split
  · split
    · rfl
    · split
      · rfl
      · split
        · rfl
        · exact (hopen _).trans (hacquire ftl .activeZone)
  · exact hopen ftl
  all_goals rfl

theorem storage_commitWrite (slba nrLba : Nat) :
    (commitWrite dev.spp dev.zpp ftl zid slba nrLba).2.storage = ftl.storage := by
  have hopen := storage_openForWrite ftl zid slba
  rw [commitWrite]
  split
  · rfl
  · split
    · rfl
    · split
      · rfl
      · split
        · next h =>
          rw [h] at hopen
          exact (storage_increaseWritePtr nrLba).trans hopen
        · exact hopen

theorem znsWrite_answered {r : Reply} (hop : cmd.opcode = .write ∨ cmd.opcode = .zoneAppend)
    (hcmd : znsProcNvmeIoCmd dev.spp dev.zpp ftl cmd = .ok (some r, cmd', ftl')) :
    ftl'.storage = ftl.storage ∧ cmd' = { cmd with slba := targetLba dev ftl cmd } := by
  rw [znsProcNvmeIoCmd_split hop] at hcmd
  cases hzrwa : (ftl.zoneDescs (lbaToZone dev.spp dev.zpp cmd.slba)).zrwav with
  | false =>
      rw [if_neg (by simp [hzrwa])] at hcmd
      have hattempt := znsWritePlain_attempt rfl hzrwa hcmd
      obtain ⟨buf, status, base, -, hcommit, rfl, rfl⟩ := hattempt.answered r rfl
      refine ⟨?_, hattempt.slot⟩
      have hstorage := congrArg (fun x => x.2.storage) hcommit
      exact hstorage.symm.trans (storage_commitWrite _ _)
  | true =>
      rw [if_pos hzrwa] at hcmd
      obtain ⟨hstorage, hslot, -⟩ := znsWriteZrwa_spec hcmd
      have htarget : targetLba dev ftl cmd = cmd.slba := by
        rw [targetLba]
        simp [hzrwa]
      refine ⟨hstorage, ?_⟩
      rw [hslot, htarget]

def nsSize (dev : ZonedDevice) : Nat := dev.zpp.nrZones * dev.zpp.zoneSize

/-- The worker copies the data of a write whatever its status, so the medium stays as it
was exactly when the host happened to send what is already there. -/
theorem rejected_write_keeps_medium_iff {pfnValid : Nat → Bool} {host host' storage' : Memory}
    {r : Reply} {status : Nat} (hop : cmd.opcode = .write ∨ cmd.opcode = .zoneAppend)
    (hcmd : znsProcNvmeIoCmd dev.spp dev.zpp ftl cmd = .ok (some r, cmd', ftl'))
    (hcopy : copyEntry pfnValid host ftl'.storage (queuedWork status r) cmd' =
      .ok (host', storage')) :
    (∀ i, i < nsSize dev → storage' i = ftl.storage i) ↔
      ∀ bytes, payload pfnValid ⟨cmd.prp1, cmd.prp2⟩ host (lbaToByte cmd.nrLba) = .ok bytes →
        ∀ k, k < lbaToByte cmd.nrLba →
          lbaToByte (targetLba dev ftl cmd) % 2 ^ 64 + k < nsSize dev →
          bytes.getD k 0 =
            ftl.storage (lbaToByte (targetLba dev ftl cmd) % 2 ^ 64 + k) := by
  obtain ⟨hstorage, rfl⟩ := znsWrite_answered hop hcmd
  have hdir : direction cmd.opcode = .toDevice := by
    rcases hop with hop | hop <;> rw [hop] <;> rfl
  have htransfer : performIo pfnValid ⟨cmd.prp1, cmd.prp2⟩ .toDevice host ftl.storage
      (lbaToByte (targetLba dev ftl cmd) % 2 ^ 64) (lbaToByte cmd.nrLba) =
        .ok (host', storage') := by
    rw [← hdir, ← hstorage]
    exact hcopy
  obtain ⟨bytes, hbytes, hlength, -, rfl⟩ := performIo_toDevice htransfer
  generalize lbaToByte (targetLba dev ftl cmd) % 2 ^ 64 = offset
  constructor
  · intro hsame bytes' hbytes' k hk hin
    obtain rfl : bytes = bytes' := Except.ok.inj (hbytes.symm.trans hbytes')
    have hbyte := hsame (offset + k) hin
    rwa [overwrite_of_mem (by omega) (by omega), Nat.add_sub_cancel_left] at hbyte
  · intro hsame i hi
    by_cases hmem : offset ≤ i ∧ i < offset + bytes.length
    · obtain ⟨k, rfl⟩ := Nat.exists_eq_add_of_le hmem.1
      rw [overwrite_of_mem hmem.1 hmem.2, Nat.add_sub_cancel_left]
      exact hsame bytes hbytes k (by omega) hi
    · exact if_neg hmem

set_option maxRecDepth 6000 in
theorem rejected_write_changes_medium :
    ∃ r cmd' ftl' host' storage',
      znsProcNvmeIoCmd twoZones.spp twoZones.zpp twoZonesFresh misplacedWrite =
        .ok (some r, cmd', ftl') ∧
      r.status ≠ .success ∧
      copyEntry (fun _ => true) (fun _ => 1) ftl'.storage (queuedWork 0 r) cmd' =
        .ok (host', storage') ∧
      4096 < nsSize twoZones ∧ storage' 4096 ≠ twoZonesFresh.storage 4096 :=
  ⟨_, _, _, _, _, rfl, by decide, rfl, by decide, by decide⟩

set_option maxRecDepth 6000 in
theorem rejected_write_keeps_medium_zeros :
    ∃ r cmd' ftl' host' storage',
      znsProcNvmeIoCmd twoZones.spp twoZones.zpp twoZonesFresh misplacedWrite =
        .ok (some r, cmd', ftl') ∧
      r.status ≠ .success ∧
      copyEntry (fun _ => true) (fun _ => 0) ftl'.storage (queuedWork 0 r) cmd' =
        .ok (host', storage') ∧
      ∀ i, i < nsSize twoZones → storage' i = twoZonesFresh.storage i := by
  obtain ⟨r, cmd', ftl', hcmd, hrejected, hcopy⟩ : ∃ r cmd' ftl',
      znsProcNvmeIoCmd twoZones.spp twoZones.zpp twoZonesFresh misplacedWrite =
        .ok (some r, cmd', ftl') ∧ r.status ≠ .success ∧
      ∃ host' storage', copyEntry (fun _ => true) (fun _ => 0) ftl'.storage
        (queuedWork 0 r) cmd' = .ok (host', storage') :=
    ⟨_, _, _, rfl, by decide, _, _, rfl⟩
  obtain ⟨host', storage', hcopy⟩ := hcopy
  refine ⟨r, cmd', ftl', host', storage', hcmd, hrejected, hcopy,
    (rejected_write_keeps_medium_iff (.inl rfl) hcmd hcopy).2 ?_⟩
  intro bytes hbytes k hk _
  have hzeros : payload (fun _ => true) ⟨misplacedWrite.prp1, misplacedWrite.prp2⟩
      (fun _ => 0) (lbaToByte misplacedWrite.nrLba) =
        .ok (slice (fun _ => 0) 0 (lbaToByte misplacedWrite.nrLba) ++ []) := rfl
  obtain rfl := Except.ok.inj (hbytes.symm.trans hzeros)
  rw [List.append_nil, getD_slice hk]
  rfl

end Medium

section Retries

/-- A zoned namespace with its submission queues: `waiting` holds the commands
that were refused, each as it was submitted and as it stands in its slot now. -/
structure Dispatch where
  ftl : ZnsFtl
  waiting : List (ZnsCommand × ZnsCommand)
  answered : List (ZnsCommand × Reply)

/-- A command comes to the head of its queue, the dispatcher comes back to a
refused one, or a worker executes a scheduled buffer release. -/
inductive DispatchEvent where
  | submit (cmd : ZnsCommand)
  | retry (i : Nat)
  | release (i : Nat)
deriving DecidableEq, Repr

/-- A round of `nvmev_proc_io_sq` for a command that stands as `slot` in its
queue. -/
def attempt (dev : ZonedDevice) (s : Dispatch) (submitted slot : ZnsCommand) :
    Except Fault Dispatch := do
  let (reply, slot, ftl) ← znsProcNvmeIoCmd dev.spp dev.zpp s.ftl slot
  match reply with
  | none => return { s with ftl := ftl, waiting := s.waiting ++ [(submitted, slot)] }
  | some r => return { s with ftl := ftl, answered := s.answered ++ [(submitted, r)] }

/-- The command that an event tries, as submitted and as it stands in its slot. -/
def DispatchEvent.tried (s : Dispatch) : DispatchEvent → Option (ZnsCommand × ZnsCommand)
  | .submit cmd => some (cmd, cmd)
  | .retry i => s.waiting[i]?
  | .release _ => none

def dispatchStep (dev : ZonedDevice) (s : Dispatch) (e : DispatchEvent) :
    Except Fault Dispatch :=
  match e with
  | .submit cmd => attempt dev s cmd cmd
  | .retry i =>
      match s.waiting[i]? with
      | none => .ok s
      | some (submitted, slot) =>
          attempt dev { s with waiting := s.waiting.eraseIdx i } submitted slot
  | .release i => do
      let ftl ← znsStep dev.spp dev.zpp s.ftl (.release i)
      return { s with ftl := ftl }

/-- A submitted command addresses a zone of the namespace. -/
def Submits (dev : ZonedDevice) : DispatchEvent → Prop
  | .submit cmd => InRange dev cmd
  | _ => True

/-- An append is not tried on a zone with a random write area, whose answer carries no
LBA, nor on a zone that is written to its end while the write buffer is short of space
for it. -/
def AppendSafe (dev : ZonedDevice) (s : Dispatch) (e : DispatchEvent) : Prop :=
  ∀ submitted slot, e.tried s = some (submitted, slot) → slot.opcode = .zoneAppend →
    let zid := lbaToZone dev.spp dev.zpp slot.slba
    let desc := s.ftl.zoneDescs zid
    desc.zrwav = false ∧
      ((s.ftl.buffers (writeBufferRef dev.zpp zid)).remaining < lbaToByte slot.nrLba →
        desc.wp ≠ desc.zslba + desc.zoneCapacity)

/-- The LBA lies in zone `zid`. -/
def InZone (dev : ZonedDevice) (zid lba : Nat) : Prop :=
  zid * byteToLba dev.zpp.zoneSize ≤ lba ∧
    lba < zid * byteToLba dev.zpp.zoneSize + byteToLba dev.zpp.zoneSize

/-- A refused command still addresses the zone that it was sent to. -/
structure Waits (dev : ZonedDevice) (submitted slot : ZnsCommand) : Prop where
  slot_eq : slot = { submitted with slba := slot.slba }
  inRange : InRange dev slot
  zone : submitted.opcode = .zoneAppend →
    lbaToZone dev.spp dev.zpp slot.slba = lbaToZone dev.spp dev.zpp submitted.slba

structure Placed (dev : ZonedDevice) (s : Dispatch) : Prop where
  kept : ∃ log, Kept dev s.ftl log
  waiting : ∀ c ∈ s.waiting, Waits dev c.1 c.2
  answered : ∀ c ∈ s.answered, c.1.opcode = .zoneAppend → c.2.status = .success →
    InZone dev (lbaToZone dev.spp dev.zpp c.1.slba) (reportedLba c.2)

theorem answered_of_not_write (hop : ¬(cmd.opcode = .write ∨ cmd.opcode = .zoneAppend))
    (hcmd : znsProcNvmeIoCmd dev.spp dev.zpp ftl cmd = .ok (reply, cmd', ftl')) :
    reply ≠ none := by
  rw [znsProcNvmeIoCmd] at hcmd
  cases hcode : cmd.opcode with
  | write => exact absurd (.inl hcode) hop
  | zoneAppend => exact absurd (.inr hcode) hop
  | zoneMgmtSend =>
      simp only [hcode] at hcmd
      obtain ⟨⟨status, sent⟩, -, hcmd⟩ := exists_of_bind_eq_ok hcmd
      cases hcmd
      simp
  | read =>
      simp only [hcode] at hcmd
      cases hcmd
      simp
  | flush =>
      simp only [hcode] at hcmd
      cases hcmd
      simp
  | zoneMgmtRecv =>
      simp only [hcode] at hcmd
      cases hcmd
      simp
  | other code =>
      simp only [hcode] at hcmd
      cases hcmd
      simp

variable {log : Log} {submitted slot slot' : ZnsCommand}

theorem InRange.slba_lt (h : InRange dev slot)
    (hop : slot.opcode = .write ∨ slot.opcode = .zoneAppend) :
    slot.slba < dev.zpp.nrZones * byteToLba dev.zpp.zoneSize := by
  refine h.resolve_left ?_
  rintro ⟨hsend, -⟩
  rcases hop with hop | hop <;> simp [hop] at hsend

theorem InZone.lbaToZone {lba : Nat} (h : InZone dev zid lba) (hz : zid < dev.zpp.nrZones) :
    ZonedFtl.lbaToZone dev.spp dev.zpp lba = zid :=
  lbaToZone_of_mem hz h.1 h.2

theorem wp_inZone (h : Sound dev ftl zid) (hplain : (ftl.zoneDescs zid).zrwav = false)
    (hend : (ftl.zoneDescs zid).wp ≠
      (ftl.zoneDescs zid).zslba + (ftl.zoneDescs zid).zoneCapacity) :
    InZone dev zid (ftl.zoneDescs zid).wp := by
  obtain ⟨hlow, hhigh, -, -⟩ := h.plain hplain
  have hlt := Nat.lt_of_le_of_ne hhigh hend
  rw [h.zslba_eq] at hlow
  rw [h.zslba_eq, h.capacity_eq] at hlt
  exact ⟨hlow, hlt⟩

theorem wp_inZone_of_commitWrite {slba nrLba : Nat} (h : Sound dev ftl zid)
    (hplain : (ftl.zoneDescs zid).zrwav = false)
    (hsuccess : (commitWrite dev.spp dev.zpp ftl zid slba nrLba).1 = .success) :
    InZone dev zid (ftl.zoneDescs zid).wp := by
  have hzone := h.plain hplain
  refine wp_inZone h hplain ?_
  rw [commitWrite] at hsuccess
  split at hsuccess
  · cases hsuccess
  · split at hsuccess
    · cases hsuccess
    · split at hsuccess
      · cases hsuccess
      · obtain ⟨-, -, -, -, hempty | hactive⟩ | ⟨hrejected, -⟩ := openForWrite_spec h slba
        · have hpos := dev.zoneLbas_pos
          have hcapacity := h.capacity_eq
          have hwp := hzone.wp_of_empty hempty
          omega
        · exact Nat.ne_of_lt (hzone.wp_lt_of_active hactive)
        · split at hsuccess
          · next hopen => simp [hopen] at hrejected
          · exact absurd hsuccess hrejected

theorem refused_waits (hkept : Kept dev ftl log) (hwaits : Waits dev submitted slot)
    (hsafe : slot.opcode = .zoneAppend →
      (ftl.buffers (writeBufferRef dev.zpp (lbaToZone dev.spp dev.zpp slot.slba))).remaining <
        lbaToByte slot.nrLba →
      (ftl.zoneDescs (lbaToZone dev.spp dev.zpp slot.slba)).wp ≠
        (ftl.zoneDescs (lbaToZone dev.spp dev.zpp slot.slba)).zslba +
          (ftl.zoneDescs (lbaToZone dev.spp dev.zpp slot.slba)).zoneCapacity)
    (hcmd : znsProcNvmeIoCmd dev.spp dev.zpp ftl slot = .ok (none, slot', ftl')) :
    Waits dev submitted slot' := by
  by_cases hop : slot.opcode = .write ∨ slot.opcode = .zoneAppend
  · have hslba := InRange.slba_lt hwaits.inRange hop
    have hz := lbaToZone_lt hslba
    have hsound := hkept.accounted.sound hz
    rw [znsProcNvmeIoCmd_split hop] at hcmd
    cases hzrwa : (ftl.zoneDescs (lbaToZone dev.spp dev.zpp slot.slba)).zrwav with
    | true =>
        rw [if_pos hzrwa] at hcmd
        obtain ⟨-, rfl, -⟩ := znsWriteZrwa_spec hcmd
        exact hwaits
    | false =>
        rw [if_neg (by simp [hzrwa])] at hcmd
        have hattempt := znsWritePlain_attempt rfl hzrwa hcmd
        rcases hop with hop | hop
        · have htarget : targetLba dev ftl slot = slot.slba := by
            rw [targetLba]
            simp [hop]
          have hslot := hattempt.slot
          rw [htarget] at hslot
          obtain rfl : slot' = slot := hslot
          exact hwaits
        · have htarget : targetLba dev ftl slot =
              (ftl.zoneDescs (lbaToZone dev.spp dev.zpp slot.slba)).wp := by
            rw [targetLba]
            simp [hop, hzrwa]
          have hin := wp_inZone hsound hzrwa
            (hsafe hop (hattempt.refused rfl))
          rw [← htarget] at hin
          have hzone := hin.lbaToZone hz
          have hslot := hattempt.slot
          obtain rfl := hslot
          refine ⟨?_, .inr ?_, fun happend => ?_⟩
          · rw [hwaits.slot_eq]
          · have hend : (lbaToZone dev.spp dev.zpp slot.slba + 1) *
                byteToLba dev.zpp.zoneSize ≤ dev.zpp.nrZones * byteToLba dev.zpp.zoneSize :=
              Nat.mul_le_mul_right _ hz
            rw [Nat.add_mul, Nat.one_mul] at hend
            exact Nat.lt_of_lt_of_le hin.2 hend
          · exact hzone.trans (hwaits.zone happend)
  · exact absurd rfl (answered_of_not_write hop hcmd)

theorem success_inZone {r : Reply} (hkept : Kept dev ftl log)
    (hrange : InRange dev slot) (hop : slot.opcode = .zoneAppend)
    (hzrwa : (ftl.zoneDescs (lbaToZone dev.spp dev.zpp slot.slba)).zrwav = false)
    (hcmd : znsProcNvmeIoCmd dev.spp dev.zpp ftl slot = .ok (some r, slot', ftl'))
    (hsuccess : r.status = .success) :
    InZone dev (lbaToZone dev.spp dev.zpp slot.slba) (reportedLba r) := by
  have hslba := InRange.slba_lt hrange (.inr hop)
  have hz := lbaToZone_lt hslba
  have hsound := hkept.accounted.sound hz
  rw [reportedLba_eq]
  rw [znsProcNvmeIoCmd_split (.inr hop), if_neg (by simp [hzrwa])] at hcmd
  have hwritten := znsWritePlain_spec rfl hz hsound hzrwa hcmd
  rw [(hwritten.committed r rfl hsuccess).2.2.1 hop]
  obtain ⟨buf, status, base, -, hcommit, rfl, -⟩ :=
    (znsWritePlain_attempt rfl hzrwa hcmd).answered r rfl
  have hsame : Same ftl (ftl.setBuffer
      (writeBufferRef dev.zpp (lbaToZone dev.spp dev.zpp slot.slba)) buf) := ⟨rfl, rfl⟩
  have hcommitted := congrArg Prod.fst hcommit
  exact (wp_inZone_of_commitWrite ((hsame.move hsound).sound hsound) hzrwa
    (hcommitted.trans hsuccess) :)

/-- A retry of an append on a zone without a random write area is its first
attempt over again. -/
theorem retry_eq_first (hwaits : Waits dev submitted slot)
    (hop : submitted.opcode = .zoneAppend)
    (hplain : (ftl.zoneDescs (lbaToZone dev.spp dev.zpp submitted.slba)).zrwav = false) :
    znsProcNvmeIoCmd dev.spp dev.zpp ftl slot =
      znsProcNvmeIoCmd dev.spp dev.zpp ftl submitted := by
  have hzone := hwaits.zone hop
  obtain ⟨hslot, -, -⟩ := hwaits
  generalize slot.slba = slba at hslot hzone
  subst hslot
  have hplain' : (ftl.zoneDescs (lbaToZone dev.spp dev.zpp
      { submitted with slba := slba }.slba)).zrwav = false := by
    rw [hzone]
    exact hplain
  have hfirst := znsProcNvmeIoCmd_plain (.inr hop) hplain
  have hretry := znsProcNvmeIoCmd_plain (.inr (by exact hop)) hplain'
  rw [hfirst, hretry, znsWritePlain, znsWritePlain]
  simp only [hop, hzone, ZnsCommand.nrLba]
  rfl

theorem attempt_placed {s s' : Dispatch} (h : Placed dev s)
    (hwaits : Waits dev submitted slot)
    (hsafe : slot.opcode = .zoneAppend →
      (s.ftl.zoneDescs (lbaToZone dev.spp dev.zpp slot.slba)).zrwav = false ∧
      ((s.ftl.buffers (writeBufferRef dev.zpp
          (lbaToZone dev.spp dev.zpp slot.slba))).remaining < lbaToByte slot.nrLba →
        (s.ftl.zoneDescs (lbaToZone dev.spp dev.zpp slot.slba)).wp ≠
          (s.ftl.zoneDescs (lbaToZone dev.spp dev.zpp slot.slba)).zslba +
            (s.ftl.zoneDescs (lbaToZone dev.spp dev.zpp slot.slba)).zoneCapacity))
    (hrun : attempt dev s submitted slot = .ok s') : Placed dev s' := by
  obtain ⟨log, hkept⟩ := h.kept
  obtain ⟨⟨reply, slot', ftl'⟩, hcmd, hrun⟩ := exists_of_bind_eq_ok hrun
  have hkept' := znsProcNvmeIoCmd_kept hkept hwaits.inRange hcmd
  cases reply with
  | none =>
      cases hrun
      refine ⟨⟨_, hkept'⟩, ?_, h.answered⟩
      intro c hc
      rcases List.mem_append.1 hc with hc | hc
      · exact h.waiting c hc
      · obtain rfl := List.mem_singleton.1 hc
        exact refused_waits hkept hwaits (fun hop => (hsafe hop).2) hcmd
  | some r =>
      cases hrun
      refine ⟨⟨_, hkept'⟩, h.waiting, ?_⟩
      intro c hc happend hsuccess
      rcases List.mem_append.1 hc with hc | hc
      · exact h.answered c hc happend hsuccess
      · obtain rfl := List.mem_singleton.1 hc
        have hop : slot.opcode = .zoneAppend := by
          rw [hwaits.slot_eq]
          exact happend
        rw [← hwaits.zone happend]
        exact success_inZone hkept hwaits.inRange hop (hsafe hop).1 hcmd hsuccess

theorem dispatchStep_placed {s s' : Dispatch} {e : DispatchEvent} (h : Placed dev s)
    (hsubmits : Submits dev e) (hsafe : AppendSafe dev s e)
    (hrun : dispatchStep dev s e = .ok s') : Placed dev s' := by
  cases e with
  | submit cmd =>
      exact attempt_placed h ⟨rfl, hsubmits, fun _ => rfl⟩ (hsafe cmd cmd rfl) hrun
  | retry i =>
      rw [dispatchStep] at hrun
      split at hrun
      · cases hrun
        exact h
      · next submitted slot hslot =>
        have herased : Placed dev { s with waiting := s.waiting.eraseIdx i } :=
          ⟨h.kept, fun c hc => h.waiting c (List.mem_of_mem_eraseIdx hc), h.answered⟩
        exact attempt_placed herased (h.waiting _ (List.mem_of_getElem? hslot))
          (hsafe submitted slot hslot) hrun
  | release i =>
      obtain ⟨log, hkept⟩ := h.kept
      obtain ⟨ftl, hrelease, hrun⟩ := exists_of_bind_eq_ok hrun
      cases hrun
      have hlogged : loggedStep dev (s.ftl, log) (.release i) = .ok (ftl, log) := by
        rw [loggedStep, hrelease]
        rfl
      have hkept' := loggedStep_kept (e := .release i) hkept trivial hlogged
      exact ⟨⟨log, hkept'⟩, h.waiting, h.answered⟩

def appendAt (slba : Nat) : ZnsCommand := command .zoneAppend slba 7 (.other 0)

end Retries

end NvmeVirt.ZonedRejections
