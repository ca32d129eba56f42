import Mathlib.Logic.Function.Basic
import NvmeVirt.FlashGeometry
import NvmeVirt.WriteBuffer

/-!
The zoned-namespace FTL: zone descriptors and their resources (`zns_ftl.h`),
reads and writes (`zns_read_write.c`), zone management (`zns_mgmt_send.c`) and
initialisation (`zns_ftl.c`). Latencies are left out: no decision depends on
them.
-/

namespace NvmeVirt.ZonedFtl

open FlashGeometry
open WriteBuffer

/-- `struct znsparams`. -/
structure ZnsParams where
  nrZones : Nat
  nrActiveZones : Nat
  nrOpenZones : Nat
  diesPerZone : Nat
  zoneSize : Nat
  zoneWbSize : Nat
  nrZrwaZones : Nat
  zrwafgSize : Nat
  zrwaSize : Nat
  zrwaBufferSize : Nat
  lbasPerZrwafg : Nat
  lbasPerZrwa : Nat
deriving DecidableEq, Repr

/-- `enum zone_state`. -/
inductive ZoneState where
  | empty
  | openedImpl
  | openedExpl
  | closed
  | readOnly
  | full
  | offline
deriving DecidableEq, Repr

/-- `struct zone_descriptor`; `zrwav` is the bit that says that the zone has a
random write area. -/
structure ZoneDescriptor where
  state : ZoneState
  zrwav : Bool
  zoneCapacity : Nat
  zslba : Nat
  wp : Nat
deriving DecidableEq, Repr

/-- `enum zone_resource_type`. -/
inductive ZoneResource where
  | activeZone
  | openZone
  | zrwaZone
deriving DecidableEq, Repr

/-- `struct zone_resource_info`. -/
structure ZoneResourceInfo where
  acquiredCnt : Nat
  totalCnt : Nat
deriving DecidableEq, Repr

/-- Which `struct buffer` an operation is about. -/
inductive BufferRef where
  /-- `ssd->write_buffer`. -/
  | shared
  | zoneWriteBuffer (zid : Nat)
  | zrwaBuffer (zid : Nat)
deriving DecidableEq, Repr

/-- `struct zns_ftl` with the bytes of the namespace it manages and the buffer
releases it scheduled that no worker has executed yet. -/
structure ZnsFtl where
  resInfos : ZoneResource → ZoneResourceInfo
  zoneDescs : Nat → ZoneDescriptor
  buffers : BufferRef → Buffer
  storage : Nat → UInt8
  pending : List (BufferRef × Nat)

/-- The opcodes that `zns_proc_nvme_io_cmd` and the transfer distinguish. -/
inductive Opcode where
  | flush
  | write
  | read
  | zoneMgmtSend
  | zoneMgmtRecv
  | zoneAppend
  | other (code : Nat)
deriving DecidableEq, Repr

/-- `enum zone_send_action`. -/
inductive ZoneSendAction where
  | closeZone
  | finishZone
  | openZone
  | resetZone
  | offlineZone
  | flushExplZrwa
  | other (code : Nat)
deriving DecidableEq, Repr

/-- The members of `struct nvme_command` that the zoned namespace reads. -/
structure ZnsCommand where
  opcode : Opcode
  nsid : Nat
  prp1 : Nat
  prp2 : Nat
  slba : Nat
  length : Nat
  zsa : ZoneSendAction
  selectAll : Bool
  zsaso : Bool
  zra : Nat
  zraSpecificField : Nat
deriving DecidableEq, Repr

inductive Status where
  | success
  | invalidField
  | invalidZoneOperation
  | zrwaRsrcUnavail
  | errBoundary
  | errFull
  | errReadOnly
  | errOffline
  | invalidWrite
  | noActiveZone
  | noOpenZone
  | invalidTransition
  /-- The uninitialised `status` of `__zmgmt_send` for an unknown action. -/
  | indeterminate
deriving DecidableEq, Repr

/-- What the handler leaves in `struct nvmev_result`, time apart. -/
structure Reply where
  status : Status
  result : Nat
deriving DecidableEq, Repr

namespace ZnsFtl

def setDesc (ftl : ZnsFtl) (zid : Nat) (desc : ZoneDescriptor) : ZnsFtl :=
  { ftl with zoneDescs := Function.update ftl.zoneDescs zid desc }

def setResource (ftl : ZnsFtl) (type : ZoneResource) (info : ZoneResourceInfo) :
    ZnsFtl :=
  { ftl with resInfos := Function.update ftl.resInfos type info }

def setBuffer (ftl : ZnsFtl) (ref : BufferRef) (buf : Buffer) : ZnsFtl :=
  { ftl with buffers := Function.update ftl.buffers ref buf }

/-- `schedule_internal_operation`. -/
def schedule (ftl : ZnsFtl) (releases : List (BufferRef × Nat)) : ZnsFtl :=
  { ftl with pending := ftl.pending ++ releases }

end ZnsFtl

def isZoneResourceAvail (ftl : ZnsFtl) (type : ZoneResource) : Bool :=
  decide ((ftl.resInfos type).acquiredCnt < (ftl.resInfos type).totalCnt)

def isZoneResourceFull (ftl : ZnsFtl) (type : ZoneResource) : Bool :=
  decide ((ftl.resInfos type).acquiredCnt = (ftl.resInfos type).totalCnt)

def acquireZoneResource (ftl : ZnsFtl) (type : ZoneResource) : Bool × ZnsFtl :=
  if isZoneResourceAvail ftl type then
    let info := ftl.resInfos type
    (true, ftl.setResource type { info with acquiredCnt := info.acquiredCnt + 1 })
  else (false, ftl)

/-- `release_zone_resource`; `ASSERT` expands to nothing, and the decrement of a
`__u32` wraps at 0. -/
def releaseZoneResource (ftl : ZnsFtl) (type : ZoneResource) : ZnsFtl :=
  let info := ftl.resInfos type
  let cnt := if info.acquiredCnt = 0 then 4294967295 else info.acquiredCnt - 1
  ftl.setResource type { info with acquiredCnt := cnt }

def changeZoneState (ftl : ZnsFtl) (zid : Nat) (state : ZoneState) : ZnsFtl :=
  ftl.setDesc zid { ftl.zoneDescs zid with state := state }

section Addresses

variable (spp : SsdParams) (zpp : ZnsParams)

def lpnToZone (lpn : Nat) : Nat := lpn / (zpp.zoneSize / spp.pgsz) % 2 ^ 32

def zoneToSlpn (zid : Nat) : Nat := zid * (zpp.zoneSize / spp.pgsz) % 2 ^ 32

def lbaToZone (lba : Nat) : Nat := lba / (zpp.zoneSize / spp.secsz) % 2 ^ 32

def zoneToSlba (zid : Nat) : Nat := zid * (zpp.zoneSize / spp.secsz) % 2 ^ 32

def zoneToElba (zid : Nat) : Nat :=
  let slba := zoneToSlba spp zpp ((zid + 1) % 2 ^ 32)
  if slba = 0 then 18446744073709551615 else slba - 1

def lbaToLpn (lba : Nat) : Nat := lba / spp.secsPerPg

def zoneToElpn (zid : Nat) : Nat := zoneToElba spp zpp zid / spp.secsPerPg

/-- `slba + nr_lba - 1` as a `uint64_t`. -/
def lastLba (slba nrLba : Nat) : Nat :=
  if slba + nrLba = 0 then 18446744073709551615 else (slba + nrLba - 1) % 2 ^ 64

/-- `__check_boundary_error` holds when there is no such error. -/
def checkBoundaryError (slba nrLba : Nat) : Bool :=
  lbaToZone spp zpp slba == lbaToZone spp zpp (lastLba slba nrLba)

end Addresses

/-- `__nr_lbas_from_rw_cmd`; the field is a `__le16`. -/
def ZnsCommand.nrLba (cmd : ZnsCommand) : Nat := cmd.length % 2 ^ 16 + 1

section Writes

variable (spp : SsdParams) (zpp : ZnsParams)

/-- `__increase_write_ptr`. -/
def increaseWritePtr (ftl : ZnsFtl) (zid nrLba : Nat) : ZnsFtl :=
  let desc := ftl.zoneDescs zid
  let wp := (desc.wp + nrLba) % 2 ^ 64
  let ftl := ftl.setDesc zid { desc with wp := wp }
  if wp = zoneToSlba spp zpp zid + desc.zoneCapacity then
    let ftl := releaseZoneResource ftl .openZone
    let ftl := releaseZoneResource ftl .activeZone
    changeZoneState ftl zid .full
  else ftl

/-- The offset of a page in its one-shot page (`__lpn_to_ppa`). -/
def pageOffset (lpn : Nat) : Nat :=
  (lpn - zoneToSlpn spp zpp (lpnToZone spp zpp lpn)) % spp.pgsPerOneshotpg

/-- `ppa.g.pg % pgs_per_oneshotpg`, where the bit-field `pg` has 16 bits. -/
def pgOffset (lpn : Nat) : Nat := pageOffset spp zpp lpn % 2 ^ 16 % spp.pgsPerOneshotpg

/-- The buffer releases scheduled by the loop of `__zns_write` from page `lpn`
on; every round advances by at least one page. -/
def writeReleases (elpn zoneElpn : Nat) : Nat → Nat → List Nat
  | 0, _ => []
  | fuel + 1, lpn =>
      if elpn < lpn then []
      else
        let pgOff := pgOffset spp zpp lpn
        let pgs := min (elpn - lpn + 1) (spp.pgsPerOneshotpg - pgOff)
        let oneshot := spp.pgsPerOneshotpg * spp.pgsz
        let unalignedSpace := zpp.zoneSize % oneshot
        let rest := writeReleases elpn zoneElpn fuel (lpn + pgs)
        if pgOff + pgs = spp.pgsPerOneshotpg ∨ lpn + pgs - 1 = zoneElpn then
          if lpn + pgs - 1 = zoneElpn ∧ 0 < unalignedSpace then unalignedSpace :: rest
          else oneshot :: rest
        else rest

/-- The buffer `__zns_write` takes its space from. -/
def writeBufferRef (zid : Nat) : BufferRef :=
  if zpp.zoneWbSize = 0 then .shared else .zoneWriteBuffer zid

/-- The `case ZONE_STATE_CLOSED` of `__zns_write`, which `EMPTY` falls into. -/
def openImplicitly (ftl : ZnsFtl) (zid : Nat) : Status × ZnsFtl :=
  match acquireZoneResource ftl .openZone with
  | (false, ftl) => (.noOpenZone, ftl)
  | (true, ftl) => (.success, changeZoneState ftl zid .openedImpl)

/-- The `switch` of `__zns_write`: the zone is opened for a write at `slba`, or
the write is rejected. -/
def openForWrite (ftl : ZnsFtl) (zid slba : Nat) : Status × ZnsFtl :=
  match (ftl.zoneDescs zid).state with
  | .empty =>
      if slba ≠ (ftl.zoneDescs zid).zslba then (.invalidWrite, ftl)
      else if isZoneResourceFull ftl .activeZone then (.noActiveZone, ftl)
      else if isZoneResourceFull ftl .openZone then (.noOpenZone, ftl)
      else openImplicitly (acquireZoneResource ftl .activeZone).2 zid
  | .closed => openImplicitly ftl zid
  | .openedImpl => (.success, ftl)
  | .openedExpl => (.success, ftl)
  | .full => (.errFull, ftl)
  | .readOnly => (.errReadOnly, ftl)
  | .offline => (.errOffline, ftl)

/-- `__zns_write` once the write buffer has granted the space: the checks and
the commitment of a write of `nrLba` blocks at `slba`. -/
def commitWrite (ftl : ZnsFtl) (zid slba nrLba : Nat) : Status × ZnsFtl :=
  if lbaToByte nrLba % spp.writeUnitSize ≠ 0 then (.invalidWrite, ftl)
  else if checkBoundaryError spp zpp slba nrLba = false then (.errBoundary, ftl)
  else if slba ≠ (ftl.zoneDescs zid).wp then (.invalidWrite, ftl)
  else
    match openForWrite ftl zid slba with
    | (.success, ftl) =>
        let slpn := lbaToLpn spp slba
        let elpn := lbaToLpn spp (lastLba slba nrLba)
        let releases := writeReleases spp zpp elpn (zoneToElpn spp zpp zid)
          (elpn + 1 - slpn) slpn
        let ftl := increaseWritePtr spp zpp ftl zid nrLba
        (.success, ftl.schedule (releases.map fun bytes => (writeBufferRef zpp zid, bytes)))
    | rejected => rejected

/-- `__zns_write`: `none` is the return value `false`; an append leaves the LBA
it was given in the command and in the result. -/
def znsWritePlain (ftl : ZnsFtl) (cmd : ZnsCommand) :
    Except Fault (Option Reply × ZnsCommand × ZnsFtl) := do
  let zid := lbaToZone spp zpp cmd.slba
  let isAppend := cmd.opcode = .zoneAppend
  let slba := if isAppend then (ftl.zoneDescs zid).wp else cmd.slba
  let result := if isAppend then slba else 0
  let nrLba := cmd.nrLba
  let cmd := { cmd with slba := slba }
  let ref := writeBufferRef zpp zid
  let (granted, buf) ← bufferAllocate (ftl.buffers ref) (lbaToByte nrLba)
  let ftl := ftl.setBuffer ref buf
  if granted < lbaToByte nrLba then
    return (none, cmd, ftl)
  else
    let (status, ftl) := commitWrite spp zpp ftl zid slba nrLba
    return (some { status := status, result := result }, cmd, ftl)

/-- The buffer releases of the loop of `__zns_write_zrwa`. -/
def zrwaReleases : Nat → Nat → Nat → List Nat
  | 0, _, _ => []
  | fuel + 1, lpn, remaining =>
      if remaining = 0 then []
      else
        let pgOff := pgOffset spp zpp lpn
        let pgs := min remaining (spp.pgsPerOneshotpg - pgOff)
        let rest := zrwaReleases fuel (lpn + pgs) (remaining - pgs)
        if pgOff + pgs = spp.pgsPerOneshotpg then
          spp.pgsPerOneshotpg * spp.pgsz :: rest
        else rest

/-- A `buffer_allocate` on the ZRWA buffer of a zone, which exists only when the
configuration gives it a size. -/
def zrwaAllocate (ftl : ZnsFtl) (zid size : Nat) : Except Fault (Bool × ZnsFtl) := do
  if zpp.zrwaBufferSize = 0 then
    .error (.nullPointer .znsWriteZrwa)
  else
    let (granted, buf) ← bufferAllocate (ftl.buffers (.zrwaBuffer zid)) size
    return (granted ≠ 0, ftl.setBuffer (.zrwaBuffer zid) buf)

/-- The `switch` of `__zns_write_zrwa`. -/
def openForZrwaWrite (ftl : ZnsFtl) (zid : Nat) : Except Fault (Status × ZnsFtl) :=
  match (ftl.zoneDescs zid).state with
  | .closed | .empty =>
      match acquireZoneResource ftl .openZone with
      | (false, ftl) => .ok (.noOpenZone, ftl)
      | (true, ftl) => do
          let (granted, ftl) ← zrwaAllocate zpp ftl zid zpp.zrwaSize
          nvmevAssert granted .znsWriteZrwa
          return (.success, changeZoneState ftl zid .openedImpl)
  | .openedImpl => .ok (.success, ftl)
  | .openedExpl => .ok (.success, ftl)
  | .full => .ok (.errFull, ftl)
  | .readOnly => .ok (.errReadOnly, ftl)
  | .offline => .ok (.errOffline, ftl)

/-- How many LBAs a write up to `elba` pushes out of the random write area that
starts at `wp`; at the end of the zone, all of them. -/
def zrwaFlushCount (zid wp elba : Nat) : Nat :=
  let zrwaImplStart := (wp + zpp.lbasPerZrwa) % 2 ^ 64
  if zrwaImplStart ≤ elba then
    divRoundUp (elba - zrwaImplStart + 1) zpp.lbasPerZrwafg * zpp.lbasPerZrwafg
  else if elba = zoneToElba spp zpp zid then elba - wp + 1
  else 0

/-- `__zns_write_zrwa`. -/
def znsWriteZrwa (ftl : ZnsFtl) (cmd : ZnsCommand) :
    Except Fault (Option Reply × ZnsCommand × ZnsFtl) := do
  let zid := lbaToZone spp zpp cmd.slba
  let prevWp := (ftl.zoneDescs zid).wp
  let nrLba := cmd.nrLba
  let elba := lastLba cmd.slba nrLba
  let zrwaImplEnd := lastLba prevWp (2 * zpp.lbasPerZrwa % 2 ^ 32)
  let rejected (status : Status) := (some { status := status, result := 0 }, cmd, ftl)
  if lbaToByte nrLba % spp.writeUnitSize ≠ 0 then
    return rejected .invalidWrite
  else if checkBoundaryError spp zpp cmd.slba nrLba = false then
    return rejected .errBoundary
  else if cmd.slba < prevWp ∨ zrwaImplEnd < elba then
    return rejected .invalidWrite
  else
    let (status, ftl) ← openForZrwaWrite zpp ftl zid
    if status ≠ .success then
      return (some { status := status, result := 0 }, cmd, ftl)
    else if (prevWp + zpp.lbasPerZrwa) % 2 ^ 64 ≤ elba ∧ zpp.lbasPerZrwafg = 0 then
      .error (.divideByZero .znsWriteZrwa)
    else
      let nrLbasFlush := zrwaFlushCount spp zpp zid prevWp elba
      if nrLbasFlush = 0 then
        return (some { status := .success, result := 0 }, cmd, ftl)
      else
        let (granted, ftl) ← zrwaAllocate zpp ftl zid (lbaToByte nrLbasFlush)
        if granted then
          let ftl := increaseWritePtr spp zpp ftl zid nrLbasFlush
          let remaining := nrLbasFlush / spp.secsPerPg
          let releases := zrwaReleases spp zpp remaining (lbaToLpn spp prevWp) remaining
          let ftl := ftl.schedule (releases.map fun bytes => (.zrwaBuffer zid, bytes))
          return (some { status := .success, result := 0 }, cmd, ftl)
        else
          return (none, cmd, ftl)

/-- `zns_write`. -/
def znsWrite (ftl : ZnsFtl) (cmd : ZnsCommand) :
    Except Fault (Option Reply × ZnsCommand × ZnsFtl) :=
  let zid := lpnToZone spp zpp (lbaToLpn spp cmd.slba)
  if (ftl.zoneDescs zid).zrwav then znsWriteZrwa spp zpp ftl cmd
  else znsWritePlain spp zpp ftl cmd

/-- The status of `zns_read`, which changes nothing. -/
def znsReadStatus (ftl : ZnsFtl) (cmd : ZnsCommand) : Status :=
  let zid := lpnToZone spp zpp (lbaToLpn spp cmd.slba)
  if (ftl.zoneDescs zid).state = .offline then .errOffline
  else if checkBoundaryError spp zpp cmd.slba cmd.nrLba = false then .errBoundary
  else .success

end Writes

section Management

variable (spp : SsdParams) (zpp : ZnsParams)

def zmgmtSendCloseZone (ftl : ZnsFtl) (zid : Nat) : Status × ZnsFtl :=
  match (ftl.zoneDescs zid).state with
  | .openedImpl | .openedExpl =>
      (.success, releaseZoneResource (changeZoneState ftl zid .closed) .openZone)
  | .closed => (.success, ftl)
  | _ => (.invalidTransition, ftl)

/-- What finishing and resetting do with the resources of an active zone, from
`case ZONE_STATE_CLOSED` on. -/
def releaseActive (ftl : ZnsFtl) (zid : Nat) : ZnsFtl :=
  let isZrwaZone := (ftl.zoneDescs zid).zrwav
  let ftl := releaseZoneResource ftl .activeZone
  if isZrwaZone then releaseZoneResource ftl .zrwaZone else ftl

def zmgmtSendFinishZone (ftl : ZnsFtl) (zid : Nat) : Status × ZnsFtl :=
  match (ftl.zoneDescs zid).state with
  | .openedImpl | .openedExpl =>
      let ftl := releaseZoneResource ftl .openZone
      (.success, changeZoneState (releaseActive ftl zid) zid .full)
  | .closed => (.success, changeZoneState (releaseActive ftl zid) zid .full)
  | .empty => (.success, changeZoneState ftl zid .full)
  | .full => (.success, ftl)
  | _ => (.invalidTransition, ftl)

/-- The `case ZONE_STATE_CLOSED` of `__zmgmt_send_open_zone`, which `EMPTY` falls
into. -/
def openExplicitly (ftl : ZnsFtl) (zid : Nat) : Status × ZnsFtl :=
  match acquireZoneResource ftl .openZone with
  | (false, ftl) => (.noOpenZone, ftl)
  | (true, ftl) => (.success, changeZoneState ftl zid .openedExpl)

def zmgmtSendOpenZone (ftl : ZnsFtl) (zid : Nat) (zrwa : Bool) : Status × ZnsFtl :=
  match (ftl.zoneDescs zid).state with
  | .empty =>
      if isZoneResourceFull ftl .activeZone then (.noActiveZone, ftl)
      else if isZoneResourceFull ftl .openZone then (.noOpenZone, ftl)
      else if zrwa then
        if isZoneResourceFull ftl .zrwaZone then (.zrwaRsrcUnavail, ftl)
        else
          let ftl := (acquireZoneResource ftl .zrwaZone).2
          let ftl := ftl.setDesc zid { ftl.zoneDescs zid with zrwav := true }
          openExplicitly (acquireZoneResource ftl .activeZone).2 zid
      else openExplicitly (acquireZoneResource ftl .activeZone).2 zid
  | .closed => openExplicitly ftl zid
  | .openedImpl => (.success, changeZoneState ftl zid .openedExpl)
  | .openedExpl => (.success, ftl)
  | _ => (.invalidTransition, ftl)

/-- `__reset_zone`: the bytes of the zone are cleared. -/
def resetZone (ftl : ZnsFtl) (zid : Nat) : ZnsFtl :=
  let start := zid * zpp.zoneSize
  let desc := ftl.zoneDescs zid
  let ftl :=
    { ftl with
      storage := fun i =>
        if start ≤ i ∧ i < start + zpp.zoneSize then 0 else ftl.storage i }
  let ftl := ftl.setDesc zid { desc with wp := desc.zslba, zrwav := false }
  if zpp.zrwaBufferSize = 0 then ftl
  else ftl.setBuffer (.zrwaBuffer zid) (bufferRefill (ftl.buffers (.zrwaBuffer zid)))

def zmgmtSendResetZone (ftl : ZnsFtl) (zid : Nat) : Status × ZnsFtl :=
  match (ftl.zoneDescs zid).state with
  | .openedImpl | .openedExpl =>
      let ftl := releaseActive (releaseZoneResource ftl .openZone) zid
      (.success, resetZone zpp (changeZoneState ftl zid .empty) zid)
  | .closed =>
      let ftl := releaseActive ftl zid
      (.success, resetZone zpp (changeZoneState ftl zid .empty) zid)
  | .full | .empty => (.success, resetZone zpp (changeZoneState ftl zid .empty) zid)
  | _ => (.invalidTransition, ftl)

def zmgmtSendOfflineZone (ftl : ZnsFtl) (zid : Nat) : Status × ZnsFtl :=
  match (ftl.zoneDescs zid).state with
  | .readOnly => (.success, changeZoneState ftl zid .offline)
  | .offline => (.success, ftl)
  | _ => (.invalidTransition, ftl)

/-- The `switch` of `__zmgmt_send_flush_explicit_zrwa`: the write pointer moves
behind `slba`. -/
def flushZrwaTo (ftl : ZnsFtl) (zid slba : Nat) : Status × ZnsFtl :=
  let desc := ftl.zoneDescs zid
  let flushed := ftl.setDesc zid { desc with wp := slba + 1 }
  let reached := slba + 1 = zoneToSlba spp zpp zid + desc.zoneCapacity
  let finish (ftl : ZnsFtl) :=
    let ftl := releaseZoneResource ftl .activeZone
    let ftl := releaseZoneResource ftl .zrwaZone
    changeZoneState ftl zid .full
  match desc.state with
  | .openedExpl | .openedImpl =>
      (.success, if reached then finish (releaseZoneResource flushed .openZone) else flushed)
  | .closed => (.success, if reached then finish flushed else flushed)
  | _ => (.invalidZoneOperation, ftl)

def zmgmtSendFlushExplicitZrwa (ftl : ZnsFtl) (slba : Nat) :
    Except Fault (Status × ZnsFtl) :=
  let zid := lbaToZone spp zpp slba
  let desc := ftl.zoneDescs zid
  let zrwaEnd := min (lastLba desc.wp zpp.lbasPerZrwa)
    (lastLba (zoneToSlba spp zpp zid) desc.zoneCapacity)
  if desc.zrwav = false then .ok (.invalidZoneOperation, ftl)
  else if ¬(desc.wp ≤ slba ∧ slba ≤ zrwaEnd) then .ok (.invalidZoneOperation, ftl)
  else if zpp.lbasPerZrwafg = 0 then .error (.divideByZero .flushExplicitZrwa)
  else if (slba - desc.wp + 1) % zpp.lbasPerZrwafg ≠ 0 then .ok (.invalidField, ftl)
  else .ok (flushZrwaTo spp zpp ftl zid slba)

/-- `__zmgmt_send`. -/
def zmgmtSend (ftl : ZnsFtl) (slba : Nat) (action : ZoneSendAction) (option : Bool) :
    Except Fault (Status × ZnsFtl) :=
  let zid := lbaToZone spp zpp slba
  match action with
  | .closeZone => .ok (zmgmtSendCloseZone ftl zid)
  | .finishZone => .ok (zmgmtSendFinishZone ftl zid)
  | .openZone => .ok (zmgmtSendOpenZone ftl zid option)
  | .resetZone => .ok (zmgmtSendResetZone zpp ftl zid)
  | .offlineZone => .ok (zmgmtSendOfflineZone ftl zid)
  | .flushExplZrwa => zmgmtSendFlushExplicitZrwa spp zpp ftl slba
  | .other _ => .ok (.indeterminate, ftl)

/-- `zns_zmgmt_send`; the statuses of a select-all are dropped. -/
def znsZmgmtSend (ftl : ZnsFtl) (cmd : ZnsCommand) : Except Fault (Status × ZnsFtl) :=
  if cmd.selectAll then do
    let ftl ← (List.range zpp.nrZones).foldlM (fun ftl zid => do
      let (_, ftl) ← zmgmtSend spp zpp ftl (zoneToSlba spp zpp zid) cmd.zsa cmd.zsaso
      return ftl) ftl
    return (.success, ftl)
  else zmgmtSend spp zpp ftl cmd.slba cmd.zsa cmd.zsaso

/-- `__check_zmgmt_rcv_option_supported`. -/
def checkZmgmtRcvOptionSupported (cmd : ZnsCommand) : Bool :=
  decide (lbaToZone spp zpp cmd.slba < zpp.nrZones) && cmd.zra == 0 &&
    cmd.zraSpecificField == 0

end Management

section Namespace

variable (spp : SsdParams) (zpp : ZnsParams)

/-- `zns_proc_nvme_io_cmd`: the answer (`none` when the command is refused), the
command as it stays in the submission queue, and the FTL. The report that a
zone-management-receive sends to the host is not part of the FTL. -/
def znsProcNvmeIoCmd (ftl : ZnsFtl) (cmd : ZnsCommand) :
    Except Fault (Option Reply × ZnsCommand × ZnsFtl) :=
  let answer (status : Status) (ftl : ZnsFtl) :=
    (some { status := status, result := 0 }, cmd, ftl)
  match cmd.opcode with
  | .write => znsWrite spp zpp ftl cmd
  | .zoneAppend => znsWrite spp zpp ftl cmd
  | .read => .ok (answer (znsReadStatus spp zpp ftl cmd) ftl)
  | .flush => .ok (answer .success ftl)
  | .zoneMgmtSend => do
      let (status, ftl) ← znsZmgmtSend spp zpp ftl cmd
      return answer status ftl
  | .zoneMgmtRecv =>
      .ok (answer
        (if checkZmgmtRcvOptionSupported spp zpp cmd then .success else .invalidField) ftl)
  | .other _ => .ok (answer .success ftl)

/-- `BYTE_TO_LBA`. -/
def byteToLba (bytes : Nat) : Nat := bytes / 512

/-- `zns_init_ftl`, with `__init_descriptor` and `__init_resource`. -/
def znsInitFtl (storage : Nat → UInt8) : ZnsFtl where
  resInfos _ := { acquiredCnt := 0, totalCnt := zpp.nrZones }
  zoneDescs zid :=
    { state := .empty
      zrwav := false
      zoneCapacity := byteToLba zpp.zoneSize
      zslba := zid * byteToLba zpp.zoneSize
      wp := zid * byteToLba zpp.zoneSize }
  buffers
    | .shared => bufferInit spp.writeBufferSize
    | .zoneWriteBuffer _ => bufferInit zpp.zoneWbSize
    | .zrwaBuffer _ => bufferInit zpp.zrwaBufferSize
  storage := storage
  pending := []

/-- What happens to a zoned FTL: a command is dispatched, or a worker executes
one of the scheduled buffer releases. -/
inductive ZnsEvent where
  | cmd (cmd : ZnsCommand)
  | release (i : Nat)
deriving DecidableEq, Repr

def znsStep (ftl : ZnsFtl) : ZnsEvent → Except Fault ZnsFtl
  | .cmd cmd => do
      let (_, _, ftl) ← znsProcNvmeIoCmd spp zpp ftl cmd
      return ftl
  | .release i =>
      match ftl.pending[i]? with
      | none => .ok ftl
      | some (ref, bytes) =>
          .ok { ftl.setBuffer ref (bufferRelease (ftl.buffers ref) bytes) with
            pending := ftl.pending.eraseIdx i }

def znsRun (ftl : ZnsFtl) (events : List ZnsEvent) : Except Fault ZnsFtl :=
  events.foldlM (znsStep spp zpp) ftl

end Namespace

end NvmeVirt.ZonedFtl
