import NvmeVirt.CompletionPhase

/-!
The registers a host brings the controller up with (`nvmev_proc_bars`, `pci.c`) and
the doorbells of the admin queue behind them (`nvmev_proc_dbs`, `main.c`). The
dispatcher learns of a write by comparing a register with the value it saw last.
-/

namespace NvmeVirt.AdminRegisters

open AdminQueues
open CompletionPhase
open IoDispatch
open IoWorkers
open WriteBuffer

variable {μ κ : Type}

/-- The part of `struct nvme_ctrl_regs` that the host writes. -/
structure CtrlRegs where
  aqa : Nat
  asq : Nat
  acq : Nat
  cc : Nat
deriving DecidableEq, Repr

namespace CtrlRegs

variable (bar : CtrlRegs)

def asqs : Nat := bar.aqa % 2 ^ 12

def acqs : Nat := bar.aqa / 2 ^ 16 % 2 ^ 12

def en : Nat := bar.cc % 2

def shn : Nat := bar.cc / 2 ^ 14 % 4

end CtrlRegs

/-- The fields of `csts` the device sets. -/
structure Csts where
  rdy : Nat
  shst : Nat
deriving DecidableEq, Repr

/-- The admin queue and the number of pages behind `nvme_sq` and `nvme_cq`, which
are missing as long as the pointers are `NULL`. -/
structure MappedQueue (κ : Type) where
  queue : AdminQueue κ
  sqPages : Option Nat
  cqPages : Option Nat

inductive AdminRecord where
  | aqaSeen
  | asqSeen
  | acqSeen
  /-- `CC` is found with `EN` cleared, or with `SHN` set to a normal shutdown. -/
  | stopped (shutdown : Bool)
  | enabled
  | fetched (eid : Nat)
  | posted (slot depth : Nat) (cqe : Completion)
  /-- `nvmev_proc_admin_sq` has returned for this doorbell. -/
  | handled (db : Nat)
deriving DecidableEq, Repr

/-- The device as far as registers and the admin queue go. The doorbells of the
admin queue are those of queue 0; `trace` lists, latest first, what was done. -/
structure AdminVdev (μ κ : Type) where
  bar : CtrlRegs
  oldBar : CtrlRegs
  csts : Csts
  adminQ : Option (MappedQueue κ)
  dev : NvmevDev μ κ
  cqDbs : Nat → Nat
  oldCqDbs : Nat → Nat
  trace : List AdminRecord

variable (vdev : AdminVdev μ κ)

def AdminVdev.record (entry : AdminRecord) : AdminVdev μ κ :=
  { vdev with trace := entry :: vdev.trace }

/-- `dbs[0] = old_dbs[0] = 0`. -/
def AdminVdev.clearSqDb : AdminVdev μ κ :=
  { vdev with
    dev := { vdev.dev with
      dbs := Function.update vdev.dev.dbs 0 0
      oldDbs := Function.update vdev.dev.oldDbs 0 0 } }

/-- `dbs[1] = old_dbs[1] = 0`. -/
def AdminVdev.clearCqDb : AdminVdev μ κ :=
  { vdev with
    cqDbs := Function.update vdev.cqDbs 0 0
    oldCqDbs := Function.update vdev.oldCqDbs 0 0 }

/-- The queue as `kzalloc` leaves it. -/
def newAdminQueue : MappedQueue κ where
  queue :=
    { phase := 0
      sqDepth := 0
      cqDepth := 0
      cqHead := 0
      nvmeSq := fun _ => ⟨0, .abort⟩
      nvmeCq := fun _ => ⟨0, 0, 0, 0, 0, 0⟩ }
  sqPages := none
  cqPages := none

/-- `DIV_ROUND_UP(depth * entry_size, PAGE_SIZE)`. -/
def ringPages (depth entrySize : Nat) : Nat := (depth * entrySize + 4095) / 4096

/-- `nvmev_proc_bars`, a change of `AQA`. -/
def procAqa : AdminVdev μ κ :=
  let q := vdev.adminQ.getD newAdminQueue
  let queue := { q.queue with
    cqHead := 0
    phase := 1
    sqDepth := vdev.bar.asqs + 1
    cqDepth := vdev.bar.acqs + 1 }
  let vdev := { vdev with
    oldBar := { vdev.oldBar with aqa := vdev.bar.aqa }
    adminQ := some { q with queue := queue } }
  (vdev.clearSqDb.clearCqDb).record .aqaSeen

/-- `nvmev_proc_bars`, a change of `ASQ`; `memory` is what the host keeps there. As
long as there is no queue the change is left for the next look. -/
def procAsq (memory : Nat → AdminCommand κ) : AdminVdev μ κ :=
  match vdev.adminQ with
  | none => vdev
  | some q =>
      let depth := vdev.bar.asqs + 1
      let vdev := { vdev with
        oldBar := { vdev.oldBar with asq := vdev.bar.asq }
        adminQ := some { q with
          queue := { q.queue with sqDepth := depth, nvmeSq := memory }
          sqPages := some (ringPages depth 64) } }
      vdev.clearSqDb.record .asqSeen

/-- `nvmev_proc_bars`, a change of `ACQ`. -/
def procAcq (memory : Nat → Completion) : AdminVdev μ κ :=
  match vdev.adminQ with
  | none => vdev
  | some q =>
      let depth := vdev.bar.acqs + 1
      let vdev := { vdev with
        oldBar := { vdev.oldBar with acq := vdev.bar.acq }
        adminQ := some { q with
          queue := { q.queue with cqDepth := depth, cqHead := 0, phase := 1, nvmeCq := memory }
          cqPages := some (ringPages depth 16) } }
      vdev.clearCqDb.record .acqSeen

/-- `nvmev_proc_bars`, a change of `CC`. -/
def procCc : Except Fault (AdminVdev μ κ) :=
  let rdy := if vdev.bar.en = 1 then (if vdev.adminQ.isSome then 1 else vdev.csts.rdy) else 0
  let vdev := { vdev with
    csts := { vdev.csts with rdy := rdy }
    oldBar := { vdev.oldBar with cc := vdev.bar.cc } }
  if vdev.bar.shn = 1 then
    match vdev.adminQ with
    | none => .error (.nullPointer .procBars)
    | some q =>
        let vdev := { vdev with
          csts := { vdev.csts with shst := 2 }
          adminQ := some { q with queue := { q.queue with cqHead := 0 } } }
        -- the phase stays as it is
        .ok ((vdev.clearSqDb.clearCqDb).record (.stopped true))
  else if vdev.bar.en = 0 then
    .ok (vdev.record (.stopped false))
  else if vdev.adminQ.isSome then
    .ok (vdev.record .enabled)
  else
    .ok vdev

/-- `nvmev_proc_bars` acts on the first register it finds changed, and says
whether there was one. -/
def procBars (sqMemory : Nat → AdminCommand κ) (cqMemory : Nat → Completion) :
    Except Fault (Bool × AdminVdev μ κ) :=
  if vdev.oldBar.aqa ≠ vdev.bar.aqa then
    .ok (true, procAqa vdev)
  else if vdev.oldBar.asq ≠ vdev.bar.asq then
    .ok (true, procAsq vdev sqMemory)
  else if vdev.oldBar.acq ≠ vdev.bar.acq then
    .ok (true, procAcq vdev cqMemory)
  else if vdev.oldBar.cc ≠ vdev.bar.cc then do
    let vdev ← procCc vdev
    return (true, vdev)
  else
    .ok (false, vdev)

/-- An entry of a ring is used through the page it lies on. -/
def entryPage (pages : Option Nat) (page : Nat) : Except Fault Unit :=
  match pages with
  | none => .error (.nullPointer .procAdminSq)
  | some n => if page < n then .ok () else .error (.outOfBounds .procAdminSq)

def AdminRequest.answered : AdminRequest κ → Bool
  | .abort => false
  | _ => true

/-- `__nvmev_proc_admin_req` for one entry of the ring. -/
def procAdminEntry (eid : Nat) : Except Fault (AdminVdev μ κ) :=
  match vdev.adminQ with
  | none => .error (.nullPointer .procAdminSq)
  | some q => do
      entryPage q.sqPages (eid / 64)
      let ctrl ← procAdminReq ⟨vdev.dev, q.queue, vdev.cqDbs, vdev.oldCqDbs⟩ eid
      let vdev := { vdev with
        adminQ := some { q with queue := ctrl.adminQ }
        dev := ctrl.dev
        cqDbs := ctrl.cqDbs
        oldCqDbs := ctrl.oldCqDbs }
      let vdev := vdev.record (.fetched eid)
      if AdminRequest.answered (q.queue.nvmeSq eid).request then
        let slot := q.queue.cqHead
        entryPage q.cqPages (slot / 256)
        return vdev.record (.posted slot q.queue.cqDepth (ctrl.adminQ.nvmeCq slot))
      else
        return vdev

/-- The loop of `nvmev_proc_admin_sq`. -/
def procAdminSqLoop (sqDepth : Nat) :
    Nat → Nat → AdminVdev μ κ → Except Fault (AdminVdev μ κ)
  | 0, _, vdev => .ok vdev
  | n + 1, curr, vdev => do
      let vdev ← procAdminEntry vdev curr
      procAdminSqLoop sqDepth n (if curr + 1 = sqDepth then 0 else curr + 1) vdev

/-- `nvmev_proc_admin_sq`, with the doorbells as the `int`s they are passed as. -/
def procAdminSq (newDb oldDb : Nat) : Except Fault (AdminVdev μ κ) :=
  match vdev.adminQ with
  | none => .error (.nullPointer .procAdminSq)
  | some q =>
      let numProc := ((newDb : Int) - oldDb).bmod (2 ^ 32)
      let numProc := if numProc < 0 then numProc + q.queue.sqDepth else numProc
      procAdminSqLoop q.queue.sqDepth numProc.toNat oldDb vdev

/-- The part of `nvmev_proc_dbs` that looks at `dbs[0]`. -/
def procAdminSqDb : Except Fault (AdminVdev μ κ) :=
  let newDb := vdev.dev.dbs 0
  if newDb = vdev.dev.oldDbs 0 then
    .ok vdev
  else do
    let vdev ← procAdminSq vdev newDb (vdev.dev.oldDbs 0)
    let dev := { vdev.dev with oldDbs := Function.update vdev.dev.oldDbs 0 newDb }
    return { vdev with dev := dev }.record (.handled newDb)

/-- The part of `nvmev_proc_dbs` that looks at `dbs[1]`; `nvmev_proc_admin_cq` does
nothing. -/
def procAdminCqDb : AdminVdev μ κ :=
  { vdev with oldCqDbs := Function.update vdev.oldCqDbs 0 (vdev.cqDbs 0) }

def procAdminDbs : Except Fault (AdminVdev μ κ) := do
  let vdev ← procAdminSqDb vdev
  return procAdminCqDb vdev

/-- A write of the host, or a round of the dispatcher's loop in halves. -/
inductive AdminEvent (κ : Type) where
  | writeAqa (value : Nat)
  | writeAsq (value : Nat)
  | writeAcq (value : Nat)
  | writeCc (value : Nat)
  | ringSq (db : Nat)
  | ringCq (db : Nat)
  | writeEntry (eid : Nat) (cmd : AdminCommand κ)
  | procBars (sqMemory : Nat → AdminCommand κ) (cqMemory : Nat → Completion)
  | procDbs

/-- Replace an entry of the submission ring, once there is one. -/
def writeEntry (eid : Nat) (cmd : AdminCommand κ) : AdminVdev μ κ :=
  { vdev with adminQ := vdev.adminQ.map fun q =>
      { q with queue := { q.queue with
        nvmeSq := Function.update q.queue.nvmeSq eid cmd } } }

def adminStep : AdminEvent κ → Except Fault (AdminVdev μ κ)
  | .writeAqa value => .ok { vdev with bar := { vdev.bar with aqa := value % 2 ^ 32 } }
  | .writeAsq value => .ok { vdev with bar := { vdev.bar with asq := value % 2 ^ 64 } }
  | .writeAcq value => .ok { vdev with bar := { vdev.bar with acq := value % 2 ^ 64 } }
  | .writeCc value => .ok { vdev with bar := { vdev.bar with cc := value % 2 ^ 32 } }
  | .ringSq db =>
      .ok { vdev with dev := { vdev.dev with
        dbs := Function.update vdev.dev.dbs 0 (db % 2 ^ 32) } }
  | .ringCq db => .ok { vdev with cqDbs := Function.update vdev.cqDbs 0 (db % 2 ^ 32) }
  | .writeEntry eid cmd => .ok (writeEntry vdev eid cmd)
  | .procBars sqMemory cqMemory => do
      let (_, vdev) ← procBars vdev sqMemory cqMemory
      return vdev
  | .procDbs => procAdminDbs vdev

/-- `__init_nvme_ctrl_regs` and `VDEV_INIT`: registers and doorbells are zero and
there is no admin queue. -/
def vdevInit (dev : NvmevDev μ κ) : AdminVdev μ κ where
  bar := ⟨0, 0, 0, 0⟩
  oldBar := ⟨0, 0, 0, 0⟩
  csts := ⟨0, 0⟩
  adminQ := none
  dev := { dev with dbs := fun _ => 0, oldDbs := fun _ => 0 }
  cqDbs _ := 0
  oldCqDbs _ := 0
  trace := []

end NvmeVirt.AdminRegisters
