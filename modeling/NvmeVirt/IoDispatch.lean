import NvmeVirt.IoTable

/-!
The device around the request tables (`io.c`): queues, doorbells, the dispatcher
thread inside `nvmev_proc_io_sq` and the worker threads, as one transition
system whose steps are the rounds of their loops.
-/

namespace NvmeVirt.IoDispatch

open FaultOutcome
open IoTable
open IoWorkers
open WriteBuffer

variable {μ κ : Type}

/-- What `io.c` needs to know of the commands in a submission queue. `perform`
is the transfer the worker makes: it may change the medium `μ` and, in the
key-value build, the status and `result0` of the entry. -/
structure Backend (μ κ : Type) where
  commandId : κ → Nat
  cmdIoSize : κ → Nat
  perform : μ → κ → Nat × Nat → μ × Nat × Nat

/-- `struct nvmev_sq_stat`. The counts in flight are unsigned in the source; here a count
that would wrap turns negative. -/
structure SqStat where
  nrDispatched : Nat
  nrDispatch : Nat
  nrInFlight : Int
  maxNrInFlight : Int
  totalIo : Nat

/-- `struct nvmev_submission_queue`. -/
structure SubmissionQueue (κ : Type) where
  cqid : Nat
  queueSize : Nat
  stat : SqStat
  sq : Nat → κ

/-- `struct nvme_completion`. -/
structure Completion where
  commandId : Nat
  sqId : Nat
  sqHead : Nat
  status : Nat
  result0 : Nat
  result1 : Nat
deriving DecidableEq, Repr

/-- `struct nvmev_completion_queue`. -/
structure CompletionQueue where
  queueSize : Nat
  phase : Nat
  cqHead : Nat
  cqTail : Int
  interruptReady : Bool
  cq : Nat → Completion

/-- The locals of `nvmev_proc_io_sq` while it runs. `turn` is the loop variable
of `__reclaim_completed_reqs` when the dispatcher is in there. -/
structure Pass where
  sqid : Nat
  oldDb : Nat
  numProc : Nat
  seq : Nat
  sqEntry : Nat
  turn : Option Nat
deriving DecidableEq, Repr

/-- A submission-queue entry that `__nvmev_proc_io` accepted. -/
structure Accepted where
  sqid : Nat
  sqEntry : Nat
  commandId : Nat
deriving DecidableEq, Repr

/-- `struct nvmev_dev`, as far as `io.c` goes. `sqes` and `cqes` are arrays in the source,
with a place for each identifier up to `NR_MAX_IO_QUEUE`; the admin commands put nothing
behind them. `accepted` and `posted` are ghost histories: the entries stepped over, in order,
and the table entries handed to `__fill_cq_result`. -/
structure NvmevDev (μ κ : Type) where
  nrIoWorkers : Nat
  ioWorkers : Nat → IoWorker
  ioWorkerTurn : Nat
  sqes : Nat → Option (SubmissionQueue κ)
  cqes : Nat → Option CompletionQueue
  dbs : Nat → Nat
  oldDbs : Nat → Nat
  pass : Option Pass
  buffers : Nat → Buffer
  medium : μ
  accepted : List Accepted
  posted : List IoWork

def NvmevDev.setWorker (vdev : NvmevDev μ κ) (id : Nat) (worker : IoWorker) :
    NvmevDev μ κ :=
  { vdev with ioWorkers := Function.update vdev.ioWorkers id worker }

/-- `__get_io_worker` with `CONFIG_NVMEV_IO_WORKER_BY_SQ`. -/
def getIoWorker (vdev : NvmevDev μ κ) (sqid : Nat) : Except Fault Nat :=
  if vdev.nrIoWorkers = 0 then
    .error (.divideByZero .getIoWorker)
  else if sqid = 0 then
    .ok (4294967295 % vdev.nrIoWorkers)
  else
    .ok ((sqid - 1) % vdev.nrIoWorkers)

/-- `__enqueue_io_req` and `schedule_internal_operation` on the device. -/
def enqueueRequest (vdev : NvmevDev μ κ) (sqid : Nat) (r : Request) :
    Except Fault (NvmevDev μ κ) := do
  let id ← getIoWorker vdev sqid
  let worker := vdev.ioWorkers id
  let worker' ← enqueue r worker
  let turn := if id + 1 = vdev.nrIoWorkers then 0 else id + 1
  let vdev :=
    if HasSlot worker then { vdev with ioWorkerTurn := turn } else vdev
  return vdev.setWorker id worker'

def enqueueIoReq (be : Backend μ κ) (vdev : NvmevDev μ κ) (sqid sqEntry : Nat)
    (sq : SubmissionQueue κ) (ret : NvmevResult) : Except Fault (NvmevDev μ κ) :=
  enqueueRequest vdev sqid (.host sqid sq.cqid sqEntry (be.commandId (sq.sq sqEntry))
    ret vdev.accepted.length)

def scheduleInternalOperation (vdev : NvmevDev μ κ)
    (sqid nsecsTarget writeBuffer buffsToRelease : Nat) :
    Except Fault (NvmevDev μ κ) :=
  enqueueRequest vdev sqid (.internal sqid nsecsTarget writeBuffer buffsToRelease)

/-- The call of `nvmev_proc_io_sq` in `nvmev_proc_dbs`. -/
def beginPass (vdev : NvmevDev μ κ) (sqid : Nat) : NvmevDev μ κ :=
  match vdev.pass, vdev.sqes sqid with
  | none, some sq =>
      let newDb := vdev.dbs sqid
      let oldDb := vdev.oldDbs sqid
      if newDb = oldDb then vdev
      else
        let numProc :=
          if newDb < oldDb then newDb + sq.queueSize - oldDb else newDb - oldDb
        { vdev with
          pass := some
            { sqid := sqid
              oldDb := oldDb
              numProc := numProc
              seq := 0
              sqEntry := oldDb
              turn := none } }
  | _, _ => vdev

/-- The end of `nvmev_proc_io_sq`: the saved doorbell moves to where it got. -/
def endPass (vdev : NvmevDev μ κ) (p : Pass) (sq : SubmissionQueue κ) :
    NvmevDev μ κ :=
  let stat :=
    { sq.stat with
      nrDispatch := sq.stat.nrDispatch + 1
      maxNrInFlight := max sq.stat.maxNrInFlight sq.stat.nrInFlight }
  { vdev with
    sqes := Function.update vdev.sqes p.sqid (some { sq with stat := stat })
    oldDbs := Function.update vdev.oldDbs p.sqid ((p.oldDb + p.seq) % sq.queueSize)
    pass := none }

/-- The first half of a round of `nvmev_proc_io_sq`: `proc_io_cmd` leaves `cmd`
in the slot and either refuses (`none`) or answers, and then the request is
queued. The answer of `__nvmev_proc_io` does not depend on whether it was. -/
def procIo (be : Backend μ κ) (vdev : NvmevDev μ κ) (cmd : κ)
    (ret : Option NvmevResult) : Except Fault (NvmevDev μ κ) :=
  match vdev.pass with
  | none => .ok vdev
  | some p =>
      match vdev.sqes p.sqid with
      | none => .error (.nullPointer .procIoSq)
      | some sq =>
          if p.turn.isSome then .ok vdev
          else if p.numProc ≤ p.seq then .ok (endPass vdev p sq)
          else do
            let sq := { sq with sq := Function.update sq.sq p.sqEntry cmd }
            let vdev :=
              { vdev with sqes := Function.update vdev.sqes p.sqid (some sq) }
            match ret with
            | none => return endPass vdev p sq
            | some ret =>
                let vdev ← enqueueIoReq be vdev p.sqid p.sqEntry sq ret
                return { vdev with
                  pass := some { p with turn := some 0 }
                  accepted := vdev.accepted ++
                    [{ sqid := p.sqid
                       sqEntry := p.sqEntry
                       commandId := be.commandId cmd }] }

/-- The second half: a round of `__reclaim_completed_reqs`, or its end and the
step to the next entry. -/
def reclaimRound (be : Backend μ κ) (vdev : NvmevDev μ κ) :
    Except Fault (NvmevDev μ κ) :=
  match vdev.pass with
  | none => .ok vdev
  | some p =>
      match p.turn with
      | none => .ok vdev
      | some turn =>
          if turn < vdev.nrIoWorkers then do
            let worker ← reclaimCompletedReqs (vdev.ioWorkers turn)
            let vdev := vdev.setWorker turn worker
            return { vdev with pass := some { p with turn := some (turn + 1) } }
          else
            match vdev.sqes p.sqid with
            | none => .error (.nullPointer .procIoSq)
            | some sq =>
                let stat :=
                  { sq.stat with
                    nrDispatched := sq.stat.nrDispatched + 1
                    nrInFlight := sq.stat.nrInFlight + 1
                    totalIo := sq.stat.totalIo + be.cmdIoSize (sq.sq p.sqEntry) }
                let sqEntry :=
                  if p.sqEntry + 1 = sq.queueSize then 0 else p.sqEntry + 1
                .ok { vdev with
                  sqes := Function.update vdev.sqes p.sqid (some { sq with stat := stat })
                  pass := some
                    { p with seq := p.seq + 1, sqEntry := sqEntry, turn := none } }

def fillCqResult (vdev : NvmevDev μ κ) (w : IoWork) : Except Fault (NvmevDev μ κ) :=
  match vdev.cqes w.cqid with
  | none => .error (.nullPointer .fillCqResult)
  | some cq =>
      let cqe : Completion :=
        { commandId := w.commandId % 2 ^ 16
          sqId := w.sqid % 2 ^ 16
          sqHead := w.sqEntry % 2 ^ 16
          status := (cq.phase ||| w.status * 2) % 2 ^ 16
          result0 := w.result0
          result1 := w.result1 }
      let wraps := cq.cqHead + 1 = cq.queueSize
      let cq :=
        { cq with
          cq := Function.update cq.cq cq.cqHead cqe
          cqHead := if wraps then 0 else cq.cqHead + 1
          phase := if wraps then (if cq.phase = 0 then 1 else 0) else cq.phase
          interruptReady := true }
      .ok { vdev with
        cqes := Function.update vdev.cqes w.cqid (some cq)
        posted := vdev.posted ++ [w] }

/-- The transfer of a step of worker `id`, if it makes one: the medium after it
and the status and `result0` it leaves in the entry. -/
def performIo (be : Backend μ κ) (vdev : NvmevDev μ κ) (id : Nat) :
    Except Fault (μ × Nat × Nat) :=
  let worker := vdev.ioWorkers id
  let w := worker.workQueue worker.curr
  if worker.transfers then
    match vdev.sqes w.sqid with
    | none => .error (.nullPointer .doPerformIo)
    | some sq => .ok (be.perform vdev.medium (sq.sq w.sqEntry) (w.status, w.result0))
  else
    .ok (vdev.medium, w.status, w.result0)

/-- One step of the thread of worker `id`. -/
def workerRound (be : Backend μ κ) (vdev : NvmevDev μ κ) (id now : Nat) :
    Except Fault (NvmevDev μ κ) := do
  let (medium, moved) ← performIo be vdev id
  let (worker, effect) := ioWorkerStep (vdev.ioWorkers id) now moved
  let vdev := { vdev.setWorker id worker with medium := medium }
  match effect with
  | none => return vdev
  | some (.fillCqResult w) => fillCqResult vdev w
  | some (.bufferRelease writeBuffer buffsToRelease) =>
      let buf := bufferRelease (vdev.buffers writeBuffer) buffsToRelease
      return { vdev with buffers := Function.update vdev.buffers writeBuffer buf }

/-- A step of the host, of the dispatcher or of a worker. -/
inductive Event (κ : Type) where
  | hostWrite (sqid slot : Nat) (cmd : κ)
  | hostRing (sqid db : Nat)
  | beginPass (sqid : Nat)
  | procIo (cmd : κ) (ret : Option NvmevResult)
  | internal (sqid nsecsTarget writeBuffer buffsToRelease : Nat)
  | reclaim
  | worker (id now : Nat)

def step (be : Backend μ κ) (vdev : NvmevDev μ κ) :
    Event κ → Except Fault (NvmevDev μ κ)
  | .hostWrite sqid slot cmd =>
      let sq := (vdev.sqes sqid).map fun sq =>
        { sq with sq := Function.update sq.sq slot cmd }
      .ok { vdev with sqes := Function.update vdev.sqes sqid sq }
  | .hostRing sqid db => .ok { vdev with dbs := Function.update vdev.dbs sqid db }
  | .beginPass sqid => .ok (beginPass vdev sqid)
  | .procIo cmd ret => procIo be vdev cmd ret
  | .internal sqid nsecsTarget writeBuffer buffsToRelease =>
      scheduleInternalOperation vdev sqid nsecsTarget writeBuffer buffsToRelease
  | .reclaim => reclaimRound be vdev
  | .worker id now =>
      if id < vdev.nrIoWorkers then workerRound be vdev id now else .ok vdev

/-- The device as `NVMEV_IO_WORKER_INIT` leaves it. -/
structure Started (vdev : NvmevDev μ κ) : Prop where
  workers : ∀ id, vdev.ioWorkers id = ioWorkerInit
  pass : vdev.pass = none
  accepted : vdev.accepted = []
  posted : vdev.posted = []

end NvmeVirt.IoDispatch
