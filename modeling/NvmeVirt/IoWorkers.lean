import NvmeVirt.IndexChain
import NvmeVirt.WriteBuffer

/-!
The request table of one I/O worker (`io.c`): a static array of entries that
carries a free list and a busy list threaded through the same `next` and `prev`
indices, and the thread that walks the busy list.
-/

namespace NvmeVirt.IoWorkers

open FaultOutcome
open IndexChain
open WriteBuffer

/-- `NR_MAX_PARALLEL_IO`. -/
def nrMaxParallelIo : Nat := 16384

/-- `-1` in an `unsigned int`. -/
def noEntry : Nat := 4294967295

/-- `struct nvmev_result`. -/
structure NvmevResult where
  status : Nat
  nsecsTarget : Nat
  result : Nat
deriving DecidableEq, Repr

/-- `struct nvmev_io_work`, without its profiling time stamps. -/
structure IoWork where
  sqid : Nat
  cqid : Nat
  sqEntry : Nat
  commandId : Nat
  nsecsTarget : Nat
  isCopied : Bool
  isCompleted : Bool
  status : Nat
  result0 : Nat
  result1 : Nat
  isInternal : Bool
  writeBuffer : Nat
  buffsToRelease : Nat
  next : Nat
  prev : Nat
  /-- Ghost: which accepted command of the device's life this entry serves. -/
  ticket : Nat
deriving DecidableEq, Repr

/-- `struct nvmev_io_worker`; `curr` is the local variable of its thread, which
holds `-1` between two passes over the busy list. -/
structure IoWorker where
  workQueue : Nat → IoWork
  freeSeq : Nat
  freeSeqEnd : Nat
  ioSeq : Nat
  ioSeqEnd : Nat
  latestNsecs : Nat
  curr : Nat

namespace IoWorker

def next (worker : IoWorker) (e : Nat) : Nat := (worker.workQueue e).next

def prev (worker : IoWorker) (e : Nat) : Nat := (worker.workQueue e).prev

def store (worker : IoWorker) (e : Nat) (w : IoWork) : IoWorker :=
  { worker with workQueue := Function.update worker.workQueue e w }

def setNext (worker : IoWorker) (e v : Nat) : IoWorker :=
  worker.store e { worker.workQueue e with next := v }

def setPrev (worker : IoWorker) (e v : Nat) : IoWorker :=
  worker.store e { worker.workQueue e with prev := v }

end IoWorker

/-- What the two callers of `__allocate_work_queue_entry` store in the entry. -/
inductive Request where
  /-- `__enqueue_io_req`. -/
  | host (sqid cqid sqEntry commandId : Nat) (ret : NvmevResult) (ticket : Nat)
  /-- `schedule_internal_operation`. -/
  | internal (sqid nsecsTarget writeBuffer buffsToRelease : Nat)
deriving DecidableEq, Repr

namespace Request

def nsecsTarget : Request → Nat
  | host _ _ _ _ ret _ => ret.nsecsTarget
  | internal _ nsecsTarget _ _ => nsecsTarget

def fill (r : Request) (w : IoWork) : IoWork :=
  match r with
  | host sqid cqid sqEntry commandId ret ticket =>
      { w with
        sqid := sqid
        cqid := cqid
        sqEntry := sqEntry
        commandId := commandId
        nsecsTarget := ret.nsecsTarget
        status := ret.status
        result0 := ret.result % 2 ^ 32
        result1 := ret.result / 2 ^ 32
        isCompleted := false
        isCopied := false
        prev := noEntry
        next := noEntry
        isInternal := false
        ticket := ticket }
  | internal sqid nsecsTarget writeBuffer buffsToRelease =>
      { w with
        sqid := sqid
        nsecsTarget := nsecsTarget
        isCompleted := false
        isCopied := true
        prev := noEntry
        next := noEntry
        isInternal := true
        writeBuffer := writeBuffer
        buffsToRelease := buffsToRelease }

end Request

/-- The scan of `__insert_req_sorted` from the tail of the busy list: the entry
to insert behind, or `-1`. -/
def insertPoint (worker : IoWorker) (nsecsTarget : Nat) : Nat → Nat → Except Fault Nat
  | 0, _ => .error (.endlessLoop .insertReqSorted)
  | fuel + 1, curr =>
      if curr = noEntry then
        .ok curr
      else if (worker.workQueue curr).nsecsTarget ≤ worker.latestNsecs then
        .ok curr
      else if (worker.workQueue curr).nsecsTarget ≤ nsecsTarget then
        .ok curr
      else
        insertPoint worker nsecsTarget fuel (worker.prev curr)

def insertReqSorted (entry : Nat) (worker : IoWorker) (nsecsTarget : Nat) :
    Except Fault IoWorker :=
  if worker.ioSeq = noEntry then
    .ok { worker with ioSeq := entry, ioSeqEnd := entry }
  else do
    let curr ← insertPoint worker nsecsTarget (nrMaxParallelIo + 1) worker.ioSeqEnd
    if curr = noEntry then
      -- head inserted
      let worker := worker.setPrev worker.ioSeq entry
      let worker := worker.setNext entry worker.ioSeq
      return { worker with ioSeq := entry }
    else if worker.next curr = noEntry then
      -- tail
      let worker := worker.setPrev entry curr
      let worker := { worker with ioSeqEnd := entry }
      return worker.setNext curr entry
    else
      -- in between
      let worker := worker.setPrev entry curr
      let worker := worker.setNext entry (worker.next curr)
      let worker := worker.setPrev (worker.next entry) entry
      return worker.setNext curr entry

/-- `__allocate_work_queue_entry` on the worker it picked: `none` is its `NULL`. -/
def allocateWorkQueueEntry (worker : IoWorker) :
    Except Fault (Option (Nat × IoWorker)) :=
  let e := worker.freeSeq
  if nrMaxParallelIo ≤ worker.next e then
    .ok none
  else do
    let worker := { worker with freeSeq := worker.next e }
    nvmevAssert (worker.freeSeq < nrMaxParallelIo) .allocateWorkQueueEntry
    return some (e, worker)

/-- The common body of `__enqueue_io_req` and `schedule_internal_operation`; a
refused allocation is not reported. -/
def enqueue (r : Request) (worker : IoWorker) : Except Fault IoWorker := do
  match ← allocateWorkQueueEntry worker with
  | none => return worker
  | some (entry, worker) =>
      let worker := worker.store entry (r.fill (worker.workQueue entry))
      insertReqSorted entry worker r.nsecsTarget

/-- The test of `__reclaim_completed_reqs` on one entry. -/
def IoWorker.reclaimable (worker : IoWorker) (e : Nat) : Bool :=
  (worker.workQueue e).isCompleted && (worker.workQueue e).isCopied &&
    decide ((worker.workQueue e).nsecsTarget ≤ worker.latestNsecs)

/-- The scan of `__reclaim_completed_reqs`: the last entry of the completed
part of the busy list, or `-1`. -/
def lastCompleted (worker : IoWorker) : Nat → Nat → Nat → Except Fault Nat
  | 0, _, _ => .error (.endlessLoop .reclaimCompletedReqs)
  | fuel + 1, curr, lastEntry =>
      if curr = noEntry then
        .ok lastEntry
      else if worker.reclaimable curr then
        lastCompleted worker fuel (worker.next curr) curr
      else
        .ok lastEntry

/-- `__reclaim_completed_reqs` for one worker. -/
def reclaimCompletedReqs (worker : IoWorker) : Except Fault IoWorker := do
  let firstEntry := worker.ioSeq
  let lastEntry ← lastCompleted worker (nrMaxParallelIo + 1) firstEntry noEntry
  if lastEntry = noEntry then
    return worker
  else
    let rest := worker.next lastEntry
    let worker := { worker with ioSeq := rest }
    let worker := if rest = noEntry then worker else worker.setPrev rest noEntry
    let worker := worker.setNext lastEntry noEntry
    let worker := worker.setPrev firstEntry worker.freeSeqEnd
    let worker := worker.setNext worker.freeSeqEnd firstEntry
    return { worker with freeSeqEnd := lastEntry }

/-- What a step of the worker thread does besides updating its table. -/
inductive Effect where
  /-- `__fill_cq_result` with this entry. -/
  | fillCqResult (w : IoWork)
  /-- `buffer_release`. -/
  | bufferRelease (writeBuffer buffsToRelease : Nat)
deriving DecidableEq, Repr

/-- The next step of the thread moves the data of the entry it stands on. -/
def IoWorker.transfers (worker : IoWorker) : Bool :=
  let w := worker.workQueue worker.curr
  worker.curr != noEntry && !w.isCompleted && !w.isCopied && !w.isInternal

/-- The entry after the copying part of the loop body; `moved` is the status
and `result0` the transfer leaves there. -/
def copied (w : IoWork) (moved : Nat × Nat) : IoWork :=
  if w.isCopied then w
  else if w.isInternal then { w with isCopied := true }
  else { w with isCopied := true, status := moved.1, result0 := moved.2 }

theorem copied_eq (w : IoWork) (moved : Nat × Nat) :
    ∃ status result0,
      copied w moved = { w with isCopied := true, status := status, result0 := result0 } := by
  rw [copied]
  split
  · next hcopied =>
    refine ⟨w.status, w.result0, ?_⟩
    rw [← hcopied]
  · split
    · exact ⟨w.status, w.result0, rfl⟩
    · exact ⟨moved.1, moved.2, rfl⟩

def IoWork.finish (w : IoWork) : Effect :=
  if w.isInternal then .bufferRelease w.writeBuffer w.buffsToRelease
  else .fillCqResult w

/-- One step of `nvmev_io_worker`: entering the next pass over the busy list or
one round of the inner loop at wall clock `now`. -/
def ioWorkerStep (worker : IoWorker) (now : Nat) (moved : Nat × Nat) :
    IoWorker × Option Effect :=
  if worker.curr = noEntry then
    ({ worker with curr := worker.ioSeq }, none)
  else
    let w := worker.workQueue worker.curr
    let worker := { worker with latestNsecs := now }
    if w.isCompleted then
      ({ worker with curr := w.next }, none)
    else
      let w := copied w moved
      if w.nsecsTarget ≤ now then
        let worker := worker.store worker.curr { w with isCompleted := true }
        ({ worker with curr := w.next }, some w.finish)
      else
        let worker := worker.store worker.curr w
        ({ worker with curr := w.next }, none)

def zeroedWork : IoWork where
  sqid := 0
  cqid := 0
  sqEntry := 0
  commandId := 0
  nsecsTarget := 0
  isCopied := false
  isCompleted := false
  status := 0
  result0 := 0
  result1 := 0
  isInternal := false
  writeBuffer := 0
  buffsToRelease := 0
  next := 0
  prev := 0
  ticket := 0

/-- `NVMEV_IO_WORKER_INIT` for one worker. -/
def ioWorkerInit : IoWorker where
  workQueue i :=
    { zeroedWork with
      next := if i = nrMaxParallelIo - 1 then noEntry else i + 1
      prev := if i = 0 then noEntry else i - 1 }
  freeSeq := 0
  freeSeqEnd := nrMaxParallelIo - 1
  ioSeq := noEntry
  ioSeqEnd := noEntry
  latestNsecs := 0
  curr := noEntry

end NvmeVirt.IoWorkers
