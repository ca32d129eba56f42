import NvmeVirt.IoSteps

/-!
The admin queue (`admin.c`) as far as it creates and deletes I/O queues, and the
dispatcher's work on the doorbells of completion queues.
-/

namespace NvmeVirt.AdminQueues

open FaultOutcome
open IoDispatch
open IoWorkers
open WriteBuffer

variable {μ κ : Type}

/-- The admin commands. A queue is created over host memory, given here as what
that memory holds. -/
inductive AdminRequest (κ : Type) where
  | createCq (cqid qsize : Nat) (memory : Nat → Completion)
  | deleteCq (qid : Nat)
  | createSq (sqid cqid qsize : Nat) (memory : Nat → κ)
  | deleteSq (qid : Nat)
  /-- `nvme_admin_abort_cmd`, which is not answered. -/
  | abort
  /-- Any other command, with the answer it gets. -/
  | other (ret result0 result1 : Nat)

/-- `NR_MAX_IO_QUEUE`. -/
def nrMaxIoQueue : Nat := 72

/-- The queue that a request creates or deletes has a place in the arrays `sqes` and `cqes`.
The source does not look: beyond, it uses whatever lies behind the array. -/
def AdminRequest.Indexed : AdminRequest κ → Prop
  | .createCq cqid _ _ => cqid ≤ nrMaxIoQueue
  | .deleteCq qid => qid ≤ nrMaxIoQueue
  | .createSq sqid _ _ _ => sqid ≤ nrMaxIoQueue
  | .deleteSq qid => qid ≤ nrMaxIoQueue
  | .abort => True
  | .other _ _ _ => True

instance (request : AdminRequest κ) : Decidable request.Indexed :=
  match request with
  | .createCq cqid _ _ => inferInstanceAs (Decidable (cqid ≤ nrMaxIoQueue))
  | .deleteCq qid => inferInstanceAs (Decidable (qid ≤ nrMaxIoQueue))
  | .createSq sqid _ _ _ => inferInstanceAs (Decidable (sqid ≤ nrMaxIoQueue))
  | .deleteSq qid => inferInstanceAs (Decidable (qid ≤ nrMaxIoQueue))
  | .abort => .isTrue trivial
  | .other _ _ _ => .isTrue trivial

structure AdminCommand (κ : Type) where
  commandId : Nat
  request : AdminRequest κ

/-- `struct nvmev_admin_queue`. -/
structure AdminQueue (κ : Type) where
  phase : Nat
  sqDepth : Nat
  cqDepth : Nat
  cqHead : Nat
  nvmeSq : Nat → AdminCommand κ
  nvmeCq : Nat → Completion

def makeCqEntryResults (queue : AdminQueue κ) (eid ret result0 result1 : Nat) :
    AdminQueue κ :=
  let cqe : Completion :=
    { commandId := (queue.nvmeSq eid).commandId % 2 ^ 16
      sqId := 0
      sqHead := eid % 2 ^ 16
      status := (queue.phase ||| ret * 2) % 2 ^ 16
      result0 := result0
      result1 := result1 }
  let wraps := queue.cqHead + 1 = queue.cqDepth
  { queue with
    nvmeCq := Function.update queue.nvmeCq queue.cqHead cqe
    cqHead := if wraps then 0 else queue.cqHead + 1
    phase := if wraps then (if queue.phase = 0 then 1 else 0) else queue.phase }

def makeCqEntry (queue : AdminQueue κ) (eid ret : Nat) : AdminQueue κ :=
  makeCqEntryResults queue eid ret 0 0

/-- The device with its admin queue and the doorbells of the completion queues. -/
structure Controller (μ κ : Type) where
  dev : NvmevDev μ κ
  adminQ : AdminQueue κ
  cqDbs : Nat → Nat
  oldCqDbs : Nat → Nat

/-- The completion queue `__nvmev_admin_create_cq` sets up. -/
def newCq (qsize : Nat) (memory : Nat → Completion) : CompletionQueue where
  queueSize := qsize + 1
  phase := 1
  cqHead := 0
  cqTail := -1
  interruptReady := false
  cq := memory

def nvmevAdminCreateCq (ctrl : Controller μ κ) (eid cqid qsize : Nat)
    (memory : Nat → Completion) : Controller μ κ :=
  { dev := { ctrl.dev with
      cqes := Function.update ctrl.dev.cqes cqid (some (newCq qsize memory)) }
    adminQ := makeCqEntry ctrl.adminQ eid 0
    cqDbs := Function.update ctrl.cqDbs cqid 0
    oldCqDbs := Function.update ctrl.oldCqDbs cqid 0 }

def nvmevAdminDeleteCq (ctrl : Controller μ κ) (eid qid : Nat) : Controller μ κ :=
  { ctrl with
    dev := { ctrl.dev with cqes := Function.update ctrl.dev.cqes qid none }
    adminQ := makeCqEntry ctrl.adminQ eid 0 }

/-- The submission queue `__nvmev_admin_create_sq` sets up. -/
def newSq (cqid qsize : Nat) (memory : Nat → κ) : SubmissionQueue κ where
  cqid := cqid
  queueSize := qsize + 1
  stat :=
    { nrDispatched := 0
      nrDispatch := 0
      nrInFlight := 0
      maxNrInFlight := 0
      totalIo := 0 }
  sq := memory

def nvmevAdminCreateSq (ctrl : Controller μ κ) (eid sqid cqid qsize : Nat)
    (memory : Nat → κ) : Controller μ κ :=
  { ctrl with
    dev := { ctrl.dev with
      sqes := Function.update ctrl.dev.sqes sqid (some (newSq cqid qsize memory))
      dbs := Function.update ctrl.dev.dbs sqid 0
      oldDbs := Function.update ctrl.dev.oldDbs sqid 0 }
    adminQ := makeCqEntry ctrl.adminQ eid 0 }

def nvmevAdminDeleteSq (ctrl : Controller μ κ) (eid qid : Nat) : Controller μ κ :=
  { ctrl with
    dev := { ctrl.dev with sqes := Function.update ctrl.dev.sqes qid none }
    adminQ := makeCqEntry ctrl.adminQ eid 0 }

/-- The `switch` of `__nvmev_proc_admin_req`, where the queue has a place in its array. -/
def handleAdminReq (ctrl : Controller μ κ) (eid : Nat) : Controller μ κ :=
  match (ctrl.adminQ.nvmeSq eid).request with
  | .createCq cqid qsize memory => nvmevAdminCreateCq ctrl eid cqid qsize memory
  | .deleteCq qid => nvmevAdminDeleteCq ctrl eid qid
  | .createSq sqid cqid qsize memory => nvmevAdminCreateSq ctrl eid sqid cqid qsize memory
  | .deleteSq qid => nvmevAdminDeleteSq ctrl eid qid
  | .abort => ctrl
  | .other ret result0 result1 =>
      { ctrl with adminQ := makeCqEntryResults ctrl.adminQ eid ret result0 result1 }

/-- `__nvmev_proc_admin_req`. -/
def procAdminReq (ctrl : Controller μ κ) (eid : Nat) : Except Fault (Controller μ κ) :=
  if (ctrl.adminQ.nvmeSq eid).request.Indexed then .ok (handleAdminReq ctrl eid)
  else .error (.outOfBounds .procAdminReq)

theorem handled_of_procAdminReq {ctrl ctrl' : Controller μ κ} {eid : Nat}
    (h : procAdminReq ctrl eid = .ok ctrl') : ctrl' = handleAdminReq ctrl eid := by
  rw [procAdminReq] at h
  split at h
  · cases h
    rfl
  · cases h

/-- A released completion no longer counts as in flight, if its submission
queue is still there. -/
def countReleased (sqes : Nat → Option (SubmissionQueue κ)) (sqid : Nat) :
    Nat → Option (SubmissionQueue κ) :=
  Function.update sqes sqid ((sqes sqid).map fun sq =>
    { sq with stat := { sq.stat with nrInFlight := sq.stat.nrInFlight - 1 } })

/-- The loop of `nvmev_proc_io_cq`. -/
def procIoCqLoop (cq : CompletionQueue) (newDb : Nat) :
    Nat → Nat → (Nat → Option (SubmissionQueue κ)) →
      Except Fault (Nat → Option (SubmissionQueue κ))
  | 0, _, _ => .error (.endlessLoop .procIoCq)
  | fuel + 1, i, sqes =>
      if i = newDb then
        .ok sqes
      else if cq.queueSize ≤ i then
        procIoCqLoop cq newDb fuel 0 sqes
      else
        procIoCqLoop cq newDb fuel (i + 1) (countReleased sqes (cq.cq i).sqId)

/-- `nvmev_proc_io_cq`: the head doorbell of the host ends up in `cq_tail`. Its
last branch, for a doorbell of `-1`, lies behind a loop that does not end then. -/
def procIoCq (vdev : NvmevDev μ κ) (cqid newDb oldDb : Nat) :
    Except Fault (NvmevDev μ κ) :=
  match vdev.cqes cqid with
  | none => .error (.nullPointer .procIoCq)
  | some cq => do
      let sqes ← procIoCqLoop cq newDb (2 * cq.queueSize + 2) oldDb vdev.sqes
      let cq := { cq with cqTail := (newDb : Int) - 1 }
      return { vdev with sqes := sqes, cqes := Function.update vdev.cqes cqid (some cq) }

/-- The part of `nvmev_proc_dbs` that looks at one completion queue. -/
def procCqDb (ctrl : Controller μ κ) (cqid : Nat) : Except Fault (Controller μ κ) :=
  match ctrl.dev.cqes cqid with
  | none => .ok ctrl
  | some _ =>
      let newDb := ctrl.cqDbs cqid
      let oldDb := ctrl.oldCqDbs cqid
      if newDb = oldDb then
        .ok ctrl
      else do
        let dev ← procIoCq ctrl.dev cqid newDb oldDb
        return { ctrl with
          dev := dev
          oldCqDbs := Function.update ctrl.oldCqDbs cqid newDb }

inductive CtrlEvent (κ : Type) where
  | io (event : Event κ)
  | adminWrite (eid : Nat) (cmd : AdminCommand κ)
  | admin (eid : Nat)
  | ringCq (cqid db : Nat)
  | procCqDb (cqid : Nat)

/-- The dispatcher turns to admin commands and completion queues between two
calls of `nvmev_proc_io_sq`. -/
def ctrlStep (be : Backend μ κ) (ctrl : Controller μ κ) :
    CtrlEvent κ → Except Fault (Controller μ κ)
  | .io event => do
      let dev ← step be ctrl.dev event
      return { ctrl with dev := dev }
  | .adminWrite eid cmd =>
      .ok { ctrl with adminQ := { ctrl.adminQ with
        nvmeSq := Function.update ctrl.adminQ.nvmeSq eid cmd } }
  | .admin eid => if ctrl.dev.pass.isSome then .ok ctrl else procAdminReq ctrl eid
  | .ringCq cqid db => .ok { ctrl with cqDbs := Function.update ctrl.cqDbs cqid db }
  | .procCqDb cqid => if ctrl.dev.pass.isSome then .ok ctrl else procCqDb ctrl cqid

def namedBackend : Backend Unit Nat where
  commandId := id
  cmdIoSize _ := 512
  perform _ _ moved := ((), moved)

def bareController : Controller Unit Nat where
  dev :=
    { nrIoWorkers := 1
      ioWorkers := fun _ => ioWorkerInit
      ioWorkerTurn := 0
      sqes := fun _ => none
      cqes := fun _ => none
      dbs := fun _ => 0
      oldDbs := fun _ => 0
      pass := none
      buffers := fun _ => bufferInit 0
      medium := ()
      accepted := []
      posted := [] }
  adminQ :=
    { phase := 1
      sqDepth := 32
      cqDepth := 32
      cqHead := 0
      nvmeSq := fun _ => ⟨0, .abort⟩
      nvmeCq := fun _ => ⟨0, 0, 0, 0, 0, 0⟩ }
  cqDbs _ := 0
  oldCqDbs _ := 0

/-- The host creates a completion queue of two slots and a submission queue of
four on top of it. -/
def createPair : List (CtrlEvent Nat) :=
  [.adminWrite 0 ⟨0, .createCq 1 1 fun _ => ⟨0, 0, 0, 0, 0, 0⟩⟩, .admin 0,
    .adminWrite 1 ⟨1, .createSq 1 1 3 id⟩, .admin 1]

end NvmeVirt.AdminQueues
