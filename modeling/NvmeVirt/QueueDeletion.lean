import NvmeVirt.AdminQueues
import NvmeVirt.IoStanding

namespace NvmeVirt.QueueDeletion

open AdminQueues
open FaultOutcome
open IoDispatch
open IoStanding
open IoSteps
open IoTable
open IoWorkers
open Relation
open WriteBuffer

variable {μ κ : Type}

/-- No step of a worker finds a queue missing that it uses. -/
def QueuesPresent (vdev : NvmevDev μ κ) : Prop :=
  (∀ id w, moves vdev id = some w → (vdev.sqes w.sqid).isSome) ∧
    ∀ id now w, completes vdev id now = some w → (vdev.cqes w.cqid).isSome

/-- No worker has a host command in its list whose data still has to be moved
from the submission queue `qid`. -/
def SqIdle (vdev : NvmevDev μ κ) (qid : Nat) : Prop :=
  ∀ id < vdev.nrIoWorkers, ∀ e ∈ busyList (vdev.ioWorkers id),
    let w := (vdev.ioWorkers id).workQueue e
    w.isInternal = false → w.isCopied = false → w.sqid ≠ qid

/-- No worker has a host command in its list that still has to be posted to the
completion queue `qid`. -/
def CqIdle (vdev : NvmevDev μ κ) (qid : Nat) : Prop :=
  ∀ id < vdev.nrIoWorkers, ∀ e ∈ busyList (vdev.ioWorkers id),
    let w := (vdev.ioWorkers id).workQueue e
    w.isInternal = false → w.isCompleted = false → w.cqid ≠ qid

instance (vdev : NvmevDev μ κ) (qid : Nat) : Decidable (SqIdle vdev qid) :=
  inferInstanceAs (Decidable (∀ id < vdev.nrIoWorkers, ∀ e ∈ busyList (vdev.ioWorkers id),
    ((vdev.ioWorkers id).workQueue e).isInternal = false →
      ((vdev.ioWorkers id).workQueue e).isCopied = false →
        ((vdev.ioWorkers id).workQueue e).sqid ≠ qid))

instance (vdev : NvmevDev μ κ) (qid : Nat) : Decidable (CqIdle vdev qid) :=
  inferInstanceAs (Decidable (∀ id < vdev.nrIoWorkers, ∀ e ∈ busyList (vdev.ioWorkers id),
    ((vdev.ioWorkers id).workQueue e).isInternal = false →
      ((vdev.ioWorkers id).workQueue e).isCompleted = false →
        ((vdev.ioWorkers id).workQueue e).cqid ≠ qid))

/-- Whether a command that deletes a queue finds nothing in flight that needs it. -/
def DeletesIdle (vdev : NvmevDev μ κ) : AdminRequest κ → Prop
  | .deleteSq qid => SqIdle vdev qid
  | .deleteCq qid => CqIdle vdev qid
  | _ => True

instance (vdev : NvmevDev μ κ) (request : AdminRequest κ) :
    Decidable (DeletesIdle vdev request) :=
  match request with
  | .deleteSq qid => inferInstanceAs (Decidable (SqIdle vdev qid))
  | .deleteCq qid => inferInstanceAs (Decidable (CqIdle vdev qid))
  | .createCq _ _ _ => .isTrue trivial
  | .createSq _ _ _ _ => .isTrue trivial
  | .abort => .isTrue trivial
  | .other _ _ _ => .isTrue trivial

/-- Admin commands create and delete queues with a place in the arrays, a queue is deleted only
when nothing in flight needs it, and a command is dispatched only to a completion queue
that is there. -/
def Orderly (ctrl : Controller μ κ) : CtrlEvent κ → Prop
  | .admin eid =>
      ctrl.dev.pass = none → (ctrl.adminQ.nvmeSq eid).request.Indexed ∧
        DeletesIdle ctrl.dev (ctrl.adminQ.nvmeSq eid).request
  | .io (.procIo _ (some _)) =>
      ∀ p, ctrl.dev.pass = some p → p.turn = none → p.seq < p.numProc →
        ∀ sq, ctrl.dev.sqes p.sqid = some sq → (ctrl.dev.cqes sq.cqid).isSome
  | _ => True

instance (ctrl : Controller μ κ) (event : CtrlEvent κ) : Decidable (Orderly ctrl event) :=
  match event with
  | .admin eid => inferInstanceAs (Decidable (ctrl.dev.pass = none →
      (ctrl.adminQ.nvmeSq eid).request.Indexed ∧
        DeletesIdle ctrl.dev (ctrl.adminQ.nvmeSq eid).request))
  | .io (.procIo _ (some _)) =>
      inferInstanceAs (Decidable (∀ p ∈ ctrl.dev.pass, p.turn = none → p.seq < p.numProc →
        ∀ sq ∈ ctrl.dev.sqes p.sqid, (ctrl.dev.cqes sq.cqid).isSome))
  | .io (.procIo _ none) => .isTrue trivial
  | .io (.hostWrite _ _ _) => .isTrue trivial
  | .io (.hostRing _ _) => .isTrue trivial
  | .io (.beginPass _) => .isTrue trivial
  | .io (.internal _ _ _ _) => .isTrue trivial
  | .io .reclaim => .isTrue trivial
  | .io (.worker _ _) => .isTrue trivial
  | .adminWrite _ _ => .isTrue trivial
  | .ringCq _ _ => .isTrue trivial
  | .procCqDb _ => .isTrue trivial

def Backed (vdev : NvmevDev μ κ) (w : IoWork) : Prop :=
  w.isInternal = false →
    (w.isCopied = false → (vdev.sqes w.sqid).isSome) ∧
      (w.isCompleted = false → (vdev.cqes w.cqid).isSome)

def AllBacked (vdev : NvmevDev μ κ) : Prop :=
  ∀ id < vdev.nrIoWorkers, Held (Backed vdev) (vdev.ioWorkers id)

section Steps

variable {be : Backend μ κ} {vdev vdev' : NvmevDev μ κ} {event : Event κ}

theorem AllBacked.present (h : AllBacked vdev) : QueuesPresent vdev := by
  constructor
  · intro id w hmoves
    rw [moves] at hmoves
    split at hmoves
    · next hcond =>
      cases hmoves
      obtain ⟨hlt, htransfers⟩ := hcond
      simp only [IoWorker.transfers, Bool.and_eq_true, bne_iff_ne, Bool.not_eq_true'] at htransfers
      obtain ⟨⟨⟨hcurr, hopen⟩, hcopied⟩, hhost⟩ := htransfers
      exact (((h id hlt).curr hcurr hopen).1 hhost).1 hcopied
    · cases hmoves
  · intro id now w hcompletes
    rw [completes] at hcompletes
    split at hcompletes
    · next hcond =>
      cases hcompletes
      obtain ⟨hlt, hcurr, hopen, hhost, -⟩ := hcond
      exact (((h id hlt).curr hcurr hopen).1 hhost).2 hopen
    · cases hcompletes

theorem step_presence (h : step be vdev event = .ok vdev') :
    (∀ q, (vdev'.sqes q).isSome = (vdev.sqes q).isSome) ∧
      ∀ q, (vdev'.cqes q).isSome = (vdev.cqes q).isSome := by
  constructor
  · intro q
    have hshape := congrArg Option.isSome (step_shape h q)
    rwa [Option.isSome_map, Option.isSome_map] at hshape
  · intro q
    cases step_result h with
    | post id now medium moved w cq lt perform effect present =>
        dsimp only
        by_cases heq : q = w.cqid
        · subst heq
          rw [Function.update_self, present]
          rfl
        · rw [Function.update_of_ne heq]
    | _ => rfl

theorem Backed.of_presence {w : IoWork} (h : Backed vdev w)
    (hsq : w.isInternal = false → w.isCopied = false → (vdev.sqes w.sqid).isSome →
      (vdev'.sqes w.sqid).isSome)
    (hcq : w.isInternal = false → w.isCompleted = false → (vdev.cqes w.cqid).isSome →
      (vdev'.cqes w.cqid).isSome) : Backed vdev' w := by
  intro hhost
  obtain ⟨hsqOld, hcqOld⟩ := h hhost
  exact ⟨fun hcopied => hsq hhost hcopied (hsqOld hcopied),
    fun hopen => hcq hhost hopen (hcqOld hopen)⟩

theorem AllBacked.io {ctrl : Controller μ κ} (h : AllBacked ctrl.dev)
    (horderly : Orderly ctrl (.io event)) (hstep : step be ctrl.dev event = .ok vdev') :
    AllBacked vdev' := by
  obtain ⟨hsqes, hcqes⟩ := step_presence hstep
  have hheld := step_held (P := Backed ctrl.dev) hstep h ?_ ?_ ?_ ?_
  · intro id hid
    refine (hheld.2 id hid).imp ?_
    intro w hw
    refine hw.of_presence ?_ ?_
    · intro _ _ hsome
      rwa [hsqes]
    · intro _ _ hsome
      rwa [hcqes]
  · rintro cmd ret p sq rfl hpass hturn hseq hsq w -
    refine ⟨fun _ => ?_, fun _ => horderly p hpass hturn hseq sq hsq⟩
    exact Option.isSome_iff_exists.2 ⟨sq, hsq⟩
  · intro sqid nsecsTarget writeBuffer buffsToRelease w hhost
    cases hhost
  · intro w moved hw _
    obtain ⟨status, result0, hcopied⟩ := copied_eq w moved
    rw [hcopied]
    intro hhost
    obtain ⟨-, hcq⟩ := hw hhost
    exact ⟨fun hcase => (by cases hcase), hcq⟩
  · intro w hw _ hhost
    exact ⟨(hw hhost).1, fun hcase => by cases hcase⟩

theorem AllBacked.admin {ctrl : Controller μ κ} {eid : Nat} (h : AllBacked ctrl.dev)
    (hpass : ctrl.dev.pass = none) (horderly : Orderly ctrl (.admin eid)) :
    AllBacked (handleAdminReq ctrl eid).dev := by
  have hidle := (horderly hpass).2
  rw [handleAdminReq]
  cases hrequest : (ctrl.adminQ.nvmeSq eid).request with
  | createCq cqid qsize memory =>
      intro id hid
      refine (h id hid).imp fun w hw => hw.of_presence (fun _ _ hsome => hsome) ?_
      intro _ _ hsome
      dsimp only [nvmevAdminCreateCq]
      by_cases heq : w.cqid = cqid
      · rw [heq, Function.update_self]
        rfl
      · rwa [Function.update_of_ne heq]
  | createSq sqid cqid qsize memory =>
      intro id hid
      refine (h id hid).imp fun w hw => hw.of_presence ?_ fun _ _ hsome => hsome
      intro _ _ hsome
      dsimp only [nvmevAdminCreateSq]
      by_cases heq : w.sqid = sqid
      · rw [heq, Function.update_self]
        rfl
      · rwa [Function.update_of_ne heq]
  | deleteCq qid =>
      rw [hrequest] at hidle
      intro id hid
      refine (h id hid).imp_busy fun e he hw => hw.of_presence (fun _ _ hsome => hsome) ?_
      intro hhost hopen hsome
      have hne : (body (ctrl.dev.ioWorkers id) e).cqid ≠ qid :=
        hidle id hid e he hhost hopen
      dsimp only [nvmevAdminDeleteCq]
      rwa [Function.update_of_ne hne]
  | deleteSq qid =>
      rw [hrequest] at hidle
      intro id hid
      refine (h id hid).imp_busy fun e he hw => hw.of_presence ?_ fun _ _ hsome => hsome
      intro hhost hcopied hsome
      have hne : (body (ctrl.dev.ioWorkers id) e).sqid ≠ qid :=
        hidle id hid e he hhost hcopied
      dsimp only [nvmevAdminDeleteSq]
      rwa [Function.update_of_ne hne]
  | abort => exact h
  | other ret result0 result1 => exact h

theorem procIoCqLoop_presence {cq : CompletionQueue} {newDb fuel i : Nat}
    {sqes sqes' : Nat → Option (SubmissionQueue κ)}
    (h : procIoCqLoop cq newDb fuel i sqes = .ok sqes') (q : Nat) :
    (sqes' q).isSome = (sqes q).isSome := by
  induction fuel generalizing i sqes with
  | zero => cases h
  | succ fuel ih =>
      rw [procIoCqLoop] at h
      split at h
      · cases h
        rfl
      · split at h
        · exact ih h
        · rw [ih h, countReleased]
          by_cases heq : q = (cq.cq i).sqId
          · subst heq
            rw [Function.update_self, Option.isSome_map]
          · rw [Function.update_of_ne heq]

theorem AllBacked.procCqDb {ctrl ctrl' : Controller μ κ} {cqid : Nat}
    (h : AllBacked ctrl.dev) (hrun : procCqDb ctrl cqid = .ok ctrl') :
    AllBacked ctrl'.dev := by
  rw [AdminQueues.procCqDb] at hrun
  cases hcq : ctrl.dev.cqes cqid with
  | none =>
      simp only [hcq] at hrun
      cases hrun
      exact h
  | some cq =>
      simp only [hcq] at hrun
      split at hrun
      · cases hrun
        exact h
      · obtain ⟨dev, hdev, hrun⟩ := exists_of_bind_eq_ok hrun
        cases hrun
        rw [procIoCq] at hdev
        simp only [hcq] at hdev
        obtain ⟨sqes, hloop, hdev⟩ := exists_of_bind_eq_ok hdev
        cases hdev
        intro id hid
        refine (h id hid).imp fun w hw => hw.of_presence ?_ ?_
        · intro _ _ hsome
          rwa [procIoCqLoop_presence hloop]
        · intro _ _ hsome
          dsimp only
          by_cases heq : w.cqid = cqid
          · rw [heq, Function.update_self]
            rfl
          · rwa [Function.update_of_ne heq]

theorem AllBacked.ctrlStep {ctrl ctrl' : Controller μ κ} {event : CtrlEvent κ}
    (h : AllBacked ctrl.dev) (horderly : Orderly ctrl event)
    (hstep : ctrlStep be ctrl event = .ok ctrl') : AllBacked ctrl'.dev := by
  cases event with
  | io event =>
      obtain ⟨dev, hdev, hstep⟩ := exists_of_bind_eq_ok hstep
      cases hstep
      exact h.io horderly hdev
  | adminWrite eid cmd =>
      cases hstep
      exact h
  | admin eid =>
      rw [AdminQueues.ctrlStep] at hstep
      split at hstep
      · cases hstep
        exact h
      · next hpass =>
        cases handled_of_procAdminReq hstep
        exact h.admin (by simpa using hpass) horderly
  | ringCq cqid db =>
      cases hstep
      exact h
  | procCqDb cqid =>
      rw [AdminQueues.ctrlStep] at hstep
      split at hstep
      · cases hstep
        exact h
      · exact h.procCqDb hstep

theorem QueuesPresent.worker_ok (h : QueuesPresent vdev) (be : Backend μ κ) (id now : Nat) :
    ∃ vdev', step be vdev (.worker id now) = .ok vdev' := by
  rw [step]
  by_cases hlt : id < vdev.nrIoWorkers
  swap
  · exact ⟨vdev, if_neg hlt⟩
  rw [if_pos hlt]
  obtain ⟨⟨medium, moved⟩, hperform⟩ : ∃ found, performIo be vdev id = .ok found := by
    simp only [performIo]
    by_cases htransfers : (vdev.ioWorkers id).transfers = true
    · obtain ⟨sq, hsq⟩ := Option.isSome_iff_exists.1
        (h.1 id _ (if_pos ⟨hlt, htransfers⟩))
      rw [if_pos htransfers]
      simp only [hsq]
      exact ⟨_, rfl⟩
    · rw [if_neg htransfers]
      exact ⟨_, rfl⟩
  rw [workerRound, hperform, ok_bind]
  rcases heffect : (ioWorkerStep (vdev.ioWorkers id) now moved).2 with
    _ | ⟨w | ⟨writeBuffer, buffsToRelease⟩⟩
  · simp only [heffect]
    exact ⟨_, rfl⟩
  · obtain ⟨w', hcompletes, -, hcqid⟩ := completes_of_effect hlt heffect
    obtain ⟨cq, hcq⟩ := Option.isSome_iff_exists.1 (h.2 id now w' hcompletes)
    rw [hcqid] at hcq
    simp only [heffect, fillCqResult, NvmevDev.setWorker, hcq]
    exact ⟨_, rfl⟩
  · simp only [heffect]
    exact ⟨_, rfl⟩

end Steps

/-- Without a deletion under commands in flight every worker finds the queues of
the entry it works on. -/
theorem workers_find_queues (be : Backend μ κ) {start ctrl : Controller μ κ}
    (hstart : Started start.dev)
    (hrun : ReflTransGen (fun ctrl ctrl' => ∃ event, Orderly ctrl event ∧
      ctrlStep be ctrl event = .ok ctrl') start ctrl) :
    QueuesPresent ctrl.dev ∧
      ∀ id now, ∃ vdev', step be ctrl.dev (.worker id now) = .ok vdev' := by
  have hbacked : AllBacked ctrl.dev := by
    induction hrun with
    | refl =>
        intro id _
        rw [hstart.workers]
        exact held_init _
    | tail _ hstep ih =>
        obtain ⟨event, horderly, hstep⟩ := hstep
        exact ih.ctrlStep horderly hstep
  exact ⟨hbacked.present, fun id now => hbacked.present.worker_ok be id now⟩

def slowCommand : List (CtrlEvent Nat) :=
  [.io (.hostRing 1 1), .io (.beginPass 1), .io (.procIo 0 (some ⟨0, 100, 0⟩)),
    .io .reclaim, .io .reclaim, .io (.procIo 0 none)]

/-- It deletes the submission queue at once, and the worker gets to the command. -/
def deleteInFlight : List (CtrlEvent Nat) :=
  createPair ++ slowCommand ++
    [.adminWrite 2 ⟨2, .deleteSq 1⟩, .admin 2, .io (.worker 0 10)]

theorem worker_finds_deleted_queue :
    ∃ ctrl, ReflTransGen (fun ctrl ctrl' => ∃ event,
        ctrlStep namedBackend ctrl event = .ok ctrl') bareController ctrl ∧
      ¬QueuesPresent ctrl.dev ∧
      step namedBackend ctrl.dev (.worker 0 10) = .error (.nullPointer .doPerformIo) := by
  let test (ctrl : Controller Unit Nat) : Bool :=
    ((moves ctrl.dev 0).map fun w => (ctrl.dev.sqes w.sqid).isSome) == some false
  obtain ⟨ctrl, hrun, htest⟩ :
      ∃ ctrl, deleteInFlight.foldlM (ctrlStep namedBackend) bareController = .ok ctrl ∧
        test ctrl = true := exists_of_returns (by decide +kernel)
  obtain ⟨w, hmoves, hmissing⟩ :
      ∃ w, moves ctrl.dev 0 = some w ∧ (ctrl.dev.sqes w.sqid).isSome = false := by
    simpa [test] using htest
  refine ⟨ctrl, reflTransGen_of_foldlM _ (fun event _ s s' hstep => ⟨event, hstep⟩) hrun,
    ?_, ?_⟩
  · intro hpresent
    have hsome := hpresent.1 0 w hmoves
    rw [hmissing] at hsome
    cases hsome
  · rw [moves] at hmoves
    split at hmoves
    · next hcond =>
      cases hmoves
      rw [Option.isSome_eq_false_iff, Option.isNone_iff_eq_none] at hmissing
      rw [step, if_pos hcond.1, workerRound]
      simp only [performIo, hcond.2, if_true, hmissing]
      rfl
    · cases hmoves

/-- It waits for the completion before it deletes the queues. -/
def deleteAfterCompletion : List (CtrlEvent Nat) :=
  createPair ++ slowCommand ++
    [.io (.worker 0 100), .io (.worker 0 100),
      .adminWrite 2 ⟨2, .deleteSq 1⟩, .admin 2, .adminWrite 3 ⟨3, .deleteCq 1⟩, .admin 3]

theorem workers_find_queues_deleted_after_completion :
    ∃ ctrl : Controller Unit Nat, ctrl.dev.posted.length = 1 ∧
      (ctrl.dev.sqes 1).isNone ∧ (ctrl.dev.cqes 1).isNone ∧ QueuesPresent ctrl.dev := by
  let careful (ctrl : Controller Unit Nat) (event : CtrlEvent Nat) :=
    if Orderly ctrl event then ctrlStep namedBackend ctrl event
    else .error (.bugOn .fillCqResult)
  let test (ctrl : Controller Unit Nat) : Bool :=
    ctrl.dev.posted.length == 1 && (ctrl.dev.sqes 1).isNone && (ctrl.dev.cqes 1).isNone
  obtain ⟨ctrl, hrun, htest⟩ :
      ∃ ctrl, deleteAfterCompletion.foldlM careful bareController = .ok ctrl ∧
        test ctrl = true := exists_of_returns (by decide +kernel)
  simp only [test, Bool.and_eq_true, beq_iff_eq] at htest
  have hstart : Started bareController.dev := ⟨fun _ => rfl, rfl, rfl, rfl⟩
  refine ⟨ctrl, htest.1.1, htest.1.2, htest.2, (workers_find_queues namedBackend hstart
    (reflTransGen_of_foldlM _ ?_ hrun)).1⟩
  intro event _ s s' hstep
  simp only [careful] at hstep
  split at hstep
  · next horderly => exact ⟨event, horderly, hstep⟩
  · cases hstep

end NvmeVirt.QueueDeletion
