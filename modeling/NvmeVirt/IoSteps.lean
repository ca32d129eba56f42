import NvmeVirt.IoDispatch

namespace NvmeVirt.IoSteps

open FaultOutcome
open IoDispatch
open IoTable
open IoWorkers
open WriteBuffer

variable {μ κ : Type} {be : Backend μ κ} {vdev vdev' : NvmevDev μ κ} {event : Event κ}

theorem getIoWorker_lt {sqid id : Nat} (h : getIoWorker vdev sqid = .ok id) :
    id < vdev.nrIoWorkers := by
  rw [getIoWorker] at h
  split at h
  · simp at h
  · next hpos =>
      split at h
      · cases h
        exact Nat.mod_lt _ (Nat.pos_of_ne_zero hpos)
      · cases h
        exact Nat.mod_lt _ (Nat.pos_of_ne_zero hpos)

theorem enqueueRequest_ok {sqid : Nat} {r : Request}
    (h : enqueueRequest vdev sqid r = .ok vdev') :
    ∃ id worker turn, getIoWorker vdev sqid = .ok id ∧
      enqueue r (vdev.ioWorkers id) = .ok worker ∧
      vdev' = { vdev with
        ioWorkerTurn := turn
        ioWorkers := Function.update vdev.ioWorkers id worker } := by
  obtain ⟨id, hid, h⟩ := exists_of_bind_eq_ok h
  obtain ⟨worker, hworker, h⟩ := exists_of_bind_eq_ok h
  cases h
  by_cases hslot : HasSlot (vdev.ioWorkers id)
  · refine ⟨id, worker, if id + 1 = vdev.nrIoWorkers then 0 else id + 1, hid, hworker, ?_⟩
    rw [if_pos hslot]
    rfl
  · refine ⟨id, worker, vdev.ioWorkerTurn, hid, hworker, ?_⟩
    rw [if_neg hslot]
    rfl

/-- The queue with the slot as `proc_io_cmd` leaves it. -/
def writeSlot (sq : SubmissionQueue κ) (slot : Nat) (cmd : κ) : SubmissionQueue κ :=
  { sq with sq := Function.update sq.sq slot cmd }

/-- The request `__nvmev_proc_io` queues for the entry the pass stands on. -/
def hostRequest (be : Backend μ κ) (vdev : NvmevDev μ κ) (p : Pass)
    (sq : SubmissionQueue κ) (cmd : κ) (ret : NvmevResult) : Request :=
  .host p.sqid sq.cqid p.sqEntry (be.commandId cmd) ret vdev.accepted.length

def countDispatched (be : Backend μ κ) (sq : SubmissionQueue κ) (slot : Nat) :
    SubmissionQueue κ :=
  { sq with stat :=
    { sq.stat with
      nrDispatched := sq.stat.nrDispatched + 1
      nrInFlight := sq.stat.nrInFlight + 1
      totalIo := sq.stat.totalIo + be.cmdIoSize (sq.sq slot) } }

/-- The completion queue after `__fill_cq_result`. -/
def postEntry (cq : CompletionQueue) (w : IoWork) : CompletionQueue :=
  { cq with
    cq := Function.update cq.cq cq.cqHead
      { commandId := w.commandId % 2 ^ 16
        sqId := w.sqid % 2 ^ 16
        sqHead := w.sqEntry % 2 ^ 16
        status := (cq.phase ||| w.status * 2) % 2 ^ 16
        result0 := w.result0
        result1 := w.result1 }
    cqHead := if cq.cqHead + 1 = cq.queueSize then 0 else cq.cqHead + 1
    phase :=
      if cq.cqHead + 1 = cq.queueSize then (if cq.phase = 0 then 1 else 0) else cq.phase
    interruptReady := true }

inductive StepResult (be : Backend μ κ) (vdev : NvmevDev μ κ) :
    Event κ → NvmevDev μ κ → Prop where
  | idle (event : Event κ) (other : ∀ id now, event = .worker id now → vdev.nrIoWorkers ≤ id)
      (host : ∀ sqid db, event ≠ .hostRing sqid db)
      (dispatch : ∀ cmd ret p, event = .procIo cmd ret → vdev.pass = some p →
        p.turn ≠ none) : StepResult be vdev event vdev
  | hostWrite (sqid slot : Nat) (cmd : κ) :
      StepResult be vdev (.hostWrite sqid slot cmd) { vdev with
        sqes := Function.update vdev.sqes sqid
          ((vdev.sqes sqid).map fun sq => writeSlot sq slot cmd) }
  | hostRing (sqid db : Nat) :
      StepResult be vdev (.hostRing sqid db)
        { vdev with dbs := Function.update vdev.dbs sqid db }
  | beginPass (sqid : Nat) (sq : SubmissionQueue κ) (pass : vdev.pass = none)
      (present : vdev.sqes sqid = some sq) (rung : vdev.dbs sqid ≠ vdev.oldDbs sqid) :
      StepResult be vdev (.beginPass sqid) { vdev with
        pass := some
          { sqid := sqid
            oldDb := vdev.oldDbs sqid
            numProc :=
              if vdev.dbs sqid < vdev.oldDbs sqid then
                vdev.dbs sqid + sq.queueSize - vdev.oldDbs sqid
              else vdev.dbs sqid - vdev.oldDbs sqid
            seq := 0
            sqEntry := vdev.oldDbs sqid
            turn := none } }
  | finish (cmd : κ) (ret : Option NvmevResult) (p : Pass) (sq : SubmissionQueue κ)
      (pass : vdev.pass = some p) (present : vdev.sqes p.sqid = some sq)
      (turn : p.turn = none) (seq : p.numProc ≤ p.seq) :
      StepResult be vdev (.procIo cmd ret) (endPass vdev p sq)
  | refuse (cmd : κ) (p : Pass) (sq : SubmissionQueue κ) (pass : vdev.pass = some p)
      (present : vdev.sqes p.sqid = some sq) (turn : p.turn = none)
      (seq : p.seq < p.numProc) :
      StepResult be vdev (.procIo cmd none) (endPass
        { vdev with sqes :=
          Function.update vdev.sqes p.sqid (some (writeSlot sq p.sqEntry cmd)) }
        p (writeSlot sq p.sqEntry cmd))
  | accept (cmd : κ) (ret : NvmevResult) (p : Pass) (sq : SubmissionQueue κ)
      (id turns : Nat) (worker : IoWorker) (pass : vdev.pass = some p)
      (present : vdev.sqes p.sqid = some sq) (turn : p.turn = none)
      (seq : p.seq < p.numProc) (hid : getIoWorker vdev p.sqid = .ok id)
      (run : enqueue (hostRequest be vdev p sq cmd ret) (vdev.ioWorkers id) = .ok worker) :
      StepResult be vdev (.procIo cmd (some ret)) { vdev with
        sqes := Function.update vdev.sqes p.sqid (some (writeSlot sq p.sqEntry cmd))
        ioWorkerTurn := turns
        ioWorkers := Function.update vdev.ioWorkers id worker
        pass := some { p with turn := some 0 }
        accepted := vdev.accepted ++ [⟨p.sqid, p.sqEntry, be.commandId cmd⟩] }
  | schedule (sqid nsecsTarget writeBuffer buffsToRelease id turns : Nat)
      (worker : IoWorker) (hid : getIoWorker vdev sqid = .ok id)
      (run : enqueue (.internal sqid nsecsTarget writeBuffer buffsToRelease)
        (vdev.ioWorkers id) = .ok worker) :
      StepResult be vdev (.internal sqid nsecsTarget writeBuffer buffsToRelease)
        { vdev with
          ioWorkerTurn := turns
          ioWorkers := Function.update vdev.ioWorkers id worker }
  | reclaim (p : Pass) (id : Nat) (worker : IoWorker) (pass : vdev.pass = some p)
      (turn : p.turn = some id) (lt : id < vdev.nrIoWorkers)
      (run : reclaimCompletedReqs (vdev.ioWorkers id) = .ok worker) :
      StepResult be vdev .reclaim { vdev with
        ioWorkers := Function.update vdev.ioWorkers id worker
        pass := some { p with turn := some (id + 1) } }
  | advance (p : Pass) (id : Nat) (sq : SubmissionQueue κ) (pass : vdev.pass = some p)
      (turn : p.turn = some id) (present : vdev.sqes p.sqid = some sq) :
      StepResult be vdev .reclaim { vdev with
        sqes := Function.update vdev.sqes p.sqid (some (countDispatched be sq p.sqEntry))
        pass := some
          { p with
            seq := p.seq + 1
            sqEntry := if p.sqEntry + 1 = sq.queueSize then 0 else p.sqEntry + 1
            turn := none } }
  | work (id now : Nat) (medium : μ) (moved : Nat × Nat) (lt : id < vdev.nrIoWorkers)
      (perform : performIo be vdev id = .ok (medium, moved))
      (effect : (ioWorkerStep (vdev.ioWorkers id) now moved).2 = none) :
      StepResult be vdev (.worker id now) { vdev with
        ioWorkers := Function.update vdev.ioWorkers id
          (ioWorkerStep (vdev.ioWorkers id) now moved).1
        medium := medium }
  | post (id now : Nat) (medium : μ) (moved : Nat × Nat) (w : IoWork) (cq : CompletionQueue)
      (lt : id < vdev.nrIoWorkers) (perform : performIo be vdev id = .ok (medium, moved))
      (effect : (ioWorkerStep (vdev.ioWorkers id) now moved).2 = some (.fillCqResult w))
      (present : vdev.cqes w.cqid = some cq) :
      StepResult be vdev (.worker id now) { vdev with
        ioWorkers := Function.update vdev.ioWorkers id
          (ioWorkerStep (vdev.ioWorkers id) now moved).1
        medium := medium
        cqes := Function.update vdev.cqes w.cqid (some (postEntry cq w))
        posted := vdev.posted ++ [w] }
  | release (id now : Nat) (medium : μ) (moved : Nat × Nat)
      (writeBuffer buffsToRelease : Nat) (lt : id < vdev.nrIoWorkers)
      (perform : performIo be vdev id = .ok (medium, moved))
      (effect : (ioWorkerStep (vdev.ioWorkers id) now moved).2 =
        some (.bufferRelease writeBuffer buffsToRelease)) :
      StepResult be vdev (.worker id now) { vdev with
        ioWorkers := Function.update vdev.ioWorkers id
          (ioWorkerStep (vdev.ioWorkers id) now moved).1
        medium := medium
        buffers := Function.update vdev.buffers writeBuffer
          (bufferRelease (vdev.buffers writeBuffer) buffsToRelease) }

theorem beginPass_result (sqid : Nat) :
    StepResult be vdev (.beginPass sqid) (beginPass vdev sqid) := by
  have hidle : StepResult be vdev (.beginPass sqid) vdev :=
    .idle _ (by simp) (by simp) (by simp)
  cases hpass : vdev.pass with
  | some p =>
      simp only [beginPass, hpass]
      exact hidle
  | none =>
      cases hsq : vdev.sqes sqid with
      | none =>
          simp only [beginPass, hpass, hsq]
          exact hidle
      | some sq =>
          simp only [beginPass, hpass, hsq]
          by_cases hrung : vdev.dbs sqid = vdev.oldDbs sqid
          · rw [if_pos hrung]
            exact hidle
          · rw [if_neg hrung]
            exact .beginPass sqid sq hpass hsq hrung

theorem procIo_result {cmd : κ} {ret : Option NvmevResult}
    (h : procIo be vdev cmd ret = .ok vdev') :
    StepResult be vdev (.procIo cmd ret) vdev' := by
  rw [procIo] at h
  cases hpass : vdev.pass with
  | none =>
      simp only [hpass] at h
      cases h
      exact .idle _ (by simp) (by simp) (by simp [hpass])
  | some p =>
      simp only [hpass] at h
      cases hsq : vdev.sqes p.sqid with
      | none => simp [hsq] at h
      | some sq =>
          simp only [hsq] at h
          cases hturn : p.turn with
          | some turn =>
              simp only [hturn, Option.isSome_some, if_true] at h
              cases h
              exact .idle _ (by simp) (by simp) (by simp [hpass, hturn])
          | none =>
              simp only [hturn, Option.isSome_none, Bool.false_eq_true, if_false] at h
              split at h
              · next hseq =>
                cases h
                exact .finish cmd ret p sq hpass hsq hturn hseq
              · next hseq =>
                cases ret with
                | none =>
                    cases h
                    exact .refuse cmd p sq hpass hsq hturn (not_le.1 hseq)
                | some ret =>
                    obtain ⟨queued, hqueue, h⟩ := exists_of_bind_eq_ok h
                    obtain ⟨id, worker, turns, hid, hrun, rfl⟩ := enqueueRequest_ok hqueue
                    cases h
                    simp only [Function.update_self] at hrun
                    exact .accept cmd ret p sq id turns worker hpass hsq hturn
                      (not_le.1 hseq) hid hrun

theorem reclaimRound_result (h : reclaimRound be vdev = .ok vdev') :
    StepResult be vdev .reclaim vdev' := by
  have hidle : StepResult be vdev .reclaim vdev := .idle _ (by simp) (by simp) (by simp)
  rw [reclaimRound] at h
  cases hpass : vdev.pass with
  | none =>
      simp only [hpass] at h
      cases h
      exact hidle
  | some p =>
      simp only [hpass] at h
      cases hturn : p.turn with
      | none =>
          simp only [hturn] at h
          cases h
          exact hidle
      | some turn =>
          simp only [hturn] at h
          split at h
          · next hlt =>
            obtain ⟨worker, hrun, h⟩ := exists_of_bind_eq_ok h
            cases h
            exact .reclaim p turn worker hpass hturn hlt hrun
          · cases hsq : vdev.sqes p.sqid with
            | none => simp [hsq] at h
            | some sq =>
                simp only [hsq] at h
                cases h
                exact .advance p turn sq hpass hturn hsq

theorem workerRound_result {id now : Nat} (hlt : id < vdev.nrIoWorkers)
    (h : workerRound be vdev id now = .ok vdev') :
    StepResult be vdev (.worker id now) vdev' := by
  obtain ⟨⟨medium, moved⟩, hperform, h⟩ := exists_of_bind_eq_ok h
  rcases heffect : (ioWorkerStep (vdev.ioWorkers id) now moved).2 with
    _ | ⟨w | ⟨writeBuffer, buffsToRelease⟩⟩
  · simp only [heffect] at h
    cases h
    exact .work id now medium moved hlt hperform heffect
  · simp only [heffect, fillCqResult] at h
    cases hcq : vdev.cqes w.cqid with
    | none => simp [NvmevDev.setWorker, hcq] at h
    | some cq =>
        simp only [NvmevDev.setWorker, hcq] at h
        cases h
        exact .post id now medium moved w cq hlt hperform heffect hcq
  · simp only [heffect] at h
    cases h
    exact .release id now medium moved writeBuffer buffsToRelease hlt hperform heffect

theorem step_result (h : step be vdev event = .ok vdev') : StepResult be vdev event vdev' := by
  cases event with
  | hostWrite sqid slot cmd =>
      cases h
      exact .hostWrite sqid slot cmd
  | hostRing sqid db =>
      cases h
      exact .hostRing sqid db
  | beginPass sqid =>
      cases h
      exact beginPass_result sqid
  | procIo cmd ret => exact procIo_result h
  | internal sqid nsecsTarget writeBuffer buffsToRelease =>
      obtain ⟨id, worker, turns, hid, hrun, rfl⟩ := enqueueRequest_ok h
      exact .schedule sqid nsecsTarget writeBuffer buffsToRelease id turns worker hid hrun
  | reclaim => exact reclaimRound_result h
  | worker id now =>
      rw [step] at h
      split at h
      · next hlt => exact workerRound_result hlt h
      · next hge =>
        cases h
        refine .idle _ ?_ (by simp) (by simp)
        rintro id' now' heq
        cases heq
        exact not_lt.1 hge

theorem step_accepts {cmd : κ} {ret : NvmevResult} {p : Pass} {sq : SubmissionQueue κ}
    (h : step be vdev (.procIo cmd (some ret)) = .ok vdev') (hpass : vdev.pass = some p)
    (hturn : p.turn = none) (hseq : p.seq < p.numProc) (hsq : vdev.sqes p.sqid = some sq) :
    vdev'.accepted = vdev.accepted ++ [⟨p.sqid, p.sqEntry, be.commandId cmd⟩] ∧
      vdev'.sqes p.sqid = some (writeSlot sq p.sqEntry cmd) := by
  cases step_result h with
  | idle _ _ _ dispatch => exact absurd hturn (dispatch cmd _ p rfl hpass)
  | finish _ _ p' sq' pass present turn seq =>
      rw [hpass] at pass
      cases pass
      omega
  | accept _ _ p' sq' id turns worker pass present turn seq hid run =>
      rw [hpass] at pass
      cases pass
      rw [hsq] at present
      cases present
      exact ⟨rfl, Function.update_self _ _ _⟩

def shape (sq : SubmissionQueue κ) : Nat × Nat := (sq.cqid, sq.queueSize)

/-- The I/O side neither creates nor deletes nor resizes a submission queue. -/
theorem step_shape (h : step be vdev event = .ok vdev') (q : Nat) :
    (vdev'.sqes q).map shape = (vdev.sqes q).map shape := by
  have hupdate : ∀ (sqes : Nat → Option (SubmissionQueue κ)) (q' : Nat)
      (sq sq' : SubmissionQueue κ), sqes q' = some sq → shape sq' = shape sq →
      (Function.update sqes q' (some sq') q).map shape = (sqes q).map shape := by
    intro sqes q' sq sq' hsq hshape
    by_cases heq : q = q'
    · subst heq
      rw [Function.update_self, hsq, Option.map_some, Option.map_some, hshape]
    · rw [Function.update_of_ne heq]
  cases step_result h with
  | hostWrite sqid slot cmd =>
      dsimp only
      by_cases heq : q = sqid
      · subst heq
        rw [Function.update_self, Option.map_map]
        rfl
      · rw [Function.update_of_ne heq]
  | finish cmd ret p sq pass present turn seq => exact hupdate _ _ _ _ present rfl
  | refuse cmd p sq pass present turn seq =>
      have hslot := hupdate vdev.sqes p.sqid sq (writeSlot sq p.sqEntry cmd) present rfl
      refine Eq.trans ?_ hslot
      exact hupdate _ p.sqid _ _ (Function.update_self _ _ _) rfl
  | accept cmd ret p sq id turns worker pass present turn seq hid run =>
      exact hupdate _ _ _ _ present rfl
  | advance p id sq pass turn present => exact hupdate _ _ _ _ present rfl
  | _ => rfl

theorem step_queueSize (h : step be vdev event = .ok vdev') {q : Nat}
    {sq' : SubmissionQueue κ} (hsq : vdev'.sqes q = some sq') :
    ∃ sq, vdev.sqes q = some sq ∧ sq.queueSize = sq'.queueSize := by
  have hshape := step_shape h q
  rw [hsq] at hshape
  cases hold : vdev.sqes q with
  | none => simp [hold] at hshape
  | some sq =>
      rw [hold, Option.map_some, Option.map_some, Option.some.injEq] at hshape
      exact ⟨sq, rfl, (congrArg Prod.snd hshape).symm⟩

/-- The entry whose data the next step of worker `id` moves. -/
def moves (vdev : NvmevDev μ κ) (id : Nat) : Option IoWork :=
  let worker := vdev.ioWorkers id
  if id < vdev.nrIoWorkers ∧ worker.transfers = true then
    some (worker.workQueue worker.curr)
  else
    none

/-- The host entry that a step of worker `id` would complete. -/
def completes (vdev : NvmevDev μ κ) (id now : Nat) : Option IoWork :=
  let worker := vdev.ioWorkers id
  let w := worker.workQueue worker.curr
  if id < vdev.nrIoWorkers ∧ worker.curr ≠ noEntry ∧ w.isCompleted = false ∧
      w.isInternal = false ∧ w.nsecsTarget ≤ now then
    some w
  else
    none

section Effects

variable {id now : Nat} {moved : Nat × Nat}

theorem copied_cqid (w : IoWork) (moved : Nat × Nat) :
    (copied w moved).cqid = w.cqid ∧ (copied w moved).isInternal = w.isInternal ∧
      (copied w moved).nsecsTarget = w.nsecsTarget := by
  obtain ⟨status, result0, hcopied⟩ := copied_eq w moved
  rw [hcopied]
  exact ⟨rfl, rfl, rfl⟩

theorem completes_of_effect {w : IoWork} (hlt : id < vdev.nrIoWorkers)
    (heffect : (ioWorkerStep (vdev.ioWorkers id) now moved).2 = some (.fillCqResult w)) :
    ∃ w', completes vdev id now = some w' ∧ w = copied w' moved ∧ w'.cqid = w.cqid := by
  have hcases := ioWorkerStep_cases (vdev.ioWorkers id) now moved
  generalize ioWorkerStep (vdev.ioWorkers id) now moved = result at heffect hcases
  cases hcases with
  | restart => cases heffect
  | skip => cases heffect
  | wait => cases heffect
  | complete w' hcurr hopen hw hdue =>
      obtain ⟨hcqid, hinternal, htarget⟩ :=
        copied_cqid ((vdev.ioWorkers id).workQueue (vdev.ioWorkers id).curr) moved
      rw [← hw] at hcqid hinternal htarget
      simp only [IoWork.finish, Option.some.injEq] at heffect
      split at heffect
      · cases heffect
      · next hhost =>
        cases heffect
        refine ⟨_, if_pos ⟨hlt, hcurr, hopen, ?_, htarget ▸ hdue⟩, hw, hcqid.symm⟩
        rw [← hinternal]
        simpa using hhost

theorem completes_eq_none (moved : Nat × Nat)
    (heffect : ∀ w, (ioWorkerStep (vdev.ioWorkers id) now moved).2 ≠ some (.fillCqResult w)) :
    completes vdev id now = none := by
  have hcases := ioWorkerStep_cases (vdev.ioWorkers id) now moved
  generalize ioWorkerStep (vdev.ioWorkers id) now moved = result at heffect hcases
  refine if_neg ?_
  rintro ⟨-, hsome, hnot, hhost, hdue⟩
  cases hcases with
  | restart hcurr => exact hsome hcurr
  | skip hcurr hdone =>
      rw [hdone] at hnot
      cases hnot
  | wait w hcurr hopen hw hlate =>
      obtain ⟨-, -, htarget⟩ :=
        copied_cqid ((vdev.ioWorkers id).workQueue (vdev.ioWorkers id).curr) moved
      rw [hw, htarget] at hlate
      omega
  | complete w hcurr hopen hw _ =>
      obtain ⟨-, hinternal, -⟩ :=
        copied_cqid ((vdev.ioWorkers id).workQueue (vdev.ioWorkers id).curr) moved
      refine heffect w ?_
      rw [IoWork.finish, hw, hinternal, hhost]
      rfl

end Effects

end NvmeVirt.IoSteps
