import Mathlib.Data.List.TakeWhile
import Mathlib.Logic.Relation
import NvmeVirt.IoSteps

namespace NvmeVirt.IoDelivery

open FaultOutcome
open IoDispatch
open IoSteps
open IoTable
open IoWorkers
open Relation
open WriteBuffer

variable {μ κ : Type} {be : Backend μ κ} {vdev vdev' : NvmevDev μ κ} {event : Event κ}

/-- The table entry `w` serves the `t`-th accepted submission-queue entry. -/
structure Serves (w : IoWork) (t : Nat) (a : Accepted) : Prop where
  host : w.isInternal = false
  ticket : w.ticket = t
  sqid : w.sqid = a.sqid
  sqEntry : w.sqEntry = a.sqEntry
  commandId : w.commandId = a.commandId

theorem serves_congr {w w' : IoWork} {t : Nat} {a : Accepted}
    (hhost : w'.isInternal = w.isInternal) (hticket : w'.ticket = w.ticket)
    (hsqid : w'.sqid = w.sqid) (hsqEntry : w'.sqEntry = w.sqEntry)
    (hcommandId : w'.commandId = w.commandId) : Serves w' t a ↔ Serves w t a := by
  constructor
  · rintro ⟨h1, h2, h3, h4, h5⟩
    rw [hhost] at h1
    rw [hticket] at h2
    rw [hsqid] at h3
    rw [hsqEntry] at h4
    rw [hcommandId] at h5
    exact ⟨h1, h2, h3, h4, h5⟩
  · rintro ⟨h1, h2, h3, h4, h5⟩
    exact ⟨hhost.trans h1, hticket.trans h2, hsqid.trans h3, hsqEntry.trans h4,
      hcommandId.trans h5⟩

def Holds (worker : IoWorker) (t : Nat) (a : Accepted) : Prop :=
  ∃ e ∈ busyList worker, Serves (worker.workQueue e) t a

/-- Every entry the dispatcher stepped over is on the busy list of a worker or
has had its completion posted. -/
def NoneLost (vdev : NvmevDev μ κ) : Prop :=
  ∀ t a, vdev.accepted[t]? = some a →
    (∃ id < vdev.nrIoWorkers, Holds (vdev.ioWorkers id) t a) ∨
    ∃ w ∈ vdev.posted, Serves w t a

/-- The device-level effect of a step on tables and histories. -/
inductive Moved (event : Event κ) (vdev vdev' : NvmevDev μ κ) : Prop where
  | idle (workers : vdev'.ioWorkers = vdev.ioWorkers)
      (accepted : vdev'.accepted = vdev.accepted) (posted : vdev'.posted = vdev.posted)
  | hosted (p : Pass) (id cqid commandId : Nat) (cmd : κ) (ret : NvmevResult)
      (worker : IoWorker) (event_eq : event = .procIo cmd (some ret))
      (pass : vdev.pass = some p) (turn : p.turn = none) (seq : p.seq < p.numProc)
      (hid : getIoWorker vdev p.sqid = .ok id)
      (run : enqueue (.host p.sqid cqid p.sqEntry commandId ret vdev.accepted.length)
        (vdev.ioWorkers id) = .ok worker)
      (workers : vdev'.ioWorkers = Function.update vdev.ioWorkers id worker)
      (accepted : vdev'.accepted = vdev.accepted ++ [⟨p.sqid, p.sqEntry, commandId⟩])
      (posted : vdev'.posted = vdev.posted)
  | scheduled (id sqid nsecsTarget writeBuffer buffsToRelease : Nat) (worker : IoWorker)
      (run : enqueue (.internal sqid nsecsTarget writeBuffer buffsToRelease)
        (vdev.ioWorkers id) = .ok worker)
      (workers : vdev'.ioWorkers = Function.update vdev.ioWorkers id worker)
      (accepted : vdev'.accepted = vdev.accepted) (posted : vdev'.posted = vdev.posted)
  | reclaimed (id : Nat) (worker : IoWorker)
      (run : reclaimCompletedReqs (vdev.ioWorkers id) = .ok worker)
      (workers : vdev'.ioWorkers = Function.update vdev.ioWorkers id worker)
      (accepted : vdev'.accepted = vdev.accepted) (posted : vdev'.posted = vdev.posted)
  | worked (id now : Nat) (moved : Nat × Nat)
      (workers : vdev'.ioWorkers = Function.update vdev.ioWorkers id
        (ioWorkerStep (vdev.ioWorkers id) now moved).1)
      (accepted : vdev'.accepted = vdev.accepted)
      (posted : ∀ w, w ∈ vdev'.posted ↔ w ∈ vdev.posted ∨
        (ioWorkerStep (vdev.ioWorkers id) now moved).2 = some (.fillCqResult w))

theorem enqueueRequest_eq {sqid : Nat} {r : Request}
    (h : enqueueRequest vdev sqid r = .ok vdev') :
    ∃ id worker, getIoWorker vdev sqid = .ok id ∧
      enqueue r (vdev.ioWorkers id) = .ok worker ∧
      vdev'.ioWorkers = Function.update vdev.ioWorkers id worker ∧
      vdev'.nrIoWorkers = vdev.nrIoWorkers ∧ vdev'.sqes = vdev.sqes ∧
      vdev'.dbs = vdev.dbs ∧ vdev'.oldDbs = vdev.oldDbs ∧
      vdev'.accepted = vdev.accepted ∧ vdev'.posted = vdev.posted := by
  obtain ⟨id, hid, h⟩ := exists_of_bind_eq_ok h
  obtain ⟨worker, hworker, h⟩ := exists_of_bind_eq_ok h
  cases h
  refine ⟨id, worker, hid, hworker, ?_⟩
  split <;> exact ⟨rfl, rfl, rfl, rfl, rfl, rfl, rfl⟩

theorem step_moved (h : step be vdev event = .ok vdev') :
    Moved event vdev vdev' ∧ vdev'.nrIoWorkers = vdev.nrIoWorkers := by
  cases step_result h with
  | idle _ _ _ => exact ⟨.idle rfl rfl rfl, rfl⟩
  | hostWrite sqid slot cmd => exact ⟨.idle rfl rfl rfl, rfl⟩
  | hostRing sqid db => exact ⟨.idle rfl rfl rfl, rfl⟩
  | beginPass sqid sq pass present rung => exact ⟨.idle rfl rfl rfl, rfl⟩
  | finish cmd ret p sq pass present turn seq => exact ⟨.idle rfl rfl rfl, rfl⟩
  | refuse cmd p sq pass present turn seq => exact ⟨.idle rfl rfl rfl, rfl⟩
  | accept cmd ret p sq id turns worker pass present turn seq hid run =>
      exact ⟨.hosted p id sq.cqid (be.commandId cmd) cmd ret worker rfl pass turn seq hid run
        rfl rfl rfl, rfl⟩
  | schedule sqid nsecsTarget writeBuffer buffsToRelease id turns worker hid run =>
      exact ⟨.scheduled id _ _ _ _ worker run rfl rfl rfl, rfl⟩
  | reclaim p id worker pass turn lt run => exact ⟨.reclaimed id worker run rfl rfl rfl, rfl⟩
  | advance p id sq pass turn present => exact ⟨.idle rfl rfl rfl, rfl⟩
  | work id now medium moved lt perform effect =>
      exact ⟨.worked id now moved rfl rfl (by simp [effect]), rfl⟩
  | post id now medium moved w cq lt perform effect present =>
      exact ⟨.worked id now moved rfl rfl (by simp [effect, eq_comm]), rfl⟩
  | release id now medium moved writeBuffer buffsToRelease lt perform effect =>
      exact ⟨.worked id now moved rfl rfl (by simp [effect]), rfl⟩

section Workers

variable {worker worker' : IoWorker} {free busy : List Nat} {t : Nat} {a : Accepted}

theorem serves_body (e : Nat) :
    Serves (body worker e) t a ↔ Serves (worker.workQueue e) t a :=
  serves_congr rfl rfl rfl rfl rfl

theorem holds_iff (h : Chains worker free busy) :
    Holds worker t a ↔ ∃ e ∈ busy, Serves (body worker e) t a := by
  rw [Holds, h.busyList_eq]
  simp only [serves_body]

theorem enqueued_holds {r : Request} {entry : Nat} {rest before after : List Nat}
    (hdone : Enqueued r worker worker' free busy entry rest before after)
    (h : Chains worker free busy) (hold : Holds worker t a) : Holds worker' t a := by
  obtain ⟨e, he, hserves⟩ := (holds_iff h).1 hold
  have hne : e ≠ entry := by
    rintro rfl
    have hnodup := List.nodup_append.1 h.nodup
    exact hnodup.2.2 e (by rw [hdone.free_eq]; simp) e he rfl
  rw [hdone.busy_eq, List.mem_append] at he
  refine (holds_iff hdone.chains).2 ⟨e, ?_, ?_⟩
  · simp only [List.mem_append, List.mem_cons]
    tauto
  · rw [hdone.body, Function.update_of_ne hne]
    exact hserves

theorem enqueued_of_run {r : Request} (h : Chains worker free busy)
    (hslot : HasSlot worker) (hrun : enqueue r worker = .ok worker') :
    ∃ entry rest before after,
      Enqueued r worker worker' free busy entry rest before after := by
  obtain ⟨worker'', entry, rest, before, after, hrun', hdone⟩ := enqueue_spec h r hslot
  rw [hrun] at hrun'
  cases hrun'
  exact ⟨entry, rest, before, after, hdone⟩

theorem enqueue_holds {r : Request} (h : Chains worker free busy)
    (hrun : enqueue r worker = .ok worker') (hold : Holds worker t a) :
    Holds worker' t a := by
  by_cases hslot : HasSlot worker
  · obtain ⟨entry, rest, before, after, hdone⟩ := enqueued_of_run h hslot hrun
    exact enqueued_holds hdone h hold
  · rw [enqueue_refused r hslot] at hrun
    cases hrun
    exact hold

theorem enqueue_holds_new {sqid cqid sqEntry commandId : Nat} {ret : NvmevResult}
    (h : Chains worker free busy) (hslot : HasSlot worker)
    (hrun : enqueue (.host sqid cqid sqEntry commandId ret t) worker = .ok worker') :
    Holds worker' t ⟨sqid, sqEntry, commandId⟩ := by
  obtain ⟨entry, rest, before, after, hdone⟩ := enqueued_of_run h hslot hrun
  refine (holds_iff hdone.chains).2 ⟨entry, by simp, ?_⟩
  rw [hdone.body, Function.update_self]
  exact ⟨rfl, rfl, rfl, rfl, rfl⟩

def Settled (worker : IoWorker) (posted : List IoWork) : Prop :=
  ∀ e, (body worker e).isCompleted = true → ∀ t a, Serves (body worker e) t a →
    ∃ w ∈ posted, Serves w t a

theorem enqueue_settled {r : Request} {posted : List IoWork}
    (h : Chains worker free busy) (hsettled : Settled worker posted)
    (hrun : enqueue r worker = .ok worker') : Settled worker' posted := by
  by_cases hslot : HasSlot worker
  · obtain ⟨entry, rest, before, after, hdone⟩ := enqueued_of_run h hslot hrun
    intro e
    rw [hdone.body]
    by_cases he : e = entry
    · subst he
      rw [Function.update_self]
      intro hcompleted
      cases r <;> simp [Request.fill] at hcompleted
    · rw [Function.update_of_ne he]
      exact hsettled e
  · rw [enqueue_refused r hslot] at hrun
    cases hrun
    exact hsettled

theorem reclaim_holds {posted : List IoWork} (h : Chains worker free busy)
    (hsettled : Settled worker posted)
    (hrun : reclaimCompletedReqs worker = .ok worker') (hold : Holds worker t a) :
    Holds worker' t a ∨ ∃ w ∈ posted, Serves w t a := by
  obtain ⟨worker'', hrun', hchains, hbody, -⟩ := reclaimCompletedReqs_spec h
  rw [hrun] at hrun'
  cases hrun'
  obtain ⟨e, he, hserves⟩ := (holds_iff h).1 hold
  rw [← List.takeWhile_append_dropWhile (p := worker.reclaimable) (l := busy),
    List.mem_append] at he
  rcases he with he | he
  · right
    have hreclaim := List.mem_takeWhile_imp he
    simp only [IoWorker.reclaimable, Bool.and_eq_true] at hreclaim
    exact hsettled e hreclaim.1.1 t a hserves
  · left
    refine (holds_iff hchains).2 ⟨e, he, ?_⟩
    rw [hbody]
    exact hserves

theorem serves_copied (w : IoWork) (moved : Nat × Nat) :
    Serves (copied w moved) t a ↔ Serves w t a := by
  obtain ⟨status, result0, hcopied⟩ := copied_eq w moved
  rw [hcopied]
  exact serves_congr rfl rfl rfl rfl rfl

/-- A step of the worker thread changes neither whom an entry serves nor, except
for the entry it finishes, what is completed. -/
theorem ioWorkerStep_entry (worker : IoWorker) (now : Nat) (moved : Nat × Nat)
    (e t : Nat) (a : Accepted) :
    (Serves ((ioWorkerStep worker now moved).1.workQueue e) t a ↔
      Serves (worker.workQueue e) t a) ∧
    (((ioWorkerStep worker now moved).1.workQueue e).isCompleted = true →
      (worker.workQueue e).isCompleted = true ∨
      (Serves (worker.workQueue e) t a → ∃ w, Serves w t a ∧
        (ioWorkerStep worker now moved).2 = some (.fillCqResult w))) := by
  have hcopied : (copied (worker.workQueue worker.curr) moved).isCompleted =
      (worker.workQueue worker.curr).isCompleted := by
    rw [copied]
    split
    · rfl
    · split <;> rfl
  generalize hresult : ioWorkerStep worker now moved = result
  have hcases := ioWorkerStep_cases worker now moved
  rw [hresult] at hcases
  cases hcases with
  | restart => exact ⟨Iff.rfl, .inl⟩
  | skip => exact ⟨Iff.rfl, .inl⟩
  | wait w hcurr hopen hw hdue =>
      subst hw
      by_cases he : e = worker.curr
      · subst he
        simp only [IoWorker.store, Function.update_self, hcopied]
        exact ⟨serves_copied _ moved, .inl⟩
      · dsimp only [IoWorker.store]
        rw [Function.update_of_ne he]
        exact ⟨Iff.rfl, .inl⟩
  | complete w hcurr hopen hw hdue =>
      subst hw
      by_cases he : e = worker.curr
      · subst he
        simp only [IoWorker.store, Function.update_self]
        refine ⟨?_, fun _ => .inr fun hserves => ?_⟩
        · rw [← serves_copied (worker.workQueue worker.curr) moved]
          exact serves_congr rfl rfl rfl rfl rfl
        · rw [← serves_copied _ moved] at hserves
          refine ⟨_, hserves, ?_⟩
          rw [IoWork.finish, hserves.host]
          rfl
      · dsimp only [IoWorker.store]
        rw [Function.update_of_ne he]
        exact ⟨Iff.rfl, .inl⟩

end Workers

structure Tables (vdev : NvmevDev μ κ) : Prop where
  chains : ∀ id, ∃ free busy, Chains (vdev.ioWorkers id) free busy
  settled : ∀ id, Settled (vdev.ioWorkers id) vdev.posted

theorem Started.tables (h : Started vdev) : Tables vdev where
  chains id := by
    rw [h.workers]
    exact ⟨_, _, ioWorkerInit_chains⟩
  settled id := by
    rw [h.workers]
    intro e hcompleted
    cases hcompleted

theorem Tables.update {id : Nat} {worker : IoWorker} (h : Tables vdev)
    (hworkers : vdev'.ioWorkers = Function.update vdev.ioWorkers id worker)
    (hposted : ∀ w ∈ vdev.posted, w ∈ vdev'.posted)
    (hchains : ∃ free busy, Chains worker free busy)
    (hsettled : Settled worker vdev'.posted) : Tables vdev' := by
  constructor
  · intro id'
    rw [hworkers]
    by_cases hid : id' = id
    · subst hid
      rw [Function.update_self]
      exact hchains
    · rw [Function.update_of_ne hid]
      exact h.chains id'
  · intro id'
    rw [hworkers]
    by_cases hid : id' = id
    · subst hid
      rw [Function.update_self]
      exact hsettled
    · rw [Function.update_of_ne hid]
      intro e hcompleted t a hserves
      obtain ⟨w, hw, hserves⟩ := h.settled id' e hcompleted t a hserves
      exact ⟨w, hposted w hw, hserves⟩

theorem Tables.enqueue {id : Nat} {r : Request} {worker : IoWorker} (h : Tables vdev)
    (hrun : enqueue r (vdev.ioWorkers id) = .ok worker)
    (hworkers : vdev'.ioWorkers = Function.update vdev.ioWorkers id worker)
    (hposted : vdev'.posted = vdev.posted) : Tables vdev' := by
  obtain ⟨free, busy, hchains⟩ := h.chains id
  refine h.update hworkers (by simp [hposted]) ?_ ?_
  · obtain ⟨worker', hrun', hnext⟩ := tableStep_chains (.enqueue r) (h.chains id)
    rw [tableStep, hrun] at hrun'
    cases hrun'
    exact hnext
  · rw [hposted]
    exact enqueue_settled hchains (h.settled id) hrun

theorem Moved.tables (hmoved : Moved event vdev vdev') (h : Tables vdev) : Tables vdev' := by
  cases hmoved with
  | idle workers accepted posted =>
      constructor
      · rw [workers]
        exact h.chains
      · rw [workers, posted]
        exact h.settled
  | hosted p id cqid commandId cmd ret worker _ _ _ _ hid run workers accepted posted =>
      exact h.enqueue run workers posted
  | scheduled id sqid nsecsTarget writeBuffer buffsToRelease worker run workers accepted
      posted => exact h.enqueue run workers posted
  | reclaimed id worker run workers accepted posted =>
      obtain ⟨free, busy, hchains⟩ := h.chains id
      obtain ⟨worker', hrun, hnext, hbody, -⟩ := reclaimCompletedReqs_spec hchains
      rw [run] at hrun
      cases hrun
      refine h.update workers (by simp [posted]) ⟨_, _, hnext⟩ ?_
      rw [Settled, hbody, posted]
      exact h.settled id
  | worked id now moved workers accepted posted =>
      obtain ⟨free, busy, hchains⟩ := h.chains id
      refine h.update workers (fun w hw => (posted w).2 (.inl hw))
        ⟨free, busy, ioWorkerStep_chains hchains now moved⟩ ?_
      intro e hcompleted t a hserves
      rw [serves_body] at hserves
      obtain ⟨hsame, hdone⟩ := ioWorkerStep_entry (vdev.ioWorkers id) now moved e t a
      rw [hsame] at hserves
      rcases hdone hcompleted with hbefore | hpost
      · obtain ⟨w, hw, hw'⟩ :=
          h.settled id e hbefore t a ((serves_body e).2 hserves)
        exact ⟨w, (posted w).2 (.inl hw), hw'⟩
      · obtain ⟨w, hw, heffect⟩ := hpost hserves
        exact ⟨w, (posted w).2 (.inr heffect), hw⟩

theorem Moved.posted_mono (hmoved : Moved event vdev vdev') {w : IoWork}
    (hw : w ∈ vdev.posted) : w ∈ vdev'.posted := by
  cases hmoved with
  | worked id now moved workers accepted posted => exact (posted w).2 (.inl hw)
  | _ => simp_all

theorem Moved.keeps (hmoved : Moved event vdev vdev') (h : Tables vdev) {id t : Nat}
    {a : Accepted} (hold : Holds (vdev.ioWorkers id) t a) :
    Holds (vdev'.ioWorkers id) t a ∨ ∃ w ∈ vdev'.posted, Serves w t a := by
  have hother : ∀ (id' : Nat) (worker : IoWorker),
      vdev'.ioWorkers = Function.update vdev.ioWorkers id' worker →
      (id = id' → Holds worker t a ∨ ∃ w ∈ vdev'.posted, Serves w t a) →
      Holds (vdev'.ioWorkers id) t a ∨ ∃ w ∈ vdev'.posted, Serves w t a := by
    intro id' worker hworkers hsame
    rw [hworkers]
    by_cases hid : id = id'
    · subst hid
      rw [Function.update_self]
      exact hsame rfl
    · rw [Function.update_of_ne hid]
      exact .inl hold
  obtain ⟨free, busy, hchains⟩ := h.chains id
  cases hmoved with
  | idle workers accepted posted =>
      rw [workers]
      exact .inl hold
  | hosted p id' cqid commandId cmd ret worker _ _ _ _ hid run workers accepted posted =>
      refine hother id' worker workers ?_
      rintro rfl
      exact .inl (enqueue_holds hchains run hold)
  | scheduled id' sqid nsecsTarget writeBuffer buffsToRelease worker run workers accepted
      posted =>
      refine hother id' worker workers ?_
      rintro rfl
      exact .inl (enqueue_holds hchains run hold)
  | reclaimed id' worker run workers accepted posted =>
      refine hother id' worker workers ?_
      rintro rfl
      rw [posted]
      exact reclaim_holds hchains (h.settled id) run hold
  | worked id' now moved workers accepted posted =>
      refine hother id' _ workers ?_
      rintro rfl
      obtain ⟨e, he, hserves⟩ := hold
      refine .inl ⟨e, ?_, ?_⟩
      · rw [(ioWorkerStep_chains hchains now moved).busyList_eq, ← hchains.busyList_eq]
        exact he
      · exact (ioWorkerStep_entry _ now moved e t a).1.2 hserves

/-- When the step accepts a command, the worker of its queue has an entry to
allocate. -/
def RoomFor (vdev : NvmevDev μ κ) : Event κ → Prop
  | .procIo _ (some _) =>
      ∀ p, vdev.pass = some p → p.turn = none → p.seq < p.numProc →
        ∀ id, getIoWorker vdev p.sqid = .ok id → HasSlot (vdev.ioWorkers id)
  | _ => True

theorem step_accepted (h : step be vdev event = .ok vdev')
    (hroom : RoomFor vdev event) (htables : Tables vdev) {t : Nat} {a : Accepted}
    (hnew : vdev'.accepted[t]? = some a) :
    vdev.accepted[t]? = some a ∨
      ∃ id < vdev'.nrIoWorkers, Holds (vdev'.ioWorkers id) t a := by
  obtain ⟨hmoved, hnr⟩ := step_moved h
  cases hmoved with
  | hosted p id cqid commandId cmd ret worker hevent hpass hturn hseq hid run workers
      accepted posted =>
      subst hevent
      rw [accepted, List.getElem?_append] at hnew
      split at hnew
      · exact .inl hnew
      · right
        obtain ⟨ht, ha⟩ := List.getElem?_eq_some_iff.1 hnew
        simp only [List.length_singleton, List.getElem_singleton] at ht ha
        obtain ⟨free, busy, hchains⟩ := htables.chains id
        have hslot := hroom p hpass hturn hseq id hid
        have htop : t = vdev.accepted.length := by omega
        subst htop ha
        refine ⟨id, hnr ▸ getIoWorker_lt hid, ?_⟩
        rw [workers, Function.update_self]
        exact enqueue_holds_new hchains hslot run
  | idle workers accepted posted => exact .inl (accepted ▸ hnew)
  | scheduled id sqid nsecsTarget writeBuffer buffsToRelease worker run workers accepted
      posted => exact .inl (accepted ▸ hnew)
  | reclaimed id worker run workers accepted posted => exact .inl (accepted ▸ hnew)
  | worked id now moved workers accepted posted => exact .inl (accepted ▸ hnew)

theorem NoneLost.step (hlost : NoneLost vdev) (htables : Tables vdev)
    (hroom : RoomFor vdev event) (h : step be vdev event = .ok vdev') :
    NoneLost vdev' := by
  obtain ⟨hmoved, hnr⟩ := step_moved h
  intro t a hnew
  rcases step_accepted h hroom htables hnew with hold | hnew
  · rcases hlost t a hold with ⟨id, hid, hholds⟩ | ⟨w, hw, hserves⟩
    · rcases hmoved.keeps htables hholds with hholds | hposted
      · exact .inl ⟨id, hnr ▸ hid, hholds⟩
      · exact .inr hposted
    · exact .inr ⟨w, hmoved.posted_mono hw, hserves⟩
  · exact .inl hnew

theorem dispatched_commands_kept (be : Backend μ κ) {start vdev : NvmevDev μ κ}
    (hstart : Started start)
    (hrun : ReflTransGen
      (fun vdev vdev' => ∃ event, RoomFor vdev event ∧ step be vdev event = .ok vdev')
      start vdev) :
    NoneLost vdev := by
  have hboth : Tables vdev ∧ NoneLost vdev := by
    induction hrun with
    | refl =>
        refine ⟨Started.tables hstart, ?_⟩
        intro t a hnew
        rw [hstart.accepted] at hnew
        simp at hnew
    | tail _ hstep ih =>
        obtain ⟨event, hroom, hstep⟩ := hstep
        exact ⟨(step_moved hstep).1.tables ih.1, ih.2.step ih.1 hroom hstep⟩
  exact hboth.2

section Overload

def Steps (be : Backend μ κ) (vdev vdev' : NvmevDev μ κ) : Prop :=
  ∃ event, step be vdev event = .ok vdev'

/-- A device with one worker and 17 submission queues of 1024 entries, on which
nothing has completed. -/
structure Loaded (vdev : NvmevDev μ κ) : Prop where
  nrIoWorkers : vdev.nrIoWorkers = 1
  queue : ∀ q, 1 ≤ q → q ≤ 17 → ∃ sq, vdev.sqes q = some sq ∧ sq.queueSize = 1024
  posted : vdev.posted = []
  tables : Tables vdev

theorem Loaded.enqueueRequest_ok (h : Loaded vdev) (sqid : Nat) (r : Request) :
    ∃ vdev', enqueueRequest vdev sqid r = .ok vdev' := by
  have hid : getIoWorker vdev sqid = .ok 0 := by
    simp only [getIoWorker, h.nrIoWorkers, Nat.mod_one]
    split
    · contradiction
    · split <;> rfl
  obtain ⟨worker, hrun, -⟩ := tableStep_chains (.enqueue r) (h.tables.chains 0)
  rw [tableStep] at hrun
  simp only [enqueueRequest, hid, ok_bind, hrun]
  exact ⟨_, rfl⟩

theorem Loaded.after_step (h : Loaded vdev) (hstep : step be vdev event = .ok vdev')
    (hqueue : ∀ q, 1 ≤ q → q ≤ 17 → ∃ sq, vdev'.sqes q = some sq ∧ sq.queueSize = 1024)
    (hposted : vdev'.posted = []) : Loaded vdev' := by
  obtain ⟨hmoved, hnr⟩ := step_moved hstep
  exact ⟨hnr.trans h.nrIoWorkers, hqueue, hposted, hmoved.tables h.tables⟩

theorem Loaded.queue_update (h : Loaded vdev) {q : Nat} {sq : SubmissionQueue κ}
    (hsize : sq.queueSize = 1024) :
    ∀ q', 1 ≤ q' → q' ≤ 17 →
      ∃ sq', Function.update vdev.sqes q (some sq) q' = some sq' ∧
        sq'.queueSize = 1024 := by
  intro q' hlow hhigh
  by_cases hq : q' = q
  · subst hq
    exact ⟨sq, Function.update_self .., hsize⟩
  · rw [Function.update_of_ne hq]
    exact h.queue q' hlow hhigh

variable {p : Pass}

theorem Loaded.accept (be : Backend μ κ) (h : Loaded vdev)
    (hpass : vdev.pass = some p)
    (hlow : 1 ≤ p.sqid) (hhigh : p.sqid ≤ 17) (hturn : p.turn = none)
    (hseq : p.seq < p.numProc) (cmd : κ) (ret : NvmevResult) :
    ∃ vdev', step be vdev (.procIo cmd (some ret)) = .ok vdev' ∧ Loaded vdev' ∧
      vdev'.pass = some { p with turn := some 0 } ∧
      vdev'.accepted.length = vdev.accepted.length + 1 ∧
      vdev'.oldDbs = vdev.oldDbs := by
  obtain ⟨sq, hsq, hsize⟩ := h.queue p.sqid hlow hhigh
  let sq' := { sq with sq := Function.update sq.sq p.sqEntry cmd }
  let stored :=
    { vdev with
      sqes := Function.update vdev.sqes p.sqid (some sq')
      pass := some p }
  have hstored : Loaded stored :=
    ⟨h.nrIoWorkers, h.queue_update hsize, h.posted, h.tables.chains, h.tables.settled⟩
  obtain ⟨queued, hqueued⟩ := hstored.enqueueRequest_ok p.sqid
    (.host p.sqid sq'.cqid p.sqEntry (be.commandId (sq'.sq p.sqEntry)) ret
      vdev.accepted.length)
  obtain ⟨_, _, -, -, -, -, hsqes, -, hold, haccepted, hposted⟩ :=
    enqueueRequest_eq hqueued
  have hstep : step be vdev (.procIo cmd (some ret)) =
      .ok { queued with
        pass := some { p with turn := some 0 }
        accepted := queued.accepted ++ [⟨p.sqid, p.sqEntry, be.commandId cmd⟩] } := by
    simp only [step, procIo, hpass, hsq, hturn, Option.isSome_none,
      Bool.false_eq_true, if_false, if_neg (not_le.2 hseq)]
    change (enqueueRequest stored p.sqid _ >>= _) = _
    rw [hqueued]
    rfl
  refine ⟨_, hstep, h.after_step hstep ?_ ?_, rfl, ?_, hold⟩
  · change ∀ q, 1 ≤ q → q ≤ 17 → ∃ sq, queued.sqes q = some sq ∧ _
    rw [hsqes]
    exact hstored.queue
  · exact hposted.trans h.posted
  · simp [haccepted, stored]

theorem Loaded.reclaim (be : Backend μ κ) (h : Loaded vdev)
    (hpass : vdev.pass = some p)
    (hturn : p.turn = some 0) :
    ∃ vdev', step be vdev .reclaim = .ok vdev' ∧ Loaded vdev' ∧
      vdev'.pass = some { p with turn := some 1 } ∧
      vdev'.accepted = vdev.accepted ∧ vdev'.oldDbs = vdev.oldDbs := by
  obtain ⟨worker, hrun, -⟩ := tableStep_chains .reclaim (h.tables.chains 0)
  rw [tableStep] at hrun
  have hlt : 0 < vdev.nrIoWorkers := by
    rw [h.nrIoWorkers]
    exact Nat.one_pos
  have hstep : step be vdev .reclaim =
      .ok { vdev.setWorker 0 worker with pass := some { p with turn := some 1 } } := by
    simp only [step, reclaimRound, hpass, hturn, if_pos hlt, hrun, ok_bind]
    rfl
  exact ⟨_, hstep, h.after_step hstep h.queue h.posted, rfl, rfl, rfl⟩

theorem Loaded.advance (be : Backend μ κ) (h : Loaded vdev)
    (hpass : vdev.pass = some p)
    (hlow : 1 ≤ p.sqid) (hhigh : p.sqid ≤ 17) (hturn : p.turn = some 1) :
    ∃ vdev' sqEntry, step be vdev .reclaim = .ok vdev' ∧ Loaded vdev' ∧
      vdev'.pass = some { p with seq := p.seq + 1, sqEntry := sqEntry, turn := none } ∧
      vdev'.accepted = vdev.accepted ∧ vdev'.oldDbs = vdev.oldDbs := by
  obtain ⟨sq, hsq, hsize⟩ := h.queue p.sqid hlow hhigh
  have hge : ¬1 < vdev.nrIoWorkers := by
    rw [h.nrIoWorkers]
    exact Nat.lt_irrefl 1
  have hstep : ∃ vdev' stat, step be vdev .reclaim = .ok vdev' ∧
      vdev' = { vdev with
        sqes := Function.update vdev.sqes p.sqid (some { sq with stat := stat })
        pass := some { p with
          seq := p.seq + 1
          sqEntry := if p.sqEntry + 1 = sq.queueSize then 0 else p.sqEntry + 1
          turn := none } } := by
    simp only [step, reclaimRound, hpass, hturn, if_neg hge, hsq]
    exact ⟨_, _, rfl, rfl⟩
  obtain ⟨vdev', stat, hstep, rfl⟩ := hstep
  exact ⟨_, _, hstep, h.after_step hstep (h.queue_update hsize) h.posted, rfl, rfl, rfl⟩

theorem Loaded.round (be : Backend μ κ) (h : Loaded vdev) (hpass : vdev.pass = some p)
    (hlow : 1 ≤ p.sqid) (hhigh : p.sqid ≤ 17) (hturn : p.turn = none)
    (hseq : p.seq < p.numProc) (cmd : κ) (ret : NvmevResult) :
    ∃ vdev' sqEntry, ReflTransGen (Steps be) vdev vdev' ∧ Loaded vdev' ∧
      vdev'.pass = some { p with seq := p.seq + 1, sqEntry := sqEntry } ∧
      vdev'.accepted.length = vdev.accepted.length + 1 ∧
      vdev'.oldDbs = vdev.oldDbs := by
  obtain ⟨v1, hstep1, h1, hpass1, hacc1, hold1⟩ :=
    h.accept be hpass hlow hhigh hturn hseq cmd ret
  obtain ⟨v2, hstep2, h2, hpass2, hacc2, hold2⟩ := h1.reclaim be hpass1 rfl
  obtain ⟨v3, sqEntry, hstep3, h3, hpass3, hacc3, hold3⟩ :=
    h2.advance be hpass2 hlow hhigh rfl
  refine ⟨v3, sqEntry, ?_, h3, ?_, ?_, ?_⟩
  · exact ((ReflTransGen.single ⟨_, hstep1⟩).tail ⟨_, hstep2⟩).tail ⟨_, hstep3⟩
  · rw [hpass3, hturn]
  · rw [hacc3, hacc2, hacc1]
  · rw [hold3, hold2, hold1]

theorem Loaded.rounds (be : Backend μ κ) (cmd : κ) (ret : NvmevResult) (n : Nat)
    {vdev : NvmevDev μ κ} {p : Pass} (h : Loaded vdev) (hpass : vdev.pass = some p)
    (hlow : 1 ≤ p.sqid) (hhigh : p.sqid ≤ 17) (hturn : p.turn = none)
    (hseq : p.seq + n = p.numProc) :
    ∃ vdev' sqEntry, ReflTransGen (Steps be) vdev vdev' ∧ Loaded vdev' ∧
      vdev'.pass = some { p with seq := p.numProc, sqEntry := sqEntry } ∧
      vdev'.accepted.length = vdev.accepted.length + n ∧
      vdev'.oldDbs = vdev.oldDbs := by
  induction n generalizing vdev p with
  | zero =>
      refine ⟨vdev, p.sqEntry, .refl, h, ?_, rfl, rfl⟩
      obtain ⟨sqid, oldDb, numProc, seq, sqEntry, turn⟩ := p
      obtain rfl : seq = numProc := hseq
      exact hpass
  | succ n ih =>
      obtain ⟨v1, e1, hrun1, h1, hpass1, hacc1, hold1⟩ :=
        h.round be hpass hlow hhigh hturn (by omega) cmd ret
      obtain ⟨v2, e2, hrun2, h2, hpass2, hacc2, hold2⟩ :=
        ih h1 hpass1 hlow hhigh hturn (by simp only; omega)
      refine ⟨v2, e2, hrun1.trans hrun2, h2, hpass2, ?_, hold2.trans hold1⟩
      omega

theorem Loaded.fill (be : Backend μ κ) (cmd : κ) (ret : NvmevResult) (h : Loaded vdev)
    (hpass : vdev.pass = none) {q : Nat} (hlow : 1 ≤ q) (hhigh : q ≤ 17)
    (hold : vdev.oldDbs q = 0) :
    ∃ vdev', ReflTransGen (Steps be) vdev vdev' ∧ Loaded vdev' ∧ vdev'.pass = none ∧
      vdev'.accepted.length = vdev.accepted.length + 1023 ∧
      ∀ q' ≠ q, vdev'.oldDbs q' = vdev.oldDbs q' := by
  obtain ⟨sq, hsq, hsize⟩ := h.queue q hlow hhigh
  let rung := { vdev with dbs := Function.update vdev.dbs q 1023 }
  have hring : step be vdev (.hostRing q 1023) = .ok rung := rfl
  have hrung := h.after_step hring h.queue h.posted
  let p : Pass := ⟨q, 0, 1023, 0, 0, none⟩
  have hbegin : step be rung (.beginPass q) = .ok { rung with pass := some p } := by
    simp [step, beginPass, rung, hpass, hsq, hold, p]
  have hbegun := hrung.after_step hbegin h.queue h.posted
  obtain ⟨v, e, hrun, hv, hvpass, hacc, hvold⟩ :=
    hbegun.rounds be cmd ret 1023 rfl hlow hhigh rfl rfl
  obtain ⟨sq', hsq', hsize'⟩ := hv.queue q hlow hhigh
  have hend : step be v (.procIo cmd none) =
      .ok (endPass v { p with seq := 1023, sqEntry := e } sq') := by
    simp [step, procIo, hvpass, p, hsq']
  refine ⟨_, ?_, hv.after_step hend (hv.queue_update hsize') hv.posted, rfl, hacc, ?_⟩
  · exact (((ReflTransGen.single ⟨_, hring⟩).tail ⟨_, hbegin⟩).trans hrun).tail
      ⟨_, hend⟩
  · intro q' hq'
    change Function.update v.oldDbs q _ q' = _
    rw [Function.update_of_ne hq', hvold]

theorem Loaded.fillAll (be : Backend μ κ) (cmd : κ) (ret : NvmevResult) (n : Nat)
    (hn : n ≤ 17) (h : Loaded vdev) (hpass : vdev.pass = none)
    (hold : ∀ q, vdev.oldDbs q = 0) :
    ∃ vdev', ReflTransGen (Steps be) vdev vdev' ∧ Loaded vdev' ∧ vdev'.pass = none ∧
      vdev'.accepted.length = vdev.accepted.length + 1023 * n ∧
      ∀ q, n < q → vdev'.oldDbs q = 0 := by
  induction n with
  | zero => exact ⟨vdev, .refl, h, hpass, rfl, fun q _ => hold q⟩
  | succ n ih =>
      obtain ⟨v1, hrun1, h1, hpass1, hacc1, hold1⟩ := ih (by omega)
      obtain ⟨v2, hrun2, h2, hpass2, hacc2, hold2⟩ :=
        h1.fill be cmd ret hpass1 (by omega) hn (hold1 (n + 1) (by omega))
      refine ⟨v2, hrun1.trans hrun2, h2, hpass2, ?_, fun q hq => ?_⟩
      · rw [hacc2, hacc1, Nat.mul_succ, Nat.add_assoc]
      · rw [hold2 q (by omega)]
        exact hold1 q (by omega)

theorem Loaded.not_noneLost (h : Loaded vdev)
    (hmany : nrMaxParallelIo ≤ vdev.accepted.length) : ¬NoneLost vdev := by
  intro hlost
  obtain ⟨free, busy, hchains⟩ := h.tables.chains 0
  have htickets : List.range nrMaxParallelIo ⊆
      busy.map fun e => (body (vdev.ioWorkers 0) e).ticket := by
    intro t ht
    have hlt : t < vdev.accepted.length := Nat.lt_of_lt_of_le (List.mem_range.1 ht) hmany
    rcases hlost t _ (List.getElem?_eq_getElem hlt) with ⟨id, hid, hholds⟩ | ⟨w, hw, -⟩
    · rw [h.nrIoWorkers, Nat.lt_one_iff] at hid
      subst hid
      obtain ⟨e, he, hserves⟩ := (holds_iff hchains).1 hholds
      exact List.mem_map.2 ⟨e, he, hserves.ticket⟩
    · rw [h.posted] at hw
      simp at hw
  have hlength := (List.subperm_of_subset List.nodup_range htickets).length_le
  rw [List.length_range, List.length_map] at hlength
  exact absurd hchains.busy_length_lt (not_lt.2 hlength)

def bareBackend : Backend Unit Nat where
  commandId := id
  cmdIoSize _ := 512
  perform _ _ moved := ((), moved)

def emptyStat : SqStat where
  nrDispatched := 0
  nrDispatch := 0
  nrInFlight := 0
  maxNrInFlight := 0
  totalIo := 0

def seventeenQueues : NvmevDev Unit Nat where
  nrIoWorkers := 1
  ioWorkers _ := ioWorkerInit
  ioWorkerTurn := 0
  sqes q :=
    if 1 ≤ q ∧ q ≤ 17 then
      some { cqid := q, queueSize := 1024, stat := emptyStat, sq := fun slot => slot }
    else none
  cqes q :=
    if 1 ≤ q ∧ q ≤ 17 then
      some
        { queueSize := 1024
          phase := 1
          cqHead := 0
          cqTail := -1
          interruptReady := false
          cq := fun _ => ⟨0, 0, 0, 0, 0, 0⟩ }
    else none
  dbs _ := 0
  oldDbs _ := 0
  pass := none
  buffers _ := bufferInit 0
  medium := ()
  accepted := []
  posted := []

theorem seventeenQueues_started : Started seventeenQueues :=
  ⟨fun _ => rfl, rfl, rfl, rfl⟩

theorem seventeenQueues_loaded : Loaded seventeenQueues where
  nrIoWorkers := rfl
  queue q hlow hhigh := by
    refine ⟨{ cqid := q, queueSize := 1024, stat := emptyStat, sq := fun slot => slot },
      ?_, rfl⟩
    exact if_pos ⟨hlow, hhigh⟩
  posted := rfl
  tables := Started.tables seventeenQueues_started

/-- A host that fills 17 queues of 1024 entries before the first completion makes
the dispatcher step over commands that no worker has. -/
theorem dispatched_commands_lost :
    ∃ vdev, ReflTransGen (Steps bareBackend) seventeenQueues vdev ∧
      vdev.pass = none ∧ ¬NoneLost vdev := by
  obtain ⟨vdev, hrun, h, hpass, haccepted, -⟩ :=
    seventeenQueues_loaded.fillAll bareBackend 0 ⟨0, 1000, 0⟩ 17 (by omega) rfl
      fun _ => rfl
  refine ⟨vdev, hrun, hpass, h.not_noneLost ?_⟩
  rw [haccepted]
  simp [seventeenQueues, nrMaxParallelIo]

theorem dispatched_commands_kept_first_command :
    ∃ vdev, ReflTransGen (fun vdev vdev' => ∃ event, RoomFor vdev event ∧
        step bareBackend vdev event = .ok vdev') seventeenQueues vdev ∧
      vdev.accepted.length = 1 ∧ NoneLost vdev := by
  let rung := { seventeenQueues with dbs := Function.update seventeenQueues.dbs 1 1 }
  let p : Pass := ⟨1, 0, 1, 0, 0, none⟩
  have hbegin : step bareBackend rung (.beginPass 1) =
      .ok { rung with pass := some p } := by
    simp [step, beginPass, rung, seventeenQueues, p]
  have hloaded := seventeenQueues_loaded
  have hbegun : Loaded { rung with pass := some p } :=
    ⟨rfl, hloaded.queue, rfl, hloaded.tables.chains, hloaded.tables.settled⟩
  obtain ⟨vdev, haccept, -, -, hone, -⟩ := hbegun.accept bareBackend rfl (by decide)
    (by decide) rfl (by decide) 0 ⟨0, 1000, 0⟩
  have hroom : RoomFor { rung with pass := some p } (.procIo 0 (some ⟨0, 1000, 0⟩)) := by
    intro _ _ _ _ _ _
    exact (by decide : HasSlot ioWorkerInit)
  have hrun : ReflTransGen (fun vdev vdev' => ∃ event, RoomFor vdev event ∧
      step bareBackend vdev event = .ok vdev') seventeenQueues vdev :=
    ((ReflTransGen.single ⟨.hostRing 1 1, trivial, rfl⟩).tail
      ⟨.beginPass 1, trivial, hbegin⟩).tail ⟨_, hroom, haccept⟩
  exact ⟨vdev, hrun, hone, dispatched_commands_kept bareBackend seventeenQueues_started hrun⟩

end Overload

end NvmeVirt.IoDelivery
