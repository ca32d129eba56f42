import Mathlib.Algebra.BigOperators.Group.Finset.Piecewise
import Mathlib.Logic.Relation
import NvmeVirt.CompletionDoorbell
import NvmeVirt.CompletionOverrun
import NvmeVirt.IoDelivery
import NvmeVirt.IoStanding
import NvmeVirt.RingFifo

namespace NvmeVirt.InFlight

open AdminQueues
open CompletionDoorbell
open CompletionOverrun
open FaultOutcome
open IoDelivery
open IoDispatch
open IoStanding
open IoSteps
open IoTable
open IoWorkers
open PhaseRing
open Relation
open RingFifo
open WriteBuffer

variable {μ κ : Type}

/-- A host command of queue `q` whose completion is still to be posted. -/
def isUnfinished (q : Nat) (w : IoWork) : Bool :=
  !w.isInternal && !w.isCompleted && decide (w.sqid % 2 ^ 16 = q)

def unfinishedBy (q : Nat) (worker : IoWorker) : Nat :=
  (busyList worker).countP fun e => isUnfinished q (worker.workQueue e)

def unfinished (vdev : NvmevDev μ κ) (q : Nat) : Nat :=
  ∑ id ∈ Finset.range vdev.nrIoWorkers, unfinishedBy q (vdev.ioWorkers id)

/-- The dispatcher has queued a command of `q` that it has not counted yet. -/
def dispatching (vdev : NvmevDev μ κ) (q : Nat) : Nat :=
  match vdev.pass with
  | none => 0
  | some p => if p.sqid = q ∧ p.turn ≠ none then 1 else 0

/-- A posted completion that no doorbell has released: the queue it was posted to and
the submission queue it names. -/
structure Entry where
  cqid : Nat
  sqId : Nat
deriving DecidableEq, Repr

def entryOf (w : IoWork) : Entry := ⟨w.cqid, w.sqid % 2 ^ 16⟩

section Entries

variable {cqid cqid' n : Nat} {xs ys : List Entry}

def queueOf (cqid : Nat) (xs : List Entry) : List Nat :=
  (xs.filter fun x => x.cqid = cqid).map Entry.sqId

def ofSq (q : Nat) (xs : List Entry) : Nat := xs.countP fun x => x.sqId = q

/-- The doorbell of a queue releases its `n` oldest completions. -/
def release (cqid n : Nat) (xs : List Entry) : List Entry :=
  (xs.filter fun x => x.cqid = cqid).drop n ++ xs.filter fun x => ¬x.cqid = cqid

theorem queueOf_append : queueOf cqid (xs ++ ys) = queueOf cqid xs ++ queueOf cqid ys := by
  rw [queueOf, List.filter_append, List.map_append]
  rfl

theorem ofSq_append {q : Nat} : ofSq q (xs ++ ys) = ofSq q xs + ofSq q ys := List.countP_append

theorem queueOf_release : queueOf cqid (release cqid n xs) = (queueOf cqid xs).drop n := by
  have hown : ((xs.filter fun x => x.cqid = cqid).drop n).filter (fun x => x.cqid = cqid) =
      (xs.filter fun x => x.cqid = cqid).drop n := by
    apply List.filter_eq_self.2
    intro x hx
    exact (List.mem_filter.1 (List.mem_of_mem_drop hx)).2
  have hother : (xs.filter fun x => ¬x.cqid = cqid).filter (fun x => x.cqid = cqid) = [] := by
    rw [List.filter_filter, List.filter_eq_nil_iff]
    simp
  rw [queueOf, release, List.filter_append, hown, hother, List.append_nil, List.map_drop]
  rfl

theorem queueOf_release_of_ne (hne : cqid' ≠ cqid) :
    queueOf cqid' (release cqid n xs) = queueOf cqid' xs := by
  have hown : ((xs.filter fun x => x.cqid = cqid).drop n).filter (fun x => x.cqid = cqid') =
      [] := by
    rw [List.filter_eq_nil_iff]
    intro x hx
    have hx' := (List.mem_filter.1 (List.mem_of_mem_drop hx)).2
    simp only [decide_eq_true_eq] at hx' ⊢
    rw [hx']
    exact Ne.symm hne
  have hother : (xs.filter fun x => ¬x.cqid = cqid).filter (fun x => x.cqid = cqid') =
      xs.filter fun x => x.cqid = cqid' := by
    rw [List.filter_filter]
    refine List.filter_congr ?_
    intro x _
    by_cases heq : x.cqid = cqid'
    · simp [heq, hne]
    · simp [heq]
  rw [queueOf, release, List.filter_append, hown, hother]
  rfl

theorem ofSq_release (q cqid n : Nat) (xs : List Entry) :
    ofSq q (release cqid n xs) + ((queueOf cqid xs).take n).count q = ofSq q xs := by
  have hsplit : ofSq q xs = ofSq q (xs.filter fun x => x.cqid = cqid) +
      ofSq q (xs.filter fun x => ¬x.cqid = cqid) := by
    rw [ofSq, ofSq, ofSq, List.countP_eq_countP_filter_add xs _ fun x => x.cqid = cqid]
    simp
  have htaken : ((queueOf cqid xs).take n).count q =
      ofSq q ((xs.filter fun x => x.cqid = cqid).take n) := by
    rw [queueOf, ← List.map_take, List.count, List.countP_map]
    rfl
  have hown := congrArg (ofSq q) (List.take_append_drop n (xs.filter fun x => x.cqid = cqid))
  rw [ofSq_append] at hown
  rw [release, ofSq_append, htaken, hsplit]
  omega

end Entries

def record (ctrl : Controller μ κ) (event : CtrlEvent κ) (ctrl' : Controller μ κ)
    (xs : List Entry) : List Entry :=
  match event with
  | .io _ => xs ++ (ctrl'.dev.posted.drop ctrl.dev.posted.length).map entryOf
  | .procCqDb cqid =>
      if ctrl.dev.pass.isSome then xs
      else
        match ctrl.dev.cqes cqid with
        | none => xs
        | some cq =>
            release cqid (distance cq.queueSize (ctrl.oldCqDbs cqid) (ctrl.cqDbs cqid)) xs
  | _ => xs

def flightStep (be : Backend μ κ) (s : Controller μ κ × List Entry) (event : CtrlEvent κ) :
    Except Fault (Controller μ κ × List Entry) := do
  let ctrl' ← ctrlStep be s.1 event
  return (ctrl', record s.1 event ctrl' s.2)

/-- When the step posts a completion, its ring has a slot that was released. -/
def RoomToPost (s : Controller μ κ × List Entry) : Event κ → Prop
  | .worker id now =>
      ∀ w, completes s.1.dev id now = some w → ∀ cq, s.1.dev.cqes w.cqid = some cq →
        (queueOf w.cqid s.2).length < cq.queueSize
  | _ => True

/-- A queue is created only when nothing of an earlier one with its number is left. -/
def NumberFree (s : Controller μ κ × List Entry) : AdminRequest κ → Prop
  | .createSq sqid _ _ _ => sqid < 2 ^ 16 ∧ unfinished s.1.dev sqid = 0 ∧ ofSq sqid s.2 = 0
  | .createCq cqid _ _ => queueOf cqid s.2 = []
  | _ => True

/-- The tables and rings have room, and the host rings the doorbell of a completion
queue only for completions it was given. -/
def Conforms (s : Controller μ κ × List Entry) : CtrlEvent κ → Prop
  | .io event => RoomFor s.1.dev event ∧ RoomToPost s event
  | .admin eid => s.1.dev.pass = none → NumberFree s (s.1.adminQ.nvmeSq eid).request
  | .ringCq cqid db =>
      ∀ cq, s.1.dev.cqes cqid = some cq → db < cq.queueSize ∧
        distance cq.queueSize (s.1.oldCqDbs cqid) db ≤ (queueOf cqid s.2).length
  | _ => True

section Workers

variable {worker worker' : IoWorker} {q : Nat}

theorem countP_change {xs : List Nat} (p p' : Nat → Bool) {e : Nat} (he : e ∈ xs)
    (hnodup : xs.Nodup) (hrest : ∀ x, x ≠ e → p' x = p x) :
    xs.countP p' + (if p e then 1 else 0) = xs.countP p + if p' e then 1 else 0 := by
  have hperm := List.perm_cons_erase he
  have herase : (xs.erase e).countP p' = (xs.erase e).countP p := by
    refine List.countP_congr ?_
    intro x hx
    rw [hrest x ((hnodup.mem_erase_iff).1 hx).1]
  rw [hperm.countP_eq p, hperm.countP_eq p', List.countP_cons, List.countP_cons, herase]
  omega

theorem isUnfinished_fill (r : Request) (w : IoWork) : isUnfinished q (r.fill w) =
    match r with
    | .host sqid _ _ _ _ _ => decide (sqid % 2 ^ 16 = q)
    | .internal _ _ _ _ => false := by
  cases r <;> rfl

theorem isUnfinished_copied (w : IoWork) (moved : Nat × Nat) :
    isUnfinished q (copied w moved) = isUnfinished q w := by
  obtain ⟨status, result0, hcopied⟩ := copied_eq w moved
  rw [hcopied]
  rfl

theorem unfinishedBy_of_chains {free busy : List Nat} (h : Chains worker free busy) :
    unfinishedBy q worker = busy.countP fun e => isUnfinished q (body worker e) := by
  rw [unfinishedBy, h.busyList_eq]
  rfl

theorem enqueue_unfinishedBy {r : Request} {P : IoWork → Prop} (h : Held P worker)
    (hslot : HasSlot worker) (hrun : enqueue r worker = .ok worker') :
    unfinishedBy q worker' =
      unfinishedBy q worker + if isUnfinished q (r.fill zeroedWork) then 1 else 0 := by
  obtain ⟨free, busy, hchains, -, -⟩ := h
  obtain ⟨entry, rest, before, after, hdone⟩ := enqueued_of_run hchains hslot hrun
  have hnodup := hdone.chains.nodup
  have hfresh : entry ∉ before ++ after := by
    have hmiddle := (List.nodup_append.1 hnodup).2.1
    exact (List.nodup_cons.1 (List.nodup_middle.1 hmiddle)).1
  have hold : (before ++ after).countP (fun e => isUnfinished q (body worker' e)) =
      (before ++ after).countP fun e => isUnfinished q (body worker e) := by
    refine List.countP_congr ?_
    intro e he
    rw [hdone.body, Function.update_of_ne (ne_of_mem_of_not_mem he hfresh)]
  have hnew : isUnfinished q (body worker' entry) = isUnfinished q (r.fill zeroedWork) := by
    rw [hdone.body, Function.update_self, isUnfinished_fill]
    exact isUnfinished_fill r (worker.workQueue entry)
  rw [unfinishedBy_of_chains hdone.chains, unfinishedBy_of_chains hchains, hdone.busy_eq, ← hold,
    List.countP_append, List.countP_cons, List.countP_append, hnew]
  omega

theorem enqueue_unfinishedBy_internal {sqid nsecsTarget writeBuffer buffsToRelease : Nat}
    {P : IoWork → Prop} (h : Held P worker)
    (hrun : enqueue (.internal sqid nsecsTarget writeBuffer buffsToRelease) worker = .ok worker') :
    unfinishedBy q worker' = unfinishedBy q worker := by
  by_cases hslot : HasSlot worker
  · exact enqueue_unfinishedBy h hslot hrun
  · rw [enqueue_refused _ hslot] at hrun
    cases hrun
    rfl

theorem reclaim_unfinishedBy {P : IoWork → Prop} (h : Held P worker)
    (hrun : reclaimCompletedReqs worker = .ok worker') :
    unfinishedBy q worker' = unfinishedBy q worker := by
  obtain ⟨free, busy, hchains, -, -⟩ := h
  obtain ⟨worker'', hrun', hchains', hbody, -⟩ := reclaimCompletedReqs_spec hchains
  rw [hrun] at hrun'
  cases hrun'
  have htaken : (busy.takeWhile worker.reclaimable).countP
      (fun e => isUnfinished q (body worker e)) = 0 := by
    rw [List.countP_eq_zero]
    intro e he
    have hreclaim := List.mem_takeWhile_imp he
    simp only [IoWorker.reclaimable, Bool.and_eq_true] at hreclaim
    simp [isUnfinished, body, hreclaim.1.1]
  have hsplit := List.takeWhile_append_dropWhile (p := worker.reclaimable) (l := busy)
  rw [unfinishedBy_of_chains hchains', unfinishedBy_of_chains hchains, hbody]
  conv_rhs => rw [← hsplit, List.countP_append, htaken, Nat.zero_add]

/-- The completion the worker hands to `__fill_cq_result` in a step. -/
def handed : Option Effect → List IoWork
  | some (.fillCqResult w) => [w]
  | _ => []

theorem work_unfinishedBy {P : IoWork → Prop} (h : Held P worker) (now : Nat)
    (moved : Nat × Nat) :
    unfinishedBy q (ioWorkerStep worker now moved).1 +
        ofSq q ((handed (ioWorkerStep worker now moved).2).map entryOf) =
      unfinishedBy q worker := by
  obtain ⟨free, busy, hchains, hstanding, -⟩ := h
  have hnodup := (List.nodup_append.1 hchains.nodup).2.1
  have hchains' := ioWorkerStep_chains hchains now moved
  have hcases := ioWorkerStep_cases worker now moved
  generalize ioWorkerStep worker now moved = result at hchains' hcases
  rw [unfinishedBy, hchains'.busyList_eq, unfinishedBy, hchains.busyList_eq]
  cases hcases with
  | restart hcurr => rfl
  | skip hcurr hdone => rfl
  | wait w hcurr hopen hw hdue =>
      refine List.countP_congr ?_
      intro e _
      simp only [IoWorker.store]
      by_cases heq : e = worker.curr
      · rw [heq, Function.update_self, hw, isUnfinished_copied]
      · rw [Function.update_of_ne heq]
  | complete w hcurr hopen hw hdue =>
      have hchange := countP_change (fun e => isUnfinished q (worker.workQueue e))
        (fun e => isUnfinished q
          ((worker.store worker.curr { w with isCompleted := true }).workQueue e))
        (hstanding.open_mem hcurr hopen) hnodup
        fun x hx => by
          simp only [IoWorker.store]
          rw [Function.update_of_ne hx]
      have hafter : isUnfinished q ((worker.store worker.curr
          { w with isCompleted := true }).workQueue worker.curr) = false := by
        simp only [IoWorker.store, Function.update_self]
        simp [isUnfinished]
      have hposted : ofSq q ((handed (some w.finish)).map entryOf) =
          if isUnfinished q (worker.workQueue worker.curr) then 1 else 0 := by
        have hcompleted : w.isCompleted = false := by
          rw [hw, copied_isCompleted]
          exact hopen
        rw [← isUnfinished_copied (worker.workQueue worker.curr) moved, ← hw, isUnfinished,
          hcompleted, IoWork.finish]
        cases w.isInternal <;> simp [handed, ofSq, entryOf]
      rw [hafter] at hchange
      rw [hposted]
      exact hchange

end Workers

section Device

variable {be : Backend μ κ} {vdev vdev' : NvmevDev μ κ} {event : Event κ} {q : Nat}

theorem unfinished_update {id : Nat} {worker : IoWorker} (hid : id < vdev.nrIoWorkers)
    (hnr : vdev'.nrIoWorkers = vdev.nrIoWorkers)
    (hworkers : vdev'.ioWorkers = Function.update vdev.ioWorkers id worker) :
    unfinished vdev' q + unfinishedBy q (vdev.ioWorkers id) =
      unfinished vdev q + unfinishedBy q worker := by
  have hmem : id ∈ Finset.range vdev.nrIoWorkers := Finset.mem_range.2 hid
  have hrest : ∑ i ∈ (Finset.range vdev.nrIoWorkers).erase id,
      unfinishedBy q (vdev'.ioWorkers i) =
      ∑ i ∈ (Finset.range vdev.nrIoWorkers).erase id, unfinishedBy q (vdev.ioWorkers i) := by
    refine Finset.sum_congr rfl ?_
    intro i hi
    rw [hworkers, Function.update_of_ne (Finset.ne_of_mem_erase hi)]
  have hself : unfinishedBy q (vdev'.ioWorkers id) = unfinishedBy q worker := by
    rw [hworkers, Function.update_self]
  rw [unfinished, unfinished, hnr, ← Finset.sum_erase_add _ _ hmem,
    ← Finset.sum_erase_add _ _ hmem, hrest, hself]
  omega

theorem unfinished_congr (hnr : vdev'.nrIoWorkers = vdev.nrIoWorkers)
    (hworkers : vdev'.ioWorkers = vdev.ioWorkers) : unfinished vdev' q = unfinished vdev q := by
  rw [unfinished, unfinished, hnr, hworkers]

/-- The commands of `q` that the dispatcher knows of but has no worker for any more:
those it counts, less those still to be posted. -/
def beyondWorkers (vdev : NvmevDev μ κ) (q : Nat) (sq : SubmissionQueue κ) : Int :=
  sq.stat.nrInFlight + dispatching vdev q - unfinished vdev q

/-- A step of the I/O side counts on: what it posts is what leaves the workers. -/
structure Flows (vdev vdev' : NvmevDev μ κ) (new : List IoWork) : Prop where
  posted : vdev'.posted = vdev.posted ++ new
  counted : ∀ q sq', vdev'.sqes q = some sq' → ∃ sq, vdev.sqes q = some sq ∧
    sq.stat.nrInFlight ≤ sq'.stat.nrInFlight ∧
    beyondWorkers vdev' q sq' = beyondWorkers vdev q sq + ofSq q (new.map entryOf)

theorem dispatching_of_none (hpass : vdev.pass = none) : dispatching vdev q = 0 := by
  rw [dispatching, hpass]

theorem dispatching_of_turn {p : Pass} (hpass : vdev.pass = some p) (hturn : p.turn = none) :
    dispatching vdev q = 0 := by
  rw [dispatching, hpass]
  exact if_neg fun hboth => hboth.2 hturn

theorem Flows.quiet (hposted : vdev'.posted = vdev.posted)
    (hunfinished : ∀ q, unfinished vdev' q = unfinished vdev q)
    (hpass : ∀ q, dispatching vdev' q = dispatching vdev q)
    (hsqes : ∀ q sq', vdev'.sqes q = some sq' →
      ∃ sq, vdev.sqes q = some sq ∧ sq'.stat.nrInFlight = sq.stat.nrInFlight) :
    Flows vdev vdev' [] where
  posted := by rw [hposted, List.append_nil]
  counted := by
    intro q sq' hsq'
    obtain ⟨sq, hsq, hsame⟩ := hsqes q sq' hsq'
    refine ⟨sq, hsq, hsame.ge, ?_⟩
    rw [beyondWorkers, beyondWorkers, hsame, hpass, hunfinished]
    simp [ofSq]

theorem kept_of_update {sq sq' : SubmissionQueue κ} {sqid : Nat}
    (hsqes : vdev'.sqes = Function.update vdev.sqes sqid (some sq'))
    (hpresent : vdev.sqes sqid = some sq) (hsame : sq'.stat.nrInFlight = sq.stat.nrInFlight)
    (q : Nat) (sq'' : SubmissionQueue κ) (hq : vdev'.sqes q = some sq'') :
    ∃ sq, vdev.sqes q = some sq ∧ sq''.stat.nrInFlight = sq.stat.nrInFlight := by
  rw [hsqes] at hq
  by_cases heq : q = sqid
  · subst heq
    rw [Function.update_self, Option.some.injEq] at hq
    exact ⟨sq, hpresent, hq ▸ hsame⟩
  · rw [Function.update_of_ne heq] at hq
    exact ⟨sq'', hq, rfl⟩

theorem kept_of_eq (hsqes : vdev'.sqes = vdev.sqes) (q : Nat) (sq' : SubmissionQueue κ)
    (hq : vdev'.sqes q = some sq') :
    ∃ sq, vdev.sqes q = some sq ∧ sq'.stat.nrInFlight = sq.stat.nrInFlight :=
  ⟨sq', hsqes ▸ hq, rfl⟩

def Tabled (vdev : NvmevDev μ κ) : Prop :=
  ∀ id < vdev.nrIoWorkers, Held (fun _ => True) (vdev.ioWorkers id)

theorem Flows.table {id : Nat} {worker : IoWorker} (hid : id < vdev.nrIoWorkers)
    (hworker : ∀ q, unfinishedBy q worker = unfinishedBy q (vdev.ioWorkers id))
    (hnr : vdev'.nrIoWorkers = vdev.nrIoWorkers)
    (hworkers : vdev'.ioWorkers = Function.update vdev.ioWorkers id worker)
    (hposted : vdev'.posted = vdev.posted)
    (hpass : ∀ q, dispatching vdev' q = dispatching vdev q)
    (hsqes : vdev'.sqes = vdev.sqes) : Flows vdev vdev' [] := by
  refine .quiet hposted ?_ hpass (kept_of_eq hsqes)
  intro q
  have hmoved := unfinished_update (q := q) hid hnr hworkers
  rw [hworker] at hmoved
  omega

/-- The command that the pass stands on is queued, and it is not counted yet. -/
theorem Flows.accept {cmd : κ} {ret : NvmevResult} {p : Pass} {sq : SubmissionQueue κ}
    {id : Nat} {worker : IoWorker} (h : Tabled vdev) (hnamed : p.sqid < 2 ^ 16)
    (hpresent : vdev.sqes p.sqid = some sq)
    (hpass : vdev.pass = some p) (hturn : p.turn = none)
    (hid : id < vdev.nrIoWorkers) (hslot : HasSlot (vdev.ioWorkers id))
    (hrun : enqueue (hostRequest be vdev p sq cmd ret) (vdev.ioWorkers id) = .ok worker)
    (hnr : vdev'.nrIoWorkers = vdev.nrIoWorkers)
    (hworkers : vdev'.ioWorkers = Function.update vdev.ioWorkers id worker)
    (hposted : vdev'.posted = vdev.posted)
    (hpass' : vdev'.pass = some { p with turn := some 0 })
    (hsqes : vdev'.sqes = Function.update vdev.sqes p.sqid (some (writeSlot sq p.sqEntry cmd))) :
    Flows vdev vdev' [] where
  posted := by rw [hposted, List.append_nil]
  counted := by
    intro q sq' hsq'
    obtain ⟨sq₀, hsq₀, hsame⟩ := kept_of_update hsqes hpresent rfl q sq' hsq'
    refine ⟨sq₀, hsq₀, hsame.ge, ?_⟩
    have hmoved := unfinished_update (q := q) hid hnr hworkers
    have hqueued := enqueue_unfinishedBy (q := q) (h id hid) hslot hrun
    have hnew : isUnfinished q ((hostRequest be vdev p sq cmd ret).fill zeroedWork) =
        decide (p.sqid = q) := by
      rw [hostRequest, isUnfinished_fill]
      dsimp only
      rw [Nat.mod_eq_of_lt hnamed]
    have hcounted : dispatching vdev' q = if p.sqid = q then 1 else 0 := by
      rw [dispatching, hpass']
      simp
    rw [hnew] at hqueued
    simp only [decide_eq_true_eq] at hqueued
    rw [beyondWorkers, beyondWorkers, hsame, dispatching_of_turn hpass hturn, hcounted]
    simp only [ofSq, List.map_nil, List.countP_nil]
    by_cases heq : p.sqid = q
    · rw [if_pos heq] at hqueued ⊢
      omega
    · rw [if_neg heq] at hqueued ⊢
      omega

theorem Flows.advance {p p' : Pass} {id : Nat} {sq : SubmissionQueue κ}
    (hpresent : vdev.sqes p.sqid = some sq)
    (hpass : vdev.pass = some p) (hturn : p.turn = some id)
    (hnr : vdev'.nrIoWorkers = vdev.nrIoWorkers) (hworkers : vdev'.ioWorkers = vdev.ioWorkers)
    (hposted : vdev'.posted = vdev.posted)
    (hpass' : vdev'.pass = some p') (hturn' : p'.turn = none)
    (hsqes : vdev'.sqes =
      Function.update vdev.sqes p.sqid (some (countDispatched be sq p.sqEntry))) :
    Flows vdev vdev' [] where
  posted := by rw [hposted, List.append_nil]
  counted := by
    intro q sq' hsq'
    have hbefore : dispatching vdev q = if p.sqid = q then 1 else 0 := by
      rw [dispatching, hpass]
      simp [hturn]
    rw [hsqes] at hsq'
    by_cases heq : q = p.sqid
    · subst heq
      rw [Function.update_self, Option.some.injEq] at hsq'
      subst hsq'
      refine ⟨sq, hpresent, ?_, ?_⟩
      · simp [countDispatched]
      · rw [beyondWorkers, beyondWorkers, dispatching_of_turn hpass' hturn', hbefore, if_pos rfl,
          unfinished_congr hnr hworkers]
        simp only [countDispatched, ofSq, List.map_nil, List.countP_nil]
        omega
    · rw [Function.update_of_ne heq] at hsq'
      refine ⟨sq', hsq', Int.le_refl _, ?_⟩
      rw [beyondWorkers, beyondWorkers, dispatching_of_turn hpass' hturn', hbefore,
        if_neg (Ne.symm heq), unfinished_congr hnr hworkers]
      simp [ofSq]

theorem Flows.work {id now : Nat} {moved : Nat × Nat} {effect : Option Effect}
    (h : Tabled vdev) (hid : id < vdev.nrIoWorkers)
    (heffect : (ioWorkerStep (vdev.ioWorkers id) now moved).2 = effect)
    (hnr : vdev'.nrIoWorkers = vdev.nrIoWorkers)
    (hworkers : vdev'.ioWorkers = Function.update vdev.ioWorkers id
      (ioWorkerStep (vdev.ioWorkers id) now moved).1)
    (hposted : vdev'.posted = vdev.posted ++ handed effect)
    (hpass : vdev'.pass = vdev.pass) (hsqes : vdev'.sqes = vdev.sqes) :
    Flows vdev vdev' (handed effect) where
  posted := hposted
  counted := by
    intro q sq' hsq'
    refine ⟨sq', hsqes ▸ hsq', Int.le_refl _, ?_⟩
    have hmoved := unfinished_update (q := q) hid hnr hworkers
    have hworked := work_unfinishedBy (q := q) (h id hid) now moved
    rw [heffect] at hworked
    have hsame : dispatching vdev' q = dispatching vdev q := by
      rw [dispatching, hpass]
      rfl
    rw [beyondWorkers, beyondWorkers, hsame]
    omega

theorem step_flows (h : step be vdev event = .ok vdev') (htabled : Tabled vdev)
    (hnamed : ∀ q, (vdev.sqes q).isSome → q < 2 ^ 16) (hroom : RoomFor vdev event) :
    ∃ new, Flows vdev vdev' new := by
  cases step_result h with
  | idle _ _ _ => exact ⟨[], .quiet rfl (fun _ => rfl) (fun _ => rfl) (kept_of_eq rfl)⟩
  | hostWrite sqid slot cmd =>
      refine ⟨[], .quiet rfl (fun _ => rfl) (fun _ => rfl) ?_⟩
      intro q sq' hsq'
      dsimp only at hsq'
      by_cases heq : q = sqid
      · subst heq
        rw [Function.update_self, Option.map_eq_some_iff] at hsq'
        obtain ⟨sq, hsq, rfl⟩ := hsq'
        exact ⟨sq, hsq, rfl⟩
      · rw [Function.update_of_ne heq] at hsq'
        exact ⟨sq', hsq', rfl⟩
  | hostRing sqid db => exact ⟨[], .quiet rfl (fun _ => rfl) (fun _ => rfl) (kept_of_eq rfl)⟩
  | beginPass sqid sq pass present rung =>
      refine ⟨[], .quiet rfl (fun _ => rfl) ?_ (kept_of_eq rfl)⟩
      intro q
      rw [dispatching_of_none pass]
      exact dispatching_of_turn rfl rfl
  | finish cmd ret p sq pass present turn seq =>
      refine ⟨[], .quiet rfl (fun _ => rfl) ?_ (kept_of_update rfl present rfl)⟩
      intro q
      rw [dispatching_of_turn pass turn]
      exact dispatching_of_none rfl
  | refuse cmd p sq pass present turn seq =>
      refine ⟨[], .quiet rfl (fun _ => rfl) ?_
        (kept_of_update (Function.update_idem _ _ _) present rfl)⟩
      intro q
      rw [dispatching_of_turn pass turn]
      exact dispatching_of_none rfl
  | accept cmd ret p sq id turns worker pass present turn seq hid run =>
      have hlt := hnamed p.sqid (by rw [present]; rfl)
      exact ⟨[], .accept htabled hlt present pass turn (getIoWorker_lt hid)
        (hroom p pass turn seq id hid) run rfl rfl rfl rfl rfl⟩
  | schedule sqid nsecsTarget writeBuffer buffsToRelease id turns worker hid run =>
      have hlt := getIoWorker_lt hid
      exact ⟨[], .table hlt (fun q => enqueue_unfinishedBy_internal (htabled id hlt) run)
        rfl rfl rfl (fun _ => rfl) rfl⟩
  | reclaim p id worker pass turn lt run =>
      refine ⟨[], .table lt (fun q => reclaim_unfinishedBy (htabled id lt) run)
        rfl rfl rfl ?_ rfl⟩
      intro q
      rw [dispatching, dispatching, pass]
      simp [turn]
  | advance p id sq pass turn present =>
      exact ⟨[], .advance present pass turn rfl rfl rfl rfl rfl rfl⟩
  | work id now medium moved lt perform effect =>
      exact ⟨_, .work htabled lt effect rfl rfl (List.append_nil _).symm rfl rfl⟩
  | post id now medium moved w cq lt perform effect present =>
      exact ⟨_, .work htabled lt effect rfl rfl rfl rfl rfl⟩
  | release id now medium moved writeBuffer buffsToRelease lt perform effect =>
      exact ⟨_, .work htabled lt effect rfl rfl (List.append_nil _).symm rfl rfl⟩

end Device

/-- The ring of a completion queue from what was released to what was posted; the host
rings within it. -/
structure Ringed (ctrl : Controller μ κ) (xs : List Entry) (cqid : Nat) (cq : CompletionQueue) :
    Prop where
  queued : Queued cq.queueSize (fun i => (cq.cq i).sqId) (ctrl.oldCqDbs cqid) cq.cqHead
    (queueOf cqid xs)
  db_lt : ctrl.cqDbs cqid < cq.queueSize
  rung : distance cq.queueSize (ctrl.oldCqDbs cqid) (ctrl.cqDbs cqid) ≤
    (queueOf cqid xs).length

structure Exact (s : Controller μ κ × List Entry) : Prop where
  tabled : Tabled s.1.dev
  named : ∀ q, (s.1.dev.sqes q).isSome → q < 2 ^ 16
  rings : ∀ cqid cq, s.1.dev.cqes cqid = some cq → Ringed s.1 s.2 cqid cq
  counts : ∀ q sq, s.1.dev.sqes q = some sq → 0 ≤ sq.stat.nrInFlight ∧
    beyondWorkers s.1.dev q sq = ofSq q s.2

section Steps

variable {be : Backend μ κ} {s s' : Controller μ κ × List Entry} {ctrl ctrl' : Controller μ κ}
  {xs : List Entry} {cqid : Nat} {cq : CompletionQueue}

theorem distance_self (n a : Nat) : distance n a a = 0 := by
  rw [distance, Nat.add_sub_cancel_left, Nat.mod_self]

theorem ringed_new (qsize : Nat) (memory : Nat → Completion) (hold : ctrl.oldCqDbs cqid = 0)
    (hdb : ctrl.cqDbs cqid = 0) (hnone : queueOf cqid xs = []) :
    Ringed ctrl xs cqid (newCq qsize memory) where
  queued := by
    rw [hold, hnone]
    exact queued_nil (Nat.succ_pos qsize) _
  db_lt := by
    rw [hdb]
    exact Nat.succ_pos qsize
  rung := by
    rw [hold, hdb, distance_self]
    exact Nat.zero_le _

theorem Ringed.post (h : Ringed ctrl xs cqid cq) {w : IoWork} (hcqid : w.cqid = cqid)
    (hroom : (queueOf cqid xs).length < cq.queueSize) (hold : ctrl'.oldCqDbs = ctrl.oldCqDbs)
    (hdbs : ctrl'.cqDbs = ctrl.cqDbs) :
    Ringed ctrl' (xs ++ [entryOf w]) cqid (postEntry cq w) := by
  have hone : queueOf cqid [entryOf w] = [w.sqid % 2 ^ 16] := by
    simp [queueOf, entryOf, hcqid]
  have hslots : (fun i => ((postEntry cq w).cq i).sqId) =
      Function.update (fun i => (cq.cq i).sqId) cq.cqHead (w.sqid % 2 ^ 16) := by
    funext i
    exact Function.apply_update (fun _ => Completion.sqId) cq.cq cq.cqHead _ i
  refine ⟨?_, ?_, ?_⟩
  · rw [hslots, hold, queueOf_append, hone]
    exact h.queued.push hroom _
  · rw [hdbs]
    exact h.db_lt
  · rw [hold, hdbs, queueOf_append, List.length_append]
    exact Nat.le_trans h.rung (Nat.le_add_right _ _)

theorem Ringed.congr (h : Ringed ctrl xs cqid cq) {xs' : List Entry}
    (hold : ctrl'.oldCqDbs cqid = ctrl.oldCqDbs cqid) (hdb : ctrl'.cqDbs cqid = ctrl.cqDbs cqid)
    (hxs : queueOf cqid xs' = queueOf cqid xs) : Ringed ctrl' xs' cqid cq := by
  refine ⟨?_, ?_, ?_⟩
  · rw [hold, hxs]
    exact h.queued
  · rw [hdb]
    exact h.db_lt
  · rw [hold, hdb, hxs]
    exact h.rung

theorem Exact.io {event : Event κ} (h : Exact s) (hconforms : Conforms s (.io event))
    (hstep : flightStep be s (.io event) = .ok s') : Exact s' := by
  obtain ⟨ctrl, xs⟩ := s
  obtain ⟨ctrl', hctrl, hstep⟩ := exists_of_bind_eq_ok hstep
  obtain ⟨vdev', hdev, hctrl⟩ := exists_of_bind_eq_ok hctrl
  cases hctrl
  cases hstep
  obtain ⟨hroom, hpost⟩ := hconforms
  obtain ⟨new, hflows⟩ := step_flows hdev h.tabled h.named hroom
  have hrecord : record ctrl (.io event) { ctrl with dev := vdev' } xs =
      xs ++ new.map entryOf := by
    rw [record]
    dsimp only
    rw [hflows.posted, List.drop_left]
  rw [hrecord]
  refine ⟨?_, ?_, ?_, ?_⟩
  · exact (step_held hdev h.tabled (fun _ _ _ _ _ _ _ _ _ _ => trivial)
      (fun _ _ _ _ _ => trivial) (fun _ _ _ _ => trivial) (fun _ _ _ => trivial)).2
  · intro q hq
    obtain ⟨sq', hsq'⟩ := Option.isSome_iff_exists.1 hq
    obtain ⟨sq, hsq, -⟩ := hflows.counted q sq' hsq'
    exact h.named q (Option.isSome_iff_exists.2 ⟨sq, hsq⟩)
  · intro cqid cq hcq
    dsimp only at hcq
    cases step_posting hdev with
    | none cqes posted quiet =>
        have hnew : new = [] := by
          have hposted := hflows.posted
          rwa [posted, List.self_eq_append_right] at hposted
        rw [cqes] at hcq
        refine (h.rings cqid cq hcq).congr rfl rfl ?_
        rw [hnew, List.map_nil, List.append_nil]
    | one id now w w' cq' event_eq completes cqid_eq present cqes posted =>
        have hnew : new = [w] := by
          have hposted := hflows.posted
          rw [posted] at hposted
          exact (List.append_cancel_left hposted).symm
        rw [cqes] at hcq
        rw [hnew]
        by_cases heq : cqid = w.cqid
        · subst heq
          rw [Function.update_self, Option.some.injEq] at hcq
          subst hcq event_eq
          have hfits := hpost w' completes cq' (by rw [cqid_eq]; exact present)
          rw [cqid_eq] at hfits
          exact (h.rings w.cqid cq' present).post rfl hfits rfl rfl
        · rw [Function.update_of_ne heq] at hcq
          refine (h.rings cqid cq hcq).congr rfl rfl ?_
          rw [queueOf_append]
          simp [queueOf, entryOf, Ne.symm heq]
  · intro q sq' hsq'
    obtain ⟨sq, hsq, hle, hcounted⟩ := hflows.counted q sq' hsq'
    obtain ⟨hpos, hexact⟩ := h.counts q sq hsq
    refine ⟨Int.le_trans hpos hle, ?_⟩
    rw [hcounted, hexact, ofSq_append, Int.natCast_add]

theorem Exact.createSq (h : Exact (ctrl, xs)) {eid sqid qsize : Nat} {memory : Nat → κ}
    (hpass : ctrl.dev.pass = none) (hlt : sqid < 2 ^ 16)
    (hunfinished : unfinished ctrl.dev sqid = 0) (hnone : ofSq sqid xs = 0) :
    Exact (nvmevAdminCreateSq ctrl eid sqid cqid qsize memory, xs) where
  tabled := h.tabled
  named := by
    intro q hq
    by_cases heq : q = sqid
    · rw [heq]
      exact hlt
    · simp only [nvmevAdminCreateSq, Function.update_of_ne heq] at hq
      exact h.named q hq
  rings cqid cq hcq := (h.rings cqid cq hcq).congr rfl rfl rfl
  counts := by
    intro q sq hsq
    have hsame : beyondWorkers (nvmevAdminCreateSq ctrl eid sqid cqid qsize memory).dev q sq =
        beyondWorkers ctrl.dev q sq := rfl
    by_cases heq : q = sqid
    · subst heq
      simp only [nvmevAdminCreateSq, Function.update_self, Option.some.injEq] at hsq
      subst hsq
      refine ⟨Int.le_refl 0, ?_⟩
      rw [hsame, beyondWorkers, dispatching_of_none hpass, hunfinished, hnone]
      rfl
    · simp only [nvmevAdminCreateSq, Function.update_of_ne heq] at hsq
      exact h.counts q sq hsq

theorem Exact.admin {eid : Nat} (h : Exact s) (hconforms : Conforms s (.admin eid))
    (hstep : flightStep be s (.admin eid) = .ok s') : Exact s' := by
  obtain ⟨ctrl, xs⟩ := s
  obtain ⟨ctrl', hctrl, hstep⟩ := exists_of_bind_eq_ok hstep
  cases hstep
  rw [ctrlStep] at hctrl
  by_cases hpass : ctrl.dev.pass.isSome
  · rw [if_pos hpass] at hctrl
    cases hctrl
    exact h
  · rw [if_neg hpass] at hctrl
    cases handled_of_procAdminReq hctrl
    have hnone : ctrl.dev.pass = none := by simpa using hpass
    have hfree := hconforms hnone
    change Exact (handleAdminReq ctrl eid, xs)
    cases hrequest : (ctrl.adminQ.nvmeSq eid).request with
    | createSq sqid cqid qsize memory =>
        dsimp only at hfree
        rw [hrequest] at hfree
        rw [handleAdminReq, hrequest]
        exact h.createSq hnone hfree.1 hfree.2.1 hfree.2.2
    | createCq cqid qsize memory =>
        dsimp only at hfree
        rw [hrequest] at hfree
        rw [handleAdminReq, hrequest]
        refine ⟨h.tabled, h.named, ?_, h.counts⟩
        intro q cq hcq
        simp only [nvmevAdminCreateCq] at hcq
        by_cases heq : q = cqid
        · subst heq
          rw [Function.update_self, Option.some.injEq] at hcq
          subst hcq
          refine ringed_new qsize memory ?_ ?_ hfree
          · simp [nvmevAdminCreateCq]
          · simp [nvmevAdminCreateCq]
        · rw [Function.update_of_ne heq] at hcq
          refine (h.rings q cq hcq).congr ?_ ?_ rfl
          · simp [nvmevAdminCreateCq, heq]
          · simp [nvmevAdminCreateCq, heq]
    | deleteCq qid =>
        rw [handleAdminReq, hrequest]
        refine ⟨h.tabled, h.named, ?_, h.counts⟩
        intro q cq hcq
        simp only [nvmevAdminDeleteCq] at hcq
        by_cases heq : q = qid
        · subst heq
          rw [Function.update_self] at hcq
          cases hcq
        · rw [Function.update_of_ne heq] at hcq
          exact (h.rings q cq hcq).congr rfl rfl rfl
    | deleteSq qid =>
        rw [handleAdminReq, hrequest]
        refine ⟨h.tabled, ?_, fun q cq hcq => (h.rings q cq hcq).congr rfl rfl rfl, ?_⟩
        · intro q hq
          simp only [nvmevAdminDeleteSq] at hq
          by_cases heq : q = qid
          · subst heq
            rw [Function.update_self] at hq
            cases hq
          · rw [Function.update_of_ne heq] at hq
            exact h.named q hq
        · intro q sq hsq
          simp only [nvmevAdminDeleteSq] at hsq
          by_cases heq : q = qid
          · subst heq
            rw [Function.update_self] at hsq
            cases hsq
          · rw [Function.update_of_ne heq] at hsq
            exact h.counts q sq hsq
    | abort =>
        rw [handleAdminReq, hrequest]
        exact h
    | other ret result0 result1 =>
        rw [handleAdminReq, hrequest]
        exact ⟨h.tabled, h.named, fun q cq hcq => (h.rings q cq hcq).congr rfl rfl rfl, h.counts⟩

theorem beyondWorkers_lowered {vdev vdev' : NvmevDev μ κ} (hpass : vdev.pass = none)
    (hpass' : vdev'.pass = vdev.pass) (hnr : vdev'.nrIoWorkers = vdev.nrIoWorkers)
    (hworkers : vdev'.ioWorkers = vdev.ioWorkers) (q : Nat) (sq : SubmissionQueue κ)
    (count : Nat) :
    beyondWorkers vdev' q (lowered count sq) = beyondWorkers vdev q sq - count := by
  rw [beyondWorkers, beyondWorkers, unfinished_congr hnr hworkers, dispatching_of_none hpass,
    dispatching_of_none (hpass'.trans hpass)]
  simp only [lowered]
  omega

theorem Exact.procCqDb (h : Exact (ctrl, xs)) (hpass : ctrl.dev.pass = none)
    (hcq : ctrl.dev.cqes cqid = some cq) (hrun : procCqDb ctrl cqid = .ok ctrl') :
    Exact (ctrl',
      release cqid (distance cq.queueSize (ctrl.oldCqDbs cqid) (ctrl.cqDbs cqid)) xs) := by
  have hring := h.rings cqid cq hcq
  have hreleased := hring.queued.ringSlots_map hring.db_lt hring.rung
  have hpopped := hring.queued.pop hring.db_lt hring.rung
  rw [AdminQueues.procCqDb, hcq] at hrun
  dsimp only at hrun hring hreleased hpopped
  split at hrun
  · next hsame =>
    -- nothing was rung
    cases hrun
    rw [hsame, distance_self]
    refine ⟨h.tabled, h.named, ?_, ?_⟩
    · intro q cq' hcq'
      refine (h.rings q cq' hcq').congr rfl rfl ?_
      by_cases heq : q = cqid
      · rw [heq, queueOf_release, List.drop_zero]
      · exact queueOf_release_of_ne heq
    · intro q sq hsq
      have hcount := ofSq_release q cqid 0 xs
      rw [List.take_zero, List.count_nil, Nat.add_zero] at hcount
      rw [hcount]
      exact h.counts q sq hsq
  · obtain ⟨dev, hdev, hrun⟩ := exists_of_bind_eq_ok hrun
    cases hrun
    rw [procIoCq, hcq] at hdev
    dsimp only at hdev
    rw [procIoCqLoop_ring _ (Nat.le_of_lt hring.db_lt) (Nat.le_refl _), ok_bind] at hdev
    cases hdev
    have hsqes : ∀ q, (ringSlots cq.queueSize (ctrl.oldCqDbs cqid) (ctrl.cqDbs cqid)).foldl
        (fun sqes i => countReleased sqes (cq.cq i).sqId) ctrl.dev.sqes q =
        (ctrl.dev.sqes q).map (lowered (((queueOf cqid xs).take
          (distance cq.queueSize (ctrl.oldCqDbs cqid) (ctrl.cqDbs cqid))).count q)) := by
      intro q
      rw [foldl_countReleased, ← hreleased, List.count, List.countP_map]
      rfl
    refine ⟨h.tabled, ?_, ?_, ?_⟩
    · intro q hq
      dsimp only at hq
      rw [hsqes, Option.isSome_map] at hq
      exact h.named q hq
    · intro q cq' hcq'
      dsimp only at hcq'
      by_cases heq : q = cqid
      · subst heq
        rw [Function.update_self, Option.some.injEq] at hcq'
        subst hcq'
        refine ⟨?_, hring.db_lt, ?_⟩
        · simp only [Function.update_self]
          rw [queueOf_release]
          exact hpopped
        · simp only [Function.update_self]
          rw [distance_self]
          exact Nat.zero_le _
      · rw [Function.update_of_ne heq] at hcq'
        refine (h.rings q cq' hcq').congr ?_ rfl (queueOf_release_of_ne heq)
        simp only [Function.update_of_ne heq]
    · intro q sq' hsq'
      dsimp only at hsq'
      rw [hsqes, Option.map_eq_some_iff] at hsq'
      obtain ⟨sq, hsq, rfl⟩ := hsq'
      obtain ⟨hpos, hexact⟩ := h.counts q sq hsq
      have hcount := ofSq_release q cqid
        (distance cq.queueSize (ctrl.oldCqDbs cqid) (ctrl.cqDbs cqid)) xs
      dsimp only at hexact ⊢
      refine ⟨?_, (beyondWorkers_lowered hpass rfl rfl rfl q sq _).trans (by omega)⟩
      rw [beyondWorkers, dispatching_of_none hpass] at hexact
      simp only [lowered]
      omega

theorem Exact.step {event : CtrlEvent κ} (h : Exact s) (hconforms : Conforms s event)
    (hstep : flightStep be s event = .ok s') : Exact s' := by
  cases event with
  | io event => exact h.io hconforms hstep
  | admin eid => exact h.admin hconforms hstep
  | adminWrite eid cmd =>
      cases hstep
      exact ⟨h.tabled, h.named, fun q cq hcq => (h.rings q cq hcq).congr rfl rfl rfl, h.counts⟩
  | ringCq cqid db =>
      cases hstep
      refine ⟨h.tabled, h.named, ?_, h.counts⟩
      intro q cq hcq
      by_cases heq : q = cqid
      · subst heq
        obtain ⟨hdb, hle⟩ := hconforms cq hcq
        refine ⟨(h.rings q cq hcq).queued, ?_, ?_⟩
        · simp only [Function.update_self]
          exact hdb
        · simp only [Function.update_self]
          exact hle
      · refine (h.rings q cq hcq).congr rfl ?_ rfl
        simp only [Function.update_of_ne heq]
  | procCqDb cqid =>
      obtain ⟨ctrl, xs⟩ := s
      obtain ⟨ctrl', hctrl, hstep⟩ := exists_of_bind_eq_ok hstep
      cases hstep
      rw [ctrlStep] at hctrl
      rw [record]
      dsimp only
      by_cases hpass : ctrl.dev.pass.isSome
      · rw [if_pos hpass] at hctrl ⊢
        cases hctrl
        exact h
      · rw [if_neg hpass] at hctrl ⊢
        cases hcq : ctrl.dev.cqes cqid with
        | none =>
            rw [AdminQueues.procCqDb, hcq] at hctrl
            cases hctrl
            exact h
        | some cq => exact h.procCqDb (by simpa using hpass) hcq hctrl

end Steps

/-- The counter of a submission queue: with the command the dispatcher has not counted yet
it is the number of commands that workers still have to finish and of completions that no
doorbell has released. Not being negative, it has not wrapped where it is unsigned. -/
theorem in_flight_exact (be : Backend μ κ) {start : Controller μ κ} (hstart : Started start.dev)
    (hsqes : ∀ q, start.dev.sqes q = none) (hcqes : ∀ q, start.dev.cqes q = none)
    {s : Controller μ κ × List Entry}
    (hrun : ReflTransGen (fun s s' => ∃ event, Conforms s event ∧
      flightStep be s event = .ok s') (start, []) s)
    {q : Nat} {sq : SubmissionQueue κ} (hsq : s.1.dev.sqes q = some sq) :
    0 ≤ sq.stat.nrInFlight ∧
      sq.stat.nrInFlight + dispatching s.1.dev q = unfinished s.1.dev q + ofSq q s.2 := by
  have hexact : Exact s := by
    clear hsq
    induction hrun with
    | refl =>
        refine ⟨?_, ?_, ?_, ?_⟩
        · intro id _
          rw [hstart.workers]
          exact held_init _
        · intro q hq
          rw [hsqes] at hq
          cases hq
        · intro q cq hcq
          rw [hcqes] at hcq
          cases hcq
        · intro q sq hsq
          rw [hsqes] at hsq
          cases hsq
    | tail _ hstep ih =>
        obtain ⟨event, hconforms, hstep⟩ := hstep
        exact ih.step hconforms hstep
  obtain ⟨hpos, hcounted⟩ := hexact.counts q sq hsq
  rw [beyondWorkers] at hcounted
  exact ⟨hpos, by omega⟩

section Decided

instance (vdev : NvmevDev μ κ) (event : Event κ) : Decidable (RoomFor vdev event) :=
  match event with
  | .procIo _ (some _) =>
      decidable_of_iff (∀ p ∈ vdev.pass, p.turn = none → p.seq < p.numProc →
        ∀ id ∈ (getIoWorker vdev p.sqid).toOption, HasSlot (vdev.ioWorkers id)) (by
          refine forall_congr' fun p => forall_congr' fun _ => forall_congr' fun _ =>
            forall_congr' fun _ => forall_congr' fun id => ?_
          cases getIoWorker vdev p.sqid <;> simp [Except.toOption])
  | .procIo _ none => .isTrue trivial
  | .hostWrite _ _ _ => .isTrue trivial
  | .hostRing _ _ => .isTrue trivial
  | .beginPass _ => .isTrue trivial
  | .internal _ _ _ _ => .isTrue trivial
  | .reclaim => .isTrue trivial
  | .worker _ _ => .isTrue trivial

instance (s : Controller μ κ × List Entry) (event : Event κ) : Decidable (RoomToPost s event) :=
  match event with
  | .worker id now =>
      inferInstanceAs (Decidable (∀ w ∈ completes s.1.dev id now, ∀ cq ∈ s.1.dev.cqes w.cqid,
        (queueOf w.cqid s.2).length < cq.queueSize))
  | .procIo _ _ => .isTrue trivial
  | .hostWrite _ _ _ => .isTrue trivial
  | .hostRing _ _ => .isTrue trivial
  | .beginPass _ => .isTrue trivial
  | .internal _ _ _ _ => .isTrue trivial
  | .reclaim => .isTrue trivial

instance (s : Controller μ κ × List Entry) (request : AdminRequest κ) :
    Decidable (NumberFree s request) :=
  match request with
  | .createSq sqid _ _ _ =>
      inferInstanceAs (Decidable (sqid < 2 ^ 16 ∧ unfinished s.1.dev sqid = 0 ∧ ofSq sqid s.2 = 0))
  | .createCq cqid _ _ => inferInstanceAs (Decidable (queueOf cqid s.2 = []))
  | .deleteCq _ => .isTrue trivial
  | .deleteSq _ => .isTrue trivial
  | .abort => .isTrue trivial
  | .other _ _ _ => .isTrue trivial

instance (s : Controller μ κ × List Entry) (event : CtrlEvent κ) : Decidable (Conforms s event) :=
  match event with
  | .io event => inferInstanceAs (Decidable (RoomFor s.1.dev event ∧ RoomToPost s event))
  | .admin eid =>
      inferInstanceAs (Decidable (s.1.dev.pass = none →
        NumberFree s (s.1.adminQ.nvmeSq eid).request))
  | .ringCq cqid db =>
      inferInstanceAs (Decidable (∀ cq ∈ s.1.dev.cqes cqid, db < cq.queueSize ∧
        distance cq.queueSize (s.1.oldCqDbs cqid) db ≤ (queueOf cqid s.2).length))
  | .adminWrite _ _ => .isTrue trivial
  | .procCqDb _ => .isTrue trivial

end Decided

/-- Two submission queues share a completion queue. Two commands of the first and one of
the second are dispatched; two of them complete, and the host releases one completion. -/
def sharedQueue : List (CtrlEvent Nat) :=
  [.adminWrite 0 ⟨0, .createCq 1 3 fun _ => ⟨0, 0, 0, 0, 0, 0⟩⟩, .admin 0,
    .adminWrite 1 ⟨1, .createSq 1 1 3 id⟩, .admin 1,
    .adminWrite 2 ⟨2, .createSq 2 1 3 id⟩, .admin 2,
    .io (.hostRing 1 2), .io (.beginPass 1),
    .io (.procIo 0 (some ⟨0, 5, 0⟩)), .io .reclaim, .io .reclaim,
    .io (.procIo 1 (some ⟨0, 50, 0⟩)), .io .reclaim, .io .reclaim, .io (.procIo 0 none),
    .io (.hostRing 2 1), .io (.beginPass 2),
    .io (.procIo 7 (some ⟨0, 5, 0⟩)), .io .reclaim, .io .reclaim, .io (.procIo 0 none),
    .io (.worker 0 10), .io (.worker 0 10), .io (.worker 0 10),
    .ringCq 1 1, .procCqDb 1]

theorem in_flight_exact_shared :
    ∃ (s : Controller Unit Nat × List Entry) (sq : SubmissionQueue Nat),
      s.1.dev.sqes 1 = some sq ∧ sq.stat.nrDispatched = 2 ∧ sq.stat.nrInFlight = 1 ∧
        s.1.dev.posted.length = 2 ∧ 0 ≤ sq.stat.nrInFlight ∧
        sq.stat.nrInFlight + dispatching s.1.dev 1 = unfinished s.1.dev 1 + ofSq 1 s.2 := by
  let careful (s : Controller Unit Nat × List Entry) (event : CtrlEvent Nat) :=
    if Conforms s event then flightStep namedBackend s event else .error (.bugOn .fillCqResult)
  let test (s : Controller Unit Nat × List Entry) : Bool :=
    (s.1.dev.sqes 1).any fun sq =>
      sq.stat.nrDispatched == 2 && sq.stat.nrInFlight == 1 && s.1.dev.posted.length == 2
  obtain ⟨s, hrun, htest⟩ :
      ∃ s, sharedQueue.foldlM careful (bareController, []) = .ok s ∧ test s = true :=
    exists_of_returns (by decide +kernel)
  simp only [test, Option.any_eq_true, Bool.and_eq_true, beq_iff_eq] at htest
  obtain ⟨sq, hsq, ⟨hdispatched, hcounter⟩, hposted⟩ := htest
  have hstart : Started bareController.dev := ⟨fun _ => rfl, rfl, rfl, rfl⟩
  have hreach := reflTransGen_of_foldlM (R := fun s s' => ∃ event, Conforms s event ∧
    flightStep namedBackend s event = .ok s') sharedQueue (fun event _ s s' hstep => by
      simp only [careful] at hstep
      split at hstep
      · next hconforms => exact ⟨event, hconforms, hstep⟩
      · cases hstep) hrun
  exact ⟨s, sq, hsq, hdispatched, hcounter, hposted,
    in_flight_exact namedBackend hstart (fun _ => rfl) (fun _ => rfl) hreach hsq⟩

end NvmeVirt.InFlight
