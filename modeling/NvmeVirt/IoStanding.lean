import Mathlib.Data.List.TakeWhile
import NvmeVirt.IoSteps

namespace NvmeVirt.IoStanding

open IndexChain
open IoDispatch
open IoSteps
open IoTable
open IoWorkers
open WriteBuffer

section Standing

variable {worker worker' : IoWorker} {free busy : List Nat}

/-- Where the thread of the worker can stand: between two passes, on the busy
list, or on a completed entry that was taken off it with nothing but completed
entries behind. -/
def Standing (worker : IoWorker) (free busy : List Nat) : Prop :=
  worker.curr = noEntry ∨ worker.curr ∈ busy ∨
    ∃ before after, free = before ++ worker.curr :: after ∧
      ∀ e ∈ worker.curr :: after, (body worker e).isCompleted = true

theorem Standing.open_mem (h : Standing worker free busy) (hcurr : worker.curr ≠ noEntry)
    (hopen : (worker.workQueue worker.curr).isCompleted = false) : worker.curr ∈ busy := by
  rcases h with h | h | ⟨before, after, -, hdone⟩
  · exact absurd h hcurr
  · exact h
  · have hcompleted : (worker.workQueue worker.curr).isCompleted = true :=
      hdone worker.curr List.mem_cons_self
    rw [hopen] at hcompleted
    cases hcompleted

theorem next_of_split {xs before after : List Nat} {a e : Nat}
    (h : Segment worker.next a xs noEntry) (hxs : xs = before ++ e :: after) :
    (worker.next e = noEntry ∧ after = []) ∨
      ∃ after', after = worker.next e :: after' := by
  subst hxs
  obtain ⟨b, -, hb⟩ := segment_append.1 h
  obtain ⟨-, hb⟩ := hb
  cases after with
  | nil => exact .inl ⟨hb, rfl⟩
  | cons y ys =>
      obtain ⟨hy, -⟩ := hb
      exact .inr ⟨ys, by rw [hy]⟩

theorem Standing.next (h : Standing worker free busy) (hchains : Chains worker free busy)
    (hcurr : worker.curr ≠ noEntry) (hnext : worker'.curr = worker.next worker.curr)
    (hdone : ∀ e ∈ free, (body worker e).isCompleted = true →
      (body worker' e).isCompleted = true) : Standing worker' free busy := by
  rcases h with h | h | ⟨before, after, hfree, hcompleted⟩
  · exact absurd h hcurr
  · obtain ⟨before, after, hbusy⟩ := List.append_of_mem h
    rcases next_of_split hchains.busyLinks hbusy with ⟨hlast, -⟩ | ⟨after', hafter⟩
    · exact .inl (hnext.trans hlast)
    · right; left
      rw [hnext, hbusy, hafter]
      simp
  · rcases next_of_split hchains.freeLinks hfree with ⟨hlast, -⟩ | ⟨after', hafter⟩
    · exact .inl (hnext.trans hlast)
    · right; right
      refine ⟨before ++ [worker.curr], after', ?_, ?_⟩
      · rw [hfree, hafter, hnext]
        simp
      · intro e he
        rw [hnext, ← hafter] at he
        refine hdone e ?_ (hcompleted e (List.mem_cons_of_mem _ he))
        rw [hfree]
        simp [he]

theorem Standing.enqueued {r : Request} {entry : Nat} {rest before after : List Nat}
    (h : Standing worker free busy) (hchains : Chains worker free busy)
    (hdone : Enqueued r worker worker' free busy entry rest before after) :
    Standing worker' rest (before ++ entry :: after) := by
  rw [Standing, hdone.curr]
  rcases h with h | h | ⟨front, back, hfree, hcompleted⟩
  · exact .inl h
  · right; left
    rw [hdone.busy_eq] at h
    simp only [List.mem_append, List.mem_cons] at h ⊢
    tauto
  · right
    rw [hdone.free_eq] at hfree
    cases front with
    | nil =>
        rw [List.nil_append, List.cons.injEq] at hfree
        left
        rw [← hfree.1]
        simp
    | cons f front =>
        rw [List.cons_append, List.cons.injEq] at hfree
        obtain ⟨rfl, hrest⟩ := hfree
        right
        refine ⟨front, back, hrest, ?_⟩
        intro e he
        have hmem : e ∈ rest := by
          rw [hrest]
          simp [he]
        have hne : e ≠ entry := by
          rintro rfl
          have hnodup := hchains.nodup
          rw [hdone.free_eq, List.cons_append, List.nodup_cons] at hnodup
          exact hnodup.1 (List.mem_append_left _ hmem)
        rw [hdone.body, Function.update_of_ne hne]
        exact hcompleted e he

theorem Standing.reclaimed (h : Standing worker free busy)
    (hbody : body worker' = body worker) (hcurr : worker'.curr = worker.curr) :
    Standing worker' (free ++ busy.takeWhile worker.reclaimable)
      (busy.dropWhile worker.reclaimable) := by
  rw [Standing, hcurr, hbody]
  have htaken : ∀ e ∈ busy.takeWhile worker.reclaimable,
      (body worker e).isCompleted = true := by
    intro e he
    have hreclaim := List.mem_takeWhile_imp he
    simp only [IoWorker.reclaimable, Bool.and_eq_true] at hreclaim
    exact hreclaim.1.1
  rcases h with h | h | ⟨before, after, hfree, hcompleted⟩
  · exact .inl h
  · right
    rw [← List.takeWhile_append_dropWhile (p := worker.reclaimable) (l := busy),
      List.mem_append] at h
    rcases h with h | h
    · right
      obtain ⟨before, after, hsplit⟩ := List.append_of_mem h
      refine ⟨free ++ before, after, by rw [hsplit]; simp, ?_⟩
      intro e he
      exact htaken e (by rw [hsplit]; simp [he])
    · exact .inl h
  · right; right
    refine ⟨before, after ++ busy.takeWhile worker.reclaimable, by simp [hfree], ?_⟩
    intro e he
    rw [← List.cons_append, List.mem_append] at he
    rcases he with he | he
    · exact hcompleted e he
    · exact htaken e he

end Standing

theorem copied_isCompleted (w : IoWork) (moved : Nat × Nat) :
    (copied w moved).isCompleted = w.isCompleted := by
  obtain ⟨status, result0, hcopied⟩ := copied_eq w moved
  rw [hcopied]

theorem copied_isCopied (w : IoWork) (moved : Nat × Nat) : (copied w moved).isCopied = true := by
  obtain ⟨status, result0, hcopied⟩ := copied_eq w moved
  rw [hcopied]

theorem ioWorkerStep_standing {worker : IoWorker} {free busy : List Nat}
    (h : Standing worker free busy) (hchains : Chains worker free busy) (now : Nat)
    (moved : Nat × Nat) : Standing (ioWorkerStep worker now moved).1 free busy := by
  have hstored : ∀ (w : IoWork) (e : Nat), worker.curr ∈ busy → e ∈ free →
      body (worker.store worker.curr w) e = body worker e := by
    intro w e hbusy he
    rw [body_store, Function.update_of_ne]
    rintro rfl
    exact (List.nodup_append.1 hchains.nodup).2.2 _ he _ hbusy rfl
  have hcases := ioWorkerStep_cases worker now moved
  generalize ioWorkerStep worker now moved = result at hcases
  cases hcases with
  | restart hcurr =>
      cases busy with
      | nil => exact .inl hchains.busyLinks
      | cons e busy =>
          right; left
          exact List.mem_cons.2 (.inl hchains.busyLinks.1)
  | skip hcurr hdone =>
      exact h.next hchains hcurr rfl fun e _ hcompleted => hcompleted
  | wait w hcurr hopen hw hdue =>
      subst hw
      refine h.next hchains hcurr (copied_next _ moved) ?_
      intro e he hcompleted
      have heq := hstored (copied (worker.workQueue worker.curr) moved) e
        (h.open_mem hcurr hopen) he
      exact (congrArg IoWork.isCompleted heq).trans hcompleted
  | complete w hcurr hopen hw hdue =>
      subst hw
      refine h.next hchains hcurr (copied_next _ moved) ?_
      intro e he hcompleted
      have heq := hstored
        { copied (worker.workQueue worker.curr) moved with isCompleted := true } e
        (h.open_mem hcurr hopen) he
      exact (congrArg IoWork.isCompleted heq).trans hcompleted

/-- The table is in order and every entry on its busy list satisfies `P`. -/
def Held (P : IoWork → Prop) (worker : IoWorker) : Prop :=
  ∃ free busy, Chains worker free busy ∧ Standing worker free busy ∧
    ∀ e ∈ busy, P (body worker e)

section Held

variable {P Q : IoWork → Prop} {worker worker' : IoWorker}

theorem held_init (P : IoWork → Prop) : Held P ioWorkerInit :=
  ⟨_, _, ioWorkerInit_chains, .inl rfl, by simp⟩

theorem Held.imp_busy (h : Held P worker)
    (himp : ∀ e ∈ busyList worker, P (body worker e) → Q (body worker e)) : Held Q worker := by
  obtain ⟨free, busy, hchains, hstanding, hP⟩ := h
  rw [hchains.busyList_eq] at himp
  exact ⟨free, busy, hchains, hstanding, fun e he => himp e he (hP e he)⟩

theorem Held.imp (h : Held P worker) (himp : ∀ w, P w → Q w) : Held Q worker :=
  h.imp_busy fun e _ => himp (body worker e)

theorem Held.busyList (h : Held P worker) {e : Nat} (he : e ∈ busyList worker) :
    P (body worker e) := by
  obtain ⟨free, busy, hchains, -, hP⟩ := h
  rw [hchains.busyList_eq] at he
  exact hP e he

theorem Held.curr (h : Held P worker) (hcurr : worker.curr ≠ noEntry)
    (hopen : (worker.workQueue worker.curr).isCompleted = false) :
    P (body worker worker.curr) ∧ worker.curr ∈ IoTable.busyList worker := by
  obtain ⟨free, busy, hchains, hstanding, hP⟩ := h
  have hmem := hstanding.open_mem hcurr hopen
  rw [hchains.busyList_eq]
  exact ⟨hP _ hmem, hmem⟩

theorem Held.enqueue {r : Request} (h : Held P worker) (hrun : enqueue r worker = .ok worker')
    (hnew : ∀ w, P { r.fill w with next := 0, prev := 0 }) : Held P worker' := by
  obtain ⟨free, busy, hchains, hstanding, hP⟩ := h
  by_cases hslot : HasSlot worker
  · obtain ⟨worker'', entry, rest, before, after, hrun', hdone⟩ := enqueue_spec hchains r hslot
    rw [hrun] at hrun'
    cases hrun'
    refine ⟨rest, before ++ entry :: after, hdone.chains, hstanding.enqueued hchains hdone, ?_⟩
    intro e he
    rw [hdone.body]
    by_cases heq : e = entry
    · subst heq
      rw [Function.update_self]
      exact hnew _
    · rw [Function.update_of_ne heq]
      refine hP e ?_
      rw [hdone.busy_eq]
      simp only [List.mem_append, List.mem_cons] at he ⊢
      tauto
  · rw [enqueue_refused r hslot] at hrun
    cases hrun
    exact ⟨free, busy, hchains, hstanding, hP⟩

theorem Held.reclaim (h : Held P worker) (hrun : reclaimCompletedReqs worker = .ok worker') :
    Held P worker' := by
  obtain ⟨free, busy, hchains, hstanding, hP⟩ := h
  obtain ⟨worker'', hrun', hchains', hbody, -, hcurr⟩ := reclaimCompletedReqs_spec hchains
  rw [hrun] at hrun'
  cases hrun'
  refine ⟨_, _, hchains', hstanding.reclaimed hbody hcurr, ?_⟩
  intro e he
  rw [hbody]
  exact hP e (List.dropWhile_subset _ he)

theorem body_copied (w : IoWork) (moved : Nat × Nat) :
    { copied w moved with next := 0, prev := 0 } =
      copied { w with next := 0, prev := 0 } moved := by
  cases hcopied : w.isCopied <;> cases hinternal : w.isInternal <;>
    simp [copied, hcopied, hinternal]

theorem Held.work (h : Held P worker) (now : Nat) (moved : Nat × Nat)
    (hcopied : ∀ w, P w → w.isCompleted = false → P (copied w moved))
    (hdone : ∀ w, P w → w.isCopied = true → w.isCompleted = false → w.nsecsTarget ≤ now →
      P { w with isCompleted := true }) :
    Held P (ioWorkerStep worker now moved).1 := by
  obtain ⟨free, busy, hchains, hstanding, hP⟩ := h
  refine ⟨free, busy, ioWorkerStep_chains hchains now moved,
    ioWorkerStep_standing hstanding hchains now moved, ?_⟩
  have hcases := ioWorkerStep_cases worker now moved
  generalize ioWorkerStep worker now moved = result at hcases
  intro e he
  cases hcases with
  | restart hcurr => exact hP e he
  | skip hcurr hcompleted => exact hP e he
  | wait w hcurr hopen hw hdue =>
      have hmem := hstanding.open_mem hcurr hopen
      have hbody : body (worker.store worker.curr w) e = _ :=
        congrFun (body_store worker worker.curr w) e
      refine (congrArg P hbody).mpr ?_
      by_cases heq : e = worker.curr
      · subst heq
        rw [Function.update_self, hw, body_copied]
        exact hcopied _ (hP _ hmem) hopen
      · rw [Function.update_of_ne heq]
        exact hP e he
  | complete w hcurr hopen hw hdue =>
      have hmem := hstanding.open_mem hcurr hopen
      have hbody : body (worker.store worker.curr { w with isCompleted := true }) e = _ :=
        congrFun (body_store worker worker.curr { w with isCompleted := true }) e
      refine (congrArg P hbody).mpr ?_
      by_cases heq : e = worker.curr
      · subst heq
        have hbodyCopied := body_copied (worker.workQueue worker.curr) moved
        rw [Function.update_self]
        have hmoved := hcopied _ (hP _ hmem) hopen
        have hnext := hdone _ hmoved (copied_isCopied _ moved)
          (by rw [copied_isCompleted]; exact hopen) (by
          rw [hw] at hdue
          have htarget := congrArg IoWork.nsecsTarget hbodyCopied
          exact htarget ▸ hdue)
        rw [body, ← hbodyCopied] at hnext
        rw [hw]
        exact hnext
      · rw [Function.update_of_ne heq]
        exact hP e he

end Held

/-- A property of the entries on the busy list of each worker that every step keeps. -/
theorem step_held_at {μ κ : Type} {be : Backend μ κ} {vdev vdev' : NvmevDev μ κ}
    {event : Event κ} {P : Nat → IoWork → Prop} (hstep : step be vdev event = .ok vdev')
    (h : ∀ id < vdev.nrIoWorkers, Held (P id) (vdev.ioWorkers id))
    (hhost : ∀ cmd ret p sq, event = .procIo cmd (some ret) → vdev.pass = some p →
      p.turn = none → p.seq < p.numProc → vdev.sqes p.sqid = some sq →
      ∀ id, getIoWorker vdev p.sqid = .ok id →
      ∀ w, P id { (hostRequest be vdev p sq cmd ret).fill w with next := 0, prev := 0 })
    (hinternal : ∀ id sqid nsecsTarget writeBuffer buffsToRelease w,
      P id { (Request.internal sqid nsecsTarget writeBuffer buffsToRelease).fill w with
        next := 0, prev := 0 })
    (hcopied : ∀ id w moved, P id w → w.isCompleted = false → P id (copied w moved))
    (hdone : ∀ id w, P id w → w.isCopied = true → w.isCompleted = false →
      P id { w with isCompleted := true }) :
    vdev'.nrIoWorkers = vdev.nrIoWorkers ∧
      ∀ id < vdev'.nrIoWorkers, Held (P id) (vdev'.ioWorkers id) := by
  have hupdate : ∀ (id : Nat) (worker : IoWorker), id < vdev.nrIoWorkers →
      (Held (P id) (vdev.ioWorkers id) → Held (P id) worker) →
      ∀ i < vdev.nrIoWorkers, Held (P i) (Function.update vdev.ioWorkers id worker i) := by
    intro id worker hid hworker i hi
    by_cases heq : i = id
    · subst heq
      rw [Function.update_self]
      exact hworker (h i hi)
    · rw [Function.update_of_ne heq]
      exact h i hi
  have hwork : ∀ (id now : Nat) (moved : Nat × Nat), id < vdev.nrIoWorkers →
      ∀ i < vdev.nrIoWorkers, Held (P i) (Function.update vdev.ioWorkers id
        (ioWorkerStep (vdev.ioWorkers id) now moved).1 i) := by
    intro id now moved hid
    refine hupdate id _ hid fun hold => hold.work now moved ?_ ?_
    · exact fun w hw hopen => hcopied id w moved hw hopen
    · exact fun w hw hcopied hopen _ => hdone id w hw hcopied hopen
  cases step_result hstep with
  | accept cmd ret p sq id turns worker pass present turn seq hid run =>
      exact ⟨rfl, hupdate id worker (getIoWorker_lt hid) fun hold =>
        hold.enqueue run (hhost cmd ret p sq rfl pass turn seq present id hid)⟩
  | schedule sqid nsecsTarget writeBuffer buffsToRelease id turns worker hid run =>
      exact ⟨rfl, hupdate id worker (getIoWorker_lt hid) fun hold =>
        hold.enqueue run (hinternal id sqid nsecsTarget writeBuffer buffsToRelease)⟩
  | reclaim p id worker pass turn lt run =>
      exact ⟨rfl, hupdate id worker lt fun hold => hold.reclaim run⟩
  | work id now medium moved lt perform effect => exact ⟨rfl, hwork id now moved lt⟩
  | post id now medium moved w cq lt perform effect present =>
      exact ⟨rfl, hwork id now moved lt⟩
  | release id now medium moved writeBuffer buffsToRelease lt perform effect =>
      exact ⟨rfl, hwork id now moved lt⟩
  | _ => exact ⟨rfl, h⟩

theorem step_held {μ κ : Type} {be : Backend μ κ} {vdev vdev' : NvmevDev μ κ}
    {event : Event κ} {P : IoWork → Prop} (hstep : step be vdev event = .ok vdev')
    (h : ∀ id < vdev.nrIoWorkers, Held P (vdev.ioWorkers id))
    (hhost : ∀ cmd ret p sq, event = .procIo cmd (some ret) → vdev.pass = some p →
      p.turn = none → p.seq < p.numProc → vdev.sqes p.sqid = some sq →
      ∀ w, P { (hostRequest be vdev p sq cmd ret).fill w with next := 0, prev := 0 })
    (hinternal : ∀ sqid nsecsTarget writeBuffer buffsToRelease w,
      P { (Request.internal sqid nsecsTarget writeBuffer buffsToRelease).fill w with
        next := 0, prev := 0 })
    (hcopied : ∀ w moved, P w → w.isCompleted = false → P (copied w moved))
    (hdone : ∀ w, P w → w.isCompleted = false → P { w with isCompleted := true }) :
    vdev'.nrIoWorkers = vdev.nrIoWorkers ∧
      ∀ id < vdev'.nrIoWorkers, Held P (vdev'.ioWorkers id) :=
  step_held_at hstep h
    (fun cmd ret p sq hevent hpass hturn hseq hsq _ _ =>
      hhost cmd ret p sq hevent hpass hturn hseq hsq)
    (fun _ => hinternal) (fun _ => hcopied) (fun _ w hw _ hopen => hdone w hw hopen)

end NvmeVirt.IoStanding
