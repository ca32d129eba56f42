import NvmeVirt.IoDelivery

namespace NvmeVirt.IoJournal

open FaultOutcome
open IndexChain
open IoDelivery
open IoDispatch
open IoSteps
open IoTable
open IoWorkers
open WriteBuffer

variable {μ κ : Type}

/-- One stay of a table entry on the busy list of its worker, named by the step
that put it there. -/
structure Placement where
  step : Nat
  worker : Nat
  entry : Nat
deriving DecidableEq, Repr

inductive Deed (μ : Type) where
  /-- The entry, as filled in, appears on the busy list. -/
  | place (p : Placement) (w : IoWork)
  /-- The worker moves the data; the medium before and after. -/
  | transfer (p : Placement) (before after : μ)
  /-- The worker posts the completion or releases the buffer. -/
  | finish (p : Placement) (effect : Effect)
  /-- The entry disappears from the busy list. -/
  | remove (p : Placement)

namespace Deed

def placement : Deed μ → Placement
  | place p _ => p
  | transfer p _ _ => p
  | finish p _ => p
  | remove p => p

def placed? : Deed μ → Option Placement
  | place p _ => some p
  | _ => none

def transferred? : Deed μ → Option Placement
  | transfer p _ _ => some p
  | _ => none

def finished? : Deed μ → Option Placement
  | finish p _ => some p
  | _ => none

def posted? : Deed μ → Option IoWork
  | finish _ (.fillCqResult w) => some w
  | _ => none

end Deed

/-- The journal; `since` tells for each worker and table entry the step that
last put it on the busy list. -/
structure Journal (μ : Type) where
  time : Nat
  since : Nat → Nat → Nat
  deeds : List (Deed μ)

def Journal.empty : Journal μ where
  time := 0
  since _ _ := 0
  deeds := []

def Journal.placement (j : Journal μ) (id e : Nat) : Placement :=
  ⟨j.since id e, id, e⟩

/-- What is on the busy list of `worker` and not on that of `other`. -/
def onlyIn (worker other : IoWorker) : List Nat :=
  (busyList worker).filter fun e => e ∉ busyList other

def placeDeeds (j : Journal μ) (vdev vdev' : NvmevDev μ κ) (id : Nat) : List (Deed μ) :=
  (onlyIn (vdev'.ioWorkers id) (vdev.ioWorkers id)).map fun e =>
    .place ⟨j.time, id, e⟩ ((vdev'.ioWorkers id).workQueue e)

def removeDeeds (j : Journal μ) (vdev vdev' : NvmevDev μ κ) (id : Nat) : List (Deed μ) :=
  (onlyIn (vdev.ioWorkers id) (vdev'.ioWorkers id)).map fun e =>
    .remove (j.placement id e)

/-- What the thread of worker `id` does outside its table in its next step. -/
def workDeeds (be : Backend μ κ) (j : Journal μ) (vdev : NvmevDev μ κ) (id now : Nat) :
    List (Deed μ) :=
  match performIo be vdev id with
  | .error _ => []
  | .ok (medium, moved) =>
      let worker := vdev.ioWorkers id
      let p := j.placement id worker.curr
      let transfers := if worker.transfers then [.transfer p vdev.medium medium] else []
      match (ioWorkerStep worker now moved).2 with
      | none => transfers
      | some effect => .finish p effect :: transfers

def eventDeeds (be : Backend μ κ) (j : Journal μ) (vdev : NvmevDev μ κ) :
    Event κ → List (Deed μ)
  | .worker id now => if id < vdev.nrIoWorkers then workDeeds be j vdev id now else []
  | _ => []

/-- The journal after a step that took `vdev` to `vdev'`. -/
def Journal.record (be : Backend μ κ) (j : Journal μ) (vdev : NvmevDev μ κ)
    (event : Event κ) (vdev' : NvmevDev μ κ) : Journal μ where
  time := j.time + 1
  since id e :=
    if e ∈ onlyIn (vdev'.ioWorkers id) (vdev.ioWorkers id) then j.time else j.since id e
  deeds :=
    (List.range vdev.nrIoWorkers).flatMap (placeDeeds j vdev vdev') ++
      ((List.range vdev.nrIoWorkers).flatMap (removeDeeds j vdev vdev') ++
        (eventDeeds be j vdev event ++ j.deeds))

def tracedStep (be : Backend μ κ) (traced : NvmevDev μ κ × Journal μ) (event : Event κ) :
    Except Fault (NvmevDev μ κ × Journal μ) := do
  let vdev' ← step be traced.1 event
  return (vdev', traced.2.record be traced.1 event vdev')

def tracedRun (be : Backend μ κ) (start : NvmevDev μ κ) (events : List (Event κ)) :
    Except Fault (NvmevDev μ κ × Journal μ) :=
  events.foldlM (tracedStep be) (start, .empty)

def placements (deeds : List (Deed μ)) : List Placement := deeds.filterMap Deed.placed?

def transfers (deeds : List (Deed μ)) : List Placement := deeds.filterMap Deed.transferred?

def finishes (deeds : List (Deed μ)) : List Placement := deeds.filterMap Deed.finished?

/-- The request an entry carries, apart from its links and its progress. -/
def request (w : IoWork) : IoWork :=
  { w with
    isCopied := false
    isCompleted := false
    status := 0
    result0 := 0
    next := 0
    prev := 0 }

/-- What must have happened before a deed, and what must not. -/
def Justified (past : List (Deed μ)) : Deed μ → Prop
  | .place p _ => p ∉ placements past
  | .transfer p _ _ =>
      p ∉ transfers past ∧ ∃ w, .place p w ∈ past ∧ w.isInternal = false
  | .finish p (.fillCqResult w') =>
      p ∉ finishes past ∧ p ∈ transfers past ∧
        ∃ w, .place p w ∈ past ∧ w.isInternal = false ∧ request w' = request w
  | .finish p (.bufferRelease writeBuffer buffsToRelease) =>
      p ∉ finishes past ∧
        ∃ w, .place p w ∈ past ∧ w.isInternal = true ∧
          writeBuffer = w.writeBuffer ∧ buffsToRelease = w.buffsToRelease
  | .remove p => p ∈ finishes past

def WellOrdered : List (Deed μ) → Prop
  | [] => True
  | d :: past => Justified past d ∧ WellOrdered past

def Threads (m : μ) : List (Deed μ) → μ → Prop
  | [], m' => m' = m
  | .transfer _ before after :: past, m' => m' = after ∧ Threads m past before
  | _ :: past, m' => Threads m past m'

section Histories

variable {m m' : μ} {xs ys : List (Deed μ)}

theorem wellOrdered_append :
    WellOrdered (xs ++ ys) ↔
      (∀ later d past, xs = later ++ d :: past → Justified (past ++ ys) d) ∧
        WellOrdered ys := by
  induction xs with
  | nil => simp
  | cons x xs ih =>
      rw [List.cons_append, WellOrdered, ih]
      constructor
      · rintro ⟨hx, hxs, hys⟩
        refine ⟨?_, hys⟩
        rintro (_ | ⟨z, later⟩) d past heq
        · rw [List.nil_append, List.cons.injEq] at heq
          rw [← heq.1, ← heq.2]
          exact hx
        · rw [List.cons_append, List.cons.injEq] at heq
          exact hxs later d past heq.2
      · rintro ⟨hxs, hys⟩
        exact ⟨hxs [] x xs rfl, fun later d past heq => hxs (x :: later) d past (by simp [heq]),
          hys⟩

theorem WellOrdered.justified (h : WellOrdered xs) {later past : List (Deed μ)}
    {d : Deed μ} (heq : xs = later ++ d :: past) : Justified past d := by
  subst heq
  exact (wellOrdered_append.1 h).2.1

theorem WellOrdered.extend (h : WellOrdered ys)
    (hnew : ∀ later d past, xs = later ++ d :: past → Justified (past ++ ys) d) :
    WellOrdered (xs ++ ys) :=
  wellOrdered_append.2 ⟨hnew, h⟩

theorem threads_append :
    Threads m (xs ++ ys) m' ↔ ∃ between, Threads m ys between ∧ Threads between xs m' := by
  induction xs generalizing m' with
  | nil => simp [Threads]
  | cons x xs ih =>
      cases x <;> simp only [List.cons_append, Threads, ih]
      constructor
      · rintro ⟨rfl, between, hys, hxs⟩
        exact ⟨between, hys, rfl, hxs⟩
      · rintro ⟨between, hys, rfl, hxs⟩
        exact ⟨rfl, between, hys, hxs⟩

/-- Whatever is observed of the medium is as before, or as the last transfer
that changed it left it. -/
theorem Threads.observe {γ : Type} (f : μ → γ) (h : Threads m xs m') :
    f m' = f m ∨ ∃ p before after, .transfer p before after ∈ xs ∧
      f before ≠ f after ∧ f m' = f after := by
  induction xs generalizing m' with
  | nil => exact .inl (congrArg f h)
  | cons x xs ih =>
      cases x with
      | transfer p before after =>
          obtain ⟨rfl, h⟩ := h
          by_cases hsame : f before = f m'
          · rcases ih h with hold | ⟨q, b, a, hmem, hne, heq⟩
            · exact .inl (hsame.symm.trans hold)
            · exact .inr ⟨q, b, a, List.mem_cons_of_mem _ hmem, hne, hsame.symm.trans heq⟩
          · exact .inr ⟨p, before, m', List.mem_cons_self, hsame, rfl⟩
      | _ =>
          rcases ih h with hold | ⟨q, b, a, hmem, hne, heq⟩
          · exact .inl hold
          · exact .inr ⟨q, b, a, List.mem_cons_of_mem _ hmem, hne, heq⟩

theorem mem_transfers {p : Placement} :
    p ∈ transfers xs ↔ ∃ before after, .transfer p before after ∈ xs := by
  have hd : ∀ d : Deed μ, d.transferred? = some p ↔ ∃ b a, d = .transfer p b a := by
    intro d
    cases d <;> simp [Deed.transferred?]
  simp only [transfers, List.mem_filterMap, hd]
  grind

theorem mem_finishes {p : Placement} :
    p ∈ finishes xs ↔ ∃ effect, .finish p effect ∈ xs := by
  have hd : ∀ d : Deed μ, d.finished? = some p ↔ ∃ effect, d = .finish p effect := by
    intro d
    cases d <;> simp [Deed.finished?]
  simp only [finishes, List.mem_filterMap, hd]
  grind

theorem mem_placements {p : Placement} :
    p ∈ placements xs ↔ ∃ w, .place p w ∈ xs := by
  have hd : ∀ d : Deed μ, d.placed? = some p ↔ ∃ w, d = .place p w := by
    intro d
    cases d <;> simp [Deed.placed?]
  simp only [placements, List.mem_filterMap, hd]
  grind

end Histories

section Steps

variable {be : Backend μ κ} {vdev vdev' : NvmevDev μ κ} {event : Event κ}

/-- What a step does to the tables, the medium and the posted completions. -/
inductive Turn (be : Backend μ κ) (vdev : NvmevDev μ κ) (event : Event κ)
    (vdev' : NvmevDev μ κ) : Prop where
  | rest (quiet : ∀ j, eventDeeds be j vdev event = [])
      (workers : vdev'.ioWorkers = vdev.ioWorkers) (medium : vdev'.medium = vdev.medium)
      (posted : vdev'.posted = vdev.posted)
  | queue (id : Nat) (r : Request) (worker : IoWorker)
      (quiet : ∀ j, eventDeeds be j vdev event = []) (lt : id < vdev.nrIoWorkers)
      (run : enqueue r (vdev.ioWorkers id) = .ok worker)
      (workers : vdev'.ioWorkers = Function.update vdev.ioWorkers id worker)
      (medium : vdev'.medium = vdev.medium) (posted : vdev'.posted = vdev.posted)
  | reclaim (id : Nat) (worker : IoWorker)
      (quiet : ∀ j, eventDeeds be j vdev event = []) (lt : id < vdev.nrIoWorkers)
      (run : reclaimCompletedReqs (vdev.ioWorkers id) = .ok worker)
      (workers : vdev'.ioWorkers = Function.update vdev.ioWorkers id worker)
      (medium : vdev'.medium = vdev.medium) (posted : vdev'.posted = vdev.posted)
  | work (id now : Nat) (moved : Nat × Nat)
      (deeds : ∀ j, eventDeeds be j vdev event = workDeeds be j vdev id now)
      (lt : id < vdev.nrIoWorkers)
      (perform : performIo be vdev id = .ok (vdev'.medium, moved))
      (workers : vdev'.ioWorkers = Function.update vdev.ioWorkers id
        (ioWorkerStep (vdev.ioWorkers id) now moved).1)
      (posted : vdev'.posted = vdev.posted ++
        (match (ioWorkerStep (vdev.ioWorkers id) now moved).2 with
          | some (.fillCqResult w) => [w]
          | _ => []))

theorem step_turn (h : step be vdev event = .ok vdev') : Turn be vdev event vdev' := by
  have hwork : ∀ {id now : Nat}, id < vdev.nrIoWorkers → ∀ j : Journal μ,
      eventDeeds be j vdev (.worker id now) = workDeeds be j vdev id now := by
    intro id now hlt j
    rw [eventDeeds, if_pos hlt]
  cases step_result h with
  | idle _ other _ =>
      refine .rest (fun j => ?_) rfl rfl rfl
      cases event with
      | worker id now => rw [eventDeeds, if_neg (not_lt.2 (other id now rfl))]
      | _ => rfl
  | hostWrite sqid slot cmd => exact .rest (fun _ => rfl) rfl rfl rfl
  | hostRing sqid db => exact .rest (fun _ => rfl) rfl rfl rfl
  | beginPass sqid sq pass present rung => exact .rest (fun _ => rfl) rfl rfl rfl
  | finish cmd ret p sq pass present turn seq => exact .rest (fun _ => rfl) rfl rfl rfl
  | refuse cmd p sq pass present turn seq => exact .rest (fun _ => rfl) rfl rfl rfl
  | accept cmd ret p sq id turns worker pass present turn seq hid run =>
      exact .queue id _ worker (fun _ => rfl) (getIoWorker_lt hid) run rfl rfl rfl
  | schedule sqid nsecsTarget writeBuffer buffsToRelease id turns worker hid run =>
      exact .queue id _ worker (fun _ => rfl) (getIoWorker_lt hid) run rfl rfl rfl
  | reclaim p id worker pass turn lt run =>
      exact .reclaim id worker (fun _ => rfl) lt run rfl rfl rfl
  | advance p id sq pass turn present => exact .rest (fun _ => rfl) rfl rfl rfl
  | work id now medium moved lt perform effect =>
      exact .work id now moved (hwork lt) lt perform rfl (by simp [effect])
  | post id now medium moved w cq lt perform effect present =>
      exact .work id now moved (hwork lt) lt perform rfl (by simp [effect])
  | release id now medium moved writeBuffer buffsToRelease lt perform effect =>
      exact .work id now moved (hwork lt) lt perform rfl (by simp [effect])

end Steps

section Records

variable {be : Backend μ κ} {vdev vdev' : NvmevDev μ κ} {event : Event κ} {j : Journal μ}
  {worker worker' : IoWorker} {free busy : List Nat} {id : Nat}

theorem onlyIn_self (worker : IoWorker) : onlyIn worker worker = [] := by
  simp [onlyIn]

theorem flatMap_range_single {α : Type} {g : Nat → List α} {n : Nat} (hlt : id < n)
    (h : ∀ i, i ≠ id → g i = []) : (List.range n).flatMap g = g id := by
  induction n with
  | zero => simp at hlt
  | succ n ih =>
      rw [List.range_succ, List.flatMap_append, List.flatMap_singleton]
      by_cases hid : id = n
      · subst hid
        rw [List.flatMap_eq_nil_iff.2, List.nil_append]
        intro i hi
        exact h i (Nat.ne_of_lt (List.mem_range.1 hi))
      · rw [ih (by omega), h n (Ne.symm hid), List.append_nil]

theorem record_deeds_rest (be : Backend μ κ) (event : Event κ) (j : Journal μ)
    (hworkers : vdev'.ioWorkers = vdev.ioWorkers) :
    (j.record be vdev event vdev').deeds = eventDeeds be j vdev event ++ j.deeds ∧
      (j.record be vdev event vdev').since = j.since := by
  have hnone : ∀ i, onlyIn (vdev'.ioWorkers i) (vdev.ioWorkers i) = [] := by
    intro i
    rw [hworkers, onlyIn_self]
  have hgone : ∀ i, onlyIn (vdev.ioWorkers i) (vdev'.ioWorkers i) = [] := by
    intro i
    rw [hworkers, onlyIn_self]
  constructor
  · have hplace : (List.range vdev.nrIoWorkers).flatMap (placeDeeds j vdev vdev') = [] := by
      rw [List.flatMap_eq_nil_iff]
      intro i _
      rw [placeDeeds, hnone, List.map_nil]
    have hremove : (List.range vdev.nrIoWorkers).flatMap (removeDeeds j vdev vdev') = [] := by
      rw [List.flatMap_eq_nil_iff]
      intro i _
      rw [removeDeeds, hgone, List.map_nil]
    rw [Journal.record, hplace, hremove, List.nil_append, List.nil_append]
  · funext i e
    simp [Journal.record, hnone]

theorem record_deeds_update (be : Backend μ κ) (event : Event κ) (j : Journal μ)
    (hlt : id < vdev.nrIoWorkers)
    (hworkers : vdev'.ioWorkers = Function.update vdev.ioWorkers id worker') :
    (j.record be vdev event vdev').deeds =
        (onlyIn worker' (vdev.ioWorkers id)).map
            (fun e => .place ⟨j.time, id, e⟩ (worker'.workQueue e)) ++
          ((onlyIn (vdev.ioWorkers id) worker').map
              (fun e => .remove (j.placement id e)) ++
            (eventDeeds be j vdev event ++ j.deeds)) ∧
      (∀ e, (j.record be vdev event vdev').since id e =
        if e ∈ onlyIn worker' (vdev.ioWorkers id) then j.time else j.since id e) ∧
      ∀ i, i ≠ id → (j.record be vdev event vdev').since i = j.since i := by
  have hother : ∀ i, i ≠ id → vdev'.ioWorkers i = vdev.ioWorkers i := by
    intro i hi
    rw [hworkers, Function.update_of_ne hi]
  have hself : vdev'.ioWorkers id = worker' := by
    rw [hworkers, Function.update_self]
  refine ⟨?_, ?_, ?_⟩
  · have hplace := flatMap_range_single (g := placeDeeds j vdev vdev') hlt fun i hi => by
      rw [placeDeeds, hother i hi, onlyIn_self, List.map_nil]
    have hremove := flatMap_range_single (g := removeDeeds j vdev vdev') hlt fun i hi => by
      rw [removeDeeds, hother i hi, onlyIn_self, List.map_nil]
    rw [placeDeeds, hself] at hplace
    rw [removeDeeds, hself] at hremove
    rw [Journal.record, hplace, hremove]
  · intro e
    simp only [Journal.record, hself]
  · intro i hi
    funext e
    simp [Journal.record, hother i hi, onlyIn_self]

theorem onlyIn_enqueued {r : Request} {entry : Nat} {rest before after : List Nat}
    (hchains : Chains worker free busy)
    (hdone : Enqueued r worker worker' free busy entry rest before after) :
    onlyIn worker' worker = [entry] ∧ onlyIn worker worker' = [] := by
  have hbusy := hchains.busyList_eq
  have hbusy' := hdone.chains.busyList_eq
  have hentry : entry ∉ before ++ after := by
    intro hmem
    have hnodup := hchains.nodup
    rw [hdone.free_eq, hdone.busy_eq, List.cons_append, List.nodup_cons] at hnodup
    exact hnodup.1 (List.mem_append_right _ hmem)
  rw [hdone.busy_eq] at hbusy
  rw [onlyIn, onlyIn, hbusy, hbusy']
  constructor
  · rw [List.filter_append, List.filter_cons, if_pos (by simpa using hentry)]
    have hbefore : before.filter (fun e => decide (e ∉ before ++ after)) = [] := by
      rw [List.filter_eq_nil_iff]
      intro e he
      simp [he]
    have hafter : after.filter (fun e => decide (e ∉ before ++ after)) = [] := by
      rw [List.filter_eq_nil_iff]
      intro e he
      simp [he]
    rw [hbefore, hafter, List.nil_append]
  · rw [List.filter_eq_nil_iff]
    intro e he
    rw [List.mem_append] at he
    rcases he with he | he <;> simp [he]

theorem onlyIn_reclaimed {taken kept free' : List Nat} (hchains : Chains worker free busy)
    (hbusy : busy = taken ++ kept) (hchains' : Chains worker' free' kept) :
    onlyIn worker' worker = [] ∧ ∀ e ∈ onlyIn worker worker', e ∈ taken := by
  rw [onlyIn, onlyIn, hchains.busyList_eq, hchains'.busyList_eq]
  constructor
  · rw [List.filter_eq_nil_iff]
    intro e he
    simp [hbusy, he]
  · intro e he
    simp only [List.mem_filter, hbusy, List.mem_append, decide_eq_true_eq] at he
    exact he.1.resolve_right he.2

end Records

end NvmeVirt.IoJournal
