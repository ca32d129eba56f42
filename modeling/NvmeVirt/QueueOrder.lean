import NvmeVirt.IoTable

namespace NvmeVirt.QueueOrder

open FaultOutcome
open IndexChain
open IoTable
open IoWorkers
open WriteBuffer

/-- A worker with the history of its insertions: the largest `latest_nsecs` one of
them found, and the arrival stamps of the entries. -/
structure Queue where
  worker : IoWorker
  latest : Nat
  arrived : Nat → Nat
  arrivals : Nat

namespace Queue

def target (q : Queue) (e : Nat) : Nat := (q.worker.workQueue e).nsecsTarget

/-- What the code promises of an entry `i` standing before an entry `j`. -/
def Precedes (q : Queue) (i j : Nat) : Prop :=
  q.target i ≤ max (q.target j) q.latest ∧
    (q.target i < q.target j ∨ q.arrived i < q.arrived j)

/-- The history after an insertion that left `worker`. -/
def inserted (q : Queue) (worker : IoWorker) : Queue where
  worker := worker
  latest := max q.latest q.worker.latestNsecs
  arrived := Function.update q.arrived q.worker.freeSeq q.arrivals
  arrivals := q.arrivals + 1

end Queue

/-- The clock of the worker may be written between any two events. -/
inductive QueueEvent where
  | table (event : TableEvent)
  | latestNsecs (nsecs : Nat)
deriving DecidableEq, Repr

def queueStep (q : Queue) : QueueEvent → Except Fault Queue
  | .table (.enqueue r) => do
      let worker ← enqueue r q.worker
      return if HasSlot q.worker then q.inserted worker else { q with worker := worker }
  | .table event => do
      let worker ← tableStep q.worker event
      return { q with worker := worker }
  | .latestNsecs nsecs =>
      .ok { q with worker := { q.worker with latestNsecs := nsecs } }

def queueInit : Queue where
  worker := ioWorkerInit
  latest := 0
  arrived _ := 0
  arrivals := 0

def queueRun (events : List QueueEvent) : Except Fault Queue :=
  events.foldlM queueStep queueInit

structure Ordered (q : Queue) (busy : List Nat) : Prop where
  stamped : ∀ e ∈ busy, q.arrived e < q.arrivals
  pairs : busy.Pairwise q.Precedes

theorem ordered_nil (q : Queue) : Ordered q [] :=
  ⟨by simp, .nil⟩

theorem fill_nsecsTarget (r : Request) (w : IoWork) :
    (r.fill w).nsecsTarget = r.nsecsTarget := by
  cases r <;> rfl

theorem target_eq_of_body {worker worker' : IoWorker} {e : Nat}
    (h : body worker' e = body worker e) :
    (worker'.workQueue e).nsecsTarget = (worker.workQueue e).nsecsTarget := by
  have htarget := congrArg IoWork.nsecsTarget h
  exact htarget

theorem final_or_pairwise {R : Nat → Nat → Prop} {xs : List Nat} (p : Nat)
    (h : xs.Pairwise R) {x : Nat} (hx : x ∈ xs) : x = final p xs ∨ R x (final p xs) := by
  induction xs generalizing p with
  | nil => simp at hx
  | cons y ys ih =>
      obtain ⟨hhead, htail⟩ := List.pairwise_cons.1 h
      rw [final_cons]
      obtain rfl | hx := List.mem_cons.1 hx
      · by_cases hys : ys = []
        · subst hys
          exact .inl rfl
        · exact .inr (hhead _ (final_mem hys))
      · exact ih y htail hx

section Insertion

variable {q : Queue} {r : Request} {worker' : IoWorker} {free busy rest before after : List Nat}
  {entry : Nat}

theorem entry_notMem (he : Enqueued r q.worker worker' free busy entry rest before after) :
    entry ∉ before ++ after := by
  have hnodup := he.chains.nodup
  rw [List.nodup_append'] at hnodup
  have hmiddle := (List.nodup_middle.1 hnodup.2.1)
  exact (List.nodup_cons.1 hmiddle).1

theorem target_entry (he : Enqueued r q.worker worker' free busy entry rest before after) :
    (q.inserted worker').target entry = r.nsecsTarget := by
  have htarget := congrArg IoWork.nsecsTarget (congrFun he.body entry)
  rw [Function.update_self] at htarget
  exact htarget.trans (fill_nsecsTarget r _)

theorem target_old (he : Enqueued r q.worker worker' free busy entry rest before after)
    {x : Nat} (hx : x ∈ before ++ after) :
    (q.inserted worker').target x = q.target x := by
  refine target_eq_of_body ?_
  have hne : x ≠ entry := by
    rintro rfl
    exact entry_notMem he hx
  exact (congrFun he.body x).trans (Function.update_of_ne hne _ _)

theorem arrived_old (he : Enqueued r q.worker worker' free busy entry rest before after)
    (hfree : q.worker.freeSeq = entry) {x : Nat} (hx : x ∈ before ++ after) :
    (q.inserted worker').arrived x = q.arrived x := by
  refine Function.update_of_ne ?_ _ _
  rintro rfl
  exact entry_notMem he (hfree ▸ hx)

theorem arrived_entry (hfree : q.worker.freeSeq = entry) :
    (q.inserted worker').arrived entry = q.arrivals := by
  subst hfree
  exact Function.update_self _ _ _

theorem precedes_old (he : Enqueued r q.worker worker' free busy entry rest before after)
    (hfree : q.worker.freeSeq = entry) {x y : Nat} (hx : x ∈ before ++ after)
    (hy : y ∈ before ++ after) (h : q.Precedes x y) :
    (q.inserted worker').Precedes x y := by
  rw [Queue.Precedes, target_old he hx, target_old he hy, arrived_old he hfree hx,
    arrived_old he hfree hy]
  exact ⟨h.1.trans (max_le_max le_rfl (le_max_left _ _)), h.2⟩

/-- The scan stopped at the last entry of `before`, and the entries in front of that
one are ordered with it. -/
theorem precedes_entry (he : Enqueued r q.worker worker' free busy entry rest before after)
    (hfree : q.worker.freeSeq = entry) (h : Ordered q (before ++ after)) {x : Nat}
    (hx : x ∈ before) : (q.inserted worker').Precedes x entry := by
  have hmem : x ∈ before ++ after := List.mem_append_left _ hx
  have hstamp : q.arrived x < q.arrivals := h.stamped x hmem
  have hlast := he.sorted.notLater (List.ne_nil_of_mem hx)
  have hbound : q.target x ≤ max (q.target (final noEntry before)) q.latest := by
    obtain rfl | hpair := final_or_pairwise noEntry (List.pairwise_append.1 h.pairs).1 hx
    · exact le_max_left _ _
    · exact hpair.1
  rw [Queue.Precedes, target_old he hmem, target_entry he, arrived_old he hfree hmem,
    arrived_entry hfree]
  refine ⟨hbound.trans ?_, Or.inr hstamp⟩
  have hfinal : q.target (final noEntry before) ≤
      max q.worker.latestNsecs r.nsecsTarget := hlast
  simp only [Queue.inserted]
  omega

theorem entry_precedes (he : Enqueued r q.worker worker' free busy entry rest before after)
    {y : Nat} (hy : y ∈ after) : (q.inserted worker').Precedes entry y := by
  have hlater : max q.worker.latestNsecs r.nsecsTarget < q.target y := he.sorted.later y hy
  rw [Queue.Precedes, target_entry he, target_old he (List.mem_append_right _ hy)]
  have hlt : r.nsecsTarget < q.target y := lt_of_le_of_lt (le_max_right _ _) hlater
  exact ⟨hlt.le.trans (le_max_left _ _), Or.inl hlt⟩

theorem Ordered.enqueued
    (he : Enqueued r q.worker worker' free busy entry rest before after)
    (hfree : q.worker.freeSeq = entry) (h : Ordered q busy) :
    Ordered (q.inserted worker') (before ++ entry :: after) := by
  rw [he.busy_eq] at h
  obtain ⟨hbefore, hafter, hcross⟩ := List.pairwise_append.1 h.pairs
  have hleft : ∀ {x}, x ∈ before → x ∈ before ++ after := List.mem_append_left _
  have hright : ∀ {x}, x ∈ after → x ∈ before ++ after := List.mem_append_right _
  constructor
  · intro e hmem
    rw [List.mem_append, List.mem_cons] at hmem
    by_cases hentry : e = entry
    · rw [hentry, arrived_entry hfree]
      exact Nat.lt_succ_self _
    · have hold : e ∈ before ++ after := by
        rw [List.mem_append]
        tauto
      rw [arrived_old he hfree hold]
      exact Nat.lt_succ_of_lt (h.stamped e hold)
  · rw [List.pairwise_append, List.pairwise_cons]
    refine ⟨?_, ⟨fun y hy => entry_precedes he hy, ?_⟩, ?_⟩
    · exact hbefore.imp_of_mem fun hx hy => precedes_old he hfree (hleft hx) (hleft hy)
    · exact hafter.imp_of_mem fun hx hy => precedes_old he hfree (hright hx) (hright hy)
    · intro x hx y hy
      obtain rfl | hy := List.mem_cons.1 hy
      · exact precedes_entry he hfree h hx
      · exact precedes_old he hfree (hleft hx) (hright hy) (hcross x hx y hy)

end Insertion

theorem Ordered.of_body {q : Queue} {busy : List Nat} (h : Ordered q busy)
    {worker : IoWorker}
    (htarget : ∀ e, (worker.workQueue e).nsecsTarget = q.target e) :
    Ordered { q with worker := worker } busy := by
  refine ⟨h.stamped, h.pairs.imp fun {x y} hxy => ?_⟩
  have hx : Queue.target { q with worker := worker } x = q.target x := htarget x
  have hy : Queue.target { q with worker := worker } y = q.target y := htarget y
  rw [Queue.Precedes, hx, hy]
  exact hxy

theorem Ordered.dropWhile {q : Queue} {busy : List Nat} (h : Ordered q busy)
    (p : Nat → Bool) : Ordered q (busy.dropWhile p) :=
  ⟨fun e he => h.stamped e ((List.dropWhile_suffix p).subset he),
    h.pairs.sublist (List.dropWhile_suffix p).sublist⟩

theorem ioWorkerStep_target (worker : IoWorker) (now : Nat) (moved : Nat × Nat) (e : Nat) :
    ((ioWorkerStep worker now moved).1.workQueue e).nsecsTarget =
      (worker.workQueue e).nsecsTarget := by
  have hcopied : ∀ w, (copied w moved).nsecsTarget = w.nsecsTarget := by
    intro w
    obtain ⟨status, result0, heq⟩ := copied_eq w moved
    rw [heq]
  generalize hresult : ioWorkerStep worker now moved = result
  have hcases := ioWorkerStep_cases worker now moved
  rw [hresult] at hcases
  cases hcases with
  | restart => rfl
  | skip => rfl
  | wait w _ _ hw _ =>
      by_cases he : e = worker.curr
      · simp [IoWorker.store, he, hw, hcopied]
      · simp [IoWorker.store, he]
  | complete w _ _ hw _ =>
      by_cases he : e = worker.curr
      · simp [IoWorker.store, he, hw, hcopied]
      · simp [IoWorker.store, he]

theorem chains_latestNsecs {worker : IoWorker} {free busy : List Nat}
    (h : Chains worker free busy) (nsecs : Nat) :
    Chains { worker with latestNsecs := nsecs } free busy :=
  ⟨h.freeLinks, h.freeNonempty, h.freeEnd, h.busyLinks, h.busyBack, h.busyEnd, h.exact⟩

theorem queueStep_ordered {q : Queue} (event : QueueEvent)
    (h : ∃ free busy, Chains q.worker free busy ∧ Ordered q busy) :
    ∃ q', queueStep q event = .ok q' ∧
      ∃ free busy, Chains q'.worker free busy ∧ Ordered q' busy := by
  obtain ⟨free, busy, hchains, hordered⟩ := h
  match event with
  | .table (.enqueue r) =>
      by_cases hslot : HasSlot q.worker
      · obtain ⟨worker', entry, rest, before, after, hrun, he⟩ := enqueue_spec hchains r hslot
        have hfree : q.worker.freeSeq = entry := by
          have hlinks := hchains.freeLinks
          rw [he.free_eq] at hlinks
          exact hlinks.1
        refine ⟨q.inserted worker', ?_, _, _, he.chains, hordered.enqueued he hfree⟩
        rw [queueStep, hrun, ok_bind, if_pos hslot]
        rfl
      · refine ⟨q, ?_, free, busy, hchains, hordered⟩
        rw [queueStep, enqueue_refused r hslot, ok_bind, if_neg hslot]
        rfl
  | .table (.step now moved) =>
      exact ⟨_, rfl, free, busy, ioWorkerStep_chains hchains now moved,
        hordered.of_body (ioWorkerStep_target q.worker now moved)⟩
  | .table .reclaim =>
      obtain ⟨worker', hrun, hkeep, hbody, -, -⟩ := reclaimCompletedReqs_spec hchains
      refine ⟨{ q with worker := worker' }, ?_, _, _, hkeep, (hordered.dropWhile _).of_body
        fun e => target_eq_of_body (congrFun hbody e)⟩
      rw [queueStep, tableStep, hrun, ok_bind]
      · rfl
      · simp
  | .latestNsecs nsecs =>
      exact ⟨_, rfl, free, busy, chains_latestNsecs hchains nsecs,
        hordered.of_body fun _ => rfl⟩

theorem queueRun_ordered (events : List QueueEvent) {q : Queue}
    (h : ∃ free busy, Chains q.worker free busy ∧ Ordered q busy) :
    ∃ q', events.foldlM queueStep q = .ok q' ∧
      ∃ free busy, Chains q'.worker free busy ∧ Ordered q' busy := by
  induction events generalizing q with
  | nil => exact ⟨q, rfl, h⟩
  | cons event events ih =>
      obtain ⟨q', hstep, hnext⟩ := queueStep_ordered event h
      rw [List.foldlM_cons, hstep, ok_bind]
      exact ih hnext

/-- The busy list is sorted up to the clock its insertions have seen: of two entries
the earlier one may be later than the other only if it was due at some insertion, and
entries with one target time stand in the order they came. -/
theorem busy_list_order (events : List QueueEvent) :
    ∃ q, queueRun events = .ok q ∧
      (busyList q.worker).Pairwise fun i j =>
        q.target i ≤ max (q.target j) q.latest ∧
        (q.latest < q.target i → q.target i ≤ q.target j) ∧
        (q.target i = q.target j → q.arrived i < q.arrived j) := by
  obtain ⟨q, hrun, free, busy, hchains, hordered⟩ :=
    queueRun_ordered events ⟨_, _, ioWorkerInit_chains, ordered_nil queueInit⟩
  refine ⟨q, hrun, ?_⟩
  rw [hchains.busyList_eq]
  refine hordered.pairs.imp fun {i j} hpair => ⟨hpair.1, ?_, ?_⟩
  · intro hopen
    exact (le_max_iff.1 hpair.1).resolve_right (not_le.2 hopen)
  · intro hequal
    exact hpair.2.resolve_left (not_lt.2 hequal.ge)

end NvmeVirt.QueueOrder
