import NvmeVirt.IoJournal
import NvmeVirt.IoStanding

namespace NvmeVirt.IoExecution

open FaultOutcome
open IndexChain
open IoDelivery
open IoDispatch
open IoJournal
open IoStanding
open IoTable
open IoWorkers
open WriteBuffer

variable {μ κ : Type}

/-- The journal knows how far the entry `w`, now in its stay `p`, has got. -/
structure Tracked (deeds : List (Deed μ)) (p : Placement) (w : IoWork) : Prop where
  placed : ∃ w', .place p w' ∈ deeds ∧ w'.isInternal = w.isInternal ∧ request w' = request w
  internal : w.isInternal = true → w.isCopied = true
  copied : w.isInternal = false → (w.isCopied = true ↔ p ∈ transfers deeds)
  completed : w.isCompleted = true ↔ p ∈ finishes deeds

structure Accounted (start vdev : NvmevDev μ κ) (j : Journal μ) : Prop where
  tables : ∀ id, ∃ free busy, Chains (vdev.ioWorkers id) free busy ∧
    Standing (vdev.ioWorkers id) free busy ∧
    ∀ e ∈ busy, Tracked j.deeds (j.placement id e) (body (vdev.ioWorkers id) e)
  ordered : WellOrdered j.deeds
  past : ∀ d ∈ j.deeds, d.placement.step < j.time
  posted : vdev.posted = (j.deeds.filterMap Deed.posted?).reverse
  threads : Threads start.medium j.deeds vdev.medium

section Invariant

variable {be : Backend μ κ} {start vdev vdev' : NvmevDev μ κ} {event : Event κ}
  {j j' : Journal μ} {deeds new : List (Deed μ)} {p : Placement} {w : IoWork} {id : Nat}

theorem untouched_of_foreign (h : ∀ d ∈ new, d.placement ≠ p) :
    p ∉ transfers new ∧ p ∉ finishes new := by
  constructor
  · intro hmem
    obtain ⟨before, after, hd⟩ := mem_transfers.1 hmem
    exact h _ hd rfl
  · intro hmem
    obtain ⟨effect, hd⟩ := mem_finishes.1 hmem
    exact h _ hd rfl

theorem Tracked.append (h : Tracked deeds p w) (htransfers : p ∉ transfers new)
    (hfinishes : p ∉ finishes new) : Tracked (new ++ deeds) p w := by
  have ht : p ∈ transfers (new ++ deeds) ↔ p ∈ transfers deeds := by
    rw [transfers, List.filterMap_append, List.mem_append]
    exact or_iff_right htransfers
  have hf : p ∈ finishes (new ++ deeds) ↔ p ∈ finishes deeds := by
    rw [finishes, List.filterMap_append, List.mem_append]
    exact or_iff_right hfinishes
  obtain ⟨w', hw', hkind, hrequest⟩ := h.placed
  exact ⟨⟨w', List.mem_append_right _ hw', hkind, hrequest⟩, h.internal,
    fun hhost => (h.copied hhost).trans ht.symm, h.completed.trans hf.symm⟩

theorem Accounted.notMem_of_step (h : Accounted start vdev j) (hp : p.step = j.time) :
    p ∉ placements j.deeds ∧ p ∉ transfers j.deeds ∧ p ∉ finishes j.deeds := by
  refine ⟨?_, ?_, ?_⟩
  · intro hmem
    obtain ⟨w, hw⟩ := mem_placements.1 hmem
    have hlt := h.past _ hw
    simp only [Deed.placement] at hlt
    omega
  · intro hmem
    obtain ⟨before, after, hd⟩ := mem_transfers.1 hmem
    have hlt := h.past _ hd
    simp only [Deed.placement] at hlt
    omega
  · intro hmem
    obtain ⟨effect, hd⟩ := mem_finishes.1 hmem
    have hlt := h.past _ hd
    simp only [Deed.placement] at hlt
    omega

theorem Accounted.tables_other (h : Accounted start vdev j) (new : List (Deed μ)) {i : Nat}
    (hworker : vdev'.ioWorkers i = vdev.ioWorkers i) (hsince : j'.since i = j.since i)
    (hdeeds : j'.deeds = new ++ j.deeds)
    (hnew : ∀ e, j.placement i e ∉ transfers new ∧ j.placement i e ∉ finishes new) :
    ∃ free busy, Chains (vdev'.ioWorkers i) free busy ∧
      Standing (vdev'.ioWorkers i) free busy ∧
      ∀ e ∈ busy, Tracked j'.deeds (j'.placement i e) (body (vdev'.ioWorkers i) e) := by
  obtain ⟨free, busy, hchains, hstanding, htracked⟩ := h.tables i
  rw [hworker]
  refine ⟨free, busy, hchains, hstanding, ?_⟩
  intro e he
  have hplacement : j'.placement i e = j.placement i e := by
    rw [Journal.placement, Journal.placement, hsince]
  rw [hplacement, hdeeds]
  exact (htracked e he).append (hnew e).1 (hnew e).2

theorem Accounted.rest (h : Accounted start vdev j)
    (quiet : ∀ j, eventDeeds be j vdev event = [])
    (workers : vdev'.ioWorkers = vdev.ioWorkers) (medium : vdev'.medium = vdev.medium)
    (posted : vdev'.posted = vdev.posted) :
    Accounted start vdev' (j.record be vdev event vdev') := by
  obtain ⟨hdeeds, hsince⟩ := record_deeds_rest be event j workers
  rw [quiet, List.nil_append] at hdeeds
  refine ⟨?_, ?_, ?_, ?_, ?_⟩
  · intro i
    refine h.tables_other [] (by rw [workers]) (by rw [hsince]) hdeeds ?_
    simp [transfers, finishes]
  · rw [hdeeds]
    exact h.ordered
  · rw [hdeeds]
    intro d hd
    exact Nat.lt_succ_of_lt (h.past d hd)
  · rw [hdeeds, posted]
    exact h.posted
  · rw [hdeeds, medium]
    exact h.threads

theorem tracked_placed (r : Request) {w : IoWork} (hp : p ∉ transfers deeds)
    (hp' : p ∉ finishes deeds) (w' : IoWork)
    (hw : w = { r.fill w' with next := 0, prev := 0 }) {w'' : IoWork}
    (hw'' : { w'' with next := 0, prev := 0 } = w) :
    Tracked (.place p w'' :: deeds) p w := by
  have ht : p ∉ transfers (.place p w'' :: deeds) := hp
  have hf : p ∉ finishes (.place p w'' :: deeds) := hp'
  refine ⟨⟨w'', List.mem_cons_self, ?_, ?_⟩, ?_, ?_, ?_⟩
  · rw [← hw'']
  · rw [← hw'']
    rfl
  · subst hw
    cases r <;> simp [Request.fill]
  · subst hw
    cases r <;> simp [Request.fill, ht]
  · subst hw
    cases r <;> simp [Request.fill, hf]

theorem Accounted.queue {r : Request} {worker : IoWorker} (h : Accounted start vdev j)
    (quiet : ∀ j, eventDeeds be j vdev event = []) (lt : id < vdev.nrIoWorkers)
    (run : enqueue r (vdev.ioWorkers id) = .ok worker)
    (workers : vdev'.ioWorkers = Function.update vdev.ioWorkers id worker)
    (medium : vdev'.medium = vdev.medium) (posted : vdev'.posted = vdev.posted) :
    Accounted start vdev' (j.record be vdev event vdev') := by
  by_cases hslot : HasSlot (vdev.ioWorkers id)
  swap
  · rw [enqueue_refused r hslot] at run
    cases run
    rw [Function.update_eq_self] at workers
    exact h.rest quiet workers medium posted
  obtain ⟨free, busy, hchains, hstanding, htracked⟩ := h.tables id
  obtain ⟨entry, rest, before, after, hdone⟩ := enqueued_of_run hchains hslot run
  obtain ⟨hdeeds, hsince, hother⟩ := record_deeds_update be event j lt workers
  obtain ⟨harrived, hleft⟩ := onlyIn_enqueued hchains hdone
  rw [harrived, hleft, quiet, List.map_nil, List.nil_append, List.nil_append] at hdeeds
  rw [harrived] at hsince
  have hself : vdev'.ioWorkers id = worker := by
    rw [workers, Function.update_self]
  obtain ⟨hnew, hnewTransfer, hnewFinish⟩ := h.notMem_of_step (p := ⟨j.time, id, entry⟩) rfl
  refine ⟨?_, ?_, ?_, ?_, ?_⟩
  · intro i
    by_cases hi : i = id
    · subst hi
      rw [hself]
      refine ⟨rest, before ++ entry :: after, hdone.chains,
        hstanding.enqueued hchains hdone, ?_⟩
      intro e he
      rw [Journal.placement, hsince, hdeeds]
      by_cases heq : e = entry
      · subst heq
        rw [if_pos List.mem_cons_self]
        refine tracked_placed r hnewTransfer hnewFinish ((vdev.ioWorkers i).workQueue e) ?_ rfl
        rw [hdone.body, Function.update_self]
      · rw [if_neg (by simpa using heq), hdone.body, Function.update_of_ne heq]
        have hbusy : e ∈ busy := by
          rw [hdone.busy_eq]
          simp only [List.mem_append, List.mem_cons] at he ⊢
          tauto
        exact (htracked e hbusy).append (by simp [transfers, Deed.transferred?])
          (by simp [finishes, Deed.finished?])
    · refine h.tables_other _ (by rw [workers, Function.update_of_ne hi]) (hother i hi)
        hdeeds ?_
      simp [transfers, finishes, Deed.transferred?, Deed.finished?]
  · rw [hdeeds]
    exact ⟨hnew, h.ordered⟩
  · rw [hdeeds]
    intro d hd
    rcases List.mem_append.1 hd with hd | hd
    · simp only [List.map_cons, List.map_nil, List.mem_singleton] at hd
      subst hd
      exact Nat.lt_succ_self _
    · exact Nat.lt_succ_of_lt (h.past d hd)
  · rw [hdeeds, posted]
    exact h.posted
  · rw [hdeeds, medium]
    exact h.threads

theorem Accounted.reclaim {worker : IoWorker} (h : Accounted start vdev j)
    (quiet : ∀ j, eventDeeds be j vdev event = []) (lt : id < vdev.nrIoWorkers)
    (run : reclaimCompletedReqs (vdev.ioWorkers id) = .ok worker)
    (workers : vdev'.ioWorkers = Function.update vdev.ioWorkers id worker)
    (medium : vdev'.medium = vdev.medium) (posted : vdev'.posted = vdev.posted) :
    Accounted start vdev' (j.record be vdev event vdev') := by
  obtain ⟨free, busy, hchains, hstanding, htracked⟩ := h.tables id
  obtain ⟨worker', hrun, hchains', hbody, -, hcurr⟩ := reclaimCompletedReqs_spec hchains
  rw [run] at hrun
  cases hrun
  obtain ⟨hdeeds, hsince, hother⟩ := record_deeds_update be event j lt workers
  obtain ⟨harrived, hleft⟩ := onlyIn_reclaimed hchains
    (List.takeWhile_append_dropWhile (p := (vdev.ioWorkers id).reclaimable)).symm hchains'
  rw [harrived, quiet, List.map_nil, List.nil_append, List.nil_append] at hdeeds
  simp only [harrived, List.not_mem_nil, if_false] at hsince
  have hquiet : ∀ q, q ∉ transfers ((onlyIn (vdev.ioWorkers id) worker).map
      fun e => (.remove (j.placement id e) : Deed μ)) ∧
      q ∉ finishes ((onlyIn (vdev.ioWorkers id) worker).map
        fun e => (.remove (j.placement id e) : Deed μ)) := by
    intro q
    simp [transfers, finishes, Deed.transferred?, Deed.finished?]
  have hself : vdev'.ioWorkers id = worker := by
    rw [workers, Function.update_self]
  have hbusy : ∀ e ∈ onlyIn (vdev.ioWorkers id) worker, e ∈ busy := by
    intro e he
    exact List.takeWhile_subset _ (hleft e he)
  refine ⟨?_, ?_, ?_, ?_, ?_⟩
  · intro i
    by_cases hi : i = id
    · subst hi
      rw [hself]
      refine ⟨_, _, hchains', hstanding.reclaimed hbody hcurr, ?_⟩
      intro e he
      rw [Journal.placement, hsince, hdeeds, hbody]
      exact (htracked e (List.dropWhile_subset _ he)).append (hquiet _).1 (hquiet _).2
    · exact h.tables_other _ (by rw [workers, Function.update_of_ne hi]) (hother i hi)
        hdeeds fun e => hquiet _
  · rw [hdeeds]
    refine h.ordered.extend ?_
    intro later d past hsplit
    have hd : d ∈ (onlyIn (vdev.ioWorkers id) worker).map
        fun e => (.remove (j.placement id e) : Deed μ) := by
      rw [hsplit]
      simp
    obtain ⟨e, he, rfl⟩ := List.mem_map.1 hd
    have hreclaim := List.mem_takeWhile_imp (hleft e he)
    simp only [IoWorker.reclaimable, Bool.and_eq_true] at hreclaim
    have hfinished := (htracked e (hbusy e he)).completed.1 hreclaim.1.1
    rw [Justified, finishes, List.filterMap_append]
    exact List.mem_append_right _ hfinished
  · rw [hdeeds]
    intro d hd
    rcases List.mem_append.1 hd with hd | hd
    · obtain ⟨e, he, rfl⟩ := List.mem_map.1 hd
      obtain ⟨w, hw, -⟩ := (htracked e (hbusy e he)).placed
      have hlt : j.since id e < j.time := h.past _ hw
      exact Nat.lt_succ_of_lt hlt
    · exact Nat.lt_succ_of_lt (h.past d hd)
  · rw [hdeeds, posted, h.posted, List.filterMap_append]
    simp [Deed.posted?]
  · rw [hdeeds, medium, threads_append]
    refine ⟨_, h.threads, ?_⟩
    generalize onlyIn (vdev.ioWorkers id) worker = gone
    induction gone with
    | nil => rfl
    | cons e gone ih => exact ih

/-- The transfer a step makes for the entry `w` in its stay `p`, if it makes one. -/
def transferDeeds (p : Placement) (w : IoWork) (before after : μ) : List (Deed μ) :=
  if w.isCopied || w.isInternal then [] else [.transfer p before after]

theorem Tracked.transfer (h : Tracked deeds p w) (hordered : WellOrdered deeds)
    (moved : Nat × Nat) (before after : μ) :
    WellOrdered (transferDeeds p w before after ++ deeds) ∧
      Tracked (transferDeeds p w before after ++ deeds) p (IoWorkers.copied w moved) ∧
      ((IoWorkers.copied w moved).isInternal = false →
        p ∈ transfers (transferDeeds p w before after ++ deeds)) := by
  cases hcopied : w.isCopied with
  | true =>
      simp only [transferDeeds, IoWorkers.copied, hcopied, Bool.true_or, if_true,
        List.nil_append]
      exact ⟨hordered, h, fun hhost => (h.copied hhost).1 hcopied⟩
  | false =>
      cases hinternal : w.isInternal with
      | true =>
          have hcontra := h.internal hinternal
          rw [hcopied] at hcontra
          cases hcontra
      | false =>
          simp only [transferDeeds, IoWorkers.copied, hcopied, hinternal, Bool.or_self,
            Bool.false_eq_true, if_false, List.singleton_append]
          obtain ⟨w', hw', hkind, hrequest⟩ := h.placed
          have hnew : p ∉ transfers deeds := by
            intro hmem
            have hcontra := (h.copied hinternal).2 hmem
            rw [hcopied] at hcontra
            cases hcontra
          have hmem : p ∈ transfers (.transfer p before after :: deeds) :=
            mem_transfers.2 ⟨before, after, List.mem_cons_self⟩
          refine ⟨⟨⟨hnew, w', hw', hkind.trans hinternal⟩, hordered⟩, ?_, fun _ => hmem⟩
          exact ⟨⟨w', List.mem_cons_of_mem _ hw', hkind.trans hinternal,
              hrequest.trans (by simp [request, hinternal])⟩,
            fun _ => rfl, fun _ => ⟨fun _ => hmem, fun _ => rfl⟩, h.completed⟩

theorem Tracked.finish (h : Tracked deeds p w) (hordered : WellOrdered deeds)
    (hopen : w.isCompleted = false)
    (hmoved : w.isInternal = false → p ∈ transfers deeds) {w'' : IoWork}
    (hw'' : { w'' with next := 0, prev := 0 } = w) :
    WellOrdered (.finish p w''.finish :: deeds) ∧
      Tracked (.finish p w''.finish :: deeds) p { w with isCompleted := true } := by
  obtain ⟨w', hw', hkind, hrequest⟩ := h.placed
  have hnew : p ∉ finishes deeds := by
    intro hmem
    have hcontra := h.completed.2 hmem
    rw [hopen] at hcontra
    cases hcontra
  have hmem : p ∈ finishes (.finish p w''.finish :: deeds) :=
    mem_finishes.2 ⟨_, List.mem_cons_self⟩
  constructor
  · refine ⟨?_, hordered⟩
    subst hw''
    cases hinternal : w''.isInternal with
    | true =>
        rw [IoWork.finish, hinternal, if_pos rfl]
        refine ⟨hnew, w', hw', hkind.trans hinternal, ?_, ?_⟩
        · exact (congrArg IoWork.writeBuffer hrequest).symm
        · exact (congrArg IoWork.buffsToRelease hrequest).symm
    | false =>
        rw [IoWork.finish, hinternal, if_neg Bool.false_ne_true]
        exact ⟨hnew, hmoved hinternal, w', hw', hkind.trans hinternal, hrequest.symm⟩
  · exact ⟨⟨w', List.mem_cons_of_mem _ hw', hkind, hrequest⟩, h.internal, h.copied,
      ⟨fun _ => hmem, fun _ => rfl⟩⟩

theorem workDeeds_eq {now : Nat} {medium : μ} {moved : Nat × Nat}
    (hperform : performIo be vdev id = .ok (medium, moved)) :
    workDeeds be j vdev id now =
      (match (ioWorkerStep (vdev.ioWorkers id) now moved).2 with
        | none => []
        | some effect => [.finish (j.placement id (vdev.ioWorkers id).curr) effect]) ++
      (if (vdev.ioWorkers id).transfers then
        [.transfer (j.placement id (vdev.ioWorkers id).curr) vdev.medium medium] else []) := by
  simp only [workDeeds, hperform]
  generalize (ioWorkerStep (vdev.ioWorkers id) now moved).2 = effect
  cases effect <;> rfl

theorem performIo_medium {medium : μ} {moved : Nat × Nat}
    (hperform : performIo be vdev id = .ok (medium, moved))
    (hstill : (vdev.ioWorkers id).transfers = false) : medium = vdev.medium := by
  rw [performIo] at hperform
  simp only [hstill, Bool.false_eq_true, if_false] at hperform
  cases hperform
  rfl

theorem Accounted.worked {worker : IoWorker} (h : Accounted start vdev j)
    (new : List (Deed μ)) (c : Nat) (hnew : eventDeeds be j vdev event = new)
    (lt : id < vdev.nrIoWorkers)
    (workers : vdev'.ioWorkers = Function.update vdev.ioWorkers id worker)
    (hbusy : busyList worker = busyList (vdev.ioWorkers id))
    (htable : ∃ free busy, Chains worker free busy ∧ Standing worker free busy ∧
      ∀ e ∈ busy, Tracked (new ++ j.deeds) (j.placement id e) (body worker e))
    (hown : ∀ d ∈ new, d.placement = j.placement id c ∧ j.since id c < j.time)
    (hordered : WellOrdered (new ++ j.deeds))
    (hposted : vdev'.posted = vdev.posted ++ (new.filterMap Deed.posted?).reverse)
    (hthreads : Threads vdev.medium new vdev'.medium) :
    Accounted start vdev' (j.record be vdev event vdev') := by
  obtain ⟨hdeeds, hsince, hother⟩ := record_deeds_update be event j lt workers
  have hnone : onlyIn worker (vdev.ioWorkers id) = [] := by
    simp [onlyIn, hbusy]
  have hgone : onlyIn (vdev.ioWorkers id) worker = [] := by
    simp [onlyIn, hbusy]
  rw [hnone, hgone, hnew, List.map_nil, List.map_nil, List.nil_append, List.nil_append]
    at hdeeds
  simp only [hnone, List.not_mem_nil, if_false] at hsince
  refine ⟨?_, ?_, ?_, ?_, ?_⟩
  · intro i
    by_cases hi : i = id
    · subst hi
      obtain ⟨free, busy, hchains, hstanding, htracked⟩ := htable
      rw [workers, Function.update_self, hdeeds]
      refine ⟨free, busy, hchains, hstanding, ?_⟩
      intro e he
      rw [Journal.placement, hsince]
      exact htracked e he
    · refine h.tables_other new (by rw [workers, Function.update_of_ne hi]) (hother i hi)
        hdeeds ?_
      intro e
      apply untouched_of_foreign
      intro d hd heq
      rw [(hown d hd).1] at heq
      exact hi (congrArg Placement.worker heq).symm
  · rw [hdeeds]
    exact hordered
  · rw [hdeeds]
    intro d hd
    rcases List.mem_append.1 hd with hd | hd
    · obtain ⟨hplacement, hlt⟩ := hown d hd
      rw [hplacement]
      exact Nat.lt_succ_of_lt hlt
    · exact Nat.lt_succ_of_lt (h.past d hd)
  · rw [hdeeds, hposted, h.posted, List.filterMap_append, List.reverse_append]
  · rw [hdeeds, threads_append]
    exact ⟨vdev.medium, h.threads, hthreads⟩

theorem transfers_eq_false_of_completed {worker : IoWorker}
    (hdone : (worker.workQueue worker.curr).isCompleted = true) :
    worker.transfers = false := by
  simp [IoWorker.transfers, hdone]

theorem Accounted.passBy {worker : IoWorker} {now : Nat} {moved : Nat × Nat}
    (h : Accounted start vdev j)
    (deeds : ∀ j, eventDeeds be j vdev event = workDeeds be j vdev id now)
    (lt : id < vdev.nrIoWorkers)
    (perform : performIo be vdev id = .ok (vdev'.medium, moved))
    (hstep : ioWorkerStep (vdev.ioWorkers id) now moved = (worker, none))
    (workers : vdev'.ioWorkers = Function.update vdev.ioWorkers id worker)
    (hstill : (vdev.ioWorkers id).transfers = false)
    (hbody : body worker = body (vdev.ioWorkers id))
    (posted : vdev'.posted = vdev.posted) :
    Accounted start vdev' (j.record be vdev event vdev') := by
  obtain ⟨free, busy, hchains, hstanding, htracked⟩ := h.tables id
  have hchains' := ioWorkerStep_chains hchains now moved
  have hstanding' := ioWorkerStep_standing hstanding hchains now moved
  rw [hstep] at hchains' hstanding'
  refine h.worked [] 0 ?_ lt workers ?_ ?_ ?_ h.ordered ?_ ?_
  · rw [deeds, workDeeds_eq perform, hstep, hstill]
    rfl
  · rw [hchains.busyList_eq, hchains'.busyList_eq]
  · refine ⟨free, busy, hchains', hstanding', ?_⟩
    rw [hbody]
    exact htracked
  · simp
  · simpa using posted
  · exact performIo_medium perform hstill

theorem transfers_of_open {worker : IoWorker} (hcurr : worker.curr ≠ noEntry)
    (hopen : (worker.workQueue worker.curr).isCompleted = false) (p : Placement)
    (before after : μ) :
    (if worker.transfers then [.transfer p before after] else []) =
      transferDeeds p (body worker worker.curr) before after := by
  cases hcopied : (worker.workQueue worker.curr).isCopied <;>
    cases hinternal : (worker.workQueue worker.curr).isInternal <;>
    simp [IoWorker.transfers, transferDeeds, body, hcurr, hopen, hcopied, hinternal]

theorem transferDeeds_placement (p : Placement) (w : IoWork) (before after : μ) :
    (∀ d ∈ transferDeeds p w before after, d.placement = p) ∧
      (transferDeeds p w before after).filterMap Deed.posted? = [] := by
  rw [transferDeeds]
  split
  · simp
  · simp [Deed.placement, Deed.posted?]

/-- A step of the thread on an entry that is not completed: `w` is the entry
after its data has moved, `finish` what completing it adds. -/
theorem Accounted.serve {worker : IoWorker} {now : Nat} {moved : Nat × Nat}
    (h : Accounted start vdev j) (finish : List (Deed μ)) (w : IoWork)
    (deeds : ∀ j, eventDeeds be j vdev event = workDeeds be j vdev id now)
    (lt : id < vdev.nrIoWorkers)
    (perform : performIo be vdev id = .ok (vdev'.medium, moved))
    (hcurr : (vdev.ioWorkers id).curr ≠ noEntry)
    (hopen : ((vdev.ioWorkers id).workQueue (vdev.ioWorkers id).curr).isCompleted = false)
    (hstep : (ioWorkerStep (vdev.ioWorkers id) now moved).1 = worker)
    (heffect : (match (ioWorkerStep (vdev.ioWorkers id) now moved).2 with
        | none => []
        | some effect => [.finish (j.placement id (vdev.ioWorkers id).curr) effect]) = finish)
    (workers : vdev'.ioWorkers = Function.update vdev.ioWorkers id worker)
    (hbody : body worker =
      Function.update (body (vdev.ioWorkers id)) (vdev.ioWorkers id).curr w)
    (hfinish : ∀ past : List (Deed μ), WellOrdered past →
      Tracked past (j.placement id (vdev.ioWorkers id).curr)
        (IoWorkers.copied (body (vdev.ioWorkers id) (vdev.ioWorkers id).curr) moved) →
      ((IoWorkers.copied (body (vdev.ioWorkers id) (vdev.ioWorkers id).curr)
        moved).isInternal = false →
        j.placement id (vdev.ioWorkers id).curr ∈ transfers past) →
      WellOrdered (finish ++ past) ∧
        Tracked (finish ++ past) (j.placement id (vdev.ioWorkers id).curr) w)
    (hown : ∀ d ∈ finish, d.placement = j.placement id (vdev.ioWorkers id).curr)
    (hthreads : ∀ m, Threads m finish m)
    (posted : vdev'.posted = vdev.posted ++ (finish.filterMap Deed.posted?).reverse) :
    Accounted start vdev' (j.record be vdev event vdev') := by
  obtain ⟨free, busy, hchains, hstanding, htracked⟩ := h.tables id
  have hchains' := ioWorkerStep_chains hchains now moved
  have hstanding' := ioWorkerStep_standing hstanding hchains now moved
  rw [hstep] at hchains' hstanding'
  have hmem := hstanding.open_mem hcurr hopen
  have hmoves := transfers_of_open hcurr hopen (j.placement id (vdev.ioWorkers id).curr)
    vdev.medium vdev'.medium
  generalize hc : (vdev.ioWorkers id).curr = c at *
  obtain ⟨hordered, hcopied, hhost⟩ := (htracked c hmem).transfer h.ordered moved
    vdev.medium vdev'.medium
  obtain ⟨hordered, hdone⟩ := hfinish _ hordered hcopied hhost
  obtain ⟨hplacement, hunposted⟩ := transferDeeds_placement (j.placement id c)
    (body (vdev.ioWorkers id) c) vdev.medium vdev'.medium
  have hall : ∀ d ∈ finish ++ transferDeeds (j.placement id c) (body (vdev.ioWorkers id) c)
      vdev.medium vdev'.medium, d.placement = j.placement id c := by
    intro d hd
    rcases List.mem_append.1 hd with hd | hd
    · exact hown d hd
    · exact hplacement d hd
  have hsince : j.since id c < j.time := by
    obtain ⟨w', hw', -⟩ := (htracked c hmem).placed
    exact h.past _ hw'
  rw [← List.append_assoc] at hordered hdone
  refine h.worked _ c ?_ lt workers ?_ ?_ ?_ hordered ?_ ?_
  · rw [deeds, workDeeds_eq perform, hc, heffect, hmoves]
  · rw [hchains.busyList_eq, hchains'.busyList_eq]
  · refine ⟨free, busy, hchains', hstanding', ?_⟩
    intro e he
    rw [hbody]
    by_cases heq : e = c
    · subst heq
      rw [Function.update_self]
      exact hdone
    · rw [Function.update_of_ne heq]
      have hforeign : ∀ d ∈ finish ++ transferDeeds (j.placement id c)
          (body (vdev.ioWorkers id) c) vdev.medium vdev'.medium,
          d.placement ≠ j.placement id e := by
        intro d hd hsame
        rw [hall d hd] at hsame
        exact heq (congrArg Placement.entry hsame).symm
      have huntouched := untouched_of_foreign hforeign
      exact (htracked e he).append huntouched.1 huntouched.2
  · exact fun d hd => ⟨hall d hd, hsince⟩
  · rw [List.filterMap_append, hunposted, List.append_nil]
    exact posted
  · rw [threads_append]
    refine ⟨vdev'.medium, ?_, hthreads _⟩
    rw [← hmoves]
    cases hmove : (vdev.ioWorkers id).transfers with
    | true => exact ⟨rfl, rfl⟩
    | false => exact performIo_medium perform hmove

theorem Accounted.work {now : Nat} {moved : Nat × Nat} (h : Accounted start vdev j)
    (deeds : ∀ j, eventDeeds be j vdev event = workDeeds be j vdev id now)
    (lt : id < vdev.nrIoWorkers)
    (perform : performIo be vdev id = .ok (vdev'.medium, moved))
    (workers : vdev'.ioWorkers = Function.update vdev.ioWorkers id
      (ioWorkerStep (vdev.ioWorkers id) now moved).1)
    (posted : vdev'.posted = vdev.posted ++
      (match (ioWorkerStep (vdev.ioWorkers id) now moved).2 with
        | some (.fillCqResult w) => [w]
        | _ => [])) :
    Accounted start vdev' (j.record be vdev event vdev') := by
  have hcases := ioWorkerStep_cases (vdev.ioWorkers id) now moved
  generalize hresult : ioWorkerStep (vdev.ioWorkers id) now moved = result at hcases
  rw [hresult] at workers posted
  cases hcases with
  | restart hcurr =>
      refine h.passBy deeds lt perform hresult workers ?_ rfl (by simpa using posted)
      simp [IoWorker.transfers, hcurr]
  | skip hcurr hdone =>
      exact h.passBy deeds lt perform hresult workers
        (transfers_eq_false_of_completed hdone) rfl (by simpa using posted)
  | wait w hcurr hopen hw hdue =>
      subst hw
      refine h.serve []
        (IoWorkers.copied (body (vdev.ioWorkers id) (vdev.ioWorkers id).curr) moved)
        deeds lt perform hcurr hopen rfl (by rw [hresult]) (by rw [hresult]; exact workers)
        ?_ ?_ ?_ ?_ ?_
      · rw [hresult]
        exact (body_store _ _ _).trans (by rw [body_copied]; rfl)
      · intro past hordered htracked _
        exact ⟨hordered, htracked⟩
      · simp
      · exact fun _ => rfl
      · simpa using posted
  | complete w hcurr hopen hw hdue =>
      subst hw
      have hbodyCopied := body_copied
        ((vdev.ioWorkers id).workQueue (vdev.ioWorkers id).curr) moved
      have hpost : ∀ effect : Effect,
          (List.filterMap (Deed.posted? (μ := μ))
            [.finish (j.placement id (vdev.ioWorkers id).curr) effect]).reverse =
          (match some effect with
            | some (.fillCqResult w) => [w]
            | _ => []) := by
        intro effect
        cases effect <;> rfl
      refine h.serve [.finish (j.placement id (vdev.ioWorkers id).curr)
          (IoWorkers.copied ((vdev.ioWorkers id).workQueue (vdev.ioWorkers id).curr)
            moved).finish]
        { IoWorkers.copied (body (vdev.ioWorkers id) (vdev.ioWorkers id).curr)
          moved with isCompleted := true }
        deeds lt perform hcurr hopen rfl (by rw [hresult]) (by rw [hresult]; exact workers)
        ?_ ?_ ?_ ?_ ?_
      · rw [hresult]
        refine (body_store _ _ _).trans ?_
        rw [body, ← hbodyCopied]
      · intro past hordered htracked hmoved
        refine htracked.finish hordered ?_ hmoved hbodyCopied
        rw [copied_isCompleted]
        exact hopen
      · simp [Deed.placement]
      · exact fun _ => rfl
      · exact posted.trans (congrArg _ (hpost _).symm)

theorem Accounted.step (h : Accounted start vdev j) (hstep : step be vdev event = .ok vdev') :
    Accounted start vdev' (j.record be vdev event vdev') := by
  cases step_turn hstep with
  | rest quiet workers medium posted => exact h.rest quiet workers medium posted
  | queue id r worker quiet lt run workers medium posted =>
      exact h.queue quiet lt run workers medium posted
  | reclaim id worker quiet lt run workers medium posted =>
      exact h.reclaim quiet lt run workers medium posted
  | work id now moved deeds lt perform workers posted =>
      exact h.work deeds lt perform workers posted

theorem Started.accounted (h : Started start) : Accounted start start (.empty : Journal μ) where
  tables id := by
    rw [h.workers]
    exact ⟨_, _, ioWorkerInit_chains, .inl rfl, by simp⟩
  ordered := trivial
  past := by simp [Journal.empty]
  posted := by simp [h.posted, Journal.empty]
  threads := rfl

theorem tracedRun_accounted (h : Started start) (events : List (Event κ))
    (hrun : tracedRun be start events = .ok (vdev, j)) : Accounted start vdev j := by
  have hsteps : ∀ (events : List (Event κ)) (traced : NvmevDev μ κ × Journal μ),
      Accounted start traced.1 traced.2 →
      events.foldlM (tracedStep be) traced = .ok (vdev, j) → Accounted start vdev j := by
    intro events
    induction events with
    | nil =>
        intro traced htraced hrun
        cases hrun
        exact htraced
    | cons event events ih =>
        intro traced htraced hrun
        rw [List.foldlM_cons] at hrun
        obtain ⟨traced', hstep, hrun⟩ := exists_of_bind_eq_ok hrun
        obtain ⟨vdev', hdevice, htraced'⟩ := exists_of_bind_eq_ok hstep
        cases htraced'
        exact ih _ (htraced.step hdevice) hrun
  exact hsteps events (start, .empty) (Started.accounted h) hrun

/-- What a transfer finds when it is dispatched after the completion of `q`: the
medium as `q` left it, changed only by transfers made after that of `q`. -/
theorem Accounted.observe (h : Accounted start vdev j) {q r : Placement}
    {later middle earlier : List (Deed μ)} {seen left : μ} {w w' : IoWork}
    (hdeeds : j.deeds = later ++ .transfer r seen left :: (middle ++ .place r w :: earlier))
    (hposted : .finish q (.fillCqResult w') ∈ earlier) :
    ∃ newer before after older, earlier = newer ++ .transfer q before after :: older ∧
      ∀ (γ : Type) (f : μ → γ), f seen = f after ∨
        ∃ p b a, .transfer p b a ∈ middle ++ .place r w :: newer ∧
          f b ≠ f a ∧ f seen = f a := by
  obtain ⟨xs, ys, hfinish⟩ := List.append_of_mem hposted
  have hsplit : j.deeds = (later ++ .transfer r seen left :: (middle ++ .place r w :: xs)) ++
      .finish q (.fillCqResult w') :: ys := by
    rw [hdeeds, hfinish]
    simp
  obtain ⟨-, hmoved, -⟩ := h.ordered.justified hsplit
  obtain ⟨before, after, htransfer⟩ := mem_transfers.1 hmoved
  obtain ⟨newer, older, hys⟩ := List.append_of_mem htransfer
  refine ⟨xs ++ .finish q (.fillCqResult w') :: newer, before, after, older, ?_, ?_⟩
  · rw [hfinish, hys]
    simp
  · intro γ f
    have hthreads := h.threads
    rw [hdeeds, threads_append] at hthreads
    obtain ⟨between, hbefore, -⟩ := hthreads
    obtain ⟨-, hbefore⟩ := hbefore
    rw [hfinish, hys, threads_append] at hbefore
    obtain ⟨placed, hplaced, hmiddle⟩ := hbefore
    have hplaced' : Threads start.medium (xs ++ .finish q (.fillCqResult w') ::
        (newer ++ .transfer q before after :: older)) placed := hplaced
    rw [← List.cons_append, ← List.append_assoc, threads_append] at hplaced'
    obtain ⟨after', ⟨hafter, -⟩, hnewer⟩ := hplaced'
    subst hafter
    have hall : Threads after' (middle ++ .place r w ::
        (xs ++ .finish q (.fillCqResult w') :: newer)) seen :=
      threads_append.2 ⟨placed, hnewer, hmiddle⟩
    exact hall.observe f

end Invariant

/-- Every placed entry has its data moved at most once and is finished at most
once, in that order, and stays on the busy list until then; a transfer that was
dispatched after a completion was posted finds what that command left or what a
later transfer did. -/
theorem queued_work_executed_once (be : Backend μ κ) {start vdev : NvmevDev μ κ}
    {j : Journal μ} (hstart : Started start) (events : List (Event κ))
    (hrun : tracedRun be start events = .ok (vdev, j)) :
    (∀ later d past, j.deeds = later ++ d :: past → Justified past d) ∧
      vdev.posted = (j.deeds.filterMap Deed.posted?).reverse ∧
      ∀ (q r : Placement) (later middle earlier : List (Deed μ)) (seen left : μ)
        (w w' : IoWork),
        j.deeds = later ++ .transfer r seen left :: (middle ++ .place r w :: earlier) →
        .finish q (.fillCqResult w') ∈ earlier →
        ∃ newer before after older, earlier = newer ++ .transfer q before after :: older ∧
          ∀ (γ : Type) (f : μ → γ), f seen = f after ∨
            ∃ p b a, .transfer p b a ∈ middle ++ .place r w :: newer ∧
              f b ≠ f a ∧ f seen = f a := by
  have h := tracedRun_accounted hstart events hrun
  refine ⟨fun later d past hsplit => h.ordered.justified hsplit, h.posted, ?_⟩
  intro q r later middle earlier seen left w w' hdeeds hposted
  exact h.observe hdeeds hposted

/-- A medium of one cell: `some v` writes `v`, `none` reads. -/
def cellBackend : Backend Nat (Option Nat) where
  commandId _ := 0
  cmdIoSize _ := 512
  perform m cmd moved := (cmd.getD m, moved)

def onePair : NvmevDev Nat (Option Nat) where
  nrIoWorkers := 1
  ioWorkers _ := ioWorkerInit
  ioWorkerTurn := 0
  sqes q :=
    if q = 1 then
      some { cqid := 1, queueSize := 4, stat := emptyStat, sq := fun _ => none }
    else none
  cqes q :=
    if q = 1 then
      some
        { queueSize := 4
          phase := 1
          cqHead := 0
          cqTail := -1
          interruptReady := false
          cq := fun _ => ⟨0, 0, 0, 0, 0, 0⟩ }
    else none
  dbs _ := 0
  oldDbs _ := 0
  pass := none
  buffers _ := bufferInit 0
  medium := 0
  accepted := []
  posted := []

/-- A write of 7, dispatched and completed, and then a read. -/
def writeThenRead : List (Event (Option Nat)) :=
  [.hostWrite 1 0 (some 7), .hostRing 1 1, .beginPass 1,
    .procIo (some 7) (some ⟨0, 5, 0⟩), .reclaim, .reclaim, .procIo none none,
    .worker 0 10, .worker 0 10,
    .hostRing 1 2, .beginPass 1, .procIo none (some ⟨0, 5, 0⟩), .reclaim,
    .worker 0 20, .worker 0 20, .worker 0 20]

theorem queued_work_executed_once_write_then_read :
    ∃ vdev j, tracedRun cellBackend onePair writeThenRead = .ok (vdev, j) ∧
      (transfers j.deeds).length = 2 ∧ vdev.posted.length = 2 ∧
      ∀ later d past, j.deeds = later ++ d :: past → Justified past d := by
  obtain ⟨vdev, j, hrun, htransfers, hposted⟩ :
      ∃ vdev j, tracedRun cellBackend onePair writeThenRead = .ok (vdev, j) ∧
        (transfers j.deeds).length = 2 ∧ vdev.posted.length = 2 :=
    ⟨_, _, rfl, rfl, rfl⟩
  exact ⟨vdev, j, hrun, htransfers, hposted, (queued_work_executed_once cellBackend
    ⟨fun _ => rfl, rfl, rfl, rfl⟩ writeThenRead hrun).1⟩

end NvmeVirt.IoExecution
