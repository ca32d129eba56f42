import Mathlib.Data.List.Induction
import Mathlib.Data.List.Nodup
import Mathlib.Data.List.Perm.Basic
import Mathlib.Order.MinMax
import NvmeVirt.IoWorkers

namespace NvmeVirt.IoTable

open FaultOutcome
open IndexChain
open IoWorkers
open WriteBuffer

def body (worker : IoWorker) (e : Nat) : IoWork :=
  { worker.workQueue e with next := 0, prev := 0 }

section Links

variable (worker : IoWorker) (e v : Nat) (w : IoWork)

@[simp] theorem next_store :
    (worker.store e w).next = Function.update worker.next e w.next := by
  funext x
  by_cases hx : x = e
  · subst hx
    simp [IoWorker.store, IoWorker.next]
  · simp [IoWorker.store, IoWorker.next, hx]

@[simp] theorem prev_store :
    (worker.store e w).prev = Function.update worker.prev e w.prev := by
  funext x
  by_cases hx : x = e
  · subst hx
    simp [IoWorker.store, IoWorker.prev]
  · simp [IoWorker.store, IoWorker.prev, hx]

theorem body_store :
    body (worker.store e w) =
      Function.update (body worker) e { w with next := 0, prev := 0 } := by
  funext x
  by_cases hx : x = e
  · subst hx
    simp [IoWorker.store, body]
  · simp [IoWorker.store, body, hx]

@[simp] theorem next_setNext :
    (worker.setNext e v).next = Function.update worker.next e v := by
  rw [IoWorker.setNext, next_store]

@[simp] theorem prev_setNext : (worker.setNext e v).prev = worker.prev := by
  rw [IoWorker.setNext, prev_store]
  exact Function.update_eq_self e worker.prev

@[simp] theorem body_setNext : body (worker.setNext e v) = body worker := by
  rw [IoWorker.setNext, body_store]
  exact Function.update_eq_self e (body worker)

@[simp] theorem next_setPrev : (worker.setPrev e v).next = worker.next := by
  rw [IoWorker.setPrev, next_store]
  exact Function.update_eq_self e worker.next

@[simp] theorem prev_setPrev :
    (worker.setPrev e v).prev = Function.update worker.prev e v := by
  rw [IoWorker.setPrev, prev_store]

@[simp] theorem body_setPrev : body (worker.setPrev e v) = body worker := by
  rw [IoWorker.setPrev, body_store]
  exact Function.update_eq_self e (body worker)

end Links

/-- `free` and `busy` are the two lists threaded through the table. -/
structure Chains (worker : IoWorker) (free busy : List Nat) : Prop where
  freeLinks : Segment worker.next worker.freeSeq free noEntry
  freeNonempty : free ≠ []
  freeEnd : final noEntry free = worker.freeSeqEnd
  busyLinks : Segment worker.next worker.ioSeq busy noEntry
  busyBack : Back worker.prev noEntry busy
  busyEnd : busy ≠ [] → final noEntry busy = worker.ioSeqEnd
  exact : (free ++ busy).Perm (List.range nrMaxParallelIo)

namespace Chains

variable {worker : IoWorker} {free busy : List Nat}

theorem nodup (h : Chains worker free busy) : (free ++ busy).Nodup :=
  h.exact.nodup_iff.2 List.nodup_range

theorem lt_of_mem (h : Chains worker free busy) {e : Nat} (he : e ∈ free ++ busy) :
    e < nrMaxParallelIo :=
  List.mem_range.1 (h.exact.mem_iff.1 he)

theorem noEntry_notMem (h : Chains worker free busy) : noEntry ∉ free ++ busy := by
  intro hmem
  have hlt := h.lt_of_mem hmem
  simp [noEntry, nrMaxParallelIo] at hlt

theorem noEntry_notMem_busy (h : Chains worker free busy) : noEntry ∉ busy := by
  intro hmem
  exact h.noEntry_notMem (by simp [hmem])

theorem length_eq (h : Chains worker free busy) :
    free.length + busy.length = nrMaxParallelIo := by
  simpa using h.exact.length_eq

theorem busy_length_lt (h : Chains worker free busy) :
    busy.length < nrMaxParallelIo := by
  have hfree := List.length_pos_iff.2 h.freeNonempty
  have htotal := h.length_eq
  omega

end Chains

def freeList (worker : IoWorker) : List Nat :=
  follow worker.next noEntry nrMaxParallelIo worker.freeSeq

def busyList (worker : IoWorker) : List Nat :=
  follow worker.next noEntry nrMaxParallelIo worker.ioSeq

theorem Chains.freeList_eq {worker : IoWorker} {free busy : List Nat}
    (h : Chains worker free busy) : freeList worker = free := by
  refine follow_eq h.freeLinks ?_ ?_
  · intro hmem
    exact h.noEntry_notMem (by simp [hmem])
  · have htotal := h.length_eq
    omega

theorem Chains.busyList_eq {worker : IoWorker} {free busy : List Nat}
    (h : Chains worker free busy) : busyList worker = busy :=
  follow_eq h.busyLinks h.noEntry_notMem_busy (Nat.le_of_lt h.busy_length_lt)

section Insertion

variable {worker : IoWorker} {free busy rest : List Nat} {entry nsecsTarget fuel : Nat}

/-- The scan stops behind the last entry that is due or not later than the new
one. -/
theorem insertPoint_spec (worker : IoWorker) (nsecsTarget : Nat)
    (hback : Back worker.prev noEntry busy)
    (hno : noEntry ∉ busy) (hfuel : busy.length < fuel) :
    ∃ before after, busy = before ++ after ∧
      insertPoint worker nsecsTarget fuel (final noEntry busy) =
        .ok (final noEntry before) ∧
      (∀ x ∈ after, worker.latestNsecs < (body worker x).nsecsTarget ∧
        nsecsTarget < (body worker x).nsecsTarget) ∧
      (before ≠ [] →
        (body worker (final noEntry before)).nsecsTarget ≤
          max worker.latestNsecs nsecsTarget) := by
  induction busy using List.reverseRecOn generalizing fuel with
  | nil =>
      obtain ⟨fuel, rfl⟩ := Nat.exists_eq_add_one.2 hfuel
      exact ⟨[], [], rfl, by simp [insertPoint], by simp, by simp⟩
  | append_singleton xs x ih =>
      obtain ⟨fuel, rfl⟩ := Nat.exists_eq_add_one.2 (Nat.zero_lt_of_lt hfuel)
      simp only [List.mem_append, List.mem_singleton, not_or] at hno
      simp only [List.length_append, List.length_singleton] at hfuel
      obtain ⟨hxs, hx, -⟩ := back_append.1 hback
      rw [final_append, final_cons, final_nil, insertPoint, if_neg (Ne.symm hno.2)]
      by_cases hdue : (worker.workQueue x).nsecsTarget ≤
          max worker.latestNsecs nsecsTarget
      · refine ⟨xs ++ [x], [], by simp, ?_, by simp, fun _ => by simpa [body] using hdue⟩
        rw [final_append, final_cons, final_nil]
        rcases le_max_iff.1 hdue with h | h
        · rw [if_pos h]
        · rw [if_pos h, ite_self]
      · obtain ⟨hlate, hafter⟩ := max_lt_iff.1 (not_le.1 hdue)
        obtain ⟨before, after, rfl, hpoint, hrest, hbefore⟩ :=
          ih hxs hno.1 (by omega : xs.length < fuel)
        refine ⟨before, after ++ [x], by simp, ?_, ?_, hbefore⟩
        · rw [if_neg (not_le.2 hlate), if_neg (not_le.2 hafter), hx, hpoint]
        · intro y hy
          rcases List.mem_append.1 hy with hy | hy
          · exact hrest y hy
          · rw [List.mem_singleton.1 hy]
            exact ⟨hlate, hafter⟩

/-- The table between the allocation of `entry` and its insertion. -/
structure Pending (worker : IoWorker) (rest busy : List Nat) (entry : Nat) : Prop where
  freeLinks : Segment worker.next worker.freeSeq rest noEntry
  freeNonempty : rest ≠ []
  freeEnd : final noEntry rest = worker.freeSeqEnd
  busyLinks : Segment worker.next worker.ioSeq busy noEntry
  busyBack : Back worker.prev noEntry busy
  busyEnd : busy ≠ [] → final noEntry busy = worker.ioSeqEnd
  exact : (entry :: (rest ++ busy)).Perm (List.range nrMaxParallelIo)
  entryNext : worker.next entry = noEntry
  entryPrev : worker.prev entry = noEntry

/-- `worker'` is `worker` with other links; only the busy list moved. -/
structure Relinked (worker worker' : IoWorker) : Prop where
  body : body worker' = body worker
  freeSeq : worker'.freeSeq = worker.freeSeq
  freeSeqEnd : worker'.freeSeqEnd = worker.freeSeqEnd
  latestNsecs : worker'.latestNsecs = worker.latestNsecs
  curr : worker'.curr = worker.curr

namespace Pending

variable {worker' : IoWorker} {after : List Nat}

theorem nodup (h : Pending worker rest busy entry) :
    (entry :: (rest ++ busy)).Nodup :=
  h.exact.nodup_iff.2 List.nodup_range

theorem ne_noEntry (h : Pending worker rest busy entry) {e : Nat}
    (he : e ∈ entry :: (rest ++ busy)) : e ≠ noEntry := by
  have hlt := List.mem_range.1 (h.exact.mem_iff.1 he)
  rintro rfl
  simp [noEntry, nrMaxParallelIo] at hlt

theorem chains (before : List Nat) (h : Pending worker rest (before ++ after) entry)
    (hkeep : Relinked worker worker')
    (hnext : ∀ x ∈ rest, worker'.next x = worker.next x)
    (hlinks : Segment worker'.next worker'.ioSeq (before ++ entry :: after) noEntry)
    (hback : Back worker'.prev noEntry (before ++ entry :: after))
    (hend : final noEntry (before ++ entry :: after) = worker'.ioSeqEnd) :
    Chains worker' rest (before ++ entry :: after) where
  freeLinks := by
    rw [hkeep.freeSeq]
    exact h.freeLinks.congr hnext
  freeNonempty := h.freeNonempty
  freeEnd := by
    rw [hkeep.freeSeqEnd]
    exact h.freeEnd
  busyLinks := hlinks
  busyBack := hback
  busyEnd := fun _ => hend
  exact := by
    refine List.Perm.trans ?_ h.exact
    rw [← List.append_assoc, ← List.append_assoc]
    exact List.perm_middle

end Pending

section Branches

variable {worker' : IoWorker} {before after : List Nat} {curr : Nat}

theorem Pending.entry_ne (h : Pending worker rest busy entry) {x : Nat}
    (hx : x ∈ rest ++ busy) : x ≠ entry := by
  rintro rfl
  exact (List.nodup_cons.1 h.nodup).1 hx

theorem Pending.nodup_busy (h : Pending worker rest busy entry) : busy.Nodup :=
  (List.nodup_append.1 (List.nodup_cons.1 h.nodup).2).2.1

theorem Pending.rest_ne (h : Pending worker rest busy entry) {x y : Nat}
    (hx : x ∈ rest) (hy : y ∈ busy) : x ≠ y :=
  (List.nodup_append.1 (List.nodup_cons.1 h.nodup).2).2.2 x hx y hy

def headInserted (worker : IoWorker) (entry : Nat) : IoWorker :=
  { (worker.setPrev worker.ioSeq entry).setNext entry worker.ioSeq with ioSeq := entry }

theorem headInserted_next : (headInserted worker entry).next =
    Function.update worker.next entry worker.ioSeq := by
  change ((worker.setPrev worker.ioSeq entry).setNext entry worker.ioSeq).next = _
  simp

theorem headInserted_prev : (headInserted worker entry).prev =
    Function.update worker.prev worker.ioSeq entry := by
  change ((worker.setPrev worker.ioSeq entry).setNext entry worker.ioSeq).prev = _
  simp

theorem headInserted_relinked : Relinked worker (headInserted worker entry) where
  body := by
    change body ((worker.setPrev worker.ioSeq entry).setNext entry worker.ioSeq) = _
    simp
  freeSeq := rfl
  freeSeqEnd := rfl
  latestNsecs := rfl
  curr := rfl

theorem headInserted_chains (h : Pending worker rest busy entry) (hne : busy ≠ []) :
    Chains (headInserted worker entry) rest (entry :: busy) := by
  obtain ⟨y, ys, rfl⟩ := List.exists_cons_of_ne_nil hne
  have hy : worker.ioSeq = y := h.busyLinks.1
  have hnodup := List.nodup_cons.1 h.nodup_busy
  refine Pending.chains [] h headInserted_relinked ?_ ?_ ?_ (h.busyEnd hne)
  · intro x hx
    rw [headInserted_next, Function.update_of_ne (h.entry_ne (by simp [hx]))]
  · refine ⟨rfl, ?_⟩
    rw [headInserted_next, Function.update_self]
    refine h.busyLinks.congr fun x hx => ?_
    rw [Function.update_of_ne (h.entry_ne (List.mem_append_right _ hx))]
  · rw [headInserted_prev, hy]
    have hback : Back worker.prev noEntry ([] ++ y :: ys) := h.busyBack
    refine hback.insert ?_ (by simp) (by simp) ?_
    · rw [Function.update_of_ne (h.entry_ne (by simp)).symm]
      exact h.entryPrev
    · rintro x hx
      rw [Function.update_of_ne]
      rintro rfl
      exact hnodup.1 hx

def tailInserted (worker : IoWorker) (entry curr : Nat) : IoWorker :=
  { worker.setPrev entry curr with ioSeqEnd := entry }.setNext curr entry

theorem tailInserted_next : (tailInserted worker entry curr).next =
    Function.update worker.next curr entry := by
  rw [tailInserted, next_setNext]
  exact congrArg (fun g => Function.update g curr entry) (next_setPrev ..)

theorem tailInserted_prev : (tailInserted worker entry curr).prev =
    Function.update worker.prev entry curr := by
  rw [tailInserted, prev_setNext]
  exact prev_setPrev ..

theorem tailInserted_relinked : Relinked worker (tailInserted worker entry curr) where
  body := by
    rw [tailInserted, body_setNext]
    exact body_setPrev ..
  freeSeq := rfl
  freeSeqEnd := rfl
  latestNsecs := rfl
  curr := rfl

def betweenInserted (worker : IoWorker) (entry curr : Nat) : IoWorker :=
  let worker := worker.setPrev entry curr
  let worker := worker.setNext entry (worker.next curr)
  let worker := worker.setPrev (worker.next entry) entry
  worker.setNext curr entry

theorem betweenInserted_next : (betweenInserted worker entry curr).next =
    Function.update (Function.update worker.next entry (worker.next curr)) curr entry := by
  simp [betweenInserted]

theorem betweenInserted_prev : (betweenInserted worker entry curr).prev =
    Function.update (Function.update worker.prev entry curr) (worker.next curr) entry := by
  simp [betweenInserted]

theorem betweenInserted_relinked :
    Relinked worker (betweenInserted worker entry curr) where
  body := by simp [betweenInserted]
  freeSeq := rfl
  freeSeqEnd := rfl
  latestNsecs := rfl
  curr := rfl

theorem behind_chains (h : Pending worker rest (before ++ after) entry)
    (hne : before ≠ []) (hcurr : final noEntry before = curr)
    (hkeep : Relinked worker worker') (hseq : worker'.ioSeq = worker.ioSeq)
    (hnext : worker'.next =
      Function.update (Function.update worker.next entry (worker.next curr)) curr entry)
    (hentry : worker'.prev entry = curr)
    (hhead : ∀ y ∈ after.head?, worker'.prev y = entry)
    (hbefore : ∀ x ∈ before, worker'.prev x = worker.prev x)
    (htail : ∀ x ∈ after.tail, worker'.prev x = worker.prev x)
    (hend : final noEntry (before ++ entry :: after) = worker'.ioSeqEnd) :
    Chains worker' rest (before ++ entry :: after) := by
  have hmem : curr ∈ before := hcurr ▸ final_mem hne
  have hcurrne : curr ≠ entry := h.entry_ne (by simp [hmem])
  refine Pending.chains before h hkeep ?_ ?_ ?_ hend
  · intro x hx
    rw [hnext, Function.update_of_ne (h.rest_ne hx (List.mem_append_left _ hmem)),
      Function.update_of_ne (h.entry_ne (List.mem_append_left _ hx))]
  · rw [hseq, hnext]
    refine h.busyLinks.insert (p := noEntry) hne h.nodup_busy ?_ ?_ ?_
    · rw [hcurr, Function.update_self]
    · rw [hcurr, Function.update_of_ne hcurrne.symm, Function.update_self]
    · intro x hx hxne
      rw [hcurr] at hxne
      rw [Function.update_of_ne hxne,
        Function.update_of_ne (h.entry_ne (List.mem_append_right _ hx))]
  · exact h.busyBack.insert (hentry.trans hcurr.symm) hbefore hhead htail

theorem tailInserted_chains (h : Pending worker rest before entry) (hne : before ≠ [])
    (hcurr : final noEntry before = curr) :
    Chains (tailInserted worker entry curr) rest (before ++ [entry]) := by
  have hlast : worker.next curr = noEntry := hcurr ▸ h.busyLinks.next_final hne
  have hlinks : Pending worker rest (before ++ []) entry := by
    rw [List.append_nil]
    exact h
  refine behind_chains hlinks hne hcurr tailInserted_relinked rfl ?_ ?_ (by simp) ?_
    (by simp) ?_
  · have hself : Function.update worker.next entry (worker.next curr) = worker.next := by
      rw [hlast, ← h.entryNext]
      exact Function.update_eq_self entry worker.next
    rw [tailInserted_next, hself]
  · rw [tailInserted_prev, Function.update_self]
  · intro x hx
    rw [tailInserted_prev, Function.update_of_ne (h.entry_ne (by simp [hx]))]
  · simp only [final_append, final_cons, final_nil]
    rfl

theorem betweenInserted_chains {y : Nat} {ys : List Nat}
    (h : Pending worker rest (before ++ y :: ys) entry) (hne : before ≠ [])
    (hcurr : final noEntry before = curr) :
    Chains (betweenInserted worker entry curr) rest (before ++ entry :: y :: ys) := by
  have hy : worker.next curr = y := by
    obtain ⟨c, hbefore, hc⟩ := segment_append.1 h.busyLinks
    rw [← hcurr, hbefore.next_final hne]
    exact hc.1
  have hyne : y ≠ entry := h.entry_ne (by simp)
  have hnodup := List.nodup_append.1 h.nodup_busy
  refine behind_chains h hne hcurr betweenInserted_relinked rfl betweenInserted_next ?_
    ?_ ?_ ?_ ?_
  · rw [betweenInserted_prev, hy, Function.update_of_ne hyne.symm, Function.update_self]
  · intro z hz
    obtain rfl : y = z := by simpa using hz
    rw [betweenInserted_prev, hy, Function.update_self]
  · intro x hx
    rw [betweenInserted_prev, hy, Function.update_of_ne (hnodup.2.2 x hx y (by simp)),
      Function.update_of_ne (h.entry_ne (by simp [hx]))]
  · intro x hx
    have hx' : x ∈ ys := hx
    rw [betweenInserted_prev, hy, Function.update_of_ne,
      Function.update_of_ne (h.entry_ne (by simp [hx']))]
    rintro rfl
    exact (List.nodup_cons.1 hnodup.2.1).1 hx'
  · have hend := h.busyEnd (by simp)
    rw [final_append, final_cons] at hend
    rw [final_append, final_cons, final_cons]
    exact hend

end Branches

/-- Where `__insert_req_sorted` put an entry with target time `nsecsTarget`:
behind everything that was due or not later, before everything later. -/
structure Sorted (worker : IoWorker) (nsecsTarget : Nat) (before after : List Nat) :
    Prop where
  later : ∀ x ∈ after, max worker.latestNsecs nsecsTarget <
    (body worker x).nsecsTarget
  notLater : before ≠ [] → (body worker (final noEntry before)).nsecsTarget ≤
    max worker.latestNsecs nsecsTarget

theorem insertReqSorted_spec (nsecsTarget : Nat)
    (h : Pending worker rest busy entry) :
    ∃ before after worker', busy = before ++ after ∧
      insertReqSorted entry worker nsecsTarget = .ok worker' ∧
      Chains worker' rest (before ++ entry :: after) ∧
      Relinked worker worker' ∧ Sorted worker nsecsTarget before after := by
  by_cases hempty : busy = []
  · subst hempty
    have hseq : worker.ioSeq = noEntry := h.busyLinks
    have hkeep : Relinked worker { worker with ioSeq := entry, ioSeqEnd := entry } :=
      ⟨rfl, rfl, rfl, rfl, rfl⟩
    refine ⟨[], [], _, rfl, ?_, ?_, hkeep, by simp, by simp⟩
    · rw [insertReqSorted, if_pos hseq]
    · exact Pending.chains [] h hkeep (fun _ _ => rfl) ⟨rfl, h.entryNext⟩
        ⟨h.entryPrev, trivial⟩ rfl
  · have hseq : worker.ioSeq ≠ noEntry := by
      obtain ⟨y, ys, rfl⟩ := List.exists_cons_of_ne_nil hempty
      rw [h.busyLinks.1]
      exact h.ne_noEntry (by simp)
    have hno : noEntry ∉ busy := fun hmem => h.ne_noEntry (by simp [hmem]) rfl
    have hlength : busy.length < nrMaxParallelIo + 1 := by
      have htotal := h.exact.length_eq
      simp only [List.length_cons, List.length_append, List.length_range] at htotal
      omega
    obtain ⟨before, after, rfl, hpoint, hlater, hnotLater⟩ :=
      insertPoint_spec worker nsecsTarget h.busyBack hno hlength
    rw [h.busyEnd hempty] at hpoint
    have hsorted : Sorted worker nsecsTarget before after :=
      ⟨fun x hx => max_lt (hlater x hx).1 (hlater x hx).2, hnotLater⟩
    rw [insertReqSorted, if_neg hseq, hpoint, ok_bind]
    rcases List.eq_nil_or_concat before with rfl | ⟨init, last, rfl⟩
    · refine ⟨[], after, headInserted worker entry, rfl, ?_,
        headInserted_chains h hempty, headInserted_relinked, hsorted⟩
      rw [final_nil, if_pos rfl]
      rfl
    · rw [List.concat_eq_append] at *
      have hne : init ++ [last] ≠ [] := by simp
      have hlast : final noEntry (init ++ [last]) = last := by simp
      have hlastne : last ≠ noEntry := h.ne_noEntry (by simp)
      rw [hlast, if_neg hlastne]
      cases after with
      | nil =>
          rw [List.append_nil] at h
          refine ⟨init ++ [last], [], tailInserted worker entry last, by simp, ?_,
            tailInserted_chains h hne hlast, tailInserted_relinked, hsorted⟩
          rw [if_pos (hlast ▸ h.busyLinks.next_final hne)]
          rfl
      | cons y ys =>
          refine ⟨init ++ [last], y :: ys, betweenInserted worker entry last, rfl, ?_,
            betweenInserted_chains h hne hlast, betweenInserted_relinked, hsorted⟩
          have hy : worker.next last ≠ noEntry := by
            obtain ⟨c, hbefore, hc⟩ := segment_append.1 h.busyLinks
            rw [← hlast, hbefore.next_final hne, hc.1]
            exact h.ne_noEntry (by simp)
          rw [if_neg hy]
          rfl

structure Enqueued (r : Request) (worker worker' : IoWorker) (free busy : List Nat)
    (entry : Nat) (rest before after : List Nat) : Prop where
  free_eq : free = entry :: rest
  busy_eq : busy = before ++ after
  chains : Chains worker' rest (before ++ entry :: after)
  body : body worker' = Function.update (body worker) entry
    { r.fill (worker.workQueue entry) with next := 0, prev := 0 }
  latestNsecs : worker'.latestNsecs = worker.latestNsecs
  curr : worker'.curr = worker.curr
  sorted : Sorted worker r.nsecsTarget before after

theorem fill_next (r : Request) (w : IoWork) : (r.fill w).next = noEntry := by
  cases r <;> rfl

theorem fill_prev (r : Request) (w : IoWork) : (r.fill w).prev = noEntry := by
  cases r <;> rfl

/-- `__allocate_work_queue_entry` would find an entry. -/
def HasSlot (worker : IoWorker) : Prop :=
  worker.next worker.freeSeq < nrMaxParallelIo

instance (worker : IoWorker) : Decidable (HasSlot worker) :=
  inferInstanceAs (Decidable (_ < _))

theorem Chains.hasSlot_iff (h : Chains worker free busy) :
    HasSlot worker ↔ ∃ entry rest, free = entry :: rest ∧ rest ≠ [] := by
  obtain ⟨e, rest, rfl⟩ := List.exists_cons_of_ne_nil h.freeNonempty
  obtain ⟨hseq, hrest⟩ := h.freeLinks
  rw [HasSlot, hseq]
  cases rest with
  | nil =>
      rw [segment_nil] at hrest
      simp [hrest, noEntry, nrMaxParallelIo]
  | cons y ys =>
      rw [hrest.1]
      have hy : y < nrMaxParallelIo := h.lt_of_mem (by simp)
      simp [hy]

theorem Chains.allocated {entry : Nat} (h : Chains worker (entry :: rest) busy)
    (hne : rest ≠ []) (r : Request) :
    Pending (({ worker with freeSeq := worker.next entry } : IoWorker).store entry
      (r.fill (worker.workQueue entry))) rest busy entry := by
  have hnodup := List.nodup_cons.1 h.nodup
  have hstore : ∀ (g : Nat → Nat) (v : Nat), ∀ x ∈ rest ++ busy,
      Function.update g entry v x = g x := by
    intro g v x hx
    rw [Function.update_of_ne]
    rintro rfl
    exact hnodup.1 hx
  constructor
  · rw [next_store]
    exact h.freeLinks.2.congr fun x hx => hstore _ _ x (by simp [hx])
  · exact hne
  · rw [final_congr entry hne]
    exact h.freeEnd
  · rw [next_store]
    exact h.busyLinks.congr fun x hx => hstore _ _ x (by simp [hx])
  · rw [prev_store]
    exact h.busyBack.congr fun x hx => hstore _ _ x (by simp [hx])
  · exact h.busyEnd
  · exact h.exact
  · rw [next_store, Function.update_self, fill_next]
  · rw [prev_store, Function.update_self, fill_prev]

theorem allocateWorkQueueEntry_of_slot (hslot : HasSlot worker) :
    allocateWorkQueueEntry worker = .ok (some (worker.freeSeq,
      { worker with freeSeq := worker.next worker.freeSeq })) := by
  have hassert : worker.next worker.freeSeq < nrMaxParallelIo := hslot
  simp [allocateWorkQueueEntry, not_le.2 hassert, nvmevAssert_of hassert]

theorem enqueue_refused (r : Request) (hslot : ¬HasSlot worker) :
    enqueue r worker = .ok worker := by
  have hfull : nrMaxParallelIo ≤ worker.next worker.freeSeq := not_lt.1 hslot
  simp [enqueue, allocateWorkQueueEntry, hfull]
  rfl

theorem enqueue_spec (h : Chains worker free busy) (r : Request)
    (hslot : HasSlot worker) :
    ∃ worker' entry rest before after, enqueue r worker = .ok worker' ∧
      Enqueued r worker worker' free busy entry rest before after := by
  obtain ⟨entry, rest, rfl, hne⟩ := h.hasSlot_iff.1 hslot
  have hseq : worker.freeSeq = entry := h.freeLinks.1
  obtain ⟨before, after, worker', rfl, hinsert, hchains, hkeep, hsorted⟩ :=
    insertReqSorted_spec r.nsecsTarget (h.allocated hne r)
  have hbody := hkeep.body
  rw [body_store] at hbody
  have hnodup := List.nodup_cons.1 h.nodup
  have hold : ∀ x ∈ before ++ after, body (({ worker with freeSeq := worker.next entry }
      : IoWorker).store entry (r.fill (worker.workQueue entry))) x = body worker x := by
    intro x hx
    rw [body_store, Function.update_of_ne]
    · rfl
    · rintro rfl
      exact hnodup.1 (List.mem_append_right rest hx)
  refine ⟨worker', entry, rest, before, after, ?_, rfl, rfl, hchains, hbody,
    hkeep.latestNsecs, hkeep.curr, ?_, ?_⟩
  · rw [enqueue, allocateWorkQueueEntry_of_slot hslot, ok_bind, hseq]
    exact hinsert
  · intro x hx
    have hlater := hsorted.later x hx
    rwa [hold x (by simp [hx])] at hlater
  · intro hbefore
    have hlast := hsorted.notLater hbefore
    rwa [hold _ (by simp [final_mem hbefore])] at hlast

end Insertion

section Reclaim

variable {worker : IoWorker} {free busy taken rest : List Nat}

theorem lastCompleted_spec (lastEntry : Nat) {a fuel : Nat}
    (h : Segment worker.next a busy noEntry) (hno : noEntry ∉ busy)
    (hfuel : busy.length < fuel) :
    lastCompleted worker fuel a lastEntry =
      .ok (final lastEntry (busy.takeWhile worker.reclaimable)) := by
  induction busy generalizing a lastEntry fuel with
  | nil =>
      obtain ⟨fuel, rfl⟩ := Nat.exists_eq_add_one.2 hfuel
      rw [segment_nil] at h
      rw [lastCompleted, if_pos h]
      rfl
  | cons x xs ih =>
      obtain ⟨fuel, rfl⟩ := Nat.exists_eq_add_one.2 (Nat.zero_lt_of_lt hfuel)
      obtain ⟨rfl, hxs⟩ := h
      rw [List.mem_cons, not_or] at hno
      rw [lastCompleted, if_neg (Ne.symm hno.1)]
      by_cases hx : worker.reclaimable a
      · rw [if_pos hx, ih a hxs hno.2 (by simpa using hfuel),
          List.takeWhile_cons_of_pos hx, final_cons]
      · rw [if_neg hx, List.takeWhile_cons_of_neg hx, final_nil]

/-- The busy list starts at `rest` from now on. -/
def restarted (worker : IoWorker) (rest : Nat) : IoWorker :=
  let worker := { worker with ioSeq := rest }
  if rest = noEntry then worker else worker.setPrev rest noEntry

/-- The splice of `__reclaim_completed_reqs`. -/
def spliced (worker : IoWorker) (firstEntry lastEntry : Nat) : IoWorker :=
  let worker := restarted worker (worker.next lastEntry)
  let worker := worker.setNext lastEntry noEntry
  let worker := worker.setPrev firstEntry worker.freeSeqEnd
  let worker := worker.setNext worker.freeSeqEnd firstEntry
  { worker with freeSeqEnd := lastEntry }

structure Spliced (worker worker' : IoWorker) (firstEntry lastEntry : Nat) : Prop where
  next : worker'.next = Function.update (Function.update worker.next lastEntry noEntry)
    worker.freeSeqEnd firstEntry
  prev : ∀ x, x ≠ firstEntry → worker'.prev x =
    if x = worker.next lastEntry ∧ x ≠ noEntry then noEntry else worker.prev x
  body : body worker' = body worker
  freeSeq : worker'.freeSeq = worker.freeSeq
  freeSeqEnd : worker'.freeSeqEnd = lastEntry
  ioSeq : worker'.ioSeq = worker.next lastEntry
  ioSeqEnd : worker'.ioSeqEnd = worker.ioSeqEnd
  latestNsecs : worker'.latestNsecs = worker.latestNsecs
  curr : worker'.curr = worker.curr

theorem restarted_cases (worker : IoWorker) (r : Nat) :
    (r = noEntry ∧ restarted worker r = { worker with ioSeq := r }) ∨
    (r ≠ noEntry ∧
      restarted worker r = { worker with ioSeq := r }.setPrev r noEntry) := by
  by_cases hr : r = noEntry
  · exact .inl ⟨hr, by rw [restarted, if_pos hr]⟩
  · exact .inr ⟨hr, by rw [restarted, if_neg hr]⟩

theorem spliced_spec (worker : IoWorker) (firstEntry lastEntry : Nat) :
    Spliced worker (spliced worker firstEntry lastEntry) firstEntry lastEntry := by
  rcases restarted_cases worker (worker.next lastEntry) with
    ⟨hr, heq⟩ | ⟨hr, heq⟩
  · rw [spliced, heq]
    refine ⟨?_, ?_, ?_, rfl, rfl, rfl, rfl, rfl, rfl⟩
    · change IoWorker.next (IoWorker.setNext _ _ _) = _
      rw [next_setNext, next_setPrev, next_setNext]
      rfl
    · intro x hx
      change IoWorker.prev (IoWorker.setNext _ _ _) x = _
      rw [prev_setNext, prev_setPrev, Function.update_of_ne hx, prev_setNext, if_neg]
      · rfl
      · rw [hr]
        tauto
    · change IoTable.body (IoWorker.setNext _ _ _) = _
      rw [body_setNext, body_setPrev, body_setNext]
      rfl
  · rw [spliced, heq]
    refine ⟨?_, ?_, ?_, rfl, rfl, rfl, rfl, rfl, rfl⟩
    · change IoWorker.next (IoWorker.setNext _ _ _) = _
      rw [next_setNext, next_setPrev, next_setNext, next_setPrev]
      rfl
    · intro x hx
      change IoWorker.prev (IoWorker.setNext _ _ _) x = _
      rw [prev_setNext, prev_setPrev, Function.update_of_ne hx, prev_setNext, prev_setPrev]
      by_cases hrest : x = worker.next lastEntry
      · subst hrest
        rw [Function.update_self, if_pos ⟨rfl, hr⟩]
      · rw [Function.update_of_ne hrest, if_neg (fun h => hrest h.1)]
        rfl
    · change IoTable.body (IoWorker.setNext _ _ _) = _
      rw [body_setNext, body_setPrev, body_setNext, body_setPrev]
      rfl

theorem Spliced.chains {worker' : IoWorker} {firstEntry lastEntry : Nat}
    (h : Spliced worker worker' firstEntry lastEntry)
    (hchains : Chains worker free (taken ++ rest)) (hne : taken ≠ [])
    (hfirst : worker.ioSeq = firstEntry) (hlast : final noEntry taken = lastEntry) :
    Chains worker' (free ++ taken) rest := by
  have hlastmem : lastEntry ∈ taken := hlast ▸ final_mem hne
  have hendmem : worker.freeSeqEnd ∈ free := hchains.freeEnd ▸ final_mem hchains.freeNonempty
  have hnodup := List.nodup_append.1 hchains.nodup
  have hbusy := List.nodup_append.1 hnodup.2.1
  obtain ⟨c, htaken, hrest⟩ := segment_append.1 hchains.busyLinks
  have hc : worker.next lastEntry = c := hlast ▸ htaken.next_final hne
  have hfree : ∀ x ∈ free, x ≠ lastEntry := fun x hx =>
    hnodup.2.2 x hx lastEntry (by simp [hlastmem])
  have hend : ∀ x ∈ taken ++ rest, x ≠ worker.freeSeqEnd := fun x hx =>
    (hnodup.2.2 _ hendmem x hx).symm
  constructor
  · rw [h.freeSeq, h.next]
    refine segment_append.2 ⟨firstEntry, ?_, ?_⟩
    · refine hchains.freeLinks.redirect (p := noEntry) hchains.freeNonempty hnodup.1 ?_ ?_
      · rw [hchains.freeEnd, Function.update_self]
      · intro x hx hxne
        rw [hchains.freeEnd] at hxne
        rw [Function.update_of_ne hxne, Function.update_of_ne (hfree x hx)]
    · rw [← hfirst]
      refine htaken.redirect (p := noEntry) hne hbusy.1 ?_ ?_
      · rw [hlast, Function.update_of_ne (hend _ (by simp [hlastmem])),
          Function.update_self]
      · intro x hx hxne
        rw [hlast] at hxne
        rw [Function.update_of_ne (hend x (by simp [hx])), Function.update_of_ne hxne]
  · simp [hne]
  · rw [final_append, h.freeSeqEnd, ← hlast]
    exact final_congr noEntry hne
  · rw [h.ioSeq, h.next, hc]
    refine hrest.congr fun x hx => ?_
    rw [Function.update_of_ne (hend x (by simp [hx])), Function.update_of_ne]
    exact (hbusy.2.2 lastEntry hlastmem x hx).symm
  · have hfirstmem : firstEntry ∈ taken := by
      obtain ⟨y, ys, rfl⟩ := List.exists_cons_of_ne_nil hne
      rw [← hfirst, htaken.1]
      simp
    have hnotfirst : ∀ x ∈ rest, x ≠ firstEntry := fun x hx =>
      (hbusy.2.2 firstEntry hfirstmem x hx).symm
    have hback := (back_append.1 hchains.busyBack).2
    cases rest with
    | nil => trivial
    | cons y ys =>
        have hy : y ≠ noEntry := by
          rintro rfl
          exact hchains.noEntry_notMem_busy (by simp)
        have hstart : y = worker.next lastEntry := by
          rw [hc, hrest.1]
        refine ⟨?_, hback.2.congr fun x hx => ?_⟩
        · rw [h.prev y (hnotfirst y (by simp)), if_pos ⟨hstart, hy⟩]
        · rw [h.prev x (hnotfirst x (by simp [hx])), if_neg]
          rintro ⟨hx', -⟩
          rw [hx', ← hstart] at hx
          exact (List.nodup_cons.1 hbusy.2.1).1 hx
  · intro hrestne
    rw [h.ioSeqEnd, ← hchains.busyEnd (by simp [hne]), final_append]
    exact final_congr _ hrestne
  · rw [List.append_assoc]
    exact hchains.exact

/-- The completed front of the busy list goes to the end of the free list. -/
theorem reclaimCompletedReqs_spec (h : Chains worker free busy) :
    ∃ worker', reclaimCompletedReqs worker = .ok worker' ∧
      Chains worker' (free ++ busy.takeWhile worker.reclaimable)
        (busy.dropWhile worker.reclaimable) ∧
      body worker' = body worker ∧
      worker'.latestNsecs = worker.latestNsecs ∧ worker'.curr = worker.curr := by
  have hscan := lastCompleted_spec noEntry h.busyLinks
    h.noEntry_notMem_busy (Nat.lt_succ_of_lt h.busy_length_lt)
  have hsplit := List.takeWhile_append_dropWhile (p := worker.reclaimable) (l := busy)
  rw [reclaimCompletedReqs, hscan, ok_bind]
  by_cases htaken : busy.takeWhile worker.reclaimable = []
  · rw [htaken, List.nil_append] at hsplit
    refine ⟨worker, ?_, ?_, rfl, rfl, rfl⟩
    · rw [htaken, final_nil, if_pos rfl]
      rfl
    · rw [htaken, List.append_nil, hsplit]
      exact h
  · rw [← hsplit] at h
    have hmem := final_mem (p := noEntry) htaken
    have hlast : final noEntry (busy.takeWhile worker.reclaimable) ≠ noEntry := by
      intro heq
      rw [heq] at hmem
      exact h.noEntry_notMem_busy (List.mem_append_left _ hmem)
    have hstores := spliced_spec worker worker.ioSeq
      (final noEntry (busy.takeWhile worker.reclaimable))
    refine ⟨_, ?_, hstores.chains h htaken rfl rfl, hstores.body, hstores.latestNsecs,
      hstores.curr⟩
    rw [if_neg hlast]
    rfl

end Reclaim

section Step

variable {worker : IoWorker} {free busy : List Nat}

theorem copied_next (w : IoWork) (moved : Nat × Nat) :
    (copied w moved).next = w.next := by
  obtain ⟨status, result0, hcopied⟩ := copied_eq w moved
  rw [hcopied]

theorem copied_prev (w : IoWork) (moved : Nat × Nat) :
    (copied w moved).prev = w.prev := by
  obtain ⟨status, result0, hcopied⟩ := copied_eq w moved
  rw [hcopied]

/-- What a step of the worker thread can do to its table. -/
inductive WorkerStep (worker : IoWorker) (now : Nat) (moved : Nat × Nat) :
    IoWorker × Option Effect → Prop where
  | restart (h : worker.curr = noEntry) :
      WorkerStep worker now moved ({ worker with curr := worker.ioSeq }, none)
  | skip (h : worker.curr ≠ noEntry)
      (hdone : (worker.workQueue worker.curr).isCompleted = true) :
      WorkerStep worker now moved
        ({ worker with
          latestNsecs := now
          curr := (worker.workQueue worker.curr).next }, none)
  | wait (w : IoWork) (h : worker.curr ≠ noEntry)
      (hopen : (worker.workQueue worker.curr).isCompleted = false)
      (hw : w = copied (worker.workQueue worker.curr) moved)
      (hdue : now < w.nsecsTarget) :
      WorkerStep worker now moved
        ({ worker.store worker.curr w with latestNsecs := now, curr := w.next }, none)
  | complete (w : IoWork) (h : worker.curr ≠ noEntry)
      (hopen : (worker.workQueue worker.curr).isCompleted = false)
      (hw : w = copied (worker.workQueue worker.curr) moved)
      (hdue : w.nsecsTarget ≤ now) :
      WorkerStep worker now moved
        ({ worker.store worker.curr { w with isCompleted := true } with
          latestNsecs := now
          curr := w.next }, some w.finish)

theorem ioWorkerStep_cases (worker : IoWorker) (now : Nat) (moved : Nat × Nat) :
    WorkerStep worker now moved (ioWorkerStep worker now moved) := by
  by_cases hcurr : worker.curr = noEntry
  · rw [ioWorkerStep, if_pos hcurr]
    exact .restart hcurr
  · rw [ioWorkerStep, if_neg hcurr]
    cases hdone : (worker.workQueue worker.curr).isCompleted with
    | true =>
        simp only [hdone, if_true]
        exact .skip hcurr hdone
    | false =>
        simp only [hdone, Bool.false_eq_true, if_false]
        by_cases hdue : (copied (worker.workQueue worker.curr) moved).nsecsTarget ≤ now
        · rw [if_pos hdue]
          exact .complete _ hcurr hdone rfl hdue
        · rw [if_neg hdue]
          exact .wait _ hcurr hdone rfl (not_le.1 hdue)

theorem ioWorkerStep_chains (h : Chains worker free busy) (now : Nat)
    (moved : Nat × Nat) : Chains (ioWorkerStep worker now moved).1 free busy := by
  have hstore : ∀ w : IoWork, w.next = (worker.workQueue worker.curr).next →
      w.prev = (worker.workQueue worker.curr).prev →
      (worker.store worker.curr w).next = worker.next ∧
      (worker.store worker.curr w).prev = worker.prev := by
    intro w hnext hprev
    rw [next_store, prev_store, hnext, hprev]
    exact ⟨Function.update_eq_self worker.curr worker.next,
      Function.update_eq_self worker.curr worker.prev⟩
  have htransport : ∀ worker' : IoWorker, worker'.next = worker.next →
      worker'.prev = worker.prev → worker'.freeSeq = worker.freeSeq →
      worker'.freeSeqEnd = worker.freeSeqEnd → worker'.ioSeq = worker.ioSeq →
      worker'.ioSeqEnd = worker.ioSeqEnd → Chains worker' free busy := by
    intro worker' hnext hprev hfree hfreeEnd hio hioEnd
    obtain ⟨h1, h2, h3, h4, h5, h6, h7⟩ := h
    refine ⟨?_, h2, ?_, ?_, ?_, ?_, h7⟩
    · rwa [hnext, hfree]
    · rwa [hfreeEnd]
    · rwa [hnext, hio]
    · rwa [hprev]
    · rwa [hioEnd]
  generalize hresult : ioWorkerStep worker now moved = result
  have hcases := ioWorkerStep_cases worker now moved
  rw [hresult] at hcases
  cases hcases with
  | restart => exact htransport _ rfl rfl rfl rfl rfl rfl
  | skip => exact htransport _ rfl rfl rfl rfl rfl rfl
  | wait w _ _ hw _ =>
      subst hw
      obtain ⟨hnext, hprev⟩ := hstore _ (copied_next _ moved) (copied_prev _ moved)
      exact htransport _ hnext hprev rfl rfl rfl rfl
  | complete w _ _ hw _ =>
      subst hw
      obtain ⟨hnext, hprev⟩ := hstore
        { copied (worker.workQueue worker.curr) moved with isCompleted := true }
        (copied_next _ moved) (copied_prev _ moved)
      exact htransport _ hnext hprev rfl rfl rfl rfl

end Step

theorem ioWorkerInit_chains :
    Chains ioWorkerInit (List.range nrMaxParallelIo) [] := by
  obtain ⟨n, hn⟩ : ∃ n, nrMaxParallelIo = n + 1 := ⟨16383, rfl⟩
  have hfront : ∀ i < n, ioWorkerInit.next i = i + 1 := by
    intro i hi
    have hi' : i ≠ nrMaxParallelIo - 1 := by omega
    simp [ioWorkerInit, IoWorker.next, hi']
  have hlast : ioWorkerInit.next n = noEntry := by
    simp [ioWorkerInit, IoWorker.next, hn]
  have hend : ioWorkerInit.freeSeqEnd = n := by
    simp [ioWorkerInit, hn]
  have hrange : List.range nrMaxParallelIo = List.range n ++ [n] := by
    rw [hn, List.range_succ]
  refine ⟨?_, ?_, ?_, rfl, trivial, by simp, by simp⟩
  · rw [hrange]
    exact segment_append.2 ⟨n, segment_range hfront, rfl, hlast⟩
  · rw [hrange]
    simp
  · rw [hrange, final_append, hend]
    rfl

inductive TableEvent where
  | enqueue (r : Request)
  | step (now : Nat) (moved : Nat × Nat)
  | reclaim
deriving DecidableEq, Repr

def tableStep (worker : IoWorker) : TableEvent → Except Fault IoWorker
  | .enqueue r => enqueue r worker
  | .step now moved => .ok (ioWorkerStep worker now moved).1
  | .reclaim => reclaimCompletedReqs worker

def tableRun (events : List TableEvent) : Except Fault IoWorker :=
  events.foldlM tableStep ioWorkerInit

theorem tableStep_chains {worker : IoWorker} (event : TableEvent)
    (h : ∃ free busy, Chains worker free busy) :
    ∃ worker', tableStep worker event = .ok worker' ∧
      ∃ free busy, Chains worker' free busy := by
  obtain ⟨free, busy, h⟩ := h
  cases event with
  | enqueue r =>
      by_cases hslot : HasSlot worker
      · obtain ⟨worker', _, _, _, _, hrun, hdone⟩ := enqueue_spec h r hslot
        exact ⟨worker', hrun, _, _, hdone.chains⟩
      · exact ⟨worker, enqueue_refused r hslot, free, busy, h⟩
  | step now moved => exact ⟨_, rfl, free, busy, ioWorkerStep_chains h now moved⟩
  | reclaim =>
      obtain ⟨worker', hrun, hchains, -⟩ := reclaimCompletedReqs_spec h
      exact ⟨worker', hrun, _, _, hchains⟩

theorem tableRun_chains (events : List TableEvent) {worker : IoWorker}
    (h : ∃ free busy, Chains worker free busy) :
    ∃ worker', events.foldlM tableStep worker = .ok worker' ∧
      ∃ free busy, Chains worker' free busy := by
  induction events generalizing worker with
  | nil => exact ⟨worker, rfl, h⟩
  | cons event events ih =>
      obtain ⟨worker', hstep, hnext⟩ := tableStep_chains event h
      rw [List.foldlM_cons, hstep, ok_bind]
      exact ih hnext

/-- Whatever happens to a worker, its table is exactly one free list and one
busy list. -/
theorem worker_table_structure (events : List TableEvent) :
    ∃ worker, tableRun events = .ok worker ∧
      Segment worker.next worker.freeSeq (freeList worker) noEntry ∧
      Segment worker.next worker.ioSeq (busyList worker) noEntry ∧
      (freeList worker ++ busyList worker).Perm (List.range nrMaxParallelIo) ∧
      freeList worker ≠ [] ∧
      final noEntry (freeList worker) = worker.freeSeqEnd ∧
      (busyList worker ≠ [] →
        (∀ e ∈ busyList worker, worker.next e ≠ noEntry →
          worker.prev (worker.next e) = e) ∧
        (∀ e ∈ busyList worker, worker.prev e ≠ noEntry →
          worker.next (worker.prev e) = e) ∧
        worker.prev worker.ioSeq = noEntry ∧
        final noEntry (busyList worker) = worker.ioSeqEnd) := by
  obtain ⟨worker, hrun, free, busy, h⟩ :=
    tableRun_chains events ⟨_, _, ioWorkerInit_chains⟩
  refine ⟨worker, hrun, ?_⟩
  rw [h.freeList_eq, h.busyList_eq]
  refine ⟨h.freeLinks, h.busyLinks, h.exact, h.freeNonempty, h.freeEnd, fun hne =>
    ⟨fun e he hnext => h.busyBack.prev_next h.busyLinks he hnext,
      fun e he hprev => h.busyBack.next_prev h.busyLinks he hprev, ?_, h.busyEnd hne⟩⟩
  obtain ⟨e, rest, rfl⟩ := List.exists_cons_of_ne_nil hne
  rw [h.busyLinks.1]
  exact h.busyBack.1

end NvmeVirt.IoTable
