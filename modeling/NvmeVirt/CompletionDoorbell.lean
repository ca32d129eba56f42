import NvmeVirt.AdminQueues
import NvmeVirt.PhaseRing

namespace NvmeVirt.CompletionDoorbell

open AdminQueues
open FaultOutcome
open IoDispatch
open PhaseRing
open WriteBuffer

variable {μ κ : Type}

/-- The loop of `nvmev_proc_io_cq` over its `int` index: after `i = -1` the next round is
that of 0. -/
def procIoCqIntLoop (cq : CompletionQueue) (newDb : Int) :
    Nat → Int → (Nat → Option (SubmissionQueue κ)) →
      Except Fault (Nat → Option (SubmissionQueue κ))
  | 0, _, _ => .error (.endlessLoop .procIoCq)
  | fuel + 1, i, sqes =>
      if i = newDb then
        .ok sqes
      else if (cq.queueSize : Int) ≤ i then
        procIoCqIntLoop cq newDb fuel (-1 + 1) sqes
      else if i < 0 then
        -- `cq_entry(i)` lies before the queue
        .error (.outOfBounds .procIoCq)
      else
        procIoCqIntLoop cq newDb fuel (i + 1) (countReleased sqes (cq.cq i.toNat).sqId)

/-- `nvmev_proc_io_cq` for the doorbells that `nvmev_proc_dbs` has read into its `int`s, with
at most `fuel` rounds. -/
def procIoCqInt (fuel : Nat) (vdev : NvmevDev μ κ) (cqid : Nat) (newDb oldDb : Int) :
    Except Fault (NvmevDev μ κ) :=
  match vdev.cqes cqid with
  | none => .error (.nullPointer .procIoCq)
  | some cq => do
      let sqes ← procIoCqIntLoop cq newDb fuel oldDb vdev.sqes
      let cq := { cq with
        cqTail := if newDb = -1 then (cq.queueSize : Int) - 1 else newDb - 1 }
      return { vdev with sqes := sqes, cqes := Function.update vdev.cqes cqid (some cq) }

section Loop

variable {cq : CompletionQueue} {fuel : Nat} {sqes : Nat → Option (SubmissionQueue κ)}

theorem procIoCqIntLoop_natCast (newDb i : Nat) :
    procIoCqIntLoop cq newDb fuel i sqes = procIoCqLoop cq newDb fuel i sqes := by
  induction fuel generalizing i sqes with
  | zero => rfl
  | succ fuel ih =>
      rw [procIoCqIntLoop, procIoCqLoop]
      by_cases hend : i = newDb
      · rw [if_pos hend, if_pos (congrArg Nat.cast hend)]
      · rw [if_neg hend, if_neg (mt Int.ofNat.inj hend : ¬(i : Int) = newDb)]
        by_cases hwrap : cq.queueSize ≤ i
        · rw [if_pos hwrap, if_pos (Int.ofNat_le.2 hwrap)]
          exact ih 0
        · rw [if_neg hwrap, if_neg (mt Int.ofNat_le.1 hwrap),
            if_neg (Int.not_lt.2 (Int.natCast_nonneg i))]
          exact ih (i + 1)

/-- Doorbells that are not negative as an `int` are as good as natural numbers. -/
theorem procIoCqInt_natCast {vdev : NvmevDev μ κ} {cqid : Nat} (hcq : vdev.cqes cqid = some cq)
    (newDb oldDb : Nat) :
    procIoCqInt (2 * cq.queueSize + 2) vdev cqid newDb oldDb =
      procIoCq vdev cqid newDb oldDb := by
  simp only [procIoCqInt, procIoCq, hcq, procIoCqIntLoop_natCast]
  rw [if_neg (by omega)]

theorem procIoCqIntLoop_endless {newDb i : Int} (hi : 0 ≤ i) (hne : i ≠ newDb)
    (hnew : newDb < 0 ∨ (cq.queueSize : Int) < newDb) :
    procIoCqIntLoop cq newDb fuel i sqes = .error (.endlessLoop .procIoCq) := by
  induction fuel generalizing i sqes with
  | zero => rfl
  | succ fuel ih =>
      rw [procIoCqIntLoop, if_neg hne]
      split
      · exact ih (by omega) (by omega)
      · rw [if_neg (by omega)]
        exact ih (by omega) (by omega)

theorem procIoCqLoop_visit {newDb i n : Nat}
    (h : ∀ j, i ≤ j → j < i + n → j < cq.queueSize ∧ j ≠ newDb) :
    procIoCqLoop cq newDb (n + fuel) i sqes = procIoCqLoop cq newDb fuel (i + n)
      ((List.range' i n).foldl (fun sqes j => countReleased sqes (cq.cq j).sqId) sqes) := by
  induction n generalizing i sqes with
  | zero => rw [Nat.zero_add, Nat.add_zero, List.range'_zero, List.foldl_nil]
  | succ n ih =>
      obtain ⟨hin, hne⟩ := h i (Nat.le_refl i) (by omega)
      rw [Nat.add_right_comm, procIoCqLoop, if_neg hne, if_neg (Nat.not_le.2 hin),
        List.range'_succ, List.foldl_cons, ih fun j hlow hhigh => h j (by omega) (by omega),
        Nat.add_assoc, Nat.add_comm 1]

theorem procIoCqLoop_ring {newDb : Nat} (oldDb : Nat) (hnew : newDb ≤ cq.queueSize)
    (hfuel : 2 * cq.queueSize + 2 ≤ fuel) :
    procIoCqLoop cq newDb fuel oldDb sqes =
      .ok ((ringSlots cq.queueSize oldDb newDb).foldl
        (fun sqes i => countReleased sqes (cq.cq i).sqId) sqes) := by
  rw [ringSlots]
  split
  case isTrue hle =>
    obtain ⟨rest, rfl⟩ : ∃ rest, fuel = newDb - oldDb + (rest + 1) :=
      ⟨fuel - (newDb - oldDb) - 1, by omega⟩
    rw [procIoCqLoop_visit fun j _ _ => by omega, Nat.add_sub_cancel' hle, procIoCqLoop,
      if_pos rfl]
  case isFalse hlt =>
    -- to the end of the queue, and from its start
    obtain ⟨rest, rfl⟩ : ∃ rest, fuel = cq.queueSize - oldDb + (newDb + (rest + 1) + 1) :=
      ⟨fuel - (cq.queueSize - oldDb) - newDb - 2, by omega⟩
    rw [procIoCqLoop_visit fun j _ _ => by omega, procIoCqLoop, if_neg (by omega),
      if_pos (by omega), procIoCqLoop_visit fun j _ _ => by omega, Nat.zero_add, procIoCqLoop,
      if_pos rfl, List.foldl_append]

end Loop

/-- `count` commands of the queue are no longer in flight. -/
def lowered (count : Nat) (sq : SubmissionQueue κ) : SubmissionQueue κ :=
  { sq with stat := { sq.stat with nrInFlight := sq.stat.nrInFlight - count } }

theorem lowered_zero : lowered 0 = (id : SubmissionQueue κ → _) := by
  funext sq
  rw [lowered, Int.natCast_zero, Int.sub_zero]
  rfl

theorem lowered_comp (m n : Nat) :
    lowered m ∘ lowered n = (lowered (m + n) : SubmissionQueue κ → _) := by
  funext sq
  simp only [Function.comp_apply, lowered]
  rw [Int.natCast_add, Int.sub_sub, Int.add_comm]

theorem countReleased_apply (sqes : Nat → Option (SubmissionQueue κ)) (sqid q : Nat) :
    countReleased sqes sqid q = (sqes q).map (lowered (if sqid = q then 1 else 0)) := by
  rw [countReleased]
  split
  case isTrue heq =>
    rw [heq, Function.update_self]
    rfl
  case isFalse hne => rw [Function.update_of_ne (Ne.symm hne), lowered_zero, Option.map_id_apply]

theorem foldl_countReleased (cq : CompletionQueue) (slots : List Nat)
    (sqes : Nat → Option (SubmissionQueue κ)) (q : Nat) :
    slots.foldl (fun sqes i => countReleased sqes (cq.cq i).sqId) sqes q =
      (sqes q).map (lowered (slots.countP fun i => (cq.cq i).sqId = q)) := by
  induction slots generalizing sqes with
  | nil => rw [List.foldl_nil, List.countP_nil, lowered_zero, Option.map_id_apply]
  | cons i slots ih =>
      rw [List.foldl_cons, ih, countReleased_apply, Option.map_map, lowered_comp, List.countP_cons]
      simp only [decide_eq_true_eq]

/-- Between the doorbells `oldDb` and `newDb` the `slots` are visited, and no others. -/
structure Visits (cq : CompletionQueue) (oldDb newDb : Int) (slots : List Nat) : Prop where
  once : slots.Nodup
  between : ∀ i, i ∈ slots ↔ i < cq.queueSize ∧
    if oldDb ≤ newDb then oldDb ≤ i ∧ (i : Int) < newDb else oldDb ≤ i ∨ (i : Int) < newDb

/-- The slots are released one after another, which takes them off what their submission
queues have in flight; nothing else changes but the tail of the completion queue. -/
structure Releases (vdev : NvmevDev μ κ) (cqid : Nat) (cq : CompletionQueue) (newDb : Int)
    (slots : List Nat) (vdev' : NvmevDev μ κ) : Prop where
  released : vdev' = { vdev with
    sqes := slots.foldl (fun sqes i => countReleased sqes (cq.cq i).sqId) vdev.sqes
    cqes := Function.update vdev.cqes cqid (some { cq with cqTail := newDb - 1 }) }
  counted : ∀ q, vdev'.sqes q =
    (vdev.sqes q).map (lowered (slots.countP fun i => (cq.cq i).sqId = q))

/-- The doorbell is processed: the call ends, and it releases the slots between two doorbells
of the queue. -/
def Processed (vdev : NvmevDev μ κ) (cqid : Nat) (cq : CompletionQueue) (newDb oldDb : Int) :
    Prop :=
  ∃ fuel vdev', procIoCqInt fuel vdev cqid newDb oldDb = .ok vdev' ∧
    (0 ≤ oldDb → oldDb < cq.queueSize → 0 ≤ newDb → newDb < cq.queueSize →
      ∃ slots, Visits cq oldDb newDb slots ∧ Releases vdev cqid cq newDb slots vdev')

section Doorbells

variable {vdev : NvmevDev μ κ} {cqid : Nat} {cq : CompletionQueue} {newDb oldDb : Int}

theorem Processed.ofQueue (h : Processed vdev cqid cq newDb oldDb)
    (hcq : vdev.cqes cqid = some cq) :
    newDb = oldDb ∨ 0 ≤ oldDb ∧ 0 ≤ newDb ∧ newDb ≤ cq.queueSize := by
  obtain ⟨fuel, vdev', hrun, -⟩ := h
  simp only [procIoCqInt, hcq] at hrun
  obtain ⟨sqes, hloop, -⟩ := exists_of_bind_eq_ok hrun
  by_cases hsame : newDb = oldDb
  · exact .inl hsame
  · refine .inr ?_
    by_cases hold : 0 ≤ oldDb
    · by_contra hout
      rw [procIoCqIntLoop_endless hold (Ne.symm hsame) (by omega)] at hloop
      cases hloop
    · cases fuel with
      | zero => cases hloop
      | succ fuel =>
          rw [procIoCqIntLoop, if_neg (Ne.symm hsame), if_neg (by omega),
            if_pos (by omega)] at hloop
          cases hloop

theorem visits_ringSlots {oldDb newDb : Nat} (hold : oldDb < cq.queueSize)
    (hnew : newDb < cq.queueSize) :
    Visits cq oldDb newDb (ringSlots cq.queueSize oldDb newDb) where
  once := ringSlots_nodup _ _ _
  between := by
    intro i
    simp only [mem_ringSlots hold hnew, Int.ofNat_le, Int.ofNat_lt]

theorem processed_of_le (hcq : vdev.cqes cqid = some cq) (hold : 0 ≤ oldDb) (hnew : 0 ≤ newDb)
    (hle : newDb ≤ cq.queueSize) : Processed vdev cqid cq newDb oldDb := by
  obtain ⟨old, rfl⟩ := Int.eq_ofNat_of_zero_le hold
  obtain ⟨new, rfl⟩ := Int.eq_ofNat_of_zero_le hnew
  have hrun : procIoCqInt (2 * cq.queueSize + 2) vdev cqid new old = .ok { vdev with
      sqes := (ringSlots cq.queueSize old new).foldl
        (fun sqes i => countReleased sqes (cq.cq i).sqId) vdev.sqes
      cqes := Function.update vdev.cqes cqid (some { cq with cqTail := (new : Int) - 1 }) } := by
    rw [procIoCqInt_natCast hcq]
    simp only [procIoCq, hcq]
    rw [procIoCqLoop_ring old (Int.ofNat_le.1 hle) (Nat.le_refl _)]
    rfl
  refine ⟨_, _, hrun, ?_⟩
  intro _ hin _ hin'
  exact ⟨ringSlots cq.queueSize old new,
    visits_ringSlots (Int.ofNat_lt.1 hin) (Int.ofNat_lt.1 hin'),
    { released := rfl
      counted := foldl_countReleased cq _ vdev.sqes }⟩

theorem processed_of_eq (hcq : vdev.cqes cqid = some cq) :
    Processed vdev cqid cq newDb newDb := by
  by_cases hin : 0 ≤ newDb ∧ newDb ≤ cq.queueSize
  · exact processed_of_le hcq hin.1 hin.1 hin.2
  · have hrun : procIoCqInt 1 vdev cqid newDb newDb = .ok { vdev with
        cqes := Function.update vdev.cqes cqid (some { cq with
          cqTail := if newDb = -1 then (cq.queueSize : Int) - 1 else newDb - 1 }) } := by
      simp only [procIoCqInt, hcq]
      rw [procIoCqIntLoop, if_pos rfl]
      rfl
    exact ⟨1, _, hrun, fun hlow hhigh _ _ => absurd ⟨hlow, Int.le_of_lt hhigh⟩ hin⟩

/-- A doorbell of 32 bits is processed exactly when it lies in the queue or at its end, or
when nothing was rung. -/
theorem doorbell_processed_iff (hcq : vdev.cqes cqid = some cq) (newDb oldDb : BitVec 32) :
    Processed vdev cqid cq newDb.toInt oldDb.toInt ↔
      newDb = oldDb ∨
        0 ≤ oldDb.toInt ∧ 0 ≤ newDb.toInt ∧ newDb.toInt ≤ cq.queueSize := by
  rw [← BitVec.toInt_inj]
  constructor
  · intro h
    exact h.ofQueue hcq
  · rintro (hsame | ⟨hold, hnew, hle⟩)
    · rw [hsame]
      exact processed_of_eq hcq
    · exact processed_of_le hcq hold hnew hle

theorem procIoCqInt_endless (hcq : vdev.cqes cqid = some cq) (hold : 0 ≤ oldDb)
    (hne : oldDb ≠ newDb) (hnew : newDb < 0 ∨ (cq.queueSize : Int) < newDb) (fuel : Nat) :
    procIoCqInt fuel vdev cqid newDb oldDb = .error (.endlessLoop .procIoCq) := by
  simp only [procIoCqInt, hcq]
  rw [procIoCqIntLoop_endless hold hne hnew]
  rfl

end Doorbells

def fourCompletions : CompletionQueue := newCq 3 fun _ => ⟨0, 1, 0, 0, 0, 0⟩

def fourCompletionsDev : NvmevDev Unit Nat :=
  { bareController.dev with
    sqes := fun q => if q = 1 then some (newSq 1 3 id) else none
    cqes := fun q => if q = 1 then some fourCompletions else none }

theorem doorbell_processed_iff_wrapped :
    Processed fourCompletionsDev 1 fourCompletions (1#32).toInt (3#32).toInt :=
  (doorbell_processed_iff rfl 1#32 3#32).2 (by decide)

/-- The loop does not end for a doorbell behind the end of the queue, nor for the `-1` that
the last lines of `nvmev_proc_io_cq` expect. -/
theorem outside_doorbells_not_processed :
    (¬Processed fourCompletionsDev 1 fourCompletions (5#32).toInt (0#32).toInt ∧
      ∀ fuel, procIoCqInt fuel fourCompletionsDev 1 (5#32).toInt (0#32).toInt =
        .error (.endlessLoop .procIoCq)) ∧
      ¬Processed fourCompletionsDev 1 fourCompletions (4294967295#32).toInt (0#32).toInt ∧
      ∀ fuel, procIoCqInt fuel fourCompletionsDev 1 (4294967295#32).toInt (0#32).toInt =
        .error (.endlessLoop .procIoCq) :=
  ⟨⟨fun h => absurd (h.ofQueue rfl) (by decide),
      procIoCqInt_endless rfl (by decide) (by decide) (by decide)⟩,
    fun h => absurd (h.ofQueue rfl) (by decide),
    procIoCqInt_endless rfl (by decide) (by decide) (by decide)⟩

end NvmeVirt.CompletionDoorbell
