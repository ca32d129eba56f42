import Mathlib.Data.List.Basic
import NvmeVirt.IoStanding

namespace NvmeVirt.DispatchOrder

open IndexChain
open IoDispatch
open IoStanding
open IoSteps
open IoTable
open IoWorkers
open WriteBuffer

variable {μ κ : Type}

/-- Completing `w` gives back the slot of `w'`, which was dispatched before it from
the same queue and has not been copied. -/
def Overtakes (w w' : IoWork) : Prop :=
  w.isInternal = false ∧ w'.isInternal = false ∧ w'.isCopied = false ∧ w'.sqid = w.sqid ∧
    w'.ticket < w.ticket

/-- A command of queue `q` waits in entry `e` to be copied. -/
def Uncopied (worker : IoWorker) (q e : Nat) : Prop :=
  (worker.workQueue e).isInternal = false ∧ (worker.workQueue e).isCopied = false ∧
    (worker.workQueue e).sqid = q

instance (worker : IoWorker) (q e : Nat) : Decidable (Uncopied worker q e) :=
  inferInstanceAs (Decidable (_ ∧ _ ∧ _))

/-- `__insert_req_sorted` would link a request due at `nsecsTarget` in front of `e`:
from `e` on, everything in the list is due later. -/
def GoesBefore (worker : IoWorker) (nsecsTarget e : Nat) : Prop :=
  ∀ a ∈ (busyList worker).dropWhile (· ≠ e),
    max worker.latestNsecs nsecsTarget < (worker.workQueue a).nsecsTarget

instance (worker : IoWorker) (nsecsTarget e : Nat) :
    Decidable (GoesBefore worker nsecsTarget e) :=
  inferInstanceAs (Decidable (∀ a ∈ _, _))

/-- The entries the thread has behind it in its present pass over the list. -/
def passedBy (worker : IoWorker) : List Nat :=
  (busyList worker).takeWhile (· ≠ worker.curr)

/-- A command of queue `q` that is due at `nsecsTarget` gets an entry on which the thread
does not stand. It goes behind the commands of its queue that are not copied, and when the
thread is past one of these, the thread is past its place as well. -/
def InLine (worker : IoWorker) (q nsecsTarget : Nat) : Prop :=
  HasSlot worker ∧ worker.curr ≠ worker.freeSeq ∧
    (∀ e ∈ busyList worker, Uncopied worker q e → ¬GoesBefore worker nsecsTarget e) ∧
    ∀ e ∈ passedBy worker, Uncopied worker q e → GoesBefore worker nsecsTarget worker.curr

instance (worker : IoWorker) (q nsecsTarget : Nat) : Decidable (InLine worker q nsecsTarget) :=
  inferInstanceAs (Decidable (_ ∧ _ ∧ _ ∧ _))

/-- The worker that takes the requests of queue `q`. -/
def workerOf (vdev : NvmevDev μ κ) (q : Nat) : Option IoWorker :=
  (getIoWorker vdev q).toOption.map vdev.ioWorkers

/-- Commands are dispatched in line with those before them, and an internal operation
gets an entry on which the thread does not stand. -/
def InOrder (vdev : NvmevDev μ κ) : Event κ → Prop
  | .procIo _ (some ret) =>
      ∀ p, vdev.pass = some p → p.turn = none → p.seq < p.numProc →
        ∀ worker, workerOf vdev p.sqid = some worker → InLine worker p.sqid ret.nsecsTarget
  | .internal sqid _ _ _ =>
      ∀ worker, workerOf vdev sqid = some worker → HasSlot worker →
        worker.curr ≠ worker.freeSeq
  | _ => True

instance (vdev : NvmevDev μ κ) (event : Event κ) : Decidable (InOrder vdev event) :=
  match event with
  | .procIo _ (some ret) =>
      inferInstanceAs (Decidable (∀ p ∈ vdev.pass, p.turn = none → p.seq < p.numProc →
        ∀ worker ∈ workerOf vdev p.sqid, InLine worker p.sqid ret.nsecsTarget))
  | .internal sqid _ _ _ =>
      inferInstanceAs (Decidable (∀ worker ∈ workerOf vdev sqid, HasSlot worker →
        worker.curr ≠ worker.freeSeq))
  | .procIo _ none => .isTrue trivial
  | .hostWrite _ _ _ => .isTrue trivial
  | .hostRing _ _ => .isTrue trivial
  | .beginPass _ => .isTrue trivial
  | .reclaim => .isTrue trivial
  | .worker _ _ => .isTrue trivial

section Insertion

variable {R : Nat → Nat → Prop} {before after front back : List Nat} {e c : Nat}

theorem pairwise_inserted (h : (before ++ after).Pairwise R) (hbefore : ∀ x ∈ before, R x e)
    (hafter : ∀ y ∈ after, R e y) : (before ++ e :: after).Pairwise R := by
  obtain ⟨hfirst, hsecond, hacross⟩ := List.pairwise_append.1 h
  refine List.pairwise_append.2 ⟨hfirst, List.pairwise_cons.2 ⟨hafter, hsecond⟩, ?_⟩
  intro x hx y hy
  rcases List.mem_cons.1 hy with rfl | hy
  · exact hbefore x hx
  · exact hacross x hx y hy

/-- What is passed and what is not, when `e` joins the list in front of `c` or behind it. -/
theorem passed_inserted (hsplit : before ++ after = front ++ c :: back)
    (hpassed : ∀ x ∈ front, ∀ y ∈ c :: back, R y x) (hleft : ∀ y ∈ c :: back, R y e)
    (hright : c ∈ before → ∀ x ∈ front, R e x) :
    ∃ front' back', before ++ e :: after = front' ++ c :: back' ∧
      ∀ x ∈ front', ∀ y ∈ c :: back', R y x := by
  rcases List.append_eq_append_iff.1 hsplit with ⟨rest, hfront, hafter⟩ | ⟨rest, hbefore, hback⟩
  · refine ⟨before ++ e :: rest, back, by rw [hafter]; simp, ?_⟩
    intro x hx y hy
    rw [List.mem_append, List.mem_cons] at hx
    rcases hx with hx | rfl | hx
    · exact hpassed x (by rw [hfront]; simp [hx]) y hy
    · exact hleft y hy
    · exact hpassed x (by rw [hfront]; simp [hx]) y hy
  · cases rest with
    | nil =>
        rw [List.append_nil] at hbefore
        rw [List.nil_append] at hback
        refine ⟨before ++ [e], back, by rw [← hback]; simp, ?_⟩
        intro x hx y hy
        rw [List.mem_append, List.mem_singleton] at hx
        rcases hx with hx | rfl
        · exact hpassed x (by rw [← hbefore]; exact hx) y hy
        · exact hleft y hy
    | cons a rest =>
        rw [List.cons_append, List.cons.injEq] at hback
        obtain ⟨rfl, hback⟩ := hback
        refine ⟨front, rest ++ e :: after, by rw [hbefore]; simp, ?_⟩
        intro x hx y hy
        rw [List.mem_cons, List.mem_append, List.mem_cons] at hy
        rcases hy with rfl | hy | rfl | hy
        · exact hpassed x hx _ List.mem_cons_self
        · exact hpassed x hx y (by rw [hback]; simp [hy])
        · exact hright (by rw [hbefore]; simp) x hx
        · exact hpassed x hx y (by rw [hback]; simp [hy])

end Insertion

section InPlace

variable {worker worker' : IoWorker} {free busy rest before after : List Nat} {entry : Nat}

/-- Nothing in the list overtakes what stands behind it, and nothing the thread has still
to reach in its present pass overtakes what it has passed. -/
structure InPlace (worker : IoWorker) (busy : List Nat) : Prop where
  order : busy.Pairwise fun x y => ¬Overtakes (body worker x) (body worker y)
  cursor : worker.curr ∈ busy → ∃ front back, busy = front ++ worker.curr :: back ∧
    ∀ x ∈ front, ∀ y ∈ worker.curr :: back, ¬Overtakes (body worker y) (body worker x)

theorem InPlace.not_overtaken (h : InPlace worker busy) (hcurr : worker.curr ∈ busy) :
    ∀ e ∈ busy, ¬Overtakes (body worker worker.curr) (body worker e) := by
  intro e he
  obtain ⟨front, back, hbusy, hpassed⟩ := h.cursor hcurr
  have horder := h.order
  rw [hbusy] at he horder
  rcases List.mem_append.1 he with he | he
  · exact hpassed e he _ List.mem_cons_self
  · rcases List.mem_cons.1 he with rfl | he
    · rintro ⟨-, -, -, -, hlt⟩
      exact lt_irrefl _ hlt
    · exact (List.pairwise_cons.1 (List.pairwise_append.1 horder).2.1).1 e he

theorem InPlace.inserted {r : Request} (h : InPlace worker busy)
    (hchains : Chains worker free busy)
    (hdone : Enqueued r worker worker' free busy entry rest before after)
    (hapart : worker.curr ≠ entry)
    (hlatest : ∀ x ∈ busy, ¬Overtakes (body worker x) (body worker' entry))
    (hbehind : ∀ x ∈ after, ¬Overtakes (body worker' entry) (body worker x))
    (hreached : ∀ front back, busy = front ++ worker.curr :: back → worker.curr ∈ before →
      ∀ x ∈ front, ¬Overtakes (body worker' entry) (body worker x)) :
    InPlace worker' (before ++ entry :: after) := by
  have hnodup := hchains.nodup
  rw [hdone.free_eq, List.cons_append, List.nodup_cons] at hnodup
  have hkept : ∀ x ∈ busy, body worker' x = body worker x := by
    intro x hx
    have hne : x ≠ entry := by
      rintro rfl
      exact hnodup.1 (List.mem_append_right _ hx)
    rw [hdone.body, Function.update_of_ne hne]
  have hframe : ∀ x ∈ busy, ∀ y ∈ busy, ¬Overtakes (body worker x) (body worker y) →
      ¬Overtakes (body worker' x) (body worker' y) := by
    intro x hx y hy hxy
    rw [hkept x hx, hkept y hy]
    exact hxy
  have hlast : ∀ x ∈ busy, ¬Overtakes (body worker' x) (body worker' entry) := by
    intro x hx
    rw [hkept x hx]
    exact hlatest x hx
  have hbusy := hdone.busy_eq
  constructor
  · apply pairwise_inserted
    · rw [← hbusy]
      exact h.order.imp_of_mem fun hx hy => hframe _ hx _ hy
    · intro x hx
      exact hlast x (by rw [hbusy]; simp [hx])
    · intro y hy
      rw [hkept y (by rw [hbusy]; simp [hy])]
      exact hbehind y hy
  · intro hcurr
    rw [hdone.curr] at hcurr ⊢
    have hstood : worker.curr ∈ busy := by
      rw [hbusy]
      simp only [List.mem_append, List.mem_cons] at hcurr ⊢
      tauto
    obtain ⟨front, back, hsplit, hpassed⟩ := h.cursor hstood
    have hmem : ∀ x, x ∈ front ∨ x ∈ worker.curr :: back → x ∈ busy := by
      intro x hx
      rw [hsplit]
      exact List.mem_append.2 hx
    apply passed_inserted (hbusy.symm.trans hsplit)
    · intro x hx y hy
      exact hframe y (hmem y (.inr hy)) x (hmem x (.inl hx)) (hpassed x hx y hy)
    · intro y hy
      exact hlast y (hmem y (.inr hy))
    · intro hfirst x hx
      rw [hkept x (hmem x (.inl hx))]
      exact hreached front back hsplit hfirst x hx

theorem InPlace.reclaimed (h : InPlace worker busy) (hnodup : busy.Nodup)
    (hbody : body worker' = body worker) (hcurr : worker'.curr = worker.curr)
    {p : Nat → Bool} : InPlace worker' (busy.dropWhile p) := by
  constructor
  · rw [hbody]
    exact h.order.sublist (List.dropWhile_sublist p)
  · rw [hcurr, hbody]
    intro hstood
    obtain ⟨front, back, hsplit⟩ := List.append_of_mem hstood
    refine ⟨front, back, hsplit, ?_⟩
    obtain ⟨front', back', hsplit', hpassed⟩ := h.cursor (List.dropWhile_subset p hstood)
    have hwhole : (busy.takeWhile p ++ front) ++ worker.curr :: back =
        front' ++ worker.curr :: back' := by
      rw [← hsplit', List.append_assoc, ← hsplit, List.takeWhile_append_dropWhile]
    rw [hsplit'] at hnodup
    obtain ⟨-, hback', hapart⟩ := List.nodup_append.1 hnodup
    have hleft : worker.curr ∉ front' := fun hmem => hapart _ hmem _ List.mem_cons_self rfl
    have hright : worker.curr ∉ back' := (List.nodup_cons.1 hback').1
    obtain ⟨hfront, -, hback⟩ :=
      (List.append_cons_inj_of_notMem hleft hright).1 hwhole.symm
    intro x hx y hy
    exact hpassed x (by rw [hfront]; simp [hx]) y (by rw [hback]; exact hy)

theorem body_work (worker : IoWorker) (now : Nat) (moved : Nat × Nat) (e : Nat) :
    (body (ioWorkerStep worker now moved).1 e).isInternal = (body worker e).isInternal ∧
      (body (ioWorkerStep worker now moved).1 e).sqid = (body worker e).sqid ∧
      (body (ioWorkerStep worker now moved).1 e).ticket = (body worker e).ticket ∧
      ((body worker e).isCopied = true →
        (body (ioWorkerStep worker now moved).1 e).isCopied = true) := by
  have hstored : ∀ (w : IoWork) (worker₁ : IoWorker) status result0 completed,
      w = { worker.workQueue worker.curr with
        isCopied := true, status := status, result0 := result0, isCompleted := completed } →
      worker₁.workQueue = (worker.store worker.curr w).workQueue →
      (body worker₁ e).isInternal = (body worker e).isInternal ∧
        (body worker₁ e).sqid = (body worker e).sqid ∧
        (body worker₁ e).ticket = (body worker e).ticket ∧
        ((body worker e).isCopied = true → (body worker₁ e).isCopied = true) := by
    intro w worker₁ status result0 completed hw hqueue
    have hbody : body worker₁ e = body (worker.store worker.curr w) e := by
      rw [body, hqueue]
      rfl
    rw [hbody, body_store]
    by_cases heq : e = worker.curr
    · subst heq hw
      rw [Function.update_self]
      exact ⟨rfl, rfl, rfl, fun _ => rfl⟩
    · rw [Function.update_of_ne heq]
      exact ⟨rfl, rfl, rfl, id⟩
  have hcases := ioWorkerStep_cases worker now moved
  generalize ioWorkerStep worker now moved = result at hcases
  obtain ⟨status, result0, hcopied⟩ := copied_eq (worker.workQueue worker.curr) moved
  cases hcases with
  | restart => exact ⟨rfl, rfl, rfl, id⟩
  | skip => exact ⟨rfl, rfl, rfl, id⟩
  | wait w hcurr hopen hw hdue =>
      refine hstored w _ status result0 (worker.workQueue worker.curr).isCompleted ?_ rfl
      rw [hw, hcopied]
  | complete w hcurr hopen hw hdue =>
      refine hstored { w with isCompleted := true } _ status result0 true ?_ rfl
      rw [hw, hcopied]

theorem curr_work (worker : IoWorker) (now : Nat) (moved : Nat × Nat) :
    (worker.curr = noEntry ∧ (ioWorkerStep worker now moved).1.curr = worker.ioSeq) ∨
      worker.curr ≠ noEntry ∧
        (ioWorkerStep worker now moved).1.curr = worker.next worker.curr ∧
        ((worker.workQueue worker.curr).isCompleted = false →
          (body (ioWorkerStep worker now moved).1 worker.curr).isCopied = true) := by
  have hcases := ioWorkerStep_cases worker now moved
  generalize ioWorkerStep worker now moved = result at hcases
  cases hcases with
  | restart hcurr => exact .inl ⟨hcurr, rfl⟩
  | skip hcurr hdone =>
      refine .inr ⟨hcurr, rfl, fun hopen => ?_⟩
      rw [hdone] at hopen
      cases hopen
  | wait w hcurr hopen hw hdue =>
      subst hw
      refine .inr ⟨hcurr, copied_next _ moved, fun _ => ?_⟩
      have hbody := congrFun (body_store worker worker.curr
        (copied (worker.workQueue worker.curr) moved)) worker.curr
      rw [Function.update_self] at hbody
      exact (congrArg IoWork.isCopied hbody).trans (copied_isCopied _ moved)
  | complete w hcurr hopen hw hdue =>
      subst hw
      refine .inr ⟨hcurr, copied_next _ moved, fun _ => ?_⟩
      have hbody := congrFun (body_store worker worker.curr
        { copied (worker.workQueue worker.curr) moved with isCompleted := true }) worker.curr
      rw [Function.update_self] at hbody
      exact (congrArg IoWork.isCopied hbody).trans (copied_isCopied _ moved)

theorem InPlace.work (h : InPlace worker busy) (hchains : Chains worker free busy)
    (hstanding : Standing worker free busy)
    (hmoved : ∀ e ∈ busy, (body worker e).isCompleted = true → (body worker e).isCopied = true)
    (now : Nat) (moved : Nat × Nat) : InPlace (ioWorkerStep worker now moved).1 busy := by
  have hkept : ∀ x y, ¬Overtakes (body worker x) (body worker y) →
      ¬Overtakes (body (ioWorkerStep worker now moved).1 x)
        (body (ioWorkerStep worker now moved).1 y) := by
    rintro x y hnot ⟨hx, hy, hcopied, hsqid, hticket⟩
    obtain ⟨hhostx, hqueuex, hticketx, -⟩ := body_work worker now moved x
    obtain ⟨hhosty, hqueuey, htickety, hstill⟩ := body_work worker now moved y
    refine hnot ⟨hhostx ▸ hx, hhosty ▸ hy, ?_, ?_, ?_⟩
    · by_contra hdone
      rw [hstill (by simpa using hdone)] at hcopied
      cases hcopied
    · rw [← hqueuex, ← hqueuey]
      exact hsqid
    · rw [← hticketx, ← htickety]
      exact hticket
  refine ⟨h.order.imp fun {x y} => hkept x y, ?_⟩
  rcases curr_work worker now moved with ⟨-, hnext⟩ | ⟨hcurr, hnext, hcopied⟩
  · rw [hnext]
    intro hmem
    cases busy with
    | nil => cases hmem
    | cons e busy =>
        have hhead : worker.ioSeq = e := hchains.busyLinks.1
        exact ⟨[], busy, by rw [hhead]; rfl, by simp⟩
  · rw [hnext]
    intro hmem
    rcases hstanding with hstop | hbusy | ⟨front, back, hfree, -⟩
    · exact absurd hstop hcurr
    · obtain ⟨front, back, hsplit, hpassed⟩ := h.cursor hbusy
      rcases next_of_split hchains.busyLinks hsplit with ⟨hlast, -⟩ | ⟨back', hback⟩
      · rw [hlast] at hmem
        exact absurd hmem hchains.noEntry_notMem_busy
      · refine ⟨front ++ [worker.curr], back', by rw [hsplit, hback]; simp, ?_⟩
        intro x hx y hy
        rw [List.mem_append, List.mem_singleton] at hx
        rcases hx with hx | rfl
        · refine hkept y x (hpassed x hx y ?_)
          rw [hback]
          exact List.mem_cons_of_mem _ hy
        · rintro ⟨-, -, hwaits, -, -⟩
          have hdone : (body (ioWorkerStep worker now moved).1 worker.curr).isCopied = true := by
            cases hopen : (worker.workQueue worker.curr).isCompleted with
            | false => exact hcopied hopen
            | true =>
                exact (body_work worker now moved worker.curr).2.2.2
                  (hmoved worker.curr hbusy hopen)
          rw [hdone] at hwaits
          cases hwaits
    · -- the thread stands on an entry that was taken off the list, and so it stays
      exfalso
      rcases next_of_split hchains.freeLinks hfree with ⟨hlast, -⟩ | ⟨back', hback⟩
      · rw [hlast] at hmem
        exact hchains.noEntry_notMem_busy hmem
      · have hfreed : worker.next worker.curr ∈ free := by
          rw [hfree, hback]
          simp
        exact (List.nodup_append.1 hchains.nodup).2.2 _ hfreed _ hmem rfl

end InPlace

/-- An entry of worker `id` is copied before it is completed, and a host entry serves a
command that was accepted from a queue of this worker. -/
def Homed (vdev : NvmevDev μ κ) (id : Nat) (w : IoWork) : Prop :=
  (w.isCompleted = true → w.isCopied = true) ∧
    (w.isInternal = false →
      getIoWorker vdev w.sqid = .ok id ∧ w.ticket < vdev.accepted.length)

section Requests

variable {vdev : NvmevDev μ κ} {worker worker' : IoWorker} {id : Nat} {P : IoWork → Prop}

theorem dropWhile_split {xs front back : List Nat} {e : Nat} (h : xs = front ++ e :: back)
    (hnodup : xs.Nodup) :
    xs.dropWhile (· ≠ e) = e :: back ∧ xs.takeWhile (· ≠ e) = front := by
  subst h
  have hfront : ∀ x ∈ front, decide (x ≠ e) = true := by
    intro x hx
    refine decide_eq_true ?_
    exact (List.nodup_append.1 hnodup).2.2 x hx e List.mem_cons_self
  constructor
  · rw [List.dropWhile_append_of_pos hfront, List.dropWhile_cons_of_neg (by simp)]
  · rw [List.takeWhile_append_of_pos hfront, List.takeWhile_cons_of_neg (by simp),
      List.append_nil]

/-- A command that is linked in with `InLine` keeps the list in order. -/
theorem InPlace.host {q cqid sqEntry commandId : Nat} {ret : NvmevResult}
    (h : InPlace worker (busyList worker)) (hheld : Held (Homed vdev id) worker)
    (hline : InLine worker q ret.nsecsTarget)
    (hrun : enqueue (.host q cqid sqEntry commandId ret vdev.accepted.length) worker =
      .ok worker') : InPlace worker' (busyList worker') := by
  obtain ⟨free, busy, hchains, -, hhomed⟩ := hheld
  obtain ⟨hslot, hapart, hbehind, hreached⟩ := hline
  rw [passedBy] at hreached
  simp only [GoesBefore] at hbehind hreached
  rw [hchains.busyList_eq] at h hbehind hreached
  obtain ⟨worker'', entry, rest, before, after, hrun', hdone⟩ := enqueue_spec hchains _ hslot
  rw [hrun] at hrun'
  cases hrun'
  rw [hdone.chains.busyList_eq]
  have hnodup : busy.Nodup := (List.nodup_append.1 hchains.nodup).2.1
  have hseq : worker.freeSeq = entry := by
    have hlinks := hchains.freeLinks
    rw [hdone.free_eq] at hlinks
    exact hlinks.1
  have hnew : body worker' entry = _ :=
    (congrFun hdone.body entry).trans (Function.update_self _ _ _)
  refine h.inserted hchains hdone (hseq ▸ hapart) ?_ ?_ ?_
  · rintro x hx ⟨hhost, -, -, -, hlater⟩
    rw [hnew] at hlater
    exact absurd ((hhomed x hx).2 hhost).2 (Nat.not_lt.2 (Nat.le_of_lt hlater))
  · rintro x hx ⟨-, hhost, hwaits, hsame, -⟩
    rw [hnew] at hsame
    obtain ⟨front, back, hafter⟩ := List.append_of_mem hx
    have hsplit : busy = (before ++ front) ++ x :: back := by
      rw [hdone.busy_eq, hafter, List.append_assoc]
    refine hbehind x (by rw [hsplit]; simp) ⟨hhost, hwaits, hsame⟩ ?_
    rw [(dropWhile_split hsplit hnodup).1]
    intro a ha
    exact hdone.sorted.later a (by rw [hafter]; exact List.mem_append_right _ ha)
  · rintro front back hsplit hmem x hx ⟨-, hhost, hwaits, hsame, -⟩
    rw [hnew] at hsame
    rw [(dropWhile_split hsplit hnodup).1, (dropWhile_split hsplit hnodup).2] at hreached
    have hlate := hreached x hx ⟨hhost, hwaits, hsame⟩
    obtain ⟨front', back', hbefore⟩ := List.append_of_mem hmem
    have hsplit' : busy = front' ++ worker.curr :: (back' ++ after) := by
      rw [hdone.busy_eq, hbefore, List.append_assoc, List.cons_append]
    have hback : back = back' ++ after := by
      have hdrop := (dropWhile_split hsplit hnodup).1
      rw [(dropWhile_split hsplit' hnodup).1, List.cons.injEq] at hdrop
      exact hdrop.2.symm
    have hlast : final noEntry before ∈ worker.curr :: back := by
      rw [hbefore, final_append, final_congr noEntry (List.cons_ne_nil _ _), hback]
      have hfinal := final_mem (p := noEntry) (List.cons_ne_nil worker.curr back')
      rw [← List.cons_append]
      exact List.mem_append_left _ hfinal
    have hdue := hdone.sorted.notLater (List.ne_nil_of_mem hmem)
    exact absurd (hlate _ hlast) (Nat.not_lt.2 hdue)

theorem InPlace.internal {sqid nsecsTarget writeBuffer buffsToRelease : Nat}
    (h : InPlace worker (busyList worker)) (hheld : Held P worker)
    (hapart : HasSlot worker → worker.curr ≠ worker.freeSeq)
    (hrun : enqueue (.internal sqid nsecsTarget writeBuffer buffsToRelease) worker =
      .ok worker') : InPlace worker' (busyList worker') := by
  obtain ⟨free, busy, hchains, -, -⟩ := hheld
  by_cases hslot : HasSlot worker
  · obtain ⟨worker'', entry, rest, before, after, hrun', hdone⟩ :=
      enqueue_spec hchains _ hslot
    rw [hrun] at hrun'
    cases hrun'
    rw [hchains.busyList_eq] at h
    rw [hdone.chains.busyList_eq]
    have hseq : worker.freeSeq = entry := by
      have hlinks := hchains.freeLinks
      rw [hdone.free_eq] at hlinks
      exact hlinks.1
    have hnew : (body worker' entry).isInternal = true := by
      rw [hdone.body, Function.update_self]
      rfl
    refine h.inserted hchains hdone (hseq ▸ hapart hslot) ?_ ?_ ?_
    · rintro x - ⟨-, hhost, -⟩
      rw [hnew] at hhost
      cases hhost
    · rintro x - ⟨hhost, -⟩
      rw [hnew] at hhost
      cases hhost
    · rintro front back - - x - ⟨hhost, -⟩
      rw [hnew] at hhost
      cases hhost
  · rw [enqueue_refused _ hslot] at hrun
    cases hrun
    exact h

end Requests

section Steps

variable {be : Backend μ κ} {vdev vdev' : NvmevDev μ κ} {event : Event κ}

structure Lined (vdev : NvmevDev μ κ) : Prop where
  held : ∀ id < vdev.nrIoWorkers, Held (Homed vdev id) (vdev.ioWorkers id)
  inPlace : ∀ id < vdev.nrIoWorkers,
    InPlace (vdev.ioWorkers id) (busyList (vdev.ioWorkers id))

theorem lined_start (h : Started vdev) : Lined vdev where
  held id _ := by
    rw [h.workers]
    exact held_init _
  inPlace id _ := by
    rw [h.workers, ioWorkerInit_chains.busyList_eq]
    exact ⟨List.Pairwise.nil, by simp⟩

theorem workerOf_eq {q id : Nat} (h : getIoWorker vdev q = .ok id) :
    workerOf vdev q = some (vdev.ioWorkers id) := by
  rw [workerOf, h]
  rfl

theorem step_kept (hstep : step be vdev event = .ok vdev') :
    vdev'.nrIoWorkers = vdev.nrIoWorkers ∧ vdev.accepted.length ≤ vdev'.accepted.length := by
  cases step_result hstep with
  | accept => exact ⟨rfl, by simp⟩
  | _ => exact ⟨rfl, le_refl _⟩

theorem getIoWorker_kept (hstep : step be vdev event = .ok vdev') (q : Nat) :
    getIoWorker vdev' q = getIoWorker vdev q := by
  rw [getIoWorker, getIoWorker, (step_kept hstep).1]

theorem Lined.held_step (h : Lined vdev) (hstep : step be vdev event = .ok vdev') :
    ∀ id < vdev'.nrIoWorkers, Held (Homed vdev' id) (vdev'.ioWorkers id) := by
  refine (step_held_at (P := Homed vdev') hstep ?_ ?_ ?_ ?_ ?_).2
  · intro id hid
    refine (h.held id hid).imp ?_
    rintro w ⟨hmoved, hhome⟩
    refine ⟨hmoved, fun hhost => ⟨?_, ?_⟩⟩
    · rw [getIoWorker_kept hstep]
      exact (hhome hhost).1
    · exact lt_of_lt_of_le (hhome hhost).2 (step_kept hstep).2
  · rintro cmd ret p sq rfl hpass hturn hseq hsq id hid w
    refine ⟨by rintro ⟨⟩, fun _ => ⟨?_, ?_⟩⟩
    · rw [getIoWorker_kept hstep]
      exact hid
    · rw [(step_accepts hstep hpass hturn hseq hsq).1]
      simp only [hostRequest, Request.fill, List.length_append, List.length_singleton]
      exact Nat.lt_succ_self _
  · intro id sqid nsecsTarget writeBuffer buffsToRelease w
    exact ⟨fun _ => rfl, by rintro ⟨⟩⟩
  · rintro id w moved ⟨-, hhome⟩ -
    obtain ⟨status, result0, hcopied⟩ := copied_eq w moved
    rw [hcopied]
    exact ⟨fun _ => rfl, hhome⟩
  · rintro id w ⟨-, hhome⟩ hcopied -
    exact ⟨fun _ => hcopied, hhome⟩

theorem Lined.step (h : Lined vdev) (horder : InOrder vdev event)
    (hstep : step be vdev event = .ok vdev') : Lined vdev' := by
  refine ⟨h.held_step hstep, ?_⟩
  have hupdate : ∀ (id : Nat) (worker : IoWorker),
      InPlace worker (busyList worker) → ∀ i < vdev.nrIoWorkers,
      InPlace (Function.update vdev.ioWorkers id worker i)
        (busyList (Function.update vdev.ioWorkers id worker i)) := by
    intro id worker hworker i hi
    by_cases heq : i = id
    · subst heq
      rw [Function.update_self]
      exact hworker
    · rw [Function.update_of_ne heq]
      exact h.inPlace i hi
  have hwork : ∀ (id now : Nat) (moved : Nat × Nat), id < vdev.nrIoWorkers →
      ∀ i < vdev.nrIoWorkers,
      InPlace (Function.update vdev.ioWorkers id
          (ioWorkerStep (vdev.ioWorkers id) now moved).1 i)
        (busyList (Function.update vdev.ioWorkers id
          (ioWorkerStep (vdev.ioWorkers id) now moved).1 i)) := by
    intro id now moved hid
    obtain ⟨free, busy, hchains, hstanding, hhomed⟩ := h.held id hid
    have hplace := h.inPlace id hid
    rw [hchains.busyList_eq] at hplace
    refine hupdate id _ ?_
    rw [(ioWorkerStep_chains hchains now moved).busyList_eq]
    exact hplace.work hchains hstanding (fun e he => (hhomed e he).1) now moved
  cases step_result hstep with
  | accept cmd ret p sq id turns worker pass present turn seq hid run =>
      have hline := horder p pass turn seq _ (workerOf_eq hid)
      exact hupdate id worker ((h.inPlace id (getIoWorker_lt hid)).host
        (h.held id (getIoWorker_lt hid)) hline run)
  | schedule sqid nsecsTarget writeBuffer buffsToRelease id turns worker hid run =>
      exact hupdate id worker ((h.inPlace id (getIoWorker_lt hid)).internal
        (h.held id (getIoWorker_lt hid)) (horder _ (workerOf_eq hid)) run)
  | reclaim p id worker pass turn lt run =>
      obtain ⟨free, busy, hchains, -, -⟩ := h.held id lt
      obtain ⟨worker', hrun', hchains', hbody, -, hcurr⟩ := reclaimCompletedReqs_spec hchains
      rw [run] at hrun'
      cases hrun'
      have hplace := h.inPlace id lt
      rw [hchains.busyList_eq] at hplace
      refine hupdate id worker ?_
      rw [hchains'.busyList_eq]
      exact hplace.reclaimed (List.nodup_append.1 hchains.nodup).2.1 hbody hcurr
  | work id now medium moved lt perform effect => exact hwork id now moved lt
  | post id now medium moved w cq lt perform effect present => exact hwork id now moved lt
  | release id now medium moved writeBuffer buffsToRelease lt perform effect =>
      exact hwork id now moved lt
  | _ => exact h.inPlace

theorem Lined.completes (h : Lined vdev) {id now i e : Nat} {w : IoWork}
    (hcompletes : completes vdev id now = some w) (hi : i < vdev.nrIoWorkers)
    (he : e ∈ busyList (vdev.ioWorkers i)) :
    ¬Overtakes w ((vdev.ioWorkers i).workQueue e) := by
  rw [IoSteps.completes] at hcompletes
  split at hcompletes
  · next hcond =>
    cases hcompletes
    obtain ⟨hid, hcurr, hopen, hhost, -⟩ := hcond
    obtain ⟨hhome, hmem⟩ := (h.held id hid).curr hcurr hopen
    intro hovertakes
    have hfacts := hovertakes
    obtain ⟨-, hhost', -, hsame, -⟩ := hfacts
    have hhere := (hhome.2 hhost).1
    have hthere := (((h.held i hi).busyList he).2 hhost').1
    have hqueue : (body (vdev.ioWorkers i) e).sqid =
        (body (vdev.ioWorkers id) (vdev.ioWorkers id).curr).sqid := hsame
    rw [hqueue, hhere] at hthere
    cases hthere
    exact (h.inPlace id hid).not_overtaken hmem e he hovertakes
  · cases hcompletes

end Steps

end NvmeVirt.DispatchOrder
