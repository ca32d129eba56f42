import Mathlib.Logic.Function.Basic
import Mathlib.Tactic.Common

/-!
The indexed binary heap of `pqueue/pqueue.c`. The queue stores pointers to
records of its client; the client's callbacks read and write the priority and
the heap position kept in such a record, so the heap operations change the
records too.
-/

namespace NvmeVirt.PriorityQueue

variable {α β : Type} [DecidableEq α]

/-- The callbacks passed to `pqueue_init`. -/
structure Callbacks (β : Type) where
  cmppri : Nat → Nat → Bool
  getpri : β → Nat
  setpri : β → Nat → β
  getpos : β → Nat
  setpos : β → Nat → β

/-- `pqueue_t` together with the records its elements point to. Slot 0 of `d`
is not used, so an empty queue has size 1. -/
structure Heap (α β : Type) where
  size : Nat
  d : Nat → α
  node : α → β

variable (cb : Callbacks β)

/-- `q->d[i] = a; q->setpos(a, i);` -/
def place (h : Heap α β) (i : Nat) (a : α) : Heap α β :=
  { h with
    d := Function.update h.d i a
    node := Function.update h.node a (cb.setpos (h.node a) i) }

/-- The loop of `bubble_up`. The index at least halves in every round, so fuel
equal to the start index is enough. -/
def bubbleUpLoop (moving : α) (movingPri : Nat) :
    Nat → Heap α β → Nat → Heap α β
  | 0, h, i => place cb h i moving
  | fuel + 1, h, i =>
      if 1 < i && cb.cmppri (cb.getpri (h.node (h.d (i / 2)))) movingPri then
        bubbleUpLoop moving movingPri fuel (place cb h i (h.d (i / 2))) (i / 2)
      else place cb h i moving

def bubbleUp (h : Heap α β) (i : Nat) : Heap α β :=
  bubbleUpLoop cb (h.d i) (cb.getpri (h.node (h.d i))) i h i

/-- `maxchild`; the result 0 means that `i` is a leaf. -/
def maxchild (h : Heap α β) (i : Nat) : Nat :=
  let child := 2 * i
  if h.size ≤ child then 0
  else if child + 1 < h.size &&
      cb.cmppri (cb.getpri (h.node (h.d child)))
        (cb.getpri (h.node (h.d (child + 1)))) then child + 1
  else child

/-- The loop of `percolate_down`. The index at least doubles in every round,
so fuel equal to the queue size is enough. -/
def percolateDownLoop (moving : α) (movingPri : Nat) :
    Nat → Heap α β → Nat → Heap α β
  | 0, h, i => place cb h i moving
  | fuel + 1, h, i =>
      let child := maxchild cb h i
      if child ≠ 0 && cb.cmppri movingPri (cb.getpri (h.node (h.d child))) then
        percolateDownLoop moving movingPri fuel (place cb h i (h.d child)) child
      else place cb h i moving

def percolateDown (h : Heap α β) (i : Nat) : Heap α β :=
  percolateDownLoop cb (h.d i) (cb.getpri (h.node (h.d i))) h.size h i

def pqueueInsert (h : Heap α β) (a : α) : Heap α β :=
  bubbleUp cb { h with size := h.size + 1, d := Function.update h.d h.size a }
    h.size

def pqueueChangePriority (h : Heap α β) (newPri : Nat) (a : α) : Heap α β :=
  let oldPri := cb.getpri (h.node a)
  let h := { h with node := Function.update h.node a (cb.setpri (h.node a) newPri) }
  let posn := cb.getpos (h.node a)
  if cb.cmppri oldPri newPri then bubbleUp cb h posn else percolateDown cb h posn

/-- `pqueue_pop`, without the element it returns, which is `pqueue_peek`. -/
def pqueuePop (h : Heap α β) : Heap α β :=
  if h.size = 1 then h
  else
    percolateDown cb
      { h with size := h.size - 1, d := Function.update h.d 1 (h.d (h.size - 1)) } 1

def pqueuePeek (h : Heap α β) : Option α :=
  if h.size = 1 then none else some (h.d 1)

/-- What the heap needs of its callbacks: the position and the priority are
separate parts of a record, and writing one leaves the rest alone. -/
structure Callbacks.Lawful : Prop where
  getpos_setpos : ∀ b i, cb.getpos (cb.setpos b i) = i
  setpos_setpos : ∀ b i j, cb.setpos (cb.setpos b i) j = cb.setpos b j
  getpos_setpri : ∀ b i, cb.getpos (cb.setpri b i) = cb.getpos b

/-- Every queued element records its own slot, and an element that records a
slot is queued there. -/
structure Indexed (h : Heap α β) : Prop where
  size_pos : 1 ≤ h.size
  slot : ∀ i, 1 ≤ i → i < h.size → cb.getpos (h.node (h.d i)) = i
  queued : ∀ a, cb.getpos (h.node a) ≠ 0 →
    cb.getpos (h.node a) < h.size ∧ h.d (cb.getpos (h.node a)) = a

/-- `Indexed` while the element `m` is being moved and slot `i` is its hole.
An element in `gone` has left the queue with its position still recorded. -/
structure Hole (gone : α → Prop) (h : Heap α β) (i : Nat) (m : α) : Prop where
  lo : 1 ≤ i
  hi : i < h.size
  moving : ¬ gone m
  slot : ∀ j, 1 ≤ j → j < h.size → j ≠ i →
    cb.getpos (h.node (h.d j)) = j ∧ h.d j ≠ m ∧ ¬ gone (h.d j)
  queued : ∀ a, a ≠ m → ¬ gone a → cb.getpos (h.node a) ≠ 0 →
    cb.getpos (h.node a) < h.size ∧ cb.getpos (h.node a) ≠ i ∧
      h.d (cb.getpos (h.node a)) = a

/-- `h'` is `h` with its elements and `m` in another order: slots and recorded
positions agree, no other part of a record has changed, and outside `gone`
nothing has entered or left. -/
structure Rearranged (gone : α → Prop) (h h' : Heap α β) (m : α) : Prop where
  size : h'.size = h.size
  slot : ∀ i, 1 ≤ i → i < h'.size →
    cb.getpos (h'.node (h'.d i)) = i ∧ ¬ gone (h'.d i)
  queued : ∀ a, ¬ gone a → cb.getpos (h'.node a) ≠ 0 →
    cb.getpos (h'.node a) < h'.size ∧ h'.d (cb.getpos (h'.node a)) = a
  record : ∀ a, cb.setpos (h'.node a) 0 = cb.setpos (h.node a) 0
  member : ∀ a, ¬ gone a →
    (cb.getpos (h'.node a) ≠ 0 ↔ a = m ∨ cb.getpos (h.node a) ≠ 0)

variable {cb}

theorem getpos_place (law : cb.Lawful) (h : Heap α β) (i : Nat) (a b : α) :
    cb.getpos ((place cb h i a).node b) =
      if b = a then i else cb.getpos (h.node b) := by
  by_cases hba : b = a
  · subst hba
    simp [place, law.getpos_setpos]
  · simp [place, hba]

theorem setpos_place (law : cb.Lawful) (h : Heap α β) (i : Nat) (a b : α) :
    cb.setpos ((place cb h i a).node b) 0 = cb.setpos (h.node b) 0 := by
  by_cases hba : b = a
  · subst hba
    simp [place, law.setpos_setpos]
  · simp [place, hba]

theorem Hole.finish (law : cb.Lawful) {gone : α → Prop} {h : Heap α β}
    {i : Nat} {m : α} (hole : Hole cb gone h i m) :
    Rearranged cb gone h (place cb h i m) m := by
  refine ⟨rfl, ?_, ?_, setpos_place law h i m, ?_⟩
  · intro j hj hjs
    rw [getpos_place law]
    by_cases hji : j = i
    · subst hji
      simp [place, hole.moving]
    · obtain ⟨hslot, hne, hgone⟩ := hole.slot j hj hjs hji
      simp [place, hji, hne, hslot, hgone]
  · intro a hgone ha
    rw [getpos_place law] at ha ⊢
    by_cases ham : a = m
    · subst ham
      simp only [if_true] at ha ⊢
      exact ⟨hole.hi, by simp [place]⟩
    · simp only [ham, if_false] at ha ⊢
      obtain ⟨hlt, hne, hd⟩ := hole.queued a ham hgone ha
      exact ⟨hlt, by simp [place, hne, hd]⟩
  · intro a _
    rw [getpos_place law]
    have hlo := hole.lo
    by_cases ham : a = m
    · simp only [ham, if_true, true_or, iff_true]
      omega
    · simp [ham]

theorem Hole.move (law : cb.Lawful) {gone : α → Prop} {h : Heap α β}
    {i j : Nat} {m : α} (hole : Hole cb gone h i m) (hj : 1 ≤ j)
    (hjs : j < h.size) (hji : j ≠ i) :
    Hole cb gone (place cb h i (h.d j)) j m := by
  obtain ⟨hslot, hne, hgone⟩ := hole.slot j hj hjs hji
  refine ⟨hj, hjs, hole.moving, ?_, ?_⟩
  · intro k hk hks hkj
    rw [getpos_place law]
    by_cases hki : k = i
    · subst hki
      simp [place, hne, hgone]
    · obtain ⟨hkslot, hkne, hkgone⟩ := hole.slot k hk hks hki
      have hdk : h.d k ≠ h.d j := by
        intro heq
        rw [heq, hslot] at hkslot
        exact hkj hkslot.symm
      simp [place, hki, hdk, hkslot, hkne, hkgone]
  · intro a ham hagone ha
    rw [getpos_place law] at ha ⊢
    by_cases haj : a = h.d j
    · subst haj
      simp only [if_true] at ha ⊢
      exact ⟨hole.hi, fun h => hji h.symm, by simp [place]⟩
    · simp only [haj, if_false] at ha ⊢
      obtain ⟨hlt, hnei, hd⟩ := hole.queued a ham hagone ha
      refine ⟨hlt, ?_, by simp [place, hnei, hd]⟩
      intro heq
      exact haj (by rw [← hd, heq])

theorem Hole.rearranged_of_move (law : cb.Lawful) {gone : α → Prop}
    {h h' : Heap α β} {i j : Nat} {m : α} (hole : Hole cb gone h i m)
    (hj : 1 ≤ j) (hjs : j < h.size) (hji : j ≠ i)
    (hr : Rearranged cb gone (place cb h i (h.d j)) h' m) :
    Rearranged cb gone h h' m := by
  obtain ⟨hslot, -, -⟩ := hole.slot j hj hjs hji
  have hlo := hole.lo
  refine ⟨hr.size, hr.slot, hr.queued, ?_, ?_⟩
  · intro a
    rw [hr.record a, setpos_place law]
  · intro a hgone
    rw [hr.member a hgone, getpos_place law]
    by_cases haj : a = h.d j
    · subst haj
      simp only [if_true, hslot]
      omega
    · simp [haj]

theorem bubbleUpLoop_rearranges (law : cb.Lawful) {gone : α → Prop} (m : α)
    (movingPri fuel : Nat) (h : Heap α β) (i : Nat) (hole : Hole cb gone h i m) :
    Rearranged cb gone h (bubbleUpLoop cb m movingPri fuel h i) m := by
  induction fuel generalizing h i with
  | zero => exact hole.finish law
  | succ fuel ih =>
      rw [bubbleUpLoop]
      split
      · rename_i hcond
        simp only [Bool.and_eq_true, decide_eq_true_eq] at hcond
        have hhi := hole.hi
        have hmoved := ih _ _
          (hole.move law (j := i / 2) (by omega) (by omega) (by omega))
        exact hole.rearranged_of_move law (by omega) (by omega) (by omega) hmoved
      · exact hole.finish law

omit [DecidableEq α] in
theorem maxchild_bounds (h : Heap α β) (i : Nat) (hi : 1 ≤ i)
    (hne : maxchild cb h i ≠ 0) :
    i < maxchild cb h i ∧ maxchild cb h i < h.size := by
  unfold maxchild at hne ⊢
  dsimp only at hne ⊢
  split at hne
  · exact absurd rfl hne
  · rename_i hsize
    rw [if_neg hsize]
    split
    · rename_i hcond
      simp only [Bool.and_eq_true, decide_eq_true_eq] at hcond
      omega
    · omega

theorem percolateDownLoop_rearranges (law : cb.Lawful) {gone : α → Prop}
    (m : α) (movingPri fuel : Nat) (h : Heap α β) (i : Nat)
    (hole : Hole cb gone h i m) :
    Rearranged cb gone h (percolateDownLoop cb m movingPri fuel h i) m := by
  induction fuel generalizing h i with
  | zero => exact hole.finish law
  | succ fuel ih =>
      rw [percolateDownLoop]
      split
      · rename_i hcond
        simp only [Bool.and_eq_true, decide_eq_true_eq] at hcond
        obtain ⟨hgt, hlt⟩ := maxchild_bounds h i hole.lo hcond.1
        have hlo := hole.lo
        have hmoved := ih _ _
          (hole.move law (j := maxchild cb h i) (by omega) hlt (by omega))
        exact hole.rearranged_of_move law (by omega) hlt (by omega) hmoved
      · exact hole.finish law

omit [DecidableEq α] in
theorem Rearranged.indexed {h h' : Heap α β} {m : α} (hsize : 1 ≤ h.size)
    (hr : Rearranged cb (fun _ => False) h h' m) : Indexed cb h' :=
  ⟨hr.size ▸ hsize, fun i hi his => (hr.slot i hi his).1,
    fun a => hr.queued a id⟩

theorem pqueueInsert_spec (law : cb.Lawful) {h : Heap α β} {a : α}
    (hidx : Indexed cb h) (ha : cb.getpos (h.node a) = 0) :
    Indexed cb (pqueueInsert cb h a) ∧
      (pqueueInsert cb h a).size = h.size + 1 ∧
      (∀ b, cb.setpos ((pqueueInsert cb h a).node b) 0 = cb.setpos (h.node b) 0) ∧
      ∀ b, cb.getpos ((pqueueInsert cb h a).node b) ≠ 0 ↔
        b = a ∨ cb.getpos (h.node b) ≠ 0 := by
  have hsize := hidx.size_pos
  have hole : Hole cb (fun _ => False)
      { h with size := h.size + 1, d := Function.update h.d h.size a } h.size a := by
    refine ⟨hsize, by simp, id, ?_, ?_⟩
    · intro j hj hjs hne
      have hjlt : j < h.size := by simp only at hjs; omega
      have hslot := hidx.slot j hj hjlt
      simp only [Function.update_of_ne hne]
      refine ⟨hslot, ?_, id⟩
      intro heq
      rw [heq, ha] at hslot
      omega
    · intro b _ _ hb
      obtain ⟨hlt, hd⟩ := hidx.queued b hb
      have hne : cb.getpos (h.node b) ≠ h.size := by omega
      refine ⟨by simp only; omega, hne, ?_⟩
      simp only [Function.update_of_ne hne]
      exact hd
  have hmoving : Function.update h.d h.size a h.size = a := by simp
  have hr := bubbleUpLoop_rearranges law a (cb.getpri (h.node a)) h.size _ _ hole
  have heq : pqueueInsert cb h a = bubbleUpLoop cb a (cb.getpri (h.node a))
      h.size { h with size := h.size + 1, d := Function.update h.d h.size a }
      h.size := by
    simp only [pqueueInsert, bubbleUp, hmoving]
  rw [heq]
  exact ⟨hr.indexed (by simp), hr.size, hr.record, fun b => hr.member b id⟩

omit [DecidableEq α] in
theorem Indexed.hole {h : Heap α β} (hidx : Indexed cb h) {i : Nat}
    (hi : 1 ≤ i) (his : i < h.size) :
    Hole cb (fun _ => False) h i (h.d i) := by
  refine ⟨hi, his, id, ?_, ?_⟩
  · intro j hj hjs hne
    have hslot := hidx.slot j hj hjs
    refine ⟨hslot, ?_, id⟩
    intro heq
    rw [heq, hidx.slot i hi his] at hslot
    exact hne hslot.symm
  · intro a ha _ hpos
    obtain ⟨hlt, hd⟩ := hidx.queued a hpos
    refine ⟨hlt, ?_, hd⟩
    intro heq
    exact ha (by rw [← hd, heq])

omit [DecidableEq α] in
theorem Indexed.of_node {h : Heap α β} (hidx : Indexed cb h) {node : α → β}
    (hpos : ∀ a, cb.getpos (node a) = cb.getpos (h.node a)) :
    Indexed cb { h with node := node } := by
  refine ⟨hidx.size_pos, ?_, ?_⟩
  · intro i hi his
    rw [hpos]
    exact hidx.slot i hi his
  · intro b hb
    rw [hpos] at hb ⊢
    exact hidx.queued b hb

theorem pqueueChangePriority_spec (law : cb.Lawful) {h : Heap α β} {a : α}
    (newPri : Nat) (hidx : Indexed cb h) (ha : cb.getpos (h.node a) ≠ 0) :
    Indexed cb (pqueueChangePriority cb h newPri a) ∧
      (pqueueChangePriority cb h newPri a).size = h.size ∧
      (∀ b, cb.setpos ((pqueueChangePriority cb h newPri a).node b) 0 =
        cb.setpos (Function.update h.node a (cb.setpri (h.node a) newPri) b) 0) ∧
      ∀ b, cb.getpos ((pqueueChangePriority cb h newPri a).node b) ≠ 0 ↔
        cb.getpos (h.node b) ≠ 0 := by
  have hidx₁ : Indexed cb
      { h with node := Function.update h.node a (cb.setpri (h.node a) newPri) } := by
    apply hidx.of_node
    intro b
    by_cases hb : b = a
    · subst hb
      simp [law.getpos_setpri]
    · simp [hb]
  have hposa : cb.getpos
      (Function.update h.node a (cb.setpri (h.node a) newPri) a) =
        cb.getpos (h.node a) := by
    simp [law.getpos_setpri]
  have hmember : ∀ b, (b = a ∨ cb.getpos
      (Function.update h.node a (cb.setpri (h.node a) newPri) b) ≠ 0) ↔
        cb.getpos (h.node b) ≠ 0 := by
    intro b
    by_cases hb : b = a
    · subst hb
      simpa [law.getpos_setpri] using ha
    · simp [hb]
  obtain ⟨hlt, hd⟩ := hidx.queued a ha
  have hole := hidx₁.hole (i := cb.getpos (h.node a)) (Nat.pos_of_ne_zero ha) hlt
  simp only [hd] at hole
  have hup := bubbleUpLoop_rearranges law a (cb.getpri
    (Function.update h.node a (cb.setpri (h.node a) newPri) a))
    (cb.getpos (h.node a)) _ _ hole
  have hdown := percolateDownLoop_rearranges law a (cb.getpri
    (Function.update h.node a (cb.setpri (h.node a) newPri) a)) h.size _ _ hole
  unfold pqueueChangePriority
  simp only [hposa, bubbleUp, percolateDown, hd]
  split
  · exact ⟨hup.indexed hidx₁.size_pos, hup.size, hup.record,
      fun b => (hup.member b id).trans (hmember b)⟩
  · exact ⟨hdown.indexed hidx₁.size_pos, hdown.size, hdown.record,
      fun b => (hdown.member b id).trans (hmember b)⟩

/-- The heap after the client has cleared the position of `a`. -/
def clearPos (cb : Callbacks β) (h : Heap α β) (a : α) : Heap α β :=
  { h with node := Function.update h.node a (cb.setpos (h.node a) 0) }

theorem getpos_clearPos (law : cb.Lawful) (h : Heap α β) (a b : α) :
    cb.getpos ((clearPos cb h a).node b) =
      if b = a then 0 else cb.getpos (h.node b) := by
  by_cases hba : b = a
  · subst hba
    simp [clearPos, law.getpos_setpos]
  · simp [clearPos, hba]

theorem setpos_clearPos (law : cb.Lawful) (h : Heap α β) (a b : α) :
    cb.setpos ((clearPos cb h a).node b) 0 = cb.setpos (h.node b) 0 := by
  by_cases hba : b = a
  · subst hba
    simp [clearPos, law.setpos_setpos]
  · simp [clearPos, hba]

theorem pqueuePop_rearranges (law : cb.Lawful) {h : Heap α β}
    (hidx : Indexed cb h) (hsize : 2 < h.size) :
    Rearranged cb (fun b => b = h.d 1)
      { h with size := h.size - 1, d := Function.update h.d 1 (h.d (h.size - 1)) }
      (pqueuePop cb h) (h.d (h.size - 1)) := by
  have hfirst := hidx.slot 1 (by omega) (by omega)
  have hlast := hidx.slot (h.size - 1) (by omega) (by omega)
  have hole : Hole cb (fun b => b = h.d 1)
      { h with size := h.size - 1, d := Function.update h.d 1 (h.d (h.size - 1)) }
      1 (h.d (h.size - 1)) := by
    refine ⟨by omega, by simp only; omega, ?_, ?_, ?_⟩
    · intro heq
      rw [heq, hfirst] at hlast
      omega
    · intro j hj hjs hne
      simp only at hjs
      have hjslot := hidx.slot j hj (by omega)
      simp only [Function.update_of_ne hne]
      refine ⟨hjslot, ?_, ?_⟩
      · intro heq
        rw [heq, hlast] at hjslot
        omega
      · intro heq
        rw [heq, hfirst] at hjslot
        exact hne hjslot.symm
    · intro b hbm hbgone hb
      obtain ⟨hlt, hd⟩ := hidx.queued b hb
      have hone : cb.getpos (h.node b) ≠ 1 := by
        intro heq
        exact hbgone (by rw [← hd, heq])
      have hne : cb.getpos (h.node b) ≠ h.size - 1 := by
        intro heq
        exact hbm (by rw [← hd, heq])
      exact ⟨by simp only; omega, hone, by simp [hone, hd]⟩
  have hloop := percolateDownLoop_rearranges law (h.d (h.size - 1))
    (cb.getpri (h.node (h.d (h.size - 1)))) (h.size - 1) _ _ hole
  have hne : h.size ≠ 1 := by omega
  simpa [pqueuePop, hne, percolateDown] using hloop

/-- Popping and then clearing the position of the popped element, as every
caller does, removes exactly the element that `pqueue_peek` shows. -/
theorem pqueuePop_spec (law : cb.Lawful) {h : Heap α β} {a : α}
    (hidx : Indexed cb h) (hpeek : pqueuePeek h = some a) :
    cb.getpos (h.node a) ≠ 0 ∧
      Indexed cb (clearPos cb (pqueuePop cb h) a) ∧
      (pqueuePop cb h).size + 1 = h.size ∧
      (∀ b, cb.setpos ((clearPos cb (pqueuePop cb h) a).node b) 0 =
        cb.setpos (h.node b) 0) ∧
      ∀ b, cb.getpos ((clearPos cb (pqueuePop cb h) a).node b) ≠ 0 ↔
        b ≠ a ∧ cb.getpos (h.node b) ≠ 0 := by
  have hone : h.size ≠ 1 := by
    intro heq
    simp [pqueuePeek, heq] at hpeek
  have hpos := hidx.size_pos
  have ha : h.d 1 = a := by simpa [pqueuePeek, hone] using hpeek
  have hslot : cb.getpos (h.node a) = 1 := by
    rw [← ha]
    exact hidx.slot 1 (by omega) (by omega)
  refine ⟨by omega, ?_⟩
  by_cases htwo : h.size = 2
  · -- The last element leaves: `percolate_down` puts it back into slot 1, which
    -- is now outside the queue.
    have hleaf : pqueuePop cb h = place cb
        { h with size := 1, d := Function.update h.d 1 a } 1 a := by
      simp [pqueuePop, htwo, percolateDown, percolateDownLoop, maxchild, ha]
    have hnone : ∀ b, b ≠ a → cb.getpos (h.node b) = 0 := by
      intro b hb
      by_contra hne
      obtain ⟨hlt, hd⟩ := hidx.queued b hne
      have hbone : cb.getpos (h.node b) = 1 := by omega
      exact hb (by rw [← hd, hbone, ha])
    have hclear : ∀ b, cb.getpos ((clearPos cb (pqueuePop cb h) a).node b) = 0 := by
      intro b
      rw [getpos_clearPos law, hleaf, getpos_place law]
      split
      · rfl
      · exact hnone b ‹_›
    refine ⟨⟨by simp [clearPos, hleaf, place], ?_, ?_⟩, ?_, ?_, ?_⟩
    · intro i hi his
      simp [clearPos, hleaf, place] at his
      omega
    · intro b hb
      exact absurd (hclear b) hb
    · simp [hleaf, place, htwo]
    · intro b
      rw [setpos_clearPos law, hleaf, setpos_place law]
    · intro b
      rw [hclear b]
      simp only [ne_eq, not_true, false_iff, not_and, not_not]
      exact hnone b
  · have hr := pqueuePop_rearranges law hidx (by omega)
    rw [ha] at hr
    have hpop : (pqueuePop cb h).size = h.size - 1 := hr.size
    have hlast := hidx.slot (h.size - 1) (by omega) (by omega)
    refine ⟨⟨by simp only [clearPos, hpop]; omega, ?_, ?_⟩, by omega, ?_, ?_⟩
    · intro i hi his
      obtain ⟨hi', hgone⟩ := hr.slot i hi his
      change cb.getpos ((clearPos cb (pqueuePop cb h) a).node
        ((pqueuePop cb h).d i)) = i
      rw [getpos_clearPos law, if_neg hgone]
      exact hi'
    · intro b hb
      rw [getpos_clearPos law] at hb ⊢
      split at hb
      · exact absurd rfl hb
      · rename_i hba
        rw [if_neg hba]
        exact hr.queued b hba hb
    · intro b
      rw [setpos_clearPos law, hr.record b]
    · intro b
      rw [getpos_clearPos law]
      by_cases hba : b = a
      · simp [hba]
      · rw [if_neg hba, hr.member b hba]
        constructor
        · rintro (rfl | hb)
          · exact ⟨hba, by omega⟩
          · exact ⟨hba, hb⟩
        · exact fun hb => Or.inr hb.2

omit [DecidableEq α] in
theorem pqueuePeek_eq_none {h : Heap α β} (hidx : Indexed cb h) :
    pqueuePeek h = none ↔ ∀ a, cb.getpos (h.node a) = 0 := by
  have hpos := hidx.size_pos
  constructor
  · intro hpeek a
    by_contra ha
    obtain ⟨hlt, -⟩ := hidx.queued a ha
    have hone : h.size = 1 := by
      by_contra hne
      simp [pqueuePeek, hne] at hpeek
    omega
  · intro hnone
    by_contra hne
    have hone : h.size ≠ 1 := by
      intro heq
      exact hne (by simp [pqueuePeek, heq])
    have hslot := hidx.slot 1 (by omega) (by omega)
    rw [hnone] at hslot
    omega

end NvmeVirt.PriorityQueue
