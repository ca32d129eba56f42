import Mathlib.Data.Finset.Card
import Mathlib.Data.Finset.Image
import Mathlib.Order.Interval.Finset.Nat
import NvmeVirt.ConvVictims

namespace NvmeVirt.HeapRefinement

open ConvLineAccounting
open ConvVictims
open ConventionalFtl
open HeapOrder
open PriorityQueue

variable {α β : Type} [DecidableEq α] (cb : Callbacks β)

def pqueueSize (h : Heap α β) : Nat := h.size - 1

def pqueueRemove (h : Heap α β) (a : α) : Heap α β :=
  let posn := cb.getpos (h.node a)
  let h := { h with size := h.size - 1, d := Function.update h.d posn (h.d (h.size - 1)) }
  if cb.cmppri (cb.getpri (h.node a)) (cb.getpri (h.node (h.d posn))) then bubbleUp cb h posn
  else percolateDown cb h posn

/-- The test of `subtree_is_valid` on one child. -/
def childIsValid (h : Heap α β) (pos child : Nat) (below : Bool) : Bool :=
  if child < h.size then
    if cb.cmppri (cb.getpri (h.node (h.d pos))) (cb.getpri (h.node (h.d child))) then false
    else below
  else true

/-- The position at least doubles from call to call, so fuel equal to the queue size is
enough. -/
def subtreeIsValid (h : Heap α β) : Nat → Nat → Bool
  | 0, _ => true
  | fuel + 1, pos =>
      childIsValid cb h pos (2 * pos) (subtreeIsValid h fuel (2 * pos)) &&
        childIsValid cb h pos (2 * pos + 1) (subtreeIsValid h fuel (2 * pos + 1))

def pqueueIsValid (h : Heap α β) : Bool := subtreeIsValid cb h h.size 1

variable {cb}

section Validity

omit [DecidableEq α] in
theorem childIsValid_iff {h : Heap α β} {pos child : Nat} {below : Bool} :
    childIsValid cb h pos child below = true ↔
      (child < h.size → Settled cb h pos child ∧ below = true) := by
  unfold childIsValid
  split
  · rename_i hlt
    rw [imp_iff_right hlt, Settled, key, key]
    cases cb.cmppri (cb.getpri (h.node (h.d pos))) (cb.getpri (h.node (h.d child))) <;> simp
  · rename_i hge
    exact iff_of_true rfl fun hlt => absurd hlt hge

omit [DecidableEq α] in
theorem subtreeIsValid_of_ordered {h : Heap α β} (hord : Ordered cb h) (fuel : Nat) {pos : Nat}
    (hpos : 1 ≤ pos) : subtreeIsValid cb h fuel pos = true := by
  induction fuel generalizing pos with
  | zero => rfl
  | succ fuel ih =>
      rw [subtreeIsValid, Bool.and_eq_true, childIsValid_iff, childIsValid_iff]
      constructor
      · intro hlt
        have hedge := hord (2 * pos) (by omega) hlt
        rw [show 2 * pos / 2 = pos by omega] at hedge
        exact ⟨hedge, ih (by omega)⟩
      · intro hlt
        have hedge := hord (2 * pos + 1) (by omega) hlt
        rw [show (2 * pos + 1) / 2 = pos by omega] at hedge
        exact ⟨hedge, ih (by omega)⟩

omit [DecidableEq α] in
theorem settled_of_subtreeIsValid {h : Heap α β} {fuel pos : Nat} (hpos : 1 ≤ pos)
    (hfuel : h.size ≤ pos + fuel) (hvalid : subtreeIsValid cb h fuel pos = true) (k : Nat)
    {j : Nat} (hj : j < h.size) (hbelow : j / 2 ^ (k + 1) = pos) :
    Settled cb h (j / 2) j := by
  induction fuel generalizing pos k with
  | zero =>
      have := Nat.div_le_self j (2 ^ (k + 1))
      omega
  | succ fuel ih =>
      rw [subtreeIsValid, Bool.and_eq_true, childIsValid_iff, childIsValid_iff] at hvalid
      -- the child of `pos` on the way down to `j`
      have hchild : j / 2 ^ k = 2 * pos ∨ j / 2 ^ k = 2 * pos + 1 := by
        rw [Nat.pow_succ, ← Nat.div_div_eq_div_mul] at hbelow
        omega
      have hle := Nat.div_le_self j (2 ^ k)
      have hsettled : Settled cb h pos (j / 2 ^ k) ∧
          subtreeIsValid cb h fuel (j / 2 ^ k) = true := by
        rcases hchild with hleft | hright
        · rw [hleft]
          exact hvalid.1 (by omega)
        · rw [hright]
          exact hvalid.2 (by omega)
      cases k with
      | zero =>
          rw [Nat.pow_zero, Nat.div_one] at hsettled hchild
          rw [show j / 2 = pos by omega]
          exact hsettled.1
      | succ k => exact ih (by omega) (by omega) hsettled.2 k rfl

theorem exists_pow_div_eq_one {j : Nat} (hj : 2 ≤ j) : ∃ k, j / 2 ^ (k + 1) = 1 := by
  induction j using Nat.strongRecOn with
  | _ j ih =>
      rcases Nat.lt_or_ge j 4 with hsmall | hlarge
      · exact ⟨0, by rw [Nat.zero_add, Nat.pow_one]; omega⟩
      · obtain ⟨k, hk⟩ := ih (j / 2) (by omega) (by omega)
        refine ⟨k + 1, ?_⟩
        rw [Nat.pow_succ, Nat.mul_comm, ← Nat.div_div_eq_div_mul]
        exact hk

omit [DecidableEq α] in
/-- Whatever the queue holds, `pqueue_is_valid` finds out whether it is in heap order. -/
theorem pqueueIsValid_iff (h : Heap α β) : pqueueIsValid cb h = true ↔ Ordered cb h := by
  constructor
  · intro hvalid j hj hjs
    obtain ⟨k, hk⟩ := exists_pow_div_eq_one hj
    exact settled_of_subtreeIsValid (Nat.le_refl 1) (by omega) hvalid k hjs hk
  · intro hord
    exact subtreeIsValid_of_ordered hord h.size (Nat.le_refl 1)

end Validity

section Removal

variable {h : Heap α β} {a : α}

/-- The queue with its last element in slot `i`. -/
def shortened (h : Heap α β) (i : Nat) : Heap α β :=
  { h with size := h.size - 1, d := Function.update h.d i (h.d (h.size - 1)) }

theorem pqueueRemove_eq (h : Heap α β) (a : α) :
    pqueueRemove cb h a =
      if cb.cmppri (cb.getpri (h.node a)) (cb.getpri (h.node (h.d (h.size - 1)))) then
        bubbleUp cb (shortened h (cb.getpos (h.node a))) (cb.getpos (h.node a))
      else percolateDown cb (shortened h (cb.getpos (h.node a))) (cb.getpos (h.node a)) := by
  simp only [pqueueRemove, shortened, Function.update_self]

omit [DecidableEq α] in
theorem shortened_hole (hidx : Indexed cb h) {i : Nat} (hi : 1 ≤ i) (his : i < h.size - 1) :
    Hole cb (fun b => b = h.d i) (shortened h i) i (h.d (h.size - 1)) := by
  have hslot := hidx.slot i hi (by omega)
  have hlast := hidx.slot (h.size - 1) (by omega) (by omega)
  refine ⟨hi, his, ?_, ?_, ?_⟩
  · intro heq
    rw [heq, hslot] at hlast
    omega
  · intro j hj hjs hne
    change j < h.size - 1 at hjs
    have hjslot := hidx.slot j hj (by omega)
    simp only [shortened, Function.update_of_ne hne]
    refine ⟨hjslot, ?_, ?_⟩
    · intro heq
      rw [heq, hlast] at hjslot
      omega
    · intro heq
      rw [heq, hslot] at hjslot
      exact hne hjslot.symm
  · intro b hbm hbgone hb
    obtain ⟨hlt, hd⟩ := hidx.queued b hb
    have hbi : cb.getpos (h.node b) ≠ i := by
      intro heq
      exact hbgone (by rw [← hd, heq])
    have hblast : cb.getpos (h.node b) ≠ h.size - 1 := by
      intro heq
      exact hbm (by rw [← hd, heq])
    refine ⟨by change cb.getpos (h.node b) < h.size - 1; omega, hbi, ?_⟩
    simp only [shortened, Function.update_of_ne hbi]
    exact hd

theorem pqueueRemove_rearranges (law : cb.Lawful) (hidx : Indexed cb h) {i : Nat}
    (hi : 1 ≤ i) (his : i < h.size - 1) :
    Rearranged cb (fun b => b = h.d i) (shortened h i) (pqueueRemove cb h (h.d i))
      (h.d (h.size - 1)) := by
  have hole := shortened_hole hidx hi his
  have hself : (shortened h i).d i = h.d (h.size - 1) := Function.update_self ..
  rw [pqueueRemove_eq, hidx.slot i hi (by omega)]
  split
  · rw [bubbleUp, hself]
    exact bubbleUpLoop_rearranges law _ _ _ _ _ hole
  · rw [percolateDown, hself]
    exact percolateDownLoop_rearranges law _ _ _ _ _ hole

theorem percolateDownLoop_leaf (m : α) (movingPri fuel : Nat) {h : Heap α β} {i : Nat}
    (hleaf : maxchild cb h i = 0) :
    percolateDownLoop cb m movingPri fuel h i = place cb h i m := by
  cases fuel with
  | zero => rfl
  | succ fuel =>
      rw [percolateDownLoop, hleaf]
      rfl

theorem pqueueRemove_last (hcmp : Comparable cb) (hidx : Indexed cb h) (hsize : 2 ≤ h.size) :
    pqueueRemove cb h (h.d (h.size - 1)) =
      place cb { h with size := h.size - 1 } (h.size - 1) (h.d (h.size - 1)) := by
  have hslot := hidx.slot (h.size - 1) (by omega) (by omega)
  have hshort : shortened h (h.size - 1) = { h with size := h.size - 1 } := by
    simp only [shortened, Function.update_eq_self]
  have hleaf : maxchild cb { h with size := h.size - 1 } (h.size - 1) = 0 := by
    rcases maxchild_spec hcmp { h with size := h.size - 1 } (h.size - 1) with
      ⟨hzero, -⟩ | ⟨hchild, hlt, -⟩
    · exact hzero
    · change _ < h.size - 1 at hlt
      omega
  rw [pqueueRemove_eq, hslot, hcmp.irrefl, if_neg Bool.false_ne_true, hshort, percolateDown]
  exact percolateDownLoop_leaf _ _ _ hleaf

/-- Removing an element and then clearing its position removes exactly that element. -/
theorem pqueueRemove_spec (law : cb.Lawful) (hcmp : Comparable cb) (hidx : Indexed cb h)
    (ha : cb.getpos (h.node a) ≠ 0) :
    Indexed cb (clearPos cb (pqueueRemove cb h a) a) ∧
      (pqueueRemove cb h a).size + 1 = h.size ∧
      (∀ b, cb.setpos ((clearPos cb (pqueueRemove cb h a) a).node b) 0 =
        cb.setpos (h.node b) 0) ∧
      ∀ b, cb.getpos ((clearPos cb (pqueueRemove cb h a) a).node b) ≠ 0 ↔
        b ≠ a ∧ cb.getpos (h.node b) ≠ 0 := by
  obtain ⟨hlt, hd⟩ := hidx.queued a ha
  rcases Nat.lt_or_ge (cb.getpos (h.node a)) (h.size - 1) with hinner | hend
  · have hr := pqueueRemove_rearranges law hidx (Nat.pos_of_ne_zero ha) hinner
    rw [hd] at hr
    have hsize : (pqueueRemove cb h a).size = h.size - 1 := hr.size
    refine ⟨⟨by change 1 ≤ (pqueueRemove cb h a).size; omega, ?_, ?_⟩, by omega, ?_, ?_⟩
    · intro i hi his
      obtain ⟨hslot, hgone⟩ := hr.slot i hi his
      change cb.getpos ((clearPos cb (pqueueRemove cb h a) a).node
        ((pqueueRemove cb h a).d i)) = i
      rw [getpos_clearPos law, if_neg hgone]
      exact hslot
    · intro b hb
      rw [getpos_clearPos law] at hb ⊢
      split at hb
      · exact absurd rfl hb
      · rename_i hba
        rw [if_neg hba]
        exact hr.queued b hba hb
    · intro b
      rw [setpos_clearPos law, hr.record b]
      rfl
    · intro b
      rw [getpos_clearPos law]
      by_cases hba : b = a
      · simp [hba]
      · have hlast : cb.getpos (h.node (h.d (h.size - 1))) ≠ 0 := by
          rw [hidx.slot (h.size - 1) (by omega) (by omega)]
          omega
        rw [if_neg hba, hr.member b hba]
        constructor
        · rintro (rfl | hb)
          · exact ⟨hba, hlast⟩
          · exact ⟨hba, hb⟩
        · exact fun hb => Or.inr hb.2
  · have hpos : cb.getpos (h.node a) = h.size - 1 := by omega
    rw [hpos] at hd
    have hremove := pqueueRemove_last hcmp hidx (by omega)
    rw [hd] at hremove
    have hclear : ∀ b, cb.getpos ((clearPos cb (pqueueRemove cb h a) a).node b) =
        if b = a then 0 else cb.getpos (h.node b) := by
      intro b
      rw [getpos_clearPos law, hremove, getpos_place law]
      split <;> rfl
    refine ⟨⟨?_, ?_, ?_⟩, ?_, ?_, ?_⟩
    · rw [hremove]
      change 1 ≤ h.size - 1
      omega
    · intro i hi his
      rw [hremove] at his
      change i < h.size - 1 at his
      have hslot := hidx.slot i hi (by omega)
      have hdi : (clearPos cb (pqueueRemove cb h a) a).d i = h.d i := by
        rw [hremove]
        exact Function.update_of_ne (Nat.ne_of_lt his) _ _
      have hne : h.d i ≠ a := by
        intro heq
        rw [heq, hpos] at hslot
        omega
      rw [hdi, hclear, if_neg hne, hslot]
    · intro b hb
      rw [hclear] at hb ⊢
      split at hb
      · exact absurd rfl hb
      · rename_i hba
        rw [if_neg hba, hremove]
        obtain ⟨hblt, hbd⟩ := hidx.queued b hb
        have hne : cb.getpos (h.node b) ≠ h.size - 1 := by
          intro heq
          exact hba (by rw [← hbd, heq, hd])
        refine ⟨by change cb.getpos (h.node b) < h.size - 1; omega, ?_⟩
        exact (Function.update_of_ne hne _ _).trans hbd
    · rw [hremove]
      change h.size - 1 + 1 = h.size
      omega
    · intro b
      rw [setpos_clearPos law, hremove, setpos_place law]
    · intro b
      rw [hclear]
      by_cases hba : b = a <;> simp [hba]

theorem pqueueRemove_ordered (hcmp : Comparable cb) (hidx : Indexed cb h)
    (hord : Ordered cb h) (ha : cb.getpos (h.node a) ≠ 0) :
    Ordered cb (pqueueRemove cb h a) := by
  obtain ⟨hlt, hd⟩ := hidx.queued a ha
  obtain ⟨i, hi⟩ : ∃ i, i = cb.getpos (h.node a) := ⟨_, rfl⟩
  rw [← hi] at hlt hd ha
  rcases Nat.lt_or_ge i (h.size - 1) with hinner | hend
  · obtain ⟨m, hm⟩ : ∃ m, m = h.d (h.size - 1) := ⟨_, rfl⟩
    have hfill : filled (shortened h i) i m = shortened h i := by
      simp only [filled, shortened, hm, Function.update_idem]
    have hself : key cb (shortened h i) i = cb.getpri (h.node m) := by
      rw [key, hm]
      simp [shortened]
    have hother : ∀ j, j ≠ i → key cb (shortened h i) j = key cb h j := by
      intro j hne
      rw [key, key]
      simp [shortened, hne]
    have hold : key cb h i = cb.getpri (h.node a) := by rw [key, hd]
    -- whatever is put there, the children of slot `i` stay below its parent
    have hgrand : 2 ≤ i → ∀ j, j < (shortened h i).size → j / 2 = i →
        Settled cb (shortened h i) (i / 2) j := by
      intro htwo j hjs hchild
      change j < h.size - 1 at hjs
      have hupper := hord i htwo hlt
      have hlower := hord j (by omega) (by omega)
      rw [Settled, hchild] at hlower
      rw [Settled, hother _ (by omega), hother _ (by omega)]
      exact hcmp.trans _ _ _ hupper hlower
    have hfar : ∀ j, 2 ≤ j → j < (shortened h i).size → j ≠ i → j / 2 ≠ i →
        Settled cb (shortened h i) (j / 2) j := by
      intro j hj hjs hne hnchild
      change j < h.size - 1 at hjs
      rw [Settled, hother _ hnchild, hother _ hne]
      exact hord j hj (by omega)
    have hmoving : (shortened h i).d i = m := by
      rw [hm]
      exact Function.update_self ..
    rw [pqueueRemove_eq, ← hi, ← hm]
    split
    · rename_i hraise
      rw [bubbleUp, hmoving]
      refine bubbleUpLoop_ordered hcmp m _ _ _ (Nat.pos_of_ne_zero ha) hinner (by omega) ?_
      rw [hfill]
      refine ⟨?_, hgrand⟩
      intro j hj hjs hne
      rcases eq_or_ne (j / 2) i with hchild | hnchild
      · change j < h.size - 1 at hjs
        have hedge := hord j hj (by omega)
        rw [Settled, hchild, hold] at hedge
        rw [Settled, hchild, hself, hother _ hne]
        exact hcmp.trans _ _ _ (hcmp.asymm _ _ hraise) hedge
      · exact hfar j hj hjs hne hnchild
    · rename_i hlower
      rw [percolateDown, hmoving]
      refine percolateDownLoop_ordered hcmp m _ _ _ (Nat.pos_of_ne_zero ha) hinner
        (Nat.le_add_left _ _) ?_
      rw [hfill]
      refine ⟨?_, hgrand⟩
      intro j hj hjs hnchild
      rcases eq_or_ne j i with rfl | hne
      · have hedge := hord j hj hlt
        rw [Settled, hold] at hedge
        rw [Settled, hself, hother _ hnchild]
        exact hcmp.trans _ _ _ hedge (Bool.not_eq_true _ ▸ hlower)
      · exact hfar j hj hjs hne hnchild
  · have hpos : i = h.size - 1 := by omega
    have hremove := pqueueRemove_last hcmp hidx (by omega)
    rw [← hpos, hd] at hremove
    rw [hremove]
    intro j hj hjs
    change j < i at hjs
    unfold Settled
    rw [key_place hcmp, key_place hcmp, key_filled, key_filled, if_neg (by omega),
      if_neg (by omega)]
    exact hord j hj (by omega)

end Removal

section Operations

variable (cb)

/-- What the queue is for: a set of elements, each with a priority. -/
structure Contents (α : Type) where
  queued : α → Prop
  pri : α → Nat

def Contents.add (c : Contents α) (a : α) : Contents α :=
  { c with queued := fun b => b = a ∨ c.queued b }

def Contents.drop (c : Contents α) (a : α) : Contents α :=
  { c with queued := fun b => b ≠ a ∧ c.queued b }

def Contents.rate (c : Contents α) (a : α) (newPri : Nat) : Contents α :=
  { c with pri := Function.update c.pri a newPri }

inductive HeapOp (α : Type) where
  | insert (a : α)
  | changePriority (newPri : Nat) (a : α)
  | remove (a : α)
  | pop

/-- An operation as its callers make it: the position of an element that has left is
cleared. The second part is what `pqueue_pop` returns. -/
def heapStep (h : Heap α β) : HeapOp α → Heap α β × Option α
  | .insert a => (pqueueInsert cb h a, none)
  | .changePriority newPri a => (pqueueChangePriority cb h newPri a, none)
  | .remove a => (clearPos cb (pqueueRemove cb h a) a, none)
  | .pop =>
      match pqueuePeek h with
      | none => (pqueuePop cb h, none)
      | some a => (clearPos cb (pqueuePop cb h) a, some a)

/-- An element is inserted while it is not queued, and changed or removed while it is. -/
def Allowed (h : Heap α β) : HeapOp α → Prop
  | .insert a => cb.getpos (h.node a) = 0
  | .changePriority _ a | .remove a => cb.getpos (h.node a) ≠ 0
  | .pop => True

inductive HeapRun : Heap α β → List (HeapOp α × Option α) → Heap α β → Prop where
  | nil (h : Heap α β) : HeapRun h [] h
  | cons {h h' : Heap α β} {op : HeapOp α} {trace : List (HeapOp α × Option α)}
      (hallowed : Allowed cb h op) (hrest : HeapRun (heapStep cb h op).1 trace h') :
      HeapRun h ((op, (heapStep cb h op).2) :: trace) h'

inductive Contents.Step (cmppri : Nat → Nat → Bool) (c : Contents α) :
    HeapOp α → Option α → Contents α → Prop where
  | insert (a : α) (hnew : ¬ c.queued a) :
      Step cmppri c (.insert a) none (c.add a)
  | changePriority (newPri : Nat) (a : α) (hqueued : c.queued a) :
      Step cmppri c (.changePriority newPri a) none (c.rate a newPri)
  | remove (a : α) (hqueued : c.queued a) :
      Step cmppri c (.remove a) none (c.drop a)
  | empty (hnone : ∀ a, ¬ c.queued a) : Step cmppri c .pop none c
  | pop (a : α) (hqueued : c.queued a)
      (hbest : ∀ b, c.queued b → cmppri (c.pri a) (c.pri b) = false) :
      Step cmppri c .pop (some a) (c.drop a)

inductive Contents.Run (cmppri : Nat → Nat → Bool) :
    Contents α → List (HeapOp α × Option α) → Contents α → Prop where
  | nil (c : Contents α) : Run cmppri c [] c
  | cons {c c' c'' : Contents α} {op : HeapOp α} {result : Option α}
      {trace : List (HeapOp α × Option α)} (hstep : c.Step cmppri op result c')
      (hrest : Run cmppri c' trace c'') : Run cmppri c ((op, result) :: trace) c''

def contents (h : Heap α β) : Contents α where
  queued a := cb.getpos (h.node a) ≠ 0
  pri a := cb.getpri (h.node a)

variable {cb}
variable {h h' : Heap α β} {a : α}

omit [DecidableEq α] in
theorem contents_eq (hcmp : Comparable cb) {c : Contents α}
    (hqueued : ∀ b, cb.getpos (h.node b) ≠ 0 ↔ c.queued b)
    (hrecord : ∀ b, cb.getpri (cb.setpos (h.node b) 0) = c.pri b) : contents cb h = c := by
  rw [contents, Contents.mk.injEq]
  constructor
  · funext b
    exact propext (hqueued b)
  · funext b
    rw [← hcmp.getpri_setpos _ 0, hrecord]

theorem heapStep_spec (law : cb.Lawful) (hcmp : Comparable cb) (hidx : Indexed cb h)
    (hord : Ordered cb h) {op : HeapOp α} (hallowed : Allowed cb h op) :
    Indexed cb (heapStep cb h op).1 ∧ Ordered cb (heapStep cb h op).1 ∧
      (contents cb h).Step cb.cmppri op (heapStep cb h op).2
        (contents cb (heapStep cb h op).1) := by
  have hpri : ∀ {h' : Heap α β}, (∀ b, cb.setpos (h'.node b) 0 = cb.setpos (h.node b) 0) →
      ∀ b, cb.getpri (cb.setpos (h'.node b) 0) = (contents cb h).pri b := by
    intro h' hrecord b
    rw [hrecord, hcmp.getpri_setpos]
    rfl
  cases op with
  | insert a =>
      obtain ⟨hidx', -, hrecord, hmember⟩ := pqueueInsert_spec law hidx hallowed
      refine ⟨hidx', pqueueInsert_ordered hcmp hidx.size_pos hord a, ?_⟩
      rw [heapStep, contents_eq (c := (contents cb h).add a) hcmp hmember (hpri hrecord)]
      exact .insert a (not_not.mpr hallowed)
  | changePriority newPri a =>
      obtain ⟨hidx', -, hrecord, hmember⟩ :=
        pqueueChangePriority_spec law newPri hidx hallowed
      refine ⟨hidx', pqueueChangePriority_ordered hcmp law hidx hord newPri hallowed, ?_⟩
      rw [heapStep, contents_eq (c := (contents cb h).rate a newPri) hcmp hmember ?_]
      · exact .changePriority newPri a hallowed
      · intro b
        change _ = Function.update (contents cb h).pri a newPri b
        rw [hrecord, hcmp.getpri_setpos]
        rcases eq_or_ne b a with rfl | hne
        · rw [Function.update_self, Function.update_self, hcmp.getpri_setpri]
        · rw [Function.update_of_ne hne, Function.update_of_ne hne]
          rfl
  | remove a =>
      obtain ⟨hidx', -, hrecord, hmember⟩ := pqueueRemove_spec law hcmp hidx hallowed
      refine ⟨hidx', (pqueueRemove_ordered hcmp hidx hord hallowed).clearPos hcmp a, ?_⟩
      rw [heapStep, contents_eq (c := (contents cb h).drop a) hcmp hmember (hpri hrecord)]
      exact .remove a hallowed
  | pop =>
      cases hpeek : pqueuePeek h with
      | none =>
          have hone : h.size = 1 := by
            by_contra hne
            rw [pqueuePeek, if_neg hne] at hpeek
            cases hpeek
          have hstay : heapStep cb h .pop = (h, none) := by
            simp [heapStep, hpeek, pqueuePop, hone]
          rw [hstay]
          refine ⟨hidx, hord, .empty ?_⟩
          intro a hqueued
          exact hqueued ((pqueuePeek_eq_none hidx).mp hpeek a)
      | some a =>
          have htake : heapStep cb h .pop = (clearPos cb (pqueuePop cb h) a, some a) := by
            simp [heapStep, hpeek]
          obtain ⟨hqueued, hidx', -, hrecord, hmember⟩ := pqueuePop_spec law hidx hpeek
          rw [htake]
          refine ⟨hidx', (pqueuePop_ordered hcmp hord).clearPos hcmp a, ?_⟩
          rw [contents_eq (c := (contents cb h).drop a) hcmp hmember (hpri hrecord)]
          exact .pop a hqueued fun b hb => pqueuePeek_first hcmp hidx hord hpeek hb

theorem heapRun_spec (law : cb.Lawful) (hcmp : Comparable cb)
    {trace : List (HeapOp α × Option α)} (hidx : Indexed cb h) (hord : Ordered cb h)
    (hrun : HeapRun cb h trace h') :
    Indexed cb h' ∧ Ordered cb h' ∧ (contents cb h).Run cb.cmppri trace (contents cb h') := by
  induction hrun with
  | nil => exact ⟨hidx, hord, .nil _⟩
  | cons hallowed hrest ih =>
      obtain ⟨hidx', hord', hstep⟩ := heapStep_spec law hcmp hidx hord hallowed
      obtain ⟨hidx'', hord'', hsteps⟩ := ih hidx' hord'
      exact ⟨hidx'', hord'', .cons hstep hsteps⟩

theorem card_queued (hidx : Indexed cb h) :
    ∃ elements : Finset α, (∀ a, a ∈ elements ↔ (contents cb h).queued a) ∧
      elements.card = pqueueSize h := by
  refine ⟨(Finset.Ico 1 h.size).image h.d, ?_, ?_⟩
  · intro a
    simp only [Finset.mem_image, Finset.mem_Ico]
    constructor
    · rintro ⟨i, ⟨hi, his⟩, rfl⟩
      change cb.getpos (h.node (h.d i)) ≠ 0
      rw [hidx.slot i hi his]
      omega
    · intro hqueued
      obtain ⟨hlt, hd⟩ := hidx.queued a hqueued
      exact ⟨_, ⟨Nat.pos_of_ne_zero hqueued, hlt⟩, hd⟩
  · rw [Finset.card_image_of_injOn, Nat.card_Ico, pqueueSize]
    intro i hi j hj heq
    simp only [Finset.coe_Ico, Set.mem_Ico] at hi hj
    have hslot := hidx.slot i hi.1 hi.2
    rw [heq, hidx.slot j hj.1 hj.2] at hslot
    exact hslot.symm

/-- `pqueue_init`, before any element has been queued. -/
structure Empty (cb : Callbacks β) (h : Heap α β) : Prop where
  size : h.size = 1
  pos : ∀ a, cb.getpos (h.node a) = 0

omit [DecidableEq α] in
theorem Empty.indexed (hempty : Empty cb h) : Indexed cb h ∧ Ordered cb h := by
  refine ⟨⟨Nat.le_of_eq hempty.size.symm, ?_, ?_⟩, ?_⟩
  · intro i hi his
    have := hempty.size
    omega
  · intro a ha
    exact absurd (hempty.pos a) ha
  · intro j hj hjs
    have := hempty.size
    omega

def someLines : Heap Nat Line where
  size := 1
  d _ := 0
  node l := { id := l, ipc := 1, vpc := 7 - l, pos := 0 }

theorem someLines_empty : Empty victimCallbacks someLines := ⟨rfl, fun _ => rfl⟩

def twoLines : Heap Nat Line :=
  (heapStep victimCallbacks (heapStep victimCallbacks someLines (.insert 1)).1 (.insert 2)).1

theorem twoLines_run {trace : List (HeapOp Nat × Option Nat)} {h' : Heap Nat Line}
    (hrest : HeapRun victimCallbacks twoLines trace h') :
    HeapRun victimCallbacks someLines ((.insert 1, none) :: (.insert 2, none) :: trace) h' := by
  have hfirst : Allowed victimCallbacks someLines (.insert 1) := rfl
  have hsecond : Allowed victimCallbacks
      (heapStep victimCallbacks someLines (.insert 1)).1 (.insert 2) := by
    change Line.pos _ = 0
    decide
  exact .cons hfirst (.cons hsecond hrest)

/-- The loop of `pqueue_print`: what popping until the queue is empty returns. -/
def drain (cb : Callbacks β) : Nat → Heap α β → List α
  | 0, _ => []
  | fuel + 1, h =>
      match pqueuePeek h with
      | none => []
      | some a => a :: drain cb fuel (clearPos cb (pqueuePop cb h) a)

/-- Popping until the queue is empty returns every queued element exactly once, and none
before one that is preferred to it. -/
theorem drain_sorted (law : cb.Lawful) (hcmp : Comparable cb) (hidx : Indexed cb h)
    (hord : Ordered cb h) :
    (∀ a, a ∈ drain cb h.size h ↔ cb.getpos (h.node a) ≠ 0) ∧ (drain cb h.size h).Nodup ∧
      (drain cb h.size h).Pairwise fun a b =>
        cb.cmppri (cb.getpri (h.node a)) (cb.getpri (h.node b)) = false := by
  obtain ⟨fuel, hfuel⟩ : ∃ fuel, h.size = fuel := ⟨_, rfl⟩
  rw [hfuel]
  replace hfuel := Nat.le_of_eq hfuel
  induction fuel generalizing h with
  | zero =>
      have := hidx.size_pos
      omega
  | succ fuel ih =>
      rw [drain]
      cases hpeek : pqueuePeek h with
      | none =>
          refine ⟨?_, List.nodup_nil, List.Pairwise.nil⟩
          intro a
          simp [(pqueuePeek_eq_none hidx).mp hpeek a]
      | some a =>
          obtain ⟨hqueued, hidx', hsize, hrecord, hmember⟩ := pqueuePop_spec law hidx hpeek
          have hpri : ∀ b, cb.getpri ((clearPos cb (pqueuePop cb h) a).node b) =
              cb.getpri (h.node b) := by
            intro b
            rw [← hcmp.getpri_setpos _ 0, hrecord, hcmp.getpri_setpos]
          obtain ⟨hmem, hnodup, hsorted⟩ := ih hidx'
            ((pqueuePop_ordered hcmp hord).clearPos hcmp a)
            (by change (pqueuePop cb h).size ≤ fuel; omega)
          simp only [hpri, hmember] at hmem hsorted
          refine ⟨?_, List.nodup_cons.mpr ⟨?_, hnodup⟩, List.pairwise_cons.mpr ⟨?_, hsorted⟩⟩
          · intro b
            rw [List.mem_cons, hmem]
            by_cases hba : b = a
            · simp [hba, hqueued]
            · simp [hba]
          · intro hcontra
            exact ((hmem a).mp hcontra).1 rfl
          · intro b hb
            exact pqueuePeek_first hcmp hidx hord hpeek ((hmem b).mp hb).2

theorem drain_sorted_lines :
    drain victimCallbacks twoLines.size twoLines = [2, 1] ∧
      (drain victimCallbacks twoLines.size twoLines).Nodup := by
  obtain ⟨hidx, hord, -⟩ := heapRun_spec victimCallbacks_lawful victimCallbacks_comparable
    someLines_empty.indexed.1 someLines_empty.indexed.2 (twoLines_run (.nil _))
  exact ⟨by decide, (drain_sorted victimCallbacks_lawful victimCallbacks_comparable hidx
    hord).2.1⟩

end Operations

end NvmeVirt.HeapRefinement
