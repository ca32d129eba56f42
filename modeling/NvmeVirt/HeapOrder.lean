import NvmeVirt.PriorityQueue

namespace NvmeVirt.HeapOrder

open NvmeVirt.PriorityQueue

variable {α β : Type} [DecidableEq α]

/-- `cmppri` is the strict part of a total preorder, and a position is no part of
the priority. -/
structure Comparable (cb : Callbacks β) : Prop where
  asymm : ∀ m n, cb.cmppri m n = true → cb.cmppri n m = false
  trans : ∀ l m n, cb.cmppri l m = false → cb.cmppri m n = false → cb.cmppri l n = false
  getpri_setpos : ∀ b i, cb.getpri (cb.setpos b i) = cb.getpri b
  getpri_setpri : ∀ b n, cb.getpri (cb.setpri b n) = n

variable (cb : Callbacks β)

def key (h : Heap α β) (i : Nat) : Nat := cb.getpri (h.node (h.d i))

/-- The element of slot `j` is not preferred to that of slot `i`. -/
def Settled (h : Heap α β) (i j : Nat) : Prop := cb.cmppri (key cb h i) (key cb h j) = false

def Ordered (h : Heap α β) : Prop :=
  ∀ j, 2 ≤ j → j < h.size → Settled cb h (j / 2) j

/-- The heap with `m` in slot `i`, as the moving loops finally leave it. -/
def filled (h : Heap α β) (i : Nat) (m : α) : Heap α β :=
  { h with d := Function.update h.d i m }

/-- The order while `bubble_up` moves `m` up into slot `i`: it may be preferred to
its parent, below which its children already stand in order. -/
structure Rising (h : Heap α β) (i : Nat) : Prop where
  except : ∀ j, 2 ≤ j → j < h.size → j ≠ i → Settled cb h (j / 2) j
  grand : 2 ≤ i → ∀ j, j < h.size → j / 2 = i → Settled cb h (i / 2) j

/-- The order while `percolate_down` moves `m` down into slot `i`: its children may
be preferred to it, but not to its parent. -/
structure Sinking (h : Heap α β) (i : Nat) : Prop where
  except : ∀ j, 2 ≤ j → j < h.size → j / 2 ≠ i → Settled cb h (j / 2) j
  grand : 2 ≤ i → ∀ j, j < h.size → j / 2 = i → Settled cb h (i / 2) j

variable {cb}

theorem Comparable.irrefl (hcmp : Comparable cb) (n : Nat) : cb.cmppri n n = false := by
  by_contra htrue
  have hn := Bool.not_eq_false _ ▸ htrue
  rw [hcmp.asymm n n hn] at hn
  exact Bool.false_ne_true hn

section Keys

variable {h : Heap α β} {i j : Nat} {m : α}

omit [DecidableEq α] in
theorem key_filled (h : Heap α β) (i j : Nat) (m : α) :
    key cb (filled h i m) j = if j = i then cb.getpri (h.node m) else key cb h j := by
  rcases eq_or_ne j i with rfl | hne
  · simp [key, filled]
  · simp [key, filled, hne]

theorem getpri_place (hcmp : Comparable cb) (h : Heap α β) (i : Nat) (a b : α) :
    cb.getpri ((place cb h i a).node b) = cb.getpri (h.node b) := by
  rcases eq_or_ne b a with rfl | hne
  · simp [place, hcmp.getpri_setpos]
  · simp [place, hne]

theorem key_place (hcmp : Comparable cb) (h : Heap α β) (i j : Nat) (m : α) :
    key cb (place cb h i m) j = key cb (filled h i m) j := by
  rw [key, getpri_place hcmp]
  rfl

theorem key_move (hcmp : Comparable cb) (hji : j ≠ i) (k : Nat) :
    key cb (filled (place cb h i (h.d j)) j m) k =
      if k = j then cb.getpri (h.node m)
      else if k = i then key cb (filled h i m) j
      else key cb (filled h i m) k := by
  rw [key_filled, key_place hcmp, getpri_place hcmp]
  rcases eq_or_ne k j with rfl | hkj
  · rw [if_pos rfl, if_pos rfl]
  · rw [if_neg hkj, if_neg hkj, key_filled, key_filled, key_filled, if_neg hji]
    rcases eq_or_ne k i with rfl | hki
    · rw [if_pos rfl, if_pos rfl]
      rfl
    · rw [if_neg hki, if_neg hki, if_neg hki]

end Keys

section Up

variable {h : Heap α β} {i : Nat} {m : α}

theorem Rising.finish (hcmp : Comparable cb) (hrise : Rising cb (filled h i m) i)
    (hstop : 2 ≤ i → Settled cb (filled h i m) (i / 2) i) :
    Ordered cb (place cb h i m) := by
  intro j hj hjs
  unfold Settled
  rw [key_place hcmp, key_place hcmp]
  rcases eq_or_ne j i with rfl | hne
  · exact hstop hj
  · exact hrise.except j hj hjs hne

theorem Rising.move (hcmp : Comparable cb) (hrise : Rising cb (filled h i m) i) (hi : 2 ≤ i)
    (his : i < h.size)
    (hup : cb.cmppri (key cb (filled h i m) (i / 2)) (cb.getpri (h.node m)) = true) :
    Rising cb (filled (place cb h i (h.d (i / 2))) (i / 2) m) (i / 2) := by
  have hne : i / 2 ≠ i := by omega
  have hkeys := fun k => key_move (m := m) (h := h) hcmp hne k
  have hself : key cb (filled h i m) i = cb.getpri (h.node m) := by
    rw [key_filled, if_pos rfl]
  refine ⟨?_, ?_⟩
  · intro j hj hjs hjp
    unfold Settled
    rw [hkeys, hkeys, if_neg hjp]
    rcases eq_or_ne j i with rfl | hji
    · -- the old parent stands below the moving element now
      rw [if_pos rfl, if_pos rfl]
      exact hcmp.asymm _ _ hup
    · rw [if_neg hji]
      have hedge := hrise.except j hj hjs hji
      rcases eq_or_ne (j / 2) (i / 2) with hsib | hnsib
      · rw [if_pos hsib]
        rw [Settled, hsib] at hedge
        exact hcmp.trans _ _ _ (hcmp.asymm _ _ hup) hedge
      · rw [if_neg hnsib]
        rcases eq_or_ne (j / 2) i with hchild | hnchild
        · rw [if_pos hchild]
          exact hrise.grand hi j hjs hchild
        · rw [if_neg hnchild]
          exact hedge
  · intro hp j hjs hjp
    have hupper := hrise.except (i / 2) hp (by change i / 2 < h.size; omega) hne
    have hgi : i / 2 / 2 ≠ i := by omega
    have hgp : i / 2 / 2 ≠ i / 2 := by omega
    unfold Settled
    rw [hkeys, hkeys, if_neg hgp, if_neg hgi, if_neg (show j ≠ i / 2 by omega)]
    rcases eq_or_ne j i with rfl | hji
    · rw [if_pos rfl]
      exact hupper
    · rw [if_neg hji]
      have hedge := hrise.except j (by omega) hjs hji
      rw [Settled, hjp] at hedge
      exact hcmp.trans _ _ _ hupper hedge

theorem bubbleUpLoop_ordered (hcmp : Comparable cb) (m : α) (fuel : Nat) (h : Heap α β) (i : Nat)
    (hi : 1 ≤ i) (his : i < h.size) (hfuel : i ≤ fuel + 1) (hrise : Rising cb (filled h i m) i) :
    Ordered cb (bubbleUpLoop cb m (cb.getpri (h.node m)) fuel h i) := by
  induction fuel generalizing h i with
  | zero =>
      exact hrise.finish hcmp fun htwo => by omega
  | succ fuel ih =>
      rw [bubbleUpLoop]
      have hparent : 2 ≤ i → cb.getpri (h.node (h.d (i / 2))) = key cb (filled h i m) (i / 2) := by
        intro htwo
        rw [key_filled, if_neg (by omega)]
        rfl
      split
      · rename_i hcond
        simp only [Bool.and_eq_true, decide_eq_true_eq] at hcond
        have hmoved := hrise.move hcmp hcond.1 his (hparent hcond.1 ▸ hcond.2)
        have hnext := ih (place cb h i (h.d (i / 2))) (i / 2) (by omega)
          (by change i / 2 < h.size; omega) (by omega) hmoved
        rwa [getpri_place hcmp] at hnext
      · rename_i hcond
        simp only [Bool.and_eq_true, decide_eq_true_eq, not_and, Bool.not_eq_true] at hcond
        refine hrise.finish hcmp fun htwo => ?_
        have hstop := hcond htwo
        rw [hparent htwo] at hstop
        rw [Settled, key_filled (j := i), if_pos rfl]
        exact hstop

end Up

section Down

variable {h : Heap α β} {i : Nat} {m : α}

theorem Sinking.finish (hcmp : Comparable cb) (hsink : Sinking cb (filled h i m) i)
    (hstop : ∀ j, j < h.size → j / 2 = i → Settled cb (filled h i m) i j) :
    Ordered cb (place cb h i m) := by
  intro j hj hjs
  unfold Settled
  rw [key_place hcmp, key_place hcmp]
  rcases eq_or_ne (j / 2) i with hchild | hne
  · rw [hchild]
    exact hstop j hjs hchild
  · exact hsink.except j hj hjs hne

omit [DecidableEq α] in
/-- `maxchild` is 0 at a leaf, and otherwise a child to which the other one is not
preferred. -/
theorem maxchild_spec (hcmp : Comparable cb) (h : Heap α β) (i : Nat) :
    maxchild cb h i = 0 ∧ h.size ≤ 2 * i ∨
      maxchild cb h i / 2 = i ∧ maxchild cb h i < h.size ∧
        ∀ j, j < h.size → j / 2 = i → Settled cb h (maxchild cb h i) j := by
  unfold maxchild
  dsimp only
  split
  · rename_i hleaf
    exact Or.inl ⟨rfl, hleaf⟩
  · rename_i hleft
    right
    split
    · rename_i hcond
      simp only [Bool.and_eq_true, decide_eq_true_eq] at hcond
      refine ⟨by omega, hcond.1, ?_⟩
      intro j hj hchild
      have hcases : j = 2 * i ∨ j = 2 * i + 1 := by omega
      rcases hcases with rfl | rfl
      · exact hcmp.asymm _ _ hcond.2
      · exact hcmp.irrefl _
    · rename_i hcond
      simp only [Bool.and_eq_true, decide_eq_true_eq, not_and, Bool.not_eq_true] at hcond
      refine ⟨by omega, by omega, ?_⟩
      intro j hj hchild
      have hcases : j = 2 * i ∨ j = 2 * i + 1 := by omega
      rcases hcases with rfl | rfl
      · exact hcmp.irrefl _
      · exact hcond hj

theorem Sinking.move (hcmp : Comparable cb) {c : Nat} (hsink : Sinking cb (filled h i m) i)
    (hi : 1 ≤ i) (hc : c / 2 = i) (hcs : c < h.size)
    (hdown : cb.cmppri (cb.getpri (h.node m)) (key cb (filled h i m) c) = true)
    (hbest : ∀ j, j < h.size → j / 2 = i → Settled cb (filled h i m) c j) :
    Sinking cb (filled (place cb h i (h.d c)) c m) c := by
  have hne : c ≠ i := by omega
  have hkeys := fun k => key_move (m := m) (h := h) hcmp hne k
  refine ⟨?_, ?_⟩
  · intro j hj hjs hjc
    unfold Settled
    rw [hkeys, hkeys, if_neg hjc]
    rcases eq_or_ne j c with rfl | hjne
    · -- the moving element stands below the child that passed it
      rw [if_pos rfl, if_pos hc]
      exact hcmp.asymm _ _ hdown
    · rw [if_neg hjne]
      rcases eq_or_ne (j / 2) i with hchild | hnchild
      · rw [if_pos hchild, if_neg (show j ≠ i by omega)]
        exact hbest j hjs hchild
      · rw [if_neg hnchild]
        have hedge := hsink.except j hj hjs hnchild
        rcases eq_or_ne j i with rfl | hji
        · rw [if_pos rfl]
          exact hsink.grand hj c hcs hc
        · rw [if_neg hji]
          exact hedge
  · intro _ j hjs hjc
    have hedge := hsink.except j (by omega) hjs (by omega)
    unfold Settled
    rw [hkeys, hkeys, hc, if_neg (Ne.symm hne), if_pos rfl, if_neg (show j ≠ c by omega),
      if_neg (show j ≠ i by omega)]
    rw [Settled, hjc] at hedge
    exact hedge

theorem percolateDownLoop_ordered (hcmp : Comparable cb) (m : α) (fuel : Nat) (h : Heap α β)
    (i : Nat) (hi : 1 ≤ i) (his : i < h.size) (hfuel : h.size ≤ i + fuel)
    (hsink : Sinking cb (filled h i m) i) :
    Ordered cb (percolateDownLoop cb m (cb.getpri (h.node m)) fuel h i) := by
  induction fuel generalizing h i with
  | zero => omega
  | succ fuel ih =>
      rw [percolateDownLoop]
      have hself : key cb (filled h i m) i = cb.getpri (h.node m) := by
        rw [key_filled, if_pos rfl]
      have hkeys : ∀ j, j ≠ i → key cb (filled h i m) j = key cb h j := by
        intro j hj
        rw [key_filled, if_neg hj]
      rcases maxchild_spec hcmp h i with ⟨hzero, hleaf⟩ | ⟨hc, hcs, hbest⟩
      · rw [hzero]
        refine hsink.finish hcmp ?_
        intro j hj hchild
        omega
      · have hbest' : ∀ j, j < h.size → j / 2 = i →
            Settled cb (filled h i m) (maxchild cb h i) j := by
          intro j hj hchild
          unfold Settled
          rw [hkeys _ (by omega), hkeys _ (by omega)]
          exact hbest j hj hchild
        have hchildKey : cb.getpri (h.node (h.d (maxchild cb h i))) =
            key cb (filled h i m) (maxchild cb h i) := by
          rw [hkeys _ (by omega)]
          rfl
        split
        · rename_i hcond
          simp only [Bool.and_eq_true, decide_eq_true_eq] at hcond
          have hmoved := hsink.move hcmp hi hc hcs (hchildKey ▸ hcond.2) hbest'
          have hnext := ih (place cb h i (h.d (maxchild cb h i))) (maxchild cb h i) (by omega)
            hcs (by change h.size ≤ _; omega) hmoved
          rwa [getpri_place hcmp] at hnext
        · rename_i hcond
          simp only [Bool.and_eq_true, decide_eq_true_eq, not_and, Bool.not_eq_true] at hcond
          refine hsink.finish hcmp ?_
          intro j hj hchild
          have hstop := hcond (by omega)
          rw [hchildKey] at hstop
          rw [Settled, hself]
          exact hcmp.trans _ _ _ hstop (hbest' j hj hchild)

end Down

section Operations

variable {h : Heap α β} {a : α}

omit [DecidableEq α] in
theorem Ordered.of_key {h' : Heap α β} (hord : Ordered cb h) (hsize : h'.size = h.size)
    (hkey : ∀ j, 1 ≤ j → j < h.size → key cb h' j = key cb h j) : Ordered cb h' := by
  intro j hj hjs
  rw [hsize] at hjs
  unfold Settled
  rw [hkey _ (by omega) (by omega), hkey _ (by omega) hjs]
  exact hord j hj hjs

theorem Ordered.clearPos (hcmp : Comparable cb) (hord : Ordered cb h) (a : α) :
    Ordered cb (clearPos cb h a) := by
  refine hord.of_key rfl fun j _ _ => ?_
  change cb.getpri (Function.update h.node a (cb.setpos (h.node a) 0) (h.d j)) = _
  rcases eq_or_ne (h.d j) a with hda | hne
  · rw [hda, Function.update_self, hcmp.getpri_setpos]
    rw [key, hda]
  · rw [Function.update_of_ne hne]
    rfl

theorem pqueueInsert_ordered (hcmp : Comparable cb) (hpos : 1 ≤ h.size) (hord : Ordered cb h)
    (a : α) : Ordered cb (pqueueInsert cb h a) := by
  have hfill : filled (filled { h with size := h.size + 1 } h.size a) h.size a =
      filled { h with size := h.size + 1 } h.size a := by
    simp only [filled, Function.update_idem]
  have hlast : Function.update h.d h.size a h.size = a := Function.update_self ..
  have hloop := bubbleUpLoop_ordered hcmp a h.size
    (filled { h with size := h.size + 1 } h.size a) h.size hpos (Nat.lt_succ_self _)
    (Nat.le_succ _) (by
      rw [hfill]
      refine ⟨?_, ?_⟩
      · intro j hj hjs hne
        have hjs' : j < h.size := by
          change j < h.size + 1 at hjs
          omega
        unfold Settled
        rw [key_filled, key_filled, if_neg (by omega), if_neg hne]
        exact hord j hj hjs'
      · intro _ j hjs hchild
        change j < h.size + 1 at hjs
        omega)
  simpa only [pqueueInsert, bubbleUp, filled, hlast] using hloop

theorem pqueueChangePriority_ordered (hcmp : Comparable cb) (law : cb.Lawful)
    (hidx : Indexed cb h) (hord : Ordered cb h) (newPri : Nat)
    (ha : cb.getpos (h.node a) ≠ 0) : Ordered cb (pqueueChangePriority cb h newPri a) := by
  obtain ⟨hlt, hd⟩ := hidx.queued a ha
  obtain ⟨posn, hposn⟩ : ∃ posn, posn = cb.getpos (h.node a) := ⟨_, rfl⟩
  rw [← hposn] at hlt hd ha
  have hgetpos : cb.getpos (Function.update h.node a (cb.setpri (h.node a) newPri) a) = posn := by
    rw [Function.update_self, law.getpos_setpri, hposn]
  obtain ⟨h₁, hh₁⟩ : ∃ h₁ : Heap α β, h₁ =
      { h with node := Function.update h.node a (cb.setpri (h.node a) newPri) } := ⟨_, rfl⟩
  have hsize : h₁.size = h.size := by rw [hh₁]
  have hself : key cb h₁ posn = newPri := by
    rw [hh₁, key]
    dsimp only
    rw [hd, Function.update_self, hcmp.getpri_setpri]
  have hother : ∀ j, 1 ≤ j → j < h.size → j ≠ posn → key cb h₁ j = key cb h j := by
    intro j hj hjs hne
    have hdj : h.d j ≠ a := by
      intro heq
      have hslot := hidx.slot j hj hjs
      rw [heq, ← hposn] at hslot
      exact hne hslot.symm
    rw [hh₁, key]
    dsimp only
    rw [Function.update_of_ne hdj]
    rfl
  have hfill : filled h₁ posn (h₁.d posn) = h₁ := by
    simp only [filled, Function.update_eq_self]
  have hold : key cb h posn = cb.getpri (h.node a) := by rw [key, hd]
  -- whatever the new priority is, the children of `a` stay below its parent
  have hgrand : 2 ≤ posn → ∀ j, j < h₁.size → j / 2 = posn → Settled cb h₁ (posn / 2) j := by
    intro htwo j hjs hchild
    rw [hsize] at hjs
    have hupper := hord posn htwo hlt
    have hlower := hord j (by omega) hjs
    rw [Settled, hchild] at hlower
    rw [Settled, hother _ (by omega) (by omega) (by omega), hother _ (by omega) hjs (by omega)]
    exact hcmp.trans _ _ _ hupper hlower
  have hfar : ∀ j, 2 ≤ j → j < h₁.size → j ≠ posn → j / 2 ≠ posn → Settled cb h₁ (j / 2) j := by
    intro j hj hjs hne hnchild
    rw [hsize] at hjs
    rw [Settled, hother _ (by omega) (by omega) hnchild, hother _ (by omega) hjs hne]
    exact hord j hj hjs
  unfold pqueueChangePriority
  simp only [hgetpos, ← hh₁]
  split
  · rename_i hraise
    refine bubbleUpLoop_ordered hcmp _ _ _ _ (by omega) (by omega) (by omega) ?_
    rw [hfill]
    refine ⟨?_, hgrand⟩
    intro j hj hjs hne
    rcases eq_or_ne (j / 2) posn with hchild | hnchild
    · rw [hsize] at hjs
      have hedge := hord j hj hjs
      rw [Settled, hchild, hold] at hedge
      rw [Settled, hchild, hself, hother _ (by omega) hjs hne]
      exact hcmp.trans _ _ _ (hcmp.asymm _ _ hraise) hedge
    · exact hfar j hj hjs hne hnchild
  · rename_i hlower
    refine percolateDownLoop_ordered hcmp _ _ _ _ (by omega) (by omega) (by omega) ?_
    rw [hfill]
    refine ⟨?_, hgrand⟩
    intro j hj hjs hnchild
    rcases eq_or_ne j posn with rfl | hne
    · have hedge := hord j hj hlt
      rw [Settled, hold] at hedge
      rw [Settled, hself, hother _ (by omega) (by omega) hnchild]
      exact hcmp.trans _ _ _ hedge (Bool.not_eq_true _ ▸ hlower)
    · exact hfar j hj hjs hne hnchild

theorem percolateDownLoop_size (m : α) (movingPri fuel : Nat) (h : Heap α β) (i : Nat) :
    (percolateDownLoop cb m movingPri fuel h i).size = h.size := by
  induction fuel generalizing h i with
  | zero => rfl
  | succ fuel ih =>
      rw [percolateDownLoop]
      split
      · exact ih _ _
      · rfl

theorem pqueuePop_ordered (hcmp : Comparable cb) (hord : Ordered cb h) :
    Ordered cb (pqueuePop cb h) := by
  unfold pqueuePop
  split
  · exact hord
  · rcases Nat.lt_or_ge 2 h.size with hmany | hfew
    · refine percolateDownLoop_ordered hcmp _ _ _ _ (Nat.le_refl 1)
        (by change 1 < h.size - 1; omega)
        (Nat.le_add_left _ _) ?_
      have hfirst : Function.update h.d 1 (h.d (h.size - 1)) 1 = h.d (h.size - 1) :=
        Function.update_self ..
      simp only [hfirst]
      have hfill : filled { h with
          size := h.size - 1, d := Function.update h.d 1 (h.d (h.size - 1)) } 1
            (h.d (h.size - 1)) =
          filled { h with size := h.size - 1 } 1 (h.d (h.size - 1)) := by
        simp only [filled, Function.update_idem]
      rw [hfill]
      refine ⟨?_, fun htwo => by omega⟩
      intro j hj hjs hnchild
      change j < h.size - 1 at hjs
      unfold Settled
      rw [key_filled, key_filled, if_neg hnchild, if_neg (by omega)]
      exact hord j hj (by omega)
    · intro j hj hjs
      rw [percolateDown, percolateDownLoop_size] at hjs
      change j < h.size - 1 at hjs
      omega

omit [DecidableEq α] in
/-- No queued element is preferred to the one that `pqueue_peek` shows. -/
theorem Ordered.settled_first (hcmp : Comparable cb) (hord : Ordered cb h) {j : Nat}
    (hj : 1 ≤ j) (hjs : j < h.size) : cb.cmppri (key cb h 1) (key cb h j) = false := by
  induction j using Nat.strongRecOn with
  | _ j ih =>
      rcases Nat.lt_or_ge 1 j with htwo | hone
      · exact hcmp.trans _ _ _ (ih (j / 2) (by omega) (by omega) (by omega))
          (hord j htwo hjs)
      · obtain rfl : j = 1 := by omega
        exact hcmp.irrefl _

omit [DecidableEq α] in
theorem pqueuePeek_first (hcmp : Comparable cb) (hidx : Indexed cb h) (hord : Ordered cb h)
    (hpeek : pqueuePeek h = some a) {b : α} (hb : cb.getpos (h.node b) ≠ 0) :
    cb.cmppri (cb.getpri (h.node a)) (cb.getpri (h.node b)) = false := by
  obtain ⟨hlt, hd⟩ := hidx.queued b hb
  have hfirst := hord.settled_first hcmp (Nat.pos_of_ne_zero hb) hlt
  have hne : h.size ≠ 1 := by omega
  rw [pqueuePeek, if_neg hne] at hpeek
  have ha : h.d 1 = a := Option.some.inj hpeek
  rwa [key, key, ha, hd] at hfirst

end Operations

end NvmeVirt.HeapOrder
