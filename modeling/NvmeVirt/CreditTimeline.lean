import Mathlib.Data.List.GetD
import Mathlib.Data.Nat.ModEq
import Mathlib.Logic.Function.Basic

namespace NvmeVirt.CreditTimeline

section Timeline

/-- The credits granted in each slot once `grants` are given from `slot` on. -/
def book (granted : Nat → Nat) (slot : Nat) (grants : List Nat) : Nat → Nat :=
  fun s => granted s + if slot ≤ s then grants.getD (s - slot) 0 else 0

/-- What a request for `credits` gets when it may use `room` slots from `slot`
on: all that is left in each slot until it has enough. -/
def serve (cap : Nat) (granted : Nat → Nat) : Nat → Nat → Nat → List Nat
  | 0, _, _ => []
  | room + 1, slot, credits =>
      let taken := min credits (cap - granted slot)
      taken :: if credits - taken = 0 then []
        else serve cap granted room (slot + 1) (credits - taken)

variable {cap : Nat} {granted granted' : Nat → Nat} {room slot credits s : Nat}
  {grants : List Nat}

@[simp] theorem book_nil : book granted slot [] = granted := by
  funext s
  simp [book]

theorem book_cons {taken : Nat} :
    book granted slot (taken :: grants) =
      book (Function.update granted slot (granted slot + taken)) (slot + 1) grants := by
  funext s
  by_cases hs : s = slot
  · subst hs
    rw [book, book, Function.update_self, if_pos (Nat.le_refl s), Nat.sub_self,
      List.getD_cons_zero, if_neg (Nat.not_succ_le_self s), Nat.add_zero]
  · rw [book, book, Function.update_of_ne hs]
    by_cases hle : slot ≤ s
    · have hsub : s - slot = s - (slot + 1) + 1 := by omega
      rw [if_pos hle, if_pos (by omega), hsub, List.getD_cons_succ]
    · rw [if_neg hle, if_neg (by omega)]

theorem book_of_le (h : slot + grants.length ≤ s) :
    book granted slot grants s = granted s := by
  have hbeyond : grants.getD (s - slot) 0 = 0 :=
    List.getD_eq_default _ _ (by omega)
  rw [book, if_pos (by omega), hbeyond, Nat.add_zero]

theorem serve_length_le : (serve cap granted room slot credits).length ≤ room := by
  induction room generalizing slot credits with
  | zero => simp [serve]
  | succ room ih =>
      rw [serve]
      split
      · simp
      · simpa using ih

theorem serve_ne_nil (h : 0 < room) : serve cap granted room slot credits ≠ [] := by
  obtain ⟨room, rfl⟩ := Nat.exists_eq_succ_of_ne_zero (Nat.ne_of_gt h)
  simp [serve]

theorem serve_congr (h : ∀ s, slot ≤ s → granted s = granted' s) :
    serve cap granted room slot credits = serve cap granted' room slot credits := by
  induction room generalizing slot credits with
  | zero => rfl
  | succ room ih =>
      rw [serve, serve, h slot (Nat.le_refl slot),
        ih fun s hs => h s (Nat.le_of_succ_le hs)]

theorem book_serve_le (h : ∀ s, granted s ≤ cap) :
    book granted slot (serve cap granted room slot credits) s ≤ cap := by
  induction room generalizing slot credits granted with
  | zero => simpa [serve] using h s
  | succ room ih =>
      rw [serve]
      generalize htaken : min credits (cap - granted slot) = taken
      have hle : granted slot + taken ≤ cap := by
        have := h slot
        omega
      have hupdate : ∀ s, Function.update granted slot (granted slot + taken) s ≤ cap := by
        intro s
        by_cases hs : s = slot
        · subst hs
          simpa using hle
        · rw [Function.update_of_ne hs]
          exact h s
      rw [book_cons]
      split
      · simpa using hupdate s
      · have hcongr : serve cap granted room (slot + 1) (credits - taken) =
            serve cap (Function.update granted slot (granted slot + taken)) room (slot + 1)
              (credits - taken) :=
          serve_congr fun s hs => (Function.update_of_ne (by omega) _ _).symm
        rw [hcongr]
        exact ih hupdate

theorem serve_sum_le : (serve cap granted room slot credits).sum ≤
    cap * (serve cap granted room slot credits).length := by
  induction room generalizing slot credits with
  | zero => exact Nat.le_refl 0
  | succ room ih =>
      rw [serve, List.sum_cons, List.length_cons, Nat.mul_succ, Nat.add_comm]
      have htaken : min credits (cap - granted slot) ≤ cap :=
        (Nat.min_le_right _ _).trans (Nat.sub_le _ _)
      refine Nat.add_le_add ?_ htaken
      split
      · exact Nat.le_refl 0
      · exact ih

theorem serve_length_mono {credits' : Nat} (h : credits ≤ credits') :
    (serve cap granted room slot credits).length ≤
      (serve cap granted room slot credits').length := by
  induction room generalizing slot credits credits' with
  | zero => exact Nat.le_refl 0
  | succ room ih =>
      rw [serve, serve, List.length_cons, List.length_cons]
      refine Nat.succ_le_succ ?_
      split
      · exact Nat.zero_le _
      · rw [if_neg (by omega)]
        exact ih (by omega)

/-- When all credits are granted, the slots behind those that fewer credits take have no
more than all their credits to give. -/
theorem serve_gap {credits' : Nat} (h : credits ≤ credits')
    (hall : (serve cap granted room slot credits').sum = credits') :
    credits' ≤ credits + cap * ((serve cap granted room slot credits').length -
      (serve cap granted room slot credits).length + 1) := by
  induction room generalizing slot credits credits' with
  | zero =>
      rw [← hall]
      exact Nat.zero_le _
  | succ room ih =>
      have hsum : credits' ≤ cap * (serve cap granted (room + 1) slot credits').length :=
        hall.symm.trans_le serve_sum_le
      rw [serve] at hall
      rw [serve, List.length_cons] at hsum
      rw [serve, serve, List.length_cons, List.length_cons, Nat.add_sub_add_right]
      generalize htaken : min credits (cap - granted slot) = taken
      generalize htaken' : min credits' (cap - granted slot) = taken' at hall hsum ⊢
      by_cases hdone : credits - taken = 0
      · -- the first slot has enough for the fewer credits
        rw [if_pos hdone, List.length_nil, Nat.sub_zero]
        exact hsum.trans (Nat.le_add_left _ _)
      · rw [if_neg hdone]
        rw [if_neg (by omega)] at hall ⊢
        rw [List.sum_cons] at hall
        have hgap : credits' - taken' ≤ credits - taken + cap *
            ((serve cap granted room (slot + 1) (credits' - taken')).length -
              (serve cap granted room (slot + 1) (credits - taken)).length + 1) :=
          ih (by omega) (by omega)
        omega

end Timeline

section Window

variable {n head cur d cap : Nat} {cells granted : Nat → Nat}

/-- The ring's cells, read from `head` on, hold what is left in the slots from
`cur` on. -/
def Window (n head cur cap : Nat) (cells granted : Nat → Nat) : Prop :=
  ∀ j, j < n → cells ((head + j) % n) = cap - granted (cur + j)

theorem index_ne {i j : Nat} (hi : i < n) (hj : j < n) (hne : i ≠ j) :
    (head + i) % n ≠ (head + j) % n := by
  intro heq
  have hmod : i % n = j % n := Nat.ModEq.add_left_cancel (Nat.ModEq.refl head) heq
  rw [Nat.mod_eq_of_lt hi, Nat.mod_eq_of_lt hj] at hmod
  exact hne hmod

theorem Window.advance (h : Window n head cur cap cells granted) (cells' : Nat → Nat)
    (hnew : ∀ s, cur + n ≤ s → granted s = 0)
    (hfilled : ∀ j, j < d → cells' ((head + j) % n) = cap)
    (hkept : ∀ j, d ≤ j → j < n → cells' ((head + j) % n) = cells ((head + j) % n)) :
    Window n ((head + d) % n) (cur + d) cap cells' granted := by
  intro j hj
  rw [Nat.mod_add_mod, Nat.add_assoc, Nat.add_assoc]
  by_cases hin : d + j < n
  · rw [hkept _ (Nat.le_add_right d j) hin]
    exact h _ hin
  · obtain ⟨k, hk⟩ := Nat.exists_eq_add_of_le (Nat.le_of_not_lt hin)
    have hindex : (head + (d + j)) % n = (head + k) % n := by
      rw [hk, ← Nat.add_assoc, Nat.add_right_comm, Nat.add_mod_right]
    rw [hindex, hfilled k (by omega), hnew _ (by omega), Nat.sub_zero]

theorem exists_bound (cells : Nat → Nat) : ∃ cap, ∀ i, i < n → cells i ≤ cap := by
  induction n with
  | zero => exact ⟨0, fun i hi => absurd hi (Nat.not_lt_zero i)⟩
  | succ n ih =>
      obtain ⟨cap, hcap⟩ := ih
      refine ⟨max cap (cells n), fun i hi => ?_⟩
      by_cases heq : i = n
      · exact heq ▸ Nat.le_max_right _ _
      · exact Nat.le_trans (hcap i (by omega)) (Nat.le_max_left _ _)

theorem exists_window (hn : 0 < n) (head cur : Nat) (cells : Nat → Nat) :
    ∃ cap granted, Window n head cur cap cells granted := by
  obtain ⟨cap, hcap⟩ := exists_bound (n := n) cells
  refine ⟨cap, fun s => cap - cells ((head + (s - cur)) % n), fun j _ => ?_⟩
  dsimp only
  rw [Nat.add_sub_cancel_left, Nat.sub_sub_self (hcap _ (Nat.mod_lt _ hn))]

theorem Window.jump (h : Window n head cur cap cells granted) {cur' : Nat} (hle : cur ≤ cur')
    (hnew : ∀ s, cur ≤ s → granted s = 0) : Window n head cur' cap cells granted := by
  intro j hj
  rw [h j hj, hnew _ (by omega), hnew _ (by omega)]

theorem Window.take (h : Window n head cur cap cells granted) {j : Nat} (hj : j < n)
    (taken : Nat) :
    Window n head cur cap
      (Function.update cells ((head + j) % n) (cells ((head + j) % n) - taken))
      (Function.update granted (cur + j) (granted (cur + j) + taken)) := by
  intro i hi
  by_cases hij : i = j
  · subst hij
    rw [Function.update_self, Function.update_self, h i hi, Nat.sub_sub]
  · rw [Function.update_of_ne (index_ne hi hj hij), Function.update_of_ne (by omega)]
    exact h i hi

end Window

end NvmeVirt.CreditTimeline
