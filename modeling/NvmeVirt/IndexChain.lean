import Mathlib.Logic.Function.Basic
import Mathlib.Data.List.Basic

/-!
Lists threaded through a table by index links. `Segment next a xs b` says that
following `next` from `a` visits exactly `xs` and then arrives at `b`;
`Back prev p xs` says that the back links of `xs` undo those steps, the first
element pointing back to `p`.
-/

namespace NvmeVirt.IndexChain

universe u

variable {α : Type u} {next next' prev prev' : α → α} {a b c p : α} {xs ys : List α}

/-- The last element of `xs`, or `p` when there is none. -/
def final (p : α) : List α → α
  | [] => p
  | x :: xs => final x xs

@[simp] theorem final_nil : final p [] = p := rfl

@[simp] theorem final_cons (x : α) : final p (x :: xs) = final x xs := rfl

@[simp] theorem final_append : final p (xs ++ ys) = final (final p xs) ys := by
  induction xs generalizing p with
  | nil => rfl
  | cons x xs ih => exact ih

theorem final_mem (h : xs ≠ []) : final p xs ∈ xs := by
  induction xs generalizing p with
  | nil => exact absurd rfl h
  | cons x xs ih =>
      cases xs with
      | nil => simp
      | cons y ys => exact List.mem_cons_of_mem x (ih (p := x) (by simp))

theorem final_congr (q : α) (h : xs ≠ []) : final p xs = final q xs := by
  cases xs with
  | nil => exact absurd rfl h
  | cons x xs => rfl

def Segment (next : α → α) (a : α) : List α → α → Prop
  | [], b => a = b
  | x :: xs, b => a = x ∧ Segment next (next x) xs b

def Back (prev : α → α) (p : α) : List α → Prop
  | [] => True
  | x :: xs => prev x = p ∧ Back prev x xs

@[simp] theorem segment_nil : Segment next a [] b ↔ a = b := Iff.rfl

@[simp] theorem segment_cons (x : α) :
    Segment next a (x :: xs) b ↔ a = x ∧ Segment next (next x) xs b := Iff.rfl

@[simp] theorem back_nil : Back prev p [] := trivial

@[simp] theorem back_cons (x : α) :
    Back prev p (x :: xs) ↔ prev x = p ∧ Back prev x xs := Iff.rfl

theorem segment_append :
    Segment next a (xs ++ ys) b ↔ ∃ c, Segment next a xs c ∧ Segment next c ys b := by
  induction xs generalizing a with
  | nil => simp
  | cons x xs ih => simp [ih, and_assoc]

theorem back_append :
    Back prev p (xs ++ ys) ↔ Back prev p xs ∧ Back prev (final p xs) ys := by
  induction xs generalizing p with
  | nil => simp
  | cons x xs ih => simp [ih, and_assoc]

theorem Segment.congr (h : Segment next a xs b) (heq : ∀ x ∈ xs, next' x = next x) :
    Segment next' a xs b := by
  induction xs generalizing a with
  | nil => exact h
  | cons x xs ih =>
      refine ⟨h.1, ?_⟩
      rw [heq x (by simp)]
      exact ih h.2 fun y hy => heq y (by simp [hy])

theorem Back.congr (h : Back prev p xs) (heq : ∀ x ∈ xs, prev' x = prev x) :
    Back prev' p xs := by
  induction xs generalizing p with
  | nil => trivial
  | cons x xs ih =>
      refine ⟨?_, ih h.2 fun y hy => heq y (by simp [hy])⟩
      rw [heq x (by simp)]
      exact h.1

theorem Segment.redirect (h : Segment next a xs b) (hne : xs ≠ []) (hnodup : xs.Nodup)
    (hlast : next' (final p xs) = c)
    (heq : ∀ x ∈ xs, x ≠ final p xs → next' x = next x) :
    Segment next' a xs c := by
  induction xs generalizing a p with
  | nil => exact absurd rfl hne
  | cons x xs ih =>
      rw [List.nodup_cons] at hnodup
      refine ⟨h.1, ?_⟩
      cases xs with
      | nil => exact hlast
      | cons y ys =>
          have hx : x ≠ final x (y :: ys) := by
            intro hx
            exact hnodup.1 (hx ▸ final_mem (by simp))
          rw [heq x (by simp) hx]
          exact ih (p := x) h.2 (by simp) hnodup.2 hlast fun z hz => heq z (by simp [hz])

theorem Segment.next_final (h : Segment next a xs b) (hne : xs ≠ []) :
    next (final p xs) = b := by
  induction xs generalizing a p with
  | nil => exact absurd rfl hne
  | cons x xs ih =>
      cases xs with
      | nil => exact h.2
      | cons y ys => exact ih (p := x) h.2 (by simp)

/-- Linking a new element `e` behind the non-empty part `xs` of a chain. -/
theorem Segment.insert {e : α} (h : Segment next a (xs ++ ys) b) (hne : xs ≠ [])
    (hnodup : (xs ++ ys).Nodup) (hlast : next' (final p xs) = e)
    (he : next' e = next (final p xs))
    (heq : ∀ x ∈ xs ++ ys, x ≠ final p xs → next' x = next x) :
    Segment next' a (xs ++ e :: ys) b := by
  obtain ⟨c, hxs, hys⟩ := segment_append.1 h
  have hlastys : final p xs ∉ ys := by
    intro hmem
    exact (List.nodup_append.1 hnodup).2.2 _ (final_mem hne) _ hmem rfl
  refine segment_append.2 ⟨e, ?_, rfl, ?_⟩
  · exact hxs.redirect hne (List.nodup_append.1 hnodup).1 hlast fun x hx =>
      heq x (by simp [hx])
  · rw [he, hxs.next_final hne]
    refine hys.congr fun y hy => heq y (by simp [hy]) ?_
    rintro rfl
    exact hlastys hy

theorem Back.insert {e : α} (h : Back prev p (xs ++ ys)) (he : prev' e = final p xs)
    (hfront : ∀ x ∈ xs, prev' x = prev x) (hhead : ∀ y ∈ ys.head?, prev' y = e)
    (htail : ∀ y ∈ ys.tail, prev' y = prev y) : Back prev' p (xs ++ e :: ys) := by
  obtain ⟨hxs, hys⟩ := back_append.1 h
  refine back_append.2 ⟨hxs.congr hfront, he, ?_⟩
  cases ys with
  | nil => trivial
  | cons y ys => exact ⟨hhead y (by simp), hys.2.congr htail⟩

theorem Back.prev_next (hback : Back prev p xs) (h : Segment next a xs b) {x : α}
    (hx : x ∈ xs) (hne : next x ≠ b) : prev (next x) = x := by
  induction xs generalizing a p with
  | nil => simp at hx
  | cons y ys ih =>
      rcases List.mem_cons.1 hx with rfl | hx
      · cases ys with
        | nil => exact absurd h.2 hne
        | cons z zs =>
            rw [h.2.1]
            exact hback.2.1
      · exact ih hback.2 h.2 hx

theorem Back.next_prev (hback : Back prev p xs) (h : Segment next a xs b) {x : α}
    (hx : x ∈ xs) (hne : prev x ≠ p) : next (prev x) = x := by
  obtain ⟨front, rest, rfl⟩ := List.append_of_mem hx
  obtain ⟨c, hfront, hc, -⟩ := segment_append.1 h
  have hprev : prev x = final p front := (back_append.1 hback).2.1
  have hnonempty : front ≠ [] := by
    rintro rfl
    exact hne hprev
  rw [hprev, hfront.next_final hnonempty]
  exact hc

theorem segment_range {next : Nat → Nat} {n : Nat} (h : ∀ i < n, next i = i + 1) :
    Segment next 0 (List.range n) n := by
  induction n with
  | zero => rfl
  | succ n ih =>
      rw [List.range_succ]
      exact segment_append.2 ⟨n, ih fun i hi => h i (by omega), rfl, h n (by omega)⟩

section Follow

variable [DecidableEq α]

/-- The indices met from `a` on, until `stop` or the bound. -/
def follow (next : α → α) (stop : α) : Nat → α → List α
  | 0, _ => []
  | n + 1, a => if a = stop then [] else a :: follow next stop n (next a)

theorem follow_eq {n : Nat} (h : Segment next a xs b) (hb : b ∉ xs)
    (hn : xs.length ≤ n) : follow next b n a = xs := by
  induction xs generalizing a n with
  | nil =>
      cases n with
      | zero => rfl
      | succ n =>
          rw [segment_nil] at h
          rw [follow, if_pos h]
  | cons x xs ih =>
      cases n with
      | zero => simp at hn
      | succ n =>
          obtain ⟨rfl, hrest⟩ := h
          rw [List.mem_cons, not_or] at hb
          rw [follow, if_neg (Ne.symm hb.1), ih hrest hb.2 (by simpa using hn)]

end Follow

end NvmeVirt.IndexChain
