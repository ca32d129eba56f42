import Mathlib.Data.List.Nodup
import Mathlib.Data.Finset.Card
import Mathlib.Logic.Function.Basic
import Mathlib.Logic.Relation

/-!
Chains through the slots of a table, as coalesced hashing builds them: a search
follows the links from a home slot until it meets a free slot or the end of the
chain. Chains of different home slots may run together.
-/

namespace NvmeVirt.CoalescedChains

variable {live live' : Nat → Bool} {next next' : Nat → Option Nat}

/-- `xs` are the slots a search from `s` goes through. -/
inductive Trail (live : Nat → Bool) (next : Nat → Option Nat) : Nat → List Nat → Prop where
  | free {s : Nat} : live s = false → Trail live next s []
  | last {s : Nat} : live s = true → next s = none → Trail live next s [s]
  | link {s t : Nat} {xs : List Nat} :
      live s = true → next s = some t → Trail live next t xs → Trail live next s (s :: xs)

namespace Trail

variable {s t : Nat} {xs ys : List Nat}

theorem unique (h : Trail live next s xs) (h' : Trail live next s ys) : xs = ys := by
  induction h generalizing ys with
  | free hfree =>
      cases h' with
      | free => rfl
      | last hlive => simp [hfree] at hlive
      | link hlive => simp [hfree] at hlive
  | last hlive hnext =>
      cases h' with
      | free hfree => simp [hlive] at hfree
      | last => rfl
      | link _ hnext' => simp [hnext] at hnext'
  | link hlive hnext _ ih =>
      cases h' with
      | free hfree => simp [hlive] at hfree
      | last _ hnext' => simp [hnext] at hnext'
      | link _ hnext' h' =>
          rw [hnext] at hnext'
          cases hnext'
          rw [ih h']

theorem live_of_mem (h : Trail live next s xs) (ht : t ∈ xs) : live t = true := by
  induction h with
  | free => cases ht
  | last hlive =>
      rw [List.mem_singleton] at ht
      rwa [ht]
  | link hlive _ _ ih =>
      rcases List.mem_cons.1 ht with rfl | ht
      · exact hlive
      · exact ih ht

theorem split (h : Trail live next s xs) (ht : t ∈ xs) :
    ∃ before after, xs = before ++ t :: after ∧ Trail live next t (t :: after) := by
  induction h with
  | free => cases ht
  | last hlive hnext =>
      rw [List.mem_singleton] at ht
      subst ht
      exact ⟨[], [], rfl, .last hlive hnext⟩
  | @link s' t' rest hlive hnext h ih =>
      rcases List.mem_cons.1 ht with rfl | ht
      · exact ⟨[], rest, rfl, .link hlive hnext h⟩
      · obtain ⟨before, after, rfl, hafter⟩ := ih ht
        exact ⟨s' :: before, after, rfl, hafter⟩

theorem nodup (h : Trail live next s xs) : xs.Nodup := by
  induction h with
  | free => exact List.nodup_nil
  | last => exact List.nodup_singleton _
  | @link s' t' rest hlive hnext h ih =>
      refine List.nodup_cons.2 ⟨?_, ih⟩
      intro hmem
      obtain ⟨before, after, hrest, hafter⟩ := h.split hmem
      have hsame := hafter.unique (.link hlive hnext h)
      have hlength := congrArg List.length hsame
      have hlength' := congrArg List.length hrest
      simp only [List.length_append, List.length_cons] at hlength hlength'
      omega

theorem lt_of_mem {n : Nat} (h : Trail live next s xs) (hs : s < n)
    (hlinks : ∀ t u, next t = some u → u < n) (ht : t ∈ xs) : t < n := by
  induction h with
  | free => cases ht
  | last =>
      rw [List.mem_singleton] at ht
      rwa [ht]
  | link _ hnext _ ih =>
      rcases List.mem_cons.1 ht with rfl | ht
      · exact hs
      · exact ih (hlinks _ _ hnext) ht

theorem length_le {n : Nat} (h : Trail live next s xs) (hs : s < n)
    (hlinks : ∀ t u, next t = some u → u < n) : xs.length ≤ n := by
  calc xs.length = xs.toFinset.card := (List.toFinset_card_of_nodup h.nodup).symm
    _ ≤ (Finset.range n).card := by
        refine Finset.card_le_card fun t ht => ?_
        exact Finset.mem_range.2 (h.lt_of_mem hs hlinks (List.mem_toFinset.1 ht))
    _ = n := Finset.card_range n

theorem follow (h : Trail live next s xs) (hs : live s = true) (hnext : next s = some t) :
    ∃ rest, xs = s :: rest ∧ Trail live next t rest := by
  cases h with
  | free hfree => simp [hs] at hfree
  | last _ hnone => simp [hnext] at hnone
  | link _ hlink hrest =>
      rw [hnext] at hlink
      cases hlink
      exact ⟨_, rfl, hrest⟩

/-- Freeing slot `d` cuts every search that comes by there. -/
theorem release {d : Nat} (h : Trail live next s xs) (hfree : live' d = false)
    (hlive : ∀ t, t ≠ d → live' t = live t) (hnext : ∀ t, t ≠ d → next' t = next t) :
    Trail live' next' s (xs.takeWhile (· ≠ d)) := by
  induction h with
  | @free s' hs =>
      refine .free ?_
      by_cases heq : s' = d
      · rw [heq]
        exact hfree
      · rw [hlive s' heq]
        exact hs
  | @last s' hs hend =>
      by_cases heq : s' = d
      · rw [List.takeWhile_cons_of_neg (by simpa using heq)]
        exact .free (heq ▸ hfree)
      · rw [List.takeWhile_cons_of_pos (by simpa using heq), List.takeWhile_nil]
        exact .last ((hlive s' heq).trans hs) ((hnext s' heq).trans hend)
  | @link s' t' rest hs hlink h ih =>
      by_cases heq : s' = d
      · rw [List.takeWhile_cons_of_neg (by simpa using heq)]
        exact .free (heq ▸ hfree)
      · rw [List.takeWhile_cons_of_pos (by simpa using heq)]
        exact .link ((hlive s' heq).trans hs) ((hnext s' heq).trans hlink) ih

end Trail

/-- Where every search ends and free slots have no link, links never lead back: each
one makes the trail shorter. -/
theorem no_cycle (hall : ∀ s, ∃ xs, Trail live next s xs)
    (hfree : ∀ s, live s = false → next s = none) (s : Nat) :
    ¬Relation.TransGen (fun a b => next a = some b) s s := by
  have hlink : ∀ {a b : Nat} {xs ys : List Nat}, next a = some b → Trail live next a xs →
      Trail live next b ys → ys.length < xs.length := by
    intro a b xs ys hnext hxs hys
    have hlive : live a = true := by
      cases ha : live a with
      | true => rfl
      | false => simp [hfree a ha] at hnext
    obtain ⟨rest, rfl, hrest⟩ := hxs.follow hlive hnext
    rw [hys.unique hrest]
    exact Nat.lt_succ_self _
  have hshorter : ∀ {a b : Nat}, Relation.TransGen (fun a b => next a = some b) a b →
      ∀ xs ys, Trail live next a xs → Trail live next b ys → ys.length < xs.length := by
    intro a b hab
    induction hab with
    | single hnext => exact fun xs ys hxs hys => hlink hnext hxs hys
    | @tail b c _ hnext ih =>
        intro xs ys hxs hys
        obtain ⟨zs, hzs⟩ := hall b
        exact Nat.lt_trans (hlink hnext hzs hys) (ih xs zs hxs hzs)
  intro hcycle
  obtain ⟨xs, hxs⟩ := hall s
  exact Nat.lt_irrefl _ (hshorter hcycle xs xs hxs hxs)

/-- Slot `v` is taken and, when `prev` is a slot, linked behind it. -/
structure Taken (live : Nat → Bool) (next : Nat → Option Nat) (live' : Nat → Bool)
    (next' : Nat → Option Nat) (prev : Option Nat) (v : Nat) : Prop where
  free : live v = false
  unlinked : next v = none
  live_eq : live' = Function.update live v true
  next_eq : ∀ t, next' t = if prev = some t then some v else next t
  /-- A link is only set where no search went on. -/
  tail : ∀ u, prev = some u → live u = true ∧ ∀ t, next u = some t → live t = false

namespace Taken

variable {prev : Option Nat} {s v : Nat} {xs : List Nat}

theorem trail_new (h : Taken live next live' next' prev v) : Trail live' next' v [v] := by
  have hne : prev ≠ some v := by
    intro hprev
    have hlive := (h.tail v hprev).1
    rw [h.free] at hlive
    cases hlive
  refine .last ?_ ?_
  · rw [h.live_eq, Function.update_self]
  · rw [h.next_eq, if_neg hne, h.unlinked]

theorem live_of (h : Taken live next live' next' prev v) {t : Nat} (ht : live t = true) :
    live' t = true := by
  have hne : t ≠ v := by
    rintro rfl
    rw [h.free] at ht
    cases ht
  rw [h.live_eq, Function.update_of_ne hne, ht]

theorem trail (h : Taken live next live' next' prev v) (htrail : Trail live next s xs) :
    Trail live' next' s xs ∨ Trail live' next' s (xs ++ [v]) := by
  induction htrail with
  | @free s' hs =>
      by_cases heq : s' = v
      · subst heq
        exact .inr h.trail_new
      · refine .inl (.free ?_)
        rw [h.live_eq, Function.update_of_ne heq, hs]
  | @last s' hs hend =>
      by_cases hprev : prev = some s'
      · refine .inr (.link (h.live_of hs) ?_ h.trail_new)
        rw [h.next_eq, if_pos hprev]
      · refine .inl (.last (h.live_of hs) ?_)
        rw [h.next_eq, if_neg hprev, hend]
  | @link s' t' rest hs hlink htrail ih =>
      by_cases hprev : prev = some s'
      · have hstop : rest = [] := htrail.unique (.free ((h.tail s' hprev).2 t' hlink))
        subst hstop
        refine .inr (.link (h.live_of hs) ?_ h.trail_new)
        rw [h.next_eq, if_pos hprev]
      · have hnext : next' s' = some t' := by
          rw [h.next_eq, if_neg hprev, hlink]
        exact ih.imp (.link (h.live_of hs) hnext) (.link (h.live_of hs) hnext)

theorem mem_trail (h : Taken live next live' next' prev v) {u : Nat} (hprev : prev = some u)
    (htrail : Trail live' next' s xs) (hu : u ∈ xs) : v ∈ xs := by
  obtain ⟨before, after, rfl, hafter⟩ := htrail.split hu
  have hnew : Trail live' next' u (u :: [v]) := by
    refine .link (h.live_of (h.tail u hprev).1) ?_ h.trail_new
    rw [h.next_eq, if_pos hprev]
  rw [hafter.unique hnew]
  simp

end Taken

end NvmeVirt.CoalescedChains
