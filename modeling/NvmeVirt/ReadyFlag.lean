import Mathlib.Logic.Basic

namespace NvmeVirt.ReadyFlag

inductive Stage where
  | idle
  | testing
  | clearing
  | signalling
  | unlocking
deriving DecidableEq, Repr

inductive Note where
  | raised
  | signalled
deriving DecidableEq, Repr

structure Flag where
  ready : Bool
  stage : Stage
  history : List Note

inductive Move : Flag → Flag → Prop where
  | raise (f : Flag) : Move f { f with ready := true, history := f.history ++ [.raised] }
  | lock (f : Flag) (h : f.stage = .idle) : Move f { f with stage := .testing }
  | test (f : Flag) (h : f.stage = .testing) :
      Move f { f with stage := if f.ready then .clearing else .unlocking }
  | clear (f : Flag) (h : f.stage = .clearing) :
      Move f { f with ready := false, stage := .signalling }
  | signal (f : Flag) (h : f.stage = .signalling) :
      Move f { f with stage := .unlocking, history := f.history ++ [.signalled] }
  | unlock (f : Flag) (h : f.stage = .unlocking) : Move f { f with stage := .idle }

theorem Move.of_idle {f f' : Flag} (hmove : Move f f') (hstage : f.stage = .idle) :
    f'.stage = .idle ∧ f'.ready = true ∧ f'.history = f.history ++ [.raised] ∨
      f'.stage = .testing ∧ f'.ready = f.ready ∧ f'.history = f.history := by
  cases hmove with
  | raise => exact Or.inl ⟨hstage, rfl, rfl⟩
  | lock => exact Or.inr ⟨rfl, rfl, rfl⟩
  | test hcontra | clear hcontra | signal hcontra | unlock hcontra =>
      rw [hstage] at hcontra
      cases hcontra

def unheard (history : List Note) : Nat :=
  history.foldl (fun n note =>
    match note with
    | .raised => n + 1
    | .signalled => 0) 0

@[simp] theorem unheard_raised (history : List Note) :
    unheard (history ++ [.raised]) = unheard history + 1 := by
  simp [unheard]

@[simp] theorem unheard_signalled (history : List Note) :
    unheard (history ++ [.signalled]) = 0 := by
  simp [unheard]

/-- A raise is heard, or the flag still says so, or a signal for it is on its way. No
signal is spent that was not raised for. -/
structure Sound (f : Flag) : Prop where
  kept : 0 < unheard f.history →
    f.ready = true ∨ f.stage = .clearing ∨ f.stage = .signalling
  seen : f.stage = .clearing → f.ready = true
  spent : f.history.count .signalled +
    ((if f.stage = .signalling then 1 else 0) + f.ready.toNat) ≤ f.history.count .raised

theorem Sound.of_fresh {f : Flag} (hready : f.ready = false) (hstage : f.stage = .idle)
    (hhistory : f.history = []) : Sound f := by
  refine ⟨?_, ?_, ?_⟩
  · intro h
    simp [hhistory, unheard] at h
  · intro h
    rw [hstage] at h
    cases h
  · simp [hhistory, hready, hstage]

theorem Sound.move {f f' : Flag} (h : Sound f) (hmove : Move f f') : Sound f' := by
  have hspent := h.spent
  cases hmove with
  | raise =>
      refine ⟨fun _ => Or.inl rfl, fun _ => rfl, ?_⟩
      have hready := Bool.toNat_le f.ready
      simp only [List.count_append, List.count_singleton, Bool.toNat_true]
      simp only [beq_iff_eq, reduceCtorEq, if_false, if_true]
      omega
  | lock hstage =>
      refine ⟨?_, (by intro hcontra; cases hcontra), ?_⟩
      · intro hpos
        rcases h.kept hpos with hready | hcontra | hcontra
        · exact Or.inl hready
        · rw [hstage] at hcontra
          cases hcontra
        · rw [hstage] at hcontra
          cases hcontra
      · rw [hstage] at hspent
        exact hspent
  | test hstage =>
      rw [hstage] at hspent
      refine ⟨?_, ?_, ?_⟩
      · intro hpos
        rcases h.kept hpos with hready | hcontra | hcontra
        · exact Or.inl hready
        · rw [hstage] at hcontra
          cases hcontra
        · rw [hstage] at hcontra
          cases hcontra
      · intro hclearing
        cases hready : f.ready with
        | true => rfl
        | false => simp [hready] at hclearing
      · cases hready : f.ready with
        | true => simpa [hready] using hspent
        | false => simpa [hready] using hspent
  | clear hstage =>
      refine ⟨fun _ => Or.inr (Or.inr rfl), (by intro hcontra; cases hcontra), ?_⟩
      rw [hstage, h.seen hstage] at hspent
      simpa using hspent
  | signal hstage =>
      refine ⟨?_, (by intro hcontra; cases hcontra), ?_⟩
      · intro hpos
        simp at hpos
      · rw [hstage] at hspent
        simp only [List.count_append, List.count_singleton]
        simp only [beq_iff_eq, reduceCtorEq, if_false, if_true] at hspent ⊢
        omega
  | unlock hstage =>
      refine ⟨?_, (by intro hcontra; cases hcontra), ?_⟩
      · intro hpos
        rcases h.kept hpos with hready | hcontra | hcontra
        · exact Or.inl hready
        · rw [hstage] at hcontra
          cases hcontra
        · rw [hstage] at hcontra
          cases hcontra
      · rw [hstage] at hspent
        exact hspent

/-- The raises in `before` have been signalled since, or will be before the lock is
given up. -/
def Answered (before : List Note) (f : Flag) : Prop :=
  ∃ since, f.history = before ++ since ∧
    (.signalled ∈ since ∨ f.stage = .testing ∧ f.ready = true ∨ f.stage = .clearing ∨
      f.stage = .signalling)

theorem Answered.move {before : List Note} {f f' : Flag} (h : Answered before f)
    (hmove : Move f f') : Answered before f' := by
  obtain ⟨since, hhistory, hpending⟩ := h
  cases hmove with
  | raise =>
      refine ⟨since ++ [.raised], by simp [hhistory], ?_⟩
      rcases hpending with hdone | ⟨hstage, -⟩ | hstage | hstage
      · exact Or.inl (List.mem_append_left _ hdone)
      · exact Or.inr (Or.inl ⟨hstage, rfl⟩)
      · exact Or.inr (Or.inr (Or.inl hstage))
      · exact Or.inr (Or.inr (Or.inr hstage))
  | lock hidle =>
      refine ⟨since, hhistory, ?_⟩
      rcases hpending with hdone | ⟨hstage, -⟩ | hstage | hstage
      · exact Or.inl hdone
      all_goals
        rw [hidle] at hstage
        cases hstage
  | test htesting =>
      refine ⟨since, hhistory, ?_⟩
      rcases hpending with hdone | ⟨-, hready⟩ | hstage | hstage
      · exact Or.inl hdone
      · exact Or.inr (Or.inr (Or.inl (if_pos hready)))
      all_goals
        rw [htesting] at hstage
        cases hstage
  | clear hclearing => exact ⟨since, hhistory, Or.inr (Or.inr (Or.inr rfl))⟩
  | signal hsignalling =>
      refine ⟨since ++ [.signalled], by simp [hhistory], Or.inl ?_⟩
      exact List.mem_append_right _ List.mem_cons_self
  | unlock hunlocking =>
      refine ⟨since, hhistory, ?_⟩
      rcases hpending with hdone | ⟨hstage, -⟩ | hstage | hstage
      · exact Or.inl hdone
      all_goals
        rw [hunlocking] at hstage
        cases hstage

end NvmeVirt.ReadyFlag
