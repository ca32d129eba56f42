import NvmeVirt.FaultOutcome

namespace NvmeVirt.RunProjection

open NvmeVirt.FaultOutcome

universe u v w

variable {ε : Type u} {α β γ δ : Type v} {ι : Type w}

/-- `x` returns values of `P` only, and `y` is what `π` shows of it. -/
structure Projects (π : α → β) (P : α → Prop) (x : Except ε α) (y : Except ε β) : Prop where
  map_eq : x.map π = y
  value : ∀ a, x = .ok a → P a

variable {π : α → β} {ρ : γ → δ} {P P' : α → Prop} {Q : γ → Prop} {x : Except ε α}
  {y : Except ε β}

theorem Projects.ok {a : α} (h : P a) : Projects π P (.ok a : Except ε α) (.ok (π a)) :=
  ⟨rfl, fun _ ha => Except.ok.inj ha ▸ h⟩

theorem Projects.error (e : ε) : Projects π P (.error e) (.error e) :=
  ⟨rfl, by rintro _ ⟨⟩⟩

theorem Projects.imp (h : Projects π P x y) (hP : ∀ a, P a → P' a) : Projects π P' x y :=
  ⟨h.map_eq, fun a ha => hP a (h.value a ha)⟩

theorem Projects.comp {f : β → δ} (h : Projects π P x y) :
    Projects (fun a => f (π a)) P x (y >>= fun b => .ok (f b)) := by
  obtain ⟨rfl, hvalue⟩ := h
  refine ⟨?_, hvalue⟩
  cases x with
  | error e => rfl
  | ok a => rfl

theorem Projects.bind {f : α → Except ε γ} {g : β → Except ε δ} (h : Projects π P x y)
    (hf : ∀ a, P a → Projects ρ Q (f a) (g (π a))) : Projects ρ Q (x >>= f) (y >>= g) := by
  obtain ⟨rfl, hvalue⟩ := h
  cases x with
  | error e => exact .error e
  | ok a => exact hf a (hvalue a rfl)

theorem Projects.foldlM {f : α → ι → Except ε α} {g : β → ι → Except ε β} {xs : List ι}
    {a : α} (h : P a)
    (hstep : ∀ i ∈ xs, ∀ a, P a → Projects π P (f a i) (g (π a) i)) :
    Projects π P (xs.foldlM f a) (xs.foldlM g (π a)) := by
  induction xs generalizing a with
  | nil => exact .ok h
  | cons i xs ih =>
      rw [List.foldlM_cons, List.foldlM_cons]
      refine (hstep i List.mem_cons_self a h).bind ?_
      intro b hb
      exact ih hb fun j hj => hstep j (List.mem_cons_of_mem _ hj)

end NvmeVirt.RunProjection
