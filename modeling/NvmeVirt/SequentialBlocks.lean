import Mathlib.Data.List.Induction
import Mathlib.Logic.Function.Basic

namespace NvmeVirt.SequentialBlocks

inductive BlockOp (β : Type) where
  | read (b : β) (slot : Nat)
  | program (b : β) (slot : Nat)
  | erase (b : β)
deriving DecidableEq, Repr

/-- How many slots of every block are filled, and how often it has been emptied. -/
structure Blocks (β : Type) where
  level : β → Nat
  wear : β → Nat

variable {β : Type} [DecidableEq β]

def blank : Blocks β where
  level _ := 0
  wear _ := 0

/-- Only filled slots can be read, only the next slot of a block can be filled and
only a full block can be emptied. -/
def obey (capacity : Nat) (blocks : Blocks β) : BlockOp β → Option (Blocks β)
  | .read b slot => if slot < blocks.level b then some blocks else none
  | .program b slot =>
      if slot = blocks.level b ∧ slot < capacity then
        some { blocks with level := Function.update blocks.level b (slot + 1) }
      else none
  | .erase b =>
      if blocks.level b = capacity then
        some
          { level := Function.update blocks.level b 0
            wear := Function.update blocks.wear b (blocks.wear b + 1) }
      else none

/-- A log is legal when every operation of it can be obeyed. -/
def replay (capacity : Nat) (blocks : Blocks β) (log : List (BlockOp β)) :
    Option (Blocks β) :=
  log.foldlM (obey capacity) blocks

def programs (b : β) (log : List (BlockOp β)) : Nat :=
  log.countP fun
    | .program b' _ => b' = b
    | _ => false

def erases (b : β) (log : List (BlockOp β)) : Nat :=
  log.countP fun
    | .erase b' => b' = b
    | _ => false

variable {capacity slot : Nat} {blocks blocks' : Blocks β} {log log' : List (BlockOp β)}
  {op : BlockOp β} {b : β}

theorem replay_append :
    replay capacity blocks (log ++ log') =
      (replay capacity blocks log).bind fun mid => replay capacity mid log' := by
  simp only [replay, List.foldlM_append]
  rfl

theorem replay_concat (h : replay capacity blocks log = some blocks') :
    replay capacity blocks (log ++ [op]) = obey capacity blocks' op := by
  rw [replay_append, h]
  simp [replay]

theorem exists_of_replay_cons (h : replay capacity blocks (op :: log) = some blocks') :
    ∃ mid, obey capacity blocks op = some mid ∧ replay capacity mid log = some blocks' := by
  simp only [replay, List.foldlM_cons] at h
  exact Option.bind_eq_some_iff.mp h

theorem exists_of_replay_append (h : replay capacity blocks (log ++ log') = some blocks') :
    ∃ mid, replay capacity blocks log = some mid ∧
      replay capacity mid log' = some blocks' := by
  rw [replay_append] at h
  exact Option.bind_eq_some_iff.mp h

theorem obey_counts (h : obey capacity blocks op = some blocks') (b : β) :
    programs b [op] + blocks.level b = blocks'.level b + capacity * erases b [op] ∧
      blocks'.wear b = blocks.wear b + erases b [op] := by
  cases op with
  | read c slot =>
      simp only [obey, Option.ite_none_right_eq_some, Option.some.injEq] at h
      obtain ⟨-, rfl⟩ := h
      simp [programs, erases]
  | program c slot =>
      simp only [obey, Option.ite_none_right_eq_some, Option.some.injEq] at h
      obtain ⟨⟨hslot, -⟩, rfl⟩ := h
      rcases eq_or_ne c b with rfl | hne
      · simp [programs, erases, hslot]
        omega
      · simp [programs, erases, hne, Function.update_of_ne hne.symm]
  | erase c =>
      simp only [obey, Option.ite_none_right_eq_some, Option.some.injEq] at h
      obtain ⟨hfull, rfl⟩ := h
      rcases eq_or_ne c b with rfl | hne
      · simp [programs, erases, hfull]
      · simp [programs, erases, hne, Function.update_of_ne hne.symm]

/-- In a legal log a block has been filled once for every filled slot and once for
every slot of it that was emptied. -/
theorem replay_counts (h : replay capacity blocks log = some blocks') (b : β) :
    programs b log + blocks.level b = blocks'.level b + capacity * erases b log ∧
      blocks'.wear b = blocks.wear b + erases b log := by
  induction log generalizing blocks with
  | nil =>
      cases h
      simp [programs, erases]
  | cons op log ih =>
      obtain ⟨mid, hop, hrest⟩ := exists_of_replay_cons h
      obtain ⟨hlevel, hwear⟩ := obey_counts hop b
      obtain ⟨hlevel', hwear'⟩ := ih hrest
      have hprograms : programs b (op :: log) = programs b [op] + programs b log := by
        rw [← List.singleton_append, programs, List.countP_append]
        rfl
      have herases : erases b (op :: log) = erases b [op] + erases b log := by
        rw [← List.singleton_append, erases, List.countP_append]
        rfl
      rw [hprograms, herases, Nat.mul_add]
      omega

theorem erases_eq_zero (h : BlockOp.erase b ∉ log) : erases b log = 0 := by
  rw [erases, List.countP_eq_zero]
  intro op hop
  cases op with
  | read c slot => simp
  | program c slot => simp
  | erase c =>
      simp only [decide_eq_true_eq]
      rintro rfl
      exact h hop

theorem level_le_of_not_erased (h : replay capacity blocks log = some blocks')
    (hlog : BlockOp.erase b ∉ log) : blocks.level b ≤ blocks'.level b := by
  have hcounts := (replay_counts h b).1
  rw [erases_eq_zero hlog] at hcounts
  omega

theorem erase_mem_between {before between after : List (BlockOp β)}
    (h : replay capacity blocks
      (before ++ .program b slot :: (between ++ .program b slot :: after)) = some blocks') :
    BlockOp.erase b ∈ between := by
  obtain ⟨first, -, h⟩ := exists_of_replay_append h
  obtain ⟨filled, hfill, h⟩ := exists_of_replay_cons h
  obtain ⟨second, hbetween, h⟩ := exists_of_replay_append h
  obtain ⟨last, hrefill, -⟩ := exists_of_replay_cons h
  simp only [obey, Option.ite_none_right_eq_some, Option.some.injEq] at hfill hrefill
  obtain ⟨-, rfl⟩ := hfill
  obtain ⟨⟨hslot, -⟩, -⟩ := hrefill
  by_contra hnot
  have hle := level_le_of_not_erased hbetween hnot
  simp only [Function.update_self] at hle
  omega

theorem exists_program_of_lt_level (h : replay capacity blank log = some blocks)
    (hslot : slot < blocks.level b) :
    ∃ before after, log = before ++ .program b slot :: after ∧ .erase b ∉ after := by
  induction log using List.reverseRecOn generalizing blocks with
  | nil =>
      cases h
      simp [blank] at hslot
  | append_singleton log op ih =>
      obtain ⟨mid, hmid, hop⟩ := exists_of_replay_append h
      obtain ⟨_, hobey, hend⟩ := exists_of_replay_cons hop
      cases hend
      -- The slot was filled before the last operation, which does not erase it, or by it.
      have hlater : slot < mid.level b → op ≠ .erase b →
          ∃ before after, log ++ [op] = before ++ .program b slot :: after ∧
            .erase b ∉ after := by
        intro hold hne
        obtain ⟨before, after, rfl, hkept⟩ := ih hmid hold
        refine ⟨before, after ++ [op], by simp, ?_⟩
        simp [hkept, Ne.symm hne]
      cases op with
      | read c slot' =>
          simp only [obey, Option.ite_none_right_eq_some, Option.some.injEq] at hobey
          obtain ⟨-, rfl⟩ := hobey
          exact hlater hslot (by simp)
      | program c slot' =>
          simp only [obey, Option.ite_none_right_eq_some, Option.some.injEq] at hobey
          obtain ⟨⟨hlevel, -⟩, rfl⟩ := hobey
          rcases eq_or_ne b c with rfl | hne
          · simp only [Function.update_self] at hslot
            rcases Nat.lt_or_eq_of_le (Nat.le_of_lt_succ hslot) with hlt | rfl
            · exact hlater (hlevel ▸ hlt) (by simp)
            · exact ⟨log, [], rfl, List.not_mem_nil⟩
          · simp only [Function.update_of_ne hne] at hslot
            exact hlater hslot (by simp)
      | erase c =>
          simp only [obey, Option.ite_none_right_eq_some, Option.some.injEq] at hobey
          obtain ⟨-, rfl⟩ := hobey
          rcases eq_or_ne b c with rfl | hne
          · simp [Function.update_self] at hslot
          · simp only [Function.update_of_ne hne] at hslot
            exact hlater hslot (by simpa using Ne.symm hne)

end NvmeVirt.SequentialBlocks
