import Mathlib.Data.Finset.Card
import Mathlib.Data.List.Find
import Mathlib.Order.Interval.Finset.Nat
import NvmeVirt.KeyValueIterators

namespace NvmeVirt.IteratorHandles

open ByteMemory
open FaultOutcome
open Function
open KeyValueIterators

section Requests

/-- The reply to a request when the handles in `opened` are open: an iterator is opened
under another handle if fewer than 16 are open, and the request fails otherwise. -/
def OpensApart (opened : Finset Nat) (cmd : IterReqCommand) (reply : IterReply) : Prop :=
  cmd.option &&& 0x01 ≠ 0 →
    if opened.card < 16 then reply.status = 0 ∧ reply.result ∉ opened else reply.status ≠ 0

/-- The handles that are open for the host after a reply. -/
def openAfter (opened : Finset Nat) (cmd : IterReqCommand) (reply : IterReply) : Finset Nat :=
  if cmd.option &&& 0x01 ≠ 0 then
    if reply.status = 0 then insert reply.result opened else opened
  else if cmd.option &&& 0x02 ≠ 0 then opened.erase cmd.iterHandle
  else opened

/-- All requests return, and all opened handles are kept apart. -/
def HandlesApart (host : Memory) :
    IterTable → Finset Nat → List (Memory × IterReqCommand) → Prop
  | _, _, [] => True
  | iters, opened, (memory, cmd) :: requests =>
      ∃ reply, doPerformKvIterReq memory host iters cmd 0 = .ok reply ∧
        OpensApart opened cmd reply ∧
        HandlesApart host reply.iters (openAfter opened cmd reply) requests

/-- The handles that can be given out, and can be closed. -/
def usable (zeroed : Bool) : Nat := if zeroed then 16 else 15

/-- The handles that are open after a request, when each iterator is opened under the
lowest handle that is free. -/
def nextOpened (zeroed : Bool) (opened : Finset Nat) (cmd : IterReqCommand) : Finset Nat :=
  if cmd.option &&& 0x01 ≠ 0 then
    match (List.range' 1 (usable zeroed)).find? fun iter => iter ∉ opened with
    | some iter => insert iter opened
    | none => opened
  else if cmd.option &&& 0x02 ≠ 0 then opened.erase cmd.iterHandle
  else opened

/-- An iterator is only opened while a usable handle is free, and only a usable handle is
closed. -/
def Permits (zeroed : Bool) (opened : Finset Nat) (cmd : IterReqCommand) : Prop :=
  if cmd.option &&& 0x01 ≠ 0 then opened.card < usable zeroed
  else cmd.option &&& 0x02 ≠ 0 → cmd.iterHandle ≤ usable zeroed

instance (zeroed : Bool) (opened : Finset Nat) (cmd : IterReqCommand) :
    Decidable (Permits zeroed opened cmd) :=
  inferInstanceAs (Decidable (if cmd.option &&& 0x01 ≠ 0 then opened.card < usable zeroed
    else cmd.option &&& 0x02 ≠ 0 → cmd.iterHandle ≤ usable zeroed))

def Admissible (zeroed : Bool) : Finset Nat → List IterReqCommand → Prop
  | _, [] => True
  | opened, cmd :: requests =>
      Permits zeroed opened cmd ∧ Admissible zeroed (nextOpened zeroed opened cmd) requests

instance decidableAdmissible (zeroed : Bool) :
    (opened : Finset Nat) → (requests : List IterReqCommand) →
      Decidable (Admissible zeroed opened requests)
  | _, [] => inferInstanceAs (Decidable True)
  | opened, cmd :: requests =>
      have := decidableAdmissible zeroed (nextOpened zeroed opened cmd) requests
      inferInstanceAs (Decidable (_ ∧ _))

end Requests

/-- What the array holds when the handles in `opened` are open. -/
structure Tracks (zeroed : Bool) (iters : IterTable) (opened : Finset Nat) : Prop where
  inside : opened ⊆ Finset.Icc 1 (usable zeroed)
  taken : ∀ iter ∈ opened, ∃ handle, iters iter = .context handle
  free : ∀ iter ≤ usable zeroed, iter ∉ opened → iters iter = .null
  last : zeroed = false → iters 16 = .wild

theorem tracks_init (zeroed : Bool) : Tracks zeroed (initIters zeroed) ∅ where
  inside := Finset.empty_subset _
  taken _ h := absurd h (Finset.notMem_empty _)
  free iter hiter _ := by
    rw [initIters, if_pos]
    cases zeroed with
    | true => exact .inr rfl
    | false => exact .inl (Nat.lt_succ_of_le hiter)
  last hzeroed := by
    rw [initIters, hzeroed]
    rfl

section Steps

variable {zeroed : Bool} {host memory : Memory} {iters : IterTable} {opened : Finset Nat}
  {cmd : IterReqCommand} {iter : Nat}

theorem Tracks.find_eq (h : Tracks zeroed iters opened) :
    ((List.range' 1 16).find? fun iter => (iters iter).isNull) =
      (List.range' 1 (usable zeroed)).find? fun iter => iter ∉ opened := by
  have husable : ((List.range' 1 (usable zeroed)).find? fun iter => (iters iter).isNull) =
      (List.range' 1 (usable zeroed)).find? fun iter => iter ∉ opened := by
    refine List.find?_congr fun iter hiter => ?_
    obtain ⟨-, hhigh⟩ := List.mem_range'_1.1 hiter
    by_cases hopen : iter ∈ opened
    · obtain ⟨handle, hhandle⟩ := h.taken iter hopen
      simp [hopen, hhandle, IterPointer.isNull]
    · simp [hopen, h.free iter (by omega) hopen, IterPointer.isNull]
  cases zeroed with
  | true => exact husable
  | false =>
      have hlist : List.range' 1 16 = List.range' 1 15 ++ [16] := by decide
      have hlast : ([16].find? fun iter => (iters iter).isNull) = none := by
        simp [h.last rfl, IterPointer.isNull]
      rw [hlist, List.find?_append, hlast, Option.or_none]
      exact husable

theorem find_some (hroom : opened.card < usable zeroed) :
    ∃ iter, ((List.range' 1 (usable zeroed)).find? fun iter => iter ∉ opened) = some iter ∧
      1 ≤ iter ∧ iter ≤ usable zeroed ∧ iter ∉ opened := by
  cases hfind : (List.range' 1 (usable zeroed)).find? fun iter => iter ∉ opened with
  | none =>
      have hfull : Finset.Icc 1 (usable zeroed) ⊆ opened := by
        intro iter hiter
        obtain ⟨hlow, hhigh⟩ := Finset.mem_Icc.1 hiter
        have hmem : iter ∈ List.range' 1 (usable zeroed) := List.mem_range'_1.2 ⟨hlow, by omega⟩
        simpa using List.find?_eq_none.1 hfind iter hmem
      have hcard := Finset.card_le_card hfull
      rw [Nat.card_Icc, Nat.add_sub_cancel] at hcard
      exact absurd hroom (not_lt.2 hcard)
  | some iter =>
      have hmem := List.mem_range'_1.1 (List.mem_of_find?_eq_some hfind)
      exact ⟨iter, rfl, hmem.1, by omega, by simpa using List.find?_some hfind⟩

theorem Tracks.find_none (h : Tracks zeroed iters opened) (hfull : ¬opened.card < usable zeroed) :
    ((List.range' 1 (usable zeroed)).find? fun iter => iter ∉ opened) = none ∧ 1 ∈ opened := by
  have hall : opened = Finset.Icc 1 (usable zeroed) := by
    refine Finset.eq_of_subset_of_card_le h.inside ?_
    rw [Nat.card_Icc, Nat.add_sub_cancel]
    exact not_lt.1 hfull
  have hsome : 1 ≤ usable zeroed := by cases zeroed <;> decide
  refine ⟨?_, ?_⟩
  · rw [List.find?_eq_none]
    intro iter hiter
    obtain ⟨hlow, hhigh⟩ := List.mem_range'_1.1 hiter
    have hmem : iter ∈ opened := by
      rw [hall, Finset.mem_Icc]
      omega
    simpa using hmem
  · rw [hall, Finset.mem_Icc]
    exact ⟨Nat.le_refl 1, hsome⟩

theorem Tracks.last_update (h : Tracks zeroed iters opened) (hhigh : iter ≤ usable zeroed)
    (pointer : IterPointer) (hzeroed : zeroed = false) : update iters iter pointer 16 = .wild := by
  have hne : 16 ≠ iter := by
    rw [hzeroed, usable] at hhigh
    simp only [Bool.false_eq_true, if_false] at hhigh
    omega
  rw [update_of_ne hne]
  exact h.last hzeroed

theorem Tracks.insert (h : Tracks zeroed iters opened) (hlow : 1 ≤ iter)
    (hhigh : iter ≤ usable zeroed) (handle : IterContext) :
    Tracks zeroed (update iters iter (.context handle)) (insert iter opened) where
  inside := Finset.insert_subset (Finset.mem_Icc.2 ⟨hlow, hhigh⟩) h.inside
  taken other hother := by
    by_cases heq : other = iter
    · exact ⟨handle, by rw [heq, update_self]⟩
    · rw [update_of_ne heq]
      exact h.taken other (Finset.mem_of_mem_insert_of_ne hother heq)
  free other hother hnot := by
    rw [Finset.mem_insert, not_or] at hnot
    rw [update_of_ne hnot.1]
    exact h.free other hother hnot.2
  last hzeroed := h.last_update hhigh _ hzeroed

theorem Tracks.erase (h : Tracks zeroed iters opened) (hhigh : iter ≤ usable zeroed) :
    Tracks zeroed (update iters iter .null) (opened.erase iter) where
  inside := (Finset.erase_subset _ _).trans h.inside
  taken other hother := by
    obtain ⟨hne, hopen⟩ := Finset.mem_erase.1 hother
    rw [update_of_ne hne]
    exact h.taken other hopen
  free other hother hnot := by
    by_cases heq : other = iter
    · rw [heq, update_self]
    · rw [update_of_ne heq]
      exact h.free other hother fun hopen => hnot (Finset.mem_erase.2 ⟨heq, hopen⟩)
  last hzeroed := h.last_update hhigh _ hzeroed

theorem usable_le (zeroed : Bool) : usable zeroed ≤ 16 := by cases zeroed <;> decide

theorem Tracks.close_usable (h : Tracks zeroed iters opened)
    (hhigh : cmd.iterHandle ≤ usable zeroed) (host : Memory) :
    ∃ reply, kvIterClose host iters cmd = .ok reply ∧
      Tracks zeroed reply.iters (opened.erase cmd.iterHandle) := by
  have hinside : ¬iterHandles ≤ cmd.iterHandle := by
    have husable := usable_le zeroed
    rw [iterHandles]
    omega
  by_cases hopen : cmd.iterHandle ∈ opened
  · obtain ⟨handle, hhandle⟩ := h.taken _ hopen
    refine ⟨⟨update iters cmd.iterHandle .null, host, 0, 0⟩, ?_, h.erase hhigh⟩
    rw [kvIterClose, if_neg hinside, hhandle]
  · rw [Finset.erase_eq_of_notMem hopen]
    exact ⟨⟨iters, host, 0, 0⟩, by rw [kvIterClose, if_neg hinside, h.free _ hhigh hopen], h⟩

theorem Tracks.close_unusable (h : Tracks zeroed iters opened)
    (hhigh : ¬cmd.iterHandle ≤ usable zeroed) (host : Memory) (reply : IterReply) :
    kvIterClose host iters cmd ≠ .ok reply := by
  rw [kvIterClose]
  split
  · rintro ⟨⟩
  · next hinside =>
    rw [iterHandles] at hinside
    cases zeroed with
    | true => exact absurd (show cmd.iterHandle ≤ 16 by omega) hhigh
    | false =>
        have hlast : cmd.iterHandle = 16 := by
          rw [usable] at hhigh
          simp only [Bool.false_eq_true, if_false] at hhigh
          omega
        rw [hlast, h.last rfl]
        rintro ⟨⟩

theorem Tracks.step_permitted (h : Tracks zeroed iters opened)
    (hpermits : Permits zeroed opened cmd) (memory host : Memory) :
    ∃ reply, doPerformKvIterReq memory host iters cmd 0 = .ok reply ∧
      OpensApart opened cmd reply ∧
      openAfter opened cmd reply = nextOpened zeroed opened cmd ∧
      Tracks zeroed reply.iters (nextOpened zeroed opened cmd) := by
  rw [Permits] at hpermits
  by_cases hopen : cmd.option &&& 0x01 ≠ 0
  · rw [if_pos hopen] at hpermits
    obtain ⟨iter, hfind, hlow, hhigh, hnew⟩ := find_some hpermits
    have hnext : nextOpened zeroed opened cmd = Insert.insert iter opened := by
      rw [nextOpened, if_pos hopen, hfind]
    rw [hnext]
    refine ⟨_, if_pos hopen, ?_, ?_, ?_⟩
    · intro _
      rw [if_pos (hpermits.trans_le (usable_le zeroed)), kvIterOpen, h.find_eq, hfind]
      exact ⟨rfl, hnew⟩
    · rw [openAfter, if_pos hopen, kvIterOpen, h.find_eq, hfind]
      exact if_pos rfl
    · rw [kvIterOpen, h.find_eq, hfind]
      exact h.insert hlow hhigh _
  · rw [if_neg hopen] at hpermits
    have hapart : ∀ reply, OpensApart opened cmd reply := fun reply hopen' => absurd hopen' hopen
    by_cases hclose : cmd.option &&& 0x02 ≠ 0
    · have hnext : nextOpened zeroed opened cmd = opened.erase cmd.iterHandle := by
        rw [nextOpened, if_neg hopen, if_pos hclose]
      obtain ⟨reply, hreply, htracks⟩ := h.close_usable (hpermits hclose) host
      rw [hnext]
      refine ⟨reply, ?_, hapart reply, ?_, htracks⟩
      · rw [doPerformKvIterReq, if_neg hopen, if_pos hclose, hreply]
      · rw [openAfter, if_neg hopen, if_pos hclose]
    · have hnext : nextOpened zeroed opened cmd = opened := by
        rw [nextOpened, if_neg hopen, if_neg hclose]
      rw [hnext]
      refine ⟨⟨iters, host, 0, 0⟩, ?_, hapart _, ?_, h⟩
      · rw [doPerformKvIterReq, if_neg hopen, if_neg hclose]
      · rw [openAfter, if_neg hopen, if_neg hclose]

theorem Tracks.step_refused (h : Tracks zeroed iters opened)
    (hrefused : ¬Permits zeroed opened cmd) {memory host : Memory} {reply : IterReply}
    (hreply : doPerformKvIterReq memory host iters cmd 0 = .ok reply) :
    ¬OpensApart opened cmd reply := by
  rw [Permits] at hrefused
  by_cases hopen : cmd.option &&& 0x01 ≠ 0
  · rw [if_pos hopen] at hrefused
    obtain ⟨hnone, hfirst⟩ := h.find_none hrefused
    rw [doPerformKvIterReq, if_pos hopen, kvIterOpen, h.find_eq, hnone] at hreply
    cases hreply
    intro hapart
    have hapart := hapart hopen
    split at hapart
    · exact hapart.2 hfirst
    · exact hapart rfl
  · rw [if_neg hopen, Classical.not_imp] at hrefused
    rw [doPerformKvIterReq, if_neg hopen, if_pos hrefused.1] at hreply
    exact absurd hreply (h.close_unusable hrefused.2 host reply)

theorem Tracks.handlesApart_iff (h : Tracks zeroed iters opened)
    (requests : List (Memory × IterReqCommand)) :
    HandlesApart host iters opened requests ↔
      Admissible zeroed opened (requests.map Prod.snd) := by
  induction requests generalizing iters opened with
  | nil => exact Iff.rfl
  | cons request requests ih =>
      obtain ⟨memory, cmd⟩ := request
      rw [HandlesApart, List.map_cons, Admissible]
      by_cases hpermits : Permits zeroed opened cmd
      · obtain ⟨reply, hreply, hapart, hafter, htracks⟩ := h.step_permitted hpermits memory host
        rw [← hafter] at htracks
        rw [hreply, ← hafter]
        constructor
        · rintro ⟨reply, hsame, -, hrest⟩
          cases hsame
          exact ⟨hpermits, (ih htracks).1 hrest⟩
        · rintro ⟨-, hrest⟩
          exact ⟨reply, rfl, hapart, (ih htracks).2 hrest⟩
      · constructor
        · rintro ⟨reply, hreply, hapart, -⟩
          exact absurd hapart (h.step_refused hpermits hreply)
        · rintro ⟨hpermits', -⟩
          exact absurd hpermits' hpermits

end Steps

/-- All replies to a list of requests keep the open handles apart if and only if no
iterator is opened while all usable handles are open, and only usable handles are closed. -/
theorem iterator_handles_apart_iff (zeroed : Bool) (host : Memory)
    (requests : List (Memory × IterReqCommand)) :
    HandlesApart host (initIters zeroed) ∅ requests ↔
      Admissible zeroed ∅ (requests.map Prod.snd) :=
  (tracks_init zeroed).handlesApart_iff requests

def openRequest : IterReqCommand :=
  { iterHandle := 0, option := 0x01, iterVal := 0, iterBitmask := 0 }

/-- The iterator that is opened behind 16 others shares the handle of the first. -/
theorem seventeenth_iterator_shares_handle :
    ¬HandlesApart (fun _ => 0) (initIters true) ∅
      (List.replicate 17 (fun _ => 0, openRequest)) := by
  rw [(tracks_init true).handlesApart_iff, List.map_replicate]
  decide +kernel

end NvmeVirt.IteratorHandles
