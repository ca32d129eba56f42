import Mathlib.Tactic.Set
import NvmeVirt.PrpTransfer

namespace NvmeVirt.HostBuffer

open ByteMemory
open FaultOutcome
open PrpTransfer
open WriteBuffer

section Walk

variable (pfnValid : Nat → Bool) (dptr : DataPtr)

/-- The entry of the list of pages that the next round reads, if it reads one. -/
def nextCell (remaining : Nat) (cursor : PrpCursor) : Option Nat :=
  if cursor.prpOffs = 0 then none
  else if cursor.prpOffs = 1 then
    if pageSize < remaining then some (listAddr pfnValid dptr.prp2) else none
  else cursor.paddrList.map fun list => list + 8 * cursor.prp2Offs

/-- The addresses of the buffer, in order, and the list entries that were read. -/
def bufferLoop (host : Memory) : Nat → Nat → PrpCursor → Except Fault (List Nat × List Nat)
  | 0, remaining, _ =>
      if remaining = 0 then .ok ([], []) else .error (.endlessLoop .doPerformIo)
  | fuel + 1, remaining, cursor =>
      if remaining = 0 then .ok ([], [])
      else do
        let (paddr, cursor') ← nextPaddr pfnValid dptr host remaining cursor
        let size := ioSize paddr remaining
        let (addrs, cells) ← bufferLoop host fuel (remaining - size) cursor'
        return (List.range' (dataAddr pfnValid paddr (paddr % pageSize)) size ++ addrs,
          (nextCell pfnValid dptr remaining cursor).toList ++ cells)

/-- The buffer of `length` bytes. -/
def hostBuffer (host : Memory) (length : Nat) : Except Fault (List Nat × List Nat) :=
  bufferLoop pfnValid dptr host length length .start

end Walk

/-- The buffer does not overlap itself or the list of its pages. -/
structure Separate (addrs cells : List Nat) : Prop where
  nodup : addrs.Nodup
  apart : ∀ cell ∈ cells, ∀ i < 8, cell + i ∉ addrs

variable {pfnValid : Nat → Bool} {dptr : DataPtr} {host host' : Memory} {fuel remaining : Nat}
  {cursor : PrpCursor} {addrs cells : List Nat}

theorem ioSize_eq (paddr remaining : Nat) :
    ioSize paddr remaining = min remaining (pageSize - paddr % pageSize) := by
  have hmod := Nat.mod_lt paddr (show 0 < pageSize by decide)
  rw [ioSize]
  split <;> omega

theorem gatherLoop_eq :
    gatherLoop pfnValid dptr host fuel remaining cursor =
      (bufferLoop pfnValid dptr host fuel remaining cursor).map fun buffer =>
        buffer.1.map host := by
  induction fuel generalizing remaining cursor with
  | zero =>
      rw [gatherLoop, bufferLoop]
      split <;> rfl
  | succ fuel ih =>
      rw [gatherLoop, bufferLoop]
      split
      · rfl
      · cases nextPaddr pfnValid dptr host remaining cursor with
        | error e => rfl
        | ok found =>
            obtain ⟨paddr, cursor'⟩ := found
            simp only [ok_bind, ih]
            cases bufferLoop pfnValid dptr host fuel (remaining - ioSize paddr remaining)
              cursor' with
            | error e => rfl
            | ok rest =>
                simp only [Except.map]
                exact congrArg Except.ok (by rw [List.map_append, map_range'])

theorem payload_of_hostBuffer {length : Nat}
    (h : hostBuffer pfnValid dptr host length = .ok (addrs, cells)) :
    payload pfnValid dptr host length = .ok (addrs.map host) := by
  rw [hostBuffer] at h
  rw [payload, gatherLoop_eq, h]
  rfl

theorem nextPaddr_first (h : cursor.prpOffs = 0) :
    nextPaddr pfnValid dptr host remaining cursor =
      .ok (dptr.prp1, { cursor with prpOffs := 1 }) := by
  simp only [nextPaddr, h]
  rfl

theorem nextPaddr_second (h : cursor.prpOffs = 1) :
    nextPaddr pfnValid dptr host remaining cursor =
      if pageSize < remaining then
        .ok (readU64 host (listAddr pfnValid dptr.prp2),
          ⟨2, 1, some (listAddr pfnValid dptr.prp2)⟩)
      else .ok (dptr.prp2, { cursor with prpOffs := 2 }) := by
  simp only [nextPaddr, h]
  rfl

theorem nextPaddr_later (h : 2 ≤ cursor.prpOffs) :
    nextPaddr pfnValid dptr host remaining cursor =
      match cursor.paddrList with
      | none => .error (.nullPointer .doPerformIo)
      | some list => .ok (readU64 host (list + 8 * cursor.prp2Offs),
          ⟨cursor.prpOffs + 1, cursor.prp2Offs + 1, cursor.paddrList⟩) := by
  simp only [nextPaddr]
  refine (if_neg (by omega)).trans ((if_neg (by omega)).trans ?_)
  cases cursor.paddrList <;> rfl

theorem nextPaddr_congr
    (h : ∀ cell, nextCell pfnValid dptr remaining cursor = some cell →
      ∀ i < 8, host' (cell + i) = host (cell + i)) :
    nextPaddr pfnValid dptr host' remaining cursor =
      nextPaddr pfnValid dptr host remaining cursor := by
  have hread : ∀ cell, nextCell pfnValid dptr remaining cursor = some cell →
      readU64 host' cell = readU64 host cell := by
    intro cell hcell
    rw [readU64, readU64, slice_congr (h cell hcell)]
  rcases Nat.lt_trichotomy cursor.prpOffs 1 with hround | hround | hround
  · have hfirst : cursor.prpOffs = 0 := by omega
    rw [nextPaddr_first hfirst, nextPaddr_first hfirst]
  · rw [nextPaddr_second hround, nextPaddr_second hround]
    split
    · next hlong =>
      rw [hread]
      rw [nextCell, if_neg (by omega), if_pos hround, if_pos hlong]
    · rfl
  · rw [nextPaddr_later hround, nextPaddr_later hround]
    cases hlist : cursor.paddrList with
    | none => rfl
    | some list =>
        dsimp only
        rw [hread]
        rw [nextCell, if_neg (by omega), if_neg (by omega), hlist]
        rfl

theorem bufferLoop_congr (host' : Memory)
    (hrun : bufferLoop pfnValid dptr host fuel remaining cursor = .ok (addrs, cells))
    (h : ∀ cell ∈ cells, ∀ i < 8, host' (cell + i) = host (cell + i)) :
    bufferLoop pfnValid dptr host' fuel remaining cursor = .ok (addrs, cells) := by
  induction fuel generalizing remaining cursor addrs cells with
  | zero => exact hrun
  | succ fuel ih =>
      rw [bufferLoop] at hrun ⊢
      split at hrun
      · next hzero =>
        rw [if_pos hzero]
        exact hrun
      · next hmore =>
        obtain ⟨⟨paddr, cursor'⟩, hnext, hrun⟩ := exists_of_bind_eq_ok hrun
        obtain ⟨⟨addrs', cells'⟩, hrest, hrun⟩ := exists_of_bind_eq_ok hrun
        cases hrun
        have hcell : nextPaddr pfnValid dptr host' remaining cursor = .ok (paddr, cursor') := by
          rw [nextPaddr_congr, hnext]
          intro cell hcell
          exact h cell (by simp [hcell])
        have hrest' := ih hrest fun cell hmem => h cell (by simp [hmem])
        rw [if_neg hmore, hcell]
        simp only [ok_bind, hrest']
        rfl

theorem hostBuffer_page {n : Nat} (hpos : 0 < n) (hpage : dptr.prp1 % pageSize + n ≤ pageSize) :
    hostBuffer (fun _ => true) dptr host n = .ok (List.range' dptr.prp1 n, []) := by
  obtain ⟨fuel, rfl⟩ := Nat.exists_eq_succ_of_ne_zero (Nat.ne_of_gt hpos)
  have hsize : ioSize dptr.prp1 (fuel + 1) = fuel + 1 := by
    rw [ioSize_eq]
    omega
  have haddr : dataAddr (fun _ => true) dptr.prp1 (dptr.prp1 % pageSize) = dptr.prp1 := by
    rw [dataAddr, if_pos rfl, Nat.div_add_mod']
  have hend : bufferLoop (fun _ => true) dptr host fuel 0
      { PrpCursor.start with prpOffs := 1 } = .ok ([], []) := by
    cases fuel <;> rfl
  rw [hostBuffer, bufferLoop, if_neg (Nat.succ_ne_zero fuel), nextPaddr_first rfl, ok_bind]
  simp only [hsize, haddr, Nat.sub_self, hend, ok_bind]
  rw [List.append_nil]
  rfl

theorem Separate.rest {piece cell : List Nat} (h : Separate (piece ++ addrs) (cell ++ cells)) :
    Separate addrs cells where
  nodup := (List.nodup_append.1 h.nodup).2.1
  apart c hc i hi hmem :=
    h.apart c (List.mem_append_right _ hc) i hi (List.mem_append_right _ hmem)

theorem transferLoop_toHost {t : Transfer}
    (hrun : bufferLoop pfnValid dptr t.host fuel t.remaining t.cursor = .ok (addrs, cells))
    (hseparate : Separate addrs cells) :
    ∃ t', transferLoop pfnValid dptr .toHost fuel t = .ok t' ∧
      addrs.map t'.host = slice t.device t.offset t.remaining ∧
      ∀ a, a ∉ addrs → t'.host a = t.host a := by
  induction fuel generalizing t addrs cells with
  | zero =>
      rw [bufferLoop] at hrun
      split at hrun
      · next hzero =>
        cases hrun
        refine ⟨t, by rw [transferLoop, if_pos hzero], ?_, fun _ _ => rfl⟩
        rw [hzero]
        rfl
      · cases hrun
  | succ fuel ih =>
      rw [bufferLoop] at hrun
      split at hrun
      · next hzero =>
        cases hrun
        refine ⟨t, by rw [transferLoop, if_pos hzero], ?_, fun _ _ => rfl⟩
        rw [hzero]
        rfl
      · next hmore =>
        obtain ⟨⟨paddr, cursor'⟩, hnext, hrun⟩ := exists_of_bind_eq_ok hrun
        obtain ⟨⟨addrs', cells'⟩, hrest, hrun⟩ := exists_of_bind_eq_ok hrun
        cases hrun
        set addr := dataAddr pfnValid paddr (paddr % pageSize) with haddr
        set size := ioSize paddr t.remaining with hsize
        -- the list entries that are still to be read are not overwritten
        have hlist : ∀ cell ∈ cells', ∀ i < 8,
            memcpy t.host addr t.device t.offset size (cell + i) = t.host (cell + i) := by
          intro cell hcell i hi
          refine memcpy_of_notMem fun hmem => ?_
          exact hseparate.apart cell (List.mem_append_right _ hcell) i hi
            (List.mem_append_left _ hmem)
        have hsame := bufferLoop_congr (memcpy t.host addr t.device t.offset size) hrest hlist
        obtain ⟨t', htransfer, hfilled, hkept⟩ := ih
          (t := ⟨memcpy t.host addr t.device t.offset size, t.device, t.offset + size,
            t.remaining - size, cursor'⟩) hsame hseparate.rest
        dsimp only at hfilled hkept
        -- nor is this piece, later
        have hpiece : (List.range' addr size).map t'.host = slice t.device t.offset size := by
          rw [← slice_memcpy_self t.host addr, ← map_range']
          refine List.map_congr_left fun a ha => hkept a fun ha' => ?_
          exact (List.nodup_append.1 hseparate.nodup).2.2 a ha a ha' rfl
        refine ⟨t', ?_, ?_, ?_⟩
        · rw [transferLoop, if_neg hmore, hnext]
          exact htransfer
        · have hsum : t.remaining = size + (t.remaining - size) :=
            (Nat.add_sub_of_le (ioSize_le paddr t.remaining)).symm
          rw [List.map_append, hfilled, hpiece, ← slice_add, ← hsum]
        · intro a ha
          rw [List.mem_append, not_or] at ha
          rw [hkept a ha.2, memcpy_of_notMem ha.1]

theorem performIo_toHost (device : Memory) (offset : Nat) {length : Nat}
    (hrun : hostBuffer pfnValid dptr host length = .ok (addrs, cells))
    (hseparate : Separate addrs cells) :
    ∃ host', performIo pfnValid dptr .toHost host device offset length = .ok (host', device) ∧
      addrs.map host' = slice device offset length ∧ ∀ a, a ∉ addrs → host' a = host a := by
  obtain ⟨t, ht, hfilled, hkept⟩ :=
    transferLoop_toHost (t := ⟨host, device, offset, length, .start⟩) hrun hseparate
  refine ⟨t.host, ?_, hfilled, hkept⟩
  have hdevice : t.device = device := transferLoop_toHost_device ht
  rw [performIo, ht, ← hdevice]
  rfl

section Shorter

variable {n m fuel' : Nat}

/-- The first `m` addresses of the buffer are the buffer of `m` bytes. -/
def Truncates (pfnValid : Nat → Bool) (dptr : DataPtr) (host : Memory) (m : Nat)
    (cursor : PrpCursor) (addrs cells : List Nat) : Prop :=
  ∀ fuel, m ≤ fuel → ∃ cells', cells' ⊆ cells ∧
    bufferLoop pfnValid dptr host fuel m cursor = .ok (addrs.take m, cells')

theorem truncates_zero : Truncates pfnValid dptr host 0 cursor addrs cells := by
  intro fuel _
  refine ⟨[], List.nil_subset _, ?_⟩
  cases fuel <;> rfl

theorem truncates_round {paddr : Nat} {cursor' : PrpCursor} (hle : m ≤ n) (hpos : 0 < m)
    (hnext : nextPaddr pfnValid dptr host m cursor = .ok (paddr, cursor'))
    (hcell : nextCell pfnValid dptr m cursor = nextCell pfnValid dptr n cursor)
    (hrest : ioSize paddr n < m →
      Truncates pfnValid dptr host (m - ioSize paddr n) cursor' addrs cells) :
    Truncates pfnValid dptr host m cursor
      (List.range' (dataAddr pfnValid paddr (paddr % pageSize)) (ioSize paddr n) ++ addrs)
      ((nextCell pfnValid dptr n cursor).toList ++ cells) := by
  intro fuel hfuel
  obtain ⟨fuel, rfl⟩ := Nat.exists_eq_succ_of_ne_zero (Nat.ne_of_gt (Nat.lt_of_lt_of_le hpos hfuel))
  have hmod := Nat.mod_lt paddr (show 0 < pageSize by decide)
  rw [bufferLoop, if_neg (Nat.ne_of_gt hpos), hnext, hcell]
  by_cases hmore : ioSize paddr n < m
  · -- the same piece, and then the rest of both
    have hsize : ioSize paddr m = ioSize paddr n := by
      rw [ioSize_eq, ioSize_eq] at *
      omega
    have hpiece : 0 < ioSize paddr n := by
      rw [ioSize_eq]
      omega
    obtain ⟨cells', hsubset, hrun⟩ := hrest hmore fuel (by omega)
    refine ⟨(nextCell pfnValid dptr n cursor).toList ++ cells', ?_, ?_⟩
    · exact List.append_subset.2 ⟨List.subset_append_left _ _,
        List.Subset.trans hsubset (List.subset_append_right _ _)⟩
    · simp only [ok_bind, hsize, hrun]
      rw [List.take_append, List.length_range', List.take_range'_of_length_le (by omega)]
      rfl
  · -- the shorter walk ends inside this piece
    have hsize : ioSize paddr m = m := by
      rw [ioSize_eq] at *
      omega
    have hend : bufferLoop pfnValid dptr host fuel 0 cursor' = .ok ([], []) := by
      cases fuel <;> rfl
    refine ⟨(nextCell pfnValid dptr n cursor).toList, List.subset_append_left _ _, ?_⟩
    simp only [ok_bind, hsize, Nat.sub_self, hend]
    rw [List.take_append_of_le_length (by rw [List.length_range']; omega),
      List.take_range'_of_length_ge (by omega), List.append_nil, List.append_nil]
    rfl

theorem nextCell_later (h : 2 ≤ cursor.prpOffs) :
    nextCell pfnValid dptr m cursor = nextCell pfnValid dptr n cursor := by
  rw [nextCell, nextCell, if_neg (by omega), if_neg (by omega), if_neg (by omega),
    if_neg (by omega)]

theorem nextPaddr_later_eq (h : 2 ≤ cursor.prpOffs) :
    nextPaddr pfnValid dptr host m cursor = nextPaddr pfnValid dptr host n cursor := by
  rw [nextPaddr_later h, nextPaddr_later h]

theorem prpOffs_of_nextPaddr {paddr : Nat} {cursor' : PrpCursor}
    (h : nextPaddr pfnValid dptr host n cursor = .ok (paddr, cursor')) :
    cursor'.prpOffs = cursor.prpOffs + 1 := by
  rcases Nat.lt_trichotomy cursor.prpOffs 1 with hround | hround | hround
  · have hfirst : cursor.prpOffs = 0 := by omega
    rw [nextPaddr_first hfirst] at h
    rw [← (Prod.mk.inj (Except.ok.inj h)).2, hfirst]
  · rw [nextPaddr_second hround] at h
    rw [hround]
    split at h
    · rw [← (Prod.mk.inj (Except.ok.inj h)).2]
    · rw [← (Prod.mk.inj (Except.ok.inj h)).2]
  · rw [nextPaddr_later hround] at h
    cases hlist : cursor.paddrList with
    | none =>
        rw [hlist] at h
        cases h
    | some list =>
        rw [hlist] at h
        rw [← (Prod.mk.inj (Except.ok.inj h)).2]

theorem truncates_later (hround : 2 ≤ cursor.prpOffs) (hle : m ≤ n)
    (hrun : bufferLoop pfnValid dptr host fuel n cursor = .ok (addrs, cells)) :
    Truncates pfnValid dptr host m cursor addrs cells := by
  induction fuel generalizing n m cursor addrs cells with
  | zero =>
      rw [bufferLoop] at hrun
      split at hrun
      · next hzero =>
        have hm : m = 0 := by omega
        subst hm
        exact truncates_zero
      · cases hrun
  | succ fuel ih =>
      rcases Nat.eq_zero_or_pos m with rfl | hpos
      · exact truncates_zero
      · rw [bufferLoop, if_neg (by omega)] at hrun
        obtain ⟨⟨paddr, cursor'⟩, hnext, hrun⟩ := exists_of_bind_eq_ok hrun
        obtain ⟨⟨addrs', cells'⟩, hrest, hrun⟩ := exists_of_bind_eq_ok hrun
        cases hrun
        have hoffs := prpOffs_of_nextPaddr hnext
        refine truncates_round hle hpos ((nextPaddr_later_eq hround).trans hnext)
          (nextCell_later hround) ?_
        exact fun _ => ih (by omega) (by omega) hrest

/-- For `m` of `n` bytes `prp2` is a list exactly when it is one for all of them. -/
def ReadAlike (dptr : DataPtr) (n m : Nat) : Prop :=
  ioSize dptr.prp1 n < m →
    (pageSize < n - ioSize dptr.prp1 n ↔ pageSize < m - ioSize dptr.prp1 n)

instance (dptr : DataPtr) (n m : Nat) : Decidable (ReadAlike dptr n m) :=
  inferInstanceAs (Decidable (ioSize dptr.prp1 n < m →
    (pageSize < n - ioSize dptr.prp1 n ↔ pageSize < m - ioSize dptr.prp1 n)))

theorem truncates_second (hround : cursor.prpOffs = 1) (hle : m ≤ n)
    (halike : pageSize < n ↔ pageSize < m)
    (hrun : bufferLoop pfnValid dptr host fuel n cursor = .ok (addrs, cells)) :
    Truncates pfnValid dptr host m cursor addrs cells := by
  rcases Nat.eq_zero_or_pos m with rfl | hpos
  · exact truncates_zero
  · cases fuel with
    | zero =>
        rw [bufferLoop, if_neg (by omega)] at hrun
        cases hrun
    | succ fuel =>
        rw [bufferLoop, if_neg (by omega)] at hrun
        obtain ⟨⟨paddr, cursor'⟩, hnext, hrun⟩ := exists_of_bind_eq_ok hrun
        obtain ⟨⟨addrs', cells'⟩, hrest, hrun⟩ := exists_of_bind_eq_ok hrun
        cases hrun
        have hoffs := prpOffs_of_nextPaddr hnext
        have hsame : nextPaddr pfnValid dptr host m cursor =
            nextPaddr pfnValid dptr host n cursor := by
          rw [nextPaddr_second hround, nextPaddr_second hround]
          simp only [halike]
        have hcell : nextCell pfnValid dptr m cursor = nextCell pfnValid dptr n cursor := by
          simp only [nextCell, halike]
        refine truncates_round hle hpos (hsame.trans hnext) hcell ?_
        exact fun _ => truncates_later (by omega) (by omega) hrest

theorem hostBuffer_take (hle : m ≤ n) (halike : ReadAlike dptr n m)
    (hrun : hostBuffer pfnValid dptr host n = .ok (addrs, cells)) :
    ∃ cells', cells' ⊆ cells ∧
      hostBuffer pfnValid dptr host m = .ok (addrs.take m, cells') := by
  suffices htruncates : Truncates pfnValid dptr host m .start addrs cells from
    htruncates m (Nat.le_refl m)
  rw [hostBuffer] at hrun
  rcases Nat.eq_zero_or_pos m with rfl | hpos
  · exact truncates_zero
  · cases n with
    | zero => omega
    | succ fuel =>
        rw [bufferLoop, if_neg (by omega), nextPaddr_first rfl, ok_bind] at hrun
        obtain ⟨⟨addrs', cells'⟩, hrest, hrun⟩ := exists_of_bind_eq_ok hrun
        cases hrun
        refine truncates_round hle hpos (nextPaddr_first rfl) rfl ?_
        intro hmore
        exact truncates_second rfl (by omega) (halike hmore) hrest

theorem Separate.take {cells' : List Nat} (h : Separate addrs cells) (hsubset : cells' ⊆ cells)
    (m : Nat) : Separate (addrs.take m) cells' where
  nodup := h.nodup.sublist (List.take_sublist m addrs)
  apart cell hcell i hi hmem :=
    h.apart cell (hsubset hcell) i hi (List.mem_of_mem_take hmem)

end Shorter

end NvmeVirt.HostBuffer
