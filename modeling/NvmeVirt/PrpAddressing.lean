import NvmeVirt.DmaTransfer

namespace NvmeVirt.PrpAddressing

open ByteMemory
open DmaTransfer
open FaultOutcome
open HostBuffer
open PrpTransfer
open WriteBuffer

/-- What a round of the loop touches: the list entry it reads, if any, the
pointer it follows, and the bytes it moves. -/
structure Round where
  cell : Option Nat
  paddr : Nat
  addr : Nat
  size : Nat
deriving DecidableEq, Repr

section Rounds

variable (pfnValid : Nat → Bool) (dptr : DataPtr)

/-- The loop of `__do_perform_io` with its rounds. -/
def roundsLoop (dir : Direction) : Nat → Transfer → Except Fault (Transfer × List Round)
  | 0, t => if t.remaining = 0 then .ok (t, []) else .error (.endlessLoop .doPerformIo)
  | fuel + 1, t =>
      if t.remaining = 0 then .ok (t, [])
      else do
        let (paddr, cursor) ← nextPaddr pfnValid dptr t.host t.remaining t.cursor
        let addr := dataAddr pfnValid paddr (paddr % pageSize)
        let size := ioSize paddr t.remaining
        let (t', rounds) ← roundsLoop dir fuel (movePiece dir t addr size cursor)
        return (t', ⟨nextCell pfnValid dptr t.remaining t.cursor, paddr, addr, size⟩ :: rounds)

/-- List entries are read one after the other from entry `first` of the list at
`prp2`, and the bytes moved are those at the physical address of their page. -/
structure Addressed (first : Nat) (rounds : List Round) : Prop where
  entry : ∀ k cell, (rounds.filterMap Round.cell)[k]? = some cell →
    cell = dptr.prp2 + 8 * (first + k)
  byte : ∀ r ∈ rounds, ∀ j < r.size, r.addr + j = r.paddr + j

/-- The transfer of `length` bytes goes through and is addressed like this. -/
def TransfersAddressed (dir : Direction) (host device : Memory) (offset length : Nat) : Prop :=
  ∃ t rounds,
    roundsLoop pfnValid dptr dir length ⟨host, device, offset, length, .start⟩ =
      .ok (t, rounds) ∧
    performIo pfnValid dptr dir host device offset length = .ok (t.host, t.device) ∧
    Addressed dptr 0 rounds

/-- The page of this address is in the linear map, or the address has no offset
in it. -/
def Direct (a : Nat) : Prop := pfnValid (a / pageSize) = true ∨ a % pageSize = 0

/-- The offsets that NVMe allows: only `prp1` and the pointer to a list may have
one. What is read does not land on the list. -/
structure Allowed (dir : Direction) (host : Memory) (length : Nat) : Prop where
  aligned : ∀ k, 0 < k → k < prpCount dptr length → prpEntry dptr host length k % pageSize = 0
  apart : dir = .toHost → 2 < prpCount dptr length → ∀ k, k + 1 < prpCount dptr length →
    ∀ i < 8, dptr.prp2 + 8 * k + i ∉ bytesOf (entriesFrom dptr host length 0) length

end Rounds

variable {pfnValid : Nat → Bool} {dptr : DataPtr} {dir : Direction} {host device : Memory}
  {length fuel first k : Nat} {t : Transfer} {rounds : List Round}

/-- Without the rounds it is the loop of `__do_perform_io`. -/
theorem roundsLoop_forget (t : Transfer) :
    (roundsLoop pfnValid dptr dir fuel t).map Prod.fst =
      transferLoop pfnValid dptr dir fuel t := by
  induction fuel generalizing t with
  | zero =>
      rw [roundsLoop, transferLoop]
      split <;> rfl
  | succ fuel ih =>
      rw [roundsLoop, transferLoop]
      split
      · rfl
      · cases nextPaddr pfnValid dptr t.host t.remaining t.cursor with
        | error e => rfl
        | ok found =>
            obtain ⟨paddr, cursor⟩ := found
            rw [ok_bind, ok_bind]
            refine (map_fst_bind _ _).trans ((ih _).trans ?_)
            cases dir <;> rfl

theorem performIo_of_roundsLoop {offset : Nat} {t : Transfer}
    (h : roundsLoop pfnValid dptr dir length ⟨host, device, offset, length, .start⟩ =
      .ok (t, rounds)) :
    performIo pfnValid dptr dir host device offset length = .ok (t.host, t.device) := by
  rw [performIo, ← roundsLoop_forget, h]
  rfl

theorem dataAddr_eq_iff (a : Nat) :
    dataAddr pfnValid a (a % pageSize) = a ↔ Direct pfnValid a := by
  rw [dataAddr, Direct]
  split
  · next hvalid => simp [hvalid, Nat.div_add_mod']
  · next hvalid => simp [hvalid]

theorem listAddr_eq_iff (a : Nat) : listAddr pfnValid a = a ↔ Direct pfnValid a := by
  rw [listAddr, Direct]
  split
  · next hvalid => simp [hvalid]
  · next hvalid => simp [hvalid]

theorem ioSize_pos {remaining : Nat} (paddr : Nat) (h : remaining ≠ 0) :
    0 < ioSize paddr remaining := by
  have hmod := Nat.mod_lt paddr (show 0 < pageSize by decide)
  rw [ioSize_eq]
  omega

theorem addressed_nil : Addressed dptr first [] where
  entry k cell h := by simp at h
  byte r hr := absurd hr List.not_mem_nil

theorem Addressed.cons_none {paddr size : Nat} (h : Addressed dptr first rounds) :
    Addressed dptr first (⟨none, paddr, paddr, size⟩ :: rounds) where
  entry k cell hcell := by
    rw [List.filterMap_cons_none rfl] at hcell
    exact h.entry k cell hcell
  byte r hr j hj := by
    rcases List.mem_cons.1 hr with rfl | hr
    · rfl
    · exact h.byte r hr j hj

theorem Addressed.cons_some {paddr size : Nat} (h : Addressed dptr (first + 1) rounds) :
    Addressed dptr first (⟨some (dptr.prp2 + 8 * first), paddr, paddr, size⟩ :: rounds) where
  entry k cell hcell := by
    have hread : Round.cell ⟨some (dptr.prp2 + 8 * first), paddr, paddr, size⟩ =
        some (dptr.prp2 + 8 * first) := rfl
    rw [List.filterMap_cons_some hread] at hcell
    cases k with
    | zero => exact (Option.some.inj hcell).symm
    | succ k =>
        have hlater := h.entry k cell hcell
        omega
  byte r hr j hj := by
    rcases List.mem_cons.1 hr with rfl | hr
    · rfl
    · exact h.byte r hr j hj

section Direct

/-- The entries of the list that page `k` and those behind it come from are as
they were, and stay so while these pages are filled. -/
structure Ready (dptr : DataPtr) (dir : Direction) (host : Memory) (length k : Nat)
    (t : Transfer) : Prop where
  kept : 2 < prpCount dptr length → ∀ j, k ≤ j + 1 → j + 1 < prpCount dptr length →
    ∀ i < 8, t.host (dptr.prp2 + 8 * j + i) = host (dptr.prp2 + 8 * j + i)
  apart : dir = .toHost → 2 < prpCount dptr length → ∀ j, k ≤ j + 1 →
    j + 1 < prpCount dptr length → ∀ i < 8,
    dptr.prp2 + 8 * j + i ∉ bytesOf (entriesFrom dptr host length k) t.remaining

theorem movePiece_host {addr size a : Nat} {cursor : PrpCursor}
    (h : dir = .toHost → a ∉ List.range' addr size) :
    (movePiece dir t addr size cursor).host a = t.host a := by
  rw [movePiece]
  dsimp only
  split
  · next hread => exact memcpy_of_notMem (h hread)
  · rfl

theorem Ready.next {cursor : PrpCursor} (h : Ready dptr dir host length k t)
    (hk : k < prpCount dptr length) :
    Ready dptr dir host length (k + 1)
      (movePiece dir t (prpEntry dptr host length k)
        (ioSize (prpEntry dptr host length k) t.remaining) cursor) where
  kept hlist j hj hlt i hi := by
    rw [movePiece_host, h.kept hlist j (Nat.le_of_succ_le hj) hlt i hi]
    intro hread hmem
    refine h.apart hread hlist j (Nat.le_of_succ_le hj) hlt i hi ?_
    rw [entriesFrom_cons hk]
    exact List.mem_append_left _ hmem
  apart hread hlist j hj hlt i hi hmem := by
    refine h.apart hread hlist j (Nat.le_of_succ_le hj) hlt i hi ?_
    rw [entriesFrom_cons hk]
    exact List.mem_append_right _ hmem

theorem Ready.readU64 (h : Ready dptr dir host length k t) (hlist : 2 < prpCount dptr length)
    {j : Nat} (hj : k ≤ j + 1) (hlt : j + 1 < prpCount dptr length) :
    readU64 t.host (dptr.prp2 + 8 * j) = prpEntry dptr host length (j + 1) := by
  rw [prpEntry, if_neg (Nat.not_le.2 hlist), PrpTransfer.readU64, PrpTransfer.readU64,
    slice_congr (h.kept hlist j hj hlt)]

/-- The rest of the loop, from page `k` on. -/
def Proceeds (pfnValid : Nat → Bool) (dptr : DataPtr) (dir : Direction) (fuel first : Nat)
    (t : Transfer) : Prop :=
  ∃ t' rounds, roundsLoop pfnValid dptr dir fuel t = .ok (t', rounds) ∧
    Addressed dptr first rounds

theorem proceeds_done (h : t.remaining = 0) : Proceeds pfnValid dptr dir fuel first t := by
  refine ⟨t, [], ?_, addressed_nil⟩
  cases fuel with
  | zero => rw [roundsLoop, if_pos h]
  | succ fuel => rw [roundsLoop, if_pos h]

theorem proceeds_round {paddr : Nat} {cursor : PrpCursor} (hmore : t.remaining ≠ 0)
    (hnext : nextPaddr pfnValid dptr t.host t.remaining t.cursor = .ok (paddr, cursor))
    (hdirect : Direct pfnValid paddr)
    (hcell : nextCell pfnValid dptr t.remaining t.cursor = none)
    (hrest : Proceeds pfnValid dptr dir fuel first
      (movePiece dir t paddr (ioSize paddr t.remaining) cursor)) :
    Proceeds pfnValid dptr dir (fuel + 1) first t := by
  obtain ⟨t', rounds, hrest, haddressed⟩ := hrest
  refine ⟨t', ⟨none, paddr, paddr, ioSize paddr t.remaining⟩ :: rounds, ?_,
    haddressed.cons_none⟩
  rw [roundsLoop, if_neg hmore, hnext, hcell]
  simp only [ok_bind, (dataAddr_eq_iff paddr).2 hdirect, hrest]
  rfl

theorem proceeds_entry {paddr : Nat} {cursor : PrpCursor} (hmore : t.remaining ≠ 0)
    (hnext : nextPaddr pfnValid dptr t.host t.remaining t.cursor = .ok (paddr, cursor))
    (hdirect : Direct pfnValid paddr)
    (hcell : nextCell pfnValid dptr t.remaining t.cursor = some (dptr.prp2 + 8 * first))
    (hrest : Proceeds pfnValid dptr dir fuel (first + 1)
      (movePiece dir t paddr (ioSize paddr t.remaining) cursor)) :
    Proceeds pfnValid dptr dir (fuel + 1) first t := by
  obtain ⟨t', rounds, hrest, haddressed⟩ := hrest
  refine ⟨t', ⟨some (dptr.prp2 + 8 * first), paddr, paddr, ioSize paddr t.remaining⟩ :: rounds,
    ?_, haddressed.cons_some⟩
  rw [roundsLoop, if_neg hmore, hnext, hcell]
  simp only [ok_bind, (dataAddr_eq_iff paddr).2 hdirect, hrest]
  rfl

theorem restFrom_round (h : Allowed dptr dir host length) (hk : 0 < k)
    (hlt : k < prpCount dptr length) :
    restFrom dptr length k - ioSize (prpEntry dptr host length k) (restFrom dptr length k) =
      restFrom dptr length (k + 1) := by
  rw [ioSize_aligned (h.aligned k hk hlt), restFrom_succ]

theorem proceeds_later {j : Nat} (h : Allowed dptr dir host length)
    (hlist : 2 < prpCount dptr length) (hj : 0 < j)
    (hready : Ready dptr dir host length (j + 1) t)
    (hremaining : t.remaining = restFrom dptr length (j + 1))
    (hcursor : t.cursor = ⟨j + 1, j, some dptr.prp2⟩)
    (hfuel : restFrom dptr length (j + 1) ≤ fuel) : Proceeds pfnValid dptr dir fuel j t := by
  induction fuel generalizing j t with
  | zero => exact proceeds_done (by omega)
  | succ fuel ih =>
      by_cases hend : prpCount dptr length ≤ j + 1
      · exact proceeds_done (hremaining.trans ((restFrom_eq_zero length (j + 1)).2 hend))
      · have hlt := Nat.not_le.1 hend
        have hmore : t.remaining ≠ 0 := by rwa [hremaining, Ne, restFrom_eq_zero]
        have hnonzero : 0 < j + 1 := Nat.succ_pos j
        have hstep := restFrom_round h hnonzero hlt
        have haligned := h.aligned (j + 1) hnonzero hlt
        have hpiece := ioSize_pos (prpEntry dptr host length (j + 1)) hmore
        have hnext : nextPaddr pfnValid dptr t.host t.remaining t.cursor =
            .ok (prpEntry dptr host length (j + 1), ⟨j + 2, j + 1, some dptr.prp2⟩) := by
          rw [hcursor, nextPaddr_later (show 2 ≤ j + 1 by omega)]
          dsimp only
          rw [hready.readU64 hlist (Nat.le_refl _) hlt]
        have hcell : nextCell pfnValid dptr t.remaining t.cursor =
            some (dptr.prp2 + 8 * j) := by
          rw [hcursor, nextCell, if_neg (Nat.succ_ne_zero j),
            if_neg (show ¬j + 1 = 1 by omega)]
          rfl
        refine proceeds_entry hmore hnext (.inr haligned) hcell
          (ih hnonzero (hready.next hlt) ?_ rfl ?_)
        · rw [← hstep, ← hremaining]
          rfl
        · rw [hremaining] at hpiece
          omega

theorem proceeds_second (h : Allowed dptr dir host length)
    (hdirect : 2 < prpCount dptr length → Direct pfnValid dptr.prp2)
    (hready : Ready dptr dir host length 1 t) (hremaining : t.remaining = restFrom dptr length 1)
    (hcursor : t.cursor = ⟨1, 0, none⟩) (hfuel : restFrom dptr length 1 ≤ fuel) :
    Proceeds pfnValid dptr dir fuel 0 t := by
  by_cases hend : prpCount dptr length ≤ 1
  · exact proceeds_done (hremaining.trans ((restFrom_eq_zero length 1).2 hend))
  · have hlt := Nat.not_le.1 hend
    have hmore : t.remaining ≠ 0 := by rwa [hremaining, Ne, restFrom_eq_zero]
    have hstep := restFrom_round h Nat.zero_lt_one hlt
    have haligned := h.aligned 1 Nat.zero_lt_one hlt
    have hpiece := ioSize_pos (prpEntry dptr host length 1) hmore
    rw [hremaining] at hpiece
    obtain ⟨fuel, rfl⟩ := Nat.exists_eq_add_one_of_ne_zero (show fuel ≠ 0 by omega)
    have hround : t.cursor.prpOffs = 1 := by rw [hcursor]
    by_cases hlist : 2 < prpCount dptr length
    · have hlong : pageSize < t.remaining := by
        rw [hremaining, restFrom_gt_page]
        exact hlist
      have haddr := (listAddr_eq_iff dptr.prp2).2 (hdirect hlist)
      have hentry := hready.readU64 hlist (Nat.le_refl 1) hlt
      rw [Nat.mul_zero, Nat.add_zero] at hentry
      have hnext : nextPaddr pfnValid dptr t.host t.remaining t.cursor =
          .ok (prpEntry dptr host length 1, ⟨2, 1, some dptr.prp2⟩) := by
        rw [nextPaddr_second hround, if_pos hlong, haddr, hentry]
      have hcell : nextCell pfnValid dptr t.remaining t.cursor = some (dptr.prp2 + 8 * 0) := by
        rw [nextCell, hround, if_neg Nat.one_ne_zero, if_pos rfl, if_pos hlong, haddr,
          Nat.mul_zero, Nat.add_zero]
      refine proceeds_entry hmore hnext (.inr haligned) hcell
        (proceeds_later (j := 1) h hlist Nat.zero_lt_one (hready.next hlt) ?_ rfl (by omega))
      rw [← hstep, ← hremaining]
      rfl
    · have hshort : ¬pageSize < t.remaining := by
        rw [hremaining, restFrom_gt_page]
        exact hlist
      have hentry : prpEntry dptr host length 1 = dptr.prp2 := if_pos (Nat.not_lt.1 hlist)
      have hnext : nextPaddr pfnValid dptr t.host t.remaining t.cursor =
          .ok (prpEntry dptr host length 1, ⟨2, 0, none⟩) := by
        rw [nextPaddr_second hround, if_neg hshort, hcursor, hentry]
      have hcell : nextCell pfnValid dptr t.remaining t.cursor = none := by
        rw [nextCell, hround, if_neg Nat.one_ne_zero, if_pos rfl, if_neg hshort]
      have hzero := (restFrom_eq_zero length 2).2 (Nat.not_lt.1 hlist)
      rw [← hstep, ← hremaining] at hzero
      exact proceeds_round hmore hnext (.inr haligned) hcell (proceeds_done hzero)

end Direct

theorem ready_start {offset : Nat} (h : Allowed dptr dir host length) :
    Ready dptr dir host length 0 ⟨host, device, offset, length, .start⟩ where
  kept _ _ _ _ _ _ := rfl
  apart hread hlist j _ hlt i hi := h.apart hread hlist j hlt i hi

theorem addressed_of_direct {offset : Nat} (hpos : 0 < length) (h : Allowed dptr dir host length)
    (hfirst : Direct pfnValid dptr.prp1)
    (hlist : 2 < prpCount dptr length → Direct pfnValid dptr.prp2) :
    Proceeds pfnValid dptr dir length 0 ⟨host, device, offset, length, .start⟩ := by
  have hcount : 0 < prpCount dptr length := by
    rw [← Nat.not_le, prpCount_le_iff]
    omega
  have hpiece := ioSize_pos dptr.prp1 (Nat.ne_of_gt hpos)
  have hrest : length - ioSize dptr.prp1 length = restFrom dptr length 1 := restFrom_one
  obtain ⟨fuel, rfl⟩ := Nat.exists_eq_add_one_of_ne_zero (Nat.ne_of_gt hpos)
  refine proceeds_round (Nat.succ_ne_zero fuel) (nextPaddr_first rfl) hfirst rfl ?_
  exact proceeds_second h hlist ((ready_start h).next hcount) hrest rfl (by omega)

theorem direct_of_addressed {offset : Nat} (hpos : 0 < length) {t : Transfer}
    (hrun : roundsLoop pfnValid dptr dir length ⟨host, device, offset, length, .start⟩ =
      .ok (t, rounds)) (haddressed : Addressed dptr 0 rounds) :
    Direct pfnValid dptr.prp1 ∧ (2 < prpCount dptr length → Direct pfnValid dptr.prp2) := by
  have hpiece := ioSize_pos dptr.prp1 (Nat.ne_of_gt hpos)
  have hrest : length - ioSize dptr.prp1 length = restFrom dptr length 1 := restFrom_one
  obtain ⟨fuel, rfl⟩ := Nat.exists_eq_add_one_of_ne_zero (Nat.ne_of_gt hpos)
  rw [roundsLoop, if_neg (Nat.succ_ne_zero fuel), nextPaddr_first rfl, ok_bind] at hrun
  obtain ⟨⟨t₁, rounds₁⟩, hrun₁, hrun⟩ := exists_of_bind_eq_ok hrun
  cases hrun
  constructor
  · have hbyte := haddressed.byte _ List.mem_cons_self 0 hpiece
    exact (dataAddr_eq_iff dptr.prp1).1 hbyte
  · intro hlist
    have hlong : pageSize < restFrom dptr (fuel + 1) 1 := (restFrom_gt_page _ 1).2 hlist
    rw [← hrest] at hlong
    cases fuel with
    | zero => omega
    | succ fuel =>
        rw [roundsLoop, movePiece] at hrun₁
        dsimp only at hrun₁
        rw [if_neg (by omega), nextPaddr_second rfl, if_pos hlong, ok_bind] at hrun₁
        obtain ⟨⟨t₂, rounds₂⟩, -, hrun₁⟩ := exists_of_bind_eq_ok hrun₁
        cases hrun₁
        have hentry := haddressed.entry 0 (listAddr pfnValid dptr.prp2) (by
          rw [List.filterMap_cons_none rfl, List.filterMap_cons_some]
          · rfl
          · simp only [nextCell]
            exact if_pos hlong)
        exact (listAddr_eq_iff dptr.prp2).1 hentry

/-- The whole transfer is addressed by physical address, however the memory is
mapped, exactly when the two pointers that may have an offset lie in the linear
map or have none. -/
theorem prp_addressing_iff_direct (device : Memory) (slba nlb : Nat)
    (h : Allowed dptr dir host (cmdIoSize nlb)) :
    TransfersAddressed pfnValid dptr dir host device (cmdIoOffset slba) (cmdIoSize nlb) ↔
      Direct pfnValid dptr.prp1 ∧
        (2 < prpCount dptr (cmdIoSize nlb) → Direct pfnValid dptr.prp2) := by
  have hpos : 0 < cmdIoSize nlb := Nat.mul_pos (Nat.succ_pos nlb) (by decide)
  constructor
  · rintro ⟨t, rounds, hrun, -, haddressed⟩
    exact direct_of_addressed hpos hrun haddressed
  · rintro ⟨hfirst, hlist⟩
    obtain ⟨t, rounds, hrun, haddressed⟩ := addressed_of_direct hpos h hfirst hlist
    exact ⟨t, rounds, hrun, performIo_of_roundsLoop hrun, haddressed⟩

def listInside : DataPtr := { prp1 := 131072, prp2 := 32776 }

theorem listInside_allowed :
    Allowed listInside .toDevice hostWithList (cmdIoSize 31) where
  aligned k hpos hlt := by
    have hall : ∀ k, k < prpCount listInside (cmdIoSize 31) → 0 < k →
        prpEntry listInside hostWithList (cmdIoSize 31) k % pageSize = 0 := by decide +kernel
    exact hall k hlt hpos
  apart h := by cases h

theorem prp_addressing_iff_direct_inside :
    TransfersAddressed (fun _ => true) listInside .toDevice hostWithList (fun _ => 0)
      (cmdIoOffset 0) (cmdIoSize 31) :=
  (prp_addressing_iff_direct (fun _ => 0) 0 31 listInside_allowed).2
    ⟨.inl rfl, fun _ => .inl rfl⟩

def fivePages : DataPtr := { prp1 := 66048, prp2 := 32768 }

theorem fivePages_allowed : Allowed fivePages .toDevice hostWithList (cmdIoSize 31) where
  aligned k hpos hlt := by
    have hall : ∀ k, k < prpCount fivePages (cmdIoSize 31) → 0 < k →
        prpEntry fivePages hostWithList (cmdIoSize 31) k % pageSize = 0 := by decide +kernel
    exact hall k hlt hpos
  apart h := by cases h

/-- A remapped list with an offset of 8 bytes is read 64 bytes into its page,
and a remapped first page with an offset of 512 bytes from 1024 bytes on. -/
theorem remapped_offsets_count_twice :
    (Allowed listInside .toDevice hostWithList (cmdIoSize 31) ∧
      returns (roundsLoop (fun frame => frame != 8) listInside .toDevice (cmdIoSize 31)
        ⟨hostWithList, fun _ => 0, cmdIoOffset 0, cmdIoSize 31, .start⟩)
        (fun r => (r.2.filterMap Round.cell).head? == some (listInside.prp2 + 64)) = true ∧
      ¬TransfersAddressed (fun frame => frame != 8) listInside .toDevice hostWithList
        (fun _ => 0) (cmdIoOffset 0) (cmdIoSize 31)) ∧
    Allowed fivePages .toDevice hostWithList (cmdIoSize 31) ∧
      returns (roundsLoop (fun frame => frame != 16) fivePages .toDevice (cmdIoSize 31)
        ⟨hostWithList, fun _ => 0, cmdIoOffset 0, cmdIoSize 31, .start⟩)
        (fun r => (r.2.map Round.addr).head? == some (fivePages.prp1 + 512)) = true ∧
      ¬TransfersAddressed (fun frame => frame != 16) fivePages .toDevice hostWithList
        (fun _ => 0) (cmdIoOffset 0) (cmdIoSize 31) := by
  refine ⟨⟨listInside_allowed, by decide +kernel, ?_⟩, fivePages_allowed, by decide +kernel, ?_⟩
  · rintro ⟨t, rounds, hrun, -, haddressed⟩
    have hlist := (direct_of_addressed (by decide) hrun haddressed).2 (by decide)
    rcases hlist with hvalid | haligned
    · exact absurd hvalid (by decide)
    · exact absurd haligned (by decide)
  · rintro ⟨t, rounds, hrun, -, haddressed⟩
    have hfirst := (direct_of_addressed (by decide) hrun haddressed).1
    rcases hfirst with hvalid | haligned
    · exact absurd hvalid (by decide)
    · exact absurd haligned (by decide)

end NvmeVirt.PrpAddressing
