import Mathlib.Data.Nat.ModEq
import Mathlib.Logic.Function.Basic
import NvmeVirt.HostBuffer

namespace NvmeVirt.DmaTransfer

open ByteMemory
open FaultOutcome
open HostBuffer
open PrpTransfer
open WriteBuffer

/-- A copy of `size` bytes between physical addresses, as `ioat_dma_submit` is
asked for. -/
structure Copy where
  src : Nat
  dst : Nat
  size : Nat
deriving DecidableEq, Repr

/-- The copy between `storage` and `host` that a command of this kind needs. -/
def copyOf (dir : Direction) (storage host size : Nat) : List Copy :=
  match dir with
  | .toDevice => [⟨host, storage, size⟩]
  | .toHost => [⟨storage, host, size⟩]
  | .neither => []

/-- Physical addresses are `u64`. -/
def wrapPair (p : Nat × Nat) : Nat × Nat := (p.1 % 2 ^ 64, p.2 % 2 ^ 64)

/-- The bytes a copy reads, each with the byte it is written to. -/
def Copy.pairs (c : Copy) : List (Nat × Nat) :=
  ((List.range' c.src c.size).zip (List.range' c.dst c.size)).map wrapPair

/-- One round of `__do_perform_io`, which moves `size` bytes at `addr`. -/
def movePiece (dir : Direction) (t : Transfer) (addr size : Nat) (cursor : PrpCursor) :
    Transfer where
  host := if dir = .toHost then memcpy t.host addr t.device t.offset size else t.host
  device := if dir = .toDevice then memcpy t.device t.offset t.host addr size else t.device
  offset := t.offset + size
  remaining := t.remaining - size
  cursor := cursor

section Dma

variable (pfnValid : Nat → Bool) (dptr : DataPtr)

/-- The first loop: the pages of the command, in `paddr_list` from index 1 on,
which has room for 512 of them. It finds each page as `__do_perform_io` does. -/
def gatherPrps (host : Memory) :
    Nat → Nat → PrpCursor → (Nat → Nat) → Except Fault ((Nat → Nat) × Nat)
  | 0, remaining, cursor, list =>
      if remaining = 0 then .ok (list, cursor.prpOffs)
      else .error (.endlessLoop .doPerformIoUsingDma)
  | fuel + 1, remaining, cursor, list =>
      if remaining = 0 then .ok (list, cursor.prpOffs)
      else do
        let (paddr, cursor) ← nextPaddr pfnValid dptr host remaining cursor
        if 512 < cursor.prpOffs then .error (.outOfBounds .doPerformIoUsingDma)
        else
          gatherPrps host fuel (remaining - ioSize paddr remaining) cursor
            (Function.update list cursor.prpOffs paddr)

/-- The inner loop: the pages that follow `prp_offs - 1` without a gap. -/
def mergeRun (list : Nat → Nat) (numPrps : Nat) : Nat → Nat → Nat → Nat × Nat
  | 0, prpOffs, size => (prpOffs, size)
  | fuel + 1, prpOffs, size =>
      if prpOffs ≤ numPrps ∧ list prpOffs = (list (prpOffs - 1) + pageSize) % 2 ^ 64 then
        mergeRun list numPrps fuel (prpOffs + 1) (size + pageSize)
      else (prpOffs, size)

/-- The second loop; `storage` is `config.storage_start + offset`. -/
def submitLoop (dir : Direction) (list : Nat → Nat) (numPrps : Nat) :
    Nat → Nat → Nat → Nat → Except Fault (List Copy)
  | 0, remaining, _, _ =>
      if remaining = 0 then .ok [] else .error (.endlessLoop .doPerformIoUsingDma)
  | fuel + 1, remaining, prpOffs, storage =>
      if remaining = 0 then .ok []
      else if 512 < prpOffs then .error (.outOfBounds .doPerformIoUsingDma)
      else do
        let paddr := list prpOffs
        let run := mergeRun list numPrps numPrps (prpOffs + 1) (ioSize paddr remaining)
        let size := min remaining run.2
        let rest ← submitLoop dir list numPrps fuel (remaining - size) run.1 (storage + size)
        return copyOf dir storage paddr size ++ rest

/-- `__do_perform_io_using_dma`: the copies it submits for `length` bytes. -/
def performIoUsingDma (dir : Direction) (host : Memory) (storage length : Nat) :
    Except Fault (List Copy) := do
  let (list, numPrps) ← gatherPrps pfnValid dptr host length length .start fun _ => 0
  submitLoop dir list numPrps length length 1 storage

/-- The loop of `__do_perform_io` with the copies it makes, for a namespace
mapped at the physical address `mapped`. -/
def tracedLoop (dir : Direction) (mapped : Nat) :
    Nat → Transfer → Except Fault (Transfer × List Copy)
  | 0, t => if t.remaining = 0 then .ok (t, []) else .error (.endlessLoop .doPerformIo)
  | fuel + 1, t =>
      if t.remaining = 0 then .ok (t, [])
      else do
        let (paddr, cursor) ← nextPaddr pfnValid dptr t.host t.remaining t.cursor
        let addr := dataAddr pfnValid paddr (paddr % pageSize)
        let size := ioSize paddr t.remaining
        let (t', copies) ← tracedLoop dir mapped fuel (movePiece dir t addr size cursor)
        return (t', copyOf dir (mapped + t.offset) addr size ++ copies)

end Dma

section Traced

variable {pfnValid : Nat → Bool} {dptr : DataPtr} {dir : Direction} {mapped fuel : Nat}

theorem map_fst_bind {ε α β : Type} (x : Except ε (α × β)) (f : β → β) :
    (x >>= fun y => pure (y.1, f y.2)).map Prod.fst = x.map Prod.fst := by
  cases x <;> rfl

/-- Without the copies it is the loop of `__do_perform_io`. -/
theorem tracedLoop_forget (t : Transfer) :
    (tracedLoop pfnValid dptr dir mapped fuel t).map Prod.fst =
      transferLoop pfnValid dptr dir fuel t := by
  induction fuel generalizing t with
  | zero =>
      rw [tracedLoop, transferLoop]
      split <;> rfl
  | succ fuel ih =>
      rw [tracedLoop, transferLoop]
      split
      · rfl
      · cases nextPaddr pfnValid dptr t.host t.remaining t.cursor with
        | error e => rfl
        | ok found =>
            obtain ⟨paddr, cursor⟩ := found
            rw [ok_bind, ok_bind]
            refine (map_fst_bind _ _).trans ((ih _).trans ?_)
            cases dir <;> rfl

/-- The bytes of a buffer, each with the byte of the storage it belongs to, as
source and destination. -/
def pairUp (dir : Direction) (storage : Nat) (addrs : List Nat) : List (Nat × Nat) :=
  match dir with
  | .toDevice => (addrs.zip (List.range' storage addrs.length)).map wrapPair
  | .toHost => ((List.range' storage addrs.length).zip addrs).map wrapPair
  | .neither => []

theorem pairUp_nil (dir : Direction) (storage : Nat) : pairUp dir storage [] = [] := by
  cases dir <;> rfl

theorem pairUp_append (dir : Direction) (storage : Nat) (addrs addrs' : List Nat) :
    pairUp dir storage (addrs ++ addrs') =
      pairUp dir storage addrs ++ pairUp dir (storage + addrs.length) addrs' := by
  have hrange : List.range' storage (addrs ++ addrs').length =
      List.range' storage addrs.length ++
        List.range' (storage + addrs.length) addrs'.length := by
    rw [List.length_append, List.range'_append_1]
  cases dir with
  | neither => rfl
  | toDevice =>
      simp only [pairUp]
      rw [hrange, List.zip_append (by simp), List.map_append]
  | toHost =>
      simp only [pairUp]
      rw [hrange, List.zip_append (by simp), List.map_append]

theorem pairUp_congr (dir : Direction) (storage : Nat) {addrs addrs' : List Nat}
    (h : addrs.map (· % 2 ^ 64) = addrs'.map (· % 2 ^ 64)) :
    pairUp dir storage addrs = pairUp dir storage addrs' := by
  have hlength : addrs.length = addrs'.length := by
    simpa using congrArg List.length h
  have hwrap : wrapPair = Prod.map (· % 2 ^ 64) (· % 2 ^ 64) := rfl
  cases dir with
  | neither => rfl
  | toDevice =>
      simp only [pairUp]
      rw [hwrap, ← List.zip_map, ← List.zip_map, h, hlength]
  | toHost =>
      simp only [pairUp]
      rw [hwrap, ← List.zip_map, ← List.zip_map, h, hlength]

theorem pairs_copyOf (dir : Direction) (storage addr size : Nat) :
    (copyOf dir storage addr size).flatMap Copy.pairs =
      pairUp dir storage (List.range' addr size) := by
  cases dir <;> simp [copyOf, pairUp, Copy.pairs]

/-- The copies of `__do_perform_io` pair the storage with the buffer. -/
theorem tracedLoop_pairs (mapped : Nat) {t : Transfer} {addrs cells : List Nat}
    (hrun : bufferLoop pfnValid dptr t.host fuel t.remaining t.cursor = .ok (addrs, cells))
    (hapart : dir = .toHost → ∀ cell ∈ cells, ∀ i < 8, cell + i ∉ addrs) :
    ∃ t' copies, tracedLoop pfnValid dptr dir mapped fuel t = .ok (t', copies) ∧
      copies.flatMap Copy.pairs = pairUp dir (mapped + t.offset) addrs := by
  induction fuel generalizing t addrs cells with
  | zero =>
      rw [bufferLoop] at hrun
      split at hrun
      · next hzero =>
        cases hrun
        exact ⟨t, [], by rw [tracedLoop, if_pos hzero], (pairUp_nil _ _).symm⟩
      · cases hrun
  | succ fuel ih =>
      rw [bufferLoop] at hrun
      split at hrun
      · next hzero =>
        cases hrun
        exact ⟨t, [], by rw [tracedLoop, if_pos hzero], (pairUp_nil _ _).symm⟩
      · next hmore =>
        obtain ⟨⟨paddr, cursor'⟩, hnext, hrun⟩ := exists_of_bind_eq_ok hrun
        obtain ⟨⟨addrs', cells'⟩, hrest, hrun⟩ := exists_of_bind_eq_ok hrun
        cases hrun
        -- a read leaves the list entries alone that are still to be read
        obtain ⟨next, hnextEq⟩ : ∃ next, next = movePiece dir t
            (dataAddr pfnValid paddr (paddr % pageSize)) (ioSize paddr t.remaining) cursor' :=
          ⟨_, rfl⟩
        have hlist : ∀ cell ∈ cells', ∀ i < 8, next.host (cell + i) = t.host (cell + i) := by
          intro cell hcell i hi
          rw [hnextEq, movePiece]
          dsimp only
          split
          · next hread =>
            exact memcpy_of_notMem fun hmem => hapart hread cell
              (List.mem_append_right _ hcell) i hi (List.mem_append_left _ hmem)
          · rfl
        have hsame : bufferLoop pfnValid dptr next.host fuel next.remaining next.cursor =
            .ok (addrs', cells') := by
          have hremaining : next.remaining = t.remaining - ioSize paddr t.remaining := by
            rw [hnextEq, movePiece]
          have hcursor : next.cursor = cursor' := by
            rw [hnextEq, movePiece]
          rw [hremaining, hcursor]
          exact bufferLoop_congr next.host hrest hlist
        obtain ⟨t', copies, htraced, hpairs⟩ := ih hsame
          (fun hread cell hcell i hi hmem => hapart hread cell (List.mem_append_right _ hcell)
            i hi (List.mem_append_right _ hmem))
        refine ⟨t', copyOf dir (mapped + t.offset) (dataAddr pfnValid paddr (paddr % pageSize))
          (ioSize paddr t.remaining) ++ copies, ?_, ?_⟩
        · rw [tracedLoop, if_neg hmore, hnext]
          simp only [ok_bind, ← hnextEq, htraced]
          rfl
        · have hoffset : next.offset = t.offset + ioSize paddr t.remaining := by
            rw [hnextEq, movePiece]
          rw [List.flatMap_append, pairs_copyOf, hpairs, hoffset, pairUp_append,
            List.length_range', Nat.add_assoc]

end Traced

section Pages

variable (pfnValid : Nat → Bool) (dptr : DataPtr)

/-- The pages that both loops over the region pages find. -/
def walkLoop (host : Memory) : Nat → Nat → PrpCursor → Except Fault (List Nat)
  | 0, remaining, _ => if remaining = 0 then .ok [] else .error (.endlessLoop .doPerformIo)
  | fuel + 1, remaining, cursor =>
      if remaining = 0 then .ok []
      else do
        let (paddr, cursor) ← nextPaddr pfnValid dptr host remaining cursor
        let rest ← walkLoop host fuel (remaining - ioSize paddr remaining) cursor
        return paddr :: rest

/-- The bytes of these pages, if `remaining` bytes are to be moved. -/
def bytesOf : List Nat → Nat → List Nat
  | [], _ => []
  | p :: ps, remaining =>
      List.range' p (ioSize p remaining) ++ bytesOf ps (remaining - ioSize p remaining)

/-- `ps` stands in the array from `offs` on. -/
def Holds (list : Nat → Nat) : Nat → List Nat → Prop
  | _, [] => True
  | offs, p :: ps => list offs = p ∧ Holds list (offs + 1) ps

variable {pfnValid dptr} {host : Memory} {fuel remaining : Nat} {cursor : PrpCursor}
  {ps : List Nat} {list list' : Nat → Nat} {offs : Nat}

theorem Holds.congr (h : Holds list offs ps) (hsame : ∀ i, offs ≤ i → list' i = list i) :
    Holds list' offs ps := by
  induction ps generalizing offs with
  | nil => exact trivial
  | cons p ps ih =>
      exact ⟨(hsame offs (Nat.le_refl offs)).trans h.1,
        ih h.2 fun i hi => hsame i (Nat.le_of_succ_le hi)⟩

theorem walkLoop_cons {paddr : Nat} {cursor' : PrpCursor} (hmore : remaining ≠ 0)
    (hnext : nextPaddr pfnValid dptr host remaining cursor = .ok (paddr, cursor'))
    (hrest : walkLoop pfnValid dptr host fuel (remaining - ioSize paddr remaining) cursor' =
      .ok ps) :
    walkLoop pfnValid dptr host (fuel + 1) remaining cursor = .ok (paddr :: ps) := by
  rw [walkLoop, if_neg hmore, hnext]
  simp only [ok_bind, hrest]
  rfl

theorem walkLoop_cases (h : walkLoop pfnValid dptr host fuel remaining cursor = .ok ps) :
    remaining = 0 ∧ ps = [] ∨ remaining ≠ 0 ∧ ∃ fuel' paddr cursor' ps',
      fuel = fuel' + 1 ∧ ps = paddr :: ps' ∧
      nextPaddr pfnValid dptr host remaining cursor = .ok (paddr, cursor') ∧
      walkLoop pfnValid dptr host fuel' (remaining - ioSize paddr remaining) cursor' =
        .ok ps' := by
  cases fuel with
  | zero =>
      rw [walkLoop] at h
      split at h
      · next hzero => exact .inl ⟨hzero, (Except.ok.inj h).symm⟩
      · cases h
  | succ fuel =>
      rw [walkLoop] at h
      split at h
      · next hzero => exact .inl ⟨hzero, (Except.ok.inj h).symm⟩
      · next hmore =>
        obtain ⟨⟨paddr, cursor'⟩, hnext, h⟩ := exists_of_bind_eq_ok h
        obtain ⟨ps', hrest, h⟩ := exists_of_bind_eq_ok h
        exact .inr ⟨hmore, fuel, paddr, cursor', ps', rfl, (Except.ok.inj h).symm, hnext, hrest⟩

theorem bufferLoop_of_walkLoop
    (h : walkLoop pfnValid dptr host fuel remaining cursor = .ok ps)
    (hvalid : ∀ p ∈ ps, pfnValid (p / pageSize) = true) :
    ∃ cells, bufferLoop pfnValid dptr host fuel remaining cursor =
      .ok (bytesOf ps remaining, cells) := by
  induction fuel generalizing remaining cursor ps with
  | zero =>
      rcases walkLoop_cases h with ⟨rfl, rfl⟩ | ⟨_, fuel', _, _, _, hfuel, _⟩
      · exact ⟨[], rfl⟩
      · omega
  | succ fuel ih =>
      rcases walkLoop_cases h with
        ⟨rfl, rfl⟩ | ⟨hmore, _, paddr, cursor', ps', hfuel, rfl, hnext, hrest⟩
      · exact ⟨[], rfl⟩
      · obtain rfl := Nat.succ.inj hfuel
        obtain ⟨cells, hcells⟩ := ih hrest fun p hp => hvalid p (List.mem_cons_of_mem _ hp)
        have haddr : dataAddr pfnValid paddr (paddr % pageSize) = paddr := by
          rw [dataAddr, if_pos (hvalid paddr List.mem_cons_self), Nat.div_add_mod']
        refine ⟨(nextCell pfnValid dptr remaining cursor).toList ++ cells, ?_⟩
        rw [bufferLoop, if_neg hmore, hnext]
        simp only [ok_bind, hcells, haddr]
        rfl

theorem bytesOf_length (h : walkLoop pfnValid dptr host fuel remaining cursor = .ok ps) :
    (bytesOf ps remaining).length = remaining := by
  induction ps generalizing fuel remaining cursor with
  | nil =>
      rcases walkLoop_cases h with ⟨rfl, _⟩ | ⟨_, _, _, _, _, _, hps, _⟩
      · rfl
      · cases hps
  | cons p ps ih =>
      rcases walkLoop_cases h with ⟨_, hps⟩ | ⟨_, _, _, _, _, _, hps, _, hrest⟩
      · cases hps
      · obtain ⟨rfl, rfl⟩ := List.cons.inj hps
        have hle := ioSize_le p remaining
        rw [bytesOf, List.length_append, List.length_range', ih hrest]
        omega

theorem gatherPrps_of_walkLoop
    (h : walkLoop pfnValid dptr host fuel remaining cursor = .ok ps)
    (hroom : cursor.prpOffs + ps.length ≤ 512) (list : Nat → Nat) :
    ∃ list', gatherPrps pfnValid dptr host fuel remaining cursor list =
        .ok (list', cursor.prpOffs + ps.length) ∧ Holds list' (cursor.prpOffs + 1) ps ∧
      ∀ i, i ≤ cursor.prpOffs → list' i = list i := by
  induction fuel generalizing remaining cursor ps list with
  | zero =>
      rcases walkLoop_cases h with ⟨rfl, rfl⟩ | ⟨_, fuel', _, _, _, hfuel, _⟩
      · exact ⟨list, rfl, trivial, fun _ _ => rfl⟩
      · omega
  | succ fuel ih =>
      rcases walkLoop_cases h with
        ⟨rfl, rfl⟩ | ⟨hmore, _, paddr, cursor', ps', hfuel, rfl, hnext, hrest⟩
      · exact ⟨list, rfl, trivial, fun _ _ => rfl⟩
      · obtain rfl := Nat.succ.inj hfuel
        have hoffs := prpOffs_of_nextPaddr hnext
        rw [List.length_cons] at hroom
        obtain ⟨list', hgather, hholds, hkept⟩ := ih hrest (by omega)
          (Function.update list cursor'.prpOffs paddr)
        refine ⟨list', ?_, ⟨?_, ?_⟩, ?_⟩
        · rw [gatherPrps, if_neg hmore, hnext]
          refine (if_neg (by omega)).trans (hgather.trans ?_)
          rw [hoffs, List.length_cons, Nat.add_assoc, Nat.add_comm 1]
        · rw [← hoffs, hkept _ (Nat.le_refl _), Function.update_self]
        · rw [← hoffs]
          exact hholds
        · intro i hi
          rw [hkept i (by omega), Function.update_of_ne (by omega)]

end Pages

section Runs

def wrapRange (a n : Nat) : List Nat := (List.range' a n).map (· % 2 ^ 64)

variable {list : Nat → Nat} {numPrps : Nat}

theorem wrapRange_add (a m n : Nat) :
    wrapRange a (m + n) = wrapRange a m ++ wrapRange (a + m) n := by
  rw [wrapRange, ← List.range'_append_1, List.map_append]
  rfl

theorem wrapRange_congr {a b : Nat} (h : a % 2 ^ 64 = b % 2 ^ 64) (n : Nat) :
    wrapRange a n = wrapRange b n := by
  rw [wrapRange, wrapRange, List.range'_eq_map_range, List.range'_eq_map_range, List.map_map,
    List.map_map]
  refine List.map_congr_left fun i _ => ?_
  simp only [Function.comp_apply]
  rw [Nat.add_mod, h, ← Nat.add_mod]

theorem ioSize_aligned {p : Nat} (h : p % pageSize = 0) (remaining : Nat) :
    ioSize p remaining = min remaining pageSize := by
  rw [ioSize_eq, h, Nat.sub_zero]

theorem wrapRange_run {p q : Nat} (hq : q = (p + pageSize) % 2 ^ 64) (remaining n : Nat) :
    wrapRange (p + pageSize) (min remaining ((n + 1) * pageSize)) =
      wrapRange q (min remaining pageSize) ++
        wrapRange (q + pageSize) (min (remaining - min remaining pageSize) (n * pageSize)) := by
  have hmod : q % 2 ^ 64 = (p + pageSize) % 2 ^ 64 := by rw [hq, Nat.mod_mod]
  have hsize : min remaining ((n + 1) * pageSize) =
      min remaining pageSize + min (remaining - min remaining pageSize) (n * pageSize) := by
    rw [Nat.add_mul, Nat.one_mul]
    omega
  rw [hsize, wrapRange_add, wrapRange_congr hmod.symm]
  by_cases hlong : pageSize ≤ remaining
  · have hnext : (p + pageSize + pageSize) % 2 ^ 64 = (q + pageSize) % 2 ^ 64 := by
      rw [Nat.add_mod, ← hmod, ← Nat.add_mod]
    rw [Nat.min_eq_right hlong, wrapRange_congr hnext]
  · rw [Nat.min_eq_left (by omega), Nat.sub_self, Nat.zero_min]
    rfl

/-- The pages a run takes in are adjacent, so it starts at the front of a page. -/
theorem mergeRun_spec (fuel : Nat) {offs p : Nat} {ps : List Nat} (size : Nat) (hpos : 0 < offs)
    (hprev : list (offs - 1) = p) (hholds : Holds list offs ps)
    (hnum : offs + ps.length = numPrps + 1) (hfuel : ps.length ≤ fuel)
    (haligned : ∀ q ∈ ps, q % pageSize = 0) :
    ∃ n, n ≤ ps.length ∧ mergeRun list numPrps fuel offs size = (offs + n, size + n * pageSize) ∧
      (0 < n → p % pageSize = 0) ∧
      ∀ remaining, (bytesOf ps remaining).map (· % 2 ^ 64) =
        wrapRange (p + pageSize) (min remaining (n * pageSize)) ++
          (bytesOf (ps.drop n) (remaining - min remaining (n * pageSize))).map (· % 2 ^ 64) := by
  induction ps generalizing fuel offs p size with
  | nil =>
      refine ⟨0, Nat.le_refl 0, ?_, fun h => absurd h (Nat.lt_irrefl 0), fun remaining => ?_⟩
      · cases fuel with
        | zero => simp [mergeRun]
        | succ fuel =>
            rw [List.length_nil] at hnum
            rw [mergeRun, if_neg (by omega)]
            simp
      · simp [wrapRange, bytesOf]
  | cons q qs ih =>
      obtain ⟨fuel, rfl⟩ := Nat.exists_eq_succ_of_ne_zero
        (Nat.ne_of_gt (Nat.lt_of_lt_of_le (Nat.succ_pos _) hfuel))
      rw [List.length_cons] at hnum hfuel
      have hq := haligned q List.mem_cons_self
      rw [mergeRun, hholds.1, hprev]
      by_cases hadjacent : q = (p + pageSize) % 2 ^ 64
      · obtain ⟨n, hn, hrun, _, hbytes⟩ := ih fuel (p := q) (size + pageSize)
          (Nat.succ_pos offs) hholds.1 hholds.2 (by omega) (by omega)
          fun q' hq' => haligned q' (List.mem_cons_of_mem _ hq')
        refine ⟨n + 1, by rw [List.length_cons]; omega, ?_, fun _ => ?_, fun remaining => ?_⟩
        · rw [if_pos ⟨by omega, hadjacent⟩, hrun, Nat.add_mul, Nat.one_mul]
          congr 1 <;> omega
        · have hpage : pageSize = 4096 := rfl
          rw [hadjacent] at hq
          rw [hpage] at hq ⊢
          omega
        · rw [bytesOf, List.map_append, hbytes, ioSize_aligned hq, wrapRange_run hadjacent,
            List.drop_succ_cons, List.append_assoc]
          have hrest : remaining - min remaining pageSize -
              min (remaining - min remaining pageSize) (n * pageSize) =
              remaining - min remaining ((n + 1) * pageSize) := by
            rw [Nat.add_mul, Nat.one_mul]
            omega
          rw [hrest]
          rfl
      · refine ⟨0, Nat.zero_le _, ?_, fun h => absurd h (Nat.lt_irrefl 0), fun remaining => ?_⟩
        · rw [if_neg fun h => hadjacent h.2]
          simp
        · simp [wrapRange]

theorem bytesOf_run (remaining : Nat) {p n : Nat} {ps : List Nat} (hrun : 0 < n → p % pageSize = 0)
    (hbytes : ∀ r, (bytesOf ps r).map (· % 2 ^ 64) =
      wrapRange (p + pageSize) (min r (n * pageSize)) ++
        (bytesOf (ps.drop n) (r - min r (n * pageSize))).map (· % 2 ^ 64)) :
    (bytesOf (p :: ps) remaining).map (· % 2 ^ 64) =
      wrapRange p (min remaining (ioSize p remaining + n * pageSize)) ++
        (bytesOf (ps.drop n)
          (remaining - min remaining (ioSize p remaining + n * pageSize))).map (· % 2 ^ 64) := by
  have hle := ioSize_le p remaining
  have hsize : min remaining (ioSize p remaining + n * pageSize) =
      ioSize p remaining + min (remaining - ioSize p remaining) (n * pageSize) := by omega
  rw [bytesOf, List.map_append, hbytes, hsize, wrapRange_add, Nat.sub_add_eq,
    List.append_assoc]
  rcases Nat.eq_zero_or_pos n with rfl | hn
  · simp [wrapRange]
  · rw [ioSize_aligned (hrun hn)]
    by_cases hlong : pageSize ≤ remaining
    · rw [Nat.min_eq_right hlong]
      rfl
    · rw [Nat.min_eq_left (by omega), Nat.sub_self, Nat.zero_min]
      rfl

theorem drop_holds {offs : Nat} {ps : List Nat} (h : Holds list offs ps) (n : Nat) :
    Holds list (offs + n) (ps.drop n) := by
  induction n generalizing offs ps with
  | zero => exact h
  | succ n ih =>
      cases ps with
      | nil => exact trivial
      | cons p ps =>
          have hrest := ih h.2
          rwa [Nat.add_assoc, Nat.add_comm 1] at hrest

theorem submitLoop_pairs (dir : Direction) (storage : Nat) {fuel remaining offs : Nat}
    {ps : List Nat} (hpos : 0 < offs) (hholds : Holds list offs ps)
    (hnum : offs + ps.length = numPrps + 1)
    (hroom : numPrps ≤ 512) (haligned : ∀ q ∈ ps.tail, q % pageSize = 0)
    (hcover : (bytesOf ps remaining).length = remaining) (hfuel : remaining ≤ fuel) :
    ∃ copies, submitLoop dir list numPrps fuel remaining offs storage = .ok copies ∧
      copies.flatMap Copy.pairs = pairUp dir storage (bytesOf ps remaining) := by
  induction fuel generalizing remaining offs storage ps with
  | zero =>
      obtain rfl : remaining = 0 := by omega
      refine ⟨[], rfl, ?_⟩
      rw [List.length_eq_zero_iff.1 hcover, pairUp_nil]
      rfl
  | succ fuel ih =>
      rw [submitLoop]
      by_cases hdone : remaining = 0
      · subst hdone
        refine ⟨[], if_pos rfl, ?_⟩
        rw [List.length_eq_zero_iff.1 hcover, pairUp_nil]
        rfl
      · cases ps with
        | nil => exact absurd hcover.symm hdone
        | cons p ps =>
            rw [List.length_cons] at hnum
            obtain ⟨n, hn, hrun, hstart, hbytes⟩ := mergeRun_spec numPrps
              (ioSize p remaining) (Nat.succ_pos offs) hholds.1 hholds.2
              (show offs + 1 + ps.length = numPrps + 1 by omega) (by omega) haligned
            obtain ⟨size, hsize⟩ : ∃ size, size =
                min remaining (ioSize p remaining + n * pageSize) := ⟨_, rfl⟩
            have hall := bytesOf_run remaining hstart hbytes
            rw [← hsize] at hall
            have hpositive : 0 < size := by
              have hmod := Nat.mod_lt p (show 0 < pageSize by decide)
              have hio := ioSize_eq p remaining
              omega
            have hrest : (bytesOf (ps.drop n) (remaining - size)).length = remaining - size := by
              have hlength := congrArg List.length hall
              rw [List.length_map, hcover, List.length_append, List.length_map, wrapRange,
                List.length_map, List.length_range'] at hlength
              omega
            obtain ⟨copies, hcopies, hpairs⟩ := ih (storage + size)
              (show 0 < offs + 1 + n by omega) (drop_holds hholds.2 n)
              (by rw [List.length_drop]; omega)
              (fun q hq => haligned q (List.mem_of_mem_drop (List.mem_of_mem_tail hq)))
              hrest (by omega)
            have hlist : pairUp dir storage (bytesOf (p :: ps) remaining) =
                pairUp dir storage (List.range' p size ++
                  bytesOf (ps.drop n) (remaining - size)) := by
              refine pairUp_congr dir storage ?_
              rw [hall, List.map_append]
              rfl
            refine ⟨copyOf dir storage p size ++ copies, ?_, ?_⟩
            · rw [if_neg hdone, if_neg (by omega), hholds.1]
              dsimp only
              rw [hrun, ← hsize, hcopies]
              rfl
            · rw [List.flatMap_append, pairs_copyOf, hpairs, hlist, pairUp_append,
                List.length_range']

end Runs

section Layout

variable (pfnValid : Nat → Bool) (dptr : DataPtr)

/-- The number of pages that `length` bytes from `prp1` on lie in. -/
def prpCount (length : Nat) : Nat := (dptr.prp1 % pageSize + length + pageSize - 1) / pageSize

/-- Page `k` of the command: `prp2` is the second page of two, else the list of
all pages after the first. -/
def prpEntry (host : Memory) (length : Nat) : Nat → Nat
  | 0 => dptr.prp1
  | k + 1 => if prpCount dptr length ≤ 2 then dptr.prp2 else readU64 host (dptr.prp2 + 8 * k)

structure PagesConform (host : Memory) (length : Nat) : Prop where
  count_le : prpCount dptr length ≤ 512
  aligned : ∀ k, 0 < k → k < prpCount dptr length → prpEntry dptr host length k % pageSize = 0
  valid : ∀ k, k < prpCount dptr length →
    pfnValid (prpEntry dptr host length k / pageSize) = true
  listValid : 2 < prpCount dptr length → pfnValid (dptr.prp2 / pageSize) = true

/-- What is read does not land on the list of its own pages either. -/
structure Conformant (dir : Direction) (host : Memory) (length : Nat) : Prop
    extends PagesConform pfnValid dptr host length where
  apart : dir = .toHost → ∀ addrs cells,
    hostBuffer pfnValid dptr host length = .ok (addrs, cells) →
    ∀ cell ∈ cells, ∀ i < 8, cell + i ∉ addrs

variable {pfnValid dptr} {dir : Direction} {host : Memory} {length : Nat}

/-- The bytes that the pages from `k` on hold. -/
def restFrom (dptr : DataPtr) (length k : Nat) : Nat :=
  dptr.prp1 % pageSize + length - pageSize * k

theorem prpCount_le_iff (length k : Nat) :
    prpCount dptr length ≤ k ↔ dptr.prp1 % pageSize + length ≤ pageSize * k := by
  rw [prpCount, pageSize]
  omega

theorem restFrom_eq_zero (length k : Nat) :
    restFrom dptr length k = 0 ↔ prpCount dptr length ≤ k := by
  rw [prpCount_le_iff, restFrom]
  omega

theorem restFrom_gt_page (length k : Nat) :
    pageSize < restFrom dptr length k ↔ k + 1 < prpCount dptr length := by
  rw [← Nat.not_le, ← Nat.not_le, not_iff_not, prpCount_le_iff, restFrom, Nat.mul_add,
    Nat.mul_one]
  omega

theorem restFrom_succ (dptr : DataPtr) (length k : Nat) :
    restFrom dptr length k - min (restFrom dptr length k) pageSize =
      restFrom dptr length (k + 1) := by
  rw [restFrom, restFrom, Nat.mul_add, Nat.mul_one]
  omega

theorem restFrom_one {length : Nat} :
    length - ioSize dptr.prp1 length = restFrom dptr length 1 := by
  have hmod := Nat.mod_lt dptr.prp1 (show 0 < pageSize by decide)
  rw [ioSize_eq, restFrom, Nat.mul_one]
  omega

/-- The entries of the layout from page `k` on. -/
def entriesFrom (dptr : DataPtr) (host : Memory) (length k : Nat) : List Nat :=
  (List.range' k (prpCount dptr length - k)).map (prpEntry dptr host length)

theorem entriesFrom_nil {k : Nat} (h : prpCount dptr length ≤ k) :
    entriesFrom dptr host length k = [] := by
  rw [entriesFrom, Nat.sub_eq_zero_of_le h]
  rfl

theorem entriesFrom_cons {k : Nat} (h : k < prpCount dptr length) :
    entriesFrom dptr host length k =
      prpEntry dptr host length k :: entriesFrom dptr host length (k + 1) := by
  have hcount : prpCount dptr length - k = prpCount dptr length - (k + 1) + 1 := by omega
  rw [entriesFrom, hcount, List.range'_succ, List.map_cons]
  rfl

theorem walkLoop_done {fuel : Nat} (cursor : PrpCursor) :
    walkLoop pfnValid dptr host fuel 0 cursor = .ok [] := by
  cases fuel <;> rfl

theorem walkLoop_round {fuel k : Nat} {cursor cursor' : PrpCursor}
    (h : Conformant pfnValid dptr dir host length) (hk : 0 < k)
    (hlt : k < prpCount dptr length)
    (hnext : nextPaddr pfnValid dptr host (restFrom dptr length k) cursor =
      .ok (prpEntry dptr host length k, cursor'))
    (hrest : walkLoop pfnValid dptr host fuel (restFrom dptr length (k + 1)) cursor' =
      .ok (entriesFrom dptr host length (k + 1))) :
    walkLoop pfnValid dptr host (fuel + 1) (restFrom dptr length k) cursor =
      .ok (entriesFrom dptr host length k) := by
  have hmore : restFrom dptr length k ≠ 0 := by
    rw [Ne, restFrom_eq_zero, Nat.not_le]
    exact hlt
  rw [entriesFrom_cons hlt]
  refine walkLoop_cons hmore hnext ?_
  rw [ioSize_aligned (h.aligned k hk hlt), restFrom_succ]
  exact hrest

theorem entry_valid (h : Conformant pfnValid dptr dir host length) :
    ∀ p ∈ entriesFrom dptr host length 0, pfnValid (p / pageSize) = true := by
  intro p hp
  obtain ⟨k, hk, rfl⟩ := List.mem_map.1 hp
  rw [List.mem_range'_1] at hk
  exact h.valid k (by omega)

theorem entry_aligned (h : Conformant pfnValid dptr dir host length) :
    ∀ q ∈ (entriesFrom dptr host length 0).tail, q % pageSize = 0 := by
  intro q hq
  by_cases hcount : 0 < prpCount dptr length
  · rw [entriesFrom_cons hcount, List.tail_cons] at hq
    obtain ⟨k, hk, rfl⟩ := List.mem_map.1 hq
    rw [List.mem_range'_1] at hk
    exact h.aligned k (by omega) (by omega)
  · rw [entriesFrom_nil (Nat.not_lt.1 hcount)] at hq
    exact absurd hq List.not_mem_nil

theorem walkLoop_later {fuel j : Nat} (h : Conformant pfnValid dptr dir host length)
    (hlist : 2 < prpCount dptr length) (hj : 0 < j)
    (hfuel : restFrom dptr length (j + 1) ≤ fuel) :
    walkLoop pfnValid dptr host fuel (restFrom dptr length (j + 1))
        ⟨j + 1, j, some (listAddr pfnValid dptr.prp2)⟩ =
      .ok (entriesFrom dptr host length (j + 1)) := by
  induction fuel generalizing j with
  | zero =>
      have hzero : restFrom dptr length (j + 1) = 0 := by omega
      rw [hzero, entriesFrom_nil ((restFrom_eq_zero length (j + 1)).1 hzero)]
      rfl
  | succ fuel ih =>
      by_cases hend : prpCount dptr length ≤ j + 1
      · rw [(restFrom_eq_zero length (j + 1)).2 hend, entriesFrom_nil hend]
        rfl
      · have hlt := Nat.not_le.1 hend
        have hentry : readU64 host (listAddr pfnValid dptr.prp2 + 8 * j) =
            prpEntry dptr host length (j + 1) := by
          rw [prpEntry, if_neg (by omega), listAddr, if_pos (h.listValid hlist)]
        have hstep := restFrom_succ dptr length (j + 1)
        have hpage : 0 < pageSize := by decide
        have hmore : restFrom dptr length (j + 1) ≠ 0 := by
          rwa [Ne, restFrom_eq_zero]
        refine walkLoop_round h (Nat.succ_pos j) hlt ?_ (ih (Nat.succ_pos j) (by omega))
        rw [nextPaddr_later (show 2 ≤ j + 1 by omega)]
        dsimp only
        rw [hentry]

theorem walkLoop_conformant (h : Conformant pfnValid dptr dir host length) (hpos : 0 < length) :
    walkLoop pfnValid dptr host length length .start =
      .ok (entriesFrom dptr host length 0) := by
  obtain ⟨fuel, rfl⟩ := Nat.exists_eq_add_one_of_ne_zero (Nat.ne_of_gt hpos)
  have hcount : 0 < prpCount dptr (fuel + 1) := by
    rw [← Nat.not_le, prpCount_le_iff]
    omega
  rw [entriesFrom_cons hcount]
  refine walkLoop_cons (Nat.succ_ne_zero fuel) (nextPaddr_first rfl) ?_
  change walkLoop pfnValid dptr host fuel (fuel + 1 - ioSize dptr.prp1 (fuel + 1)) _ = _
  rw [restFrom_one]
  have hsize : restFrom dptr (fuel + 1) 1 ≤ fuel := by
    have hmod := Nat.mod_lt dptr.prp1 (show 0 < pageSize by decide)
    rw [restFrom, Nat.mul_one]
    omega
  by_cases hone : prpCount dptr (fuel + 1) ≤ 1
  · rw [(restFrom_eq_zero _ 1).2 hone, entriesFrom_nil hone]
    exact walkLoop_done _
  · have hmore : restFrom dptr (fuel + 1) 1 ≠ 0 := by
      rwa [Ne, restFrom_eq_zero]
    obtain ⟨fuel', rfl⟩ := Nat.exists_eq_add_one_of_ne_zero (show fuel ≠ 0 by omega)
    have hstep := restFrom_succ dptr (fuel' + 1 + 1) 1
    have hpage : 0 < pageSize := by decide
    by_cases hlist : 2 < prpCount dptr (fuel' + 1 + 1)
    · have hlong := (restFrom_gt_page (fuel' + 1 + 1) 1).2 hlist
      refine walkLoop_round h Nat.zero_lt_one (by omega) ?_
        (walkLoop_later h hlist Nat.zero_lt_one (by omega))
      rw [nextPaddr_second rfl, if_pos hlong, prpEntry, if_neg (by omega), listAddr,
        if_pos (h.listValid hlist)]
      rfl
    · have hshort : ¬pageSize < restFrom dptr (fuel' + 1 + 1) 1 := by
        rw [restFrom_gt_page]
        exact hlist
      have hend : prpCount dptr (fuel' + 1 + 1) ≤ 1 + 1 := Nat.not_lt.1 hlist
      have hdone : walkLoop pfnValid dptr host fuel' (restFrom dptr (fuel' + 1 + 1) (1 + 1))
          { PrpCursor.start with prpOffs := 2 } =
          .ok (entriesFrom dptr host (fuel' + 1 + 1) (1 + 1)) := by
        rw [(restFrom_eq_zero _ (1 + 1)).2 hend, entriesFrom_nil hend]
        exact walkLoop_done _
      refine walkLoop_round h Nat.zero_lt_one (by omega) ?_ hdone
      rw [nextPaddr_second rfl, if_neg hshort, prpEntry, if_pos hend]

/-- The byte of the storage in a pair of source and destination. -/
def storageSide (dir : Direction) (p : Nat × Nat) : Nat :=
  match dir with
  | .toHost => p.1
  | _ => p.2

theorem pairUp_storage (hdir : dir ≠ .neither) (storage : Nat) (addrs : List Nat) :
    (pairUp dir storage addrs).map (storageSide dir) = wrapRange storage addrs.length := by
  have hrange : (List.range' storage addrs.length).length = addrs.length := List.length_range'
  have hsnd : (addrs.zip (List.range' storage addrs.length)).map Prod.snd =
      List.range' storage addrs.length := List.map_snd_zip (Nat.le_of_eq hrange)
  have hfst : ((List.range' storage addrs.length).zip addrs).map Prod.fst =
      List.range' storage addrs.length := List.map_fst_zip (Nat.le_of_eq hrange)
  cases dir with
  | neither => exact absurd rfl hdir
  | toDevice =>
      change ((addrs.zip (List.range' storage addrs.length)).map wrapPair).map Prod.snd =
        (List.range' storage addrs.length).map (· % 2 ^ 64)
      rw [← hsnd, List.map_map, List.map_map, hsnd]
      rfl
  | toHost =>
      change (((List.range' storage addrs.length).zip addrs).map wrapPair).map Prod.fst =
        (List.range' storage addrs.length).map (· % 2 ^ 64)
      rw [← hfst, List.map_map, List.map_map, hfst]
      rfl

/-- `__cmd_io_offset`. -/
def cmdIoOffset (slba : Nat) : Nat := slba * 512 % 2 ^ 64

/-- `__cmd_io_size`. -/
def cmdIoSize (length : Nat) : Nat := (length + 1) * 512

/-- Whatever runs of pages the DMA path merges, it pairs each byte of the
storage with the same byte of the host as `__do_perform_io` does. -/
theorem dma_pairs_as_memcpy (storageStart slba length : Nat) (device : Memory)
    (hdir : dir ≠ .neither) (h : Conformant pfnValid dptr dir host (cmdIoSize length)) :
    ∃ t copies submitted,
      tracedLoop pfnValid dptr dir storageStart (cmdIoSize length)
          ⟨host, device, cmdIoOffset slba, cmdIoSize length, .start⟩ = .ok (t, copies) ∧
      performIo pfnValid dptr dir host device (cmdIoOffset slba) (cmdIoSize length) =
        .ok (t.host, t.device) ∧
      performIoUsingDma pfnValid dptr dir host (storageStart + cmdIoOffset slba)
          (cmdIoSize length) = .ok submitted ∧
      submitted.flatMap Copy.pairs = copies.flatMap Copy.pairs ∧
      (submitted.flatMap Copy.pairs).map (storageSide dir) =
        wrapRange (storageStart + cmdIoOffset slba) (cmdIoSize length) := by
  have hpos : 0 < cmdIoSize length := Nat.mul_pos (Nat.succ_pos length) (by decide)
  generalize cmdIoSize length = n at *
  have hwalk := walkLoop_conformant h hpos
  have hcount : (entriesFrom dptr host n 0).length = prpCount dptr n := by
    rw [entriesFrom, List.length_map, List.length_range', Nat.sub_zero]
  have hroom := h.count_le
  have hcover := bytesOf_length hwalk
  obtain ⟨cells, hbuffer⟩ := bufferLoop_of_walkLoop hwalk (entry_valid h)
  obtain ⟨t, copies, htraced, hpairs⟩ := tracedLoop_pairs storageStart
    (t := ⟨host, device, cmdIoOffset slba, n, .start⟩) hbuffer
    fun hread => h.apart hread _ cells hbuffer
  obtain ⟨list, hgather, hholds, _⟩ := gatherPrps_of_walkLoop hwalk
    (show 0 + (entriesFrom dptr host n 0).length ≤ 512 by omega) fun _ => 0
  obtain ⟨submitted, hsubmit, hsubmitted⟩ := submitLoop_pairs dir
    (storageStart + cmdIoOffset slba) Nat.zero_lt_one hholds
    (show 1 + (entriesFrom dptr host n 0).length = 0 + (entriesFrom dptr host n 0).length + 1
      by omega)
    (by omega) (entry_aligned h) hcover (Nat.le_refl n)
  refine ⟨t, copies, submitted, htraced, ?_, ?_, ?_, ?_⟩
  · rw [performIo, ← tracedLoop_forget, htraced]
    rfl
  · rw [performIoUsingDma, hgather]
    exact hsubmit
  · rw [hsubmitted, hpairs]
  · rw [hsubmitted, pairUp_storage hdir, hcover]

end Layout

section Example

/-- A host whose memory holds, at address 32768, a list of four pages that lie
in two runs. -/
def hostWithList : Memory := fun a =>
  if 32768 ≤ a then
    UInt8.ofNat ([131072, 135168, 262144, 266240].getD ((a - 32768) / 8) 0 /
      256 ^ ((a - 32768) % 8))
  else 0

def threePages : DataPtr := { prp1 := 69120, prp2 := 32768 }

theorem threePages_conformant :
    Conformant (fun _ => true) threePages .toHost hostWithList (cmdIoSize 9) where
  count_le := by decide
  aligned k hpos hlt := by
    have hall : ∀ k, k < prpCount threePages (cmdIoSize 9) → 0 < k →
        prpEntry threePages hostWithList (cmdIoSize 9) k % pageSize = 0 := by decide +kernel
    exact hall k hlt hpos
  valid _ _ := rfl
  listValid _ := rfl
  apart _ addrs cells hbuffer cell hcell i hi := by
    have hall : returns (hostBuffer (fun _ => true) threePages hostWithList (cmdIoSize 9))
        (fun buffer => (buffer.1.all fun a => decide (65536 ≤ a)) &&
          buffer.2.all fun cell => decide (cell + 8 ≤ 65536)) = true := by decide +kernel
    rw [hbuffer] at hall
    obtain ⟨haddrs, hcells⟩ := (Bool.and_eq_true _ _).mp hall
    have hbelow : cell + 8 ≤ 65536 := of_decide_eq_true (List.all_eq_true.1 hcells cell hcell)
    intro hmem
    have habove : 65536 ≤ cell + i := of_decide_eq_true (List.all_eq_true.1 haddrs _ hmem)
    omega

theorem dma_pairs_as_memcpy_three : ∃ t copies,
    tracedLoop (fun _ => true) threePages .toHost 1048576 (cmdIoSize 9)
        ⟨hostWithList, fun _ => 7, cmdIoOffset 8, cmdIoSize 9, .start⟩ = .ok (t, copies) ∧
      copies.flatMap Copy.pairs = [⟨1052672, 69120, 512⟩, ⟨1053184, 131072, 4608⟩].flatMap
        Copy.pairs := by
  obtain ⟨t, copies, submitted, htraced, _, hsubmitted, hpairs, _⟩ :=
    dma_pairs_as_memcpy 1048576 8 9 (fun _ => 7) (by decide) threePages_conformant
  have hmerged : returns (performIoUsingDma (fun _ => true) threePages .toHost hostWithList
      (1048576 + cmdIoOffset 8) (cmdIoSize 9)) (fun copies => copies ==
        [⟨1052672, 69120, 512⟩, ⟨1053184, 131072, 4608⟩]) = true := by
    decide +kernel
  rw [hsubmitted] at hmerged
  exact ⟨t, copies, htraced, hpairs.symm.trans (by rw [beq_iff_eq.1 hmerged])⟩

def listAsPage : DataPtr := { prp1 := 32768, prp2 := 32768 }

/-- `__do_perform_io` finds zeros where the list was, `__do_perform_io_using_dma` has
gathered the pages before. -/
theorem overwritten_list_misleads :
    PagesConform (fun _ => true) listAsPage hostWithList (cmdIoSize 23) ∧
      ∃ t copies submitted,
        tracedLoop (fun _ => true) listAsPage .toHost 1048576 (cmdIoSize 23)
            ⟨hostWithList, fun _ => 0, cmdIoOffset 0, cmdIoSize 23, .start⟩ = .ok (t, copies) ∧
          performIoUsingDma (fun _ => true) listAsPage .toHost hostWithList
              (1048576 + cmdIoOffset 0) (cmdIoSize 23) = .ok submitted ∧
          copies = [⟨1048576, 32768, 4096⟩, ⟨1052672, 0, 4096⟩, ⟨1056768, 0, 4096⟩] ∧
          submitted = [⟨1048576, 32768, 4096⟩, ⟨1052672, 131072, 8192⟩] ∧
          submitted.flatMap Copy.pairs ≠ copies.flatMap Copy.pairs := by
  refine ⟨⟨by decide, ?_, fun _ _ => rfl, fun _ => rfl⟩, ?_⟩
  · have hall : ∀ k, k < prpCount listAsPage (cmdIoSize 23) → 0 < k →
        prpEntry listAsPage hostWithList (cmdIoSize 23) k % pageSize = 0 := by decide +kernel
    exact fun k hpos hlt => hall k hlt hpos
  · obtain ⟨⟨t, copies⟩, htraced, hcopies⟩ := exists_of_returns
      (x := tracedLoop (fun _ => true) listAsPage .toHost 1048576 (cmdIoSize 23)
        ⟨hostWithList, fun _ => 0, cmdIoOffset 0, cmdIoSize 23, .start⟩)
      (p := fun r => r.2 ==
        [⟨1048576, 32768, 4096⟩, ⟨1052672, 0, 4096⟩, ⟨1056768, 0, 4096⟩]) (by decide +kernel)
    obtain ⟨submitted, hdma, hsubmitted⟩ := exists_of_returns
      (x := performIoUsingDma (fun _ => true) listAsPage .toHost hostWithList
        (1048576 + cmdIoOffset 0) (cmdIoSize 23))
      (p := fun copies => copies == [⟨1048576, 32768, 4096⟩, ⟨1052672, 131072, 8192⟩])
      (by decide +kernel)
    have hcopies : copies = _ := beq_iff_eq.1 hcopies
    have hsubmitted : submitted = _ := beq_iff_eq.1 hsubmitted
    refine ⟨t, copies, submitted, htraced, hdma, hcopies, hsubmitted, ?_⟩
    -- the first byte of the second page goes to another place
    intro hsame
    rw [hcopies, hsubmitted, List.flatMap_cons, List.flatMap_cons] at hsame
    have hbyte := congrArg List.head? (List.append_cancel_left hsame)
    revert hbyte
    decide +kernel

end Example

end NvmeVirt.DmaTransfer
