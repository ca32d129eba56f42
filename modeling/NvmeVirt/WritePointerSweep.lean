import Mathlib.Tactic.Ring
import NvmeVirt.ConvLineAccounting

namespace NvmeVirt.WritePointerSweep

open FaultOutcome
open FlashGeometry
open PriorityQueue
open ConventionalFtl
open ConvLineAccounting
open StatusCounts
open WriteBuffer

theorem mod_succ_ne {x b : Nat} (hb : 0 < b) (h : (x + 1) % b ≠ 0) : x % b + 1 ≠ b := by
  have hmod := (succ_of_mod_ne_zero h).2
  have hlt := Nat.mod_lt (x + 1) hb
  omega

theorem carry_of_eq_mul {x b n : Nat} (hb : 0 < b) (h : x + 1 = b * n) :
    x % b + 1 = b ∧ x / b + 1 = n := by
  have hmod : (x + 1) % b = 0 := by rw [h, Nat.mul_mod_right]
  obtain ⟨hnext, hlast, -, -⟩ := succ_of_mod_eq_zero hb hmod
  refine ⟨hlast, ?_⟩
  rw [← hnext, h, Nat.mul_div_cancel_left _ hb]

/-- A write pointer at the beginning of a line, as `prepare_write_pointer` leaves it. -/
def freshPointer (line blk : Nat) : WritePointer :=
  { curline := line, ch := 0, lun := 0, pg := 0, blk := blk, pl := 0 }

/-- The write pointer after `k` pages of the line. -/
def position (spp : SsdParams) (line blk k : Nat) : WritePointer :=
  let oneshot := k / spp.pgsPerOneshotpg
  { curline := line
    ch := oneshot % spp.nchs
    lun := oneshot / spp.nchs % spp.lunsPerCh
    pg := oneshot / spp.nchs / spp.lunsPerCh * spp.pgsPerOneshotpg +
      k % spp.pgsPerOneshotpg
    blk := blk
    pl := 0 }

theorem position_zero (spp : SsdParams) (line blk : Nat) :
    position spp line blk 0 = freshPointer line blk := by
  simp [position, freshPointer]

section Advance

variable {spp : SsdParams} {io : IoType} {s : ConvFtl}

/-! The branches of `advance_write_pointer`. -/

theorem advance_page (hpg : (s.getWp io).pg < spp.pgsPerBlk)
    (hmod : ((s.getWp io).pg + 1) % spp.pgsPerOneshotpg ≠ 0) :
    advanceWritePointer spp io s =
      .ok (s.setWp io { s.getWp io with pg := (s.getWp io).pg + 1 }) := by
  simp only [advanceWritePointer, nvmevAssert_of hpg, ok_bind, if_pos hmod]
  rfl

theorem advance_channel (hpg : (s.getWp io).pg < spp.pgsPerBlk)
    (hmod : ((s.getWp io).pg + 1) % spp.pgsPerOneshotpg = 0)
    (hch : (s.getWp io).ch < spp.nchs) (hne : (s.getWp io).ch + 1 ≠ spp.nchs) :
    advanceWritePointer spp io s =
      .ok (s.setWp io { s.getWp io with
        pg := (s.getWp io).pg + 1 - spp.pgsPerOneshotpg
        ch := (s.getWp io).ch + 1 }) := by
  simp only [advanceWritePointer, nvmevAssert_of hpg, nvmevAssert_of hch, ok_bind,
    if_neg (not_not.2 hmod), if_pos hne]
  rfl

theorem advance_lun (hpg : (s.getWp io).pg < spp.pgsPerBlk)
    (hmod : ((s.getWp io).pg + 1) % spp.pgsPerOneshotpg = 0)
    (hch : (s.getWp io).ch < spp.nchs) (hlast : (s.getWp io).ch + 1 = spp.nchs)
    (hlun : (s.getWp io).lun < spp.lunsPerCh)
    (hne : (s.getWp io).lun + 1 ≠ spp.lunsPerCh) :
    advanceWritePointer spp io s =
      .ok (s.setWp io { s.getWp io with
        pg := (s.getWp io).pg + 1 - spp.pgsPerOneshotpg
        ch := 0
        lun := (s.getWp io).lun + 1 }) := by
  simp only [advanceWritePointer, nvmevAssert_of hpg, nvmevAssert_of hch, nvmevAssert_of hlun,
    ok_bind, if_neg (not_not.2 hmod), if_neg (not_not.2 hlast), if_pos hne]
  rfl

theorem advance_wordline (hpg : (s.getWp io).pg < spp.pgsPerBlk)
    (hmod : ((s.getWp io).pg + 1) % spp.pgsPerOneshotpg = 0)
    (hch : (s.getWp io).ch < spp.nchs) (hlast : (s.getWp io).ch + 1 = spp.nchs)
    (hlun : (s.getWp io).lun < spp.lunsPerCh)
    (hlastLun : (s.getWp io).lun + 1 = spp.lunsPerCh) :
    advanceWritePointer spp io s =
      if (s.getWp io).pg + 1 ≠ spp.pgsPerBlk then
        .ok (s.setWp io { s.getWp io with pg := (s.getWp io).pg + 1, ch := 0, lun := 0 })
      else closeLine spp io { s.getWp io with pg := 0, ch := 0, lun := 0 } s := by
  have hword : (s.getWp io).pg + 1 - spp.pgsPerOneshotpg + spp.pgsPerOneshotpg =
      (s.getWp io).pg + 1 := by
    have hle := Nat.le_of_dvd (by omega) (Nat.dvd_of_mod_eq_zero hmod)
    omega
  simp only [advanceWritePointer, nvmevAssert_of hpg, nvmevAssert_of hch, nvmevAssert_of hlun,
    ok_bind, if_neg (not_not.2 hmod), if_neg (not_not.2 hlast), if_neg (not_not.2 hlastLun),
    hword]
  rfl

end Advance

section Position

variable {spp : SsdParams} {io : IoType} {s : ConvFtl} {line blk k : Nat}

theorem pgsPerLine_eq (hone : spp.pgsPerBlk = spp.pgsPerOneshotpg * spp.oneshotpgsPerBlk) :
    spp.pgsPerLine =
      spp.pgsPerOneshotpg * (spp.nchs * (spp.lunsPerCh * spp.oneshotpgsPerBlk)) := by
  rw [SsdParams.pgsPerLine, SsdParams.blksPerLine, SsdParams.ttLuns, hone]
  ring

structure Counts (spp : SsdParams) : Prop where
  oneshot_pos : 0 < spp.pgsPerOneshotpg
  nchs_pos : 0 < spp.nchs
  luns_pos : 0 < spp.lunsPerCh

theorem counts_of_lt (hone : spp.pgsPerBlk = spp.pgsPerOneshotpg * spp.oneshotpgsPerBlk)
    (hk : k < spp.pgsPerLine) : Counts spp := by
  have hpos : 0 < spp.pgsPerLine := by omega
  rw [pgsPerLine_eq hone] at hpos
  have hrest := Nat.pos_of_mul_pos_left hpos
  exact ⟨Nat.pos_of_mul_pos_right hpos, Nat.pos_of_mul_pos_right hrest,
    Nat.pos_of_mul_pos_right (Nat.pos_of_mul_pos_left hrest)⟩

theorem wordline_lt (hone : spp.pgsPerBlk = spp.pgsPerOneshotpg * spp.oneshotpgsPerBlk)
    (hk : k < spp.pgsPerLine) :
    k / spp.pgsPerOneshotpg / spp.nchs / spp.lunsPerCh < spp.oneshotpgsPerBlk := by
  rw [pgsPerLine_eq hone] at hk
  exact Nat.div_lt_of_lt_mul (Nat.div_lt_of_lt_mul (Nat.div_lt_of_lt_mul hk))

theorem position_pg_lt (line blk : Nat)
    (hone : spp.pgsPerBlk = spp.pgsPerOneshotpg * spp.oneshotpgsPerBlk)
    (hk : k < spp.pgsPerLine) : (position spp line blk k).pg < spp.pgsPerBlk := by
  rw [hone]
  exact digits_lt (wordline_lt hone hk) (Nat.mod_lt k (counts_of_lt hone hk).oneshot_pos)

theorem position_ch_lt (line blk k : Nat) (h : Counts spp) :
    (position spp line blk k).ch < spp.nchs :=
  Nat.mod_lt _ h.nchs_pos

theorem position_lun_lt (line blk k : Nat) (h : Counts spp) :
    (position spp line blk k).lun < spp.lunsPerCh :=
  Nat.mod_lt _ h.luns_pos

theorem position_pg_succ_mod (line blk k : Nat) :
    ((position spp line blk k).pg + 1) % spp.pgsPerOneshotpg =
      (k + 1) % spp.pgsPerOneshotpg := by
  simp only [position]
  rw [Nat.add_assoc, Nat.mul_comm, Nat.mul_add_mod, Nat.mod_add_mod]

theorem position_pg_succ (line blk : Nat)
    (hlast : k % spp.pgsPerOneshotpg + 1 = spp.pgsPerOneshotpg) :
    (position spp line blk k).pg + 1 =
      (k / spp.pgsPerOneshotpg / spp.nchs / spp.lunsPerCh + 1) * spp.pgsPerOneshotpg := by
  simp only [position]
  rw [Nat.add_mul, Nat.one_mul, Nat.add_assoc, hlast]

theorem advance_position
    (hone : spp.pgsPerBlk = spp.pgsPerOneshotpg * spp.oneshotpgsPerBlk)
    (hk : k + 1 < spp.pgsPerLine) (hwp : s.getWp io = position spp line blk k) :
    advanceWritePointer spp io s = .ok (s.setWp io (position spp line blk (k + 1))) := by
  have hlt : k < spp.pgsPerLine := by omega
  have hcounts := counts_of_lt hone hlt
  have hpg := hwp.symm ▸ position_pg_lt line blk hone hlt
  have hch := hwp.symm ▸ position_ch_lt line blk k hcounts
  have hlun := hwp.symm ▸ position_lun_lt line blk k hcounts
  have hmod := hwp.symm ▸ position_pg_succ_mod line blk k
  by_cases hend : (k + 1) % spp.pgsPerOneshotpg = 0
  · obtain ⟨hnext, hlast, -, -⟩ := succ_of_mod_eq_zero hcounts.oneshot_pos hend
    have hword := position_pg_succ line blk hlast
    have hback : (position spp line blk k).pg + 1 - spp.pgsPerOneshotpg =
        k / spp.pgsPerOneshotpg / spp.nchs / spp.lunsPerCh * spp.pgsPerOneshotpg := by
      rw [hword, Nat.add_mul, Nat.one_mul, Nat.add_sub_cancel]
    by_cases hendCh : (k / spp.pgsPerOneshotpg + 1) % spp.nchs = 0
    · obtain ⟨hnextCh, hlastCh, -, -⟩ := succ_of_mod_eq_zero hcounts.nchs_pos hendCh
      have hchEnd : (s.getWp io).ch + 1 = spp.nchs := hwp.symm ▸ hlastCh
      by_cases hendLun : (k / spp.pgsPerOneshotpg / spp.nchs + 1) % spp.lunsPerCh = 0
      · obtain ⟨hnextLun, hlastLun, -, -⟩ := succ_of_mod_eq_zero hcounts.luns_pos hendLun
        have hlunEnd : (s.getWp io).lun + 1 = spp.lunsPerCh := hwp.symm ▸ hlastLun
        have hmore : (s.getWp io).pg + 1 ≠ spp.pgsPerBlk := by
          have hlt := wordline_lt hone hk
          rw [hnext, hnextCh, hnextLun] at hlt
          rw [hwp, hword, hone, Nat.mul_comm]
          exact fun heq => hlt.ne (Nat.eq_of_mul_eq_mul_left hcounts.oneshot_pos heq)
        rw [advance_wordline hpg (hmod.trans hend) hch hchEnd hlun hlunEnd, if_pos hmore, hwp,
          hword]
        simp only [position, hend, hnext, hendCh, hnextCh, hendLun, hnextLun, Nat.add_zero]
      · obtain ⟨hnextLun, hrestLun⟩ := succ_of_mod_ne_zero hendLun
        have hlunNext : (s.getWp io).lun + 1 ≠ spp.lunsPerCh :=
          hwp.symm ▸ mod_succ_ne hcounts.luns_pos hendLun
        rw [advance_lun hpg (hmod.trans hend) hch hchEnd hlun hlunNext, hwp, hback]
        simp only [position, hend, hnext, hendCh, hnextCh, hrestLun, hnextLun, Nat.add_zero]
    · obtain ⟨hnextCh, hrestCh⟩ := succ_of_mod_ne_zero hendCh
      have hchNext : (s.getWp io).ch + 1 ≠ spp.nchs :=
        hwp.symm ▸ mod_succ_ne hcounts.nchs_pos hendCh
      rw [advance_channel hpg (hmod.trans hend) hch hchNext, hwp, hback]
      simp only [position, hend, hnext, hrestCh, hnextCh, Nat.add_zero]
  · obtain ⟨hnext, hrest⟩ := succ_of_mod_ne_zero hend
    rw [advance_page hpg fun hzero => hend (hmod.symm.trans hzero), hwp]
    simp only [position, hrest, hnext, Nat.add_assoc]

theorem position_last (line blk : Nat)
    (hone : spp.pgsPerBlk = spp.pgsPerOneshotpg * spp.oneshotpgsPerBlk)
    (hk : k + 1 = spp.pgsPerLine) :
    ((position spp line blk k).pg + 1) % spp.pgsPerOneshotpg = 0 ∧
      (position spp line blk k).ch + 1 = spp.nchs ∧
      (position spp line blk k).lun + 1 = spp.lunsPerCh ∧
      (position spp line blk k).pg + 1 = spp.pgsPerBlk := by
  have hcounts := counts_of_lt hone (Nat.lt_of_succ_le hk.le)
  rw [pgsPerLine_eq hone] at hk
  obtain ⟨hlast, hnext⟩ := carry_of_eq_mul hcounts.oneshot_pos hk
  obtain ⟨hlastCh, hnextCh⟩ := carry_of_eq_mul hcounts.nchs_pos hnext
  obtain ⟨hlastLun, hnextLun⟩ := carry_of_eq_mul hcounts.luns_pos hnextCh
  refine ⟨?_, hlastCh, hlastLun, ?_⟩
  · rw [position_pg_succ_mod, hk, Nat.mul_mod_right]
  · rw [position_pg_succ line blk hlast, hnextLun, hone, Nat.mul_comm]

theorem advance_last
    (hone : spp.pgsPerBlk = spp.pgsPerOneshotpg * spp.oneshotpgsPerBlk)
    (hk : k + 1 = spp.pgsPerLine) (hwp : s.getWp io = position spp line blk k) :
    advanceWritePointer spp io s = closeLine spp io (freshPointer line blk) s := by
  obtain ⟨hmod, hch, hlun, hpg⟩ := position_last line blk hone hk
  rw [← hwp] at hmod hch hlun hpg
  rw [advance_wordline (by omega) hmod (by omega) hch (by omega) hlun, if_neg (not_not.2 hpg),
    hwp]
  rfl

end Position

section Pages

variable {spp : SsdParams} {io : IoType} {s : ConvFtl} {line blk : Nat}

/-- The page `get_new_page` returns after `k` steps. -/
def pageAt (spp : SsdParams) (blk k : Nat) : Ppa :=
  let wp := position spp blk blk k
  Ppa.ofFields wp.ch wp.lun wp.pl wp.blk wp.pg

theorem getNewPage_position {k : Nat} (hwp : s.getWp io = position spp line blk k) :
    getNewPage io s = .ok (pageAt spp blk k) := by
  have hpl : (pageAt spp blk k).pl = 0 := Nat.zero_mod _
  simp only [getNewPage, hwp]
  exact congrArg (· >>= fun _ => Except.ok (pageAt spp blk k))
    (nvmevAssert_of hpl Site.getNewPage)

/-- The counts fit the bit-fields of `struct ppa`. -/
structure FieldsFit (spp : SsdParams) : Prop where
  nchs_le : spp.nchs ≤ 2 ^ 8
  lunsPerCh_le : spp.lunsPerCh ≤ 2 ^ 8
  blksPerPl_le : spp.blksPerPl ≤ 2 ^ 16
  pgsPerBlk_le : spp.pgsPerBlk ≤ 2 ^ 16

variable (hone : spp.pgsPerBlk = spp.pgsPerOneshotpg * spp.oneshotpgsPerBlk)
include hone

theorem pageAt_eq (hfit : FieldsFit spp) (hblk : blk < spp.blksPerPl) {k : Nat}
    (hk : k < spp.pgsPerLine) : pageAt spp blk k = wpPage (position spp blk blk k) := by
  have hcounts := counts_of_lt hone hk
  have hch := (position_ch_lt blk blk k hcounts).trans_le hfit.nchs_le
  have hlun := (position_lun_lt blk blk k hcounts).trans_le hfit.lunsPerCh_le
  have hpg := (position_pg_lt blk blk hone hk).trans_le hfit.pgsPerBlk_le
  have hblk : (position spp blk blk k).blk < 2 ^ 16 := hblk.trans_le hfit.blksPerPl_le
  have hpl : (position spp blk blk k).pl < 2 ^ 8 := by
    change 0 < 2 ^ 8
    decide
  simp only [pageAt, Ppa.ofFields, wpPage, Nat.mod_eq_of_lt hch, Nat.mod_eq_of_lt hlun,
    Nat.mod_eq_of_lt hpg, Nat.mod_eq_of_lt hblk, Nat.mod_eq_of_lt hpl]

theorem position_mem {k : Nat} (hk : k < spp.pgsPerLine) :
    wpPage (position spp blk blk k) ∈ linePages spp blk :=
  mem_linePages.2 ⟨position_ch_lt blk blk k (counts_of_lt hone hk),
    position_lun_lt blk blk k (counts_of_lt hone hk), rfl, rfl, position_pg_lt blk blk hone hk⟩

theorem position_inj {j k : Nat} (hj : j < spp.pgsPerLine)
    (h : wpPage (position spp blk blk j) = wpPage (position spp blk blk k)) : j = k := by
  have hpos := (counts_of_lt hone hj).oneshot_pos
  simp only [wpPage, position, Ppa.mk.injEq] at h
  obtain ⟨hch, hlun, -, -, hpg⟩ := h
  obtain ⟨hword, hrest⟩ := digits_inj (Nat.mod_lt j hpos) (Nat.mod_lt k hpos) hpg
  have hluns : j / spp.pgsPerOneshotpg / spp.nchs = k / spp.pgsPerOneshotpg / spp.nchs := by
    rw [← Nat.div_add_mod (j / spp.pgsPerOneshotpg / spp.nchs) spp.lunsPerCh,
      ← Nat.div_add_mod (k / spp.pgsPerOneshotpg / spp.nchs) spp.lunsPerCh, hword, hlun]
  have honeshots : j / spp.pgsPerOneshotpg = k / spp.pgsPerOneshotpg := by
    rw [← Nat.div_add_mod (j / spp.pgsPerOneshotpg) spp.nchs,
      ← Nat.div_add_mod (k / spp.pgsPerOneshotpg) spp.nchs, hluns, hch]
  rw [← Nat.div_add_mod j spp.pgsPerOneshotpg, ← Nat.div_add_mod k spp.pgsPerOneshotpg,
    honeshots, hrest]

theorem image_position :
    (Finset.range spp.pgsPerLine).image (fun k => wpPage (position spp blk blk k)) =
      linePages spp blk := by
  refine Finset.eq_of_subset_of_card_le ?_ ?_
  · intro p hp
    obtain ⟨k, hk, rfl⟩ := Finset.mem_image.1 hp
    exact position_mem hone (Finset.mem_range.1 hk)
  · rw [card_linePages, Finset.card_image_of_injOn, Finset.card_range]
    intro j hj k hk heq
    exact position_inj hone (Finset.mem_range.1 hj) heq

omit hone in
theorem position_oneshot {q r : Nat} (hr : r < spp.pgsPerOneshotpg) :
    position spp line blk (q * spp.pgsPerOneshotpg + r) =
      { position spp line blk (q * spp.pgsPerOneshotpg) with
        pg := (position spp line blk (q * spp.pgsPerOneshotpg)).pg + r } := by
  have hpos : 0 < spp.pgsPerOneshotpg := by omega
  simp only [position]
  rw [Nat.mul_comm q, Nat.mul_add_div hpos, Nat.mul_add_mod, Nat.div_eq_of_lt hr,
    Nat.mod_eq_of_lt hr, Nat.mul_div_cancel_left q hpos, Nat.mul_mod_right, Nat.add_zero,
    Nat.add_zero]

omit hone in
theorem oneshot_dvd_position (line blk q : Nat) :
    spp.pgsPerOneshotpg ∣ (position spp line blk (q * spp.pgsPerOneshotpg)).pg := by
  simp only [position, Nat.mul_mod_left, Nat.add_zero]
  exact Dvd.intro_left _ rfl

end Pages

section Closing

variable {spp : SsdParams} {io : IoType} {s s' : ConvFtl} {line blk : Nat}

theorem setpos_bubbleUpLoop {α β : Type} [DecidableEq α] {cb : Callbacks β}
    (law : cb.Lawful) (moving : α) (pri fuel : Nat) (h : Heap α β) (i : Nat) (b : α) :
    cb.setpos ((bubbleUpLoop cb moving pri fuel h i).node b) 0 = cb.setpos (h.node b) 0 := by
  induction fuel generalizing h i with
  | zero => exact setpos_place law h i moving b
  | succ fuel ih =>
      rw [bubbleUpLoop]
      split
      · rw [ih, setpos_place law]
      · exact setpos_place law h i moving b

theorem pqueueInsert_id (h : Heap Nat Line) (a l : Nat) :
    ((pqueueInsert victimCallbacks h a).node l).id = (h.node l).id :=
  (eq_of_setpos_eq (setpos_bubbleUpLoop victimCallbacks_lawful _ _ _ _ _ l)).1

/-- What `advance_write_pointer` does at the end of a line: the line goes to the full
lines or to the victims, and the first free line is opened at its first page. -/
structure Closed (spp : SsdParams) (io : IoType) (line : Nat) (s s' : ConvFtl) : Prop where
  retired : (s.lm.lines line).vpc = spp.pgsPerLine ∧
      s'.lm.fullLineCnt = s.lm.fullLineCnt + 1 ∧ s'.lm.victimLineCnt = s.lm.victimLineCnt ∨
    (s.lm.lines line).vpc < spp.pgsPerLine ∧
      s'.lm.fullLineCnt = s.lm.fullLineCnt ∧ s'.lm.victimLineCnt = s.lm.victimLineCnt + 1
  opened : ∃ c rest, s.lm.freeLineList = c :: rest ∧ s'.lm.freeLineList = rest ∧
    (s.lm.lines c).id < spp.blksPerPl ∧ s'.getWp io = freshPointer c (s.lm.lines c).id

/-- What the end of a line asserts of the line's counters, and a free line to go on
with. -/
structure Closable (spp : SsdParams) (line : Nat) (s : ConvFtl) : Prop where
  counters : (s.lm.lines line).vpc = spp.pgsPerLine ∧ (s.lm.lines line).ipc = 0 ∨
    (s.lm.lines line).vpc < spp.pgsPerLine ∧ 0 < (s.lm.lines line).ipc
  free : ∃ c rest, s.lm.freeLineList = c :: rest ∧ (s.lm.lines c).id < spp.blksPerPl

theorem getNextFreeLine_eq {lm lm' : LineMgmt} {c : Nat}
    (h : getNextFreeLine lm = .ok (c, lm')) :
    ∃ rest, lm.freeLineList = c :: rest ∧ lm'.freeLineList = rest ∧ lm'.lines = lm.lines ∧
      lm'.fullLineCnt = lm.fullLineCnt ∧ lm'.victimLineCnt = lm.victimLineCnt := by
  rw [getNextFreeLine] at h
  split at h
  · cases h
  · next rest heq =>
    cases h
    exact ⟨rest, heq, by simp [LineMgmt.listDelInit, heq], rfl, rfl, rfl⟩

/-- The line management after the closed line was put away. -/
structure PutAway (spp : SsdParams) (line : Nat) (lm lm' : LineMgmt) : Prop where
  freeLineList : lm'.freeLineList = lm.freeLineList
  ids : ∀ l, (lm'.lines l).id = (lm.lines l).id
  counted : (lm.lines line).vpc = spp.pgsPerLine ∧
      lm'.fullLineCnt = lm.fullLineCnt + 1 ∧ lm'.victimLineCnt = lm.victimLineCnt ∨
    (lm.lines line).vpc < spp.pgsPerLine ∧
      lm'.fullLineCnt = lm.fullLineCnt ∧ lm'.victimLineCnt = lm.victimLineCnt + 1

theorem PutAway.closed {lm lm' : LineMgmt} {c : Nat} (h : PutAway spp line s.lm lm)
    (hnext : getNextFreeLine lm = .ok (c, lm')) (hid : (lm'.lines c).id < spp.blksPerPl) :
    Closed spp io line s
      (({ s with lm := lm' } : ConvFtl).setWp io (freshPointer c (lm'.lines c).id)) := by
  obtain ⟨rest, hfree, hrest, hlines, hfull, hvictim⟩ := getNextFreeLine_eq hnext
  rw [hlines, h.ids] at hid ⊢
  have hlm : (({ s with lm := lm' } : ConvFtl).setWp io
      (freshPointer c (s.lm.lines c).id)).lm = lm' := by
    cases io <;> rfl
  constructor
  · rw [hlm, hfull, hvictim]
    exact h.counted
  · rw [hlm]
    refine ⟨c, rest, h.freeLineList ▸ hfree, hrest, hid, ?_⟩
    rw [getWp_setWp, if_pos rfl]

theorem putAway_full (h : (s.lm.lines line).vpc = spp.pgsPerLine) :
    PutAway spp line s.lm { s.lm with
      fullLineList := s.lm.fullLineList ++ [line]
      fullLineCnt := s.lm.fullLineCnt + 1 } :=
  ⟨rfl, fun _ => rfl, .inl ⟨h, rfl, rfl⟩⟩

theorem putAway_victim (h : (s.lm.lines line).vpc < spp.pgsPerLine) :
    PutAway spp line s.lm { s.lm with
      victimLinePq := pqueueInsert victimCallbacks s.lm.victimLinePq line
      victimLineCnt := s.lm.victimLineCnt + 1 } :=
  ⟨rfl, pqueueInsert_id s.lm.victimLinePq line, .inr ⟨h, rfl, rfl⟩⟩

theorem closeLine_closed (h : closeLine spp io (freshPointer line blk) s = .ok s') :
    Closed spp io line s s' := by
  unfold closeLine at h
  dsimp only at h
  split at h
  · next hfull =>
    obtain ⟨u, -, h⟩ := exists_of_bind_eq_ok h
    obtain ⟨lm, hlm, h⟩ := exists_of_bind_eq_ok h
    cases hlm
    obtain ⟨v, -, h⟩ := exists_of_bind_eq_ok h
    obtain ⟨⟨c, lm'⟩, hnext, h⟩ := exists_of_bind_eq_ok h
    obtain ⟨x, hid, h⟩ := exists_of_bind_eq_ok h
    obtain ⟨y, -, h⟩ := exists_of_bind_eq_ok h
    cases h
    exact (putAway_full hfull).closed hnext (of_nvmevAssert hid)
  · obtain ⟨u, hvpc, h⟩ := exists_of_bind_eq_ok h
    obtain ⟨v, -, h⟩ := exists_of_bind_eq_ok h
    obtain ⟨lm, hlm, h⟩ := exists_of_bind_eq_ok h
    cases hlm
    obtain ⟨x, -, h⟩ := exists_of_bind_eq_ok h
    obtain ⟨⟨c, lm'⟩, hnext, h⟩ := exists_of_bind_eq_ok h
    obtain ⟨y, hid, h⟩ := exists_of_bind_eq_ok h
    obtain ⟨z, -, h⟩ := exists_of_bind_eq_ok h
    cases h
    exact (putAway_victim (of_nvmevAssert hvpc)).closed hnext (of_nvmevAssert hid)

theorem exists_getNextFreeLine {lm : LineMgmt} {c : Nat} {rest : List Nat}
    (h : lm.freeLineList = c :: rest) :
    ∃ lm', getNextFreeLine lm = .ok (c, lm') ∧ lm'.lines = lm.lines := by
  simp only [getNextFreeLine, h]
  exact ⟨_, rfl, rfl⟩

theorem exists_closeLine (h : Closable spp line s) (hblk : blk < spp.blksPerPl) :
    ∃ s', closeLine spp io (freshPointer line blk) s = .ok s' := by
  obtain ⟨c, rest, hfree, hid⟩ := h.free
  unfold freshPointer closeLine
  rcases h.counters with ⟨hvpc, hipc⟩ | ⟨hvpc, hipc⟩
  · have hkeep := putAway_full hvpc
    obtain ⟨lm', hnext, hlines⟩ := exists_getNextFreeLine (hkeep.freeLineList.trans hfree)
    rw [← hkeep.ids, ← hlines] at hid
    simp only [if_pos hvpc, nvmevAssert_of hipc, nvmevAssert_of hblk, nvmevAssert_of hid,
      ok_bind, pure_bind, hnext]
    exact ⟨_, rfl⟩
  · have hkeep := putAway_victim hvpc
    obtain ⟨lm', hnext, hlines⟩ := exists_getNextFreeLine (hkeep.freeLineList.trans hfree)
    rw [← hkeep.ids, ← hlines] at hid
    simp only [if_neg hvpc.ne, nvmevAssert_of hvpc, nvmevAssert_of hipc, nvmevAssert_of hblk,
      nvmevAssert_of hid, ok_bind, pure_bind, hnext]
    exact ⟨_, rfl⟩

theorem closable_of_lineInv {victim : Option Nat} {k : Nat}
    (hone : spp.pgsPerBlk = spp.pgsPerOneshotpg * spp.oneshotpgsPerBlk)
    (hk : k + 1 = spp.pgsPerLine) (h : LineInv spp victim (some io) s)
    (hwp : s.getWp io = position spp line blk k) (hfree : s.lm.freeLineList ≠ []) :
    Closable spp line s := by
  obtain ⟨hmod, hch, hlun, hpg⟩ := position_last line blk hone hk
  have hpos := (counts_of_lt hone (Nat.lt_of_succ_le hk.le)).oneshot_pos
  have hline : line = (s.getWp io).curline := by rw [hwp]; rfl
  rw [← hwp] at hmod hch hlun hpg
  have hfr := h.frontier io
  have hused : ∀ p ∈ linePages spp (s.getWp io).curline, s.ssd.pg p ≠ .free := by
    intro p hp hpfree
    have hlast := before_end_of_line hfr.pl_eq hfr.blk_eq hp hpos hmod hch hlun hpg
    have hopen := (hfr.free_iff p hp).1 hpfree
    tauto
  obtain ⟨-, -, -, -, hv⟩ := h.openLine io
  have hvpc := h.lineVpc _ hv
  have hipc := h.lineIpc _ hv
  have hnone := countOf_eq_zero.mpr hused
  have hsum := counts_add spp s.ssd.pg (s.getWp io).curline
  obtain ⟨c, rest, hlist⟩ := List.exists_cons_of_ne_nil hfree
  subst hline
  refine ⟨by omega, c, rest, hlist, ?_⟩
  rw [h.ids]
  by_contra hge
  have hroles := h.roles c
  have hcount : 0 < s.lm.freeLineList.count c := List.count_pos_iff.mpr (by simp [hlist])
  rw [if_neg hge] at hroles
  unfold roleCount at hroles
  omega

end Closing

/-- A page that was taken, with the states its `advance_write_pointer` ran between. -/
structure Taken where
  ppa : Ppa
  before : ConvFtl
  after : ConvFtl

/-- Calls of `get_new_page` and `advance_write_pointer` from `s` on. Between any two
calls the FTL may do anything that leaves this write pointer alone. -/
inductive Sweep (spp : SsdParams) (io : IoType) (s : ConvFtl) :
    List Taken → ConvFtl → Prop where
  | start : Sweep spp io s [] s
  | other {steps : List Taken} {t t' : ConvFtl} (h : Sweep spp io s steps t)
      (hwp : t'.getWp io = t.getWp io) : Sweep spp io s steps t'
  | take {steps : List Taken} {t u v : ConvFtl} {ppa : Ppa} (h : Sweep spp io s steps t)
      (hpage : getNewPage io t = .ok ppa) (hwp : u.getWp io = t.getWp io)
      (hadvance : advanceWritePointer spp io u = .ok v) :
      Sweep spp io s (steps ++ [⟨ppa, u, v⟩]) v

section Run

variable {spp : SsdParams} {io : IoType} {s t : ConvFtl} {line blk : Nat}
  {steps : List Taken}

/-- A step of the sweep: the `k`-th of its line. -/
structure StepAt (spp : SsdParams) (io : IoType) (line blk k : Nat) (x : Taken) : Prop where
  ppa : x.ppa = pageAt spp blk k
  before : x.before.getWp io = position spp line blk k
  advance : advanceWritePointer spp io x.before = .ok x.after

variable (hone : spp.pgsPerBlk = spp.pgsPerOneshotpg * spp.oneshotpgsPerBlk)
  (hs : s.getWp io = freshPointer line blk)
include hone hs

/-- The run lemma: up to the end of the line the pointer is where the closed form says,
and so was every step. -/
theorem Sweep.steps_at (h : Sweep spp io s steps t) (hle : steps.length ≤ spp.pgsPerLine) :
    (steps.length < spp.pgsPerLine → t.getWp io = position spp line blk steps.length) ∧
      ∀ k x, steps[k]? = some x → StepAt spp io line blk k x := by
  induction h with
  | start =>
      rw [List.length_nil, position_zero]
      exact ⟨fun _ => hs, by simp⟩
  | other h hwp ih =>
      obtain ⟨hposition, hsteps⟩ := ih hle
      exact ⟨fun hlt => hwp.trans (hposition hlt), hsteps⟩
  | @take steps t u v ppa h hpage hwp hadvance ih =>
      rw [List.length_append, List.length_singleton] at hle ⊢
      obtain ⟨hposition, hsteps⟩ := ih (by omega)
      have hu := hwp.trans (hposition (by omega))
      constructor
      · intro hlt
        rw [advance_position hone hlt hu] at hadvance
        cases hadvance
        rw [getWp_setWp, if_pos rfl]
      · intro k x hx
        by_cases hk : k < steps.length
        · rw [List.getElem?_append_left hk] at hx
          exact hsteps k x hx
        · rw [List.getElem?_append_right (by omega)] at hx
          obtain ⟨hlt, rfl⟩ := List.getElem?_eq_some_iff.1 hx
          have hkEq : k = steps.length := by
            simp only [List.length_singleton] at hlt
            omega
          subst hkEq
          rw [getNewPage_position (hposition (by omega))] at hpage
          cases hpage
          simp only [Nat.sub_self, List.getElem_cons_zero]
          exact ⟨rfl, hu, hadvance⟩

theorem exists_sweep {k : Nat} (hk : k < spp.pgsPerLine) :
    ∃ steps, Sweep spp io s steps (s.setWp io (position spp line blk k)) ∧
      steps.length = k := by
  induction k with
  | zero =>
      refine ⟨[], ?_, rfl⟩
      rw [position_zero, ← hs]
      have hsame : s.setWp io (s.getWp io) = s := by
        cases io <;> rfl
      rw [hsame]
      exact .start
  | succ k ih =>
      obtain ⟨steps, hsweep, hlength⟩ := ih (by omega)
      have hwp : (s.setWp io (position spp line blk k)).getWp io = position spp line blk k := by
        rw [getWp_setWp, if_pos rfl]
      have hadvance := advance_position hone hk hwp
      have hset : (s.setWp io (position spp line blk k)).setWp io
          (position spp line blk (k + 1)) = s.setWp io (position spp line blk (k + 1)) := by
        cases io <;> rfl
      rw [hset] at hadvance
      refine ⟨_, hsweep.take (getNewPage_position hwp) rfl hadvance, ?_⟩
      rw [List.length_append, hlength, List.length_singleton]

theorem Sweep.pages (h : Sweep spp io s steps t) (hle : steps.length ≤ spp.pgsPerLine) :
    steps.map Taken.ppa = (List.range steps.length).map (pageAt spp blk) := by
  have hsteps := (h.steps_at hone hs hle).2
  apply List.ext_getElem
  · simp
  · intro k hk _
    rw [List.length_map] at hk
    rw [List.getElem_map, List.getElem_map, List.getElem_range]
    exact (hsteps k _ (List.getElem?_eq_getElem hk)).ppa

end Run

/-- What a sweep through a line does, up to the end of the line. -/
structure Swept (spp : SsdParams) (io : IoType) (line blk : Nat) (steps : List Taken)
    (t : ConvFtl) : Prop where
  nodup : (steps.map Taken.ppa).Nodup
  mem_line : ∀ p ∈ steps.map Taken.ppa, p ∈ linePages spp blk
  covers : steps.length = spp.pgsPerLine → ∀ p ∈ linePages spp blk, p ∈ steps.map Taken.ppa
  contiguous : ∀ q r first x, r < spp.pgsPerOneshotpg →
    steps[q * spp.pgsPerOneshotpg]? = some first →
    steps[q * spp.pgsPerOneshotpg + r]? = some x →
    spp.pgsPerOneshotpg ∣ first.ppa.pg ∧ x.ppa = { first.ppa with pg := first.ppa.pg + r }
  stays : ∀ k x, steps[k]? = some x → k + 1 < spp.pgsPerLine →
    x.after.lm = x.before.lm ∧ (x.after.getWp io).curline = line
  closes : ∀ k x, steps[k]? = some x → k + 1 = spp.pgsPerLine →
    Closed spp io line x.before x.after
  /-- No assertion stops the next step before the end of the line, nor there if the
  counters of the line are sound and there is a free line. -/
  goesOn : steps.length < spp.pgsPerLine →
    (∃ ppa, getNewPage io t = .ok ppa) ∧
    ∀ u, u.getWp io = t.getWp io →
      (steps.length + 1 = spp.pgsPerLine → Closable spp line u) →
      ∃ v, advanceWritePointer spp io u = .ok v
  /-- The counters are sound where the invariant of the FTL holds. -/
  sound : steps.length + 1 = spp.pgsPerLine → ∀ u victim, u.getWp io = t.getWp io →
    LineInv spp victim (some io) u → u.lm.freeLineList ≠ [] → Closable spp line u

theorem Sweep.swept {spp : SsdParams} {io : IoType} {s t : ConvFtl} {line blk : Nat}
    {steps : List Taken} (hone : spp.pgsPerBlk = spp.pgsPerOneshotpg * spp.oneshotpgsPerBlk)
    (hfit : FieldsFit spp) (hblk : blk < spp.blksPerPl)
    (hs : s.getWp io = freshPointer line blk) (h : Sweep spp io s steps t)
    (hle : steps.length ≤ spp.pgsPerLine) : Swept spp io line blk steps t := by
  obtain ⟨hposition, hsteps⟩ := h.steps_at hone hs hle
  have hpages := h.pages hone hs hle
  have hindex : ∀ {k x}, steps[k]? = some x → k < steps.length := fun hx =>
    (List.getElem?_eq_some_iff.1 hx).1
  have hpage : ∀ k < steps.length, pageAt spp blk k = wpPage (position spp blk blk k) :=
    fun k hk => pageAt_eq hone hfit hblk (by omega)
  refine ⟨?_, ?_, ?_, ?_, ?_, ?_, ?_, ?_⟩
  · rw [hpages]
    refine List.Nodup.map_on ?_ List.nodup_range
    intro j hj k hk heq
    rw [List.mem_range] at hj hk
    rw [hpage j hj, hpage k hk] at heq
    exact position_inj hone (by omega) heq
  · intro p hp
    rw [hpages, List.mem_map] at hp
    obtain ⟨k, hk, rfl⟩ := hp
    rw [List.mem_range] at hk
    rw [hpage k hk]
    exact position_mem hone (by omega)
  · intro hall p hp
    rw [← image_position hone] at hp
    obtain ⟨k, hk, rfl⟩ := Finset.mem_image.1 hp
    rw [Finset.mem_range, ← hall] at hk
    rw [hpages, List.mem_map]
    exact ⟨k, List.mem_range.2 hk, hpage k hk⟩
  · intro q r first x hr hfirst hx
    rw [(hsteps _ _ hfirst).ppa, (hsteps _ _ hx).ppa, hpage _ (hindex hfirst),
      hpage _ (hindex hx), position_oneshot hr]
    exact ⟨oneshot_dvd_position blk blk q, rfl⟩
  · intro k x hx hk
    have hx := hsteps k x hx
    have hadvance := hx.advance
    rw [advance_position hone hk hx.before] at hadvance
    rw [← Except.ok.inj hadvance]
    constructor
    · cases io <;> rfl
    · rw [getWp_setWp, if_pos rfl]
      rfl
  · intro k x hx hk
    have hx := hsteps k x hx
    have hadvance := hx.advance
    rw [advance_last hone hk hx.before] at hadvance
    exact closeLine_closed hadvance
  · intro hlt
    have ht := hposition hlt
    refine ⟨⟨_, getNewPage_position ht⟩, fun u hu hclosable => ?_⟩
    have hu := hu.trans ht
    by_cases hlast : steps.length + 1 = spp.pgsPerLine
    · rw [advance_last hone hlast hu]
      exact exists_closeLine (hclosable hlast) hblk
    · exact ⟨_, advance_position hone (by omega) hu⟩
  · intro hlast u victim hu hinv hfree
    exact closable_of_lineInv hone hlast hinv (hu.trans (hposition (by omega))) hfree

/-- The pages of a line, for every geometry `ssd_init_params` computes whose counts fit
the bit-fields of `struct ppa`. -/
theorem write_pointer_sweep {cfg : SsdConfig} {capacity nparts : Nat} {io : IoType}
    {s t : ConvFtl} {line blk : Nat} {steps : List Taken}
    (hfit : FieldsFit (ssdInitParams cfg capacity nparts))
    (hblk : blk < (ssdInitParams cfg capacity nparts).blksPerPl)
    (hs : s.getWp io = freshPointer line blk)
    (hsweep : Sweep (ssdInitParams cfg capacity nparts) io s steps t)
    (hle : steps.length ≤ (ssdInitParams cfg capacity nparts).pgsPerLine) :
    Swept (ssdInitParams cfg capacity nparts) io line blk steps t :=
  hsweep.swept rfl hfit hblk hs hle

theorem write_pointer_sweep_shipped :
    ∃ s steps t, convInitFtl (ssdInitParams samsung970pro 1073741824 4) = .ok s ∧
      Sweep (ssdInitParams samsung970pro 1073741824 4) .userIo s steps t ∧
      steps.length = (ssdInitParams samsung970pro 1073741824 4).pgsPerLine ∧
      (steps.map Taken.ppa).Nodup ∧
      ∀ p ∈ linePages (ssdInitParams samsung970pro 1073741824 4) 0,
        p ∈ steps.map Taken.ppa := by
  have hrun : returns (convInitFtl (ssdInitParams samsung970pro 1073741824 4))
      (fun s => s.wp == freshPointer 0 0 && s.lm.freeLineList.head? == some 2 &&
        (s.lm.lines 2).id == 2) = true := by
    decide +kernel
  obtain ⟨s, hinit, htest⟩ := exists_of_returns hrun
  simp only [Bool.and_eq_true, beq_iff_eq] at htest
  obtain ⟨⟨hs, hfree⟩, hid⟩ := htest
  have hs : s.getWp .userIo = freshPointer 0 0 := hs
  have hk : 31 < (ssdInitParams samsung970pro 1073741824 4).pgsPerLine := by decide
  have hfit : FieldsFit (ssdInitParams samsung970pro 1073741824 4) := by
    constructor <;> decide
  obtain ⟨steps, hsweep, hlength⟩ := exists_sweep rfl hs hk
  have hswept := write_pointer_sweep hfit (by decide) hs hsweep (by rw [hlength]; decide)
  obtain ⟨⟨ppa, hpage⟩, hgoes⟩ := hswept.goesOn (by rw [hlength]; decide)
  obtain ⟨t, ht⟩ : ∃ t, t = s.setWp .userIo (position
    (ssdInitParams samsung970pro 1073741824 4) 0 0 31) := ⟨_, rfl⟩
  rw [← ht] at hsweep hpage hgoes
  have hlm : t.lm = s.lm := by
    rw [ht]
    rfl
  -- by then the 32 pages are counted as valid
  obtain ⟨u, hu⟩ : ∃ u, u = { t with lm := t.lm.setLine 0 ⟨0, 0, 32, 0⟩ } := ⟨_, rfl⟩
  have hwp : u.getWp .userIo = t.getWp .userIo := by
    rw [hu]
    rfl
  obtain ⟨v, hadvance⟩ := hgoes u hwp fun _ => by
    subst hu
    refine ⟨.inl ⟨?_, rfl⟩, 2, s.lm.freeLineList.tail, ?_, ?_⟩
    · have hline : (t.lm.setLine 0 ⟨0, 0, 32, 0⟩).lines 0 = ⟨0, 0, 32, 0⟩ := rfl
      rw [hline]
      decide
    · rw [LineMgmt.setLine, hlm]
      exact (List.cons_head?_tail hfree).symm
    · have hkept : ((t.lm.setLine 0 ⟨0, 0, 32, 0⟩).lines 2).id = (t.lm.lines 2).id := rfl
      rw [hkept, hlm, hid]
      decide
  have hwhole := hsweep.take hpage hwp hadvance
  have htotal : (steps ++ [(⟨ppa, u, v⟩ : Taken)]).length =
      (ssdInitParams samsung970pro 1073741824 4).pgsPerLine := by
    rw [List.length_append, hlength, List.length_singleton]
    decide
  have hclosed := write_pointer_sweep hfit (by decide) hs hwhole htotal.le
  exact ⟨s, _, v, hinit, hwhole, htotal, hclosed.nodup, hclosed.covers htotal⟩

/-- With 65544 pages in a block the page field of `struct ppa` is cut off: a word line
past the 65536th page returns pages of the first word line again. -/
theorem large_block_repeats :
    ∃ s steps t, (ssdInitParams samsung970pro 35188667056128 4).plsPerLun = 1 ∧
      convInitFtl (ssdInitParams samsung970pro 35188667056128 4) = .ok s ∧
      Sweep (ssdInitParams samsung970pro 35188667056128 4) .userIo s steps t ∧
      steps.length ≤ (ssdInitParams samsung970pro 35188667056128 4).pgsPerLine ∧
      ¬ (steps.map Taken.ppa).Nodup := by
  have hrun : returns (convInitFtl (ssdInitParams samsung970pro 35188667056128 4))
      (fun s => s.wp == freshPointer 0 0) = true := by
    decide +kernel
  obtain ⟨s, hinit, hs⟩ := exists_of_returns hrun
  have hs : s.getWp .userIo = freshPointer 0 0 := eq_of_beq hs
  have hk : 262145 < (ssdInitParams samsung970pro 35188667056128 4).pgsPerLine := by decide
  obtain ⟨steps, hsweep, hlength⟩ := exists_sweep rfl hs hk
  have hle : steps.length ≤ (ssdInitParams samsung970pro 35188667056128 4).pgsPerLine := by
    rw [hlength]
    decide
  refine ⟨s, steps, _, rfl, hinit, hsweep, hle, fun hnodup => ?_⟩
  rw [hsweep.pages rfl hs hle, hlength] at hnodup
  have hsame : pageAt (ssdInitParams samsung970pro 35188667056128 4) 0 0 =
      pageAt (ssdInitParams samsung970pro 35188667056128 4) 0 262144 := by
    decide
  have hindex := List.inj_on_of_nodup_map hnodup (List.mem_range.2 (by decide))
    (List.mem_range.2 (by decide)) hsame
  exact absurd hindex (by decide)

end NvmeVirt.WritePointerSweep
