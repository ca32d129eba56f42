import NvmeVirt.ConvProgress
import NvmeVirt.SequentialBlocks

namespace NvmeVirt.NandDiscipline

open NvmeVirt.ConvCollection
open NvmeVirt.ConvLineAccounting
open NvmeVirt.ConvLineReclaim
open NvmeVirt.ConvMapping
open NvmeVirt.ConvProgress
open NvmeVirt.ConvRuns
open NvmeVirt.ConventionalFtl
open NvmeVirt.FaultOutcome
open NvmeVirt.FlashGeometry
open NvmeVirt.SequentialBlocks
open NvmeVirt.StatusCounts
open NvmeVirt.WriteBuffer

section Definitions

variable (spp : SsdParams)

/-- The operation on the array that a NAND command stands for; the slots of a block
are its one-shot pages. A no-op only takes its turn on the LUN, and a host read may name
a page that still waits for its program, in which case the write buffer has the data. -/
def blockOp (ncmd : NandCmd) : Option (BlockOp (Nat × Nat × Nat × Nat)) :=
  match ncmd.cmd with
  | .read =>
      match ncmd.type with
      | .userIo => none
      | .gcIo => some (.read ncmd.ppa.blkAddr (ncmd.ppa.pg / spp.pgsPerOneshotpg))
  | .write => some (.program ncmd.ppa.blkAddr (ncmd.ppa.pg / spp.pgsPerOneshotpg))
  | .erase => some (.erase ncmd.ppa.blkAddr)
  | .nop => none

def nandLog (s : ConvFtl) : List (BlockOp (Nat × Nat × Nat × Nat)) :=
  s.ssd.ncmds.filterMap (blockOp spp)

/-- The pages of a block handed out since its last erase. -/
def used (s : ConvFtl) (a : Nat × Nat × Nat × Nat) : Nat :=
  (s.ssd.blk a).ipc + (s.ssd.blk a).vpc

/-- The log can be obeyed and leaves the array as the block table has it: the
complete one-shot pages are programmed, and `erase_cnt` counts the erases. -/
def Obeyed (s : ConvFtl) : Prop :=
  ∃ blocks, replay spp.oneshotpgsPerBlk blank (nandLog spp s) = some blocks ∧
    ∀ a, blocks.level a = used s a / spp.pgsPerOneshotpg ∧
      blocks.wear a = (s.ssd.blk a).eraseCnt

/-- A command names a LUN of the SSD, a read transfers whole pages, and a program
transfers a whole one-shot page and names the last page of it. -/
structure Proper (ncmd : NandCmd) : Prop where
  lun : ncmd.ppa.ch < spp.nchs ∧ ncmd.ppa.lun < spp.lunsPerCh
  read : ncmd.cmd = .read → ∃ n, 0 < n ∧ ncmd.xferSize = spp.pgsz * n
  write : ncmd.cmd = .write → lastPgInWordline spp ncmd.ppa = true ∧
    ncmd.xferSize = spp.pgsz * spp.pgsPerOneshotpg

def issued (type : IoType) (cmd : NandOp) (s : ConvFtl) : Nat :=
  s.ssd.ncmds.countP fun ncmd => ncmd.type = type && ncmd.cmd = cmd

/-- The pages of the open one-shot page of `io` that wait for the rest of it. -/
def waiting (io : IoType) (s : ConvFtl) : Nat := (s.getWp io).pg % spp.pgsPerOneshotpg

/-- The pages that `io` has filled in all. -/
def filled (io : IoType) (s : ConvFtl) : Nat :=
  spp.pgsPerOneshotpg * issued io .write s + waiting spp io s

/-- The discipline of one partition, while garbage collection has erased `erased`
blocks of its victim. -/
structure Disciplined (erased : Nat) (s : ConvFtl) : Prop where
  obeyed : Obeyed spp s
  proper : ∀ ncmd ∈ s.ssd.ncmds, Proper spp ncmd
  balance : filled spp .userIo s + filled spp .gcIo s + freePages spp s +
    spp.pgsPerBlk * erased =
      spp.pgsPerLine * spp.blksPerPl + spp.pgsPerBlk * issued .gcIo .erase s

end Definitions

section Commands

variable {spp : SsdParams} {s s' : ConvFtl} {ncmd : NandCmd} {erased : Nat}

@[simp] theorem issued_issue (type : IoType) (cmd : NandOp) :
    issued type cmd (s.issue ncmd) =
      issued type cmd s + if ncmd.type = type ∧ ncmd.cmd = cmd then 1 else 0 := by
  simp [issued, ConvFtl.issue, List.countP_append, List.countP_cons]

theorem nandLog_issue : nandLog spp (s.issue ncmd) =
    nandLog spp s ++ (blockOp spp ncmd).toList := by
  simp only [nandLog, ConvFtl.issue, List.filterMap_append]
  cases hop : blockOp spp ncmd <;> simp [hop]

@[simp] theorem used_issue : used (s.issue ncmd) = used s := rfl

@[simp] theorem getWp_issue (io : IoType) : (s.issue ncmd).getWp io = s.getWp io := by
  cases io <;> rfl

theorem issued_congr (h : s'.ssd.ncmds = s.ssd.ncmds) (type : IoType) (cmd : NandOp) :
    issued type cmd s' = issued type cmd s := by
  rw [issued, h]
  rfl

theorem filled_congr {io : IoType} (hncmds : s'.ssd.ncmds = s.ssd.ncmds)
    (hwp : waiting spp io s' = waiting spp io s) : filled spp io s' = filled spp io s := by
  rw [filled, filled, issued_congr hncmds, hwp]

theorem Disciplined.of_same (h : Disciplined spp erased s)
    (hncmds : s'.ssd.ncmds = s.ssd.ncmds) (hused : ∀ a, used s' a = used s a)
    (herase : ∀ a, (s'.ssd.blk a).eraseCnt = (s.ssd.blk a).eraseCnt)
    (hwait : ∀ io, waiting spp io s' = waiting spp io s)
    (hfree : freePages spp s' = freePages spp s) : Disciplined spp erased s' := by
  refine ⟨?_, ?_, ?_⟩
  · obtain ⟨blocks, hreplay, hblocks⟩ := h.obeyed
    refine ⟨blocks, ?_, ?_⟩
    · rw [nandLog, hncmds]
      exact hreplay
    · intro a
      rw [hused, herase]
      exact hblocks a
  · rw [hncmds]
    exact h.proper
  · rw [filled_congr hncmds (hwait .userIo), filled_congr hncmds (hwait .gcIo), hfree,
      issued_congr hncmds]
    exact h.balance

theorem Disciplined.idle (h : Disciplined spp erased s) (hproper : Proper spp ncmd)
    (hwrite : ncmd.cmd ≠ .write) (herase : ncmd.cmd ≠ .erase)
    (hobey : ∀ blocks : Blocks (Nat × Nat × Nat × Nat),
      (∀ a, blocks.level a = used s a / spp.pgsPerOneshotpg) →
      replay spp.oneshotpgsPerBlk blocks (blockOp spp ncmd).toList = some blocks) :
    Disciplined spp erased (s.issue ncmd) := by
  refine ⟨?_, ?_, ?_⟩
  · obtain ⟨blocks, hreplay, hblocks⟩ := h.obeyed
    refine ⟨blocks, ?_, hblocks⟩
    rw [nandLog_issue, replay_append, hreplay]
    exact hobey blocks fun a => (hblocks a).1
  · intro n hn
    rcases List.mem_append.mp hn with hn | hn
    · exact h.proper n hn
    · obtain rfl := List.mem_singleton.mp hn
      exact hproper
  · simp only [filled, waiting, getWp_issue, issued_issue, hwrite, herase, and_false,
      if_false, Nat.add_zero]
    exact h.balance

theorem Disciplined.nop (h : Disciplined spp erased s) (hcmd : ncmd.cmd = .nop)
    (hlun : ncmd.ppa.ch < spp.nchs ∧ ncmd.ppa.lun < spp.lunsPerCh) :
    Disciplined spp erased (s.issue ncmd) := by
  refine h.idle ⟨hlun, by simp [hcmd], by simp [hcmd]⟩ (by simp [hcmd]) (by simp [hcmd]) ?_
  intro blocks _
  simp [blockOp, hcmd, replay]

theorem Disciplined.hostRead (h : Disciplined spp erased s) (htype : ncmd.type = .userIo)
    (hcmd : ncmd.cmd = .read) (hproper : Proper spp ncmd) :
    Disciplined spp erased (s.issue ncmd) := by
  refine h.idle hproper (by simp [hcmd]) (by simp [hcmd]) ?_
  intro blocks _
  simp [blockOp, hcmd, htype, replay]

theorem Disciplined.read (h : Disciplined spp erased s) (htype : ncmd.type = .gcIo)
    (hcmd : ncmd.cmd = .read) (hproper : Proper spp ncmd)
    (hone : spp.pgsPerBlk = spp.pgsPerOneshotpg * spp.oneshotpgsPerBlk)
    (hpg : ncmd.ppa.pg < spp.pgsPerBlk) (hfull : used s ncmd.ppa.blkAddr = spp.pgsPerBlk) :
    Disciplined spp erased (s.issue ncmd) := by
  refine h.idle hproper (by simp [hcmd]) (by simp [hcmd]) ?_
  intro blocks hlevel
  have hslot : ncmd.ppa.pg / spp.pgsPerOneshotpg < blocks.level ncmd.ppa.blkAddr := by
    rw [hlevel, hfull, hone]
    rw [hone] at hpg
    have hpos : 0 < spp.pgsPerOneshotpg := Nat.pos_of_mul_pos_right (Nat.zero_lt_of_lt hpg)
    rw [Nat.mul_div_cancel_left _ hpos]
    exact Nat.div_lt_of_lt_mul hpg
  simp [blockOp, htype, hcmd, replay, obey, hslot]

end Commands

section Blocks

variable {spp : SsdParams} {victim : Option Nat} {taken : Option IoType} {s s' : ConvFtl}
  {io : IoType}

theorem used_add_free (h : LineInv spp victim taken s) (a : Nat × Nat × Nat × Nat) :
    used s a + countOf (blkPages spp a) s.ssd.pg .free = spp.pgsPerBlk := by
  have hsplit := Finset.card_filter_add_card_filter_not
    (s := blkPages spp a) (fun p => s.ssd.pg p = .free)
  have hrest : (blkPages spp a).filter (fun p => ¬ s.ssd.pg p = .free) =
      (blkPages spp a).filter (fun p => s.ssd.pg p = .invalid) ∪
        (blkPages spp a).filter (fun p => s.ssd.pg p = .valid) := by
    ext p
    simp only [Finset.mem_filter, Finset.mem_union]
    cases s.ssd.pg p <;> simp
  have hdisj : Disjoint ((blkPages spp a).filter (fun p => s.ssd.pg p = .invalid))
      ((blkPages spp a).filter (fun p => s.ssd.pg p = .valid)) := by
    rw [Finset.disjoint_filter]
    intro p _ hp
    simp [hp]
  rw [hrest, Finset.card_union_of_disjoint hdisj, card_blkPages] at hsplit
  rw [used, h.blkIpc, h.blkVpc]
  unfold countOf
  omega

theorem used_eq_of_used (h : LineInv spp victim taken s) {a : Nat × Nat × Nat × Nat}
    (hpages : ∀ p ∈ blkPages spp a, s.ssd.pg p ≠ .free) : used s a = spp.pgsPerBlk := by
  have hcount := used_add_free h a
  rw [countOf_eq_zero.mpr hpages] at hcount
  exact hcount

theorem lt_iff_digits (d m n : Nat) :
    m < n ↔ m / d < n / d ∨ m / d = n / d ∧ m % d < n % d := by
  have hm := Nat.div_add_mod m d
  have hn := Nat.div_add_mod n d
  constructor
  · intro hlt
    rcases Nat.lt_or_eq_of_le (Nat.div_le_div_right (c := d) hlt.le) with hdiv | hdiv
    · exact Or.inl hdiv
    · rw [hdiv] at hm
      exact Or.inr ⟨hdiv, by omega⟩
  · rintro (hdiv | ⟨hdiv, hmod⟩)
    · by_contra hle
      have := Nat.div_le_div_right (c := d) (not_lt.mp hle)
      omega
    · rw [hdiv] at hm
      omega

theorem used_wpPage (h : LineInv spp victim none s) (io : IoType) :
    used s (wpPage (s.getWp io)).blkAddr = (s.getWp io).pg := by
  have hfr := h.frontier io
  have hfree : ∀ p ∈ blkPages spp (wpPage (s.getWp io)).blkAddr,
      s.ssd.pg p = .free ↔ (s.getWp io).pg ≤ p.pg := by
    intro p hp
    have haddr := (mem_blkPages.mp hp).1
    simp only [Ppa.blkAddr, wpPage, Prod.mk.injEq] at haddr
    obtain ⟨hch, hlun, -, -⟩ := haddr
    rw [hfr.free_iff p (mem_linePages_of_mem_blkPages hfr.page_mem hp), ← not_lt,
      lt_iff_digits spp.pgsPerOneshotpg p.pg]
    simp [Before, hch, hlun]
  have hcount : countOf (blkPages spp (wpPage (s.getWp io)).blkAddr) s.ssd.pg .free =
      spp.pgsPerBlk - (s.getWp io).pg := by
    unfold countOf
    rw [Finset.filter_congr hfree, blkPages, Finset.filter_image,
      Finset.card_image_of_injective _ fun m n hmn => (Ppa.mk.inj hmn).2.2.2.2]
    have hset : (Finset.range spp.pgsPerBlk).filter (fun n => (s.getWp io).pg ≤ n) =
        Finset.Ico (s.getWp io).pg spp.pgsPerBlk := by
      ext n
      simp [and_comm]
    change ((Finset.range spp.pgsPerBlk).filter fun n => (s.getWp io).pg ≤ n).card = _
    rw [hset, Nat.card_Ico]
  have hsum := used_add_free h (wpPage (s.getWp io)).blkAddr
  have hlt := hfr.pg_lt
  omega

theorem used_programmed (io : IoType) (a : Nat × Nat × Nat × Nat) :
    used (programmed io s) a =
      used s a + if a = (wpPage (s.getWp io)).blkAddr then 1 else 0 := by
  simp only [used, programmed, Function.update_apply]
  split
  · rename_i ha
    rw [ha, Nat.add_assoc]
  · rfl

end Blocks

section Place

variable {spp : SsdParams} {victim : Option Nat} {s s' : ConvFtl} {io : IoType}

theorem closeLine_pg {wpp : WritePointer} (h : closeLine spp io wpp s = .ok s') :
    (s'.getWp io).pg = 0 := by
  -- Both kinds of lines end in the same step to the next free line.
  have hopen : ∀ lm : LineMgmt, (do
      nvmevAssert (wpp.blk < spp.blksPerPl) .advanceWritePointer
      let opened ← getNextFreeLine lm
      let wpp := { wpp with curline := opened.1, blk := (opened.2.lines opened.1).id }
      nvmevAssert (wpp.blk < spp.blksPerPl) .advanceWritePointer
      nvmevAssert (wpp.pg = 0 ∧ wpp.lun = 0 ∧ wpp.ch = 0 ∧ wpp.pl = 0) .advanceWritePointer
      return { s with lm := opened.2 }.setWp io wpp) = .ok s' → (s'.getWp io).pg = 0 := by
    intro lm h
    obtain ⟨-, -, h⟩ := exists_of_bind_eq_ok h
    obtain ⟨opened, -, h⟩ := exists_of_bind_eq_ok h
    obtain ⟨-, -, h⟩ := exists_of_bind_eq_ok h
    obtain ⟨_, hzero, h⟩ := exists_of_bind_eq_ok h
    cases h
    rw [getWp_setWp, if_pos rfl]
    exact (of_nvmevAssert hzero).1
  unfold closeLine at h
  dsimp only at h
  split at h
  · obtain ⟨-, -, h⟩ := exists_of_bind_eq_ok h
    exact hopen _ h
  · obtain ⟨-, -, h⟩ := exists_of_bind_eq_ok h
    obtain ⟨-, -, h⟩ := exists_of_bind_eq_ok h
    exact hopen _ h

/-- Whatever an advanced pointer moves to, it is one page further in its one-shot page
or at the start of another. -/
theorem advanceWritePointer_waiting (h : advanceWritePointer spp io s = .ok s') :
    waiting spp io s' = ((s.getWp io).pg + 1) % spp.pgsPerOneshotpg := by
  have hset : ∀ wp, waiting spp io (s.setWp io wp) = wp.pg % spp.pgsPerOneshotpg := by
    intro wp
    rw [waiting, getWp_setWp, if_pos rfl]
  unfold advanceWritePointer at h
  obtain ⟨-, -, h⟩ := exists_of_bind_eq_ok h
  dsimp only at h
  split at h
  · cases h
    exact hset _
  · rename_i hmod
    simp only [ne_eq, not_not] at hmod
    have hback : ((s.getWp io).pg + 1 - spp.pgsPerOneshotpg) % spp.pgsPerOneshotpg = 0 := by
      rcases Nat.lt_or_ge ((s.getWp io).pg + 1) spp.pgsPerOneshotpg with hlt | hge
      · rw [Nat.sub_eq_zero_of_le hlt.le, Nat.zero_mod]
      · rw [← Nat.mod_eq_sub_mod hge, hmod]
    rw [hmod]
    obtain ⟨-, -, h⟩ := exists_of_bind_eq_ok h
    split at h
    · cases h
      exact (hset _).trans hback
    · obtain ⟨-, -, h⟩ := exists_of_bind_eq_ok h
      split at h
      · cases h
        exact (hset _).trans hback
      · split at h
        · cases h
          refine (hset _).trans ?_
          dsimp only
          rw [Nat.add_mod_right, hback]
        · rw [waiting, closeLine_pg h, Nat.zero_mod]

/-- What `placeLpn` does to the flash array and to the write pointers. -/
structure Handed (spp : SsdParams) (io : IoType) (s s' : ConvFtl) : Prop where
  ssd : s'.ssd = (programmed io s).ssd
  freePages : freePages spp s' + 1 = freePages spp s
  waiting : waiting spp io s' = ((s.getWp io).pg + 1) % spp.pgsPerOneshotpg
  other : ∀ io', io' ≠ io → s'.getWp io' = s.getWp io'

theorem placeLpn_handed {g : Geometry} (io : IoType) (lpn : Nat)
    (h : LineInv g.toSsdParams victim none s) :
    Outcome (placeLpn g.toSsdParams io lpn s)
      (fun r => r.1 = wpPage (s.getWp io) ∧ LineInv g.toSsdParams victim none r.2 ∧
        Handed g.toSsdParams io s r.2) (fun _ => True) := by
  refine Outcome.of_value ?_
  rintro ⟨ppa, s'⟩ hplace
  simp only [placeLpn, getNewPage_eq h io, ok_bind] at hplace
  obtain ⟨s₁, hmaptbl, hplace⟩ := exists_of_bind_eq_ok hplace
  obtain ⟨s₂, hrmap, hplace⟩ := exists_of_bind_eq_ok hplace
  obtain ⟨s₃, hmark, hplace⟩ := exists_of_bind_eq_ok hplace
  obtain ⟨s₄, hadvance, hplace⟩ := exists_of_bind_eq_ok hplace
  cases hplace
  obtain ⟨-, -, hmaptbl⟩ := exists_of_bind_eq_ok hmaptbl
  obtain ⟨-, -, hrmap⟩ := exists_of_bind_eq_ok hrmap
  cases hmaptbl
  cases hrmap
  generalize hs₂ : ({ s with
    maptbl := Function.update s.maptbl lpn (some (wpPage (s.getWp io)))
    rmap := Function.update s.rmap (ppa2pgidx g.toSsdParams (wpPage (s.getWp io)))
      (some lpn) } : ConvFtl) = s₂ at hmark
  have hwp : ∀ io', s₂.getWp io' = s.getWp io' := by
    rw [← hs₂]
    rintro (_ | _) <;> rfl
  have hssd : (programmed io s₂).ssd = (programmed io s).ssd := by
    rw [← hs₂]
    cases io <;> rfl
  have hfree : ConvLineAccounting.freePages g.toSsdParams s₂ =
      ConvLineAccounting.freePages g.toSsdParams s := by
    rw [← hs₂]
    rfl
  have h₂ : LineInv g.toSsdParams victim none s₂ := by
    rw [← hs₂]
    exact h.of_same rfl rfl rfl rfl rfl
  rw [← hwp io, markPageValid_eq h₂ io] at hmark
  cases hmark
  obtain ⟨hinv, hkeep, hpages, -⟩ :=
    (advanceWritePointer_spec g.blk_oneshot (programmed_inv h₂ io)).value hadvance
  have hcount := freePages_programmed h₂ io
  refine ⟨rfl, hinv, ?_, ?_, ?_, ?_⟩
  · exact hkeep.frame.2.2.1.trans hssd
  · change ConvLineAccounting.freePages g.toSsdParams s' + 1 = _
    omega
  · change NandDiscipline.waiting g.toSsdParams io s' = _
    rw [advanceWritePointer_waiting hadvance, getWp_programmed, hwp]
  · intro io' hne
    obtain ⟨lm, wp, rfl⟩ := hkeep
    change (ConvFtl.setWp _ io wp).getWp io' = _
    rw [getWp_setWp, if_neg hne, ← hwp, ← getWp_programmed io io']
    cases io' <;> rfl

end Place

section Program

variable {g : Geometry} {victim : Option Nat} {s s' : ConvFtl} {io : IoType} {erased : Nat}

/-- The command that programs the one-shot page ending at `ppa`. -/
def programCmd (spp : SsdParams) (io : IoType) (ppa : Ppa) : NandCmd :=
  { type := io
    cmd := .write
    xferSize := spp.pgsz * spp.pgsPerOneshotpg
    interleavePciDma := false
    ppa := ppa }

/-- The flash array after the page at the pointer of `io` has been handed out, the
program command of a completed one-shot page included. -/
def flushed (spp : SsdParams) (io : IoType) (ppa : Ppa) (s : ConvFtl) : ConvFtl :=
  if lastPgInWordline spp ppa then s.issue (programCmd spp io ppa) else s

theorem pgsPerOneshotpg_pos (g : Geometry) : 0 < g.pgsPerOneshotpg := by
  have hline : 0 < g.blksPerLine * g.pgsPerBlk := g.pgsPerLine_pos
  rw [g.blk_oneshot] at hline
  exact Nat.pos_of_mul_pos_right (Nat.pos_of_mul_pos_left hline)

theorem lastPgInWordline_iff (g : Geometry) (ppa : Ppa) :
    lastPgInWordline g.toSsdParams ppa = true ↔ (ppa.pg + 1) % g.pgsPerOneshotpg = 0 := by
  have hpos := pgsPerOneshotpg_pos g
  rw [lastPgInWordline, beq_iff_eq]
  constructor
  · intro hlast
    by_contra hne
    have hsucc := (succ_of_mod_ne_zero hne).2
    have hlt := Nat.mod_lt (ppa.pg + 1) hpos
    omega
  · intro hzero
    have hlast := (succ_of_mod_eq_zero hpos hzero).2.1
    omega

theorem flushed_other (spp : SsdParams) (io : IoType) (ppa : Ppa) (s : ConvFtl) :
    (flushed spp io ppa s).ssd.pg = s.ssd.pg ∧ (flushed spp io ppa s).ssd.blk = s.ssd.blk ∧
      (flushed spp io ppa s).lm = s.lm ∧
      (∀ io', (flushed spp io ppa s).getWp io' = s.getWp io') ∧
      freePages spp (flushed spp io ppa s) = freePages spp s := by
  unfold flushed
  split
  · exact ⟨rfl, rfl, rfl, fun io' => getWp_issue io', rfl⟩
  · exact ⟨rfl, rfl, rfl, fun _ => rfl, rfl⟩

theorem issued_flushed {spp : SsdParams} {ppa : Ppa} {type : IoType} {cmd : NandOp} :
    issued type cmd (flushed spp io ppa s) = issued type cmd s +
      if lastPgInWordline spp ppa ∧ io = type ∧ cmd = .write then 1 else 0 := by
  unfold flushed
  split
  · rename_i hlast
    rw [issued_issue]
    simp [programCmd, hlast, eq_comm]
  · rename_i hmid
    simp [hmid]

/-- Every page handed out counts once, while it waits as well as when its one-shot
page has been programmed. -/
theorem filled_flushed (hh : Handed g.toSsdParams io s s') (io' : IoType) :
    filled g.toSsdParams io' (flushed g.toSsdParams io (wpPage (s.getWp io)) s') =
      filled g.toSsdParams io' s + if io' = io then 1 else 0 := by
  have hpos := pgsPerOneshotpg_pos g
  have hncmds : s'.ssd.ncmds = s.ssd.ncmds := by
    rw [hh.ssd]
    rfl
  have hlast := lastPgInWordline_iff g (wpPage (s.getWp io))
  have hpg : (wpPage (s.getWp io)).pg = (s.getWp io).pg := rfl
  rw [filled, issued_flushed, issued_congr hncmds, filled, waiting, (flushed_other ..).2.2.2.1 io']
  rcases eq_or_ne io' io with rfl | hne
  · have hwait : (s'.getWp io').pg % g.pgsPerOneshotpg =
        ((s.getWp io').pg + 1) % g.pgsPerOneshotpg := hh.waiting
    rw [hwait, waiting, if_pos rfl]
    rcases Nat.eq_zero_or_pos (((s.getWp io').pg + 1) % g.pgsPerOneshotpg) with hzero | hmid
    · have hend := (succ_of_mod_eq_zero hpos hzero).2.1
      rw [if_pos ⟨hlast.mpr hzero, rfl, rfl⟩, hzero, Nat.mul_succ]
      omega
    · have hsucc := (succ_of_mod_ne_zero (Nat.ne_of_gt hmid)).2
      rw [if_neg fun hand => Nat.ne_of_gt hmid (hlast.mp hand.1), hsucc, Nat.add_zero]
      omega
  · rw [hh.other io' hne, if_neg fun hand => hne hand.2.1.symm, if_neg hne]
    rfl

theorem wpPage_lun {spp : SsdParams} {taken : Option IoType} (h : LineInv spp victim taken s)
    (io : IoType) :
    (wpPage (s.getWp io)).ch < spp.nchs ∧ (wpPage (s.getWp io)).lun < spp.lunsPerCh :=
  ⟨(h.frontier io).ch_lt, (h.frontier io).lun_lt⟩

/-- Handing out a page, and programming the one-shot page that it completes. -/
theorem Disciplined.flush (h : Disciplined g.toSsdParams erased s)
    (hline : LineInv g.toSsdParams victim none s) (hh : Handed g.toSsdParams io s s') :
    Disciplined g.toSsdParams erased
      (flushed g.toSsdParams io (wpPage (s.getWp io)) s') := by
  have hpos := pgsPerOneshotpg_pos g
  have hwp := used_wpPage hline io
  have hpg := (hline.frontier io).pg_lt
  have hncmds : s'.ssd.ncmds = s.ssd.ncmds := by
    rw [hh.ssd]
    rfl
  have hused : ∀ a, used s' a =
      used s a + if a = (wpPage (s.getWp io)).blkAddr then 1 else 0 := by
    intro a
    rw [← used_programmed io a, used, used, hh.ssd]
  have herase : ∀ a, (s'.ssd.blk a).eraseCnt = (s.ssd.blk a).eraseCnt := by
    intro a
    rw [hh.ssd]
    simp only [programmed, Function.update_apply]
    split
    · rename_i ha
      rw [ha]
    · rfl
  have hlast := lastPgInWordline_iff g (wpPage (s.getWp io))
  obtain ⟨-, -, -, -, hfree⟩ := flushed_other g.toSsdParams io (wpPage (s.getWp io)) s'
  refine ⟨?_, ?_, ?_⟩
  · obtain ⟨blocks, hreplay, hblocks⟩ := h.obeyed
    have hlog : nandLog g.toSsdParams s' = nandLog g.toSsdParams s := by
      rw [nandLog, nandLog, hncmds]
    unfold flushed
    split
    · rename_i hend
      rw [hlast] at hend
      obtain ⟨hdiv, -, -, -⟩ := succ_of_mod_eq_zero hpos hend
      have hslot : (s.getWp io).pg / g.pgsPerOneshotpg < g.oneshotpgsPerBlk := by
        rw [g.blk_oneshot] at hpg
        exact Nat.div_lt_of_lt_mul hpg
      refine ⟨{ blocks with
        level := Function.update blocks.level (wpPage (s.getWp io)).blkAddr
          ((s.getWp io).pg / g.pgsPerOneshotpg + 1) }, ?_, ?_⟩
      · rw [nandLog_issue, hlog]
        change replay g.oneshotpgsPerBlk blank (nandLog g.toSsdParams s ++
          [.program (wpPage (s.getWp io)).blkAddr
            ((s.getWp io).pg / g.pgsPerOneshotpg)]) = _
        rw [replay_concat hreplay]
        simp only [obey, (hblocks _).1, hwp, true_and, if_pos hslot]
      · intro a
        change Function.update blocks.level _ _ a = used s' a / _ ∧
          blocks.wear a = (s'.ssd.blk a).eraseCnt
        rw [hused, herase, Function.update_apply]
        refine ⟨?_, (hblocks a).2⟩
        split
        · rename_i ha
          rw [ha, hwp]
          exact hdiv.symm
        · exact (hblocks a).1
    · rename_i hmid
      rw [hlast] at hmid
      refine ⟨blocks, hlog ▸ hreplay, ?_⟩
      intro a
      rw [hused, herase, (hblocks a).1]
      refine ⟨?_, (hblocks a).2⟩
      split
      · rename_i ha
        rw [ha, hwp]
        exact (succ_of_mod_ne_zero hmid).1.symm
      · rfl
  · intro ncmd hmem
    unfold flushed at hmem
    split at hmem
    · rename_i hend
      rcases List.mem_append.mp hmem with hmem | hmem
      · rw [hncmds] at hmem
        exact h.proper ncmd hmem
      · obtain rfl := List.mem_singleton.mp hmem
        exact ⟨wpPage_lun hline io, by rintro ⟨⟩, fun _ => ⟨hend, rfl⟩⟩
    · rw [hncmds] at hmem
      exact h.proper ncmd hmem
  · rw [filled_flushed hh, filled_flushed hh, hfree, issued_flushed, issued_congr hncmds]
    have hbalance := h.balance
    have hcount := hh.freePages
    cases io <;> simp <;> omega

end Program

section Collect

variable {g : Geometry} {cpp : ConvParams} {v flashpg ch lun : Nat} {s s' : ConvFtl}

/-- The blocks of the victim erased when the loops of `do_gc` stand at flash page
`flashpg` of channel `ch` and LUN `lun`. -/
def erasedBlocks (spp : SsdParams) (flashpg ch lun : Nat) : Nat :=
  if flashpg + 1 < spp.flashpgsPerBlk then 0
  else if flashpg + 1 = spp.flashpgsPerBlk then ch * spp.lunsPerCh + lun
  else spp.nchs * spp.lunsPerCh

/-- Since the log was `log`, only garbage collection has issued commands. -/
def CollectedSince (log : List NandCmd) (s : ConvFtl) : Prop :=
  ∃ ncmds, s.ssd.ncmds = log ++ ncmds ∧ ∀ ncmd ∈ ncmds, ncmd.type = .gcIo

theorem CollectedSince.refl (s : ConvFtl) : CollectedSince s.ssd.ncmds s :=
  ⟨[], (List.append_nil _).symm, by simp⟩

theorem CollectedSince.issue {log : List NandCmd} {ncmd : NandCmd}
    (h : CollectedSince log s) (htype : ncmd.type = .gcIo) :
    CollectedSince log (s.issue ncmd) := by
  obtain ⟨ncmds, hncmds, htypes⟩ := h
  refine ⟨ncmds ++ [ncmd], ?_, ?_⟩
  · rw [ConvFtl.issue, hncmds, List.append_assoc]
  · intro n hn
    rcases List.mem_append.mp hn with hn | hn
    · exact htypes n hn
    · obtain rfl := List.mem_singleton.mp hn
      exact htype

/-- The discipline inside the loops of `do_gc`: exactly the erased blocks of the victim
are free, and the host's share `host` of the traffic stands still. -/
structure Sweeping (spp : SsdParams) (v host : Nat) (log : List NandCmd)
    (flashpg ch lun : Nat) (s : ConvFtl) : Prop where
  lines : LineInv spp (some v) none s
  free_iff : ∀ p ∈ linePages spp v, s.ssd.pg p = .free ↔ ConvCollection.Erased spp flashpg ch lun p
  disc : Disciplined spp (erasedBlocks spp flashpg ch lun) s
  host : filled spp .userIo s = host
  since : CollectedSince log s

variable {host : Nat} {log : List NandCmd}

theorem Sweeping.congr {spp : SsdParams} {flashpg' ch' lun' : Nat}
    (h : Sweeping spp v host log flashpg ch lun s)
    (herased : ∀ p ∈ linePages spp v, ConvCollection.Erased spp flashpg' ch' lun' p ↔
      ConvCollection.Erased spp flashpg ch lun p)
    (hcount : erasedBlocks spp flashpg' ch' lun' = erasedBlocks spp flashpg ch lun) :
    Sweeping spp v host log flashpg' ch' lun' s := by
  refine ⟨h.lines, ?_, hcount ▸ h.disc, h.host, h.since⟩
  intro p hp
  rw [herased p hp]
  exact h.free_iff p hp

theorem Sweeping.used_block {spp : SsdParams} (h : Sweeping spp v host log flashpg ch lun s)
    {ppa : Ppa} (hppa : ppa ∈ linePages spp v)
    (hnot : ∀ p ∈ blkPages spp ppa.blkAddr, ¬ ConvCollection.Erased spp flashpg ch lun p) :
    used s ppa.blkAddr = spp.pgsPerBlk :=
  used_eq_of_used h.lines fun p hp hfree =>
    hnot p hp ((h.free_iff p (mem_linePages_of_mem_blkPages hppa hp)).mp hfree)

theorem not_erased_of_block {ppa : Ppa} (hf : flashpg < g.flashpgsPerBlk)
    (hppa : ppa = pageAt g.toSsdParams v flashpg ch lun 0) :
    ∀ p ∈ blkPages g.toSsdParams ppa.blkAddr,
      ¬ ConvCollection.Erased g.toSsdParams flashpg ch lun p := by
  intro p hp
  have haddr := (mem_blkPages.mp hp).1
  rw [hppa] at haddr
  simp only [Ppa.blkAddr, pageAt, Prod.mk.injEq] at haddr
  simp only [ConvCollection.Erased]
  omega

theorem gcWritePage_sweeping (hdelay : cpp.enableGcDelay = true) (p : Ppa)
    (h : Sweeping g.toSsdParams v host log flashpg ch lun s) :
    Outcome (gcWritePage g.toSsdParams cpp p s)
      (Sweeping g.toSsdParams v host log flashpg ch lun) (fun _ => True) := by
  refine Outcome.of_value ?_
  intro s' hwrite
  unfold gcWritePage at hwrite
  obtain ⟨owner, -, hwrite⟩ := exists_of_bind_eq_ok hwrite
  cases owner with
  | none => cases hwrite
  | some lpn =>
      obtain ⟨-, -, hwrite⟩ := exists_of_bind_eq_ok hwrite
      have hplace : ∃ r, placeLpn g.toSsdParams .gcIo lpn s = .ok r ∧
          s' = if lastPgInWordline g.toSsdParams r.1 then
            r.2.issue (programCmd g.toSsdParams .gcIo r.1)
          else r.2.issue
            { type := .gcIo, cmd := .nop, xferSize := 0
              interleavePciDma := false, ppa := r.1 } := by
        obtain ⟨ppa, hppa, hwrite⟩ := exists_of_bind_eq_ok hwrite
        obtain ⟨s₁, h₁, hwrite⟩ := exists_of_bind_eq_ok hwrite
        obtain ⟨s₂, h₂, hwrite⟩ := exists_of_bind_eq_ok hwrite
        obtain ⟨s₃, h₃, hwrite⟩ := exists_of_bind_eq_ok hwrite
        obtain ⟨s₄, h₄, hwrite⟩ := exists_of_bind_eq_ok hwrite
        refine ⟨(ppa, s₄), ?_, ?_⟩
        · simp only [placeLpn, hppa, ok_bind, h₁, h₂, h₃, h₄]
          rfl
        · simp only [hdelay, if_true] at hwrite
          split at hwrite
          · rename_i hend
            cases hwrite
            rw [if_pos hend]
            rfl
          · rename_i hmid
            cases hwrite
            rw [if_neg hmid]
      obtain ⟨⟨ppa, s₁⟩, hplace, hs'⟩ := hplace
      obtain ⟨hppa, hinv, hh⟩ := (placeLpn_handed .gcIo lpn h.lines).value hplace
      have hgc := gcPage_notMem h.lines
      have hkept : ∀ q ∈ linePages g.toSsdParams v, s₁.ssd.pg q = s.ssd.pg q := by
        intro q hq
        have hpg : s₁.ssd.pg =
            Function.update s.ssd.pg (wpPage (s.getWp .gcIo)) .valid := by
          rw [show s₁.ssd = _ from hh.ssd]
          rfl
        rw [hpg, Function.update_of_ne]
        rintro rfl
        exact hgc hq
      have hflush := h.disc.flush h.lines hh
      have hhost := filled_flushed hh .userIo
      rw [if_neg (by simp), Nat.add_zero, h.host] at hhost
      change ppa = _ at hppa
      subst hppa
      rw [hs']
      have hsince : CollectedSince log s₁ := by
        obtain ⟨ncmds, hncmds, htypes⟩ := h.since
        refine ⟨ncmds, ?_, htypes⟩
        rw [show s₁.ssd = _ from hh.ssd, ← hncmds]
        rfl
      unfold flushed at hflush hhost
      split
      · rename_i hend
        rw [if_pos hend] at hflush hhost
        refine ⟨hinv.of_same rfl rfl rfl rfl rfl, ?_, hflush, hhost, hsince.issue rfl⟩
        intro q hq
        exact (hkept q hq).symm ▸ h.free_iff q hq
      · rename_i hmid
        rw [if_neg hmid] at hflush hhost
        refine ⟨hinv.of_same rfl rfl rfl rfl rfl, ?_, hflush.nop rfl (wpPage_lun h.lines .gcIo), ?_,
          hsince.issue rfl⟩
        · intro q hq
          exact (hkept q hq).symm ▸ h.free_iff q hq
        · rw [← hhost]
          simp [filled, waiting]

theorem cleanOneFlashpg_sweeping (hdelay : cpp.enableGcDelay = true)
    (h : Sweeping g.toSsdParams v host log flashpg ch lun s) (hf : flashpg < g.flashpgsPerBlk)
    (hch : ch < g.nchs) (hlun : lun < g.lunsPerCh) :
    Outcome (cleanOneFlashpg g.toSsdParams cpp
        (pageAt g.toSsdParams v flashpg ch lun 0) s)
      (Sweeping g.toSsdParams v host log flashpg ch lun) (fun _ => True) := by
  have hmem := pageAt_mem (v := v) hf hch hlun (pgsPerFlashpg_pos g)
  unfold cleanOneFlashpg
  refine Outcome.bind (P := fun _ => True) (Outcome.of_value fun _ _ => trivial) ?_
  intro cnt _
  split
  · exact h
  · rename_i hcnt
    refine Outcome.foldlM ?_ ?_
    · refine ⟨h.lines.of_same rfl rfl rfl rfl rfl, h.free_iff, ?_, ?_, h.since.issue rfl⟩
      · exact h.disc.read rfl rfl
          ⟨⟨hch, hlun⟩, fun _ => ⟨cnt, Nat.pos_of_ne_zero hcnt, rfl⟩, by rintro ⟨⟩⟩
          g.blk_oneshot (mem_linePages.mp hmem).2.2.2.2
          (h.used_block hmem (not_erased_of_block hf rfl))
      · rw [← h.host]
        simp [filled, waiting]
    · intro i _ s₁ h₁
      dsimp only
      split
      · exact gcWritePage_sweeping hdelay _ h₁
      · exact h₁

theorem markBlockFree_frame (spp : SsdParams) (ppa : Ppa) (s : ConvFtl) :
    (markBlockFree spp ppa s).ssd.ncmds = s.ssd.ncmds ∧
      (∀ io, (markBlockFree spp ppa s).getWp io = s.getWp io) ∧
      ∀ a, (markBlockFree spp ppa s).ssd.blk a =
        if a = ppa.blkAddr then
          { ipc := 0, vpc := 0, eraseCnt := (s.ssd.blk ppa.blkAddr).eraseCnt + 1 }
        else s.ssd.blk a := by
  refine ⟨rfl, ?_, ?_⟩
  · rintro (_ | _) <;> rfl
  · intro a
    simp only [markBlockFree, Function.update_apply]

/-- The command that erases the block of `ppa`. -/
def eraseCmd (ppa : Ppa) : NandCmd :=
  { type := .gcIo
    cmd := .erase
    xferSize := 0
    interleavePciDma := false
    ppa := ppa }

theorem Disciplined.erase {erased : Nat} {ppa : Ppa}
    (h : Disciplined g.toSsdParams erased s)
    (hlun : ppa.ch < g.nchs ∧ ppa.lun < g.lunsPerCh)
    (hfull : used s ppa.blkAddr = g.pgsPerBlk)
    (hfree : freePages g.toSsdParams (markBlockFree g.toSsdParams ppa s) =
      freePages g.toSsdParams s) :
    Disciplined g.toSsdParams (erased + 1)
      ((markBlockFree g.toSsdParams ppa s).issue (eraseCmd ppa)) := by
  obtain ⟨hncmds, hwp, hblk⟩ := markBlockFree_frame g.toSsdParams ppa s
  have hused : ∀ a, used (markBlockFree g.toSsdParams ppa s) a =
      if a = ppa.blkAddr then 0 else used s a := by
    intro a
    rw [used, hblk]
    split
    · rfl
    · rfl
  refine ⟨?_, ?_, ?_⟩
  · obtain ⟨blocks, hreplay, hblocks⟩ := h.obeyed
    have hlevel : blocks.level ppa.blkAddr = g.oneshotpgsPerBlk := by
      rw [(hblocks _).1, hfull, g.blk_oneshot,
        Nat.mul_div_cancel_left _ (pgsPerOneshotpg_pos g)]
    refine ⟨{ level := Function.update blocks.level ppa.blkAddr 0
              wear := Function.update blocks.wear ppa.blkAddr
                (blocks.wear ppa.blkAddr + 1) }, ?_, ?_⟩
    · rw [nandLog_issue]
      change replay g.oneshotpgsPerBlk blank
        (nandLog g.toSsdParams s ++ [.erase ppa.blkAddr]) = _
      rw [replay_concat hreplay]
      simp only [obey, hlevel, if_true]
    · intro a
      change Function.update blocks.level _ _ a =
          used (markBlockFree g.toSsdParams ppa s) a / _ ∧
        Function.update blocks.wear _ _ a =
          ((markBlockFree g.toSsdParams ppa s).ssd.blk a).eraseCnt
      rw [hused, hblk, Function.update_apply, Function.update_apply]
      split
      · rw [(hblocks _).2]
        exact ⟨(Nat.zero_div _).symm, rfl⟩
      · exact hblocks a
  · intro ncmd hmem
    rcases List.mem_append.mp hmem with hmem | hmem
    · exact h.proper ncmd hmem
    · obtain rfl := List.mem_singleton.mp hmem
      exact ⟨hlun, by rintro ⟨⟩, by rintro ⟨⟩⟩
  · have hfilled : ∀ io, filled g.toSsdParams io
        ((markBlockFree g.toSsdParams ppa s).issue (eraseCmd ppa)) =
          filled g.toSsdParams io s := by
      intro io
      rw [filled, filled, issued_issue, issued_congr hncmds, waiting, waiting, getWp_issue,
        hwp]
      simp [eraseCmd]
    have hissue : freePages g.toSsdParams
        ((markBlockFree g.toSsdParams ppa s).issue (eraseCmd ppa)) =
          freePages g.toSsdParams s := hfree
    have hbalance := h.balance
    rw [hfilled, hfilled, hissue, issued_issue, issued_congr hncmds]
    simp only [eraseCmd, and_self, if_true, Nat.mul_add, Nat.mul_one]
    omega

theorem ofFields_pageAt (hv : v < g.blksPerPl) (hf : flashpg < g.flashpgsPerBlk)
    (hch : ch < g.nchs) (hlun : lun < g.lunsPerCh) :
    Ppa.ofFields ch lun 0 v (flashpg * g.pgsPerFlashpg) =
      pageAt g.toSsdParams v flashpg ch lun 0 := by
  have hmem := pageAt_mem (v := v) hf hch hlun (pgsPerFlashpg_pos g)
  have hpg : flashpg * g.pgsPerFlashpg < 2 ^ 16 :=
    Nat.lt_of_lt_of_le (mem_linePages.mp hmem).2.2.2.2 g.pgsPerBlk_le
  rw [Ppa.ofFields, pageAt, Nat.mod_eq_of_lt (Nat.lt_of_lt_of_le hch g.nchs_le),
    Nat.mod_eq_of_lt (Nat.lt_of_lt_of_le hlun g.lunsPerCh_le),
    Nat.mod_eq_of_lt (Nat.lt_of_lt_of_le hv g.blksPerPl_le), Nat.mod_eq_of_lt hpg]
  rfl

theorem gcFlashpg_sweeping (hdelay : cpp.enableGcDelay = true)
    (h : Sweeping g.toSsdParams v host log flashpg ch lun s) (hv : v < g.blksPerPl)
    (hf : flashpg < g.flashpgsPerBlk) (hch : ch < g.nchs) (hlun : lun < g.lunsPerCh) :
    Outcome (gcFlashpg g.toSsdParams cpp v flashpg ch lun s)
      (Sweeping g.toSsdParams v host log flashpg ch (lun + 1)) (fun _ => True) := by
  have hmem := pageAt_mem (v := v) hf hch hlun (pgsPerFlashpg_pos g)
  unfold gcFlashpg
  rw [ofFields_pageAt hv hf hch hlun]
  refine Outcome.bind (cleanOneFlashpg_sweeping hdelay h hf hch hlun) ?_
  intro s' hs'
  split
  · rename_i hlast
    obtain ⟨hinv, hfree⟩ := markBlockFree_inv hs'.lines (mem_linePages.mp hmem).2.2.2.1
    have hfull := hs'.used_block hmem (not_erased_of_block hf rfl)
    have herased := hs'.disc.erase ⟨hch, hlun⟩ hfull hfree
    have hhost := hs'.host
    refine ⟨hinv.of_same rfl rfl rfl rfl rfl, ?_, ?_, ?_, ?_⟩
    · intro p hp
      have hold := hs'.free_iff p hp
      obtain ⟨-, -, hpl, hblk, hpg⟩ := mem_linePages.mp hp
      change (markBlockFree g.toSsdParams _ s').ssd.pg p = .free ↔ _
      rw [pg_markBlockFree]
      simp only [ConvCollection.Erased, Ppa.blkAddr, pageAt, Prod.mk.injEq] at hold ⊢
      split
      · simp only [true_iff]
        omega
      · rw [hold]
        omega
    · have hcount : erasedBlocks g.toSsdParams flashpg ch (lun + 1) =
          erasedBlocks g.toSsdParams flashpg ch lun + 1 := by
        simp only [erasedBlocks]
        rw [if_neg (by omega), if_pos (by omega), if_neg (by omega), if_pos (by omega),
          Nat.add_assoc]
      rw [hcount]
      exact herased
    · rw [← hhost, filled, filled, issued_issue,
        issued_congr (markBlockFree_frame g.toSsdParams _ s').1]
      rfl
    · exact CollectedSince.issue (s := markBlockFree g.toSsdParams _ s') hs'.since rfl
  · rename_i hmid
    refine hs'.congr ?_ ?_
    · intro p _
      simp only [ConvCollection.Erased]
      omega
    · simp only [erasedBlocks]
      rw [if_pos (by omega), if_pos (by omega)]

theorem sweep_sweeping (v host : Nat) (log : List NandCmd) (hdelay : cpp.enableGcDelay = true)
    (hv : v < g.blksPerPl) (h : Sweeping g.toSsdParams v host log 0 0 0 s) :
    Outcome ((List.range g.flashpgsPerBlk).foldlM (fun s flashpg =>
        (List.range g.nchs).foldlM (fun s ch =>
          (List.range g.lunsPerCh).foldlM (fun s lun =>
            gcFlashpg g.toSsdParams cpp v flashpg ch lun s) s) s) s)
      (Sweeping g.toSsdParams v host log g.flashpgsPerBlk 0 0) (fun _ => True) := by
  refine Outcome.foldlM_range (I := fun flashpg =>
    Sweeping g.toSsdParams v host log flashpg 0 0) h ?_
  intro flashpg hf s₁ h₁
  have hchannels := Outcome.foldlM_range
    (I := fun ch => Sweeping g.toSsdParams v host log flashpg ch 0) (n := g.nchs)
    (g := fun s ch => (List.range g.lunsPerCh).foldlM (fun s lun =>
      gcFlashpg g.toSsdParams cpp v flashpg ch lun s) s)
    (E := fun _ => True) h₁ (by
      intro ch hch s₂ h₂
      have hluns := Outcome.foldlM_range
        (I := fun lun => Sweeping g.toSsdParams v host log flashpg ch lun) (n := g.lunsPerCh)
        (g := fun s lun => gcFlashpg g.toSsdParams cpp v flashpg ch lun s)
        (E := fun _ => True) h₂ fun lun hlun s₃ h₃ =>
          gcFlashpg_sweeping hdelay h₃ hv hf hch hlun
      refine hluns.imp ?_ fun _ he => he
      intro s₃ h₃
      refine h₃.congr ?_ ?_
      · intro p hp
        obtain ⟨-, hlun, -⟩ := mem_linePages.mp hp
        simp only [ConvCollection.Erased]
        omega
      · simp only [erasedBlocks, Nat.add_mul, Nat.one_mul, Nat.add_zero])
  refine hchannels.imp ?_ fun _ he => he
  intro s₂ h₂
  refine h₂.congr ?_ ?_
  · intro p hp
    obtain ⟨hch, -⟩ := mem_linePages.mp hp
    simp only [ConvCollection.Erased]
    omega
  · simp only [erasedBlocks, Nat.zero_mul, Nat.add_zero]
    split_ifs <;> omega

theorem doGc_disciplined {force : Bool} (hdelay : cpp.enableGcDelay = true)
    (hline : LineInv g.toSsdParams none none s) (h : Disciplined g.toSsdParams 0 s) :
    Outcome (doGc g.toSsdParams cpp force s)
      (fun r => Disciplined g.toSsdParams 0 r.2 ∧
        filled g.toSsdParams .userIo r.2 = filled g.toSsdParams .userIo s ∧
        CollectedSince s.ssd.ncmds r.2)
      (fun _ => True) := by
  unfold doGc
  cases hsel : selectVictimLine g.toSsdParams force s with
  | none => exact ⟨h, rfl, .refl s⟩
  | some r =>
      obtain ⟨v, s₁⟩ := r
      obtain ⟨hline₁, htaken, ⟨lm, rfl⟩, hfree⟩ := selectVictimLine_spec hline hsel
      dsimp only
      rw [show (lm.lines v).id = v from hline₁.ids v]
      refine Outcome.bind (sweep_sweeping v (filled g.toSsdParams .userIo s) s.ssd.ncmds hdelay
        htaken.lt ⟨hline₁.of_same rfl rfl rfl rfl rfl, ?_, ?_, rfl, .refl s⟩) ?_
      · intro p hp
        exact iff_of_false (htaken.used p hp) (not_erased_zero hp)
      · have hzero : erasedBlocks g.toSsdParams 0 0 0 = 0 := by
          simp only [erasedBlocks]
          split_ifs with hmore hone
          · rfl
          · simp
          · have hpos := g.pgsPerLine_pos
            have hflash : g.flashpgsPerBlk = 0 := by omega
            simp [SsdParams.pgsPerLine, g.blk_flash, hflash] at hpos
        rw [hzero]
        refine h.of_same rfl (fun _ => rfl) (fun _ => rfl) ?_ hfree
        rintro (_ | _) <;> rfl
      · intro s₂ h₂
        have hall : ∀ p ∈ linePages g.toSsdParams v, s₂.ssd.pg p = .free := by
          intro p hp
          exact (h₂.free_iff p hp).mpr (Or.inl le_rfl)
        obtain ⟨-, hgain⟩ := markLineFree_inv h₂.lines hall
        have hcount : g.pgsPerBlk * erasedBlocks g.toSsdParams g.flashpgsPerBlk 0 0 =
            g.pgsPerLine := by
          simp only [erasedBlocks]
          rw [if_neg (by omega), if_neg (by omega), SsdParams.pgsPerLine,
            SsdParams.blksPerLine, SsdParams.ttLuns, Nat.mul_comm g.nchs, Nat.mul_comm]
        have hbalance := h₂.disc.balance
        rw [hcount] at hbalance
        refine ⟨⟨h₂.disc.obeyed, h₂.disc.proper, ?_⟩, h₂.host, h₂.since⟩
        change filled g.toSsdParams .userIo s₂ + filled g.toSsdParams .gcIo s₂ +
          freePages g.toSsdParams (markLineFree v s₂) + g.pgsPerBlk * 0 =
            g.pgsPerLine * g.blksPerPl + g.pgsPerBlk * issued .gcIo .erase s₂
        rw [hgain]
        omega

end Collect

section Write

variable {g : Geometry} {cpp : ConvParams} {s : ConvFtl} {lpn : Nat}

theorem filled_of_same {spp : SsdParams} {s' : ConvFtl} (io : IoType)
    (hncmds : s'.ssd.ncmds = s.ssd.ncmds) (hwp : ∀ io, s'.getWp io = s.getWp io) :
    filled spp io s' = filled spp io s :=
  filled_congr hncmds (by rw [waiting, waiting, hwp])

theorem retireOld_disciplined (lpn : Nat) (hpls : g.plsPerLun = 1)
    (h : FtlInv g.toSsdParams s) (hd : Disciplined g.toSsdParams 0 s) :
    Outcome (retireOld g.toSsdParams lpn s)
      (fun s' => LineInv g.toSsdParams none none s' ∧ Disciplined g.toSsdParams 0 s' ∧
        filled g.toSsdParams .userIo s' = filled g.toSsdParams .userIo s ∧
        s'.ssd.ncmds = s.ssd.ncmds)
      (fun _ => True) := by
  obtain ⟨s₁, hretire, hinv, -, -, -, hfree⟩ := retireOld_spec lpn hpls h.lines h.map.mapped
  rw [hretire]
  unfold retireOld at hretire
  cases hlpn : s.maptbl lpn with
  | none =>
      rw [hlpn] at hretire
      cases hretire
      exact ⟨hinv, hd, rfl, rfl⟩
  | some ppa =>
      obtain ⟨hvalid, hst, -, -⟩ := h.map.mapped.place lpn ppa hlpn
      have hmem := mem_linePages_of_valid hpls hvalid
      obtain ⟨lm, hmark, -⟩ := markPageInvalid_spec h.lines hvalid.2.2.2.1 hmem hst
      simp only [hlpn, hmark, ok_bind, setRmapEnt_eq hvalid] at hretire
      cases hretire
      have hvpc : 0 < (s.ssd.blk ppa.blkAddr).vpc := by
        rw [h.lines.blkVpc]
        exact countOf_pos (mem_blkPages_of_line hmem) hst
      have hwp : ∀ io, (({ invalidatedFtl ppa lm s with
          rmap := Function.update s.rmap (ppa2pgidx g.toSsdParams ppa) none } :
            ConvFtl)).getWp io = s.getWp io := by
        rintro (_ | _) <;> rfl
      refine ⟨hinv, ?_, filled_of_same .userIo rfl hwp, rfl⟩
      refine hd.of_same rfl ?_ ?_ ?_ hfree
      · intro a
        simp only [used, invalidatedFtl, Function.update_apply]
        split
        · rename_i ha
          rw [ha]
          dsimp only
          omega
        · rfl
      · intro a
        simp only [invalidatedFtl, Function.update_apply]
        split
        · rename_i ha
          rw [ha]
        · rfl
      · intro io
        exact congrArg (fun wp => wp.pg % g.pgsPerOneshotpg) (hwp io)

theorem checkAndRefill_disciplined (hdelay : cpp.enableGcDelay = true)
    (hline : LineInv g.toSsdParams none none s) (h : Disciplined g.toSsdParams 0 s) :
    Outcome (checkAndRefillWriteCredit g.toSsdParams cpp s)
      (fun s' => Disciplined g.toSsdParams 0 s' ∧
        filled g.toSsdParams .userIo s' = filled g.toSsdParams .userIo s ∧
        CollectedSince s.ssd.ncmds s')
      (fun _ => True) := by
  unfold checkAndRefillWriteCredit foregroundGc
  split
  · refine Outcome.bind (P := fun s' => Disciplined g.toSsdParams 0 s' ∧
      filled g.toSsdParams .userIo s' = filled g.toSsdParams .userIo s ∧
      CollectedSince s.ssd.ncmds s') ?_ ?_
    · split
      · refine Outcome.bind (doGc_disciplined hdelay hline h) ?_
        rintro ⟨r, s'⟩ hs'
        exact hs'
      · exact ⟨h, rfl, .refl s⟩
    · rintro s' ⟨hs', hfilled, hsince⟩
      refine ⟨hs'.of_same rfl (fun _ => rfl) (fun _ => rfl) ?_ rfl, hfilled, hsince⟩
      rintro (_ | _) <;> rfl
  · exact ⟨h, rfl, .refl s⟩

theorem writeLocalLpn_disciplined (hpls : g.plsPerLun = 1)
    (hdelay : cpp.enableGcDelay = true) (h : FtlInv g.toSsdParams s)
    (hd : Disciplined g.toSsdParams 0 s) (lpn : Nat) :
    Outcome (writeLocalLpn g.toSsdParams cpp lpn s)
      (fun r => Disciplined g.toSsdParams 0 r.2 ∧
        filled g.toSsdParams .userIo r.2 = filled g.toSsdParams .userIo s + 1 ∧
        ∃ ppa, CollectedSince (s.ssd.ncmds ++
          if r.1 then [programCmd g.toSsdParams .userIo ppa] else []) r.2)
      (fun _ => True) := by
  unfold writeLocalLpn
  rw [remapLpn_eq, bind_assoc]
  refine Outcome.bind (retireOld_disciplined lpn hpls h hd) ?_
  rintro s₁ ⟨hline₁, hd₁, hfilled₁, hlog₁⟩
  refine Outcome.bind (placeLpn_handed .userIo lpn hline₁) ?_
  rintro ⟨ppa, s₂⟩ ⟨hppa, hline₂, hh⟩
  change ppa = _ at hppa
  subst hppa
  have hd₂ := hd₁.flush hline₁ hh
  have hfilled₂ := filled_flushed hh .userIo
  rw [if_pos rfl, hfilled₁] at hfilled₂
  obtain ⟨hpg, hblk, hlm, hwp, hfree⟩ :=
    flushed_other g.toSsdParams .userIo (wpPage (s₁.getWp .userIo)) s₂
  have hline₃ : LineInv g.toSsdParams none none
      (flushed g.toSsdParams .userIo (wpPage (s₁.getWp .userIo)) s₂) :=
    hline₂.of_same hlm (hwp .userIo) (hwp .gcIo) hpg hblk
  have hconsume : ∀ s : ConvFtl, ∀ io, (consumeWriteCredit s).getWp io = s.getWp io := by
    rintro s (_ | _) <;> rfl
  refine Outcome.bind (checkAndRefill_disciplined hdelay
    (s := consumeWriteCredit
      (flushed g.toSsdParams .userIo (wpPage (s₁.getWp .userIo)) s₂))
    (hline₃.of_same rfl rfl rfl rfl rfl) ?_) ?_
  · refine hd₂.of_same rfl (fun _ => rfl) (fun _ => rfl) ?_ rfl
    intro io
    rw [waiting, waiting, hconsume]
  · rintro s₃ ⟨hd₃, hfilled₃, hsince⟩
    refine ⟨hd₃, hfilled₃.trans ?_, wpPage (s₁.getWp .userIo), ?_⟩
    · rw [filled_of_same .userIo rfl (hconsume _)]
      exact hfilled₂
    · have hlog₂ : s₂.ssd.ncmds = s.ssd.ncmds := by
        rw [show s₂.ssd = _ from hh.ssd, ← hlog₁]
        rfl
      have hflushed : (consumeWriteCredit (flushed g.toSsdParams .userIo
          (wpPage (s₁.getWp .userIo)) s₂)).ssd.ncmds = s.ssd.ncmds ++
            if lastPgInWordline g.toSsdParams (wpPage (s₁.getWp .userIo)) then
              [programCmd g.toSsdParams .userIo (wpPage (s₁.getWp .userIo))] else [] := by
        unfold flushed consumeWriteCredit
        split
        · exact congrArg (· ++ _) hlog₂
        · exact hlog₂.trans (List.append_nil _).symm
      rw [hflushed] at hsince
      exact hsince

theorem initialFtl_disciplined (htwo : 2 ≤ g.blksPerPl) :
    Disciplined g.toSsdParams 0 (initialFtl g.toSsdParams) := by
  refine ⟨⟨blank, rfl, ?_⟩, ?_, ?_⟩
  · intro a
    simp [blank, used, initialFtl]
  · intro ncmd hncmd
    simp [initialFtl] at hncmd
  · rw [(initialFtl_inv htwo g.pgsPerLine_pos).2]
    simp [filled, issued, waiting, initialFtl, ConvFtl.getWp]

end Write

end NvmeVirt.NandDiscipline
