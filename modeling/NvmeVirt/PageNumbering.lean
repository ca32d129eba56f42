import Mathlib.Data.Set.Function
import Mathlib.Tactic.NormNum
import Mathlib.Tactic.Ring
import NvmeVirt.FlashGeometry
import NvmeVirt.WriteBuffer

namespace NvmeVirt.PageNumbering

open FaultOutcome
open FlashGeometry
open WriteBuffer

/-- An `int` used in 64-bit unsigned arithmetic. -/
def widen (x : BitVec 32) : BitVec 64 := x.signExtend 64

/-- `DIV_ROUND_UP` on 64-bit operands. -/
def divRoundUpWord (n d : BitVec 64) : Except Fault (BitVec 64) :=
  if d = 0 then .error (.divideByZero .ssdInitParams) else .ok ((n + d - 1) / d)

/-- The `int` fields of `struct ssdparams`; its `unsigned long` fields are the
functions below. -/
structure SsdWords where
  secsz : BitVec 32
  secsPerPg : BitVec 32
  pgsz : BitVec 32
  pgsPerFlashpg : BitVec 32
  flashpgsPerBlk : BitVec 32
  pgsPerOneshotpg : BitVec 32
  oneshotpgsPerBlk : BitVec 32
  pgsPerBlk : BitVec 32
  blksPerPl : BitVec 32
  plsPerLun : BitVec 32
  lunsPerCh : BitVec 32
  nchs : BitVec 32

namespace SsdWords

variable (w : SsdWords)

def pgsPerPl : BitVec 64 := widen (w.pgsPerBlk * w.blksPerPl)
def pgsPerLun : BitVec 64 := w.pgsPerPl * widen w.plsPerLun
def pgsPerCh : BitVec 64 := w.pgsPerLun * widen w.lunsPerCh
def ttPgs : BitVec 64 := w.pgsPerCh * widen w.nchs
def blksPerLun : BitVec 64 := widen (w.blksPerPl * w.plsPerLun)
def ttLuns : BitVec 64 := widen (w.lunsPerCh * w.nchs)
def blksPerLine : BitVec 64 := w.ttLuns
def pgsPerLine : BitVec 64 := w.blksPerLine * widen w.pgsPerBlk
def ttLines : BitVec 64 := w.blksPerLun

end SsdWords

/-- The part of `ssd_init_params` that computes `blks_per_pl` and `blk_size`. -/
def blockCounts (cfg : SsdConfig) (capacity : BitVec 64) (nchs : BitVec 32) :
    Except Fault (BitVec 32 × BitVec 64) := do
  let plsPerLun : BitVec 32 := .ofNat 32 cfg.plnsPerLun
  let lunsPerCh : BitVec 32 := .ofNat 32 cfg.lunsPerNandCh
  if 0 < cfg.blksPerPln then
    let blksPerPl : BitVec 32 := .ofNat 32 cfg.blksPerPln
    let blkSize ← divRoundUpWord capacity (widen (blksPerPl * plsPerLun * lunsPerCh * nchs))
    return (blksPerPl, blkSize)
  else
    nvmevAssert (0 < cfg.blkSize) .ssdInitParams
    let blkSize : BitVec 64 := .ofNat 64 cfg.blkSize
    let blksPerPl ← divRoundUpWord capacity
      (blkSize * widen plsPerLun * widen lunsPerCh * widen nchs)
    return (blksPerPl.setWidth 32, blkSize)

/-- `ssd_init_params`. -/
def ssdInitWords (cfg : SsdConfig) (capacity : BitVec 64) (nparts : BitVec 32) :
    Except Fault SsdWords := do
  let secsz : BitVec 32 := .ofNat 32 cfg.lbaSize
  let secsPerPg := (4096#32).sdiv secsz
  let pgsz := secsz * secsPerPg
  let flashPageSize : BitVec 32 := .ofNat 32 cfg.flashPageSize
  let oneshotPageSize : BitVec 32 := .ofNat 32 cfg.oneshotPageSize
  let nchs : BitVec 32 := .ofNat 32 cfg.nandChannels
  if nparts = 0 ∨ pgsz = 0 then .error (.divideByZero .ssdInitParams) else do
  -- an `int` and a `uint32_t`: the division is unsigned
  nvmevAssert (nchs % nparts = 0) .ssdInitParams
  let nchs := nchs / nparts
  let (blksPerPl, blkSize) ← blockCounts cfg (capacity / nparts.setWidth 64) nchs
  nvmevAssert (oneshotPageSize.srem pgsz = 0 ∧ flashPageSize.srem pgsz = 0) .ssdInitParams
  nvmevAssert (oneshotPageSize.srem flashPageSize = 0) .ssdInitParams
  let pgsPerOneshotpg := oneshotPageSize.sdiv pgsz
  let oneshotpgsPerBlk ← divRoundUpWord blkSize (widen oneshotPageSize)
  let oneshotpgsPerBlk := oneshotpgsPerBlk.setWidth 32
  return {
    secsz := secsz
    secsPerPg := secsPerPg
    pgsz := pgsz
    pgsPerFlashpg := flashPageSize.sdiv pgsz
    flashpgsPerBlk := oneshotPageSize.sdiv flashPageSize * oneshotpgsPerBlk
    pgsPerOneshotpg := pgsPerOneshotpg
    oneshotpgsPerBlk := oneshotpgsPerBlk
    pgsPerBlk := pgsPerOneshotpg * oneshotpgsPerBlk
    blksPerPl := blksPerPl
    plsPerLun := .ofNat 32 cfg.plnsPerLun
    lunsPerCh := .ofNat 32 cfg.lunsPerNandCh
    nchs := nchs }

section Fields

variable (ppa : BitVec 64)

/-! The bit-fields of `struct ppa`. -/

def ppaPg : BitVec 16 := ppa.extractLsb' 0 16
def ppaBlk : BitVec 16 := ppa.extractLsb' 16 16
def ppaPl : BitVec 8 := ppa.extractLsb' 32 8
def ppaLun : BitVec 8 := ppa.extractLsb' 40 8
def ppaCh : BitVec 8 := ppa.extractLsb' 48 8
def ppaRsv : BitVec 8 := ppa.extractLsb' 56 8

end Fields

/-- One of the tests of `valid_ppa`, on `int`s. -/
def inBounds (x bound : BitVec 32) : Bool := !(x.slt 0 || bound.sle x)

/-- `valid_ppa`. -/
def validPpaWord (w : SsdWords) (ppa : BitVec 64) : Bool :=
  inBounds ((ppaCh ppa).setWidth 32) w.nchs &&
  inBounds ((ppaLun ppa).setWidth 32) w.lunsPerCh &&
  inBounds ((ppaPl ppa).setWidth 32) w.plsPerLun &&
  inBounds ((ppaBlk ppa).setWidth 32) w.blksPerPl &&
  inBounds ((ppaPg ppa).setWidth 32) w.pgsPerBlk

/-- The sum `ppa2pgidx` forms. The 16-bit block number is promoted to an `int`, so
its product with the `int` next to it is one as well. -/
def pgidxWord (w : SsdWords) (ppa : BitVec 64) : BitVec 64 :=
  (ppaCh ppa).setWidth 64 * w.pgsPerCh + (ppaLun ppa).setWidth 64 * w.pgsPerLun +
    (ppaPl ppa).setWidth 64 * w.pgsPerPl +
    widen ((ppaBlk ppa).setWidth 32 * w.pgsPerBlk) + (ppaPg ppa).setWidth 64

/-- `ppa2pgidx`. -/
def ppa2pgidxWord (w : SsdWords) (ppa : BitVec 64) : Except Fault (BitVec 64) := do
  nvmevAssert (pgidxWord w ppa < w.ttPgs) .ppa2pgidx
  return pgidxWord w ppa

/-- What the macros of a build satisfy, apart from what `ssd_init_params` asserts. -/
structure Builds (cfg : SsdConfig) : Prop where
  lbaSize_pos : 0 < cfg.lbaSize
  lbaSize_le : cfg.lbaSize ≤ 4096
  flashPageSize_pos : 0 < cfg.flashPageSize
  flashPageSize_le : cfg.flashPageSize ≤ cfg.oneshotPageSize
  oneshotPageSize_lt : cfg.oneshotPageSize < 2 ^ 31
  dies_pos : 0 < cfg.plnsPerLun * cfg.lunsPerNandCh * cfg.nandChannels
  dies_le : cfg.plnsPerLun * cfg.lunsPerNandCh * cfg.nandChannels ≤ 2 ^ 20
  blks_lt : cfg.blksPerPln * (cfg.plnsPerLun * cfg.lunsPerNandCh * cfg.nandChannels) < 2 ^ 31

/-- The `ZNS_PROTOTYPE` configuration. -/
def znsPrototype : SsdConfig :=
  { lbaSize := 512
    nandChannels := 8
    plnsPerLun := 1
    lunsPerNandCh := 16
    blksPerPln := 0
    blkSize := 32 * 1024 * 1024
    flashPageSize := 64 * 1024
    oneshotPageSize := 128 * 1024
    writeUnitSize := 128 * 1024
    globalWbSize := 8 * 16 * (128 * 1024) * 2 }

/-- The `WD_ZN540` configuration. -/
def wdZn540 : SsdConfig :=
  { lbaSize := 512
    nandChannels := 8
    plnsPerLun := 1
    lunsPerNandCh := 4
    blksPerPln := 0
    blkSize := 64 * 1024 * 1024
    flashPageSize := 32 * 1024
    oneshotPageSize := 96 * 1024
    writeUnitSize := 512
    globalWbSize := 0 }

theorem shipped_builds : ∀ cfg ∈ [samsung970pro, znsPrototype, wdZn540], Builds cfg := by
  intro cfg hcfg
  simp only [List.mem_cons, List.not_mem_nil, or_false] at hcfg
  obtain rfl | rfl | rfl := hcfg <;> constructor <;> decide

/-- The exact counts fit the bit-fields of `struct ppa`, and the page count of a plane
an `int`. -/
structure Fits (spp : SsdParams) : Prop where
  pgsPerBlk_le : spp.pgsPerBlk ≤ 2 ^ 16
  blksPerPl_le : spp.blksPerPl ≤ 2 ^ 16
  plsPerLun_le : spp.plsPerLun ≤ 2 ^ 8
  lunsPerCh_le : spp.lunsPerCh ≤ 2 ^ 8
  nchs_le : spp.nchs ≤ 2 ^ 8
  pgsPerPl_lt : spp.pgsPerPl < 2 ^ 31

section Exact

theorem le_mul_divRoundUp (n : Nat) {d : Nat} (hd : 0 < d) : n ≤ d * divRoundUp n d := by
  have hdiv := Nat.div_add_mod (n + d - 1) d
  have hmod := Nat.mod_lt (n + d - 1) hd
  rw [divRoundUp]
  omega

/-- `blk_size` without cutting anything off. -/
def blkSizeOf (cfg : SsdConfig) (capacity nchs : Nat) : Nat :=
  if 0 < cfg.blksPerPln then
    divRoundUp capacity (cfg.blksPerPln * (cfg.plnsPerLun * cfg.lunsPerNandCh * nchs))
  else cfg.blkSize

def blksPerPlOf (cfg : SsdConfig) (capacity nchs : Nat) : Nat :=
  if 0 < cfg.blksPerPln then cfg.blksPerPln
  else divRoundUp capacity (cfg.blkSize * (cfg.plnsPerLun * cfg.lunsPerNandCh * nchs))

variable {cfg : SsdConfig} {capacity nparts nchs : Nat}

theorem capacity_le_blocks (hdies : 0 < cfg.plnsPerLun * cfg.lunsPerNandCh * nchs)
    (hblk : 0 < cfg.blksPerPln ∨ 0 < cfg.blkSize) :
    capacity ≤ blkSizeOf cfg capacity nchs * (blksPerPlOf cfg capacity nchs *
      (cfg.plnsPerLun * cfg.lunsPerNandCh * nchs)) := by
  rw [blkSizeOf, blksPerPlOf]
  split
  · next hpos =>
    rw [Nat.mul_comm]
    exact le_mul_divRoundUp _ (Nat.mul_pos hpos hdies)
  · next hnot =>
    have hpos := Nat.mul_pos (hblk.resolve_left hnot) hdies
    calc
      capacity ≤ cfg.blkSize * (cfg.plnsPerLun * cfg.lunsPerNandCh * nchs) *
          divRoundUp capacity (cfg.blkSize * (cfg.plnsPerLun * cfg.lunsPerNandCh * nchs)) :=
        le_mul_divRoundUp _ hpos
      _ = _ := by ring

variable (cfg capacity nparts)

theorem pgsPerBlk_init :
    (ssdInitParams cfg capacity nparts).pgsPerBlk =
      cfg.oneshotPageSize / (cfg.lbaSize * (4096 / cfg.lbaSize)) *
        divRoundUp (blkSizeOf cfg (capacity / nparts) (cfg.nandChannels / nparts))
          cfg.oneshotPageSize := rfl

theorem blksPerPl_init :
    (ssdInitParams cfg capacity nparts).blksPerPl =
      blksPerPlOf cfg (capacity / nparts) (cfg.nandChannels / nparts) := rfl

theorem pgsz_init :
    (ssdInitParams cfg capacity nparts).pgsz = cfg.lbaSize * (4096 / cfg.lbaSize) := rfl

theorem ttPgs_init :
    (ssdInitParams cfg capacity nparts).ttPgs =
      (ssdInitParams cfg capacity nparts).pgsPerPl *
        (cfg.plnsPerLun * cfg.lunsPerNandCh * (cfg.nandChannels / nparts)) := by
  simp only [SsdParams.ttPgs, SsdParams.pgsPerCh, SsdParams.pgsPerLun, ssdInitParams]
  ring

variable {cfg capacity nparts}

/-- What the code asserts before it divides: pages tile flash pages, flash pages tile
one-shot pages. -/
structure Tiles (cfg : SsdConfig) : Prop where
  pg_oneshot : cfg.lbaSize * (4096 / cfg.lbaSize) ∣ cfg.oneshotPageSize
  pg_flash : cfg.lbaSize * (4096 / cfg.lbaSize) ∣ cfg.flashPageSize
  flash_oneshot : cfg.flashPageSize ∣ cfg.oneshotPageSize

theorem flashpgs_tile (htiles : Tiles cfg) (hflash : 0 < cfg.flashPageSize) :
    (ssdInitParams cfg capacity nparts).flashpgsPerBlk *
        (ssdInitParams cfg capacity nparts).pgsPerFlashpg =
      (ssdInitParams cfg capacity nparts).pgsPerBlk := by
  have hratio : cfg.oneshotPageSize / cfg.flashPageSize *
      (cfg.flashPageSize / (cfg.lbaSize * (4096 / cfg.lbaSize))) =
        cfg.oneshotPageSize / (cfg.lbaSize * (4096 / cfg.lbaSize)) := by
    rw [Nat.div_mul_div_comm htiles.flash_oneshot htiles.pg_flash,
      Nat.mul_comm cfg.oneshotPageSize, Nat.mul_div_mul_left _ _ hflash]
  simp only [ssdInitParams]
  rw [Nat.mul_right_comm, hratio]

theorem lines_tile {spp : SsdParams} (hpls : spp.plsPerLun = 1) :
    spp.ttLines * spp.pgsPerLine = spp.ttPgs := by
  simp only [SsdParams.ttLines, SsdParams.blksPerLun, SsdParams.pgsPerLine,
    SsdParams.blksPerLine, SsdParams.ttLuns, SsdParams.ttPgs, SsdParams.pgsPerCh,
    SsdParams.pgsPerLun, SsdParams.pgsPerPl, hpls]
  ring

theorem blkSizeOf_le (htiles : Tiles cfg) (hone : 0 < cfg.oneshotPageSize) :
    blkSizeOf cfg (capacity / nparts) (cfg.nandChannels / nparts) ≤
      (ssdInitParams cfg capacity nparts).pgsz *
        (ssdInitParams cfg capacity nparts).pgsPerBlk := by
  rw [pgsPerBlk_init, pgsz_init, ← Nat.mul_assoc, Nat.mul_div_cancel' htiles.pg_oneshot]
  exact le_mul_divRoundUp _ hone

theorem capacity_le_pages (htiles : Tiles cfg) (hone : 0 < cfg.oneshotPageSize)
    (hdies : 0 < cfg.plnsPerLun * cfg.lunsPerNandCh * (cfg.nandChannels / nparts))
    (hblk : 0 < cfg.blksPerPln ∨ 0 < cfg.blkSize) :
    capacity / nparts ≤ (ssdInitParams cfg capacity nparts).ttPgs *
      (ssdInitParams cfg capacity nparts).pgsz := by
  calc
    capacity / nparts ≤ _ := capacity_le_blocks hdies hblk
    _ ≤ _ := Nat.mul_le_mul_right _ (blkSizeOf_le htiles hone)
    _ = _ := by
      rw [ttPgs_init, SsdParams.pgsPerPl, blksPerPl_init]
      ring

end Exact

section Words

theorem msb_eq_false {x : BitVec 32} (h : x.toNat < 2 ^ 31) : x.msb = false :=
  BitVec.msb_eq_false_iff_two_mul_lt.2 (by omega)

theorem toNat_widen {x : BitVec 32} (h : x.toNat < 2 ^ 31) : (widen x).toNat = x.toNat := by
  rw [widen, BitVec.signExtend_eq_setWidth_of_msb_false (msb_eq_false h),
    BitVec.toNat_setWidth]
  omega

theorem toNat_sdiv {x y : BitVec 32} (hx : x.toNat < 2 ^ 31) (hy : y.toNat < 2 ^ 31) :
    (x.sdiv y).toNat = x.toNat / y.toNat := by
  rw [BitVec.sdiv_eq, msb_eq_false hx, msb_eq_false hy]
  exact BitVec.toNat_udiv

theorem srem_eq_zero {x y : BitVec 32} (hx : x.toNat < 2 ^ 31) (hy : y.toNat < 2 ^ 31) :
    x.srem y = 0 ↔ y.toNat ∣ x.toNat := by
  rw [BitVec.srem_eq, msb_eq_false hx, msb_eq_false hy, ← BitVec.toNat_inj,
    BitVec.toNat_umod, Nat.dvd_iff_mod_eq_zero]
  rfl

theorem toNat_ofNat_of_lt {n : Nat} (h : n < 2 ^ 31) : (BitVec.ofNat 32 n).toNat = n := by
  rw [BitVec.toNat_ofNat]
  omega

theorem divRoundUpWord_spec {n d q : BitVec 64} (hrun : divRoundUpWord n d = .ok q)
    (hroom : n.toNat + d.toNat < 2 ^ 64) : q.toNat = divRoundUp n.toNat d.toNat := by
  rw [divRoundUpWord] at hrun
  split at hrun
  · cases hrun
  · next hd =>
    cases hrun
    have hpos : d.toNat ≠ 0 := by
      intro h
      exact hd (BitVec.eq_of_toNat_eq (by simpa using h))
    have hsum : (n + d).toNat = n.toNat + d.toNat := BitVec.toNat_add_of_lt hroom
    have hpred : (n + d - 1).toNat = n.toNat + d.toNat - 1 := by
      rw [BitVec.toNat_sub_of_le, hsum]
      · rfl
      · rw [BitVec.le_def, hsum]
        change 1 ≤ _
        omega
    rw [BitVec.toNat_udiv, hpred, divRoundUp]

variable {cfg : SsdConfig} {capacity blkSize : BitVec 64} {nchs blksPerPl : BitVec 32}

theorem blockCounts_sized (hrun : blockCounts cfg capacity nchs = .ok (blksPerPl, blkSize)) :
    0 < cfg.blksPerPln ∨ 0 < cfg.blkSize := by
  by_cases hB : 0 < cfg.blksPerPln
  · exact .inl hB
  · rw [blockCounts, if_neg hB] at hrun
    obtain ⟨u, hassert, -⟩ := exists_of_bind_eq_ok hrun
    exact .inr (of_nvmevAssert hassert)

theorem toNat_blks_mul {blks pls luns : Nat} {nchs : BitVec 32}
    (hblks : blks * (pls * luns * nchs.toNat) < 2 ^ 31) :
    (BitVec.ofNat 32 blks * BitVec.ofNat 32 pls * BitVec.ofNat 32 luns * nchs).toNat =
      blks * (pls * luns * nchs.toNat) := by
  rw [← Nat.mul_assoc, ← Nat.mul_assoc] at hblks ⊢
  rw [← Nat.mod_eq_of_lt (hblks.trans (by decide : 2 ^ 31 < 2 ^ 32))]
  simp [BitVec.toNat_mul, Nat.mul_mod]

theorem toNat_size_mul {size pls luns : Nat} {nchs : BitVec 32}
    (hsize : size ≤ 2 ^ 28) (hpls : pls ≤ 2 ^ 8) (hluns : luns ≤ 2 ^ 8)
    (hnchs : nchs.toNat ≤ 2 ^ 8) (hdies : pls * luns * nchs.toNat ≤ 2 ^ 20) :
    (BitVec.ofNat 64 size * widen (BitVec.ofNat 32 pls) * widen (BitVec.ofNat 32 luns) *
        widen nchs).toNat = size * (pls * luns * nchs.toNat) := by
  have hfit : size * (pls * luns * nchs.toNat) ≤ 2 ^ 28 * 2 ^ 20 :=
    Nat.mul_le_mul hsize hdies
  have hlt : size * pls * luns * nchs.toNat < 2 ^ 64 := by
    rw [Nat.mul_assoc, Nat.mul_assoc, ← Nat.mul_assoc pls]
    omega
  have hsizeWord : (BitVec.ofNat 64 size).toNat = size := by
    rw [BitVec.toNat_ofNat]
    omega
  have hplsWord : (BitVec.ofNat 32 pls).toNat = pls := toNat_ofNat_of_lt (by omega)
  have hlunsWord : (BitVec.ofNat 32 luns).toNat = luns := toNat_ofNat_of_lt (by omega)
  have hplsWide := toNat_widen (hplsWord.symm ▸ hpls.trans_lt (by decide))
  have hlunsWide := toNat_widen (hlunsWord.symm ▸ hluns.trans_lt (by decide))
  have hnchsWide := toNat_widen (hnchs.trans_lt (by decide))
  rw [← Nat.mul_assoc, ← Nat.mul_assoc, ← Nat.mod_eq_of_lt hlt]
  simp only [BitVec.toNat_mul, hplsWide, hlunsWide, hnchsWide, hplsWord, hlunsWord,
    hsizeWord, Nat.mod_mul_mod]

theorem blockCounts_spec (hrun : blockCounts cfg capacity nchs = .ok (blksPerPl, blkSize))
    (hpls : cfg.plnsPerLun ≤ 2 ^ 8) (hluns : cfg.lunsPerNandCh ≤ 2 ^ 8)
    (hnchs : nchs.toNat ≤ 2 ^ 8)
    (hdies : cfg.plnsPerLun * cfg.lunsPerNandCh * nchs.toNat ≤ 2 ^ 20)
    (hblks : cfg.blksPerPln * (cfg.plnsPerLun * cfg.lunsPerNandCh * nchs.toNat) < 2 ^ 31)
    (hcount : blksPerPlOf cfg capacity.toNat nchs.toNat ≤ 2 ^ 16)
    (hsize : blkSizeOf cfg capacity.toNat nchs.toNat ≤ 2 ^ 28)
    (hroom : capacity.toNat ≤ 2 ^ 63) :
    blksPerPl.toNat = blksPerPlOf cfg capacity.toNat nchs.toNat ∧
      blkSize.toNat = blkSizeOf cfg capacity.toNat nchs.toNat := by
  rw [blkSizeOf] at hsize ⊢
  rw [blksPerPlOf] at hcount ⊢
  rw [blockCounts] at hrun
  by_cases hB : 0 < cfg.blksPerPln
  · rw [if_pos hB] at hrun hsize hcount
    rw [if_pos hB, if_pos hB]
    obtain ⟨size, hround, hrun⟩ := exists_of_bind_eq_ok hrun
    cases hrun
    have hprod := toNat_blks_mul hblks
    have hwide := toNat_widen (hprod.symm ▸ hblks)
    rw [hprod] at hwide
    refine ⟨toNat_ofNat_of_lt (by omega), ?_⟩
    rw [divRoundUpWord_spec hround (by omega), hwide]
  · rw [if_neg hB] at hrun hsize hcount
    rw [if_neg hB, if_neg hB]
    obtain ⟨-, -, hrun⟩ := exists_of_bind_eq_ok hrun
    obtain ⟨count, hround, hrun⟩ := exists_of_bind_eq_ok hrun
    cases hrun
    have hprod := toNat_size_mul hsize hpls hluns hnchs hdies
    have hfit : cfg.blkSize * (cfg.plnsPerLun * cfg.lunsPerNandCh * nchs.toNat) ≤
        2 ^ 28 * 2 ^ 20 := Nat.mul_le_mul hsize hdies
    have hquot := divRoundUpWord_spec hround (by omega)
    rw [hprod] at hquot
    constructor
    · rw [BitVec.toNat_setWidth, hquot]
      omega
    · rw [BitVec.toNat_ofNat]
      omega

structure Represents (w : SsdWords) (spp : SsdParams) : Prop where
  pgsz : w.pgsz.toNat = spp.pgsz
  pgsPerFlashpg : w.pgsPerFlashpg.toNat = spp.pgsPerFlashpg
  flashpgsPerBlk : w.flashpgsPerBlk.toNat = spp.flashpgsPerBlk
  pgsPerBlk : w.pgsPerBlk.toNat = spp.pgsPerBlk
  blksPerPl : w.blksPerPl.toNat = spp.blksPerPl
  plsPerLun : w.plsPerLun.toNat = spp.plsPerLun
  lunsPerCh : w.lunsPerCh.toNat = spp.lunsPerCh
  nchs : w.nchs.toNat = spp.nchs

namespace Builds

variable (hcfg : Builds cfg)
include hcfg

theorem oneshot_pos : 0 < cfg.oneshotPageSize :=
  hcfg.flashPageSize_pos.trans_le hcfg.flashPageSize_le

theorem oneshotWord : (BitVec.ofNat 32 cfg.oneshotPageSize).toNat = cfg.oneshotPageSize :=
  toNat_ofNat_of_lt hcfg.oneshotPageSize_lt

theorem oneshotWord_lt : (BitVec.ofNat 32 cfg.oneshotPageSize).toNat < 2 ^ 31 := by
  rw [hcfg.oneshotWord]
  exact hcfg.oneshotPageSize_lt

theorem flashWord : (BitVec.ofNat 32 cfg.flashPageSize).toNat = cfg.flashPageSize :=
  toNat_ofNat_of_lt (hcfg.flashPageSize_le.trans_lt hcfg.oneshotPageSize_lt)

theorem flashWord_lt : (BitVec.ofNat 32 cfg.flashPageSize).toNat < 2 ^ 31 := by
  rw [hcfg.flashWord]
  exact hcfg.flashPageSize_le.trans_lt hcfg.oneshotPageSize_lt

omit hcfg in
theorem pgsz_le : cfg.lbaSize * (4096 / cfg.lbaSize) ≤ 2 ^ 12 :=
  Nat.mul_div_le 4096 cfg.lbaSize

theorem pgsz_pos : 0 < cfg.lbaSize * (4096 / cfg.lbaSize) :=
  Nat.mul_pos hcfg.lbaSize_pos (Nat.div_pos hcfg.lbaSize_le hcfg.lbaSize_pos)

theorem pgszWord : (BitVec.ofNat 32 cfg.lbaSize *
    BitVec.sdiv (4096#32) (.ofNat 32 cfg.lbaSize)).toNat =
      cfg.lbaSize * (4096 / cfg.lbaSize) := by
  have hlt : cfg.lbaSize < 2 ^ 31 := hcfg.lbaSize_le.trans_lt (by decide)
  have hlba : (BitVec.ofNat 32 cfg.lbaSize).toNat = cfg.lbaSize := toNat_ofNat_of_lt hlt
  have hsecs : (BitVec.sdiv (4096#32) (.ofNat 32 cfg.lbaSize)).toNat = 4096 / cfg.lbaSize := by
    rw [toNat_sdiv (by decide) (hlba.symm ▸ hlt), hlba]
    rfl
  rw [BitVec.toNat_mul_of_lt, hlba, hsecs]
  rw [hlba, hsecs]
  exact pgsz_le.trans_lt (by decide)

theorem channelsWord : (BitVec.ofNat 32 cfg.nandChannels).toNat = cfg.nandChannels := by
  refine toNat_ofNat_of_lt (lt_of_le_of_lt ?_ (by decide : 2 ^ 20 < 2 ^ 31))
  exact (Nat.le_mul_of_pos_left _ (Nat.pos_of_mul_pos_right hcfg.dies_pos)).trans hcfg.dies_le

end Builds

/-- What an admitted request says of the build, and how the words come about. -/
structure Admitted (cfg : SsdConfig) (capacity : BitVec 64) (nparts : BitVec 32)
    (w : SsdWords) : Prop where
  nparts_pos : 0 < nparts.toNat
  nparts_dvd : nparts.toNat ∣ cfg.nandChannels
  tiles : Tiles cfg
  pgsz : w.pgsz.toNat = cfg.lbaSize * (4096 / cfg.lbaSize)
  pgsPerFlashpg : w.pgsPerFlashpg.toNat = cfg.flashPageSize / w.pgsz.toNat
  plsPerLun : w.plsPerLun = .ofNat 32 cfg.plnsPerLun
  lunsPerCh : w.lunsPerCh = .ofNat 32 cfg.lunsPerNandCh
  nchs : w.nchs.toNat = cfg.nandChannels / nparts.toNat
  blocks : ∃ blkSize, blockCounts cfg (capacity / nparts.setWidth 64) w.nchs =
      .ok (w.blksPerPl, blkSize) ∧
    ∃ oneshots, divRoundUpWord blkSize (widen (.ofNat 32 cfg.oneshotPageSize)) =
        .ok oneshots ∧
      w.pgsPerBlk = BitVec.sdiv (.ofNat 32 cfg.oneshotPageSize) w.pgsz *
        oneshots.setWidth 32 ∧
      w.flashpgsPerBlk = BitVec.sdiv (.ofNat 32 cfg.oneshotPageSize)
        (.ofNat 32 cfg.flashPageSize) * oneshots.setWidth 32

theorem admitted {nparts : BitVec 32} {w : SsdWords} (hcfg : Builds cfg)
    (hrun : ssdInitWords cfg capacity nparts = .ok w) : Admitted cfg capacity nparts w := by
  have hpgsz := hcfg.pgszWord
  have hpgszLt := hpgsz.symm ▸ Builds.pgsz_le.trans_lt (by decide : 2 ^ 12 < 2 ^ 31)
  unfold ssdInitWords at hrun
  dsimp only at hrun
  split at hrun
  · cases hrun
  · next hzero =>
    rw [not_or] at hzero
    obtain ⟨u, hdvd, hrun⟩ := exists_of_bind_eq_ok hrun
    obtain ⟨⟨blksPerPl, blkSize⟩, hblocks, hrun⟩ := exists_of_bind_eq_ok hrun
    obtain ⟨u', hpages, hrun⟩ := exists_of_bind_eq_ok hrun
    obtain ⟨u'', hflashes, hrun⟩ := exists_of_bind_eq_ok hrun
    obtain ⟨oneshots, hround, hrun⟩ := exists_of_bind_eq_ok hrun
    cases hrun
    have hdvd := of_nvmevAssert hdvd
    have hpages := of_nvmevAssert hpages
    have hflashes := of_nvmevAssert hflashes
    rw [srem_eq_zero hcfg.oneshotWord_lt hpgszLt, srem_eq_zero hcfg.flashWord_lt hpgszLt,
      hcfg.oneshotWord, hcfg.flashWord, hpgsz] at hpages
    rw [srem_eq_zero hcfg.oneshotWord_lt hcfg.flashWord_lt, hcfg.oneshotWord,
      hcfg.flashWord] at hflashes
    have hparts : nparts.toNat ∣ cfg.nandChannels := by
      have hmod := congrArg BitVec.toNat hdvd
      rw [BitVec.toNat_umod, hcfg.channelsWord] at hmod
      exact Nat.dvd_of_mod_eq_zero hmod
    refine ⟨?_, hparts, ⟨hpages.1, hpages.2, hflashes⟩, hpgsz, ?_, rfl, rfl, ?_,
      blkSize, hblocks, oneshots, hround, rfl, rfl⟩
    · rw [Nat.pos_iff_ne_zero]
      intro h
      exact hzero.1 (BitVec.eq_of_toNat_eq (by simpa using h))
    · rw [toNat_sdiv hcfg.flashWord_lt hpgszLt, hcfg.flashWord]
    · rw [BitVec.toNat_udiv, hcfg.channelsWord]

namespace Admitted

variable {nparts : BitVec 32} {w : SsdWords} (h : Admitted cfg capacity nparts w)
  (hcfg : Builds cfg)
include h hcfg

theorem dies_pos :
    0 < cfg.plnsPerLun * cfg.lunsPerNandCh * (cfg.nandChannels / nparts.toNat) := by
  have hchs := Nat.pos_of_mul_pos_left hcfg.dies_pos
  exact Nat.mul_pos (Nat.pos_of_mul_pos_right hcfg.dies_pos)
    (Nat.div_pos (Nat.le_of_dvd hchs h.nparts_dvd) h.nparts_pos)

omit h in
theorem dies_le : cfg.plnsPerLun * cfg.lunsPerNandCh * (cfg.nandChannels / nparts.toNat) ≤
    2 ^ 20 :=
  (Nat.mul_le_mul_left _ (Nat.div_le_self _ _)).trans hcfg.dies_le

theorem capacity_le :
    capacity.toNat / nparts.toNat ≤
      (ssdInitParams cfg capacity.toNat nparts.toNat).ttPgs *
        (ssdInitParams cfg capacity.toNat nparts.toNat).pgsz := by
  obtain ⟨blkSize, hblocks, -⟩ := h.blocks
  exact capacity_le_pages h.tiles hcfg.oneshot_pos (h.dies_pos hcfg)
    (blockCounts_sized hblocks)

variable (hfits : Fits (ssdInitParams cfg capacity.toNat nparts.toNat))
include hfits

theorem capacity_room : capacity.toNat / nparts.toNat ≤ 2 ^ 63 := by
  calc
    capacity.toNat / nparts.toNat ≤ _ := h.capacity_le hcfg
    _ ≤ 2 ^ 31 * 2 ^ 20 * 2 ^ 12 := by
      rw [ttPgs_init]
      exact Nat.mul_le_mul (Nat.mul_le_mul hfits.pgsPerPl_lt.le (dies_le hcfg)) Builds.pgsz_le
    _ = 2 ^ 63 := by norm_num

theorem blkSize_room : blkSizeOf cfg (capacity.toNat / nparts.toNat)
    (cfg.nandChannels / nparts.toNat) ≤ 2 ^ 28 := by
  calc
    _ ≤ _ := blkSizeOf_le h.tiles hcfg.oneshot_pos
    _ ≤ 2 ^ 12 * 2 ^ 16 := Nat.mul_le_mul Builds.pgsz_le hfits.pgsPerBlk_le
    _ = 2 ^ 28 := by norm_num

theorem blockCounts_eq {blkSize : BitVec 64}
    (hblocks : blockCounts cfg (capacity / nparts.setWidth 64) w.nchs =
      .ok (w.blksPerPl, blkSize)) :
    w.blksPerPl.toNat = (ssdInitParams cfg capacity.toNat nparts.toNat).blksPerPl ∧
      blkSize.toNat = blkSizeOf cfg (capacity.toNat / nparts.toNat)
        (cfg.nandChannels / nparts.toNat) := by
  have hcapacity : (capacity / nparts.setWidth 64).toNat = capacity.toNat / nparts.toNat := by
    rw [BitVec.toNat_udiv, BitVec.toNat_setWidth,
      Nat.mod_eq_of_lt (nparts.isLt.trans (by decide))]
  have hblks : cfg.blksPerPln * (cfg.plnsPerLun * cfg.lunsPerNandCh *
      (cfg.nandChannels / nparts.toNat)) < 2 ^ 31 :=
    (Nat.mul_le_mul_left _ (Nat.mul_le_mul_left _ (Nat.div_le_self _ _))).trans_lt
      hcfg.blks_lt
  have hspec := blockCounts_spec hblocks hfits.plsPerLun_le hfits.lunsPerCh_le
  rw [hcapacity, h.nchs] at hspec
  exact hspec hfits.nchs_le (dies_le hcfg) hblks hfits.blksPerPl_le
    (h.blkSize_room hcfg hfits) (h.capacity_room hcfg hfits)

theorem oneshots_eq {blkSize oneshots : BitVec 64}
    (hblkSize : blkSize.toNat = blkSizeOf cfg (capacity.toNat / nparts.toNat)
      (cfg.nandChannels / nparts.toNat))
    (hround : divRoundUpWord blkSize (widen (.ofNat 32 cfg.oneshotPageSize)) =
      .ok oneshots) :
    (BitVec.sdiv (.ofNat 32 cfg.oneshotPageSize) w.pgsz * oneshots.setWidth 32).toNat =
        (ssdInitParams cfg capacity.toNat nparts.toNat).pgsPerBlk ∧
      (BitVec.sdiv (.ofNat 32 cfg.oneshotPageSize) (.ofNat 32 cfg.flashPageSize) *
        oneshots.setWidth 32).toNat =
          (ssdInitParams cfg capacity.toNat nparts.toNat).flashpgsPerBlk := by
  have hpgszLt := h.pgsz.symm ▸ Builds.pgsz_le.trans_lt (by decide : 2 ^ 12 < 2 ^ 31)
  have honeshots : oneshots.toNat = divRoundUp (blkSizeOf cfg (capacity.toNat / nparts.toNat)
      (cfg.nandChannels / nparts.toNat)) cfg.oneshotPageSize := by
    have hwide := toNat_widen hcfg.oneshotWord_lt
    rw [hcfg.oneshotWord] at hwide
    have hbound := hcfg.oneshotPageSize_lt
    have hroom := h.blkSize_room hcfg hfits
    rw [divRoundUpWord_spec hround (by omega), hblkSize, hwide]
  have hpgs : cfg.oneshotPageSize / (cfg.lbaSize * (4096 / cfg.lbaSize)) * oneshots.toNat ≤
      2 ^ 16 := by
    rw [honeshots]
    exact hfits.pgsPerBlk_le
  have hflashpgs : cfg.oneshotPageSize / cfg.flashPageSize * oneshots.toNat ≤ 2 ^ 16 :=
    (Nat.mul_le_mul_right _ (Nat.div_le_div_left (Nat.le_of_dvd hcfg.flashPageSize_pos
      h.tiles.pg_flash) hcfg.pgsz_pos)).trans hpgs
  have hnarrow : (oneshots.setWidth 32).toNat = oneshots.toNat := by
    have hpos : 0 < cfg.oneshotPageSize / (cfg.lbaSize * (4096 / cfg.lbaSize)) :=
      Nat.div_pos (Nat.le_of_dvd hcfg.oneshot_pos h.tiles.pg_oneshot) hcfg.pgsz_pos
    have hle := (Nat.le_mul_of_pos_left oneshots.toNat hpos).trans hpgs
    rw [BitVec.toNat_setWidth]
    omega
  have hpg := toNat_sdiv hcfg.oneshotWord_lt hpgszLt
  have hflash := toNat_sdiv hcfg.oneshotWord_lt hcfg.flashWord_lt
  rw [hcfg.oneshotWord, h.pgsz] at hpg
  rw [hcfg.oneshotWord, hcfg.flashWord] at hflash
  constructor
  · rw [BitVec.toNat_mul_of_lt, hpg, hnarrow, honeshots]
    · rfl
    · rw [hpg, hnarrow]
      omega
  · rw [BitVec.toNat_mul_of_lt, hflash, hnarrow, honeshots]
    · rfl
    · rw [hflash, hnarrow]
      omega

theorem represents : Represents w (ssdInitParams cfg capacity.toNat nparts.toNat) := by
  obtain ⟨blkSize, hblocks, oneshots, hround, hpgs, hflashpgs⟩ := h.blocks
  obtain ⟨hcount, hblkSize⟩ := h.blockCounts_eq hcfg hfits hblocks
  obtain ⟨hpgsEq, hflashpgsEq⟩ := h.oneshots_eq hcfg hfits hblkSize hround
  have hpls : cfg.plnsPerLun ≤ 2 ^ 8 := hfits.plsPerLun_le
  have hluns : cfg.lunsPerNandCh ≤ 2 ^ 8 := hfits.lunsPerCh_le
  refine ⟨h.pgsz, ?_, hflashpgs ▸ hflashpgsEq, hpgs ▸ hpgsEq, hcount, ?_, ?_, h.nchs⟩
  · rw [h.pgsPerFlashpg, h.pgsz]
    rfl
  · rw [h.plsPerLun, toNat_ofNat_of_lt (hpls.trans_lt (by decide))]
    rfl
  · rw [h.lunsPerCh, toNat_ofNat_of_lt (hluns.trans_lt (by decide))]
    rfl

end Admitted

end Words

theorem times_small {x : BitVec 64} {y : BitVec 32} {a b n : Nat} (hx : x.toNat = a)
    (ha : a < 2 ^ n) (hn : n ≤ 56) (hy : y.toNat = b) (hb : b ≤ 2 ^ 8) :
    (x * widen y).toNat = a * b ∧ a * b < 2 ^ (n + 8) := by
  have hlt : a * b < 2 ^ (n + 8) := by
    calc
      a * b ≤ a * 2 ^ 8 := Nat.mul_le_mul_left _ hb
      _ < 2 ^ n * 2 ^ 8 := Nat.mul_lt_mul_of_pos_right ha (by decide)
      _ = 2 ^ (n + 8) := (pow_add 2 n 8).symm
  have hwide := toNat_widen (hy.symm ▸ hb.trans_lt (by decide : 2 ^ 8 < 2 ^ 31))
  refine ⟨?_, hlt⟩
  rw [BitVec.toNat_mul_of_lt, hwide, hx, hy]
  rw [hwide, hx, hy]
  exact hlt.trans_le (Nat.pow_le_pow_right (by decide) (by omega))

namespace Represents

variable {w : SsdWords} {spp : SsdParams} (h : Represents w spp) (hfits : Fits spp)
include h hfits

theorem pgsPerPl : w.pgsPerPl.toNat = spp.pgsPerPl := by
  have hlt : spp.pgsPerBlk * spp.blksPerPl < 2 ^ 31 := hfits.pgsPerPl_lt
  have hprod : (w.pgsPerBlk * w.blksPerPl).toNat = spp.pgsPerBlk * spp.blksPerPl := by
    rw [BitVec.toNat_mul_of_lt, h.pgsPerBlk, h.blksPerPl]
    rw [h.pgsPerBlk, h.blksPerPl]
    omega
  rw [SsdWords.pgsPerPl, toNat_widen (hprod.symm ▸ hlt), hprod, SsdParams.pgsPerPl]

theorem pgsPerLun : w.pgsPerLun.toNat = spp.pgsPerLun ∧ spp.pgsPerLun < 2 ^ 39 :=
  times_small (h.pgsPerPl hfits) hfits.pgsPerPl_lt (by decide) h.plsPerLun hfits.plsPerLun_le

theorem pgsPerCh : w.pgsPerCh.toNat = spp.pgsPerCh ∧ spp.pgsPerCh < 2 ^ 47 :=
  times_small (h.pgsPerLun hfits).1 (h.pgsPerLun hfits).2 (by decide) h.lunsPerCh
    hfits.lunsPerCh_le

theorem ttPgs : w.ttPgs.toNat = spp.ttPgs ∧ spp.ttPgs < 2 ^ 55 :=
  times_small (h.pgsPerCh hfits).1 (h.pgsPerCh hfits).2 (by decide) h.nchs hfits.nchs_le

theorem ttLines : w.ttLines.toNat = spp.ttLines := by
  have hle : spp.blksPerPl * spp.plsPerLun ≤ 2 ^ 16 * 2 ^ 8 :=
    Nat.mul_le_mul hfits.blksPerPl_le hfits.plsPerLun_le
  have hprod : (w.blksPerPl * w.plsPerLun).toNat = spp.blksPerPl * spp.plsPerLun := by
    rw [BitVec.toNat_mul_of_lt, h.blksPerPl, h.plsPerLun]
    rw [h.blksPerPl, h.plsPerLun]
    omega
  rw [SsdWords.ttLines, SsdWords.blksPerLun, toNat_widen (by omega), hprod]
  rfl

theorem pgsPerLine : w.pgsPerLine.toNat = spp.pgsPerLine := by
  have hle : spp.lunsPerCh * spp.nchs ≤ 2 ^ 8 * 2 ^ 8 :=
    Nat.mul_le_mul hfits.lunsPerCh_le hfits.nchs_le
  have hprod : (w.lunsPerCh * w.nchs).toNat = spp.lunsPerCh * spp.nchs := by
    rw [BitVec.toNat_mul_of_lt, h.lunsPerCh, h.nchs]
    rw [h.lunsPerCh, h.nchs]
    omega
  have hluns : (widen (w.lunsPerCh * w.nchs)).toNat = spp.lunsPerCh * spp.nchs := by
    rw [toNat_widen (by omega), hprod]
  have hpgs : (widen w.pgsPerBlk).toNat = spp.pgsPerBlk := by
    rw [toNat_widen, h.pgsPerBlk]
    rw [h.pgsPerBlk]
    exact hfits.pgsPerBlk_le.trans_lt (by decide)
  have hline : spp.lunsPerCh * spp.nchs * spp.pgsPerBlk ≤ 2 ^ 16 * 2 ^ 16 :=
    Nat.mul_le_mul hle hfits.pgsPerBlk_le
  rw [SsdWords.pgsPerLine, SsdWords.blksPerLine, SsdWords.ttLuns, BitVec.toNat_mul_of_lt,
    hluns, hpgs]
  · rfl
  · rw [hluns, hpgs]
    exact hline.trans_lt (by decide)

end Represents

section Fields

theorem toNat_ppaPg (ppa : BitVec 64) : (ppaPg ppa).toNat = ppa.toNat % 2 ^ 16 := by
  simp [ppaPg]

theorem toNat_ppaBlk (ppa : BitVec 64) : (ppaBlk ppa).toNat = ppa.toNat / 2 ^ 16 % 2 ^ 16 := by
  simp [ppaBlk, Nat.shiftRight_eq_div_pow]

theorem toNat_ppaPl (ppa : BitVec 64) : (ppaPl ppa).toNat = ppa.toNat / 2 ^ 32 % 2 ^ 8 := by
  simp [ppaPl, Nat.shiftRight_eq_div_pow]

theorem toNat_ppaLun (ppa : BitVec 64) : (ppaLun ppa).toNat = ppa.toNat / 2 ^ 40 % 2 ^ 8 := by
  simp [ppaLun, Nat.shiftRight_eq_div_pow]

theorem toNat_ppaCh (ppa : BitVec 64) : (ppaCh ppa).toNat = ppa.toNat / 2 ^ 48 % 2 ^ 8 := by
  simp [ppaCh, Nat.shiftRight_eq_div_pow]

theorem toNat_ppaRsv (ppa : BitVec 64) : (ppaRsv ppa).toNat = ppa.toNat / 2 ^ 56 % 2 ^ 8 := by
  simp [ppaRsv, Nat.shiftRight_eq_div_pow]

def ppaOf (ppa : BitVec 64) : Ppa where
  ch := (ppaCh ppa).toNat
  lun := (ppaLun ppa).toNat
  pl := (ppaPl ppa).toNat
  blk := (ppaBlk ppa).toNat
  pg := (ppaPg ppa).toNat

theorem ppaOf_inj {a b : BitVec 64} (ha : ppaRsv a = 0) (hb : ppaRsv b = 0)
    (h : ppaOf a = ppaOf b) : a = b := by
  have ha := congrArg BitVec.toNat ha
  have hb := congrArg BitVec.toNat hb
  simp only [ppaOf, Ppa.mk.injEq, toNat_ppaPg, toNat_ppaBlk, toNat_ppaPl, toNat_ppaLun,
    toNat_ppaCh] at h
  rw [toNat_ppaRsv] at ha hb
  obtain ⟨hch, hlun, hpl, hblk, hpg⟩ := h
  have hzero : (0 : BitVec 8).toNat = 0 := rfl
  have halt := a.isLt
  have hblt := b.isLt
  apply BitVec.eq_of_toNat_eq
  omega

theorem exists_ppaOf {p : Ppa} (hch : p.ch < 2 ^ 8) (hlun : p.lun < 2 ^ 8)
    (hpl : p.pl < 2 ^ 8) (hblk : p.blk < 2 ^ 16) (hpg : p.pg < 2 ^ 16) :
    ∃ ppa, ppaRsv ppa = 0 ∧ ppaOf ppa = p := by
  have hlt : p.ch * 2 ^ 48 + p.lun * 2 ^ 40 + p.pl * 2 ^ 32 + p.blk * 2 ^ 16 + p.pg <
      2 ^ 56 := by omega
  refine ⟨.ofNat 64 (p.ch * 2 ^ 48 + p.lun * 2 ^ 40 + p.pl * 2 ^ 32 + p.blk * 2 ^ 16 + p.pg),
    ?_, ?_⟩
  · apply BitVec.eq_of_toNat_eq
    rw [toNat_ppaRsv, BitVec.toNat_ofNat]
    change _ = 0
    omega
  · apply Ppa.ext <;>
      simp only [ppaOf, toNat_ppaPg, toNat_ppaBlk, toNat_ppaPl, toNat_ppaLun, toNat_ppaCh,
        BitVec.toNat_ofNat] <;>
      omega

end Fields

theorem inBounds_iff {x bound : BitVec 32} (hx : x.toNat < 2 ^ 31)
    (hbound : bound.toNat < 2 ^ 31) : inBounds x bound = true ↔ x.toNat < bound.toNat := by
  have hxInt : x.toInt = x.toNat := BitVec.toInt_eq_toNat_of_lt (by omega)
  have hboundInt : bound.toInt = bound.toNat := BitVec.toInt_eq_toNat_of_lt (by omega)
  rw [inBounds, BitVec.slt_eq_decide, BitVec.sle_eq_decide, hxInt, hboundInt]
  simp

theorem inBounds_field {n : Nat} (hn : n ≤ 16) (x : BitVec n) {bound : BitVec 32}
    (hbound : bound.toNat ≤ 2 ^ 16) :
    inBounds (x.setWidth 32) bound = true ↔ x.toNat < bound.toNat := by
  have hlt : x.toNat < 2 ^ 16 := x.isLt.trans_le (Nat.pow_le_pow_right (by decide) hn)
  have hwidth : (x.setWidth 32).toNat = x.toNat :=
    BitVec.toNat_setWidth_of_le (hn.trans (by decide))
  rw [inBounds_iff (by omega) (by omega), hwidth]

namespace Represents

variable {w : SsdWords} {spp : SsdParams} (h : Represents w spp) (hfits : Fits spp)
include h hfits

theorem validPpaWord_iff (ppa : BitVec 64) :
    validPpaWord w ppa = true ↔ ValidPpa spp (ppaOf ppa) := by
  have hpgs := hfits.pgsPerBlk_le
  have hblks := hfits.blksPerPl_le
  have hpls := hfits.plsPerLun_le
  have hluns := hfits.lunsPerCh_le
  have hchs := hfits.nchs_le
  rw [← h.pgsPerBlk] at hpgs
  rw [← h.blksPerPl] at hblks
  rw [← h.plsPerLun] at hpls
  rw [← h.lunsPerCh] at hluns
  rw [← h.nchs] at hchs
  simp only [validPpaWord, Bool.and_eq_true, and_assoc]
  rw [inBounds_field (by decide) _ (by omega), inBounds_field (by decide) _ (by omega),
    inBounds_field (by decide) _ (by omega), inBounds_field (by decide) _ hblks,
    inBounds_field (by decide) _ hpgs, h.nchs, h.lunsPerCh, h.plsPerLun, h.blksPerPl,
    h.pgsPerBlk]
  rfl

theorem pgidxWord_eq {ppa : BitVec 64} (hvalid : ValidPpa spp (ppaOf ppa)) :
    (pgidxWord w ppa).toNat = ppa2pgidx spp (ppaOf ppa) := by
  have hlt := (ppa2pgidx_lt hvalid).trans ((h.ttPgs hfits).2.trans (by decide : 2 ^ 55 < 2 ^ 64))
  have hblkLt : (ppaBlk ppa).toNat * spp.pgsPerBlk < 2 ^ 31 := by
    have hle : (ppaBlk ppa).toNat * spp.pgsPerBlk ≤ spp.pgsPerBlk * spp.blksPerPl := by
      rw [Nat.mul_comm]
      exact Nat.mul_le_mul_left _ hvalid.2.2.2.1.le
    exact hle.trans_lt hfits.pgsPerPl_lt
  have hblk : (widen ((ppaBlk ppa).setWidth 32 * w.pgsPerBlk)).toNat =
      (ppaBlk ppa).toNat * spp.pgsPerBlk := by
    have hfield : ((ppaBlk ppa).setWidth 32).toNat = (ppaBlk ppa).toNat :=
      BitVec.toNat_setWidth_of_le (by decide)
    have hprod : ((ppaBlk ppa).setWidth 32 * w.pgsPerBlk).toNat =
        (ppaBlk ppa).toNat * spp.pgsPerBlk := by
      rw [BitVec.toNat_mul_of_lt, hfield, h.pgsPerBlk]
      rw [hfield, h.pgsPerBlk]
      omega
    rw [toNat_widen (hprod.symm ▸ hblkLt), hprod]
  have hfield : ∀ x : BitVec 8, (x.setWidth 64).toNat = x.toNat := fun x =>
    BitVec.toNat_setWidth_of_le (by decide)
  have hpg : ((ppaPg ppa).setWidth 64).toNat = (ppaPg ppa).toNat :=
    BitVec.toNat_setWidth_of_le (by decide)
  rw [← Nat.mod_eq_of_lt hlt]
  simp only [pgidxWord, BitVec.toNat_add, BitVec.toNat_mul, hfield, hblk, hpg,
    (h.pgsPerCh hfits).1, (h.pgsPerLun hfits).1, h.pgsPerPl hfits, Nat.mod_add_mod,
    Nat.add_mod_mod]
  rfl

theorem ppa2pgidxWord_eq {ppa : BitVec 64} (hvalid : validPpaWord w ppa = true) :
    ppa2pgidxWord w ppa = .ok (pgidxWord w ppa) := by
  have hvalid := (h.validPpaWord_iff hfits ppa).1 hvalid
  have hlt : pgidxWord w ppa < w.ttPgs := by
    rw [BitVec.lt_def, h.pgidxWord_eq hfits hvalid, (h.ttPgs hfits).1]
    exact ppa2pgidx_lt hvalid
  rw [ppa2pgidxWord, nvmevAssert_of hlt]
  rfl

theorem pgidxWord_bijOn :
    Set.BijOn (pgidxWord w) {ppa | validPpaWord w ppa = true ∧ ppaRsv ppa = 0}
      {pgidx | pgidx < w.ttPgs} := by
  refine ⟨?_, ?_, ?_⟩
  · rintro ppa ⟨hvalid, -⟩
    rw [h.validPpaWord_iff hfits] at hvalid
    rw [Set.mem_ofPred_eq, BitVec.lt_def, h.pgidxWord_eq hfits hvalid, (h.ttPgs hfits).1]
    exact ppa2pgidx_lt hvalid
  · rintro a ⟨ha, harsv⟩ b ⟨hb, hbrsv⟩ heq
    rw [h.validPpaWord_iff hfits] at ha hb
    have heq := congrArg BitVec.toNat heq
    rw [h.pgidxWord_eq hfits ha, h.pgidxWord_eq hfits hb] at heq
    exact ppaOf_inj harsv hbrsv (ppa2pgidx_inj ha hb heq)
  · intro pgidx hlt
    rw [Set.mem_ofPred_eq, BitVec.lt_def, (h.ttPgs hfits).1] at hlt
    obtain ⟨p, hvalid, hp⟩ := exists_ppa2pgidx hlt
    obtain ⟨hch, hlun, hpl, hblk, hpg⟩ := hvalid
    obtain ⟨ppa, hrsv, rfl⟩ := exists_ppaOf (hch.trans_le hfits.nchs_le)
      (hlun.trans_le hfits.lunsPerCh_le) (hpl.trans_le hfits.plsPerLun_le)
      (hblk.trans_le hfits.blksPerPl_le) (hpg.trans_le hfits.pgsPerBlk_le)
    have hvalid : ValidPpa spp (ppaOf ppa) := ⟨hch, hlun, hpl, hblk, hpg⟩
    refine ⟨ppa, ⟨(h.validPpaWord_iff hfits ppa).2 hvalid, hrsv⟩, ?_⟩
    apply BitVec.eq_of_toNat_eq
    rw [h.pgidxWord_eq hfits hvalid, hp]

end Represents

/-- For every request whose exact counts fit their fields, the words number the pages
without a gap, and the pages hold the capacity that was asked for. -/
theorem page_numbering {cfg : SsdConfig} (hcfg : Builds cfg) {capacity : BitVec 64}
    {nparts : BitVec 32} {w : SsdWords} (hrun : ssdInitWords cfg capacity nparts = .ok w)
    (hfits : Fits (ssdInitParams cfg capacity.toNat nparts.toNat)) :
    (∀ ppa, validPpaWord w ppa = true → ppa2pgidxWord w ppa = .ok (pgidxWord w ppa)) ∧
      Set.BijOn (pgidxWord w) {ppa | validPpaWord w ppa = true ∧ ppaRsv ppa = 0}
        {pgidx | pgidx < w.ttPgs} ∧
      w.flashpgsPerBlk.toNat * w.pgsPerFlashpg.toNat = w.pgsPerBlk.toNat ∧
      (w.plsPerLun = 1 → w.ttLines.toNat * w.pgsPerLine.toNat = w.ttPgs.toNat) ∧
      nparts.toNat * (capacity.toNat / nparts.toNat) ≤
        nparts.toNat * (w.ttPgs.toNat * w.pgsz.toNat) := by
  have hadmitted := admitted hcfg hrun
  have h := hadmitted.represents hcfg hfits
  refine ⟨fun ppa => h.ppa2pgidxWord_eq hfits, h.pgidxWord_bijOn hfits, ?_, ?_, ?_⟩
  · rw [h.flashpgsPerBlk, h.pgsPerFlashpg, h.pgsPerBlk]
    exact flashpgs_tile hadmitted.tiles hcfg.flashPageSize_pos
  · intro hpls
    rw [h.ttLines hfits, h.pgsPerLine hfits, (h.ttPgs hfits).1]
    refine lines_tile ?_
    rw [← h.plsPerLun, hpls]
    rfl
  · rw [(h.ttPgs hfits).1, h.pgsz]
    exact Nat.mul_le_mul_left _ (hadmitted.capacity_le hcfg)

theorem page_numbering_shipped :
    ∃ w, ssdInitWords samsung970pro 1073741824#64 4#32 = .ok w ∧
      Set.BijOn (pgidxWord w) {ppa | validPpaWord w ppa = true ∧ ppaRsv ppa = 0}
        {pgidx | pgidx < w.ttPgs} := by
  have hrun : returns (ssdInitWords samsung970pro 1073741824#64 4#32) (fun _ => true) = true := by
    decide +kernel
  obtain ⟨w, hrun, -⟩ := exists_of_returns hrun
  have hfits : Fits (ssdInitParams samsung970pro 1073741824 4) := by
    constructor <;> decide
  exact ⟨w, hrun, (page_numbering (shipped_builds _ (by simp)) hrun hfits).2.1⟩

end NvmeVirt.PageNumbering
