import Mathlib.Data.Finset.Card
import Mathlib.Data.Finset.Prod

namespace NvmeVirt.FlashGeometry

/-- `DIV_ROUND_UP` of the kernel. -/
def divRoundUp (n d : Nat) : Nat := (n + d - 1) / d

/-- The macros of `ssd_config.h` that `ssd_init_params` reads. -/
structure SsdConfig where
  lbaSize : Nat
  nandChannels : Nat
  plnsPerLun : Nat
  lunsPerNandCh : Nat
  blksPerPln : Nat
  blkSize : Nat
  flashPageSize : Nat
  oneshotPageSize : Nat
  writeUnitSize : Nat
  globalWbSize : Nat

/-- `struct ssdparams`, without the latencies and bandwidths. The values that
the source keeps in further fields but computes from these are the functions
below. -/
structure SsdParams where
  secsz : Nat
  secsPerPg : Nat
  pgsz : Nat
  pgsPerFlashpg : Nat
  flashpgsPerBlk : Nat
  pgsPerOneshotpg : Nat
  oneshotpgsPerBlk : Nat
  pgsPerBlk : Nat
  blksPerPl : Nat
  plsPerLun : Nat
  lunsPerCh : Nat
  nchs : Nat
  writeUnitSize : Nat
  writeBufferSize : Nat

namespace SsdParams

variable (spp : SsdParams)

def pgsPerPl : Nat := spp.pgsPerBlk * spp.blksPerPl
def pgsPerLun : Nat := spp.pgsPerPl * spp.plsPerLun
def pgsPerCh : Nat := spp.pgsPerLun * spp.lunsPerCh
def ttPgs : Nat := spp.pgsPerCh * spp.nchs
def blksPerLun : Nat := spp.blksPerPl * spp.plsPerLun
def ttLuns : Nat := spp.lunsPerCh * spp.nchs
def blksPerLine : Nat := spp.ttLuns
def pgsPerLine : Nat := spp.blksPerLine * spp.pgsPerBlk
def ttLines : Nat := spp.blksPerLun

end SsdParams

/-- `ssd_init_params`: the array of one of `nparts` partitions of a device of
`capacity` bytes. -/
def ssdInitParams (cfg : SsdConfig) (capacity nparts : Nat) : SsdParams :=
  let secsz := cfg.lbaSize
  let secsPerPg := 4096 / cfg.lbaSize
  let pgsz := secsz * secsPerPg
  let nchs := cfg.nandChannels / nparts
  let capacity := capacity / nparts
  let dies := cfg.plnsPerLun * cfg.lunsPerNandCh * nchs
  let blkSize :=
    if 0 < cfg.blksPerPln then divRoundUp capacity (cfg.blksPerPln * dies)
    else cfg.blkSize
  let blksPerPl :=
    if 0 < cfg.blksPerPln then cfg.blksPerPln
    else divRoundUp capacity (cfg.blkSize * dies)
  let pgsPerOneshotpg := cfg.oneshotPageSize / pgsz
  let oneshotpgsPerBlk := divRoundUp blkSize cfg.oneshotPageSize
  { secsz := secsz
    secsPerPg := secsPerPg
    pgsz := pgsz
    pgsPerFlashpg := cfg.flashPageSize / pgsz
    flashpgsPerBlk := cfg.oneshotPageSize / cfg.flashPageSize * oneshotpgsPerBlk
    pgsPerOneshotpg := pgsPerOneshotpg
    oneshotpgsPerBlk := oneshotpgsPerBlk
    pgsPerBlk := pgsPerOneshotpg * oneshotpgsPerBlk
    blksPerPl := blksPerPl
    plsPerLun := cfg.plnsPerLun
    lunsPerCh := cfg.lunsPerNandCh
    nchs := nchs
    writeUnitSize := cfg.writeUnitSize
    writeBufferSize := cfg.globalWbSize }

/-- The `SAMSUNG_970PRO` configuration. -/
def samsung970pro : SsdConfig :=
  { lbaSize := 512
    nandChannels := 8
    plnsPerLun := 1
    lunsPerNandCh := 2
    blksPerPln := 8192
    blkSize := 0
    flashPageSize := 32 * 1024
    oneshotPageSize := 32 * 1024
    writeUnitSize := 512
    globalWbSize := 8 * 2 * (32 * 1024) * 2 }

/-- Parameters that the C types can carry: lines are not empty, blocks split
evenly into one-shot pages and into flash pages, every coordinate fits its
bit-field of `struct ppa`, and the page counts of a plane and of a line fit an
`int`. -/
structure Geometry extends SsdParams where
  pgsPerLine_pos : 0 < toSsdParams.pgsPerLine
  blk_oneshot : pgsPerBlk = pgsPerOneshotpg * oneshotpgsPerBlk
  blk_flash : pgsPerBlk = pgsPerFlashpg * flashpgsPerBlk
  nchs_le : nchs ≤ 2 ^ 8
  lunsPerCh_le : lunsPerCh ≤ 2 ^ 8
  blksPerPl_le : blksPerPl ≤ 2 ^ 16
  pgsPerBlk_le : pgsPerBlk ≤ 2 ^ 16
  pgsPerPl_lt : toSsdParams.pgsPerPl < 2 ^ 31
  pgsPerLine_lt : toSsdParams.pgsPerLine < 2 ^ 31

/-- `struct ppa`, a physical page address. The all-ones `UNMAPPED_PPA` is not
a page and is the `none` of `Option Ppa`. -/
@[ext] structure Ppa where
  ch : Nat
  lun : Nat
  pl : Nat
  blk : Nat
  pg : Nat
deriving DecidableEq, Repr

/-- Assigning the bit-fields of a `struct ppa` keeps their low bits. -/
def Ppa.ofFields (ch lun pl blk pg : Nat) : Ppa :=
  { ch := ch % 2 ^ 8
    lun := lun % 2 ^ 8
    pl := pl % 2 ^ 8
    blk := blk % 2 ^ 16
    pg := pg % 2 ^ 16 }

/-- The block a page lies in: channel, LUN, plane and block number. -/
def Ppa.blkAddr (ppa : Ppa) : Nat × Nat × Nat × Nat :=
  (ppa.ch, ppa.lun, ppa.pl, ppa.blk)

/-- `ppa2pgidx`, the index of a page in `rmap`. -/
def ppa2pgidx (spp : SsdParams) (ppa : Ppa) : Nat :=
  ppa.ch * spp.pgsPerCh + ppa.lun * spp.pgsPerLun + ppa.pl * spp.pgsPerPl +
    ppa.blk * spp.pgsPerBlk + ppa.pg

def ValidPpa (spp : SsdParams) (ppa : Ppa) : Prop :=
  ppa.ch < spp.nchs ∧ ppa.lun < spp.lunsPerCh ∧ ppa.pl < spp.plsPerLun ∧
    ppa.blk < spp.blksPerPl ∧ ppa.pg < spp.pgsPerBlk

instance (spp : SsdParams) (ppa : Ppa) : Decidable (ValidPpa spp ppa) :=
  inferInstanceAs (Decidable (_ ∧ _ ∧ _ ∧ _ ∧ _))

/-- The pages of line `l`: one block of every LUN, in plane 0. -/
def linePages (spp : SsdParams) (l : Nat) : Finset Ppa :=
  ((Finset.range spp.nchs ×ˢ Finset.range spp.lunsPerCh) ×ˢ
    Finset.range spp.pgsPerBlk).image fun x =>
      { ch := x.1.1, lun := x.1.2, pl := 0, blk := l, pg := x.2 }

def blkPages (spp : SsdParams) (a : Nat × Nat × Nat × Nat) : Finset Ppa :=
  (Finset.range spp.pgsPerBlk).image fun pg =>
    { ch := a.1, lun := a.2.1, pl := a.2.2.1, blk := a.2.2.2, pg := pg }

theorem mem_linePages {spp : SsdParams} {l : Nat} {p : Ppa} :
    p ∈ linePages spp l ↔
      p.ch < spp.nchs ∧ p.lun < spp.lunsPerCh ∧ p.pl = 0 ∧ p.blk = l ∧
        p.pg < spp.pgsPerBlk := by
  simp only [linePages, Finset.mem_image, Finset.mem_product, Finset.mem_range]
  constructor
  · rintro ⟨⟨⟨ch, lun⟩, pg⟩, ⟨⟨hch, hlun⟩, hpg⟩, rfl⟩
    exact ⟨hch, hlun, rfl, rfl, hpg⟩
  · rintro ⟨hch, hlun, hpl, hblk, hpg⟩
    refine ⟨((p.ch, p.lun), p.pg), ⟨⟨hch, hlun⟩, hpg⟩, ?_⟩
    exact Ppa.ext rfl rfl hpl.symm hblk.symm rfl

theorem mem_blkPages {spp : SsdParams} {a : Nat × Nat × Nat × Nat} {p : Ppa} :
    p ∈ blkPages spp a ↔ p.blkAddr = a ∧ p.pg < spp.pgsPerBlk := by
  simp only [blkPages, Finset.mem_image, Finset.mem_range, Ppa.blkAddr]
  constructor
  · rintro ⟨pg, hpg, rfl⟩
    exact ⟨rfl, hpg⟩
  · rintro ⟨rfl, hpg⟩
    exact ⟨p.pg, hpg, rfl⟩

theorem card_linePages (spp : SsdParams) (l : Nat) :
    (linePages spp l).card = spp.pgsPerLine := by
  rw [linePages, Finset.card_image_of_injective]
  · simp [SsdParams.pgsPerLine, SsdParams.blksPerLine, SsdParams.ttLuns,
      Nat.mul_comm spp.lunsPerCh]
  · rintro ⟨⟨c, u⟩, g⟩ ⟨⟨c', u'⟩, g'⟩ h
    simp only [Ppa.mk.injEq] at h
    simp [h.1, h.2.1, h.2.2.2.2]

theorem card_blkPages (spp : SsdParams) (a : Nat × Nat × Nat × Nat) :
    (blkPages spp a).card = spp.pgsPerBlk := by
  rw [blkPages, Finset.card_image_of_injective]
  · simp
  · intro g g' h
    exact (Ppa.mk.inj h).2.2.2.2

theorem mem_linePages_of_mem_blkPages {spp : SsdParams} {l : Nat} {p q : Ppa}
    (hp : p ∈ linePages spp l) (hq : q ∈ blkPages spp p.blkAddr) : q ∈ linePages spp l := by
  obtain ⟨hch, hlun, hpl, hblk, -⟩ := mem_linePages.mp hp
  obtain ⟨haddr, hpg⟩ := mem_blkPages.mp hq
  simp only [Ppa.blkAddr, Prod.mk.injEq] at haddr
  obtain ⟨hqch, hqlun, hqpl, hqblk⟩ := haddr
  exact mem_linePages.mpr
    ⟨hqch ▸ hch, hqlun ▸ hlun, hqpl.trans hpl, hqblk.trans hblk, hpg⟩

theorem mem_linePages_of_valid {spp : SsdParams} (hpls : spp.plsPerLun = 1)
    {p : Ppa} (hp : ValidPpa spp p) : p ∈ linePages spp p.blk := by
  obtain ⟨hch, hlun, hpl, -, hpg⟩ := hp
  exact mem_linePages.mpr ⟨hch, hlun, by omega, rfl, hpg⟩

theorem valid_of_mem_linePages {spp : SsdParams} (hpls : spp.plsPerLun = 1)
    {l : Nat} (hl : l < spp.blksPerPl) {p : Ppa} (hp : p ∈ linePages spp l) :
    ValidPpa spp p := by
  obtain ⟨hch, hlun, hpl, hblk, hpg⟩ := mem_linePages.mp hp
  exact ⟨hch, hlun, by omega, by omega, hpg⟩

theorem digits_inj {base a b a' b' : Nat} (hb : b < base) (hb' : b' < base)
    (h : a * base + b = a' * base + b') : a = a' ∧ b = b' := by
  have ha : a = a' := by
    have hdiv := congrArg (· / base) h
    have hpos : 0 < base := by omega
    simpa [Nat.mul_comm _ base, Nat.mul_add_div hpos, Nat.div_eq_of_lt hb,
      Nat.div_eq_of_lt hb'] using hdiv
  subst ha
  exact ⟨rfl, by omega⟩

theorem digits_lt {base n a b : Nat} (ha : a < n) (hb : b < base) :
    a * base + b < base * n := by
  calc
    a * base + b < a * base + base := by omega
    _ = base * (a + 1) := by rw [Nat.mul_comm a base, Nat.mul_add, Nat.mul_one]
    _ ≤ base * n := Nat.mul_le_mul_left _ ha

theorem ppa2pgidx_lt {spp : SsdParams} {p : Ppa} (hp : ValidPpa spp p) :
    ppa2pgidx spp p < spp.ttPgs := by
  obtain ⟨hch, hlun, hpl, hblk, hpg⟩ := hp
  have h₁ : p.blk * spp.pgsPerBlk + p.pg < spp.pgsPerPl := digits_lt hblk hpg
  have h₂ : p.pl * spp.pgsPerPl + (p.blk * spp.pgsPerBlk + p.pg) <
      spp.pgsPerLun := digits_lt hpl h₁
  have h₃ := digits_lt hlun h₂
  have h₄ := digits_lt hch h₃
  simpa [ppa2pgidx, SsdParams.ttPgs, SsdParams.pgsPerCh, Nat.add_assoc] using h₄

theorem ppa2pgidx_inj {spp : SsdParams} {p q : Ppa} (hp : ValidPpa spp p)
    (hq : ValidPpa spp q) (h : ppa2pgidx spp p = ppa2pgidx spp q) : p = q := by
  obtain ⟨-, hlun, hpl, hblk, hpg⟩ := hp
  obtain ⟨-, hlun', hpl', hblk', hpg'⟩ := hq
  have h₁ : p.blk * spp.pgsPerBlk + p.pg < spp.pgsPerPl := digits_lt hblk hpg
  have h₁' : q.blk * spp.pgsPerBlk + q.pg < spp.pgsPerPl := digits_lt hblk' hpg'
  have h₂ : p.pl * spp.pgsPerPl + (p.blk * spp.pgsPerBlk + p.pg) <
      spp.pgsPerLun := digits_lt hpl h₁
  have h₂' : q.pl * spp.pgsPerPl + (q.blk * spp.pgsPerBlk + q.pg) <
      spp.pgsPerLun := digits_lt hpl' h₁'
  have h₃ : p.lun * spp.pgsPerLun + (p.pl * spp.pgsPerPl +
      (p.blk * spp.pgsPerBlk + p.pg)) < spp.pgsPerCh := digits_lt hlun h₂
  have h₃' : q.lun * spp.pgsPerLun + (q.pl * spp.pgsPerPl +
      (q.blk * spp.pgsPerBlk + q.pg)) < spp.pgsPerCh := digits_lt hlun' h₂'
  simp only [ppa2pgidx, Nat.add_assoc] at h
  obtain ⟨hchEq, h⟩ := digits_inj h₃ h₃' h
  obtain ⟨hlunEq, h⟩ := digits_inj h₂ h₂' h
  obtain ⟨hplEq, h⟩ := digits_inj h₁ h₁' h
  obtain ⟨hblkEq, hpgEq⟩ := digits_inj hpg hpg' h
  exact Ppa.ext hchEq hlunEq hplEq hblkEq hpgEq

theorem exists_digits {base n i : Nat} (h : i < base * n) :
    ∃ a b, a < n ∧ b < base ∧ a * base + b = i := by
  have hpos : 0 < base := Nat.pos_of_lt_mul_right h
  exact ⟨i / base, i % base, Nat.div_lt_of_lt_mul h, Nat.mod_lt i hpos,
    Nat.div_add_mod' i base⟩

theorem exists_ppa2pgidx {spp : SsdParams} {i : Nat} (h : i < spp.ttPgs) :
    ∃ p, ValidPpa spp p ∧ ppa2pgidx spp p = i := by
  obtain ⟨ch, inCh, hch, hinCh, rfl⟩ := exists_digits h
  obtain ⟨lun, inLun, hlun, hinLun, rfl⟩ := exists_digits hinCh
  obtain ⟨pl, inPl, hpl, hinPl, rfl⟩ := exists_digits hinLun
  obtain ⟨blk, pg, hblk, hpg, rfl⟩ := exists_digits hinPl
  refine ⟨{ ch := ch, lun := lun, pl := pl, blk := blk, pg := pg },
    ⟨hch, hlun, hpl, hblk, hpg⟩, ?_⟩
  simp only [ppa2pgidx, Nat.add_assoc]

end NvmeVirt.FlashGeometry
