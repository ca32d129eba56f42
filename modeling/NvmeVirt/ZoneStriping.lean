import Mathlib.Algebra.BigOperators.Ring.List
import Mathlib.Data.Nat.ModEq
import NvmeVirt.PageNumbering
import NvmeVirt.RangeTiling
import NvmeVirt.ZonedFtl

namespace NvmeVirt.ZoneStriping

open FlashGeometry
open PageNumbering (wdZn540)
open RangeTiling
open ZonedFtl

section Code

variable (spp : SsdParams) (zpp : ZnsParams)

def dieToChannel (die : Nat) : Nat := die % spp.nchs

def dieToLun (die : Nat) : Nat := die / spp.nchs

/-- The variable `die` of `__lpn_to_ppa`, a `uint32_t`. -/
def dieOf (lpn : Nat) : Nat :=
  let zone := lpnToZone spp zpp lpn
  let off := lpn - zoneToSlpn spp zpp zone
  let sdie := zone * zpp.diesPerZone % spp.ttLuns % 2 ^ 32
  (sdie + off / spp.pgsPerOneshotpg % zpp.diesPerZone) % 2 ^ 32

/-- `__lpn_to_ppa`. -/
def lpnToPpa (lpn : Nat) : Ppa :=
  let die := dieOf spp zpp lpn
  Ppa.ofFields (dieToChannel spp die) (dieToLun spp die) 0 0 (pageOffset spp zpp lpn)

/-- A NAND read of `zns_read`, with the first page it covers and their number. -/
structure ReadChunk where
  lpn : Nat
  pgs : Nat
  xferSize : Nat
  ppa : Ppa
deriving DecidableEq, Repr

def ReadChunk.range (c : ReadChunk) : Nat × Nat := (c.lpn, c.pgs)

/-- The body of the loop of `zns_read`. -/
def readChunk (elpn lpn : Nat) : ReadChunk :=
  let ppa := lpnToPpa spp zpp lpn
  let pgOff := ppa.pg % spp.pgsPerFlashpg
  let pgs := min (elpn - lpn + 1) (spp.pgsPerFlashpg - pgOff)
  { lpn := lpn, pgs := pgs, xferSize := pgs * spp.pgsz, ppa := ppa }

/-- The loop of `zns_read`; every round advances by at least one page. -/
def readChunks (elpn : Nat) : Nat → Nat → List ReadChunk
  | 0, _ => []
  | fuel + 1, lpn =>
      if elpn < lpn then []
      else
        let c := readChunk spp zpp elpn lpn
        c :: readChunks elpn fuel (lpn + c.pgs)

def znsReadChunks (slpn elpn : Nat) : List ReadChunk :=
  readChunks spp zpp elpn (elpn + 1 - slpn) slpn

def zonePgs : Nat := zpp.zoneSize / spp.pgsz

def oneshotpgOf (lpn : Nat) : Nat := lpn % zonePgs spp zpp / spp.pgsPerOneshotpg

def flashpgOf (lpn : Nat) : Nat := lpn % zonePgs spp zpp / spp.pgsPerFlashpg

end Code

def SameDie (p q : Ppa) : Prop := p.ch = q.ch ∧ p.lun = q.lun

/-- Every page of a chunk lies in the flash page of the first one, on the die read. -/
def InOneFlashpg (spp : SsdParams) (zpp : ZnsParams) (c : ReadChunk) : Prop :=
  ∀ x, c.lpn ≤ x → x < c.lpn + c.pgs →
    x / zonePgs spp zpp = c.lpn / zonePgs spp zpp ∧
      flashpgOf spp zpp x = flashpgOf spp zpp c.lpn ∧ SameDie (lpnToPpa spp zpp x) c.ppa

/-- Nothing the code divides by is 0, zones and one-shot pages consist of whole flash
pages, and the dies of a zone divide the dies there are. -/
structure Striped (spp : SsdParams) (zpp : ZnsParams) : Prop where
  pgsz_pos : 0 < spp.pgsz
  flashpg_pos : 0 < spp.pgsPerFlashpg
  oneshotpg_pos : 0 < spp.pgsPerOneshotpg
  luns_pos : 0 < spp.ttLuns
  zone_pos : 0 < zpp.zoneSize
  dies_dvd : zpp.diesPerZone ∣ spp.ttLuns
  flashpg_dvd : spp.pgsPerFlashpg ∣ spp.pgsPerOneshotpg
  zone_dvd : spp.pgsPerFlashpg * spp.pgsz ∣ zpp.zoneSize

variable {spp : SsdParams} {zpp : ZnsParams}

namespace Striped

theorem nchs_pos (h : Striped spp zpp) : 0 < spp.nchs :=
  Nat.pos_of_mul_pos_left h.luns_pos

theorem dies_pos (h : Striped spp zpp) : 0 < zpp.diesPerZone :=
  Nat.pos_of_dvd_of_pos h.dies_dvd h.luns_pos

theorem flashpg_dvd_zone (h : Striped spp zpp) : spp.pgsPerFlashpg ∣ zonePgs spp zpp := by
  rw [zonePgs]
  exact Nat.dvd_div_of_mul_dvd (by rw [Nat.mul_comm]; exact h.zone_dvd)

end Striped

theorem add_le_of_dvd {m a n : Nat} (ha : m ∣ a) (hn : m ∣ n) (hlt : a < n) : a + m ≤ n := by
  obtain ⟨i, rfl⟩ := ha
  obtain ⟨j, rfl⟩ := hn
  have hij : i < j := Nat.lt_of_mul_lt_mul_left hlt
  exact Nat.mul_le_mul_left m hij

section Dies

variable (h : Striped spp zpp)
include h

theorem sdie_add_lt (zone n : Nat) :
    zone * zpp.diesPerZone % spp.ttLuns + n % zpp.diesPerZone < spp.ttLuns := by
  have hdvd : zpp.diesPerZone ∣ zone * zpp.diesPerZone % spp.ttLuns :=
    (Nat.dvd_mod_iff h.dies_dvd).2 (Nat.dvd_mul_left _ _)
  have hroom := add_le_of_dvd hdvd h.dies_dvd (Nat.mod_lt _ h.luns_pos)
  have hlt := Nat.mod_lt n h.dies_pos
  omega

theorem dieOf_lt (lpn : Nat) : dieOf spp zpp lpn < spp.ttLuns := by
  refine lt_of_le_of_lt ((Nat.mod_le _ _).trans ?_) (sdie_add_lt h (lpnToZone spp zpp lpn)
    ((lpn - zoneToSlpn spp zpp (lpnToZone spp zpp lpn)) / spp.pgsPerOneshotpg))
  exact Nat.add_le_add_right (Nat.mod_le _ _) _

theorem dieOf_div_lt (lpn : Nat) : dieOf spp zpp lpn / spp.nchs < spp.lunsPerCh := by
  refine Nat.div_lt_of_lt_mul ?_
  rw [Nat.mul_comm]
  exact dieOf_lt h lpn

theorem lpnToPpa_lt (lpn : Nat) :
    (lpnToPpa spp zpp lpn).ch < spp.nchs ∧ (lpnToPpa spp zpp lpn).lun < spp.lunsPerCh :=
  ⟨lt_of_le_of_lt (Nat.mod_le _ _) (Nat.mod_lt _ h.nchs_pos),
    lt_of_le_of_lt (Nat.mod_le _ _) (dieOf_div_lt h lpn)⟩

end Dies

section Offset

variable {lpn : Nat}

theorem lpnToZone_of_lt (hlpn : lpn < 2 ^ 32) :
    lpnToZone spp zpp lpn = lpn / zonePgs spp zpp :=
  Nat.mod_eq_of_lt (lt_of_le_of_lt (Nat.div_le_self _ _) hlpn)

theorem slpn_of_lt (hlpn : lpn < 2 ^ 32) :
    zoneToSlpn spp zpp (lpnToZone spp zpp lpn) =
      lpn / zonePgs spp zpp * zonePgs spp zpp := by
  rw [lpnToZone_of_lt hlpn]
  exact Nat.mod_eq_of_lt (lt_of_le_of_lt (Nat.div_mul_le_self _ _) hlpn)

theorem offset_of_lt (hlpn : lpn < 2 ^ 32) :
    lpn - zoneToSlpn spp zpp (lpnToZone spp zpp lpn) = lpn % zonePgs spp zpp := by
  have hsplit := Nat.div_add_mod' lpn (zonePgs spp zpp)
  rw [slpn_of_lt hlpn]
  omega

theorem dieOf_of_lt (hlpn : lpn < 2 ^ 32) :
    dieOf spp zpp lpn =
      (lpn / zonePgs spp zpp * zpp.diesPerZone % spp.ttLuns % 2 ^ 32 +
        oneshotpgOf spp zpp lpn % zpp.diesPerZone) % 2 ^ 32 := by
  have hzone : lpnToZone spp zpp lpn = lpn / zonePgs spp zpp := lpnToZone_of_lt hlpn
  have hoff : lpn - zoneToSlpn spp zpp (lpnToZone spp zpp lpn) = lpn % zonePgs spp zpp :=
    offset_of_lt hlpn
  rw [hzone] at hoff
  simp only [dieOf, hzone, hoff, oneshotpgOf]

end Offset

section SameDie

variable {a b : Nat}

theorem sameDie_of_dieOf (hdie : dieOf spp zpp a = dieOf spp zpp b) :
    SameDie (lpnToPpa spp zpp a) (lpnToPpa spp zpp b) := by
  simp only [SameDie, lpnToPpa, Ppa.ofFields, hdie, and_self]

theorem sameDie_iff_dieOf (h : Striped spp zpp) (hchs : spp.nchs ≤ 2 ^ 8)
    (hluns : spp.lunsPerCh ≤ 2 ^ 8) :
    SameDie (lpnToPpa spp zpp a) (lpnToPpa spp zpp b) ↔
      dieOf spp zpp a = dieOf spp zpp b := by
  refine ⟨?_, sameDie_of_dieOf⟩
  rintro ⟨hch, hlun⟩
  have hchannel (die : Nat) : die % spp.nchs % 2 ^ 8 = die % spp.nchs :=
    Nat.mod_eq_of_lt (lt_of_lt_of_le (Nat.mod_lt _ h.nchs_pos) hchs)
  have hdie (lpn : Nat) : dieOf spp zpp lpn / spp.nchs % 2 ^ 8 =
      dieOf spp zpp lpn / spp.nchs :=
    Nat.mod_eq_of_lt (lt_of_lt_of_le (dieOf_div_lt h lpn) hluns)
  change dieOf spp zpp a % spp.nchs % 2 ^ 8 = dieOf spp zpp b % spp.nchs % 2 ^ 8 at hch
  change dieOf spp zpp a / spp.nchs % 2 ^ 8 = dieOf spp zpp b / spp.nchs % 2 ^ 8 at hlun
  rw [hchannel, hchannel] at hch
  rw [hdie, hdie] at hlun
  calc dieOf spp zpp a
      = spp.nchs * (dieOf spp zpp a / spp.nchs) + dieOf spp zpp a % spp.nchs :=
        (Nat.div_add_mod _ _).symm
    _ = spp.nchs * (dieOf spp zpp b / spp.nchs) + dieOf spp zpp b % spp.nchs := by
        rw [hch, hlun]
    _ = dieOf spp zpp b := Nat.div_add_mod _ _

theorem dieOf_eq_iff (h : Striped spp zpp) (hdies : spp.ttLuns ≤ 2 ^ 32)
    (ha : a < 2 ^ 32) (hb : b < 2 ^ 32)
    (hzone : a / zonePgs spp zpp = b / zonePgs spp zpp) :
    dieOf spp zpp a = dieOf spp zpp b ↔
      oneshotpgOf spp zpp a ≡ oneshotpgOf spp zpp b [MOD zpp.diesPerZone] := by
  have hword (zone n : Nat) :
      (zone * zpp.diesPerZone % spp.ttLuns % 2 ^ 32 + n % zpp.diesPerZone) % 2 ^ 32 =
        zone * zpp.diesPerZone % spp.ttLuns + n % zpp.diesPerZone := by
    have hlt := sdie_add_lt h zone n
    rw [Nat.mod_eq_of_lt (show zone * zpp.diesPerZone % spp.ttLuns < 2 ^ 32 by omega)]
    exact Nat.mod_eq_of_lt (by omega)
  rw [dieOf_of_lt ha, dieOf_of_lt hb, hword, hword, hzone, Nat.add_left_cancel_iff]
  rfl

end SameDie

section FlashPages

variable {a b : Nat}

theorem same_flashpg (h : Striped spp zpp)
    (hquot : a / spp.pgsPerFlashpg = b / spp.pgsPerFlashpg) :
    a / zonePgs spp zpp = b / zonePgs spp zpp ∧ flashpgOf spp zpp a = flashpgOf spp zpp b := by
  obtain ⟨k, hk⟩ := h.flashpg_dvd_zone
  rw [flashpgOf, flashpgOf, hk]
  constructor
  · rw [← Nat.div_div_eq_div_mul, hquot, Nat.div_div_eq_div_mul]
  · rw [Nat.mod_mul_right_div_self, hquot, Nat.mod_mul_right_div_self]

/-- The subtrahend of `off` is a multiple of the flash page, also where the product that
computes it is cut off, if flash pages divide `2 ^ 32`. -/
theorem flashpg_dvd_slpn (h : Striped spp zpp) (ha : a < 2 ^ 32 ∨ spp.pgsPerFlashpg ∣ 2 ^ 32) :
    spp.pgsPerFlashpg ∣ zoneToSlpn spp zpp (lpnToZone spp zpp a) := by
  rcases ha with hlt | hdvd
  · rw [slpn_of_lt hlt]
    exact h.flashpg_dvd_zone.mul_left _
  · exact (Nat.dvd_mod_iff hdvd).2 (h.flashpg_dvd_zone.mul_left _)

theorem slpn_le (a : Nat) : zoneToSlpn spp zpp (lpnToZone spp zpp a) ≤ a :=
  calc zoneToSlpn spp zpp (lpnToZone spp zpp a)
      ≤ lpnToZone spp zpp a * zonePgs spp zpp := Nat.mod_le _ _
    _ ≤ a / zonePgs spp zpp * zonePgs spp zpp := Nat.mul_le_mul_right _ (Nat.mod_le _ _)
    _ ≤ a := Nat.div_mul_le_self _ _

theorem dieOf_of_same_flashpg (h : Striped spp zpp)
    (ha : a < 2 ^ 32 ∨ spp.pgsPerFlashpg ∣ 2 ^ 32)
    (hquot : a / spp.pgsPerFlashpg = b / spp.pgsPerFlashpg) :
    dieOf spp zpp a = dieOf spp zpp b := by
  have hzone : lpnToZone spp zpp a = lpnToZone spp zpp b :=
    congrArg (· % 2 ^ 32) (same_flashpg h hquot).1
  have hdvd := flashpg_dvd_slpn h ha
  have hoff : (a - zoneToSlpn spp zpp (lpnToZone spp zpp b)) / spp.pgsPerOneshotpg =
      (b - zoneToSlpn spp zpp (lpnToZone spp zpp b)) / spp.pgsPerOneshotpg := by
    obtain ⟨k, hk⟩ := h.flashpg_dvd
    obtain ⟨n, hn⟩ := hdvd
    rw [hzone] at hn
    rw [hn, hk, ← Nat.div_div_eq_div_mul, ← Nat.div_div_eq_div_mul, Nat.sub_mul_div,
      Nat.sub_mul_div, hquot]
  simp only [dieOf, hzone, hoff]

/-- Taking the page offset modulo the one-shot page and then modulo the flash page is
taking the page number modulo the flash page, if the page field does not come between. -/
theorem lpnToPpa_pg_mod (h : Striped spp zpp)
    (hpg : spp.pgsPerOneshotpg ≤ 2 ^ 16 ∨ spp.pgsPerFlashpg ∣ 2 ^ 16)
    (ha : a < 2 ^ 32 ∨ spp.pgsPerFlashpg ∣ 2 ^ 32) :
    (lpnToPpa spp zpp a).pg % spp.pgsPerFlashpg = a % spp.pgsPerFlashpg := by
  have hfield : pageOffset spp zpp a % 2 ^ 16 % spp.pgsPerFlashpg =
      pageOffset spp zpp a % spp.pgsPerFlashpg := by
    rcases hpg with hshort | hdvd
    · have hlt : pageOffset spp zpp a < 2 ^ 16 :=
        lt_of_lt_of_le (Nat.mod_lt _ h.oneshotpg_pos) hshort
      rw [Nat.mod_eq_of_lt hlt]
    · exact Nat.mod_mod_of_dvd _ hdvd
  calc (lpnToPpa spp zpp a).pg % spp.pgsPerFlashpg
      = pageOffset spp zpp a % spp.pgsPerFlashpg := hfield
    _ = (a - zoneToSlpn spp zpp (lpnToZone spp zpp a)) % spp.pgsPerFlashpg := by
        rw [pageOffset, Nat.mod_mod_of_dvd _ h.flashpg_dvd]
    _ = a % spp.pgsPerFlashpg := by
        obtain ⟨n, hn⟩ := flashpg_dvd_slpn h ha
        have hle : zoneToSlpn spp zpp (lpnToZone spp zpp a) ≤ a := slpn_le a
        rw [hn] at hle ⊢
        exact Nat.sub_mul_mod hle

end FlashPages

section Chunks

variable {elpn : Nat}

theorem readChunk_pos (h : Striped spp zpp) (lpn : Nat) :
    0 < (readChunk spp zpp elpn lpn).pgs := by
  have hoff := Nat.mod_lt (lpnToPpa spp zpp lpn).pg h.flashpg_pos
  exact lt_min (Nat.succ_pos _) (Nat.sub_pos_of_lt hoff)

theorem readChunk_le {lpn : Nat} (hle : lpn ≤ elpn) :
    lpn + (readChunk spp zpp elpn lpn).pgs ≤ elpn + 1 := by
  have hmin : (readChunk spp zpp elpn lpn).pgs ≤ elpn - lpn + 1 := Nat.min_le_left _ _
  omega

theorem mem_readChunks {fuel lpn : Nat} {c : ReadChunk}
    (hc : c ∈ readChunks spp zpp elpn fuel lpn) :
    c = readChunk spp zpp elpn c.lpn ∧ c.lpn ≤ elpn := by
  induction fuel generalizing lpn with
  | zero => simp [readChunks] at hc
  | succ fuel ih =>
      rw [readChunks] at hc
      split at hc
      · simp at hc
      · rename_i hle
        rcases List.mem_cons.1 hc with rfl | hrest
        · exact ⟨rfl, Nat.le_of_not_lt hle⟩
        · exact ih hrest

/-- The induction is on the rounds left; every round takes at least one page off the
range. -/
theorem readChunks_tiles (h : Striped spp zpp) {fuel lpn : Nat} (hle : lpn ≤ elpn + 1)
    (hfuel : elpn + 1 - lpn ≤ fuel) :
    Tiles lpn ((readChunks spp zpp elpn fuel lpn).map ReadChunk.range) (elpn + 1) := by
  induction fuel generalizing lpn with
  | zero => exact Nat.le_antisymm hle (Nat.le_of_sub_eq_zero (Nat.le_zero.1 hfuel))
  | succ fuel ih =>
      rw [readChunks]
      split
      · rename_i hend
        exact Nat.le_antisymm hle hend
      · rename_i hmore
        have hpos : 0 < (readChunk spp zpp elpn lpn).pgs := readChunk_pos h lpn
        have hnext : lpn + (readChunk spp zpp elpn lpn).pgs ≤ elpn + 1 :=
          readChunk_le (Nat.le_of_not_lt hmore)
        have hrest := ih hnext (by omega)
        exact ⟨rfl, hrest⟩

theorem readChunks_xferSize (fuel lpn : Nat) :
    ((readChunks spp zpp elpn fuel lpn).map ReadChunk.xferSize).sum =
      (((readChunks spp zpp elpn fuel lpn).map ReadChunk.range).map Prod.snd).sum *
        spp.pgsz := by
  rw [List.map_map, ← List.sum_map_mul_right]
  refine congrArg List.sum (List.map_congr_left fun c hc => ?_)
  rw [(mem_readChunks hc).1]
  rfl

theorem readChunk_inOneFlashpg (h : Striped spp zpp)
    (hpg : spp.pgsPerFlashpg ∣ 2 ^ 16 ∨ spp.pgsPerOneshotpg ≤ 2 ^ 16 ∧ elpn < 2 ^ 32)
    {lpn : Nat} (hle : lpn ≤ elpn) :
    InOneFlashpg spp zpp (readChunk spp zpp elpn lpn) := by
  intro x hlow hhigh
  change lpn ≤ x at hlow
  change x < lpn + (readChunk spp zpp elpn lpn).pgs at hhigh
  have hfield : spp.pgsPerOneshotpg ≤ 2 ^ 16 ∨ spp.pgsPerFlashpg ∣ 2 ^ 16 :=
    hpg.symm.imp_left And.left
  have hend : lpn + (readChunk spp zpp elpn lpn).pgs ≤ elpn + 1 := readChunk_le hle
  have hword (y : Nat) (hy : y ≤ elpn) : y < 2 ^ 32 ∨ spp.pgsPerFlashpg ∣ 2 ^ 32 := by
    rcases hpg with hdvd | ⟨-, hlt⟩
    · exact .inr (hdvd.trans (Nat.pow_dvd_pow 2 (by decide)))
    · exact .inl (lt_of_le_of_lt hy hlt)
  have hroom : (readChunk spp zpp elpn lpn).pgs ≤
      spp.pgsPerFlashpg - lpn % spp.pgsPerFlashpg := by
    rw [← lpnToPpa_pg_mod h hfield (hword lpn hle)]
    exact Nat.min_le_right _ _
  have hquot : x / spp.pgsPerFlashpg = lpn / spp.pgsPerFlashpg := by
    have hsplit := Nat.div_add_mod lpn spp.pgsPerFlashpg
    have hmod := Nat.mod_lt lpn h.flashpg_pos
    refine Nat.div_eq_of_lt_le ?_ ?_
    · rw [Nat.mul_comm]
      omega
    · rw [Nat.add_mul, Nat.one_mul, Nat.mul_comm]
      omega
  obtain ⟨hzone, hpage⟩ := same_flashpg h hquot
  exact ⟨hzone, hpage, sameDie_of_dieOf (dieOf_of_same_flashpg h (hword x (by omega)) hquot)⟩

end Chunks

/-- Striping. The channels and LUNs have to fit their fields of `struct ppa`, and the
page field has to keep the offset in the flash page. -/
theorem zone_striping (h : Striped spp zpp) :
    (∀ lpn, (lpnToPpa spp zpp lpn).ch < spp.nchs ∧
      (lpnToPpa spp zpp lpn).lun < spp.lunsPerCh) ∧
    (∀ a b, a < 2 ^ 32 → b < 2 ^ 32 → a / zonePgs spp zpp = b / zonePgs spp zpp →
      (spp.ttLuns ≤ 2 ^ 32 → (dieOf spp zpp a = dieOf spp zpp b ↔
        oneshotpgOf spp zpp a ≡ oneshotpgOf spp zpp b [MOD zpp.diesPerZone])) ∧
      (spp.nchs ≤ 2 ^ 8 → spp.lunsPerCh ≤ 2 ^ 8 →
        (SameDie (lpnToPpa spp zpp a) (lpnToPpa spp zpp b) ↔
          oneshotpgOf spp zpp a ≡ oneshotpgOf spp zpp b [MOD zpp.diesPerZone]))) ∧
    ∀ slpn elpn, slpn ≤ elpn →
      Tiles slpn ((znsReadChunks spp zpp slpn elpn).map ReadChunk.range) (elpn + 1) ∧
      ((znsReadChunks spp zpp slpn elpn).map ReadChunk.xferSize).sum =
        (elpn - slpn + 1) * spp.pgsz ∧
      (spp.pgsPerFlashpg ∣ 2 ^ 16 ∨ spp.pgsPerOneshotpg ≤ 2 ^ 16 ∧ elpn < 2 ^ 32 →
        ∀ c ∈ znsReadChunks spp zpp slpn elpn,
          c.ppa = lpnToPpa spp zpp c.lpn ∧ InOneFlashpg spp zpp c) := by
  refine ⟨lpnToPpa_lt h, ?_, ?_⟩
  · intro a b ha hb hzone
    refine ⟨fun hdies => dieOf_eq_iff h hdies ha hb hzone, fun hchs hluns => ?_⟩
    have hdies : spp.ttLuns ≤ 2 ^ 32 := (Nat.mul_le_mul hluns hchs).trans (by decide)
    rw [sameDie_iff_dieOf h hchs hluns, dieOf_eq_iff h hdies ha hb hzone]
  · intro slpn elpn hrange
    have htiles : Tiles slpn ((znsReadChunks spp zpp slpn elpn).map ReadChunk.range)
        (elpn + 1) := readChunks_tiles h (by omega) (Nat.le_refl _)
    refine ⟨htiles, ?_, ?_⟩
    · have hsum := htiles.sum_lengths
      rw [znsReadChunks, readChunks_xferSize, ← znsReadChunks]
      congr 1
      omega
    · intro hpg c hc
      obtain ⟨hchunk, hle⟩ := mem_readChunks hc
      rw [hchunk]
      exact ⟨rfl, readChunk_inOneFlashpg h hpg hle⟩

/-- The zones of the `WD_ZN540` configuration on a device of 8 GiB. -/
def wdZn540Zones : ZnsParams :=
  { nrZones := 4
    nrActiveZones := 4
    nrOpenZones := 4
    diesPerZone := 32
    zoneSize := 2 ^ 31
    zoneWbSize := 10 * (96 * 1024)
    nrZrwaZones := 0
    zrwafgSize := 0
    zrwaSize := 0
    zrwaBufferSize := 0
    lbasPerZrwafg := 0
    lbasPerZrwa := 0 }

theorem zone_striping_shipped :
    SameDie (lpnToPpa (ssdInitParams wdZn540 (2 ^ 33) 1) wdZn540Zones 0)
        (lpnToPpa (ssdInitParams wdZn540 (2 ^ 33) 1) wdZn540Zones 768) ∧
      ∀ c ∈ znsReadChunks (ssdInitParams wdZn540 (2 ^ 33) 1) wdZn540Zones 5 524290,
        InOneFlashpg (ssdInitParams wdZn540 (2 ^ 33) 1) wdZn540Zones c := by
  have hstriped : Striped (ssdInitParams wdZn540 (2 ^ 33) 1) wdZn540Zones := by
    constructor <;> decide
  obtain ⟨-, hdies, hread⟩ := zone_striping hstriped
  obtain ⟨-, hsame⟩ := hdies 0 768 (by decide) (by decide) (by decide)
  obtain ⟨-, -, hchunks⟩ := hread 5 524290 (by decide)
  refine ⟨(hsame (by decide) (by decide)).2 (by decide), fun c hc => ?_⟩
  exact (hchunks (.inl (by decide)) c hc).2

/-- One LUN on each of 512 channels, and zones over all of them. -/
def manyChannels : SsdConfig :=
  { wdZn540 with nandChannels := 512, lunsPerNandCh := 1, blkSize := 4 * 1024 * 1024 }

def manyChannelsZones : ZnsParams := { wdZn540Zones with diesPerZone := 512 }

/-- Two channels, flash pages of three pages and one-shot pages of 65538. -/
def longOneshotPages : SsdConfig :=
  { wdZn540 with
    nandChannels := 2
    lunsPerNandCh := 1
    blkSize := 65538 * 4096
    flashPageSize := 3 * 4096
    oneshotPageSize := 65538 * 4096 }

def longOneshotPagesZones : ZnsParams :=
  { wdZn540Zones with diesPerZone := 2, zoneSize := 2 * (65538 * 4096) }

/-- Flash pages of three pages in one-shot pages of one flash page, in zones of 3 GiB. -/
def threePageUnits : SsdConfig :=
  { wdZn540 with
    blkSize := 196608 * 1024
    flashPageSize := 3 * 4096
    oneshotPageSize := 3 * 4096 }

def threePageUnitsZones : ZnsParams :=
  { wdZn540Zones with
    nrZones := 6000
    nrActiveZones := 6000
    nrOpenZones := 6000
    diesPerZone := 16
    zoneSize := 3 * 2 ^ 30 }

/-- Dies 256 apart share a channel field; page 65536 has page field 0 in the middle of
a flash page; and past page `2 ^ 32` a chunk runs over the end of a zone. -/
theorem cut_words_break_striping :
    (∃ spp zpp, spp = ssdInitParams manyChannels (2 ^ 33) 1 ∧ zpp = manyChannelsZones ∧
      Striped spp zpp ∧ 6144 / zonePgs spp zpp = 0 / zonePgs spp zpp ∧
      SameDie (lpnToPpa spp zpp 6144) (lpnToPpa spp zpp 0) ∧
      ¬ oneshotpgOf spp zpp 6144 ≡ oneshotpgOf spp zpp 0 [MOD zpp.diesPerZone]) ∧
    (∃ spp zpp, spp = ssdInitParams longOneshotPages (8 * (65538 * 4096)) 1 ∧
      zpp = longOneshotPagesZones ∧ Striped spp zpp ∧
      ∃ c ∈ znsReadChunks spp zpp 65536 65538, ¬ InOneFlashpg spp zpp c) ∧
    ∃ spp zpp, spp = ssdInitParams threePageUnits (6000 * (3 * 2 ^ 30)) 1 ∧
      zpp = threePageUnitsZones ∧ Striped spp zpp ∧
      ∃ c ∈ znsReadChunks spp zpp 4296278015 4296278017, ¬ InOneFlashpg spp zpp c := by
  refine ⟨?_, ?_, ?_⟩
  · refine ⟨_, _, rfl, rfl, ?_, by decide, ⟨by decide, by decide⟩, by decide⟩
    constructor <;> decide
  · refine ⟨_, _, rfl, rfl, ?_, _, List.mem_cons_self, fun hin => ?_⟩
    · constructor <;> decide
    · have hdie := (hin 65538 (by decide) (by decide)).2.2
      exact absurd hdie.1 (by decide)
  · refine ⟨_, _, rfl, rfl, ?_, _, List.mem_cons_self, fun hin => ?_⟩
    · constructor <;> decide
    · have hdie := (hin 4296278016 (by decide) (by decide)).2.2
      exact absurd hdie.2 (by decide)

end NvmeVirt.ZoneStriping
