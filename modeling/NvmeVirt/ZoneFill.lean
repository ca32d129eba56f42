import Mathlib.Data.Nat.ModEq
import NvmeVirt.ZoneWrites

namespace NvmeVirt.ZoneFill

open FaultOutcome
open WriteBuffer
open ZonedFtl
open ZonedRuns (command)
open ZoneAddressing
open ZoneArray
open ZoneWrites

section Rounding

variable {p total a k n : Nat}

/-- The pages released once `n` of `total` pages are written in one-shot pages of
`p`. -/
def releasedPages (p total n : Nat) : Nat := if n = total then total else n / p * p

theorem div_add_of_boundary (hp : 0 < p) (h : a % p + k = p) : (a + k) / p = a / p + 1 := by
  have hsum : a + k = p * (a / p + 1) := by
    have hdiv := Nat.div_add_mod a p
    rw [Nat.mul_add, Nat.mul_one]
    omega
  rw [hsum, Nat.mul_div_cancel_left _ hp]

theorem div_add_of_inside (hp : 0 < p) (h : a % p + k < p) : (a + k) / p = a / p := by
  have hsum : a + k = a % p + k + p * (a / p) := by
    have hdiv := Nat.div_add_mod a p
    omega
  rw [hsum, Nat.add_mul_div_left _ _ hp, Nat.div_eq_of_lt h, Nat.zero_add]

/-- The pages released after `k` pages from page `a` on, in one one-shot page. -/
def chunkPages (p total a k : Nat) : Nat :=
  if a % p + k = p ∨ a + k = total then
    if a + k = total ∧ 0 < total % p then total % p else p
  else 0

theorem releasedPages_add (hp : 0 < p) (hk : 0 < k) (hpiece : a % p + k ≤ p)
    (hle : a + k ≤ total) :
    chunkPages p total a k + releasedPages p total a = releasedPages p total (a + k) := by
  have hstart : releasedPages p total a = a / p * p := if_neg (by omega)
  have hdiv := Nat.div_add_mod total p
  rw [hstart, releasedPages, chunkPages]
  rcases Nat.lt_or_eq_of_le hpiece with hinside | hboundary
  · have hquot := div_add_of_inside hp hinside
    by_cases hend : a + k = total
    · rw [hend] at hquot
      have hrest : 0 < total % p := by
        have hdivA := Nat.div_add_mod a p
        rw [hquot] at hdiv
        omega
      rw [if_pos (.inr hend), if_pos ⟨hend, hrest⟩, if_pos hend]
      rw [hquot, Nat.mul_comm] at hdiv
      omega
    · rw [if_neg (by omega), if_neg hend, hquot, Nat.zero_add]
  · have hquot := div_add_of_boundary hp hboundary
    have hwhole : (a + k) % p = 0 := by
      have hdivB := Nat.div_add_mod (a + k) p
      have hdivA := Nat.div_add_mod a p
      rw [hquot, Nat.mul_add, Nat.mul_one] at hdivB
      omega
    have hnext : p + a / p * p = (a + k) / p * p := by
      rw [hquot, Nat.add_mul, Nat.one_mul, Nat.add_comm]
    rw [if_pos (.inl hboundary)]
    by_cases hend : a + k = total
    · rw [hend] at hwhole hnext
      rw [if_neg (by omega), if_pos hend, hnext]
      rw [hwhole, Nat.mul_comm] at hdiv
      omega
    · rw [if_neg (by omega), if_neg hend, hnext]

end Rounding

/-- A zoned namespace with its one-shot pages, whose size is an `int`. -/
structure OneshotGeometry extends ZoneGeometry where
  oneshot_pos : 0 < spp.pgsPerOneshotpg
  oneshot_lt : spp.pgsPerOneshotpg * spp.pgsz < 2 ^ 31

namespace OneshotGeometry

variable (dev : OneshotGeometry)

def zonePages : Nat := dev.zpp.zoneSize / 4096

def oneshotBytes : Nat := dev.spp.pgsPerOneshotpg * 4096

theorem zoneSize_eq : dev.zpp.zoneSize = dev.zonePages * 4096 := by
  have haligned := dev.zoneSize_aligned
  rw [dev.pgsz_eq] at haligned
  rw [zonePages]
  omega

theorem zoneLbas_eq : dev.zoneLbas = 8 * dev.zonePages := zoneLbas_eq_pages dev.toZoneGeometry

theorem zonePages_pos : 0 < dev.zonePages := by
  have hpos := dev.zoneLbas_pos
  have heq := dev.zoneLbas_eq
  omega

end OneshotGeometry

variable {dev : OneshotGeometry} {z n : Nat}

/-- What the loop of `__zns_write` finds when it looks where it is in zone `z`: the
offset in the one-shot page, and the page `elpn` that is taken for the last one. -/
structure Located (dev : OneshotGeometry) (z elpn : Nat) : Prop where
  offset : ∀ n < dev.zonePages, pgOffset dev.spp dev.zpp (z * dev.zonePages + n) =
    n % dev.spp.pgsPerOneshotpg
  last : ∀ n < dev.zonePages, z * dev.zonePages + n = elpn → n + 1 = dev.zonePages

section Loop

variable {elpn : Nat}

theorem bytes_mod (dev : OneshotGeometry) :
    dev.zpp.zoneSize % (dev.spp.pgsPerOneshotpg * dev.spp.pgsz) =
      dev.zonePages % dev.spp.pgsPerOneshotpg * 4096 := by
  rw [dev.pgsz_eq, dev.zoneSize_eq, Nat.mul_mod_mul_right]

theorem boundary_of_whole {p total a k : Nat} (hk : 0 < k) (hpiece : a % p + k ≤ p)
    (hend : a + k = total) (hwhole : total % p = 0) : a % p + k = p := by
  rw [← hend, Nat.add_mod] at hwhole
  rcases Nat.lt_or_eq_of_le hpiece with hlt | heq
  · rw [Nat.mod_eq_of_lt (show k < p by omega), Nat.mod_eq_of_lt hlt] at hwhole
    omega
  · exact heq

theorem writeReleases_round {fuel a e k : Nat} (h : Located dev z elpn)
    (hlast : z * dev.zonePages + (dev.zonePages - 1) = elpn ∨
      dev.zonePages % dev.spp.pgsPerOneshotpg = 0)
    (hae : a ≤ e) (he : e < dev.zonePages)
    (hk : k = min (e - a + 1) (dev.spp.pgsPerOneshotpg - a % dev.spp.pgsPerOneshotpg)) :
    (writeReleases dev.spp dev.zpp (z * dev.zonePages + e) elpn (fuel + 1)
        (z * dev.zonePages + a)).sum =
      chunkPages dev.spp.pgsPerOneshotpg dev.zonePages a k * 4096 +
        (writeReleases dev.spp dev.zpp (z * dev.zonePages + e) elpn fuel
          (z * dev.zonePages + (a + k))).sum := by
  have hmod := Nat.mod_lt a dev.oneshot_pos
  have hoffset := h.offset a (by omega)
  have hlen : min (z * dev.zonePages + e - (z * dev.zonePages + a) + 1)
      (dev.spp.pgsPerOneshotpg - a % dev.spp.pgsPerOneshotpg) = k := by
    rw [Nat.add_sub_add_left, hk]
  have hatLast : z * dev.zonePages + (a + k) - 1 = elpn → a + k = dev.zonePages := by
    intro heq
    have hat := h.last (a + k - 1) (by omega) (by omega)
    omega
  have hatEnd : a + k = dev.zonePages → z * dev.zonePages + (a + k) - 1 = elpn ∨
      dev.zonePages % dev.spp.pgsPerOneshotpg = 0 := by
    intro hend
    rcases hlast with hlast | hwhole
    · exact .inl (by omega)
    · exact .inr hwhole
  rw [writeReleases, if_neg (by omega)]
  dsimp only
  rw [hoffset, hlen, bytes_mod, dev.pgsz_eq, Nat.add_assoc (z * dev.zonePages) a k, chunkPages]
  by_cases hcloses : a % dev.spp.pgsPerOneshotpg + k = dev.spp.pgsPerOneshotpg ∨
      a + k = dev.zonePages
  · have hseen : a % dev.spp.pgsPerOneshotpg + k = dev.spp.pgsPerOneshotpg ∨
        z * dev.zonePages + (a + k) - 1 = elpn := by
      rcases hcloses with hboundary | hend
      · exact .inl hboundary
      · rcases hatEnd hend with hat | hwhole
        · exact .inr hat
        · exact .inl (boundary_of_whole (by omega) (by omega) hend hwhole)
    rw [if_pos hcloses, if_pos hseen]
    by_cases hrest : a + k = dev.zonePages ∧ 0 < dev.zonePages % dev.spp.pgsPerOneshotpg
    · have hat := (hatEnd hrest.1).resolve_right (Nat.ne_of_gt hrest.2)
      rw [if_pos hrest, if_pos ⟨hat, Nat.mul_pos hrest.2 (by decide)⟩, List.sum_cons]
    · rw [if_neg hrest, if_neg, List.sum_cons]
      rintro ⟨hat, hpos⟩
      exact hrest ⟨hatLast hat, Nat.pos_of_mul_pos_right hpos⟩
  · rw [if_neg hcloses, if_neg fun hseen => hcloses (hseen.imp id hatLast), Nat.zero_mul,
      Nat.zero_add]

/-- The releases of a write between pages `a` and `e` of a zone make up for the
pages it completes. -/
theorem writeReleases_sum {fuel a e : Nat} (h : Located dev z elpn)
    (hlast : z * dev.zonePages + (dev.zonePages - 1) = elpn ∨
      dev.zonePages % dev.spp.pgsPerOneshotpg = 0)
    (ha : a ≤ e + 1) (he : e < dev.zonePages) (hfuel : e + 1 - a ≤ fuel) :
    (writeReleases dev.spp dev.zpp (z * dev.zonePages + e) elpn fuel
        (z * dev.zonePages + a)).sum +
      releasedPages dev.spp.pgsPerOneshotpg dev.zonePages a * 4096 =
      releasedPages dev.spp.pgsPerOneshotpg dev.zonePages (e + 1) * 4096 := by
  induction fuel generalizing a with
  | zero =>
      obtain rfl : a = e + 1 := by omega
      rw [writeReleases, List.sum_nil, Nat.zero_add]
  | succ fuel ih =>
      rcases Nat.lt_or_eq_of_le ha with hlt | rfl
      · have hp := dev.oneshot_pos
        have hmod := Nat.mod_lt a hp
        obtain ⟨k, hk⟩ : ∃ k, k = min (e - a + 1)
            (dev.spp.pgsPerOneshotpg - a % dev.spp.pgsPerOneshotpg) := ⟨_, rfl⟩
        have hadd := releasedPages_add hp (show 0 < k by omega)
          (show a % dev.spp.pgsPerOneshotpg + k ≤ dev.spp.pgsPerOneshotpg by omega)
          (show a + k ≤ dev.zonePages by omega)
        rw [writeReleases_round h hlast (Nat.lt_succ_iff.1 hlt) he hk,
          ← ih (show a + k ≤ e + 1 by omega) (by omega), ← hadd, Nat.add_mul]
        omega
      · rw [writeReleases, if_pos (by omega), List.sum_nil, Nat.zero_add]

end Loop

section Addresses

/-- How far the 32-bit product of `zone_to_slpn` is short of the zone's start. -/
def shiftOf (dev : OneshotGeometry) (z : Nat) : Nat :=
  z * dev.zonePages - zoneToSlpn dev.spp dev.zpp z

/-- The addresses of the zone do not wrap, or it does not matter that they do: the
zone consists of whole one-shot pages, whose offsets do not change. The offsets fit the
field `pg`, or they do not matter: the zone lies in one one-shot page. -/
def FillCondition (dev : OneshotGeometry) (z : Nat) : Prop :=
  ((z + 1) * dev.zoneLbas < 2 ^ 32 ∧
    (dev.spp.pgsPerOneshotpg ≤ 2 ^ 16 ∨ dev.zonePages ≤ dev.spp.pgsPerOneshotpg)) ∨
    (dev.spp.pgsPerOneshotpg ≤ 2 ^ 16 ∧ dev.zpp.zoneSize % dev.oneshotBytes = 0 ∧
      zoneToSlpn dev.spp dev.zpp z % dev.spp.pgsPerOneshotpg =
        z * dev.zonePages % dev.spp.pgsPerOneshotpg)

instance (dev : OneshotGeometry) (z : Nat) : Decidable (FillCondition dev z) :=
  inferInstanceAs (Decidable ((_ ∧ (_ ∨ _)) ∨ (_ ∧ _ ∧ _)))

theorem zoneToSlpn_eq (dev : OneshotGeometry) (z : Nat) :
    zoneToSlpn dev.spp dev.zpp z = z * dev.zonePages % 2 ^ 32 := by
  rw [zoneToSlpn, dev.pgsz_eq]
  rfl

theorem lpnToZone_eq (hz : z < dev.zpp.nrZones) (hn : n < dev.zonePages) :
    lpnToZone dev.spp dev.zpp (z * dev.zonePages + n) = z := by
  have hdiv : (z * dev.zonePages + n) / dev.zonePages = z := by
    rw [Nat.div_eq_iff dev.zonePages_pos]
    omega
  rw [lpnToZone, dev.pgsz_eq]
  change (z * dev.zonePages + n) / dev.zonePages % 2 ^ 32 = z
  rw [hdiv, Nat.mod_eq_of_lt (Nat.lt_trans hz dev.nrZones_lt)]

theorem pgOffset_eq_cut (hz : z < dev.zpp.nrZones) (hn : n < dev.zonePages) :
    pgOffset dev.spp dev.zpp (z * dev.zonePages + n) =
      (n + shiftOf dev z) % dev.spp.pgsPerOneshotpg % 2 ^ 16 % dev.spp.pgsPerOneshotpg := by
  have hle : zoneToSlpn dev.spp dev.zpp z ≤ z * dev.zonePages := by
    rw [zoneToSlpn_eq]
    exact Nat.mod_le _ _
  rw [pgOffset, pageOffset, lpnToZone_eq hz hn, shiftOf]
  congr 3
  omega

theorem pgOffset_eq (hz : z < dev.zpp.nrZones) (hn : n < dev.zonePages)
    (hpg : dev.spp.pgsPerOneshotpg ≤ 2 ^ 16) :
    pgOffset dev.spp dev.zpp (z * dev.zonePages + n) =
      (n + shiftOf dev z) % dev.spp.pgsPerOneshotpg := by
  have hlt := Nat.mod_lt (n + shiftOf dev z) dev.oneshot_pos
  rw [pgOffset_eq_cut hz hn, Nat.mod_eq_of_lt (hlt.trans_le hpg), Nat.mod_eq_of_lt hlt]

theorem zone_end_eq (dev : OneshotGeometry) (z : Nat) :
    (z + 1) * dev.zoneLbas = 8 * (z * dev.zonePages + dev.zonePages) := by
  rw [dev.zoneLbas_eq, Nat.mul_left_comm, Nat.succ_mul z]

theorem zoneToElba_eq (hz : z < dev.zpp.nrZones) :
    zoneToElba dev.spp dev.zpp z =
      if (z + 1) * dev.zoneLbas % 2 ^ 32 = 0 then 18446744073709551615
      else (z + 1) * dev.zoneLbas % 2 ^ 32 - 1 := by
  have hnext : (z + 1) % 2 ^ 32 = z + 1 := Nat.mod_eq_of_lt (Nat.lt_of_le_of_lt hz dev.nrZones_lt)
  rw [zoneToElba, hnext, zoneToSlba_eq]

theorem zoneToElpn_below (hz : z < dev.zpp.nrZones) (hbelow : (z + 1) * dev.zoneLbas < 2 ^ 32) :
    z * dev.zonePages + (dev.zonePages - 1) = zoneToElpn dev.spp dev.zpp z := by
  have hpages := dev.zonePages_pos
  rw [zoneToElpn, zoneToElba_eq hz, Nat.mod_eq_of_lt hbelow, zone_end_eq, dev.secsPerPg_eq]
  split <;> omega

theorem zoneToElpn_beyond (hz : z < dev.zpp.nrZones)
    (hbeyond : 2 ^ 32 ≤ (z + 1) * dev.zoneLbas) (hn : n < dev.zonePages) :
    z * dev.zonePages + n ≠ zoneToElpn dev.spp dev.zpp z := by
  have hspace := dev.space_lt
  have hend := dev.zone_end_le hz
  have hlbas := dev.zoneLbas_bounds.2
  have heq := zone_end_eq dev z
  have hpages := dev.zoneLbas_eq
  rw [Nat.succ_mul] at hbeyond heq
  rw [zoneToElpn, zoneToElba_eq hz, dev.secsPerPg_eq, Nat.succ_mul]
  generalize z * dev.zoneLbas = start at *
  generalize z * dev.zonePages = slpn at *
  generalize dev.zoneLbas = lbas at *
  split <;> omega

theorem bytes_whole_iff (dev : OneshotGeometry) :
    dev.zpp.zoneSize % dev.oneshotBytes = 0 ↔
      dev.zonePages % dev.spp.pgsPerOneshotpg = 0 := by
  have hbytes := bytes_mod dev
  rw [dev.pgsz_eq] at hbytes
  rw [OneshotGeometry.oneshotBytes, hbytes]
  omega

theorem shift_whole_iff (dev : OneshotGeometry) (z : Nat) :
    shiftOf dev z % dev.spp.pgsPerOneshotpg = 0 ↔
      zoneToSlpn dev.spp dev.zpp z % dev.spp.pgsPerOneshotpg =
        z * dev.zonePages % dev.spp.pgsPerOneshotpg := by
  have hle : zoneToSlpn dev.spp dev.zpp z ≤ z * dev.zonePages := by
    rw [zoneToSlpn_eq]
    exact Nat.mod_le _ _
  rw [shiftOf, ← Nat.dvd_iff_mod_eq_zero, ← Nat.modEq_iff_dvd' hle]
  exact Iff.rfl

theorem shiftOf_below (hbelow : (z + 1) * dev.zoneLbas < 2 ^ 32) : shiftOf dev z = 0 := by
  rw [zone_end_eq] at hbelow
  rw [shiftOf, zoneToSlpn_eq, Nat.mod_eq_of_lt (show z * dev.zonePages < 2 ^ 32 by omega),
    Nat.sub_self]

theorem located_of_field (hz : z < dev.zpp.nrZones) (hpg : dev.spp.pgsPerOneshotpg ≤ 2 ^ 16)
    (h : (z + 1) * dev.zoneLbas < 2 ^ 32 ∨ dev.zpp.zoneSize % dev.oneshotBytes = 0 ∧
      zoneToSlpn dev.spp dev.zpp z % dev.spp.pgsPerOneshotpg =
        z * dev.zonePages % dev.spp.pgsPerOneshotpg) :
    Located dev z (zoneToElpn dev.spp dev.zpp z) ∧
      (z * dev.zonePages + (dev.zonePages - 1) = zoneToElpn dev.spp dev.zpp z ∨
        dev.zonePages % dev.spp.pgsPerOneshotpg = 0) := by
  have hshift : shiftOf dev z % dev.spp.pgsPerOneshotpg = 0 := by
    rcases h with hbelow | hwhole
    · rw [shiftOf_below hbelow, Nat.zero_mod]
    · rw [shift_whole_iff]
      exact hwhole.2
  refine ⟨⟨fun n hn => ?_, fun n hn hlast => ?_⟩, ?_⟩
  · rw [pgOffset_eq hz hn hpg, Nat.add_mod, hshift, Nat.add_zero, Nat.mod_mod]
  · rcases Nat.lt_or_ge ((z + 1) * dev.zoneLbas) (2 ^ 32) with hbelow | hbeyond
    · have hend := zoneToElpn_below hz hbelow
      omega
    · exact absurd hlast (zoneToElpn_beyond hz hbeyond hn)
  · rcases h with hbelow | hwhole
    · exact .inl (zoneToElpn_below hz hbelow)
    · exact .inr ((bytes_whole_iff dev).1 hwhole.1)

theorem writeReleases_single {fuel a e : Nat} (hz : z < dev.zpp.nrZones)
    (hbelow : (z + 1) * dev.zoneLbas < 2 ^ 32)
    (hsingle : dev.zonePages ≤ dev.spp.pgsPerOneshotpg) (hae : a ≤ e) (he : e < dev.zonePages) :
    (writeReleases dev.spp dev.zpp (z * dev.zonePages + e) (zoneToElpn dev.spp dev.zpp z)
        (fuel + 1) (z * dev.zonePages + a)).sum =
      if e + 1 = dev.zonePages then dev.zpp.zoneSize else 0 := by
  have hsize := dev.zoneSize_eq
  have hlast := zoneToElpn_below hz hbelow
  obtain ⟨off, hoff⟩ : ∃ off, off = pgOffset dev.spp dev.zpp (z * dev.zonePages + a) := ⟨_, rfl⟩
  have hle : off ≤ a := by
    rw [hoff, pgOffset_eq_cut hz (by omega), shiftOf_below hbelow, Nat.add_zero]
    exact (Nat.mod_le _ _).trans ((Nat.mod_le _ _).trans (Nat.mod_le _ _))
  have hlen : min (z * dev.zonePages + e - (z * dev.zonePages + a) + 1)
      (dev.spp.pgsPerOneshotpg - off) = e - a + 1 := by
    rw [Nat.add_sub_add_left]
    omega
  have hnext : z * dev.zonePages + a + (e - a + 1) = z * dev.zonePages + e + 1 := by omega
  have hnone : ∀ fuel, writeReleases dev.spp dev.zpp (z * dev.zonePages + e)
      (zoneToElpn dev.spp dev.zpp z) fuel (z * dev.zonePages + e + 1) = [] := by
    intro fuel
    cases fuel with
    | zero => rfl
    | succ fuel => rw [writeReleases, if_pos (Nat.lt_succ_self _)]
  rw [writeReleases, if_neg (by omega)]
  dsimp only
  rw [← hoff, hlen, hnext, hnone, Nat.add_sub_cancel, ← hlast, bytes_mod, dev.pgsz_eq]
  by_cases hend : e + 1 = dev.zonePages
  · rw [if_pos hend, if_pos (.inr (by omega))]
    rcases Nat.lt_or_eq_of_le hsingle with hlt | heq
    · have hpos := dev.zonePages_pos
      rw [Nat.mod_eq_of_lt hlt, if_pos ⟨by omega, by omega⟩, List.sum_singleton, hsize]
    · rw [heq, Nat.mod_self, if_neg (by simp), List.sum_singleton, ← heq, hsize]
  · rw [if_neg hend, if_neg (by omega), List.sum_nil]

theorem writeReleases_page (hlast : z * dev.zonePages + n ≠ zoneToElpn dev.spp dev.zpp z) :
    (writeReleases dev.spp dev.zpp (z * dev.zonePages + n) (zoneToElpn dev.spp dev.zpp z) 1
        (z * dev.zonePages + n)).sum =
      if pgOffset dev.spp dev.zpp (z * dev.zonePages + n) + 1 = dev.spp.pgsPerOneshotpg then
        dev.oneshotBytes
      else 0 := by
  have hmod : pgOffset dev.spp dev.zpp (z * dev.zonePages + n) < dev.spp.pgsPerOneshotpg :=
    Nat.mod_lt _ dev.oneshot_pos
  have hone : min (z * dev.zonePages + n - (z * dev.zonePages + n) + 1)
      (dev.spp.pgsPerOneshotpg - pgOffset dev.spp dev.zpp (z * dev.zonePages + n)) = 1 := by
    omega
  rw [writeReleases, if_neg (Nat.lt_irrefl _)]
  dsimp only
  rw [hone, Nat.add_sub_cancel, dev.pgsz_eq]
  simp only [hlast, or_false, false_and, if_false, writeReleases]
  split
  · rw [List.sum_singleton, OneshotGeometry.oneshotBytes]
  · rw [List.sum_nil]

theorem releasesOf_eq {k : Nat} (hz : z < dev.zpp.nrZones) (hk : 0 < k)
    (hle : n + k ≤ dev.zonePages) :
    releasesOf dev.spp dev.zpp z (z * dev.zoneLbas + 8 * n) (8 * k) =
      writeReleases dev.spp dev.zpp (z * dev.zonePages + (n + k - 1))
        (zoneToElpn dev.spp dev.zpp z) k (z * dev.zonePages + n) := by
  have hspace := dev.space_lt
  have hend := dev.zone_end_le hz
  have hpages := dev.zoneLbas_eq
  have hstart : z * dev.zoneLbas = 8 * (z * dev.zonePages) := by
    rw [hpages, Nat.mul_left_comm]
  have hlast : lastLba (z * dev.zoneLbas + 8 * n) (8 * k) =
      z * dev.zoneLbas + 8 * n + 8 * k - 1 := by
    rw [lastLba, if_neg (by omega), Nat.mod_eq_of_lt (by omega)]
  have hslpn : lbaToLpn dev.spp (z * dev.zoneLbas + 8 * n) = z * dev.zonePages + n := by
    rw [lbaToLpn, dev.secsPerPg_eq]
    omega
  have helpn : lbaToLpn dev.spp (z * dev.zoneLbas + 8 * n + 8 * k - 1) =
      z * dev.zonePages + (n + k - 1) := by
    rw [lbaToLpn, dev.secsPerPg_eq]
    omega
  have hfuel : z * dev.zonePages + (n + k - 1) + 1 - (z * dev.zonePages + n) = k := by omega
  rw [releasesOf, hlast, hslpn, helpn, hfuel]

theorem releasesOf_sum {k : Nat} (h : FillCondition dev z) (hz : z < dev.zpp.nrZones)
    (hk : 0 < k) (hle : n + k ≤ dev.zonePages) :
    (releasesOf dev.spp dev.zpp z (z * dev.zoneLbas + 8 * n) (8 * k)).sum +
        releasedPages dev.spp.pgsPerOneshotpg dev.zonePages n * 4096 =
      releasedPages dev.spp.pgsPerOneshotpg dev.zonePages (n + k) * 4096 := by
  by_cases hpg : dev.spp.pgsPerOneshotpg ≤ 2 ^ 16
  · obtain ⟨hlocated, hlast⟩ := located_of_field hz hpg (h.imp And.left And.right)
    have hsum := writeReleases_sum (a := n) (e := n + k - 1) hlocated hlast (by omega) (by omega)
      (show n + k - 1 + 1 - n ≤ k by omega)
    rw [releasesOf_eq hz hk hle, hsum, Nat.sub_add_cancel (by omega)]
  · have hbelow := h.resolve_right fun hwhole => hpg hwhole.1
    have hsingle := hbelow.2.resolve_left hpg
    have hnone : releasedPages dev.spp.pgsPerOneshotpg dev.zonePages n = 0 := by
      rw [releasedPages, if_neg (by omega), Nat.div_eq_of_lt (by omega), Nat.zero_mul]
    obtain ⟨fuel, rfl⟩ : ∃ fuel, k = fuel + 1 := ⟨k - 1, by omega⟩
    rw [releasesOf_eq hz hk hle, writeReleases_single hz hbelow.1 hsingle (by omega) (by omega),
      hnone, Nat.zero_mul, Nat.add_zero, Nat.sub_add_cancel (by omega), releasedPages]
    split
    · exact dev.zoneSize_eq
    · next hinside => rw [Nat.div_eq_of_lt (by omega), Nat.zero_mul, Nat.zero_mul]

end Addresses

section Filling

variable {ftl ftl' : ZnsFtl} {cmd : ZnsCommand} {written released : Nat}

/-- A write or append of whole pages to zone `z`, which has no random write area,
that is answered with success. -/
structure PageWrite (dev : OneshotGeometry) (z : Nat) (ftl : ZnsFtl) (cmd : ZnsCommand)
    (ftl' : ZnsFtl) : Prop where
  opcode : cmd.opcode = .write ∨ cmd.opcode = .zoneAppend
  zone : lbaToZone dev.spp dev.zpp cmd.slba = z
  plain : (ftl.zoneDescs z).zrwav = false
  pages : cmd.nrLba % 8 = 0
  success : ∃ r cmd', znsProcNvmeIoCmd dev.spp dev.zpp ftl cmd = .ok (some r, cmd', ftl') ∧
    r.status = .success

/-- The bytes whose release has been scheduled between two states. -/
def scheduled (ftl ftl' : ZnsFtl) : Nat :=
  ((ftl'.pending.drop ftl.pending.length).map Prod.snd).sum

/-- Zone `z` has been filled from its start up to `written` bytes, and `released`
bytes were scheduled for release by the writes. Between the writes anything may
happen that leaves the write pointer of the zone where it is. -/
inductive Fills (dev : OneshotGeometry) (z : Nat) : ZnsFtl → Nat → Nat → Prop
  | start (ftl : ZnsFtl) (h : (ftl.zoneDescs z).wp = z * dev.zoneLbas) : Fills dev z ftl 0 0
  | other {ftl : ZnsFtl} {written released : Nat} (ftl' : ZnsFtl)
      (h : Fills dev z ftl written released)
      (hwp : (ftl'.zoneDescs z).wp = (ftl.zoneDescs z).wp) : Fills dev z ftl' written released
  | write {ftl ftl' : ZnsFtl} {written released : Nat} {cmd : ZnsCommand}
      (h : Fills dev z ftl written released) (hwrite : PageWrite dev z ftl cmd ftl')
      (hle : written + lbaToByte cmd.nrLba ≤ dev.zpp.zoneSize) :
      Fills dev z ftl' (written + lbaToByte cmd.nrLba) (released + scheduled ftl ftl')

/-- After each write the bytes released are those written, rounded down to whole
one-shot pages, and in the end all bytes of the zone. -/
def FillBalances (dev : OneshotGeometry) (z : Nat) : Prop :=
  ∀ ftl written released, Fills dev z ftl written released →
    (written < dev.zpp.zoneSize →
      released = written / dev.oneshotBytes * dev.oneshotBytes) ∧
    (written = dev.zpp.zoneSize → released = dev.zpp.zoneSize)

theorem PageWrite.accepted (h : PageWrite dev z ftl cmd ftl') :
    Accepted dev.toZoneGeometry ftl ftl' z cmd.nrLba := by
  obtain ⟨hop, hzone, hplain, -, r, cmd', hrun, hsuccess⟩ := h
  rw [znsProcNvmeIoCmd_plain hop (by rw [hzone]; exact hplain)] at hrun
  exact znsWritePlain_accepted hzone hrun hsuccess

theorem PageWrite.step {k : Nat} (h : PageWrite dev z ftl cmd ftl') (hz : z < dev.zpp.nrZones)
    (hlen : cmd.nrLba = 8 * k) (hwp : (ftl.zoneDescs z).wp = z * dev.zoneLbas + 8 * n)
    (hle : n + k ≤ dev.zonePages) :
    (ftl'.zoneDescs z).wp = z * dev.zoneLbas + 8 * (n + k) ∧
      scheduled ftl ftl' =
        (releasesOf dev.spp dev.zpp z (z * dev.zoneLbas + 8 * n) (8 * k)).sum := by
  obtain ⟨buf, slba, -, -, hcommit⟩ := h.accepted.taken
  have hspace := dev.space_lt
  have hend := dev.zone_end_le hz
  have hpages := dev.zoneLbas_eq
  have hslba := hcommit.slba_eq
  have hmoved := hcommit.wp
  have hpending := hcommit.pending
  change slba = (ftl.zoneDescs z).wp at hslba
  change _ = ((ftl.zoneDescs z).wp + cmd.nrLba) % 2 ^ 64 at hmoved
  change _ = ftl.pending ++ _ at hpending
  rw [hwp, hlen] at hmoved
  rw [hslba, hwp, hlen] at hpending
  constructor
  · rw [hmoved, Nat.mod_eq_of_lt (by omega)]
    omega
  · rw [scheduled, hpending, List.drop_left, List.map_map]
    exact congrArg List.sum (List.map_id _)

theorem Fills.spec (hz : z < dev.zpp.nrZones) (hcond : FillCondition dev z)
    (h : Fills dev z ftl written released) :
    ∃ n, n ≤ dev.zonePages ∧ written = n * 4096 ∧
      (ftl.zoneDescs z).wp = z * dev.zoneLbas + 8 * n ∧
      released = releasedPages dev.spp.pgsPerOneshotpg dev.zonePages n * 4096 := by
  induction h with
  | start ftl hwp =>
      refine ⟨0, Nat.zero_le _, rfl, hwp, ?_⟩
      have hpos := dev.zonePages_pos
      rw [releasedPages, if_neg (by omega), Nat.zero_div, Nat.zero_mul, Nat.zero_mul]
  | other ftl' _ hwp ih =>
      obtain ⟨n, hn, hwritten, hstart, hreleased⟩ := ih
      exact ⟨n, hn, hwritten, hwp.trans hstart, hreleased⟩
  | @write ftl ftl' written released cmd _ hwrite hle ih =>
      obtain ⟨n, hn, hwritten, hstart, hreleased⟩ := ih
      obtain ⟨hpos, -⟩ := ZonedAccounting.ZnsCommand.nrLba_bounds cmd
      have hpages := hwrite.pages
      have hsize := dev.zoneSize_eq
      obtain ⟨k, hlen⟩ : ∃ k, cmd.nrLba = 8 * k := ⟨cmd.nrLba / 8, by omega⟩
      rw [lbaToByte] at hle ⊢
      have hfits : n + k ≤ dev.zonePages := by omega
      obtain ⟨hmoved, hscheduled⟩ := hwrite.step hz hlen hstart hfits
      have hsum := releasesOf_sum hcond hz (show 0 < k by omega) hfits
      refine ⟨n + k, hfits, by omega, hmoved, ?_⟩
      rw [hreleased, hscheduled, ← hsum, Nat.add_comm]

theorem fillBalances_of_condition (hz : z < dev.zpp.nrZones) (hcond : FillCondition dev z) :
    FillBalances dev z := by
  intro ftl written released h
  obtain ⟨n, hn, rfl, -, rfl⟩ := h.spec hz hcond
  have hsize := dev.zoneSize_eq
  constructor
  · intro hlt
    rw [releasedPages, if_neg (by omega), OneshotGeometry.oneshotBytes,
      Nat.mul_div_mul_right _ _ (by decide), Nat.mul_assoc]
  · intro hfull
    rw [releasedPages, if_pos (by omega), hsize]

end Filling

section PageByPage

/-- Zone `z` open with `n` pages written, and room for one more in every buffer. -/
def openAt (dev : OneshotGeometry) (z n : Nat) : ZnsFtl where
  resInfos _ := ⟨1, 1⟩
  zoneDescs _ :=
    { state := .openedImpl
      zrwav := false
      zoneCapacity := dev.zoneLbas
      zslba := z * dev.zoneLbas
      wp := z * dev.zoneLbas + 8 * n }
  buffers _ := ⟨4096, 4096⟩
  storage _ := 0
  pending := []

def pageCommand (dev : OneshotGeometry) (z n : Nat) : ZnsCommand :=
  command .write (z * dev.zoneLbas + 8 * n) 7 (.other 0)

theorem nrLba_pageCommand (dev : OneshotGeometry) (z n : Nat) :
    (pageCommand dev z n).nrLba = 8 := rfl

theorem lbaToByte_pageCommand (dev : OneshotGeometry) (z n : Nat) :
    lbaToByte (pageCommand dev z n).nrLba = 4096 := by
  rw [nrLba_pageCommand, lbaToByte]

theorem commitWrite_openAt (hz : z < dev.zpp.nrZones) (hn : n < dev.zonePages)
    (hunit : 4096 % dev.spp.writeUnitSize = 0) (ref : BufferRef) (buf : Buffer) :
    (commitWrite dev.spp dev.zpp ((openAt dev z n).setBuffer ref buf) z
      (z * dev.zoneLbas + 8 * n) 8).1 = .success := by
  have hspace := dev.space_lt
  have hend := dev.zone_end_le hz
  have hpages := dev.zoneLbas_eq
  have hlast : lastLba (z * dev.zoneLbas + 8 * n) 8 = z * dev.zoneLbas + 8 * n + 7 := by
    rw [lastLba, if_neg (by omega), Nat.mod_eq_of_lt (by omega)]
    omega
  have hboundary : checkBoundaryError dev.spp dev.zpp (z * dev.zoneLbas + 8 * n) 8 = true := by
    rw [checkBoundaryError, hlast, lbaToZone_of_mem hz (by omega) (by omega),
      lbaToZone_of_mem hz (by omega) (by omega), beq_self_eq_true]
  have hwp : z * dev.zoneLbas + 8 * n =
      (((openAt dev z n).setBuffer ref buf).zoneDescs z).wp := rfl
  have haligned : ¬lbaToByte 8 % dev.spp.writeUnitSize ≠ 0 := not_not.2 hunit
  rw [commitWrite, if_neg haligned, if_neg (by rw [hboundary]; simp), if_neg (not_not.2 hwp)]
  rfl

theorem exists_pageWrite (hz : z < dev.zpp.nrZones) (hn : n < dev.zonePages)
    (hunit : 4096 % dev.spp.writeUnitSize = 0) :
    ∃ ftl', PageWrite dev z (openAt dev z n) (pageCommand dev z n) ftl' := by
  have hpages := dev.zoneLbas_eq
  have hzone : lbaToZone dev.spp dev.zpp (pageCommand dev z n).slba = z :=
    lbaToZone_of_mem hz (Nat.le_add_right _ _) (show _ + 8 * n < _ by omega)
  have hsuccess := commitWrite_openAt hz hn hunit (writeBufferRef dev.zpp z) ⟨4096, 0⟩
  obtain ⟨answer, hanswer⟩ : ∃ answer, answer = commitWrite dev.spp dev.zpp
      ((openAt dev z n).setBuffer (writeBufferRef dev.zpp z) ⟨4096, 0⟩) z
      (z * dev.zoneLbas + 8 * n) 8 := ⟨_, rfl⟩
  rw [← hanswer] at hsuccess
  have hbytes := lbaToByte_pageCommand dev z n
  have hbuf : bufferAllocate ((openAt dev z n).buffers (writeBufferRef dev.zpp z)) 4096 =
      .ok (4096, ⟨4096, 0⟩) := by
    change bufferAllocate ⟨4096, 4096⟩ 4096 = _
    decide
  have hrun : znsWritePlain dev.spp dev.zpp (openAt dev z n) (pageCommand dev z n) =
      .ok (some ⟨answer.1, 0⟩, pageCommand dev z n, answer.2) := by
    rw [znsWritePlain, hzone, hbytes, hbuf, ok_bind, hanswer]
    dsimp only
    rw [if_neg (Nat.lt_irrefl 4096)]
    rfl
  rw [← znsProcNvmeIoCmd_plain (.inl rfl) rfl] at hrun
  exact ⟨answer.2, .inl rfl, hzone, rfl, by rw [nrLba_pageCommand], _, _, hrun, hsuccess⟩

/-- A zone is filled by one more page, which releases a one-shot page or nothing. -/
theorem Fills.page {ftl : ZnsFtl} (h : Fills dev z ftl (n * 4096) released)
    (hz : z < dev.zpp.nrZones) (hn : n < dev.zonePages)
    (hunit : 4096 % dev.spp.writeUnitSize = 0)
    (hlast : z * dev.zonePages + n ≠ zoneToElpn dev.spp dev.zpp z)
    (hwp : (ftl.zoneDescs z).wp = z * dev.zoneLbas + 8 * n) :
    ∃ ftl', (ftl'.zoneDescs z).wp = z * dev.zoneLbas + 8 * (n + 1) ∧
      Fills dev z ftl' ((n + 1) * 4096)
        (released +
          if pgOffset dev.spp dev.zpp (z * dev.zonePages + n) + 1 = dev.spp.pgsPerOneshotpg then
            dev.oneshotBytes
          else 0) := by
  obtain ⟨ftl', hwrite⟩ := exists_pageWrite hz hn hunit
  obtain ⟨hmoved, hscheduled⟩ := hwrite.step (k := 1) hz (nrLba_pageCommand dev z n) rfl hn
  have hsize := dev.zoneSize_eq
  have hbytes := lbaToByte_pageCommand dev z n
  have hnext := (h.other (openAt dev z n) hwp.symm).write hwrite (by omega)
  refine ⟨ftl', hmoved, ?_⟩
  rw [hscheduled, releasesOf_eq hz Nat.zero_lt_one hn, Nat.add_sub_cancel,
    writeReleases_page hlast, hbytes] at hnext
  rw [Nat.succ_mul]
  exact hnext

/-- Filled page by page beyond LBA 2^32, a zone releases a one-shot page whenever
the shifted offset completes one. -/
theorem exists_fill (hz : z < dev.zpp.nrZones) (hbeyond : 2 ^ 32 ≤ (z + 1) * dev.zoneLbas)
    (hpg : dev.spp.pgsPerOneshotpg ≤ 2 ^ 16) (hunit : 4096 % dev.spp.writeUnitSize = 0)
    (hn : n ≤ dev.zonePages) :
    ∃ ftl, (ftl.zoneDescs z).wp = z * dev.zoneLbas + 8 * n ∧
      Fills dev z ftl (n * 4096)
        ((n + shiftOf dev z % dev.spp.pgsPerOneshotpg) / dev.spp.pgsPerOneshotpg *
          dev.oneshotBytes) := by
  have hp := dev.oneshot_pos
  induction n with
  | zero =>
      have hmod := Nat.mod_lt (shiftOf dev z) hp
      refine ⟨openAt dev z 0, rfl, ?_⟩
      rw [Nat.zero_add, Nat.div_eq_of_lt hmod, Nat.zero_mul, Nat.zero_mul]
      exact .start _ rfl
  | succ n ih =>
      obtain ⟨ftl, hwp, hfills⟩ := ih (Nat.le_of_succ_le hn)
      obtain ⟨ftl', hmoved, hnext⟩ :=
        hfills.page hz hn hunit (zoneToElpn_beyond hz hbeyond hn) hwp
      refine ⟨ftl', hmoved, ?_⟩
      rw [pgOffset_eq hz hn hpg] at hnext
      convert hnext using 1
      -- the quotient grows by one where the offset is the last of a one-shot page
      have hoffset : (n + shiftOf dev z % dev.spp.pgsPerOneshotpg) % dev.spp.pgsPerOneshotpg =
          (n + shiftOf dev z) % dev.spp.pgsPerOneshotpg := by
        rw [Nat.add_mod n (shiftOf dev z), Nat.add_mod n, Nat.mod_mod]
      rw [Nat.add_right_comm, ← hoffset]
      split
      · next hboundary => rw [div_add_of_boundary hp hboundary, Nat.add_mul, Nat.one_mul]
      · next hinside =>
        have hmod := Nat.mod_lt (n + shiftOf dev z % dev.spp.pgsPerOneshotpg) hp
        rw [div_add_of_inside hp (by omega), Nat.add_zero]

/-- Where the field `pg` cuts the offset of the last page of a one-shot page, a fill page by
page releases nothing before the last page of the zone is recognised. -/
theorem exists_fill_cut (hz : z < dev.zpp.nrZones) (hpg : 2 ^ 16 < dev.spp.pgsPerOneshotpg)
    (hunit : 4096 % dev.spp.writeUnitSize = 0)
    (hlast : ∀ m < n, z * dev.zonePages + m ≠ zoneToElpn dev.spp dev.zpp z)
    (hn : n ≤ dev.zonePages) :
    ∃ ftl, (ftl.zoneDescs z).wp = z * dev.zoneLbas + 8 * n ∧ Fills dev z ftl (n * 4096) 0 := by
  induction n with
  | zero =>
      refine ⟨openAt dev z 0, rfl, ?_⟩
      rw [Nat.zero_mul]
      exact .start _ rfl
  | succ n ih =>
      obtain ⟨ftl, hwp, hfills⟩ := ih (fun m hm => hlast m (by omega)) (Nat.le_of_succ_le hn)
      obtain ⟨ftl', hmoved, hnext⟩ :=
        hfills.page hz hn hunit (hlast n (Nat.lt_succ_self n)) hwp
      have hcut : ¬pgOffset dev.spp dev.zpp (z * dev.zonePages + n) + 1 =
          dev.spp.pgsPerOneshotpg := by
        have hfield := (Nat.mod_le (pageOffset dev.spp dev.zpp (z * dev.zonePages + n) % 2 ^ 16)
          dev.spp.pgsPerOneshotpg).trans_lt (Nat.mod_lt _ (by decide))
        rw [pgOffset]
        omega
      rw [if_neg hcut] at hnext
      exact ⟨ftl', hmoved, hnext⟩

theorem condition_of_cut (hz : z < dev.zpp.nrZones) (hpg : 2 ^ 16 < dev.spp.pgsPerOneshotpg)
    (hunit : 4096 % dev.spp.writeUnitSize = 0) (h : FillBalances dev z) :
    FillCondition dev z := by
  have hsize := dev.zoneSize_eq
  have hpages := dev.zonePages_pos
  rcases Nat.lt_or_ge ((z + 1) * dev.zoneLbas) (2 ^ 32) with hbelow | hbeyond
  · refine .inl ⟨hbelow, .inr ?_⟩
    by_contra hlong
    rw [Nat.not_le] at hlong
    -- the first one-shot page is complete, and nothing is released
    have hend := zoneToElpn_below hz hbelow
    obtain ⟨ftl, -, hfills⟩ := exists_fill_cut (n := dev.spp.pgsPerOneshotpg) hz hpg hunit
      (fun m hm => by omega) (Nat.le_of_lt hlong)
    have hnone := (h ftl _ _ hfills).1 (by omega)
    rw [OneshotGeometry.oneshotBytes, Nat.mul_div_mul_right _ _ (by decide),
      Nat.div_self dev.oneshot_pos] at hnone
    omega
  · exfalso
    obtain ⟨ftl, -, hfills⟩ := exists_fill_cut hz hpg hunit
      (fun m hm => zoneToElpn_beyond hz hbeyond hm) (Nat.le_refl dev.zonePages)
    have hall := (h ftl _ _ hfills).2 hsize.symm
    omega

theorem condition_of_field (hz : z < dev.zpp.nrZones) (hpg : dev.spp.pgsPerOneshotpg ≤ 2 ^ 16)
    (hunit : 4096 % dev.spp.writeUnitSize = 0) (h : FillBalances dev z) :
    FillCondition dev z := by
  rcases Nat.lt_or_ge ((z + 1) * dev.zoneLbas) (2 ^ 32) with hbelow | hbeyond
  · exact .inl ⟨hbelow, .inl hpg⟩
  right
  have hp := dev.oneshot_pos
  have hsize := dev.zoneSize_eq
  have hpages := dev.zonePages_pos
  have hmod := Nat.mod_lt (shiftOf dev z) hp
  have hshift := shift_whole_iff dev z
  rw [bytes_whole_iff]
  generalize hshiftEq : shiftOf dev z % dev.spp.pgsPerOneshotpg = shift at *
  have hwhole : dev.zonePages % dev.spp.pgsPerOneshotpg = 0 := by
    obtain ⟨ftl, -, hfills⟩ := exists_fill hz hbeyond hpg hunit (Nat.le_refl dev.zonePages)
    have hall := (h ftl _ _ hfills).2 hsize.symm
    rw [hsize, OneshotGeometry.oneshotBytes, ← Nat.mul_assoc] at hall
    rw [← Nat.eq_of_mul_eq_mul_right (by decide) hall, Nat.mul_mod_left]
  refine ⟨hpg, hwhole, hshift.1 ?_⟩
  by_contra hne
  -- the first one-shot page would be released before it is complete
  have hfirst : dev.spp.pgsPerOneshotpg ≤ dev.zonePages :=
    Nat.le_of_dvd hpages (Nat.dvd_of_mod_eq_zero hwhole)
  obtain ⟨ftl, -, hfills⟩ := exists_fill (n := dev.spp.pgsPerOneshotpg - shift) hz hbeyond hpg
    hunit (by omega)
  have hnone := (h ftl _ _ hfills).1 (by omega)
  rw [hshiftEq, Nat.sub_add_cancel (Nat.le_of_lt hmod), Nat.div_self hp,
    OneshotGeometry.oneshotBytes, Nat.mul_div_mul_right _ _ (by decide),
    Nat.div_eq_of_lt (show dev.spp.pgsPerOneshotpg - shift < _ by omega)] at hnone
  omega

theorem condition_of_fillBalances (hz : z < dev.zpp.nrZones)
    (hunit : 4096 % dev.spp.writeUnitSize = 0) (h : FillBalances dev z) :
    FillCondition dev z := by
  rcases Nat.lt_or_ge (2 ^ 16) dev.spp.pgsPerOneshotpg with hpg | hpg
  · exact condition_of_cut hz hpg hunit h
  · exact condition_of_field hz hpg hunit h

end PageByPage

/-- A zone whose addresses and offsets do not make a difference by wrapping releases what is
written to it, in whole one-shot pages and completely in the end. Where single
pages can be written, no other zone does. -/
theorem zone_fill_balances_iff (hz : z < dev.zpp.nrZones) :
    (FillCondition dev z → FillBalances dev z) ∧
      (4096 % dev.spp.writeUnitSize = 0 → FillBalances dev z → FillCondition dev z) :=
  ⟨fillBalances_of_condition hz, condition_of_fillBalances hz⟩

/-- The ZN540 with 2 TiB: zones of 2 GiB, and one-shot pages of 96 KiB. -/
def twoTebibytes : OneshotGeometry where
  spp := { twoZoneArray.spp with pgsPerOneshotpg := 24, writeUnitSize := 512 }
  zpp := { twoZoneArray.zpp with nrZones := 1024, zoneSize := 2147483648 }
  secsz_eq := rfl
  secsPerPg_eq := rfl
  pgsz_eq := rfl
  zoneSize_pos := by decide
  zoneSize_aligned := by decide
  zoneSize_lt := by decide
  nrZones_lt := by decide
  oneshot_pos := by decide
  oneshot_lt := by decide

theorem zone_fill_balances_first : FillBalances twoTebibytes 0 :=
  (zone_fill_balances_iff (by decide)).1 (by decide)

/-- The last zone ends at LBA 2^32, so its last page is not recognised. -/
theorem last_zone_keeps_buffer :
    zoneToElba twoTebibytes.spp twoTebibytes.zpp 1023 = 18446744073709551615 ∧
      ¬FillBalances twoTebibytes 1023 := by
  refine ⟨by decide, fun h => ?_⟩
  exact absurd (condition_of_fillBalances (by decide) (by decide) h) (by decide)

end NvmeVirt.ZoneFill
