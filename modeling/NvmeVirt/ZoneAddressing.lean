import NvmeVirt.DescriptorSteps

namespace NvmeVirt.ZoneAddressing

open DescriptorSteps
open WriteBuffer
open ZonedFtl
open ZonedRuns (command)
open ZoneArray
open ZrwaReachability

/-- The descriptor that `__init_descriptor` stores for a zone. -/
def initialDesc (dev : ZoneGeometry) (zid : Nat) : ZoneDescriptor :=
  (znsInitFtl dev.spp dev.zpp fun _ => 0).zoneDescs zid

/-- The address functions find each zone where its descriptor says, so that a
zone is full once its write pointer is at its end, and a select-all visits every
zone once. -/
structure AddressesAgree (dev : ZoneGeometry) : Prop where
  slba : ∀ zid < dev.zpp.nrZones, zoneToSlba dev.spp dev.zpp zid = (initialDesc dev zid).zslba
  zone : ∀ zid < dev.zpp.nrZones, ∀ lba, (initialDesc dev zid).zslba ≤ lba →
    lba < (initialDesc dev zid).zslba + (initialDesc dev zid).zoneCapacity →
    lbaToZone dev.spp dev.zpp lba = zid
  slpn : ∀ zid < dev.zpp.nrZones,
    zoneToSlpn dev.spp dev.zpp zid = (initialDesc dev zid).zslba / dev.spp.secsPerPg
  full : ∀ storage events ftl,
    znsRun dev.spp dev.zpp (znsInitFtl dev.spp dev.zpp storage) events = .ok ftl →
    ∀ zid < dev.zpp.nrZones,
      (ftl.zoneDescs zid).wp = (initialDesc dev zid).zslba + (initialDesc dev zid).zoneCapacity →
      (ftl.zoneDescs zid).state = .full
  selectAll : ∀ cmd, cmd.selectAll = true →
    sendTargets dev.spp dev.zpp cmd = List.range dev.zpp.nrZones

def StartsBelowWrap (dev : ZoneGeometry) : Prop :=
  (dev.zpp.nrZones - 1) * dev.zoneLbas < 2 ^ 32

variable {dev : ZoneGeometry} {zid lba : Nat}

theorem zslba_initialDesc (dev : ZoneGeometry) (zid : Nat) :
    (initialDesc dev zid).zslba = zid * dev.zoneLbas := rfl

theorem StartsBelowWrap.start_lt (h : StartsBelowWrap dev) (hz : zid < dev.zpp.nrZones) :
    zid * dev.zoneLbas < 2 ^ 32 :=
  Nat.lt_of_le_of_lt (Nat.mul_le_mul_right _ (Nat.le_sub_one_of_lt hz)) h

theorem StartsBelowWrap.zoneToSlba (h : StartsBelowWrap dev) (hz : zid < dev.zpp.nrZones) :
    zoneToSlba dev.spp dev.zpp zid = zid * dev.zoneLbas := by
  rw [zoneToSlba_eq, Nat.mod_eq_of_lt (h.start_lt hz)]

theorem lbaToZone_of_mem (hz : zid < dev.zpp.nrZones) (hlow : zid * dev.zoneLbas ≤ lba)
    (hhigh : lba < zid * dev.zoneLbas + dev.zoneLbas) :
    lbaToZone dev.spp dev.zpp lba = zid := by
  have hdiv : lba / dev.zoneLbas = zid := by
    rw [Nat.div_eq_iff dev.zoneLbas_pos]
    omega
  rw [lbaToZone_eq, hdiv, Nat.mod_eq_of_lt (Nat.lt_trans hz dev.nrZones_lt)]

theorem zoneLbas_eq_pages (dev : ZoneGeometry) :
    dev.zoneLbas = 8 * (dev.zpp.zoneSize / 4096) := by
  have haligned := dev.zoneSize_aligned
  rw [dev.pgsz_eq] at haligned
  rw [ZoneGeometry.zoneLbas, byteToLba]
  omega

structure EndIsFull (dev : ZoneGeometry) (zid : Nat) (desc : ZoneDescriptor) : Prop where
  zslba_eq : desc.zslba = zid * dev.zoneLbas
  capacity_eq : desc.zoneCapacity = dev.zoneLbas
  full : zid < dev.zpp.nrZones → desc.wp = zid * dev.zoneLbas + dev.zoneLbas → desc.state = .full

theorem EndIsFull.step (h : zid < dev.zpp.nrZones → zid * dev.zoneLbas < 2 ^ 32)
    {desc desc' : ZoneDescriptor}
    (hstep : DescStep dev.spp dev.zpp zid desc desc') (hdesc : EndIsFull dev zid desc) :
    EndIsFull dev zid desc' := by
  obtain ⟨hzslba, hcapacity, hfull⟩ := hdesc
  cases hstep with
  | relabel state hstate =>
      exact ⟨hzslba, hcapacity, fun hz hend => absurd (hfull hz hend) hstate⟩
  | finish => exact ⟨hzslba, hcapacity, fun _ _ => rfl⟩
  | allocate => exact ⟨hzslba, hcapacity, hfull⟩
  | reset =>
      refine ⟨hzslba, hcapacity, fun _ hend => ?_⟩
      have hpos := dev.zoneLbas_pos
      dsimp only at hend
      omega
  | advance wp hwp =>
      refine ⟨hzslba, hcapacity, fun hz hend => absurd hend ?_⟩
      rwa [zoneToSlba_eq, Nat.mod_eq_of_lt (h hz), hcapacity] at hwp
  | fill wp => exact ⟨hzslba, hcapacity, fun _ _ => rfl⟩

theorem initialDesc_endIsFull (dev : ZoneGeometry) (zid : Nat) :
    EndIsFull dev zid (initialDesc dev zid) where
  zslba_eq := rfl
  capacity_eq := rfl
  full _ hend := by
    have hpos := dev.zoneLbas_pos
    have hwp : (initialDesc dev zid).wp = zid * dev.zoneLbas := rfl
    omega

/-- The address functions agree with the descriptors exactly when the last zone
starts below LBA 2^32, where the 32-bit product of `zone_to_slba` wraps. -/
theorem addresses_agree_iff (dev : ZoneGeometry) :
    AddressesAgree dev ↔ StartsBelowWrap dev := by
  constructor
  · intro hagree
    rcases Nat.eq_zero_or_pos dev.zpp.nrZones with hnone | hsome
    · rw [StartsBelowWrap, hnone, Nat.zero_sub, Nat.zero_mul]
      decide
    · have hlast := hagree.slba (dev.zpp.nrZones - 1) (Nat.sub_one_lt (Nat.ne_of_gt hsome))
      rw [zoneToSlba_eq, zslba_initialDesc] at hlast
      rw [StartsBelowWrap, ← hlast]
      exact Nat.mod_lt _ (by decide)
  · intro h
    refine ⟨fun zid hz => h.zoneToSlba hz, ?_, ?_, ?_, ?_⟩
    · intro zid hz lba hlow hhigh
      exact lbaToZone_of_mem hz hlow hhigh
    · intro zid hz
      have hstart := h.start_lt hz
      rw [zslba_initialDesc, dev.secsPerPg_eq]
      rw [zoneLbas_eq_pages, Nat.mul_left_comm] at hstart ⊢
      rw [Nat.mul_div_cancel_left _ (by decide), zoneToSlpn, dev.pgsz_eq,
        Nat.mod_eq_of_lt (by omega)]
    · intro storage events ftl hrun zid hz hend
      have hevolves := (znsRun_evolves events).value hrun
      have hkept : EndIsFull dev zid (ftl.zoneDescs zid) :=
        hevolves.invariant (P := EndIsFull dev)
          (fun _ _ _ hstep => EndIsFull.step h.start_lt hstep) (initialDesc_endIsFull dev zid)
      exact hkept.full hz hend
    · intro cmd hall
      have hvisited : ∀ zid ∈ List.range dev.zpp.nrZones,
          lbaToZone dev.spp dev.zpp (zoneToSlba dev.spp dev.zpp zid) = zid := by
        intro zid hmem
        have hz := List.mem_range.1 hmem
        have hpos := dev.zoneLbas_pos
        rw [h.zoneToSlba hz]
        exact lbaToZone_of_mem hz (Nat.le_refl _) (by omega)
      rw [sendTargets, if_pos hall, List.map_congr_left hvisited, List.map_id']

def bigDevice : ZoneGeometry where
  spp := twoZoneArray.spp
  zpp := { twoZoneArray.zpp with nrZones := 1025, zoneSize := 2147483648 }
  secsz_eq := twoZoneArray.secsz_eq
  secsPerPg_eq := twoZoneArray.secsPerPg_eq
  pgsz_eq := twoZoneArray.pgsz_eq
  zoneSize_pos := by decide
  zoneSize_aligned := by decide
  zoneSize_lt := by decide
  nrZones_lt := by decide

/-- Its last zone is taken for the first: a select-all visits that one twice. -/
theorem last_zone_wraps_to_first :
    zoneToSlba bigDevice.spp bigDevice.zpp 1024 = 0 ∧
      (initialDesc bigDevice 1024).zslba = 4294967296 ∧
      (∀ cmd, cmd.selectAll = true →
        1024 ∉ sendTargets bigDevice.spp bigDevice.zpp cmd) ∧
      ¬AddressesAgree bigDevice := by
  have hwrap : zoneToSlba bigDevice.spp bigDevice.zpp 1024 = 0 := by decide
  refine ⟨hwrap, by decide, ?_, fun hagree => ?_⟩
  · intro cmd hall hmem
    rw [sendTargets, if_pos hall, List.mem_map] at hmem
    obtain ⟨zid, hz, hzone⟩ := hmem
    have hlt : zid < 1025 := List.mem_range.1 hz
    have hslba := Nat.mod_lt (zid * bigDevice.zoneLbas) (show 0 < 2 ^ 32 by decide)
    have hlbas : bigDevice.zoneLbas = 4194304 := by decide
    rw [zoneToSlba_eq, lbaToZone_eq, hlbas] at hzone
    omega
  · have hslba := hagree.slba 1024 (by decide)
    rw [hwrap] at hslba
    exact absurd hslba (by decide)

end NvmeVirt.ZoneAddressing
