import NvmeVirt.ZrwaReachability

namespace NvmeVirt.ZoneArray

open FaultOutcome
open FlashGeometry
open WriteBuffer
open ZonedAccounting
open ZonedFtl
open ZonedRuns
open ZrwaReachability

/-- A zoned namespace with 512-byte blocks, 4 KiB mapping pages and zones of
whole pages; the size and the number of its zones are 32-bit values. -/
structure ZoneGeometry where
  spp : SsdParams
  zpp : ZnsParams
  secsz_eq : spp.secsz = 512
  secsPerPg_eq : spp.secsPerPg = 8
  pgsz_eq : spp.pgsz = 4096
  zoneSize_pos : 0 < zpp.zoneSize
  zoneSize_aligned : zpp.zoneSize % spp.pgsz = 0
  zoneSize_lt : zpp.zoneSize < 2 ^ 32
  nrZones_lt : zpp.nrZones < 2 ^ 32

namespace ZoneGeometry

variable (dev : ZoneGeometry)

def zoneLbas : Nat := byteToLba dev.zpp.zoneSize

def space : Nat := dev.zpp.nrZones * dev.zoneLbas

theorem zoneLbas_bounds : 8 ≤ dev.zoneLbas ∧ dev.zoneLbas < 2 ^ 23 := by
  have hpos := dev.zoneSize_pos
  have haligned := dev.zoneSize_aligned
  have hlt := dev.zoneSize_lt
  rw [dev.pgsz_eq] at haligned
  rw [zoneLbas, byteToLba]
  omega

theorem zoneLbas_pos : 0 < dev.zoneLbas := Nat.lt_of_lt_of_le (by decide) dev.zoneLbas_bounds.1

theorem space_lt : dev.space < 2 ^ 56 := by
  have hmul : dev.zpp.nrZones * dev.zoneLbas ≤ 2 ^ 32 * 2 ^ 23 :=
    Nat.mul_le_mul (Nat.le_of_lt dev.nrZones_lt) (Nat.le_of_lt dev.zoneLbas_bounds.2)
  rw [space]
  omega

theorem zone_end_le {z : Nat} (hz : z < dev.zpp.nrZones) :
    z * dev.zoneLbas + dev.zoneLbas ≤ dev.space := by
  have hmul := Nat.mul_le_mul_right dev.zoneLbas (Nat.succ_le_of_lt hz)
  rwa [Nat.succ_mul] at hmul

end ZoneGeometry

variable {dev : ZoneGeometry} {ftl ftl' : ZnsFtl} {cmd cmd' : ZnsCommand} {reply : Option Reply}
  {slba nrLba lba : Nat}

section Addresses

theorem lbaToZone_eq (dev : ZoneGeometry) (lba : Nat) :
    lbaToZone dev.spp dev.zpp lba = lba / dev.zoneLbas % 2 ^ 32 := by
  rw [lbaToZone, dev.secsz_eq, ZoneGeometry.zoneLbas, byteToLba]

theorem zoneToSlba_eq (dev : ZoneGeometry) (z : Nat) :
    zoneToSlba dev.spp dev.zpp z = z * dev.zoneLbas % 2 ^ 32 := by
  rw [zoneToSlba, dev.secsz_eq, ZoneGeometry.zoneLbas, byteToLba]

theorem lpnToZone_lbaToLpn (dev : ZoneGeometry) (lba : Nat) :
    lpnToZone dev.spp dev.zpp (lbaToLpn dev.spp lba) = lbaToZone dev.spp dev.zpp lba :=
  lpnToZone_lbaToLpn_of_aligned dev.secsz_eq dev.secsPerPg_eq dev.pgsz_eq dev.zoneSize_aligned lba

theorem lbaToZone_of_lt (h : lba < dev.space) :
    lbaToZone dev.spp dev.zpp lba = lba / dev.zoneLbas ∧
      lbaToZone dev.spp dev.zpp lba < dev.zpp.nrZones := by
  have hlt : lba / dev.zoneLbas < dev.zpp.nrZones :=
    (Nat.div_lt_iff_lt_mul dev.zoneLbas_pos).2 h
  rw [lbaToZone_eq, Nat.mod_eq_of_lt (Nat.lt_trans hlt dev.nrZones_lt)]
  exact ⟨rfl, hlt⟩

theorem zoneToSlba_lt {z : Nat} (hz : z < dev.zpp.nrZones) :
    zoneToSlba dev.spp dev.zpp z < dev.space := by
  rw [zoneToSlba_eq]
  refine Nat.lt_of_le_of_lt (Nat.mod_le _ _) ?_
  exact Nat.mul_lt_mul_of_pos_right hz dev.zoneLbas_pos

/-- A range that starts inside the namespace and passes the boundary check stays
in one zone. -/
theorem range_of_checkBoundaryError (hslba : slba < dev.space) (hpos : 0 < nrLba)
    (hsize : nrLba ≤ 65536) (hcheck : checkBoundaryError dev.spp dev.zpp slba nrLba = true) :
    lastLba slba nrLba = slba + nrLba - 1 ∧
      lbaToZone dev.spp dev.zpp slba * dev.zoneLbas ≤ slba ∧
      slba + nrLba ≤ lbaToZone dev.spp dev.zpp slba * dev.zoneLbas + dev.zoneLbas := by
  obtain ⟨hzone, hlt⟩ := lbaToZone_of_lt hslba
  have hspace := dev.space_lt
  have hbound := dev.nrZones_lt
  have hlbas := dev.zoneLbas_bounds.1
  have hlast : lastLba slba nrLba = slba + nrLba - 1 := by
    rw [lastLba, if_neg (by omega), Nat.mod_eq_of_lt (by omega)]
  rw [checkBoundaryError, beq_iff_eq, hlast, lbaToZone_eq dev (slba + nrLba - 1)] at hcheck
  -- the last zone is at most 2^13 zones further on, too close for the truncation
  have hnear : (slba + nrLba - 1) / dev.zoneLbas ≤ slba / dev.zoneLbas + 8193 := by
    have hnum : slba + nrLba - 1 ≤ slba + 8192 * dev.zoneLbas := by omega
    have hle : (slba + nrLba - 1) / dev.zoneLbas ≤
        (slba + 8192 * dev.zoneLbas) / dev.zoneLbas := Nat.div_le_div_right hnum
    rw [Nat.add_mul_div_right _ _ dev.zoneLbas_pos] at hle
    omega
  have hsame : (slba + nrLba - 1) / dev.zoneLbas = lbaToZone dev.spp dev.zpp slba := by
    generalize (slba + nrLba - 1) / dev.zoneLbas = q at *
    generalize lbaToZone dev.spp dev.zpp slba = z at *
    omega
  refine ⟨hlast, hzone ▸ Nat.div_mul_le_self _ _, ?_⟩
  have hend : slba + nrLba - 1 <
      (slba + nrLba - 1) / dev.zoneLbas * dev.zoneLbas + dev.zoneLbas :=
    Nat.lt_div_mul_add dev.zoneLbas_pos
  rw [hsame] at hend
  omega

end Addresses

section Indices

/-- How many descriptors `__fill_zone_report` copies from zone `startZid` on; a
`struct zone_descriptor` has 64 bytes. -/
def nrZoneToReport (zpp : ZnsParams) (startZid nrDw zraSpecificFeatures : Nat) : Nat :=
  let bytesTransfer := (nrDw + 1) % 2 ^ 32 * 4
  let nr :=
    if zraSpecificFeatures = 0 then zpp.nrZones - startZid
    else if bytesTransfer / 64 = 0 then 18446744073709551615
    else bytesTransfer / 64 - 1
  min nr (zpp.nrZones - startZid)

/-- The indices into `zone_descs`, `zone_write_buffer` and `zrwa_buffer` that a
command makes `zns_proc_nvme_io_cmd` use. The last two arguments are the members
of `struct nvme_zone_mgmt_recv` that bound a report. -/
def zoneIndices (dev : ZoneGeometry) (cmd : ZnsCommand) (nrDw zraSpecificFeatures : Nat) :
    List Nat :=
  match cmd.opcode with
  | .write | .zoneAppend =>
      [lpnToZone dev.spp dev.zpp (lbaToLpn dev.spp cmd.slba), lbaToZone dev.spp dev.zpp cmd.slba]
  | .read => [lpnToZone dev.spp dev.zpp (lbaToLpn dev.spp cmd.slba)]
  | .zoneMgmtSend => sendTargets dev.spp dev.zpp cmd
  | .zoneMgmtRecv =>
      if checkZmgmtRcvOptionSupported dev.spp dev.zpp cmd then
        List.range' (lbaToZone dev.spp dev.zpp cmd.slba)
          (nrZoneToReport dev.zpp (lbaToZone dev.spp dev.zpp cmd.slba) nrDw zraSpecificFeatures)
      else []
  | .flush | .other _ => []

/-- The LBAs that a command names. An append and the management commands name
their zone by one LBA; a select-all names none. -/
def AddressedLba (cmd : ZnsCommand) (lba : Nat) : Prop :=
  match cmd.opcode with
  | .write | .read => cmd.slba ≤ lba ∧ lba < cmd.slba + cmd.nrLba
  | .zoneAppend | .zoneMgmtRecv => lba = cmd.slba
  | .zoneMgmtSend => cmd.selectAll = false ∧ lba = cmd.slba
  | .flush | .other _ => False

/-- A status that tells the host that the command failed. -/
def IsError (status : Status) : Prop := status ≠ .success ∧ status ≠ .indeterminate

/-- The command uses no index outside the zone array, and if it names an LBA
outside the namespace, it does not fault and every answer to it is an error. -/
structure Proper (dev : ZoneGeometry) (ftl : ZnsFtl) (cmd : ZnsCommand) : Prop where
  indices : ∀ nrDw zraSpecificFeatures, ∀ i ∈ zoneIndices dev cmd nrDw zraSpecificFeatures,
    i < dev.zpp.nrZones
  rejected : (∃ lba, AddressedLba cmd lba ∧ dev.space ≤ lba) →
    Outcome (znsProcNvmeIoCmd dev.spp dev.zpp ftl cmd)
      (fun answer => ∀ r, answer.1 = some r → IsError r.status) fun _ => False

/-- The first LBA of the command lies inside the namespace, unless it is not used
or `__check_zmgmt_rcv_option_supported` refuses the command; and a write over the
end of the namespace fits the write buffer of its zone. -/
def InBounds (dev : ZoneGeometry) (ftl : ZnsFtl) (cmd : ZnsCommand) : Prop :=
  match cmd.opcode with
  | .write => cmd.slba < dev.space ∧
      (dev.space < cmd.slba + cmd.nrLba →
        (ftl.zoneDescs (lbaToZone dev.spp dev.zpp cmd.slba)).zrwav = false →
        lbaToByte cmd.nrLba ≤ (ftl.buffers
          (writeBufferRef dev.zpp (lbaToZone dev.spp dev.zpp cmd.slba))).size)
  | .read | .zoneAppend => cmd.slba < dev.space
  | .zoneMgmtSend => cmd.selectAll = true ∨ cmd.slba < dev.space
  | .zoneMgmtRecv => cmd.slba < dev.space ∨
      dev.zpp.nrZones ≤ lbaToZone dev.spp dev.zpp cmd.slba ∨ cmd.zra ≠ 0 ∨
        cmd.zraSpecificField ≠ 0
  | .flush | .other _ => True

end Indices

section Frame

variable {z zid : Nat}

theorem zoneDescs_releaseActive : (releaseActive ftl zid).zoneDescs = ftl.zoneDescs := by
  rw [releaseActive]
  split <;> rfl

theorem resetZone_frame {zpp : ZnsParams} (hz : z ≠ zid) :
    (resetZone zpp ftl zid).zoneDescs z = ftl.zoneDescs z := by
  rw [resetZone]
  split <;> simp [ZnsFtl.setDesc, ZnsFtl.setBuffer, hz]

theorem tryOpen_frame (hz : z ≠ zid) (state : ZoneState) (status : Status) :
    (match acquireZoneResource ftl .openZone with
      | (false, ftl) => (status, ftl)
      | (true, ftl) => (.success, changeZoneState ftl zid state)).2.zoneDescs z =
      ftl.zoneDescs z := by
  have hacquired : (acquireZoneResource ftl .openZone).2.zoneDescs = ftl.zoneDescs :=
    zoneDescs_acquire
  generalize acquireZoneResource ftl .openZone = taken at hacquired
  obtain ⟨ok, base⟩ := taken
  cases ok with
  | false => exact congrFun hacquired z
  | true => simpa [hz] using congrFun hacquired z

theorem zmgmtSendOpenZone_frame (hz : z ≠ zid) (option : Bool) :
    (zmgmtSendOpenZone ftl zid option).2.zoneDescs z = ftl.zoneDescs z := by
  rw [zmgmtSendOpenZone]
  split
  · split
    · rfl
    · split
      · rfl
      · split
        · split
          · rfl
          · exact (tryOpen_frame hz .openedExpl .noOpenZone).trans (by simp [hz])
        · exact (tryOpen_frame hz .openedExpl .noOpenZone).trans (by simp)
  · exact tryOpen_frame hz .openedExpl .noOpenZone
  · simp [hz]
  · rfl
  · rfl

theorem flushZrwaTo_frame (hz : z ≠ zid) :
    (flushZrwaTo dev.spp dev.zpp ftl zid slba).2.zoneDescs z = ftl.zoneDescs z := by
  rw [flushZrwaTo]
  dsimp only
  split
  · split <;> simp [hz]
  · split <;> simp [hz]
  · split <;> simp [hz]
  · rfl

theorem zmgmtSend_frame {action : ZoneSendAction} {option : Bool} {status : Status}
    (hz : z ≠ lbaToZone dev.spp dev.zpp slba)
    (hrun : zmgmtSend dev.spp dev.zpp ftl slba action option = .ok (status, ftl')) :
    ftl'.zoneDescs z = ftl.zoneDescs z := by
  cases action with
  | closeZone =>
      obtain rfl := congrArg Prod.snd (Except.ok.inj hrun)
      rw [zmgmtSendCloseZone]
      split <;> simp [hz]
  | finishZone =>
      obtain rfl := congrArg Prod.snd (Except.ok.inj hrun)
      rw [zmgmtSendFinishZone]
      split <;> simp [hz, zoneDescs_releaseActive]
  | openZone =>
      obtain rfl := congrArg Prod.snd (Except.ok.inj hrun)
      exact zmgmtSendOpenZone_frame hz option
  | resetZone =>
      obtain rfl := congrArg Prod.snd (Except.ok.inj hrun)
      rw [zmgmtSendResetZone]
      split <;> simp [hz, resetZone_frame, zoneDescs_releaseActive]
  | offlineZone =>
      obtain rfl := congrArg Prod.snd (Except.ok.inj hrun)
      rw [zmgmtSendOfflineZone]
      split <;> simp [hz]
  | flushExplZrwa =>
      rw [zmgmtSend, zmgmtSendFlushExplicitZrwa] at hrun
      split at hrun
      · obtain rfl := congrArg Prod.snd (Except.ok.inj hrun)
        rfl
      · split at hrun
        · obtain rfl := congrArg Prod.snd (Except.ok.inj hrun)
          rfl
        · split at hrun
          · cases hrun
          · split at hrun
            · obtain rfl := congrArg Prod.snd (Except.ok.inj hrun)
              rfl
            · obtain rfl := congrArg Prod.snd (Except.ok.inj hrun)
              exact flushZrwaTo_frame hz
  | other code =>
      obtain rfl := congrArg Prod.snd (Except.ok.inj hrun)
      rfl

theorem increaseWritePtr_frame (hz : z ≠ zid) (nrLba : Nat) :
    (increaseWritePtr dev.spp dev.zpp ftl zid nrLba).zoneDescs z = ftl.zoneDescs z := by
  rw [increaseWritePtr]
  dsimp only
  split <;> simp [hz]

theorem openForWrite_frame (hz : z ≠ zid) :
    (openForWrite ftl zid slba).2.zoneDescs z = ftl.zoneDescs z := by
  rw [openForWrite]
  split
  · split
    · rfl
    · split
      · rfl
      · split
        · rfl
        · exact (tryOpen_frame hz .openedImpl .noOpenZone).trans (by simp)
  · exact tryOpen_frame hz .openedImpl .noOpenZone
  · rfl
  · rfl
  · rfl
  · rfl
  · rfl

theorem commitWrite_frame (hz : z ≠ zid) :
    (commitWrite dev.spp dev.zpp ftl zid slba nrLba).2.zoneDescs z = ftl.zoneDescs z := by
  rw [commitWrite]
  split
  · rfl
  · split
    · rfl
    · split
      · rfl
      · have hopened : (openForWrite ftl zid slba).2.zoneDescs z = ftl.zoneDescs z :=
          openForWrite_frame hz
        generalize openForWrite ftl zid slba = opening at hopened
        obtain ⟨status, opening⟩ := opening
        cases status with
        | success => exact (increaseWritePtr_frame hz nrLba).trans hopened
        | _ => exact hopened

theorem znsWritePlain_frame (hz : z ≠ lbaToZone dev.spp dev.zpp cmd.slba)
    (hrun : znsWritePlain dev.spp dev.zpp ftl cmd = .ok (reply, cmd', ftl')) :
    ftl'.zoneDescs z = ftl.zoneDescs z := by
  obtain ⟨⟨granted, buf⟩, -, hrun⟩ := exists_of_bind_eq_ok hrun
  dsimp only at hrun
  split at hrun
  · cases hrun
    rfl
  · cases hrun
    exact commitWrite_frame hz

theorem zrwaAllocate_spec {zpp : ZnsParams} {size : Nat} {granted : Bool}
    (hrun : zrwaAllocate zpp ftl zid size = .ok (granted, ftl')) :
    Same ftl ftl' ∧ (granted = true →
      (ftl'.buffers (.zrwaBuffer zid)).remaining + size =
        (ftl.buffers (.zrwaBuffer zid)).remaining) := by
  rw [zrwaAllocate] at hrun
  split at hrun
  · cases hrun
  · obtain ⟨⟨taken, buf⟩, hbuf, hrun⟩ := exists_of_bind_eq_ok hrun
    cases hrun
    refine ⟨⟨rfl, rfl⟩, fun hgranted => ?_⟩
    simp only [ZnsFtl.setBuffer, Function.update_self]
    obtain ⟨-, ⟨-, hnone, -⟩ | ⟨-, hremaining⟩⟩ := bufferAllocate_cases hbuf
    · simp [hnone] at hgranted
    · exact hremaining

theorem openForZrwaWrite_frame {status : Status} (hz : z ≠ zid)
    (hrun : openForZrwaWrite dev.zpp ftl zid = .ok (status, ftl')) :
    ftl'.zoneDescs z = ftl.zoneDescs z := by
  cases zrwaOpens_of_openForZrwaWrite hrun with
  | already => rfl
  | refused => rfl
  | opens _ _ hbase => simp [hz, (zrwaAllocate_spec hbase).1.zoneDescs]

theorem znsWriteZrwa_frame (hz : z ≠ lbaToZone dev.spp dev.zpp cmd.slba)
    (hrun : znsWriteZrwa dev.spp dev.zpp ftl cmd = .ok (reply, cmd', ftl')) :
    ftl'.zoneDescs z = ftl.zoneDescs z := by
  obtain ⟨-, hwrites⟩ := zrwaWrites_of_znsWriteZrwa hrun
  cases hwrites with
  | rejected => rfl
  | answered _ hopen => exact openForZrwaWrite_frame hz hopen
  | refused _ hopen hfilled =>
      have hopened := openForZrwaWrite_frame hz hopen
      exact (congrFun (zrwaAllocate_spec hfilled).1.zoneDescs z).trans hopened
  | flushes _ hopen hfilled =>
      have hopened := openForZrwaWrite_frame hz hopen
      have hkept := (congrFun (zrwaAllocate_spec hfilled).1.zoneDescs z).trans hopened
      exact (increaseWritePtr_frame hz _).trans hkept

theorem znsProcNvmeIoCmd_frame (hz : z ∉ zoneIndices dev cmd 0 0)
    (hrun : znsProcNvmeIoCmd dev.spp dev.zpp ftl cmd = .ok (reply, cmd', ftl')) :
    ftl'.zoneDescs z = ftl.zoneDescs z := by
  have hwrite : z ≠ lbaToZone dev.spp dev.zpp cmd.slba →
      znsWrite dev.spp dev.zpp ftl cmd = .ok (reply, cmd', ftl') →
      ftl'.zoneDescs z = ftl.zoneDescs z := by
    intro hne hrun
    rw [znsWrite] at hrun
    split at hrun
    · exact znsWriteZrwa_frame hne hrun
    · exact znsWritePlain_frame hne hrun
  rw [zoneIndices] at hz
  rw [znsProcNvmeIoCmd] at hrun
  cases hop : cmd.opcode with
  | write =>
      simp only [hop, List.mem_cons, not_or] at hz hrun
      exact hwrite hz.2.1 hrun
  | zoneAppend =>
      simp only [hop, List.mem_cons, not_or] at hz hrun
      exact hwrite hz.2.1 hrun
  | zoneMgmtSend =>
      simp only [hop] at hz hrun
      obtain ⟨⟨status, sent⟩, hsend, hrun⟩ := exists_of_bind_eq_ok hrun
      cases hrun
      rw [znsZmgmtSend] at hsend
      rw [sendTargets] at hz
      split at hsend
      · next hall =>
        rw [if_pos hall, List.mem_map] at hz
        obtain ⟨last, hfold, hsend⟩ := exists_of_bind_eq_ok hsend
        cases hsend
        refine (Outcome.foldlM (P := fun mid => mid.zoneDescs z = ftl.zoneDescs z)
          (E := fun _ => True) rfl ?_).value hfold
        intro i hi mid hmid
        cases hone : zmgmtSend dev.spp dev.zpp mid (zoneToSlba dev.spp dev.zpp i) cmd.zsa
            cmd.zsaso with
        | error fault => trivial
        | ok one => exact (zmgmtSend_frame (fun heq => hz ⟨i, hi, heq.symm⟩) hone).trans hmid
      · next hall =>
        rw [if_neg hall, List.mem_singleton] at hz
        exact zmgmtSend_frame hz hsend
  | read =>
      simp only [hop] at hrun
      cases hrun
      rfl
  | flush =>
      simp only [hop] at hrun
      cases hrun
      rfl
  | zoneMgmtRecv =>
      simp only [hop] at hrun
      cases hrun
      rfl
  | other code =>
      simp only [hop] at hrun
      cases hrun
      rfl

end Frame

section Bounds

theorem sendTargets_lt (h : cmd.selectAll = true ∨ cmd.slba < dev.space) :
    ∀ i ∈ sendTargets dev.spp dev.zpp cmd, i < dev.zpp.nrZones := by
  intro i hi
  rw [sendTargets] at hi
  split at hi
  · obtain ⟨z, hz, rfl⟩ := List.mem_map.1 hi
    exact (lbaToZone_of_lt (zoneToSlba_lt (List.mem_range.1 hz))).2
  · next hall =>
    obtain rfl := List.mem_singleton.1 hi
    exact (lbaToZone_of_lt (h.resolve_left hall)).2

theorem nrZoneToReport_le (zpp : ZnsParams) (startZid nrDw zraSpecificFeatures : Nat) :
    nrZoneToReport zpp startZid nrDw zraSpecificFeatures ≤ zpp.nrZones - startZid :=
  Nat.min_le_right _ _

theorem InBounds.indices (h : InBounds dev ftl cmd) (nrDw zraSpecificFeatures : Nat) :
    ∀ i ∈ zoneIndices dev cmd nrDw zraSpecificFeatures, i < dev.zpp.nrZones := by
  intro i hi
  rw [InBounds] at h
  rw [zoneIndices] at hi
  cases hop : cmd.opcode with
  | write =>
      simp only [hop, lpnToZone_lbaToLpn, List.mem_cons, List.not_mem_nil, or_false, or_self]
        at h hi
      rw [hi]
      exact (lbaToZone_of_lt h.1).2
  | zoneAppend =>
      simp only [hop, lpnToZone_lbaToLpn, List.mem_cons, List.not_mem_nil, or_false, or_self]
        at h hi
      rw [hi]
      exact (lbaToZone_of_lt h).2
  | read =>
      simp only [hop, lpnToZone_lbaToLpn, List.mem_singleton] at h hi
      rw [hi]
      exact (lbaToZone_of_lt h).2
  | zoneMgmtSend =>
      simp only [hop] at h hi
      exact sendTargets_lt h i hi
  | zoneMgmtRecv =>
      simp only [hop] at hi
      split at hi
      · next hsupported =>
        rw [checkZmgmtRcvOptionSupported, Bool.and_eq_true, Bool.and_eq_true,
          decide_eq_true_eq] at hsupported
        obtain ⟨-, hlt⟩ := List.mem_range'_1.1 hi
        have hle := nrZoneToReport_le dev.zpp (lbaToZone dev.spp dev.zpp cmd.slba) nrDw
          zraSpecificFeatures
        omega
      · simp at hi
  | flush =>
      simp only [hop] at hi
      simp at hi
  | other code =>
      simp only [hop] at hi
      simp at hi

theorem checkBoundaryError_of_crossing (hslba : slba < dev.space) (hpos : 0 < nrLba)
    (hsize : nrLba ≤ 65536) (hcross : dev.space < slba + nrLba) :
    checkBoundaryError dev.spp dev.zpp slba nrLba = false := by
  cases hcheck : checkBoundaryError dev.spp dev.zpp slba nrLba with
  | false => rfl
  | true =>
      obtain ⟨-, -, hend⟩ := range_of_checkBoundaryError hslba hpos hsize hcheck
      have hle := dev.zone_end_le (lbaToZone_of_lt hslba).2
      omega

theorem commitWrite_crossing {zid : Nat}
    (hcheck : checkBoundaryError dev.spp dev.zpp slba nrLba = false) :
    IsError (commitWrite dev.spp dev.zpp ftl zid slba nrLba).1 := by
  rw [commitWrite, if_pos hcheck]
  split
  · exact ⟨by simp, by simp⟩
  · exact ⟨by simp, by simp⟩

theorem znsWritePlain_crossing (hop : cmd.opcode = .write)
    (hcheck : checkBoundaryError dev.spp dev.zpp cmd.slba cmd.nrLba = false)
    (hfits : lbaToByte cmd.nrLba ≤ (ftl.buffers
      (writeBufferRef dev.zpp (lbaToZone dev.spp dev.zpp cmd.slba))).size) :
    Outcome (znsWritePlain dev.spp dev.zpp ftl cmd)
      (fun answer => ∀ r, answer.1 = some r → IsError r.status) fun _ => False := by
  rw [znsWritePlain, bufferAllocate, nvmevAssert_of hfits]
  simp only [ok_bind, hop]
  refine Outcome.bind (P := fun _ => True) trivial fun granted _ => ?_
  split
  · exact Outcome.pure fun r hr => by cases hr
  · refine Outcome.pure fun r hr => ?_
    cases hr
    exact commitWrite_crossing hcheck

theorem znsWriteZrwa_crossing
    (hcheck : checkBoundaryError dev.spp dev.zpp cmd.slba cmd.nrLba = false) :
    Outcome (znsWriteZrwa dev.spp dev.zpp ftl cmd)
      (fun answer => ∀ r, answer.1 = some r → IsError r.status) fun _ => False := by
  have hrejected : ∀ status, IsError status → Outcome
      (Except.ok (some { status := status, result := 0 }, cmd, ftl) :
        Except Fault (Option Reply × ZnsCommand × ZnsFtl))
      (fun answer => ∀ r, answer.1 = some r → IsError r.status) fun _ => False := by
    intro status herror r hr
    cases hr
    exact herror
  rw [znsWriteZrwa, if_pos hcheck]
  split
  · exact hrejected _ ⟨by simp, by simp⟩
  · exact hrejected _ ⟨by simp, by simp⟩

theorem znsReadStatus_crossing
    (hcheck : checkBoundaryError dev.spp dev.zpp cmd.slba cmd.nrLba = false) :
    IsError (znsReadStatus dev.spp dev.zpp ftl cmd) := by
  rw [znsReadStatus, if_pos hcheck]
  split
  · exact ⟨by simp, by simp⟩
  · exact ⟨by simp, by simp⟩

theorem InBounds.rejected (h : InBounds dev ftl cmd)
    (houtside : ∃ lba, AddressedLba cmd lba ∧ dev.space ≤ lba) :
    Outcome (znsProcNvmeIoCmd dev.spp dev.zpp ftl cmd)
      (fun answer => ∀ r, answer.1 = some r → IsError r.status) fun _ => False := by
  obtain ⟨lba, haddressed, hlba⟩ := houtside
  obtain ⟨hpos, hsize⟩ := ZnsCommand.nrLba_bounds cmd
  rw [InBounds] at h
  rw [AddressedLba] at haddressed
  rw [znsProcNvmeIoCmd]
  cases hop : cmd.opcode with
  | write =>
      simp only [hop] at h haddressed
      have hcross : dev.space < cmd.slba + cmd.nrLba := by omega
      have hcheck := checkBoundaryError_of_crossing h.1 hpos hsize hcross
      dsimp only
      rw [znsWrite, lpnToZone_lbaToLpn]
      split
      · exact znsWriteZrwa_crossing hcheck
      · next hplain => exact znsWritePlain_crossing hop hcheck (h.2 hcross (by simpa using hplain))
  | read =>
      simp only [hop] at h haddressed
      have hcheck := checkBoundaryError_of_crossing h hpos hsize (by omega)
      intro r hr
      cases hr
      exact znsReadStatus_crossing hcheck
  | zoneAppend =>
      simp only [hop] at h haddressed
      omega
  | zoneMgmtSend =>
      simp only [hop] at h haddressed
      obtain ⟨hall, rfl⟩ := haddressed
      rcases h with h | h
      · simp [hall] at h
      · omega
  | zoneMgmtRecv =>
      simp only [hop] at h haddressed
      intro r hr
      cases hr
      have hrefused : checkZmgmtRcvOptionSupported dev.spp dev.zpp cmd ≠ true := by
        rw [checkZmgmtRcvOptionSupported, Ne, Bool.and_eq_true, Bool.and_eq_true,
          decide_eq_true_eq, beq_iff_eq, beq_iff_eq]
        omega
      dsimp only
      rw [if_neg hrefused]
      exact ⟨by simp, by simp⟩
  | flush => simp only [hop] at haddressed
  | other code => simp only [hop] at haddressed

/-- A write over the end of the namespace that is longer than its write buffer
never comes to an answer. -/
theorem znsWritePlain_too_long (hlong : ¬lbaToByte cmd.nrLba ≤ (ftl.buffers
      (writeBufferRef dev.zpp (lbaToZone dev.spp dev.zpp cmd.slba))).size) :
    znsWritePlain dev.spp dev.zpp ftl cmd = .error (.bugOn .bufferAllocate) := by
  rw [znsWritePlain, bufferAllocate, nvmevAssert, if_neg hlong]
  rfl

theorem le_lbaToZone (hslba : dev.space ≤ slba) (hlt : slba < 2 ^ 32 * dev.zoneLbas) :
    dev.zpp.nrZones ≤ lbaToZone dev.spp dev.zpp slba := by
  have hdiv : slba / dev.zoneLbas < 2 ^ 32 := (Nat.div_lt_iff_lt_mul dev.zoneLbas_pos).2 hlt
  rw [lbaToZone_eq, Nat.mod_eq_of_lt hdiv]
  exact (Nat.le_div_iff_mul_le dev.zoneLbas_pos).2 hslba

theorem Proper.inBounds (h : Proper dev ftl cmd) (hlt : cmd.slba < 2 ^ 32 * dev.zoneLbas) :
    InBounds dev ftl cmd := by
  have hindices := h.indices 0 0
  have hinside : (∃ i ∈ zoneIndices dev cmd 0 0, i = lbaToZone dev.spp dev.zpp cmd.slba) →
      cmd.slba < dev.space := by
    rintro ⟨i, hi, rfl⟩
    by_contra hge
    exact Nat.lt_irrefl _ (Nat.lt_of_lt_of_le (hindices _ hi)
      (le_lbaToZone (Nat.le_of_not_lt hge) hlt))
  have hrejected := h.rejected
  rw [InBounds]
  rw [zoneIndices] at hinside
  cases hop : cmd.opcode with
  | write =>
      simp only [hop] at hinside ⊢
      refine ⟨hinside ⟨_, by simp, rfl⟩, fun hcross hplain => ?_⟩
      by_contra hlong
      have houtside : ∃ lba, AddressedLba cmd lba ∧ dev.space ≤ lba := by
        refine ⟨cmd.slba + cmd.nrLba - 1, ?_, by omega⟩
        rw [AddressedLba]
        simp only [hop]
        have hpos := (ZnsCommand.nrLba_bounds cmd).1
        omega
      have hnever := hrejected houtside
      rw [znsProcNvmeIoCmd] at hnever
      simp only [hop] at hnever
      rw [znsWrite, lpnToZone_lbaToLpn, if_neg (by simp [hplain]),
        znsWritePlain_too_long hlong] at hnever
      exact hnever
  | zoneAppend =>
      simp only [hop] at hinside ⊢
      exact hinside ⟨_, by simp, rfl⟩
  | read =>
      simp only [hop] at hinside ⊢
      exact hinside ⟨_, List.mem_singleton.2 rfl, lpnToZone_lbaToLpn dev cmd.slba⟩
  | zoneMgmtSend =>
      simp only [hop] at hinside ⊢
      cases hall : cmd.selectAll with
      | true => exact .inl rfl
      | false => exact .inr (hinside ⟨_, by simp [sendTargets, hall], rfl⟩)
  | zoneMgmtRecv =>
      simp only
      by_contra hno
      simp only [not_or, not_not, Nat.not_lt] at hno
      obtain ⟨hge, hzone, hzra, hfield⟩ := hno
      exact hzone (le_lbaToZone hge hlt)
  | flush => trivial
  | other code => trivial

/-- The zone array of a namespace of two zones of 16 blocks. -/
def twoZoneArray : ZoneGeometry where
  spp := twoZones.spp
  zpp := twoZones.zpp
  secsz_eq := twoZones.secsz_eq
  secsPerPg_eq := twoZones.secsPerPg_eq
  pgsz_eq := twoZones.pgsz_eq
  zoneSize_pos := by decide
  zoneSize_aligned := rfl
  zoneSize_lt := by decide
  nrZones_lt := by decide

end Bounds

end NvmeVirt.ZoneArray
