import NvmeVirt.PrpAddressing
import NvmeVirt.ZoneArray

namespace NvmeVirt.ZoneReport

open ByteMemory
open DmaTransfer
open FaultOutcome
open HostBuffer
open PrpAddressing
open PrpTransfer
open WriteBuffer
open ZonedFtl
open ZonedRuns (command)
open ZoneArray

section Encoding

/-- The bytes of a little-endian `__u64`. -/
def writeU64 (n : Nat) : List UInt8 :=
  (List.range 8).map fun i => UInt8.ofNat (n / 256 ^ i)

/-- `enum zone_state`. -/
def stateCode : ZoneState → UInt8
  | .empty => 0x1
  | .openedImpl => 0x2
  | .openedExpl => 0x3
  | .closed => 0x4
  | .readOnly => 0xD
  | .full => 0xE
  | .offline => 0xF

/-- The 64 bytes of a `struct zone_descriptor`. Its type is always
`ZONE_TYPE_SEQ_WRITE_REQUIRED`; the state is the upper half of its byte. -/
def encodeDescriptor (desc : ZoneDescriptor) : List UInt8 :=
  let flags : List UInt8 :=
    [0x2, stateCode desc.state <<< 4, if desc.zrwav then 0x8 else 0, 0, 0, 0, 0, 0]
  flags ++ writeU64 desc.zoneCapacity ++ writeU64 desc.zslba ++ writeU64 desc.wp ++
    List.replicate 32 0

/-- `sizeof(struct zone_descriptor)`. -/
def descriptorSize : Nat := 64

/-- `sizeof(struct zone_report)`, which includes one descriptor. -/
def zoneReportSize : Nat := 128

/-- The offset of `zd` in `struct zone_report`. -/
def zdOffset : Nat := 64

/-- The array `zone_descs`. -/
def descriptorBytes (ftl : ZnsFtl) : Memory := fun a =>
  (encodeDescriptor (ftl.zoneDescs (a / descriptorSize))).getD (a % descriptorSize) 0

theorem length_writeU64 (n : Nat) : (writeU64 n).length = 8 := rfl

theorem length_encodeDescriptor (desc : ZoneDescriptor) :
    (encodeDescriptor desc).length = descriptorSize := rfl

theorem foldr_digits (count n : Nat) :
    ((List.range count).map fun i => UInt8.ofNat (n / 256 ^ i)).foldr
      (fun byte rest => byte.toNat + 256 * rest) 0 = n % 256 ^ count := by
  induction count generalizing n with
  | zero => rw [Nat.pow_zero, Nat.mod_one]; rfl
  | succ count ih =>
      have hrest : (fun i => UInt8.ofNat (n / 256 ^ i)) ∘ Nat.succ =
          fun i => UInt8.ofNat (n / 256 / 256 ^ i) := by
        funext i
        rw [Function.comp_apply, Nat.pow_succ', Nat.div_div_eq_div_mul]
      have hlow : (UInt8.ofNat (n / 256 ^ 0)).toNat = n % 256 := by
        rw [Nat.pow_zero, Nat.div_one]
        rfl
      rw [List.range_succ_eq_map, List.map_cons, List.foldr_cons, List.map_map, hrest, ih, hlow,
        Nat.pow_succ']
      exact (Nat.mod_mul).symm

theorem readU64_overwrite {mem : Memory} {a n : Nat} (hn : n < 2 ^ 64) :
    readU64 (overwrite mem a (writeU64 n)) a = n := by
  have hslice : slice (overwrite mem a (writeU64 n)) a 8 = writeU64 n := slice_overwrite_self
  rw [readU64, hslice, writeU64, foldr_digits]
  exact Nat.mod_eq_of_lt hn

theorem slice_descriptorBytes (ftl : ZnsFtl) (z : Nat) :
    slice (descriptorBytes ftl) (z * descriptorSize) descriptorSize =
      encodeDescriptor (ftl.zoneDescs z) := by
  refine List.ext_getElem (by rw [length_slice, length_encodeDescriptor]) fun j hj hj' => ?_
  rw [length_slice] at hj
  have hdiv : (z * descriptorSize + j) / descriptorSize = z := by
    rw [Nat.div_eq_iff (by decide)]
    omega
  have hmod : (z * descriptorSize + j) % descriptorSize = j := by
    rw [Nat.mul_add_mod_self_right, Nat.mod_eq_of_lt hj]
  simp only [slice, List.getElem_map, List.getElem_range]
  rw [descriptorBytes, hdiv, hmod, List.getD_eq_getElem _ _ hj']

end Encoding

section Receive

/-- `struct nvme_zone_mgmt_recv`. -/
structure ZoneMgmtRecv extends ZnsCommand where
  nrDw : Nat
  zraSpecificFeatures : Nat

variable (spp : FlashGeometry.SsdParams) (zpp : ZnsParams)

/-- The bytes allocated for `report_buffer`. -/
def reportBufferSize : Nat := zoneReportSize + descriptorSize * zpp.nrZones

/-- The length of the transfer; `nr_dw + 1` is computed in 32 bits. -/
def transferLength (cmd : ZoneMgmtRecv) : Nat := (cmd.nrDw + 1) % 2 ^ 32 * 4

/-- `__fill_zone_report`; `report` is the memory from the report buffer on. -/
def fillZoneReport (ftl : ZnsFtl) (cmd : ZoneMgmtRecv) (report : Memory) : Memory :=
  let startZid := lbaToZone spp zpp cmd.slba
  let nr := nrZoneToReport zpp startZid cmd.nrDw cmd.zraSpecificFeatures
  memcpy (overwrite report 0 (writeU64 nr)) zdOffset (descriptorBytes ftl)
    (startZid * descriptorSize) (nr * descriptorSize)

/-- `zns_zmgmt_recv`: the status, the memory of the host and the report.
`__prp_transfer_data` is the loop of `__do_perform_io` for valid page frames. -/
def znsZmgmtRecv (ftl : ZnsFtl) (cmd : ZoneMgmtRecv) (report host : Memory) :
    Except Fault (Status × Memory × Memory) :=
  if checkZmgmtRcvOptionSupported spp zpp cmd.toZnsCommand then do
    let (host, report) ← performIo (fun _ => true) ⟨cmd.prp1, cmd.prp2⟩ .toHost host
      (fillZoneReport spp zpp ftl cmd report) 0 (transferLength cmd)
    return (.success, host, report)
  else return (.invalidField, host, report)

end Receive

section Sources

variable (dptr : DataPtr)

/-- The offsets of the bytes that the rounds of a transfer to the host read, up to
its end or to a fault. -/
def readLoop : Nat → Transfer → List Nat
  | 0, _ => []
  | fuel + 1, t =>
      if t.remaining = 0 then []
      else
        match nextPaddr (fun _ => true) dptr t.host t.remaining t.cursor with
        | .error _ => []
        | .ok (paddr, cursor) =>
            List.range' t.offset (ioSize paddr t.remaining) ++
              readLoop fuel (movePiece .toHost t
                (dataAddr (fun _ => true) paddr (paddr % pageSize)) (ioSize paddr t.remaining)
                cursor)

/-- The offsets from which the transfer of `length` bytes reads. -/
def bytesRead (host device : Memory) (length : Nat) : List Nat :=
  readLoop dptr length ⟨host, device, 0, length, .start⟩

variable {dptr : DataPtr} {fuel : Nat} {t t' : Transfer}

theorem transferLoop_succ (hmore : t.remaining ≠ 0) {paddr : Nat} {cursor : PrpCursor}
    (hnext : nextPaddr (fun _ => true) dptr t.host t.remaining t.cursor = .ok (paddr, cursor)) :
    transferLoop (fun _ => true) dptr .toHost (fuel + 1) t =
      transferLoop (fun _ => true) dptr .toHost fuel (movePiece .toHost t
        (dataAddr (fun _ => true) paddr (paddr % pageSize)) (ioSize paddr t.remaining)
        cursor) := by
  rw [transferLoop, if_neg hmore, hnext]
  rfl

theorem readLoop_eq_range' :
    ∃ m ≤ t.remaining, readLoop dptr fuel t = List.range' t.offset m := by
  induction fuel generalizing t with
  | zero => exact ⟨0, Nat.zero_le _, rfl⟩
  | succ fuel ih =>
      rw [readLoop]
      split
      · exact ⟨0, Nat.zero_le _, rfl⟩
      · cases nextPaddr (fun _ => true) dptr t.host t.remaining t.cursor with
        | error e => exact ⟨0, Nat.zero_le _, rfl⟩
        | ok found =>
            obtain ⟨paddr, cursor⟩ := found
            have hle := ioSize_le paddr t.remaining
            obtain ⟨m, hm, hread⟩ := ih (t := movePiece .toHost t
              (dataAddr (fun _ => true) paddr (paddr % pageSize)) (ioSize paddr t.remaining)
              cursor)
            change m ≤ t.remaining - ioSize paddr t.remaining at hm
            refine ⟨ioSize paddr t.remaining + m, by omega, ?_⟩
            dsimp only
            rw [hread]
            exact List.range'_append_1 ..

theorem readLoop_of_ok
    (hrun : transferLoop (fun _ => true) dptr .toHost fuel t = .ok t') :
    readLoop dptr fuel t = List.range' t.offset t.remaining := by
  induction fuel generalizing t with
  | zero =>
      rw [transferLoop] at hrun
      split at hrun
      · next hzero => rw [readLoop, hzero, List.range'_zero]
      · cases hrun
  | succ fuel ih =>
      by_cases hmore : t.remaining = 0
      · rw [readLoop, if_pos hmore, hmore, List.range'_zero]
      · cases hnext : nextPaddr (fun _ => true) dptr t.host t.remaining t.cursor with
        | error e =>
            rw [transferLoop, if_neg hmore, hnext] at hrun
            cases hrun
        | ok found =>
            obtain ⟨paddr, cursor⟩ := found
            have hle := ioSize_le paddr t.remaining
            rw [transferLoop_succ hmore hnext] at hrun
            rw [readLoop, if_neg hmore, hnext]
            dsimp only
            rw [ih hrun]
            change List.range' t.offset _ ++ List.range' (t.offset + _) (t.remaining - _) = _
            rw [List.range'_append_1, Nat.add_sub_cancel' hle]

theorem transferLoop_congr {device' : Memory}
    (hrun : transferLoop (fun _ => true) dptr .toHost fuel t = .ok t')
    (hsame : ∀ i ∈ readLoop dptr fuel t, device' i = t.device i) :
    ∃ t'', transferLoop (fun _ => true) dptr .toHost fuel { t with device := device' } = .ok t'' ∧
      t''.host = t'.host := by
  induction fuel generalizing t with
  | zero =>
      rw [transferLoop] at hrun
      split at hrun
      · next hzero =>
        cases hrun
        exact ⟨_, if_pos hzero, rfl⟩
      · cases hrun
  | succ fuel ih =>
      by_cases hmore : t.remaining = 0
      · rw [transferLoop, if_pos hmore] at hrun
        cases hrun
        exact ⟨_, if_pos hmore, rfl⟩
      · cases hnext : nextPaddr (fun _ => true) dptr t.host t.remaining t.cursor with
        | error e =>
            rw [transferLoop, if_neg hmore, hnext] at hrun
            cases hrun
        | ok found =>
            obtain ⟨paddr, cursor⟩ := found
            rw [transferLoop_succ hmore hnext] at hrun
            rw [readLoop, if_neg hmore, hnext] at hsame
            obtain ⟨t'', hrest, hhost⟩ := ih hrun fun i hi =>
              hsame i (List.mem_append_right _ hi)
            refine ⟨t'', ?_, hhost⟩
            rw [transferLoop_succ (t := { t with device := device' }) hmore hnext, ← hrest]
            congr 1
            rw [movePiece, movePiece]
            dsimp only
            congr 1
            rw [if_pos rfl, if_pos rfl, memcpy_eq_overwrite, memcpy_eq_overwrite]
            congr 1
            refine slice_congr fun i hi => hsame _ (List.mem_append_left _ ?_)
            exact List.mem_range'_1.2 ⟨Nat.le_add_right _ _, Nat.add_lt_add_left hi _⟩

theorem transferLoop_done (hdone : t.remaining = 0) :
    transferLoop (fun _ => true) dptr .toHost fuel t = .ok t := by
  cases fuel with
  | zero => rw [transferLoop, if_pos hdone]
  | succ fuel => rw [transferLoop, if_pos hdone]

theorem transferLoop_list {list : Nat} (hround : 2 ≤ t.cursor.prpOffs)
    (hlist : t.cursor.paddrList = some list) (hfuel : t.remaining ≤ fuel) :
    ∃ t', transferLoop (fun _ => true) dptr .toHost fuel t = .ok t' := by
  induction fuel generalizing t with
  | zero => exact ⟨t, transferLoop_done (Nat.le_zero.1 hfuel)⟩
  | succ fuel ih =>
      by_cases hmore : t.remaining = 0
      · exact ⟨t, transferLoop_done hmore⟩
      · have hnext : nextPaddr (fun _ => true) dptr t.host t.remaining t.cursor =
            .ok (readU64 t.host (list + 8 * t.cursor.prp2Offs),
              ⟨t.cursor.prpOffs + 1, t.cursor.prp2Offs + 1, some list⟩) := by
          rw [nextPaddr_later hround, hlist]
        have hpos := ioSize_pos (readU64 t.host (list + 8 * t.cursor.prp2Offs)) hmore
        rw [transferLoop_succ hmore hnext]
        refine ih (Nat.le_succ_of_le hround) rfl ?_
        rw [movePiece]
        dsimp only
        omega

/-- Without an offset in `prp2`, the third round has a list or nothing to do. -/
theorem transferLoop_ok (hprp : dptr.prp2 % pageSize = 0) (host device : Memory)
    (length : Nat) :
    ∃ t', transferLoop (fun _ => true) dptr .toHost length
      ⟨host, device, 0, length, .start⟩ = .ok t' := by
  rcases length with _ | fuel
  · exact ⟨_, transferLoop_done rfl⟩
  have hfirst : 0 < ioSize dptr.prp1 (fuel + 1) := ioSize_pos dptr.prp1 (Nat.succ_ne_zero fuel)
  rw [transferLoop_succ (Nat.succ_ne_zero fuel) (nextPaddr_first rfl)]
  obtain ⟨t, ht⟩ : ∃ t, t = movePiece .toHost ⟨host, device, 0, fuel + 1, .start⟩
      (dataAddr (fun _ => true) dptr.prp1 (dptr.prp1 % pageSize)) (ioSize dptr.prp1 (fuel + 1))
      ⟨1, 0, none⟩ := ⟨_, rfl⟩
  have hcursor : t.cursor = ⟨1, 0, none⟩ := by rw [ht, movePiece]
  have hleft : t.remaining ≤ fuel := by
    rw [ht, movePiece]
    dsimp only
    omega
  change ∃ t', transferLoop (fun _ => true) dptr .toHost fuel (movePiece .toHost
    ⟨host, device, 0, fuel + 1, .start⟩ _ _ ⟨1, 0, none⟩) = .ok t'
  rw [← ht]
  by_cases hmore : t.remaining = 0
  · exact ⟨t, transferLoop_done hmore⟩
  obtain ⟨fuel, rfl⟩ := Nat.exists_eq_succ_of_ne_zero (show fuel ≠ 0 by omega)
  have hsecond : nextPaddr (fun _ => true) dptr t.host t.remaining t.cursor = _ :=
    nextPaddr_second (show t.cursor.prpOffs = 1 by rw [hcursor])
  by_cases hlong : pageSize < t.remaining
  · rw [if_pos hlong] at hsecond
    rw [transferLoop_succ hmore hsecond]
    refine transferLoop_list (Nat.le_refl 2) rfl ?_
    have hpos := ioSize_pos (readU64 t.host (listAddr (fun _ => true) dptr.prp2)) hmore
    rw [movePiece]
    dsimp only
    omega
  · rw [if_neg hlong] at hsecond
    rw [transferLoop_succ hmore hsecond]
    refine ⟨_, transferLoop_done ?_⟩
    rw [movePiece, ioSize_eq, hprp]
    dsimp only
    omega

theorem lt_of_mem_bytesRead {host device : Memory} {length i : Nat}
    (hi : i ∈ bytesRead dptr host device length) : i < length := by
  obtain ⟨m, hm, hread⟩ : ∃ m ≤ length, bytesRead dptr host device length = List.range' 0 m :=
    readLoop_eq_range' (t := ⟨host, device, 0, length, .start⟩)
  rw [hread, List.mem_range'_1] at hi
  omega

theorem mem_bytesRead_of_ok {host device : Memory} {length i : Nat} {answer : Memory × Memory}
    (hrun : performIo (fun _ => true) dptr .toHost host device 0 length = .ok answer)
    (hi : i < length) : i ∈ bytesRead dptr host device length := by
  obtain ⟨t, ht, -⟩ := exists_of_bind_eq_ok hrun
  have hread : bytesRead dptr host device length = List.range' 0 length := readLoop_of_ok ht
  rw [hread, List.mem_range'_1]
  omega

theorem performIo_ok (hprp : dptr.prp2 % pageSize = 0) (host device : Memory) (length : Nat) :
    ∃ answer, performIo (fun _ => true) dptr .toHost host device 0 length = .ok answer := by
  obtain ⟨t, ht⟩ := transferLoop_ok hprp host device length
  refine ⟨(t.host, t.device), ?_⟩
  rw [performIo, ht]
  rfl

theorem performIo_congr {host device device' : Memory} {length : Nat}
    {answer : Memory × Memory}
    (hrun : performIo (fun _ => true) dptr .toHost host device 0 length = .ok answer)
    (hsame : ∀ i ∈ bytesRead dptr host device length, device' i = device i) :
    ∃ answer', performIo (fun _ => true) dptr .toHost host device' 0 length = .ok answer' ∧
      answer'.1 = answer.1 := by
  obtain ⟨t, ht, hanswer⟩ := exists_of_bind_eq_ok hrun
  cases hanswer
  obtain ⟨t', ht', hhost⟩ := transferLoop_congr ht hsame
  refine ⟨(t'.host, t'.device), ?_, hhost⟩
  rw [performIo, ht']
  rfl

end Sources

section Reports

/-- `report->nr_zones`. -/
def reportedZones (report : Memory) : Nat := readU64 report 0

variable {dev : ZoneGeometry} {ftl : ZnsFtl} {cmd : ZoneMgmtRecv} {report host : Memory}

/-- A command is answered from the report buffer only, which holds the descriptors
of the zones in order; and what a partial report counts is sent. -/
structure Honest (dev : ZoneGeometry) (ftl : ZnsFtl) (cmd : ZoneMgmtRecv)
    (report host : Memory) : Prop where
  bounded : ∀ i ∈ bytesRead ⟨cmd.prp1, cmd.prp2⟩ host
      (fillZoneReport dev.spp dev.zpp ftl cmd report) (transferLength cmd),
    i < reportBufferSize dev.zpp
  filled : ∀ i, reportBufferSize dev.zpp ≤ i →
    fillZoneReport dev.spp dev.zpp ftl cmd report i = report i
  ordered : ∀ i < reportedZones (fillZoneReport dev.spp dev.zpp ftl cmd report),
    lbaToZone dev.spp dev.zpp cmd.slba + i < dev.zpp.nrZones ∧
      slice (fillZoneReport dev.spp dev.zpp ftl cmd report) (zdOffset + i * descriptorSize)
          descriptorSize =
        encodeDescriptor (ftl.zoneDescs (lbaToZone dev.spp dev.zpp cmd.slba + i))
  counted : cmd.zraSpecificFeatures ≠ 0 →
    ∀ answer, znsZmgmtRecv dev.spp dev.zpp ftl cmd report host = .ok answer →
    ∀ i < reportedZones (fillZoneReport dev.spp dev.zpp ftl cmd report),
    ∀ j < descriptorSize, zdOffset + i * descriptorSize + j ∈
      bytesRead ⟨cmd.prp1, cmd.prp2⟩ host (fillZoneReport dev.spp dev.zpp ftl cmd report)
        (transferLength cmd)

/-- The host asks for no more than the report buffer has, and for a partial report
at least for its header. -/
def ReportCondition (dev : ZoneGeometry) (cmd : ZoneMgmtRecv) : Prop :=
  transferLength cmd ≤ reportBufferSize dev.zpp ∧
    (cmd.zraSpecificFeatures ≠ 0 → zdOffset ≤ transferLength cmd)

instance (dev : ZoneGeometry) (cmd : ZoneMgmtRecv) : Decidable (ReportCondition dev cmd) :=
  inferInstanceAs (Decidable (_ ∧ _))

theorem start_lt_of_accepted
    (haccepted : checkZmgmtRcvOptionSupported dev.spp dev.zpp cmd.toZnsCommand = true) :
    lbaToZone dev.spp dev.zpp cmd.slba < dev.zpp.nrZones := by
  simp only [checkZmgmtRcvOptionSupported, Bool.and_eq_true, decide_eq_true_eq] at haccepted
  exact haccepted.1.1

theorem reportedZones_fill (dev : ZoneGeometry) (ftl : ZnsFtl) (cmd : ZoneMgmtRecv)
    (report : Memory) :
    reportedZones (fillZoneReport dev.spp dev.zpp ftl cmd report) =
      nrZoneToReport dev.zpp (lbaToZone dev.spp dev.zpp cmd.slba) cmd.nrDw
        cmd.zraSpecificFeatures := by
  have hnr := nrZoneToReport_le dev.zpp (lbaToZone dev.spp dev.zpp cmd.slba) cmd.nrDw
    cmd.zraSpecificFeatures
  have hzones := dev.nrZones_lt
  have hheader : ∀ i < 8, fillZoneReport dev.spp dev.zpp ftl cmd report (0 + i) =
      overwrite report 0 (writeU64 (nrZoneToReport dev.zpp (lbaToZone dev.spp dev.zpp cmd.slba)
        cmd.nrDw cmd.zraSpecificFeatures)) (0 + i) := by
    intro i hi
    refine memcpy_of_notMem fun hmem => ?_
    rw [List.mem_range'_1, zdOffset] at hmem
    omega
  rw [reportedZones, readU64, slice_congr hheader]
  exact readU64_overwrite (by omega)

theorem slice_fillZoneReport (dev : ZoneGeometry) (ftl : ZnsFtl) (cmd : ZoneMgmtRecv)
    (report : Memory) {i : Nat}
    (hi : i < nrZoneToReport dev.zpp (lbaToZone dev.spp dev.zpp cmd.slba) cmd.nrDw
      cmd.zraSpecificFeatures) :
    slice (fillZoneReport dev.spp dev.zpp ftl cmd report) (zdOffset + i * descriptorSize)
        descriptorSize =
      encodeDescriptor (ftl.zoneDescs (lbaToZone dev.spp dev.zpp cmd.slba + i)) := by
  rw [← slice_descriptorBytes]
  refine slice_congr fun j hj => ?_
  have hin : i * descriptorSize + j < nrZoneToReport dev.zpp
      (lbaToZone dev.spp dev.zpp cmd.slba) cmd.nrDw cmd.zraSpecificFeatures * descriptorSize := by
    rw [descriptorSize] at hj ⊢
    omega
  rw [fillZoneReport, memcpy, if_pos (by omega)]
  congr 1
  rw [Nat.add_mul]
  omega

theorem nrZoneToReport_fits (dev : ZoneGeometry) (hcounts : cmd.zraSpecificFeatures ≠ 0)
    (hheader : zdOffset ≤ transferLength cmd) :
    zdOffset + nrZoneToReport dev.zpp (lbaToZone dev.spp dev.zpp cmd.slba) cmd.nrDw
      cmd.zraSpecificFeatures * descriptorSize ≤ transferLength cmd := by
  rw [zdOffset, transferLength] at hheader
  rw [nrZoneToReport, if_neg hcounts, if_neg (by omega), zdOffset, descriptorSize,
    transferLength]
  omega

theorem nrZoneToReport_short (hcounts : cmd.zraSpecificFeatures ≠ 0)
    (hshort : transferLength cmd < zdOffset) :
    nrZoneToReport dev.zpp (lbaToZone dev.spp dev.zpp cmd.slba) cmd.nrDw
      cmd.zraSpecificFeatures = dev.zpp.nrZones - lbaToZone dev.spp dev.zpp cmd.slba := by
  have hzones := dev.nrZones_lt
  rw [zdOffset, transferLength] at hshort
  rw [nrZoneToReport, if_neg hcounts, if_pos (by omega)]
  omega

theorem honest_of_condition
    (haccepted : checkZmgmtRcvOptionSupported dev.spp dev.zpp cmd.toZnsCommand = true)
    (hcondition : ReportCondition dev cmd) : Honest dev ftl cmd report host := by
  have hstart := start_lt_of_accepted haccepted
  have hzones := reportedZones_fill dev ftl cmd report
  have hnr := nrZoneToReport_le dev.zpp (lbaToZone dev.spp dev.zpp cmd.slba) cmd.nrDw
    cmd.zraSpecificFeatures
  have hparts : reportBufferSize dev.zpp = zdOffset + descriptorSize +
      descriptorSize * dev.zpp.nrZones := rfl
  obtain ⟨hlength, hheader⟩ := hcondition
  refine ⟨fun i hi => ?_, fun i hi => ?_, fun i hi => ?_, ?_⟩
  · exact Nat.lt_of_lt_of_le (lt_of_mem_bytesRead hi) hlength
  · rw [hparts] at hi
    have hdescs : nrZoneToReport dev.zpp (lbaToZone dev.spp dev.zpp cmd.slba) cmd.nrDw
        cmd.zraSpecificFeatures * descriptorSize ≤ descriptorSize * dev.zpp.nrZones := by
      rw [Nat.mul_comm descriptorSize]
      exact Nat.mul_le_mul_right _ (Nat.le_trans hnr (Nat.sub_le _ _))
    have hbehind : i ∉ List.range' zdOffset (nrZoneToReport dev.zpp
        (lbaToZone dev.spp dev.zpp cmd.slba) cmd.nrDw cmd.zraSpecificFeatures *
          descriptorSize) := by
      rw [List.mem_range'_1]
      omega
    rw [fillZoneReport, memcpy_of_notMem hbehind, overwrite_of_ge]
    rw [length_writeU64]
    exact Nat.le_trans (by decide) (Nat.le_trans (Nat.le_add_right _ _) hi)
  · rw [hzones] at hi
    exact ⟨by omega, slice_fillZoneReport dev ftl cmd report hi⟩
  · intro hcounts answer hrun i hi j hj
    rw [znsZmgmtRecv, if_pos haccepted] at hrun
    obtain ⟨transferred, htransfer, -⟩ := exists_of_bind_eq_ok hrun
    refine mem_bytesRead_of_ok htransfer (Nat.lt_of_lt_of_le ?_
      (nrZoneToReport_fits dev hcounts (hheader hcounts)))
    rw [hzones] at hi
    rw [descriptorSize] at hj ⊢
    omega

theorem condition_of_honest
    (haccepted : checkZmgmtRcvOptionSupported dev.spp dev.zpp cmd.toZnsCommand = true)
    (hprp : cmd.prp2 % pageSize = 0) (hhonest : Honest dev ftl cmd report host) :
    ReportCondition dev cmd := by
  have hstart := start_lt_of_accepted haccepted
  have hzones := reportedZones_fill dev ftl cmd report
  obtain ⟨answer, htransfer⟩ : ∃ answer, performIo (fun _ => true) ⟨cmd.prp1, cmd.prp2⟩
      .toHost host (fillZoneReport dev.spp dev.zpp ftl cmd report) 0 (transferLength cmd) =
        .ok answer := performIo_ok hprp host _ _
  refine ⟨Nat.le_of_not_lt fun hlong => ?_, fun hcounts => Nat.le_of_not_lt fun hshort => ?_⟩
  · exact Nat.lt_irrefl _ (hhonest.bounded _ (mem_bytesRead_of_ok htransfer hlong))
  · have hrun : znsZmgmtRecv dev.spp dev.zpp ftl cmd report host =
        .ok (.success, answer.1, answer.2) := by
      rw [znsZmgmtRecv, if_pos haccepted, htransfer]
      rfl
    have hcounted := hhonest.counted hcounts _ hrun 0
      (by rw [hzones, nrZoneToReport_short hcounts hshort]; omega) 0 (by decide)
    have hsent := lt_of_mem_bytesRead hcounted
    omega

theorem znsZmgmtRecv_sends {addrs cells : List Nat}
    (haccepted : checkZmgmtRcvOptionSupported dev.spp dev.zpp cmd.toZnsCommand = true)
    (hbuffer : hostBuffer (fun _ => true) ⟨cmd.prp1, cmd.prp2⟩ host (transferLength cmd) =
      .ok (addrs, cells)) (hseparate : Separate addrs cells) :
    ∃ host', znsZmgmtRecv dev.spp dev.zpp ftl cmd report host =
        .ok (.success, host', fillZoneReport dev.spp dev.zpp ftl cmd report) ∧
      addrs.map host' =
        slice (fillZoneReport dev.spp dev.zpp ftl cmd report) 0 (transferLength cmd) := by
  obtain ⟨host', hrun, hsent, -⟩ := performIo_toHost
    (fillZoneReport dev.spp dev.zpp ftl cmd report) 0 hbuffer hseparate
  refine ⟨host', ?_, hsent⟩
  rw [znsZmgmtRecv, if_pos haccepted, hrun]
  rfl

theorem sends_only_buffer {report' : Memory} {answer : Status × Memory × Memory}
    (hlength : transferLength cmd ≤ reportBufferSize dev.zpp)
    (hsame : ∀ i < reportBufferSize dev.zpp, report' i = report i)
    (hrun : znsZmgmtRecv dev.spp dev.zpp ftl cmd report host = .ok answer) :
    ∃ answer', znsZmgmtRecv dev.spp dev.zpp ftl cmd report' host = .ok answer' ∧
      answer'.1 = answer.1 ∧ answer'.2.1 = answer.2.1 := by
  rw [znsZmgmtRecv] at hrun ⊢
  split at hrun
  · next haccepted =>
    rw [if_pos haccepted]
    obtain ⟨transferred, htransfer, hanswer⟩ := exists_of_bind_eq_ok hrun
    cases hanswer
    have hread : ∀ i ∈ bytesRead ⟨cmd.prp1, cmd.prp2⟩ host
        (fillZoneReport dev.spp dev.zpp ftl cmd report) (transferLength cmd),
        fillZoneReport dev.spp dev.zpp ftl cmd report' i =
          fillZoneReport dev.spp dev.zpp ftl cmd report i := by
      intro i hi
      have hin := Nat.lt_of_lt_of_le (lt_of_mem_bytesRead hi) hlength
      rw [fillZoneReport, fillZoneReport, memcpy, memcpy, overwrite, overwrite, hsame i hin]
    obtain ⟨transferred', htransfer', hhost⟩ := performIo_congr htransfer hread
    rw [htransfer']
    exact ⟨_, rfl, rfl, hhost⟩
  · next hrejected =>
    rw [if_neg hrejected]
    cases hrun
    exact ⟨_, rfl, rfl, rfl⟩

/-- A command is honest exactly when it asks for the header at least and for the
report buffer at most; a host whose second data pointer has an offset may stop the
transfer before it gets there. -/
theorem zone_report_honest_iff
    (haccepted : checkZmgmtRcvOptionSupported dev.spp dev.zpp cmd.toZnsCommand = true)
    (ftl : ZnsFtl) (report host : Memory) :
    (ReportCondition dev cmd → Honest dev ftl cmd report host) ∧
      (cmd.prp2 % pageSize = 0 → Honest dev ftl cmd report host → ReportCondition dev cmd) :=
  ⟨honest_of_condition haccepted, condition_of_honest haccepted⟩

def reportCommand (slba nrDw zraSpecificFeatures : Nat) : ZoneMgmtRecv where
  toZnsCommand := command .zoneMgmtRecv slba 0 (.other 0)
  nrDw := nrDw
  zraSpecificFeatures := zraSpecificFeatures

theorem zone_report_honest_one :
    Honest twoZoneArray (znsInitFtl twoZoneArray.spp twoZoneArray.zpp fun _ => 0)
      (reportCommand 16 31 1) (fun _ => 0) fun _ => 0 :=
  (zone_report_honest_iff (by decide) _ _ _).1 (by decide)

/-- A report of 4096 bytes is read from a buffer of 256, and a partial report of
one word counts both zones. -/
theorem report_reads_behind_buffer :
    checkZmgmtRcvOptionSupported twoZoneArray.spp twoZoneArray.zpp
        (reportCommand 0 1023 0).toZnsCommand = true ∧
      reportBufferSize twoZoneArray.zpp = 256 ∧
      (∀ ftl report host, 256 ∈ bytesRead ⟨0, 0⟩ host
        (fillZoneReport twoZoneArray.spp twoZoneArray.zpp ftl (reportCommand 0 1023 0) report)
        (transferLength (reportCommand 0 1023 0))) ∧
      (∀ ftl report host, ¬Honest twoZoneArray ftl (reportCommand 0 1023 0) report host) ∧
      checkZmgmtRcvOptionSupported twoZoneArray.spp twoZoneArray.zpp
        (reportCommand 0 0 1).toZnsCommand = true ∧
      transferLength (reportCommand 0 0 1) = 4 ∧
      (∀ ftl report, reportedZones (fillZoneReport twoZoneArray.spp twoZoneArray.zpp ftl
        (reportCommand 0 0 1) report) = 2) ∧
      ∀ ftl report host, ¬Honest twoZoneArray ftl (reportCommand 0 0 1) report host := by
  refine ⟨by decide, by decide, fun ftl report host => ?_, fun ftl report host hhonest => ?_,
    by decide, by decide, fun ftl report => ?_, fun ftl report host hhonest => ?_⟩
  · obtain ⟨answer, hrun⟩ : ∃ answer, performIo (fun _ => true) ⟨0, 0⟩ .toHost host
        (fillZoneReport twoZoneArray.spp twoZoneArray.zpp ftl (reportCommand 0 1023 0) report) 0
        (transferLength (reportCommand 0 1023 0)) = .ok answer := performIo_ok rfl _ _ _
    exact mem_bytesRead_of_ok hrun (by decide)
  · exact absurd (condition_of_honest (by decide) rfl hhonest) (by decide)
  · rw [reportedZones_fill]
    decide
  · exact absurd (condition_of_honest (by decide) rfl hhonest) (by decide)

end Reports

end NvmeVirt.ZoneReport
