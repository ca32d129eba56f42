import NvmeVirt.IoWorkers
import NvmeVirt.ZonedAccounting

namespace NvmeVirt.ZonedRuns

open FaultOutcome
open FlashGeometry
open IoWorkers
open RangeTiling
open StatusCounts
open WriteBuffer
open ZonedAccounting
open ZonedFtl

variable {dev : ZonedDevice} {ftl ftl' : ZnsFtl} {zid : Nat} {effect : WpEffect}

section RandomWriteArea

theorem zrwaAllocate_same {zpp : ZnsParams} {size : Nat} {granted : Bool}
    (hrun : zrwaAllocate zpp ftl zid size = .ok (granted, ftl')) : Same ftl ftl' := by
  rw [zrwaAllocate] at hrun
  split at hrun
  · cases hrun
  · obtain ⟨⟨size, buf⟩, -, hrun⟩ := exists_of_bind_eq_ok hrun
    cases hrun
    exact ⟨rfl, rfl⟩

/-- The ways the `switch` of `__zns_write_zrwa` goes on. -/
inductive ZrwaOpens (zpp : ZnsParams) (ftl : ZnsFtl) (zid : Nat) : Status → ZnsFtl → Prop
  | already (hopened : opened (ftl.zoneDescs zid).state = true) :
      ZrwaOpens zpp ftl zid .success ftl
  | refused {status : Status} (hstatus : status ≠ .success) : ZrwaOpens zpp ftl zid status ftl
  | opens {base : ZnsFtl}
      (hstate : (ftl.zoneDescs zid).state = .closed ∨ (ftl.zoneDescs zid).state = .empty)
      (hlt : cnt ftl .openZone < total ftl .openZone)
      (hbase : zrwaAllocate zpp (acquired ftl .openZone) zid zpp.zrwaSize = .ok (true, base)) :
      ZrwaOpens zpp ftl zid .success (changeZoneState base zid .openedImpl)

theorem zrwaOpens_of_openForZrwaWrite {zpp : ZnsParams} {status : Status}
    (hrun : openForZrwaWrite zpp ftl zid = .ok (status, ftl')) :
    ZrwaOpens zpp ftl zid status ftl' := by
  have hopen : (ftl.zoneDescs zid).state = .closed ∨ (ftl.zoneDescs zid).state = .empty →
      ZrwaOpens zpp ftl zid status ftl' := by
    intro hstate
    have hcase := hstate
    by_cases hlt : cnt ftl .openZone < total ftl .openZone
    · rcases hcase with hcase | hcase
      all_goals
        simp only [openForZrwaWrite, hcase, acquire_of_lt hlt] at hrun
        obtain ⟨⟨granted, base⟩, hbase, hrun⟩ := exists_of_bind_eq_ok hrun
        obtain ⟨_, hassert, hrun⟩ := exists_of_bind_eq_ok hrun
        cases hrun
        cases granted with
        | true => exact .opens hstate hlt hbase
        | false => cases hassert
    · rcases hcase with hcase | hcase
      all_goals
        simp only [openForZrwaWrite, hcase, acquire_of_not_lt hlt] at hrun
        cases hrun
        exact .refused (by simp)
  cases hstate : (ftl.zoneDescs zid).state with
  | closed => exact hopen (.inl hstate)
  | empty => exact hopen (.inr hstate)
  | openedImpl | openedExpl =>
      simp only [openForZrwaWrite, hstate] at hrun
      cases hrun
      exact .already (by rw [hstate]; rfl)
  | full | readOnly | offline =>
      simp only [openForZrwaWrite, hstate] at hrun
      cases hrun
      exact .refused (by simp)

theorem openForZrwaWrite_move {status : Status} (h : Sound dev ftl zid)
    (hzrwa : (ftl.zoneDescs zid).zrwav = true)
    (hrun : openForZrwaWrite dev.zpp ftl zid = .ok (status, ftl')) :
    Move ftl ftl' zid .keep ∧ (ftl'.zoneDescs zid).zrwav = true ∧
      (status = .success → opened (ftl'.zoneDescs zid).state = true) := by
  cases zrwaOpens_of_openForZrwaWrite hrun with
  | already hopened => exact ⟨Same.move ⟨rfl, rfl⟩ h, hzrwa, fun _ => hopened⟩
  | refused hstatus =>
      exact ⟨Same.move ⟨rfl, rfl⟩ h, hzrwa, fun hsuccess => absurd hsuccess hstatus⟩
  | @opens base hstate hlt hbase =>
      have hclosed : (ftl.zoneDescs zid).state = .closed := by
        refine hstate.resolve_right fun hempty => ?_
        have hplain := h.empty_plain hempty
        simp [hzrwa] at hplain
      have hsame := zrwaAllocate_same hbase
      have hopened := (Activated.of_closed h hclosed).open h rfl .openedImpl rfl hlt
      have hchanged : Same (changeZoneState (acquired ftl .openZone) zid .openedImpl)
          (changeZoneState base zid .openedImpl) := by
        refine ⟨?_, hsame.resInfos⟩
        rw [zoneDescs_changeZoneState, zoneDescs_changeZoneState, hsame.zoneDescs]
      refine ⟨hopened.congr hchanged, ?_, fun _ => ?_⟩
      · simp [hsame.zoneDescs, hzrwa]
      · simp [opened]

theorem zrwav_increaseWritePtr (nrLba : Nat) :
    ((increaseWritePtr dev.spp dev.zpp ftl zid nrLba).zoneDescs zid).zrwav =
      (ftl.zoneDescs zid).zrwav := by
  rw [increaseWritePtr]
  dsimp only
  split
  · simp
  · simp

/-- The checks of `__zns_write_zrwa` before it opens the zone. -/
structure ZrwaChecked (spp : SsdParams) (zpp : ZnsParams) (ftl : ZnsFtl) (cmd : ZnsCommand) :
    Prop where
  aligned : lbaToByte cmd.nrLba % spp.writeUnitSize = 0
  boundary : checkBoundaryError spp zpp cmd.slba cmd.nrLba = true
  low : (ftl.zoneDescs (lbaToZone spp zpp cmd.slba)).wp ≤ cmd.slba
  high : lastLba cmd.slba cmd.nrLba ≤
    lastLba (ftl.zoneDescs (lbaToZone spp zpp cmd.slba)).wp (2 * zpp.lbasPerZrwa % 2 ^ 32)

/-- The LBAs that such a write pushes out of the random write area. -/
def flushedBy (spp : SsdParams) (zpp : ZnsParams) (ftl : ZnsFtl) (cmd : ZnsCommand) : Nat :=
  zrwaFlushCount spp zpp (lbaToZone spp zpp cmd.slba)
    (ftl.zoneDescs (lbaToZone spp zpp cmd.slba)).wp (lastLba cmd.slba cmd.nrLba)

/-- What a flush of `n` LBAs by a write leaves behind. -/
def flushed (spp : SsdParams) (zpp : ZnsParams) (ftl filled : ZnsFtl) (cmd : ZnsCommand)
    (n : Nat) : ZnsFtl :=
  (increaseWritePtr spp zpp filled (lbaToZone spp zpp cmd.slba) n).schedule
    ((zrwaReleases spp zpp (n / spp.secsPerPg)
      (lbaToLpn spp (ftl.zoneDescs (lbaToZone spp zpp cmd.slba)).wp) (n / spp.secsPerPg)).map
        fun bytes => (.zrwaBuffer (lbaToZone spp zpp cmd.slba), bytes))

/-- The ways `__zns_write_zrwa` ends. -/
inductive ZrwaWrites (spp : SsdParams) (zpp : ZnsParams) (ftl : ZnsFtl) (cmd : ZnsCommand) :
    Option Reply → ZnsFtl → Prop
  | rejected {status : Status} :
      ZrwaWrites spp zpp ftl cmd (some { status := status, result := 0 }) ftl
  | answered {status : Status} {base : ZnsFtl} (hchecked : ZrwaChecked spp zpp ftl cmd)
      (hopen : openForZrwaWrite zpp ftl (lbaToZone spp zpp cmd.slba) = .ok (status, base)) :
      ZrwaWrites spp zpp ftl cmd (some { status := status, result := 0 }) base
  | refused {base filled : ZnsFtl} (hchecked : ZrwaChecked spp zpp ftl cmd)
      (hopen : openForZrwaWrite zpp ftl (lbaToZone spp zpp cmd.slba) = .ok (.success, base))
      (hfilled : zrwaAllocate zpp base (lbaToZone spp zpp cmd.slba)
        (lbaToByte (flushedBy spp zpp ftl cmd)) = .ok (false, filled)) :
      ZrwaWrites spp zpp ftl cmd none filled
  | flushes {base filled : ZnsFtl} (hchecked : ZrwaChecked spp zpp ftl cmd)
      (hopen : openForZrwaWrite zpp ftl (lbaToZone spp zpp cmd.slba) = .ok (.success, base))
      (hfilled : zrwaAllocate zpp base (lbaToZone spp zpp cmd.slba)
        (lbaToByte (flushedBy spp zpp ftl cmd)) = .ok (true, filled)) :
      ZrwaWrites spp zpp ftl cmd (some { status := .success, result := 0 })
        (flushed spp zpp ftl filled cmd (flushedBy spp zpp ftl cmd))

theorem zrwaWrites_of_znsWriteZrwa {spp : SsdParams} {zpp : ZnsParams} {cmd cmd' : ZnsCommand}
    {reply : Option Reply} (hrun : znsWriteZrwa spp zpp ftl cmd = .ok (reply, cmd', ftl')) :
    cmd' = cmd ∧ ZrwaWrites spp zpp ftl cmd reply ftl' := by
  rw [znsWriteZrwa] at hrun
  dsimp only at hrun
  split at hrun
  · cases hrun
    exact ⟨rfl, .rejected⟩
  · next haligned =>
    split at hrun
    · cases hrun
      exact ⟨rfl, .rejected⟩
    · next hboundary =>
      split at hrun
      · cases hrun
        exact ⟨rfl, .rejected⟩
      · next hrange =>
        rw [not_or, Nat.not_lt, Nat.not_lt] at hrange
        have hchecked : ZrwaChecked spp zpp ftl cmd :=
          ⟨not_not.1 haligned, by simpa using hboundary, hrange.1, hrange.2⟩
        obtain ⟨⟨status, base⟩, hopen, hrun⟩ := exists_of_bind_eq_ok hrun
        dsimp only at hrun
        split at hrun
        · cases hrun
          exact ⟨rfl, .answered hchecked hopen⟩
        · next hsuccess =>
          obtain rfl := not_not.1 hsuccess
          split at hrun
          · cases hrun
          · split at hrun
            · cases hrun
              exact ⟨rfl, .answered hchecked hopen⟩
            · obtain ⟨⟨granted, filled⟩, hfilled, hrun⟩ := exists_of_bind_eq_ok hrun
              cases granted with
              | false =>
                  cases hrun
                  exact ⟨rfl, .refused hchecked hopen hfilled⟩
              | true =>
                  cases hrun
                  exact ⟨rfl, .flushes hchecked hopen hfilled⟩

theorem znsWriteZrwa_move {cmd cmd' : ZnsCommand} {reply : Option Reply}
    (hzid : lbaToZone dev.spp dev.zpp cmd.slba = zid) (h : Sound dev ftl zid)
    (hzrwa : (ftl.zoneDescs zid).zrwav = true)
    (hrun : znsWriteZrwa dev.spp dev.zpp ftl cmd = .ok (reply, cmd', ftl')) :
    Move ftl ftl' zid .keep ∧ (ftl'.zoneDescs zid).zrwav = true := by
  subst hzid
  obtain ⟨-, hwrites⟩ := zrwaWrites_of_znsWriteZrwa hrun
  cases hwrites with
  | rejected => exact ⟨Same.move ⟨rfl, rfl⟩ h, hzrwa⟩
  | answered _ hopen =>
      obtain ⟨hmove, hzrwa', -⟩ := openForZrwaWrite_move h hzrwa hopen
      exact ⟨hmove, hzrwa'⟩
  | refused _ hopen hfilled =>
      obtain ⟨hmove, hzrwa', -⟩ := openForZrwaWrite_move h hzrwa hopen
      have hsame := zrwaAllocate_same hfilled
      refine ⟨hmove.congr hsame, ?_⟩
      rw [hsame.zoneDescs]
      exact hzrwa'
  | @flushes base filled _ hopen hfilled =>
      obtain ⟨hmove, hzrwa', hopened⟩ := openForZrwaWrite_move h hzrwa hopen
      have hsame := zrwaAllocate_same hfilled
      have hmove' := hmove.congr hsame
      have hdesc := congrFun hsame.zoneDescs (lbaToZone dev.spp dev.zpp cmd.slba)
      rw [← hdesc] at hzrwa' hopened
      have hadvance : Move ftl (increaseWritePtr dev.spp dev.zpp filled
          (lbaToZone dev.spp dev.zpp cmd.slba) (flushedBy dev.spp dev.zpp ftl cmd))
          (lbaToZone dev.spp dev.zpp cmd.slba) .keep :=
        hmove'.trans (increaseWritePtr_zrwa_move (hmove'.sound h) hzrwa' (hopened rfl) _)
      exact ⟨hadvance.congr ⟨rfl, rfl⟩, (zrwav_increaseWritePtr _).trans hzrwa'⟩

end RandomWriteArea

section Commands

/-- The command addresses a zone of the namespace; a select-all needs no LBA. -/
def InRange (dev : ZonedDevice) (cmd : ZnsCommand) : Prop :=
  (cmd.opcode = .zoneMgmtSend ∧ cmd.selectAll = true) ∨
    cmd.slba < dev.zpp.nrZones * byteToLba dev.zpp.zoneSize

theorem lbaToZone_lt {lba : Nat} (h : lba < dev.zpp.nrZones * byteToLba dev.zpp.zoneSize) :
    lbaToZone dev.spp dev.zpp lba < dev.zpp.nrZones := by
  rw [lbaToZone_eq]
  refine Nat.lt_of_le_of_lt (Nat.mod_le _ _) ?_
  exact (Nat.div_lt_iff_lt_mul dev.zoneLbas_pos).2 h

theorem lpnToZone_lbaToLpn (dev : ZonedDevice) (lba : Nat) :
    lpnToZone dev.spp dev.zpp (lbaToLpn dev.spp lba) = lbaToZone dev.spp dev.zpp lba :=
  lpnToZone_lbaToLpn_of_aligned dev.secsz_eq dev.secsPerPg_eq dev.pgsz_eq dev.zoneSize_aligned lba

/-- Zone `z` of a reachable state. -/
structure ZoneKept (dev : ZonedDevice) (z : Nat) (desc : ZoneDescriptor) : Prop where
  empty_plain : desc.state = .empty → desc.zrwav = false
  zslba_eq : desc.zslba = z * byteToLba dev.zpp.zoneSize
  capacity_eq : desc.zoneCapacity = byteToLba dev.zpp.zoneSize
  plain : desc.zrwav = false → PlainZone desc

/-- How many zones are in a state with the property `p`. -/
def zonesIn (dev : ZonedDevice) (ftl : ZnsFtl) (p : ZoneState → Bool) : Nat :=
  countOf (Finset.range dev.zpp.nrZones) (fun z => p (ftl.zoneDescs z).state) true

structure Accounted (dev : ZonedDevice) (ftl : ZnsFtl) : Prop where
  open_eq : cnt ftl .openZone = zonesIn dev ftl opened
  active_eq : cnt ftl .activeZone = zonesIn dev ftl active
  open_le : cnt ftl .openZone ≤ total ftl .openZone
  active_le : cnt ftl .activeZone ≤ total ftl .activeZone
  zones : ∀ z, z < dev.zpp.nrZones → ZoneKept dev z (ftl.zoneDescs z)

theorem Accounted.sound (h : Accounted dev ftl) (hz : zid < dev.zpp.nrZones) :
    Sound dev ftl zid where
  open_le := h.open_le
  active_le := h.active_le
  open_pos hopened := by
    rw [h.open_eq]
    exact countOf_pos (Finset.mem_range.2 hz) hopened
  active_pos hactive := by
    rw [h.active_eq]
    exact countOf_pos (Finset.mem_range.2 hz) hactive
  empty_plain := (h.zones zid hz).empty_plain
  zslba_eq := (h.zones zid hz).zslba_eq
  capacity_eq := (h.zones zid hz).capacity_eq
  plain := (h.zones zid hz).plain

theorem zonesIn_move (hz : zid < dev.zpp.nrZones)
    (hothers : ∀ z, z ≠ zid → ftl'.zoneDescs z = ftl.zoneDescs z) (p : ZoneState → Bool) :
    zonesIn dev ftl' p + (p (ftl.zoneDescs zid).state).toNat =
      zonesIn dev ftl p + (p (ftl'.zoneDescs zid).state).toNat := by
  have hupdate : (fun z => p (ftl'.zoneDescs z).state) =
      Function.update (fun z => p (ftl.zoneDescs z).state) zid
        (p (ftl'.zoneDescs zid).state) := by
    funext z
    rcases eq_or_ne z zid with rfl | hne
    · rw [Function.update_self]
    · rw [Function.update_of_ne hne, hothers z hne]
  rw [zonesIn, hupdate]
  exact countOf_update_toNat (p := fun z => p (ftl.zoneDescs z).state)
    (Finset.mem_range.2 hz) (p (ftl'.zoneDescs zid).state)

theorem Accounted.of_move (h : Accounted dev ftl) (hz : zid < dev.zpp.nrZones)
    (hmove : Move ftl ftl' zid effect) : Accounted dev ftl' where
  open_eq := by
    have hcount := zonesIn_move hz hmove.others opened
    have hcnt := hmove.open_cnt
    have hbefore := h.open_eq
    omega
  active_eq := by
    have hcount := zonesIn_move hz hmove.others active
    have hcnt := hmove.active_cnt
    have hbefore := h.active_eq
    omega
  open_le := by
    rw [hmove.totals]
    exact hmove.open_le
  active_le := by
    rw [hmove.totals]
    exact hmove.active_le
  zones z hlt := by
    rcases eq_or_ne z zid with rfl | hne
    · have hkept := h.zones z hlt
      exact ⟨hmove.empty_plain, hmove.zslba_eq.trans hkept.zslba_eq,
        hmove.capacity_eq.trans hkept.capacity_eq, hmove.plain⟩
    · rw [hmove.others z hne]
      exact h.zones z hlt

theorem Accounted.of_same (h : Accounted dev ftl) (hsame : Same ftl ftl') :
    Accounted dev ftl' := by
  obtain ⟨hopen, hactive, hopenLe, hactiveLe, hzones⟩ := h
  constructor
  all_goals simp only [cnt, total, zonesIn, hsame.zoneDescs, hsame.resInfos]
  all_goals assumption

end Commands

section History

abbrev Log := Nat → List (Nat × Nat)

/-- The LBA that the completion of an append hands to the host: the request table
keeps the result as two 32-bit words, and the host reads them as one. -/
def reportedLba (reply : Reply) : Nat :=
  let ret : NvmevResult := { status := 0, nsecsTarget := 0, result := reply.result }
  let w := Request.fill (.host 0 0 0 0 ret 0) zeroedWork
  w.result0 + 2 ^ 32 * w.result1

theorem reportedLba_eq (reply : Reply) : reportedLba reply = reply.result :=
  Nat.mod_add_div reply.result (2 ^ 32)

/-- The command resets zone `z` with success. -/
def Resets (dev : ZonedDevice) (ftl : ZnsFtl) (cmd : ZnsCommand) (z : Nat) : Prop :=
  cmd.opcode = .zoneMgmtSend ∧ cmd.zsa = .resetZone ∧
    (cmd.selectAll = true ∨ z = lbaToZone dev.spp dev.zpp cmd.slba) ∧
    (zmgmtSendResetZone dev.zpp ftl z).1 = .success

instance (dev : ZonedDevice) (ftl : ZnsFtl) (cmd : ZnsCommand) (z : Nat) :
    Decidable (Resets dev ftl cmd z) :=
  inferInstanceAs (Decidable (_ ∧ _))

/-- The command is a write or an append to zone `z`. -/
def Targets (dev : ZonedDevice) (cmd : ZnsCommand) (z : Nat) : Prop :=
  (cmd.opcode = .write ∨ cmd.opcode = .zoneAppend) ∧
    z = lbaToZone dev.spp dev.zpp cmd.slba

instance (dev : ZonedDevice) (cmd : ZnsCommand) (z : Nat) :
    Decidable (Targets dev cmd z) :=
  inferInstanceAs (Decidable (_ ∧ _))

/-- The writes since the last reset of each zone, after the command that found
`ftl` was answered with `reply`. -/
def recordCmd (dev : ZonedDevice) (ftl : ZnsFtl) (cmd : ZnsCommand) (reply : Option Reply)
    (log : Log) : Log := fun z =>
  if Resets dev ftl cmd z then []
  else
    match reply with
    | none => log z
    | some r =>
        if Targets dev cmd z ∧ r.status = .success then
          let start := if cmd.opcode = .zoneAppend then reportedLba r else cmd.slba
          log z ++ [(start, cmd.nrLba)]
        else log z

/-- The recorded writes of a zone reach from its start to its write pointer. -/
def Tiled (dev : ZonedDevice) (ftl : ZnsFtl) (log : Log) : Prop :=
  ∀ z, z < dev.zpp.nrZones → (ftl.zoneDescs z).zrwav = false →
    Tiles (ftl.zoneDescs z).zslba (log z) (ftl.zoneDescs z).wp

variable {log log' : Log} {cmd cmd' : ZnsCommand} {reply : Option Reply}

theorem Tiled.of_zone (h : Tiled dev ftl log)
    (hothers : ∀ z, z ≠ zid → ftl'.zoneDescs z = ftl.zoneDescs z)
    (hlog : ∀ z, z ≠ zid → log' z = log z)
    (hzid : (ftl'.zoneDescs zid).zrwav = false →
      Tiles (ftl'.zoneDescs zid).zslba (log' zid) (ftl'.zoneDescs zid).wp) :
    Tiled dev ftl' log' := by
  intro z hz
  rcases eq_or_ne z zid with rfl | hne
  · exact hzid
  · rw [hothers z hne, hlog z hne]
    exact h z hz

theorem recordCmd_of_not_targets (z : Nat) (hreset : ¬Resets dev ftl cmd z)
    (htarget : ¬Targets dev cmd z) : recordCmd dev ftl cmd reply log z = log z := by
  unfold recordCmd
  rw [if_neg hreset]
  cases reply with
  | none => rfl
  | some r => exact if_neg fun h => htarget h.1

theorem recordCmd_of_not_succeeded (z : Nat) (hreset : ¬Resets dev ftl cmd z)
    (hno : ¬Succeeded reply) : recordCmd dev ftl cmd reply log z = log z := by
  unfold recordCmd
  rw [if_neg hreset]
  cases reply with
  | none => rfl
  | some r => exact if_neg fun h => hno ⟨r, rfl, h.2⟩

structure Kept (dev : ZonedDevice) (ftl' : ZnsFtl) (log' : Log) : Prop where
  accounted : Accounted dev ftl'
  tiled : Tiled dev ftl' log'

theorem znsWrite_kept (h : Kept dev ftl log)
    (hop : cmd.opcode = .write ∨ cmd.opcode = .zoneAppend)
    (hrange : cmd.slba < dev.zpp.nrZones * byteToLba dev.zpp.zoneSize)
    (hrun : znsWrite dev.spp dev.zpp ftl cmd = .ok (reply, cmd', ftl')) :
    Kept dev ftl' (recordCmd dev ftl cmd reply log) := by
  have hz := lbaToZone_lt hrange
  have hsound := h.accounted.sound hz
  have hreset : ∀ z, ¬Resets dev ftl cmd z := by
    rintro z ⟨hsend, -⟩
    rcases hop with hop | hop <;> simp [hop] at hsend
  have hlog : ∀ z, z ≠ lbaToZone dev.spp dev.zpp cmd.slba →
      recordCmd dev ftl cmd reply log z = log z := fun z hne =>
    recordCmd_of_not_targets z (hreset z) fun htarget => hne htarget.2
  rw [znsWrite, lpnToZone_lbaToLpn] at hrun
  cases hzrwa : (ftl.zoneDescs (lbaToZone dev.spp dev.zpp cmd.slba)).zrwav with
  | true =>
      rw [if_pos hzrwa] at hrun
      obtain ⟨hmove, hzrwa'⟩ := znsWriteZrwa_move rfl hsound hzrwa hrun
      refine ⟨h.accounted.of_move hz hmove, h.tiled.of_zone hmove.others hlog ?_⟩
      rw [hzrwa']
      simp
  | false =>
      rw [if_neg (by simp [hzrwa])] at hrun
      have hwritten := znsWritePlain_spec rfl hz hsound hzrwa hrun
      by_cases hok : Succeeded reply
      · obtain ⟨r, rfl, hstatus⟩ := hok
        obtain ⟨hmove, -, happend, hwrite⟩ := hwritten.committed r rfl hstatus
        refine ⟨h.accounted.of_move hz hmove, h.tiled.of_zone hmove.others hlog ?_⟩
        intro hplain
        have hstart : (if cmd.opcode = .zoneAppend then reportedLba r else cmd.slba) =
            (ftl.zoneDescs (lbaToZone dev.spp dev.zpp cmd.slba)).wp := by
          split
          · next hop => rw [reportedLba_eq, happend hop]
          · next hop => exact hwrite hop
        have hrecord : recordCmd dev ftl cmd (some r) log
            (lbaToZone dev.spp dev.zpp cmd.slba) =
            log (lbaToZone dev.spp dev.zpp cmd.slba) ++
              [((ftl.zoneDescs (lbaToZone dev.spp dev.zpp cmd.slba)).wp, cmd.nrLba)] := by
          rw [recordCmd, if_neg (hreset _)]
          dsimp only
          rw [if_pos ⟨⟨hop, rfl⟩, hstatus⟩, hstart]
        rw [hrecord, hmove.zslba_eq, (hmove.wp hplain).2]
        exact (h.tiled _ hz hzrwa).concat cmd.nrLba
      · have hsame := hwritten.rejected hok
        refine ⟨h.accounted.of_same hsame, fun z hlt => ?_⟩
        rw [hsame.zoneDescs, recordCmd_of_not_succeeded z (hreset z) hok]
        exact h.tiled z hlt

theorem zmgmtSend_kept {slba : Nat} {action : ZoneSendAction} {option : Bool}
    {status : Status} (log' : Log) (h : Kept dev ftl log)
    (hrange : lbaToZone dev.spp dev.zpp slba < dev.zpp.nrZones)
    (hrun : zmgmtSend dev.spp dev.zpp ftl slba action option = .ok (status, ftl'))
    (hothers : ∀ z, z ≠ lbaToZone dev.spp dev.zpp slba → log' z = log z)
    (hlog : log' (lbaToZone dev.spp dev.zpp slba) =
      if action = .resetZone ∧
          (zmgmtSendResetZone dev.zpp ftl (lbaToZone dev.spp dev.zpp slba)).1 = .success then []
      else log (lbaToZone dev.spp dev.zpp slba)) :
    Kept dev ftl' log' ∧ ∀ z, z ≠ lbaToZone dev.spp dev.zpp slba →
      ftl'.zoneDescs z = ftl.zoneDescs z := by
  have hmove := zmgmtSend_move (h.accounted.sound hrange) hrun
  refine ⟨⟨h.accounted.of_move hrange hmove, h.tiled.of_zone hmove.others hothers ?_⟩,
    hmove.others⟩
  intro hplain
  have hwp := hmove.wp hplain
  rw [hlog, hmove.zslba_eq]
  rw [sendEffect] at hwp
  split
  · next hreset =>
    rw [if_pos hreset] at hwp
    exact hwp.symm
  · next hreset =>
    rw [if_neg hreset] at hwp
    rw [hwp.2]
    exact h.tiled _ hrange hwp.1

theorem zmgmtSendResetZone_status (dev : ZonedDevice) 
    (hdesc : ftl'.zoneDescs zid = ftl.zoneDescs zid) :
    (zmgmtSendResetZone dev.zpp ftl' zid).1 = (zmgmtSendResetZone dev.zpp ftl zid).1 := by
  rw [zmgmtSendResetZone, zmgmtSendResetZone, hdesc]
  cases (ftl.zoneDescs zid).state <;> rfl

/-- The state of a select-all before it reaches zone `i`. -/
structure SelectAll (dev : ZonedDevice) (ftl : ZnsFtl) (log log' : Log) (i : Nat)
    (ftl' : ZnsFtl) : Prop where
  kept : Kept dev ftl' fun z => if z < i then log' z else log z
  untouched : ∀ z, i ≤ z → ftl'.zoneDescs z = ftl.zoneDescs z

theorem SelectAll.next {i : Nat} {option : Bool} {action : ZoneSendAction}
    {status : Status} {mid : ZnsFtl} (hi : i < dev.zpp.nrZones)
    (h : SelectAll dev ftl log log' i mid)
    (hlog : log' i = if action = .resetZone ∧
      (zmgmtSendResetZone dev.zpp ftl i).1 = .success then [] else log i)
    (hrun : zmgmtSend dev.spp dev.zpp mid (zoneToSlba dev.spp dev.zpp i) action option =
      .ok (status, ftl')) : SelectAll dev ftl log log' (i + 1) ftl' := by
  have hzone : lbaToZone dev.spp dev.zpp (zoneToSlba dev.spp dev.zpp i) = i := by
    rw [zoneToSlba_eq hi]
    exact lbaToZone_of_mem hi (Nat.le_refl _) (Nat.lt_add_of_pos_right dev.zoneLbas_pos)
  have hstatus := zmgmtSendResetZone_status dev (h.untouched i (Nat.le_refl i))
  have hdone : ∀ z, z ≠ lbaToZone dev.spp dev.zpp (zoneToSlba dev.spp dev.zpp i) →
      (if z < i + 1 then log' z else log z) = if z < i then log' z else log z := by
    intro z hne
    rw [hzone] at hne
    by_cases hlt : z < i
    · rw [if_pos hlt, if_pos (by omega)]
    · rw [if_neg hlt, if_neg (by omega)]
  obtain ⟨hkept, hothers⟩ := zmgmtSend_kept (fun z => if z < i + 1 then log' z else log z)
    h.kept (by rw [hzone]; exact hi) hrun hdone
    (by simpa [hzone, hstatus] using hlog)
  refine ⟨hkept, fun z hz => ?_⟩
  rw [hothers z (by omega)]
  exact h.untouched z (by omega)

theorem znsZmgmtSend_kept {status : Status} (h : Kept dev ftl log)
    (hop : cmd.opcode = .zoneMgmtSend) (hrange : InRange dev cmd)
    (hrun : znsZmgmtSend dev.spp dev.zpp ftl cmd = .ok (status, ftl')) :
    Kept dev ftl' (recordCmd dev ftl cmd reply log) := by
  have htarget : ∀ z, ¬Targets dev cmd z := by
    rintro z ⟨hwrite | hwrite, -⟩ <;> simp [hop] at hwrite
  have hlog : ∀ z, cmd.selectAll = true ∨ z = lbaToZone dev.spp dev.zpp cmd.slba →
      recordCmd dev ftl cmd reply log z =
        if cmd.zsa = .resetZone ∧ (zmgmtSendResetZone dev.zpp ftl z).1 = .success then []
        else log z := by
    intro z hselected
    split
    · next hreset =>
      unfold recordCmd
      rw [if_pos ⟨hop, hreset.1, hselected, hreset.2⟩]
    · next hreset =>
      exact recordCmd_of_not_targets z (fun hz => hreset ⟨hz.2.1, hz.2.2.2⟩) (htarget z)
  rw [znsZmgmtSend] at hrun
  split at hrun
  · next hall =>
    obtain ⟨last, hfold, hrun⟩ := exists_of_bind_eq_ok hrun
    cases hrun
    have hstart : SelectAll dev ftl log (recordCmd dev ftl cmd reply log) 0 ftl := by
      refine ⟨?_, fun _ _ => rfl⟩
      simpa using h
    have hend : SelectAll dev ftl log (recordCmd dev ftl cmd reply log) dev.zpp.nrZones ftl' := by
      refine (Outcome.foldlM_range (E := fun _ => True) hstart ?_).value hfold
      intro i hi mid hmid
      cases hsend : zmgmtSend dev.spp dev.zpp mid (zoneToSlba dev.spp dev.zpp i) cmd.zsa
          cmd.zsaso with
      | error fault => trivial
      | ok sent => exact hmid.next hi (hlog i (.inl hall)) hsend
    refine ⟨hend.kept.accounted, fun z hz => ?_⟩
    have htiled := hend.kept.tiled z hz
    rwa [if_pos hz] at htiled
  · next hall =>
    have hslba := lbaToZone_lt (hrange.resolve_left fun hsend => hall hsend.2)
    refine (zmgmtSend_kept _ h hslba hrun ?_ (hlog _ (.inr rfl))).1
    intro z hne
    refine recordCmd_of_not_targets z ?_ (htarget z)
    rintro ⟨-, -, hselected | rfl, -⟩
    · exact hall hselected
    · exact hne rfl

theorem znsProcNvmeIoCmd_kept (h : Kept dev ftl log) (hrange : InRange dev cmd)
    (hrun : znsProcNvmeIoCmd dev.spp dev.zpp ftl cmd = .ok (reply, cmd', ftl')) :
    Kept dev ftl' (recordCmd dev ftl cmd reply log) := by
  have hidle : cmd.opcode ≠ .zoneMgmtSend → cmd.opcode ≠ .write →
      cmd.opcode ≠ .zoneAppend → recordCmd dev ftl cmd reply log = log := by
    intro hsend hwrite happend
    funext z
    refine recordCmd_of_not_targets z (fun hz => hsend hz.1) ?_
    rintro ⟨hop | hop, -⟩
    · exact hwrite hop
    · exact happend hop
  have hslba : cmd.opcode ≠ .zoneMgmtSend →
      cmd.slba < dev.zpp.nrZones * byteToLba dev.zpp.zoneSize := fun hsend =>
    hrange.resolve_left fun hall => hsend hall.1
  rw [znsProcNvmeIoCmd] at hrun
  cases hop : cmd.opcode with
  | write =>
      simp only [hop] at hrun
      exact znsWrite_kept h (.inl hop) (hslba (by simp [hop])) hrun
  | zoneAppend =>
      simp only [hop] at hrun
      exact znsWrite_kept h (.inr hop) (hslba (by simp [hop])) hrun
  | zoneMgmtSend =>
      simp only [hop] at hrun
      obtain ⟨⟨status, sent⟩, hsend, hrun⟩ := exists_of_bind_eq_ok hrun
      cases hrun
      exact znsZmgmtSend_kept h hop hrange hsend
  | read =>
      simp only [hop] at hrun
      rw [hidle (by simp [hop]) (by simp [hop]) (by simp [hop])]
      cases hrun
      exact h
  | flush =>
      simp only [hop] at hrun
      rw [hidle (by simp [hop]) (by simp [hop]) (by simp [hop])]
      cases hrun
      exact h
  | zoneMgmtRecv =>
      simp only [hop] at hrun
      rw [hidle (by simp [hop]) (by simp [hop]) (by simp [hop])]
      cases hrun
      exact h
  | other code =>
      simp only [hop] at hrun
      rw [hidle (by simp [hop]) (by simp [hop]) (by simp [hop])]
      cases hrun
      exact h

end History

section Runs

def EventInRange (dev : ZonedDevice) : ZnsEvent → Prop
  | .cmd cmd => InRange dev cmd
  | .release _ => True

/-- The step of a run that also records the writes of each zone. -/
def loggedStep (dev : ZonedDevice) (state : ZnsFtl × Log) :
    ZnsEvent → Except Fault (ZnsFtl × Log)
  | .cmd cmd => do
      let (reply, _, ftl) ← znsProcNvmeIoCmd dev.spp dev.zpp state.1 cmd
      return (ftl, recordCmd dev state.1 cmd reply state.2)
  | .release i => do
      let ftl ← znsStep dev.spp dev.zpp state.1 (.release i)
      return (ftl, state.2)

def loggedRun (dev : ZonedDevice) (state : ZnsFtl × Log) (events : List ZnsEvent) :
    Except Fault (ZnsFtl × Log) :=
  events.foldlM (loggedStep dev) state

def withLimits (limits : ZoneResource → Nat) (ftl : ZnsFtl) : ZnsFtl :=
  { ftl with
    resInfos := fun type => { ftl.resInfos type with totalCnt := limits type } }

/-- `zns_init_ftl` with arbitrary limits and no write so far. -/
def fresh (dev : ZonedDevice) (limits : ZoneResource → Nat) (storage : Nat → UInt8) :
    ZnsFtl :=
  withLimits limits (znsInitFtl dev.spp dev.zpp storage)

variable {limits : ZoneResource → Nat} {storage : Nat → UInt8} {events : List ZnsEvent}
  {state state' : ZnsFtl × Log}

theorem fresh_kept (dev : ZonedDevice) (limits : ZoneResource → Nat)
    (storage : Nat → UInt8) : Kept dev (fresh dev limits storage) fun _ => [] := by
  have hpos := dev.zoneLbas_pos
  have hnone : ∀ p : ZoneState → Bool, p .empty = false →
      zonesIn dev (fresh dev limits storage) p = 0 := by
    intro p hp
    refine countOf_eq_zero.2 fun z _ => ?_
    change p .empty ≠ true
    simp [hp]
  refine ⟨⟨(hnone _ rfl).symm, (hnone _ rfl).symm, Nat.zero_le _, Nat.zero_le _, ?_⟩, ?_⟩
  · intro z _
    refine ⟨fun _ => rfl, rfl, rfl, fun _ => ⟨Nat.le_refl _, Nat.le_add_right _ _,
      fun _ => rfl, fun _ => ?_⟩⟩
    exact Nat.lt_add_of_pos_right hpos
  · intro z _ _
    rfl

theorem loggedStep_kept {e : ZnsEvent} (h : Kept dev state.1 state.2)
    (hrange : EventInRange dev e) (hrun : loggedStep dev state e = .ok state') :
    Kept dev state'.1 state'.2 := by
  cases e with
  | cmd cmd =>
      obtain ⟨⟨reply, cmd', ftl⟩, hcmd, hrun⟩ := exists_of_bind_eq_ok hrun
      cases hrun
      exact znsProcNvmeIoCmd_kept h hrange hcmd
  | release i =>
      obtain ⟨ftl, hrelease, hrun⟩ := exists_of_bind_eq_ok hrun
      cases hrun
      rw [znsStep] at hrelease
      split at hrelease
      · cases hrelease
        exact h
      · cases hrelease
        exact ⟨h.accounted.of_same ⟨rfl, rfl⟩, h.tiled⟩

theorem loggedRun_kept (h : Kept dev state.1 state.2)
    (hrange : ∀ e ∈ events, EventInRange dev e)
    (hrun : loggedRun dev state events = .ok state') : Kept dev state'.1 state'.2 := by
  induction events generalizing state with
  | nil =>
      cases hrun
      exact h
  | cons e events ih =>
      rw [loggedRun, List.foldlM_cons] at hrun
      obtain ⟨next, hstep, hrest⟩ := exists_of_bind_eq_ok hrun
      exact ih (loggedStep_kept h (hrange e (by simp)) hstep)
        (fun e he => hrange e (by simp [he])) hrest

theorem exists_loggedRun {ftl₀ : ZnsFtl} (log : Log)
    (hrun : znsRun dev.spp dev.zpp ftl₀ events = .ok ftl') :
    ∃ log', loggedRun dev (ftl₀, log) events = .ok (ftl', log') := by
  induction events generalizing ftl₀ log with
  | nil =>
      cases hrun
      exact ⟨log, rfl⟩
  | cons e events ih =>
      rw [znsRun, List.foldlM_cons] at hrun
      obtain ⟨next, hstep, hrest⟩ := exists_of_bind_eq_ok hrun
      have hlogged : ∃ mid, loggedStep dev (ftl₀, log) e = .ok (next, mid) := by
        cases e with
        | cmd cmd =>
            obtain ⟨⟨reply, cmd', ftl⟩, hcmd, hstep⟩ := exists_of_bind_eq_ok hstep
            cases hstep
            refine ⟨recordCmd dev ftl₀ cmd reply log, ?_⟩
            simp only [loggedStep, hcmd]
            rfl
        | release i =>
            refine ⟨log, ?_⟩
            simp only [loggedStep, hstep]
            rfl
      obtain ⟨mid, hmid⟩ := hlogged
      obtain ⟨log', hlog'⟩ := ih mid hrest
      refine ⟨log', ?_⟩
      rw [loggedRun, List.foldlM_cons, hmid]
      exact hlog'

/-- In every state that a run reaches, whatever the limits are, the two counters
are the numbers of open and of active zones and stay below their limits. -/
theorem zone_resources_accounted (hrange : ∀ e ∈ events, EventInRange dev e)
    (hrun : znsRun dev.spp dev.zpp (fresh dev limits storage) events = .ok ftl') :
    (ftl'.resInfos .openZone).acquiredCnt =
        ((Finset.range dev.zpp.nrZones).filter fun z =>
          (ftl'.zoneDescs z).state = .openedImpl ∨
            (ftl'.zoneDescs z).state = .openedExpl).card ∧
      (ftl'.resInfos .activeZone).acquiredCnt =
        ((Finset.range dev.zpp.nrZones).filter fun z =>
          (ftl'.zoneDescs z).state = .openedImpl ∨
            (ftl'.zoneDescs z).state = .openedExpl ∨
            (ftl'.zoneDescs z).state = .closed).card ∧
      (ftl'.resInfos .openZone).acquiredCnt ≤ (ftl'.resInfos .openZone).totalCnt ∧
      (ftl'.resInfos .activeZone).acquiredCnt ≤ (ftl'.resInfos .activeZone).totalCnt := by
  obtain ⟨log', hlogged⟩ := exists_loggedRun (fun _ => []) hrun
  have hkept := loggedRun_kept (fresh_kept dev limits storage) hrange hlogged
  obtain ⟨hopen, hactive, hopenLe, hactiveLe, -⟩ := hkept.accounted
  refine ⟨hopen.trans ?_, hactive.trans ?_, hopenLe, hactiveLe⟩
  · rw [zonesIn, countOf]
    congr 1
    apply Finset.filter_congr
    intro z _
    cases (ftl'.zoneDescs z).state <;> simp [opened]
  · rw [zonesIn, countOf]
    congr 1
    apply Finset.filter_congr
    intro z _
    cases (ftl'.zoneDescs z).state <;> simp [active]

def twoZones : ZonedDevice where
  spp :=
    { secsz := 512
      secsPerPg := 8
      pgsz := 4096
      pgsPerFlashpg := 1
      flashpgsPerBlk := 1
      pgsPerOneshotpg := 1
      oneshotpgsPerBlk := 1
      pgsPerBlk := 1
      blksPerPl := 4
      plsPerLun := 1
      lunsPerCh := 1
      nchs := 1
      writeUnitSize := 512
      writeBufferSize := 8192 }
  zpp :=
    { nrZones := 2
      nrActiveZones := 2
      nrOpenZones := 2
      diesPerZone := 1
      zoneSize := 8192
      zoneWbSize := 0
      nrZrwaZones := 2
      zrwafgSize := 4096
      zrwaSize := 4096
      zrwaBufferSize := 0
      lbasPerZrwafg := 8
      lbasPerZrwa := 8 }
  secsz_eq := rfl
  secsPerPg_eq := rfl
  pgsz_eq := rfl
  zoneSize_pos := by decide
  zoneSize_aligned := rfl
  lbaSpace := by decide

def command (opcode : Opcode) (slba length : Nat) (zsa : ZoneSendAction) : ZnsCommand where
  opcode := opcode
  nsid := 0
  prp1 := 0
  prp2 := 0
  slba := slba
  length := length
  zsa := zsa
  selectAll := false
  zsaso := false
  zra := 0
  zraSpecificField := 0

/-- A write, two appends that fill the other zone, a second close of the first
zone and one buffer release. -/
def mixedCommands : List ZnsEvent :=
  [.cmd (command .write 0 7 (.other 0)), .cmd (command .zoneAppend 20 7 (.other 0)),
    .cmd (command .zoneMgmtSend 0 0 .closeZone), .release 0,
    .cmd (command .zoneAppend 16 7 (.other 0)), .cmd (command .zoneMgmtSend 0 0 .closeZone)]

theorem mixedCommands_inRange : ∀ e ∈ mixedCommands, EventInRange twoZones e := by
  intro e he
  simp only [mixedCommands, List.mem_cons, List.not_mem_nil, or_false] at he
  rcases he with rfl | rfl | rfl | rfl | rfl | rfl
  · exact .inr (by decide)
  · exact .inr (by decide)
  · exact .inr (by decide)
  · trivial
  · exact .inr (by decide)
  · exact .inr (by decide)

theorem zone_resources_accounted_mixed :
    ∃ ftl, znsRun twoZones.spp twoZones.zpp (fresh twoZones (fun _ => 2) fun _ => 0)
        mixedCommands = .ok ftl ∧
      (ftl.resInfos .openZone).acquiredCnt =
        ((Finset.range 2).filter fun z =>
          (ftl.zoneDescs z).state = .openedImpl ∨
            (ftl.zoneDescs z).state = .openedExpl).card := by
  obtain ⟨ftl, hrun⟩ : ∃ ftl, znsRun twoZones.spp twoZones.zpp
      (fresh twoZones (fun _ => 2) fun _ => 0) mixedCommands = .ok ftl := ⟨_, rfl⟩
  exact ⟨ftl, hrun, (zone_resources_accounted mixedCommands_inRange hrun).1⟩

/-- The writes and appends that succeeded on a zone since its last reset, an
append being where its completion says, follow each other without a gap from the
start of the zone to its write pointer. -/
theorem zone_writes_sequential {log : Log} (hrange : ∀ e ∈ events, EventInRange dev e)
    (hrun : loggedRun dev (fresh dev limits storage, fun _ => []) events = .ok (ftl', log))
    (hz : zid < dev.zpp.nrZones) (hplain : (ftl'.zoneDescs zid).zrwav = false) :
    (ftl'.zoneDescs zid).zslba ≤ (ftl'.zoneDescs zid).wp ∧
      (ftl'.zoneDescs zid).wp ≤
        (ftl'.zoneDescs zid).zslba + (ftl'.zoneDescs zid).zoneCapacity ∧
      ((ftl'.zoneDescs zid).state = .empty →
        (ftl'.zoneDescs zid).wp = (ftl'.zoneDescs zid).zslba) ∧
      ((ftl'.zoneDescs zid).state = .openedImpl ∨ (ftl'.zoneDescs zid).state = .openedExpl ∨
          (ftl'.zoneDescs zid).state = .closed →
        (ftl'.zoneDescs zid).wp <
          (ftl'.zoneDescs zid).zslba + (ftl'.zoneDescs zid).zoneCapacity) ∧
      (log zid).Pairwise (fun r s => r.1 + r.2 ≤ s.1) ∧
      ∀ lba, (∃ r ∈ log zid, r.1 ≤ lba ∧ lba < r.1 + r.2) ↔
        (ftl'.zoneDescs zid).zslba ≤ lba ∧ lba < (ftl'.zoneDescs zid).wp := by
  have hkept := loggedRun_kept (fresh_kept dev limits storage) hrange hrun
  have hzone := (hkept.accounted.zones zid hz).plain hplain
  have htiles := hkept.tiled zid hz hplain
  refine ⟨hzone.zslba_le, hzone.wp_le, hzone.wp_of_empty, ?_, htiles.pairwise, htiles.covers⟩
  intro hstate
  apply hzone.wp_lt_of_active
  rcases hstate with hstate | hstate | hstate
  · rw [hstate]
    rfl
  · rw [hstate]
    rfl
  · rw [hstate]
    rfl

theorem zone_writes_sequential_mixed :
    ∃ ftl log, loggedRun twoZones (fresh twoZones (fun _ => 2) fun _ => 0, fun _ => [])
        mixedCommands = .ok (ftl, log) ∧
      log 1 = [(16, 8), (24, 8)] ∧
      ∀ lba, (∃ r ∈ log 1, r.1 ≤ lba ∧ lba < r.1 + r.2) ↔
        (ftl.zoneDescs 1).zslba ≤ lba ∧ lba < (ftl.zoneDescs 1).wp := by
  obtain ⟨ftl, log, hrun, hlog, hplain⟩ : ∃ ftl log, loggedRun twoZones
      (fresh twoZones (fun _ => 2) fun _ => 0, fun _ => []) mixedCommands = .ok (ftl, log) ∧
      log 1 = [(16, 8), (24, 8)] ∧ (ftl.zoneDescs 1).zrwav = false := ⟨_, _, rfl, rfl, rfl⟩
  exact ⟨ftl, log, hrun, hlog,
    (zone_writes_sequential mixedCommands_inRange hrun (by decide) hplain).2.2.2.2.2⟩

end Runs

end NvmeVirt.ZonedRuns
