import NvmeVirt.ZoneMachine

namespace NvmeVirt.ZonedCommutation

open FaultOutcome
open FlashGeometry
open LocalSteps
open StatusCounts
open WriteBuffer
open ZoneMachine
open ZonedAccounting
open ZonedFtl
open ZonedRuns
open ZrwaReachability

variable {dev : ZonedDevice} {ftl ftl' : ZnsFtl} {zid : Nat}

section Limits

/-- The counters follow the zones, and their limits are the number of zones. -/
structure Limited (dev : ZonedDevice) (ftl : ZnsFtl) : Prop where
  accounted : Accounted dev ftl
  totals : ∀ t, total ftl t = dev.zpp.nrZones

theorem Limited.of_move {effect : WpEffect} (h : Limited dev ftl) (hz : zid < dev.zpp.nrZones)
    (hmove : Move ftl ftl' zid effect) : Limited dev ftl' :=
  ⟨h.accounted.of_move hz hmove, fun t => by rw [hmove.totals, h.totals]⟩

theorem Limited.of_same (h : Limited dev ftl) (hsame : Same ftl ftl') : Limited dev ftl' := by
  refine ⟨h.accounted.of_same hsame, fun t => ?_⟩
  rw [total, hsame.resInfos]
  exact h.totals t

theorem znsInitFtl_limited (dev : ZonedDevice) (storage : Nat → UInt8) :
    Limited dev (znsInitFtl dev.spp dev.zpp storage) :=
  ⟨(fresh_kept dev (fun _ => dev.zpp.nrZones) storage).accounted, fun _ => rfl⟩

variable {cmd cmd' : ZnsCommand} {reply : Option Reply}

theorem znsWrite_limited (h : Limited dev ftl)
    (hrange : cmd.slba < dev.zpp.nrZones * byteToLba dev.zpp.zoneSize)
    (hrun : znsWrite dev.spp dev.zpp ftl cmd = .ok (reply, cmd', ftl')) : Limited dev ftl' := by
  have hz := lbaToZone_lt hrange
  have hsound := h.accounted.sound hz
  rw [znsWrite, lpnToZone_lbaToLpn] at hrun
  split at hrun
  · next hzrwa =>
    exact h.of_move hz (znsWriteZrwa_move rfl hsound hzrwa hrun).1
  · next hplain =>
    have hwritten := znsWritePlain_spec rfl hz hsound (by simpa using hplain) hrun
    by_cases hok : Succeeded reply
    · obtain ⟨r, rfl, hstatus⟩ := hok
      exact h.of_move hz (hwritten.committed r rfl hstatus).1
    · exact h.of_same (hwritten.rejected hok)

theorem znsZmgmtSend_limited {status : Status} (h : Limited dev ftl)
    (hrange : cmd.selectAll = true ∨ cmd.slba < dev.zpp.nrZones * byteToLba dev.zpp.zoneSize)
    (hrun : znsZmgmtSend dev.spp dev.zpp ftl cmd = .ok (status, ftl')) : Limited dev ftl' := by
  rw [znsZmgmtSend] at hrun
  split at hrun
  · obtain ⟨last, hfold, hrun⟩ := exists_of_bind_eq_ok hrun
    cases hrun
    refine (Outcome.foldlM (P := Limited dev) (E := fun _ => True) h ?_).value hfold
    intro z hz mid hmid
    have hlt := List.mem_range.1 hz
    have hzone : lbaToZone dev.spp dev.zpp (zoneToSlba dev.spp dev.zpp z) = z := by
      rw [zoneToSlba_eq hlt]
      exact lbaToZone_of_mem hlt (Nat.le_refl _) (Nat.lt_add_of_pos_right dev.zoneLbas_pos)
    cases hsend : zmgmtSend dev.spp dev.zpp mid (zoneToSlba dev.spp dev.zpp z) cmd.zsa
        cmd.zsaso with
    | error fault => trivial
    | ok sent =>
        have hmove := zmgmtSend_move (hmid.accounted.sound (hzone.symm ▸ hlt)) hsend
        rw [hzone] at hmove
        exact hmid.of_move hlt hmove
  · next hone =>
    have hz := lbaToZone_lt (hrange.resolve_left hone)
    exact h.of_move hz (zmgmtSend_move (h.accounted.sound hz) hrun)

theorem znsProcNvmeIoCmd_limited (h : Limited dev ftl) (hrange : InRange dev cmd)
    (hrun : znsProcNvmeIoCmd dev.spp dev.zpp ftl cmd = .ok (reply, cmd', ftl')) :
    Limited dev ftl' := by
  rw [znsProcNvmeIoCmd] at hrun
  cases hop : cmd.opcode with
  | write | zoneAppend =>
      simp only [hop] at hrun
      exact znsWrite_limited h (hrange.resolve_left (by simp [hop])) hrun
  | zoneMgmtSend =>
      simp only [hop] at hrun
      obtain ⟨⟨status, sent⟩, hsend, hrun⟩ := exists_of_bind_eq_ok hrun
      cases hrun
      exact znsZmgmtSend_limited h (hrange.imp_left And.right) hsend
  | read | flush | zoneMgmtRecv | other =>
      simp only [hop] at hrun
      cases hrun
      exact h

theorem znsRun_limited {events : List ZnsEvent} (h : Limited dev ftl)
    (hrange : ∀ e ∈ events, EventInRange dev e)
    (hrun : znsRun dev.spp dev.zpp ftl events = .ok ftl') : Limited dev ftl' := by
  refine (Outcome.foldlM (P := Limited dev) (E := fun _ => True) h ?_).value hrun
  intro e he mid hmid
  cases e with
  | cmd cmd =>
      cases hcmd : znsProcNvmeIoCmd dev.spp dev.zpp mid cmd with
      | error fault =>
          rw [znsStep, hcmd]
          trivial
      | ok answer =>
          rw [znsStep, hcmd]
          exact znsProcNvmeIoCmd_limited hmid (hrange _ he) hcmd
  | release i =>
      rw [znsStep]
      split
      · exact hmid
      · exact hmid.of_same ⟨rfl, rfl⟩

theorem Limited.roomy (h : Limited dev ftl) (hz : zid < dev.zpp.nrZones)
    (hplain : (ftl.zoneDescs zid).zrwav = false) : Roomy ftl zid := by
  have hlt : ∀ p : ZoneState → Bool, p (ftl.zoneDescs zid).state = false →
      zonesIn dev ftl p < dev.zpp.nrZones := by
    intro p hp
    have hcount := countOf_lt_card (f := fun z => p (ftl.zoneDescs z).state) (b := true)
      (Finset.mem_range.2 hz) (by simp [hp])
    rwa [Finset.card_range] at hcount
  refine ⟨hplain, fun hopen => ?_, fun hactive => ?_⟩
  · rw [h.accounted.open_eq, h.totals]
    exact hlt opened hopen
  · rw [h.accounted.active_eq, h.totals]
    exact hlt active hactive

end Limits

section Exchange

/-- What is left of a run of commands, latencies and scheduled releases apart. -/
structure Observed where
  zoneDescs : Nat → ZoneDescriptor
  openCnt : Nat
  activeCnt : Nat
  writeBuffers : Nat → Buffer

def observed (ftl : ZnsFtl) : Observed where
  zoneDescs := ftl.zoneDescs
  openCnt := cnt ftl .openZone
  activeCnt := cnt ftl .activeZone
  writeBuffers z := ftl.buffers (.zoneWriteBuffer z)

/-- The answers to `first` and then `second`, and what is left. -/
def inTurn (spp : SsdParams) (zpp : ZnsParams) (first second : ZnsCommand) (ftl : ZnsFtl) :
    Except Fault (((Option Reply × ZnsCommand) × Option Reply × ZnsCommand) × Observed) :=
  (inOrder (perform spp zpp first) (perform spp zpp second) ftl).map fun r =>
    (r.1, observed r.2)

/-- The counters of a namespace whose zones are `zones`. -/
def observedZones (dev : ZonedDevice) (zones : Nat → Zone) : Observed where
  zoneDescs z := (zones z).desc
  openCnt := countOf (Finset.range dev.zpp.nrZones) (fun z => opened (zones z).desc.state) true
  activeCnt :=
    countOf (Finset.range dev.zpp.nrZones) (fun z => active (zones z).desc.state) true
  writeBuffers z := (zones z).writeBuffer

theorem Limited.observed_eq (h : Limited dev ftl) :
    observed ftl = observedZones dev (zoneOf ftl) := by
  rw [observed, h.accounted.open_eq, h.accounted.active_eq]
  rfl

variable {cmd first second : ZnsCommand} {a : Option Reply × ZnsCommand}

theorem perform_limited (h : Limited dev ftl) (hrange : InRange dev cmd)
    (hrun : perform dev.spp dev.zpp cmd ftl = .ok (a, ftl')) : Limited dev ftl' := by
  obtain ⟨⟨reply, cmd', base⟩, hcmd, hrun⟩ := exists_of_bind_eq_ok hrun
  cases hrun
  exact znsProcNvmeIoCmd_limited h hrange hcmd

def target (dev : ZonedDevice) (cmd : ZnsCommand) : Nat := lbaToZone dev.spp dev.zpp cmd.slba

/-- A command on one zone of the namespace, a zone without a random write area. -/
structure Local (dev : ZonedDevice) (ftl : ZnsFtl) (cmd : ZnsCommand) : Prop where
  isZoneCommand : IsZoneCommand cmd
  range : cmd.slba < dev.zpp.nrZones * byteToLba dev.zpp.zoneSize
  plain : (ftl.zoneDescs (target dev cmd)).zrwav = false

theorem Local.performs (hcmd : Local dev ftl cmd) (h : Limited dev ftl)
    (hbuffer : dev.zpp.zoneWbSize ≠ 0) :
    Performs dev.spp dev.zpp cmd (target dev cmd) (areasAfter cmd ftl (target dev cmd)) ftl :=
  znsProcNvmeIoCmd_performs (h.roomy (lbaToZone_lt hcmd.range) hcmd.plain) hcmd.isZoneCommand
    hbuffer rfl (lpnToZone_lbaToLpn dev cmd.slba)

theorem Local.after (hfirst : Local dev ftl first) (hsecond : Local dev ftl second)
    (h : Limited dev ftl) (hbuffer : dev.zpp.zoneWbSize ≠ 0)
    (hne : target dev second ≠ target dev first)
    (hrun : perform dev.spp dev.zpp first ftl = .ok (a, ftl')) :
    Local dev ftl' second ∧
      ftl'.zoneDescs (target dev second) = ftl.zoneDescs (target dev second) := by
  have hzone := (hfirst.performs h hbuffer).zoneOf_of_ne hrun hne
  have hdesc : ftl'.zoneDescs (target dev second) = ftl.zoneDescs (target dev second) :=
    congrArg Zone.desc hzone
  refine ⟨⟨hsecond.isZoneCommand, hsecond.range, ?_⟩, hdesc⟩
  rw [hdesc]
  exact hsecond.plain

def LastArea (ftl : ZnsFtl) : Prop := cnt ftl .zrwaZone + 1 = total ftl .zrwaZone

instance (ftl : ZnsFtl) : Decidable (LastArea ftl) :=
  inferInstanceAs (Decidable (_ = _))

theorem isZoneResourceFull_congr {base : ZnsFtl} (hareas : areas ftl = areas base) :
    isZoneResourceFull ftl .zrwaZone = isZoneResourceFull base .zrwaZone := by
  rw [areas, areas] at hareas
  rw [isZoneResourceFull, isZoneResourceFull, hareas]

theorem full_after (hareas : areas ftl' = areasAfter cmd ftl zid)
    (hsafe : ¬(TakesZrwa cmd (ftl.zoneDescs zid) ∧ LastArea ftl)) :
    isZoneResourceFull ftl' .zrwaZone = isZoneResourceFull ftl .zrwaZone := by
  by_cases htakes : TakesZrwa cmd (ftl.zoneDescs zid)
  · rw [areasAfter, if_pos htakes] at hareas
    rw [isZoneResourceFull_congr hareas]
    by_cases hlt : cnt ftl .zrwaZone < total ftl .zrwaZone
    · have hlast : ¬LastArea ftl := fun hlast => hsafe ⟨htakes, hlast⟩
      rw [LastArea] at hlast
      rw [acquire_of_lt hlt, Bool.eq_iff_iff, isZoneResourceFull_iff, isZoneResourceFull_iff,
        cnt_acquired_self, total_acquired]
      omega
    · rw [acquire_of_not_lt hlt]
  · rw [areasAfter, if_neg htakes] at hareas
    exact isZoneResourceFull_congr hareas

/-- Two commands that compete for the last random write area. -/
def Competing (dev : ZonedDevice) (ftl : ZnsFtl) (first second : ZnsCommand) : Prop :=
  TakesZrwa first (ftl.zoneDescs (target dev first)) ∧
    TakesZrwa second (ftl.zoneDescs (target dev second)) ∧ LastArea ftl

theorem Local.actsOn_after (hfirst : Local dev ftl first) (hsecond : Local dev ftl second)
    (h : Limited dev ftl) (hbuffer : dev.zpp.zoneWbSize ≠ 0)
    (hne : target dev second ≠ target dev first) (hsafe : ¬Competing dev ftl first second)
    (hrun : perform dev.spp dev.zpp first ftl = .ok (a, ftl')) :
    ActsOn zoneOf (perform dev.spp dev.zpp second) (target dev second)
      (zoneCommand dev.spp dev.zpp (target dev second) (isZoneResourceFull ftl .zrwaZone) second)
      ftl' := by
  have hlimited := perform_limited h (.inr hfirst.range) hrun
  obtain ⟨hlocal, hdesc⟩ := hfirst.after hsecond h hbuffer hne hrun
  have hacts := (hlocal.performs hlimited hbuffer).actsOn
  by_cases htakes : TakesZrwa second (ftl.zoneDescs (target dev second))
  · have hareas := (hfirst.performs h hbuffer).areas_eq hrun
    rwa [full_after hareas fun hfirst => hsafe ⟨hfirst.1, htakes, hfirst.2⟩] at hacts
  · refine hacts.congr (zoneCommand_congr ?_ _ _)
    rw [zoneOf, hdesc]
    exact htakes

theorem inTurn_eq (hfirst : Local dev ftl first) (hsecond : Local dev ftl second)
    (h : Limited dev ftl) : inTurn dev.spp dev.zpp first second ftl =
      ((inOrder (perform dev.spp dev.zpp first) (perform dev.spp dev.zpp second) ftl).map
        fun r => (r.1, zoneOf r.2)).map fun r => (r.1, observedZones dev r.2) := by
  rw [inTurn, inOrder]
  cases hrun : perform dev.spp dev.zpp first ftl with
  | error e => rfl
  | ok answer =>
      have hmid := perform_limited h (.inr hfirst.range) hrun
      rw [ok_bind]
      cases hrun' : perform dev.spp dev.zpp second answer.2 with
      | error e => rfl
      | ok answer' =>
          have hlast := perform_limited hmid (.inr hsecond.range) hrun'
          exact congrArg (fun left => Except.ok (_, left)) hlast.observed_eq

theorem inTurn_comm (hfirst : Local dev ftl first) (hsecond : Local dev ftl second)
    (h : Limited dev ftl) (hbuffer : dev.zpp.zoneWbSize ≠ 0)
    (hne : target dev first ≠ target dev second) (hsafe : ¬Competing dev ftl first second) :
    inTurn dev.spp dev.zpp first second ftl =
      (inTurn dev.spp dev.zpp second first ftl).map fun r => ((r.1.2, r.1.1), r.2) := by
  have hsafe' : ¬Competing dev ftl second first := fun hno => hsafe ⟨hno.2.1, hno.1, hno.2.2⟩
  have hcomm := inOrder_comm hne (hfirst.performs h hbuffer).actsOn
    (hsecond.performs h hbuffer).actsOn
    (fun a s' hrun => hsecond.actsOn_after hfirst h hbuffer hne hsafe' hrun)
    (fun a s' hrun => hfirst.actsOn_after hsecond h hbuffer hne.symm hsafe hrun)
    (fun e e' he he' => ((zoneCommand_fault _ _).fault he).trans
      ((zoneCommand_fault _ _).fault he').symm)
  rw [inTurn_eq hfirst hsecond h, inTurn_eq hsecond hfirst h, hcomm]
  cases inOrder (perform dev.spp dev.zpp second) (perform dev.spp dev.zpp first) ftl with
  | error e => rfl
  | ok r => rfl

theorem Competing.answers (hcompeting : Competing dev ftl first second)
    (hfirst : Local dev ftl first) (hsecond : Local dev ftl second) (h : Limited dev ftl)
    (hbuffer : dev.zpp.zoneWbSize ≠ 0) (hne : target dev second ≠ target dev first) :
    ∃ left, inTurn dev.spp dev.zpp first second ftl =
      .ok (((some { status := .success, result := 0 }, first),
        some { status := .zrwaRsrcUnavail, result := 0 }, second), left) := by
  obtain ⟨htakes, htakes', hlast⟩ := hcompeting
  have hfree : isZoneResourceFull ftl .zrwaZone = false := by
    rw [← Bool.not_eq_true, isZoneResourceFull_iff]
    rw [LastArea] at hlast
    omega
  obtain ⟨mid, hrun⟩ := (hfirst.performs h hbuffer).takes htakes
  obtain ⟨hlocal, hdesc⟩ := hfirst.after hsecond h hbuffer hne hrun
  have hmid := perform_limited h (.inr hfirst.range) hrun
  have hareas := (hfirst.performs h hbuffer).areas_eq hrun
  have hfull : isZoneResourceFull mid .zrwaZone = true := by
    rw [LastArea] at hlast
    rw [areasAfter, if_pos htakes, acquire_of_lt (by omega)] at hareas
    rw [isZoneResourceFull_congr hareas, isZoneResourceFull_iff, cnt_acquired_self,
      total_acquired, hlast]
  rw [← hdesc] at htakes'
  obtain ⟨last, hrun'⟩ := (hlocal.performs hmid hbuffer).takes htakes'
  rw [hfree] at hrun
  rw [hfull] at hrun'
  refine ⟨observed last, ?_⟩
  rw [inTurn, inOrder, hrun, ok_bind, hrun']
  rfl

/-- Two commands on different zones can be exchanged exactly when they do not
compete for the last random write area. -/
theorem zone_commands_commute_iff {events : List ZnsEvent} {storage : Nat → UInt8}
    (hrange : ∀ e ∈ events, EventInRange dev e)
    (hrun : znsRun dev.spp dev.zpp (znsInitFtl dev.spp dev.zpp storage) events = .ok ftl)
    (hbuffer : dev.zpp.zoneWbSize ≠ 0)
    (hplain : ∀ z, z < dev.zpp.nrZones → (ftl.zoneDescs z).zrwav = false)
    (hfirst : IsZoneCommand first ∧ first.slba < dev.zpp.nrZones * byteToLba dev.zpp.zoneSize)
    (hsecond : IsZoneCommand second ∧
      second.slba < dev.zpp.nrZones * byteToLba dev.zpp.zoneSize)
    (hne : target dev first ≠ target dev second) :
    (inTurn dev.spp dev.zpp first second ftl =
        (inTurn dev.spp dev.zpp second first ftl).map fun r => ((r.1.2, r.1.1), r.2)) ↔
      ¬Competing dev ftl first second := by
  have h := znsRun_limited (znsInitFtl_limited dev storage) hrange hrun
  have hlocal : ∀ cmd, IsZoneCommand cmd ∧
      cmd.slba < dev.zpp.nrZones * byteToLba dev.zpp.zoneSize → Local dev ftl cmd :=
    fun cmd hcmd => ⟨hcmd.1, hcmd.2, hplain _ (lbaToZone_lt hcmd.2)⟩
  constructor
  · intro hsame hcompeting
    obtain ⟨left, hleft⟩ := hcompeting.answers (hlocal _ hfirst) (hlocal _ hsecond) h hbuffer
      hne.symm
    have hcompeting' : Competing dev ftl second first :=
      ⟨hcompeting.2.1, hcompeting.1, hcompeting.2.2⟩
    obtain ⟨left', hleft'⟩ := hcompeting'.answers (hlocal _ hsecond) (hlocal _ hfirst) h hbuffer
      hne
    rw [hleft, hleft'] at hsame
    cases hsame
  · exact inTurn_comm (hlocal _ hfirst) (hlocal _ hsecond) h hbuffer hne

/-- Two zones of 16 blocks with write buffers of their own and random write areas. -/
def twoBufferedZones : ZonedDevice where
  spp := twoZones.spp
  zpp :=
    { twoZones.zpp with
      zoneWbSize := 8192
      zrwaSize := 8192
      zrwaBufferSize := 16384
      lbasPerZrwa := 16 }
  secsz_eq := twoZones.secsz_eq
  secsPerPg_eq := twoZones.secsPerPg_eq
  pgsz_eq := twoZones.pgsz_eq
  zoneSize_pos := by decide
  zoneSize_aligned := rfl
  lbaSpace := by decide

theorem zone_commands_commute_append :
    ∃ ftl, znsRun twoBufferedZones.spp twoBufferedZones.zpp
        (znsInitFtl twoBufferedZones.spp twoBufferedZones.zpp fun _ => 0)
        [.cmd (command .write 0 7 (.other 0)), .release 0] = .ok ftl ∧
      inTurn twoBufferedZones.spp twoBufferedZones.zpp (command .zoneAppend 3 7 (.other 0))
          (command .zoneMgmtSend 16 0 .openZone) ftl =
        (inTurn twoBufferedZones.spp twoBufferedZones.zpp (command .zoneMgmtSend 16 0 .openZone)
          (command .zoneAppend 3 7 (.other 0)) ftl).map fun r => ((r.1.2, r.1.1), r.2) := by
  let plain (s : ZnsFtl) : Bool := !(s.zoneDescs 0).zrwav && !(s.zoneDescs 1).zrwav
  obtain ⟨ftl, hrun, htest⟩ : ∃ ftl, znsRun twoBufferedZones.spp twoBufferedZones.zpp
      (znsInitFtl twoBufferedZones.spp twoBufferedZones.zpp fun _ => 0)
      [.cmd (command .write 0 7 (.other 0)), .release 0] = .ok ftl ∧ plain ftl = true :=
    exists_of_returns (by decide +kernel)
  simp only [plain, Bool.and_eq_true, Bool.not_eq_true'] at htest
  refine ⟨ftl, hrun, (zone_commands_commute_iff ?_ hrun (by decide) ?_ ?_ ?_ ?_).2 ?_⟩
  · intro e he
    simp only [List.mem_cons, List.not_mem_nil, or_false] at he
    rcases he with rfl | rfl
    · exact .inr (by decide)
    · trivial
  · intro z hz
    have hcases : z = 0 ∨ z = 1 := by
      change z < 2 at hz
      omega
    rcases hcases with rfl | rfl
    · exact htest.1
    · exact htest.2
  · decide
  · decide
  · decide
  · rintro ⟨⟨hop, -⟩, -⟩
    cases hop

/-- A random write area that the first zone has kept leaves one to two opens, and it
goes to the one that comes first. -/
theorem last_area_depends_on_order :
    ∃ ftl, znsRun twoBufferedZones.spp twoBufferedZones.zpp
        (znsInitFtl twoBufferedZones.spp twoBufferedZones.zpp fun _ => 0)
        [.cmd (sendToFirst .openZone true), .cmd (command .write 0 15 (.other 0)),
          .cmd (sendToFirst .resetZone false)] = .ok ftl ∧
      (ftl.zoneDescs 0).zrwav = false ∧ (ftl.zoneDescs 1).zrwav = false ∧
      inTurn twoBufferedZones.spp twoBufferedZones.zpp (sendToFirst .openZone true)
          { sendToFirst .openZone true with slba := 16 } ftl ≠
        (inTurn twoBufferedZones.spp twoBufferedZones.zpp
          { sendToFirst .openZone true with slba := 16 } (sendToFirst .openZone true) ftl).map
          fun r => ((r.1.2, r.1.1), r.2) := by
  let test (s : ZnsFtl) : Bool :=
    !(s.zoneDescs 0).zrwav && !(s.zoneDescs 1).zrwav &&
      returns (inTurn twoBufferedZones.spp twoBufferedZones.zpp (sendToFirst .openZone true)
        { sendToFirst .openZone true with slba := 16 } s)
        (fun r => decide (r.1.1.1 = some { status := .success, result := 0 })) &&
      returns (inTurn twoBufferedZones.spp twoBufferedZones.zpp
        { sendToFirst .openZone true with slba := 16 } (sendToFirst .openZone true) s)
        fun r => decide (r.1.2.1 = some { status := .zrwaRsrcUnavail, result := 0 })
  obtain ⟨ftl, hrun, htest⟩ : ∃ ftl, znsRun twoBufferedZones.spp twoBufferedZones.zpp
      (znsInitFtl twoBufferedZones.spp twoBufferedZones.zpp fun _ => 0)
      [.cmd (sendToFirst .openZone true), .cmd (command .write 0 15 (.other 0)),
        .cmd (sendToFirst .resetZone false)] = .ok ftl ∧ test ftl = true :=
    exists_of_returns (by decide +kernel)
  simp only [test, Bool.and_eq_true, Bool.not_eq_true'] at htest
  obtain ⟨⟨⟨hfirst, hsecond⟩, hforward⟩, hbackward⟩ := htest
  refine ⟨ftl, hrun, hfirst, hsecond, fun hsame => ?_⟩
  obtain ⟨r, hr, hanswer⟩ := exists_of_returns hforward
  obtain ⟨r', hr', hanswer'⟩ := exists_of_returns hbackward
  rw [hr, hr'] at hsame
  obtain rfl := Except.ok.inj hsame
  rw [decide_eq_true_eq] at hanswer hanswer'
  rw [hanswer'] at hanswer
  cases hanswer

end Exchange

end NvmeVirt.ZonedCommutation
