import NvmeVirt.ZoneBuffers

namespace NvmeVirt.ZoneResets

open DescriptorSteps
open FaultOutcome
open Relation (ReflTransGen)
open WriteBuffer
open ZonedAccounting
open ZonedFtl
open ZonedRuns (command)
open ZoneAddressing
open ZoneArray
open ZoneBuffers
open ZoneFill
open ZoneWrites

variable {dev : FittingGeometry} {z : Nat} {ftl ftl' : ZnsFtl} {e : ZnsEvent} {cmd : ZnsCommand}

/-- A write or append to zone `z` that does not go to a random write area. -/
def WritesZone (dev : FittingGeometry) (z : Nat) (ftl : ZnsFtl) (cmd : ZnsCommand) : Prop :=
  (cmd.opcode = .write ∨ cmd.opcode = .zoneAppend) ∧ lbaToZone dev.spp dev.zpp cmd.slba = z ∧
    (ftl.zoneDescs z).zrwav = false

/-- A step in which writes and appends to zone `z` are of whole pages and succeed. -/
structure PageStep (dev : FittingGeometry) (z : Nat) (ftl : ZnsFtl) (e : ZnsEvent)
    (ftl' : ZnsFtl) : Prop where
  step : znsStep dev.spp dev.zpp ftl e = .ok ftl'
  pages : ∀ cmd, e = .cmd cmd → WritesZone dev z ftl cmd → PageWrite dev z ftl cmd ftl'

/-- A reset finds complete pages in the zone, and a write or append finds the write
pointer before the end of the zone, as it does in every zone that starts below LBA
2^32. -/
structure Returning (dev : FittingGeometry) (z : Nat) (ftl : ZnsFtl) (e : ZnsEvent) : Prop where
  complete : ∀ cmd, e = .cmd cmd → ResetsZone dev z cmd →
    CompletePages dev z (ftl.zoneDescs z)
  inside : ∀ cmd, e = .cmd cmd → WritesZone dev z ftl cmd →
    z * dev.zoneLbas < 2 ^ 32 ∨ (ftl.zoneDescs z).wp < z * dev.zoneLbas + dev.zoneLbas

section Steps

theorem sum_filter_eraseIdx {α : Type} [DecidableEq α] {l : List (α × Nat)} {i : Nat} {a b : α}
    {bytes : Nat} (h : l[i]? = some (a, bytes)) :
    ((l.filter fun entry => entry.1 = b).map Prod.snd).sum =
      (if a = b then bytes else 0) +
        (((l.eraseIdx i).filter fun entry => entry.1 = b).map Prod.snd).sum := by
  obtain ⟨hi, hget⟩ := List.getElem?_eq_some_iff.1 h
  have hperm := List.getElem_cons_eraseIdx_perm hi
  rw [hget] at hperm
  rw [← ((hperm.filter _).map Prod.snd).sum_eq, List.filter_cons]
  by_cases hab : a = b
  · simp [hab]
  · simp [hab]

theorem books_release {i : Nat} (h : Books dev z ftl)
    (hstep : znsStep dev.spp dev.zpp ftl (.release i) = .ok ftl') : Books dev z ftl' := by
  rw [znsStep] at hstep
  split at hstep
  · cases hstep
    exact h
  · next ref bytes hentry =>
    cases hstep
    have hsum := sum_filter_eraseIdx (b := .zoneWriteBuffer z) hentry
    change pendingBytes z ftl = _ + pendingBytes z { ftl with pending := ftl.pending.eraseIdx i }
      at hsum
    refine Account.same_sum h ?_ ?_
    · by_cases href : ref = .zoneWriteBuffer z
      · subst href
        simp [ZnsFtl.setBuffer, bufferRelease]
      · simp [ZnsFtl.setBuffer, Ne.symm href]
    · rw [hsum]
      by_cases href : ref = .zoneWriteBuffer z
      · subst href
        simp [ZnsFtl.setBuffer, bufferRelease, pendingBytes, Nat.add_assoc]
      · simp [ZnsFtl.setBuffer, Ne.symm href, href, pendingBytes]

theorem pageWrite_books (hz : z < dev.zpp.nrZones) (hbuffer : dev.zpp.zoneWbSize ≠ 0)
    (h : Books dev z ftl) (hwrite : PageWrite dev z ftl cmd ftl')
    (hinside : (ftl.zoneDescs z).wp < z * dev.zoneLbas + dev.zoneLbas) :
    Books dev z ftl' := by
  obtain ⟨buf, slba, hsize, htaken, hcommit⟩ := hwrite.accepted.taken
  have href : writeBufferRef dev.zpp z = .zoneWriteBuffer z := if_neg hbuffer
  rw [href] at hsize htaken hcommit
  obtain ⟨n, -, hwp, hbalance⟩ := h.plain hwrite.plain
  obtain ⟨k, hk, hlen⟩ : ∃ k, 0 < k ∧ cmd.nrLba = 8 * k := by
    have hpos := (ZonedAccounting.ZnsCommand.nrLba_bounds cmd).1
    have hpages := hwrite.pages
    exact ⟨cmd.nrLba / 8, by omega, by omega⟩
  have hslba : slba = z * dev.zoneLbas + 8 * n := hcommit.slba_eq.trans hwp
  have hspace := dev.space_lt
  have hend := dev.zone_end_le hz
  have hlbas := dev.zoneLbas_eq
  rw [hwp] at hinside
  have hfits : n + k ≤ dev.zonePages := by
    have hbytes := ZonedAccounting.ZnsCommand.nrLba_bounds cmd
    have hzone : lbaToZone dev.spp dev.zpp slba = z :=
      lbaToZone_of_mem hz (by omega) (by omega)
    obtain ⟨-, -, hlast⟩ := range_of_checkBoundaryError (show slba < dev.space by omega) hbytes.1
      hbytes.2 hcommit.boundary
    rw [hzone] at hlast
    omega
  have hsum := releasesOf_balance hz hk hfits
  have hpending : pendingBytes z ftl' = pendingBytes z ftl +
      (releasesOf dev.spp dev.zpp z (z * dev.zoneLbas + 8 * n) (8 * k)).sum := by
    have hscheduled := pendingBytes_schedule z ftl (.zoneWriteBuffer z)
      (releasesOf dev.spp dev.zpp z slba cmd.nrLba)
    rw [if_pos rfl] at hscheduled
    rw [← hslba, ← hlen, ← hscheduled, pendingBytes, hcommit.pending, href]
    rfl
  have hbuf : ftl'.buffers (.zoneWriteBuffer z) = buf := by
    rw [hcommit.buffers]
    exact Function.update_self ..
  have hmoved : (ftl'.zoneDescs z).wp = z * dev.zoneLbas + 8 * (n + k) := by
    have hadvanced := hcommit.wp
    change _ = ((ftl.zoneDescs z).wp + cmd.nrLba) % 2 ^ 64 at hadvanced
    rw [hadvanced, hwp, hlen, Nat.mod_eq_of_lt (by omega)]
    omega
  rw [Books, hbuf]
  refine ⟨hcommit.zslba.trans h.zslba_eq, hsize.trans h.size_eq, ?_, ?_, ?_⟩
  · intro hempty
    exact absurd hempty hcommit.started
  · intro hzrwa
    have hplain := hcommit.zrwav.trans hwrite.plain
    rw [hzrwa] at hplain
    cases hplain
  · intro _
    refine ⟨n + k, hfits, hmoved, ?_⟩
    have hbytes : lbaToByte cmd.nrLba = k * 4096 := by
      rw [hlen, lbaToByte]
      omega
    rw [hbytes] at htaken
    rw [hpending]
    omega

theorem pageWrite_inside (hwrite : PageWrite dev z ftl cmd ftl') (h : Books dev z ftl)
    (hfull : EndIsFull dev.toZoneGeometry z (ftl.zoneDescs z)) (hz : z < dev.zpp.nrZones) :
    (ftl.zoneDescs z).wp < z * dev.zoneLbas + dev.zoneLbas := by
  obtain ⟨buf, slba, -, -, hcommit⟩ := hwrite.accepted.taken
  obtain ⟨n, hn, hwp, -⟩ := h.plain hwrite.plain
  have hlbas := dev.zoneLbas_eq
  have hnot : (ftl.zoneDescs z).wp ≠ z * dev.zoneLbas + dev.zoneLbas :=
    fun hend => hcommit.writable (hfull.full hz hend)
  omega

theorem books_step (hz : z < dev.zpp.nrZones) (hbuffer : dev.zpp.zoneWbSize ≠ 0)
    (h : Books dev z ftl)
    (hfull : z * dev.zoneLbas < 2 ^ 32 → EndIsFull dev.toZoneGeometry z (ftl.zoneDescs z))
    (hstep : PageStep dev z ftl e ftl') (hreturning : Returning dev z ftl e) :
    Books dev z ftl' := by
  obtain ⟨hrun, hpages⟩ := hstep
  obtain ⟨hcomplete, hinside⟩ := hreturning
  cases e with
  | release i => exact books_release h hrun
  | cmd cmd =>
      by_cases hwrites : WritesZone dev z ftl cmd
      · have hwrite := hpages cmd rfl hwrites
        refine pageWrite_books hz hbuffer h hwrite ?_
        rcases hinside cmd rfl hwrites with hstart | hbefore
        · exact pageWrite_inside hwrite h (hfull hstart) hz
        · exact hbefore
      obtain ⟨⟨reply, cmd', last⟩, hcmd, hlast⟩ := exists_of_bind_eq_ok hrun
      cases hlast
      have hwrite : (cmd.opcode = .write ∨ cmd.opcode = .zoneAppend) →
          znsWrite dev.spp dev.zpp ftl cmd = .ok (reply, cmd', ftl') → Books dev z ftl' := by
        intro hop hcmd
        rw [znsWrite, lpnToZone_lbaToLpn] at hcmd
        by_cases hzone : lbaToZone dev.spp dev.zpp cmd.slba = z
        · rw [hzone] at hcmd
          cases hzrwa : (ftl.zoneDescs z).zrwav with
          | true =>
              rw [hzrwa, if_pos rfl] at hcmd
              exact h.keeps ((znsWriteZrwa_keeps hzone hzrwa).value hcmd)
          | false => exact absurd ⟨hop, hzone, hzrwa⟩ hwrites
        · split at hcmd
          · exact h.keeps (((znsWriteZrwa_quiet z).value hcmd).keeps
              (znsWriteZrwa_frame (Ne.symm hzone) hcmd))
          · have href : writeBufferRef dev.zpp (lbaToZone dev.spp dev.zpp cmd.slba) ≠
                .zoneWriteBuffer z := by
              rw [writeBufferRef, if_neg hbuffer]
              simpa using hzone
            exact h.keeps (((znsWritePlain_quiet href).value hcmd).keeps
              (znsWritePlain_frame (Ne.symm hzone) hcmd))
      rw [znsProcNvmeIoCmd] at hcmd
      cases hop : cmd.opcode with
      | write =>
          simp only [hop] at hcmd
          exact hwrite (.inl hop) hcmd
      | zoneAppend =>
          simp only [hop] at hcmd
          exact hwrite (.inr hop) hcmd
      | zoneMgmtSend =>
          simp only [hop] at hcmd
          obtain ⟨⟨status, sent⟩, hsend, hsent⟩ := exists_of_bind_eq_ok hcmd
          cases hsent
          exact (znsZmgmtSend_books h hop (hcomplete cmd rfl)).value hsend
      | read | flush | zoneMgmtRecv | other code =>
          simp only [hop] at hcmd
          cases hcmd
          exact h

end Steps

section Runs

theorem books_init (dev : FittingGeometry) (z : Nat) (storage : Nat → UInt8) :
    Books dev z (znsInitFtl dev.spp dev.zpp storage) where
  zslba_eq := rfl
  size_eq := rfl
  empty _ := rfl
  area := nofun
  plain _ := by
    refine ⟨0, Nat.zero_le _, rfl, ?_⟩
    rw [releasedBy_zero]
    rfl

theorem books_run (hz : z < dev.zpp.nrZones) (hbuffer : dev.zpp.zoneWbSize ≠ 0)
    {storage : Nat → UInt8}
    (hrun : ReflTransGen (fun s s' => ∃ e, PageStep dev z s e s' ∧ Returning dev z s e)
      (znsInitFtl dev.spp dev.zpp storage) ftl) :
    Books dev z ftl ∧
      (z * dev.zoneLbas < 2 ^ 32 → EndIsFull dev.toZoneGeometry z (ftl.zoneDescs z)) := by
  induction hrun with
  | refl => exact ⟨books_init dev z storage, fun _ => initialDesc_endIsFull dev.toZoneGeometry z⟩
  | tail _ hlast ih =>
      obtain ⟨hbooks, hfull⟩ := ih
      obtain ⟨e, hstep, hreturning⟩ := hlast
      refine ⟨books_step hz hbuffer hbooks hfull hstep hreturning, fun hstart => ?_⟩
      have hevolves := (znsStep_evolves e).value hstep.step
      refine hevolves.invariant
        (P := fun zid desc => zid = z → EndIsFull dev.toZoneGeometry zid desc) ?_
        (fun _ => hfull hstart) rfl
      rintro zid desc desc' hdesc hkept rfl
      exact EndIsFull.step (fun _ => hstart) hdesc (hkept rfl)

theorem pendingBytes_of_drained (h : ∀ entry ∈ ftl.pending, entry.1 ≠ .zoneWriteBuffer z) :
    pendingBytes z ftl = 0 := by
  rw [pendingBytes, List.filter_eq_nil_iff.2 fun entry hentry => by simpa using h entry hentry]
  rfl

end Runs

section Examples

/-- Two zones of four pages, in one-shot pages of two, each with a write buffer of
16 KiB. -/
def bufferedZones : FittingGeometry where
  spp := { twoZoneArray.spp with pgsPerOneshotpg := 2 }
  zpp := { twoZoneArray.zpp with zoneSize := 16384, zoneWbSize := 16384 }
  secsz_eq := rfl
  secsPerPg_eq := rfl
  pgsz_eq := rfl
  zoneSize_pos := by decide
  zoneSize_aligned := rfl
  zoneSize_lt := by decide
  nrZones_lt := by decide
  oneshot_pos := by decide
  oneshot_lt := by decide
  oneshot_le := by decide

def resetCommand : ZnsCommand := command .zoneMgmtSend 0 0 .resetZone

theorem pageStep_of_write {r : Reply} {cmd' : ZnsCommand}
    (hrun : znsProcNvmeIoCmd dev.spp dev.zpp ftl cmd = .ok (some r, cmd', ftl'))
    (hpages : cmd.nrLba % 8 = 0) (hsuccess : r.status = .success) :
    PageStep dev z ftl (.cmd cmd) ftl' where
  step := by
    rw [znsStep, hrun]
    rfl
  pages := by
    intro cmd heq hwrites
    cases heq
    exact ⟨hwrites.1, hwrites.2.1, hwrites.2.2, hpages, _, _, hrun, hsuccess⟩

theorem pageStep_of_other (hstep : znsStep dev.spp dev.zpp ftl e = .ok ftl')
    (hother : ∀ cmd, e = .cmd cmd → ¬WritesZone dev z ftl cmd) : PageStep dev z ftl e ftl' :=
  ⟨hstep, fun cmd heq hwrites => absurd hwrites (hother cmd heq)⟩

theorem not_writes_reset : ¬WritesZone bufferedZones 0 ftl resetCommand := by
  rintro ⟨hop | hop, -⟩
  · cases hop
  · cases hop

/-- A write of `length + 1` blocks, a reset and a release, from the initial state. -/
theorem exists_cycle (length : Nat) (p : ZnsFtl → ZnsFtl → Bool)
    (hpages : (command .write 0 length (.other 0)).nrLba % 8 = 0)
    (hrun : returns (znsProcNvmeIoCmd bufferedZones.spp bufferedZones.zpp
      (znsInitFtl bufferedZones.spp bufferedZones.zpp fun _ => 0)
      (command .write 0 length (.other 0))) (fun answer =>
        answer.1.any (fun r => r.status == .success) &&
        returns (znsStep bufferedZones.spp bufferedZones.zpp answer.2.2 (.cmd resetCommand))
          fun cleared => returns
            (znsStep bufferedZones.spp bufferedZones.zpp cleared (.release 0)) (p answer.2.2)) =
      true) :
    ∃ written cleared ftl,
      PageStep bufferedZones 0 (znsInitFtl bufferedZones.spp bufferedZones.zpp fun _ => 0)
        (.cmd (command .write 0 length (.other 0))) written ∧
      PageStep bufferedZones 0 written (.cmd resetCommand) cleared ∧
      PageStep bufferedZones 0 cleared (.release 0) ftl ∧ p written ftl = true := by
  obtain ⟨⟨reply, cmd', written⟩, hwrite, hrest⟩ := exists_of_returns hrun
  obtain ⟨hsuccess, hrest⟩ := Bool.and_eq_true_iff.1 hrest
  obtain ⟨cleared, hreset, hrest⟩ := exists_of_returns hrest
  obtain ⟨ftl, hrelease, hlast⟩ := exists_of_returns hrest
  obtain ⟨r, rfl, hstatus⟩ := (Option.any_eq_true _ _).1 hsuccess
  refine ⟨written, cleared, ftl, ?_, ?_, ?_, hlast⟩
  · exact pageStep_of_write hwrite hpages (by simpa using hstatus)
  · refine pageStep_of_other hreset ?_
    rintro cmd heq
    cases heq
    exact not_writes_reset
  · exact pageStep_of_other hrelease nofun

end Examples

end NvmeVirt.ZoneResets
