import NvmeVirt.BusyTimes
import NvmeVirt.NandTiming

namespace NvmeVirt.NandTiming

open NvmeVirt.BusyTimes
open NvmeVirt.ChannelModel
open NvmeVirt.ConventionalFtl
open NvmeVirt.FaultOutcome
open NvmeVirt.FlashGeometry
open NvmeVirt.WriteBuffer

def Fits (sums : List Nat) : Prop := ∀ x ∈ sums, x < 2 ^ 64

/-- All credit models can serve requests, whatever their load. -/
structure Working (s : NandTimes) : Prop where
  perfModel : ∀ part ch, Ready (s.perfModel part ch)
  pcie : Ready s.pcie

section Sums

variable {sums more : List Nat} {x : Nat}

theorem fits_append : Fits (sums ++ more) ↔ Fits sums ∧ Fits more := by
  simp only [Fits, List.mem_append, or_imp, forall_and]

theorem fits_cons : Fits (x :: sums) ↔ x < 2 ^ 64 ∧ Fits sums := by
  simp only [Fits, List.mem_cons, forall_eq_or_imp]

theorem le_wrapped {a b : Nat} (h : a + b < 2 ^ 64) : a ≤ (a + b) % 2 ^ 64 := by
  rw [Nat.mod_eq_of_lt h]
  exact Nat.le_add_right a b

end Sums

section Setters

variable {s : NandTimes} {part ch lun time : Nat} {model : Channel}

@[simp] theorem setAvail_self :
    (s.setAvail part ch lun time).nextLunAvailTime part ch lun = time :=
  if_pos ⟨rfl, rfl, rfl⟩

theorem setAvail_other {p c l : Nat} (h : ¬(p = part ∧ c = ch ∧ l = lun)) :
    (s.setAvail part ch lun time).nextLunAvailTime p c l = s.nextLunAvailTime p c l :=
  if_neg h

@[simp] theorem setPerfModel_avail :
    (s.setPerfModel part ch model).nextLunAvailTime = s.nextLunAvailTime :=
  rfl

theorem Working.setAvail (h : Working s) : Working (s.setAvail part ch lun time) :=
  ⟨h.perfModel, h.pcie⟩

theorem Working.setPerfModel (h : Working s) (part ch : Nat) (hmodel : Ready model) :
    Working (s.setPerfModel part ch model) := by
  refine ⟨fun p c => ?_, h.pcie⟩
  rw [NandTimes.setPerfModel]
  dsimp only
  split
  · exact hmodel
  · exact h.perfModel p c

end Setters

section Advance

variable {s : NandTimes}

/-- What a piece of a transfer changes: only the credit models, and the times
of the transfer go forward. -/
structure Transferred (t t' : Transfer) : Prop where
  working : Working t'.times
  avail : t'.times.nextLunAvailTime = t.times.nextLunAvailTime
  sums : ∃ more, t'.sums = t.sums ++ more
  forward : Fits t'.sums → t.chnlTime ≤ t'.chnlTime

theorem transferPiece_spec (part ch : Nat) (interleave : Bool) (clock : Nat → Nat) {t : Transfer}
    (h : Working t.times) (round xferSize : Nat) :
    ∃ t', transferPiece part ch interleave clock round t xferSize = .ok t' ∧
      Transferred t t' ∧ (Fits t'.sums → t'.chnlTime ≤ t'.completedTime) := by
  obtain ⟨reply, hreply, hready, htime⟩ := chmodelRequest_ready (h.perfModel part ch)
    (clock (2 * round + 1)) t.chnlTime xferSize
  have hmodels := h.setPerfModel part ch hready
  cases interleave with
  | false =>
      rw [transferPiece, hreply, ok_bind]
      refine ⟨_, rfl, ⟨hmodels, rfl, ⟨_, rfl⟩, fun hfits => ?_⟩, fun _ => Nat.le_refl _⟩
      have hsum := (fits_cons.1 (fits_append.1 hfits).2).1
      exact htime hsum
  | true =>
      obtain ⟨dma, hdma, hready', htime'⟩ := chmodelRequest_ready h.pcie
        (clock (2 * round + 2)) reply.time xferSize
      have hpcie : ssdAdvancePcie (t.times.setPerfModel part ch reply.channel)
          (clock (2 * round + 2)) reply.time xferSize =
          .ok ({ t.times.setPerfModel part ch reply.channel with pcie := dma.channel }, dma) := by
        rw [ssdAdvancePcie]
        exact congrArg (· >>= _) hdma
      rw [transferPiece, hreply, ok_bind, if_pos rfl, hpcie, ok_bind]
      refine ⟨_, rfl, ⟨⟨hmodels.perfModel, hready'⟩, rfl, ⟨_, rfl⟩, fun hfits => ?_⟩,
        fun hfits => ?_⟩
      · have hsum := (fits_cons.1 (fits_append.1 hfits).2).1
        exact htime hsum
      · have hsum := (fits_cons.1 (fits_cons.1 (fits_append.1 hfits).2).2).1
        exact htime' hsum

theorem Transferred.trans {t t' t'' : Transfer} (h : Transferred t t')
    (h' : Transferred t' t'') : Transferred t t'' := by
  obtain ⟨more, hmore⟩ := h.sums
  obtain ⟨more', hmore'⟩ := h'.sums
  refine ⟨h'.working, h'.avail.trans h.avail, ⟨more ++ more', ?_⟩, fun hfits => ?_⟩
  · rw [hmore', hmore, List.append_assoc]
  · have hbefore : Fits t'.sums := (fits_append.1 (hmore' ▸ hfits)).1
    exact Nat.le_trans (h.forward hbefore) (h'.forward hfits)

theorem transferLoop_spec (lat : NandLatencies) (part ch : Nat) (interleave : Bool)
    (clock : Nat → Nat) {fuel remaining : Nat} (round : Nat) {t : Transfer}
    (h : Working t.times) (hfuel : remaining < fuel) :
    ∃ t', transferLoop lat part ch interleave clock fuel round t remaining = .ok t' ∧
      Transferred t t' ∧
      (0 < remaining ∨ t.chnlTime ≤ t.completedTime → Fits t'.sums →
        t'.chnlTime ≤ t'.completedTime) := by
  induction fuel generalizing remaining round t with
  | zero => omega
  | succ fuel ih =>
      rw [transferLoop]
      by_cases hdone : remaining = 0
      · rw [if_pos hdone]
        refine ⟨t, rfl, ⟨h, rfl, ⟨[], (List.append_nil _).symm⟩, fun _ => Nat.le_refl _⟩, ?_⟩
        intro hset _
        exact hset.resolve_left (by omega)
      · have hpos := lat.maxChXferSize_pos
        obtain ⟨t', ht', hpiece, hcompleted⟩ := transferPiece_spec part ch interleave clock
          h round (min remaining lat.maxChXferSize)
        obtain ⟨t'', ht'', hrest, hset⟩ := ih (round + 1) hpiece.working
          (show remaining - min remaining lat.maxChXferSize < fuel by omega)
        rw [if_neg hdone]
        dsimp only
        rw [ht', ok_bind]
        refine ⟨t'', ht'', hpiece.trans hrest, fun _ hfits => ?_⟩
        obtain ⟨more, hmore⟩ := hrest.sums
        exact hset (.inr (hcompleted (fits_append.1 (hmore ▸ hfits)).1)) hfits

structure Serial (s : NandTimes) (part : Nat) (clock : Nat → Nat) (ncmd : TimedCmd)
    (ppa : Ppa) (reply : NandReply) : Prop where
  starts : ∃ start, reply.nandStime = some start ∧
    s.nextLunAvailTime part ppa.ch ppa.lun ≤ start
  left_ge : s.nextLunAvailTime part ppa.ch ppa.lun ≤
    reply.times.nextLunAvailTime part ppa.ch ppa.lun
  stime_le : cmdStime clock ncmd ≤ reply.completedTime
  covered : ncmd.cmd = .write ∨ ncmd.cmd = .erase →
    reply.completedTime ≤ reply.times.nextLunAvailTime part ppa.ch ppa.lun

structure Kept (s : NandTimes) (part : Nat) (ppa : Ppa) (reply : NandReply) : Prop where
  working : Working reply.times
  others : ∀ p c l, ¬(p = part ∧ c = ppa.ch ∧ l = ppa.lun) →
    reply.times.nextLunAvailTime p c l = s.nextLunAvailTime p c l

theorem advanceLun_spec (spp : SsdParams) (lat : NandLatencies) (part : Nat) (clock : Nat → Nat)
    (h : Working s) {ncmd : TimedCmd} (ppa : Ppa) (hsize : ncmd.cmd = .read → 0 < ncmd.xferSize) :
    ∃ reply, advanceLun spp lat s part clock ncmd ppa = .ok reply ∧ Kept s part ppa reply ∧
      (Fits reply.sums → Serial s part clock ncmd ppa reply) := by
  obtain ⟨stime, hstime⟩ : ∃ stime, stime =
      max (s.nextLunAvailTime part ppa.ch ppa.lun) (cmdStime clock ncmd) := ⟨_, rfl⟩
  have havail : s.nextLunAvailTime part ppa.ch ppa.lun ≤ stime := hstime ▸ Nat.le_max_left _ _
  have hcmd : cmdStime clock ncmd ≤ stime := hstime ▸ Nat.le_max_right _ _
  rw [advanceLun, ← hstime]
  cases hop : ncmd.cmd with
  | read =>
      dsimp only
      have hpos := hsize hop
      obtain ⟨t, ht, htransfer, hset⟩ := transferLoop_spec lat part ppa.ch ncmd.interleavePciDma
        clock 0 (t := startTransfer s stime (readLatency spp lat ncmd ppa)) h
        (Nat.lt_succ_self ncmd.xferSize)
      rw [if_neg (by omega), ht, ok_bind]
      refine ⟨_, rfl, ⟨htransfer.working.setAvail, fun p c l hne => ?_⟩, fun hfits => ?_⟩
      · rw [setAvail_other hne, htransfer.avail]
        rfl
      · obtain ⟨more, hmore⟩ := htransfer.sums
        have hsensed : stime ≤ (startTransfer s stime (readLatency spp lat ncmd ppa)).chnlTime :=
          le_wrapped (fits_cons.1 (fits_append.1 (hmore ▸ hfits)).1).1
        have hleft : stime ≤ t.chnlTime := Nat.le_trans hsensed (htransfer.forward hfits)
        have hcompleted := hset (.inl hpos) hfits
        refine ⟨⟨stime, rfl, havail⟩, ?_, ?_, fun hwork => ?_⟩
        · rw [setAvail_self]
          exact Nat.le_trans havail hleft
        · exact Nat.le_trans hcmd (Nat.le_trans hleft hcompleted)
        · rw [hop] at hwork
          simp at hwork
  | write =>
      dsimp only
      obtain ⟨reply, hreply, hready, htime⟩ := chmodelRequest_ready (h.perfModel part ppa.ch)
        (clock 1) stime ncmd.xferSize
      rw [hreply, ok_bind]
      refine ⟨_, rfl, ⟨(h.setPerfModel part ppa.ch hready).setAvail, fun p c l hne => ?_⟩,
        fun hfits => ?_⟩
      · rw [setAvail_other hne, setPerfModel_avail]
      · obtain ⟨htransfer, hrest⟩ := fits_cons.1 hfits
        have hstart := htime htransfer
        have hdone : reply.time ≤ (reply.time + lat.pgWrLat) % 2 ^ 64 :=
          le_wrapped (fits_cons.1 hrest).1
        refine ⟨⟨reply.time, rfl, Nat.le_trans havail hstart⟩, ?_, ?_, fun _ => ?_⟩
        · rw [setAvail_self]
          exact Nat.le_trans havail (Nat.le_trans hstart hdone)
        · exact Nat.le_trans hcmd (Nat.le_trans hstart hdone)
        · rw [setAvail_self]
  | erase =>
      refine ⟨_, rfl, ⟨h.setAvail, fun p c l hne => setAvail_other hne⟩, fun hfits => ?_⟩
      have hdone : stime ≤ (stime + lat.blkErLat) % 2 ^ 64 := le_wrapped (fits_cons.1 hfits).1
      refine ⟨⟨stime, rfl, havail⟩, ?_, Nat.le_trans hcmd hdone, fun _ => ?_⟩
      · rw [setAvail_self]
        exact Nat.le_trans havail hdone
      · rw [setAvail_self]
  | nop =>
      refine ⟨_, rfl, ⟨h.setAvail, fun p c l hne => setAvail_other hne⟩, fun _ => ?_⟩
      refine ⟨⟨stime, rfl, havail⟩, ?_, hcmd, fun _ => ?_⟩
      · rw [setAvail_self]
        exact havail
      · rw [setAvail_self]

end Advance

section Flush

variable {spp : SsdParams} {s : NandTimes} {part ch lun : Nat}

theorem avail_le_ssdNextIdleTime (hch : ch < spp.nchs) (hlun : lun < spp.lunsPerCh)
    (ioclock : Nat) : s.nextLunAvailTime part ch lun ≤ ssdNextIdleTime spp s part ioclock := by
  refine le_foldl_of_mem ?_ (List.mem_range.2 hch) ?_ ioclock
  · intro latest c
    exact le_foldl (fun _ _ => Nat.le_max_left _ _) _ _
  · exact fun latest => le_idleTime (List.mem_range.2 hlun) latest

theorem avail_le_flushTarget {nrParts : Nat} (hpart : part < nrParts) (hch : ch < spp.nchs)
    (hlun : lun < spp.lunsPerCh) (start : Nat) (ioclock : Nat → Nat) :
    s.nextLunAvailTime part ch lun ≤ flushTarget spp s nrParts start ioclock := by
  refine le_foldl_of_mem ?_ (List.mem_range.2 hpart) ?_ start
  · exact fun _ _ => Nat.le_max_left _ _
  · intro latest
    exact Nat.le_trans (avail_le_ssdNextIdleTime hch hlun (ioclock part)) (Nat.le_max_right _ _)

end Flush

section Runs

/-- A call of `ssd_advance_nand` on one partition. -/
structure NandCall where
  part : Nat
  clock : Nat → Nat
  ncmd : TimedCmd

/-- What happens to the times of a namespace: NAND commands, from host writes,
reads or garbage collection, and transfers that use the PCIe link only. -/
inductive TimedEvent where
  | nand (call : NandCall)
  | pcie (clock requestTime length : Nat)

structure Issued where
  call : NandCall
  before : NandTimes
  reply : NandReply

structure TimedNs where
  times : NandTimes
  log : List Issued

/-- The command addresses a LUN of the namespace, and a read transfers
something. -/
def InRange (spp : SsdParams) (nrParts : Nat) (call : NandCall) : Prop :=
  call.part < nrParts ∧
    (∀ ppa, call.ncmd.ppa = some ppa → ppa.ch < spp.nchs ∧ ppa.lun < spp.lunsPerCh) ∧
    (call.ncmd.cmd = .read → 0 < call.ncmd.xferSize)

variable (spp : SsdParams) (lat : NandLatencies)

def timedStep (s : TimedNs) : TimedEvent → Except Fault TimedNs
  | .nand call => do
      let reply ← ssdAdvanceNand spp lat s.times call.part call.clock call.ncmd
      return { times := reply.times, log := s.log ++ [⟨call, s.times, reply⟩] }
  | .pcie clock requestTime length => do
      let (times, _) ← ssdAdvancePcie s.times clock requestTime length
      return { s with times := times }

def timedRun (times : NandTimes) (events : List TimedEvent) : Except Fault TimedNs :=
  events.foldlM (timedStep spp lat) { times := times, log := [] }

/-- What a single call does: the others keep their times, and its own LUN is
served in order. -/
structure WellServed (e : Issued) : Prop where
  stime_le : cmdStime e.call.clock e.call.ncmd ≤ e.reply.completedTime
  rises : ∀ p c l, e.before.nextLunAvailTime p c l ≤ e.reply.times.nextLunAvailTime p c l
  others : ∀ p c l, (∀ ppa, e.call.ncmd.ppa = some ppa →
      ¬(p = e.call.part ∧ c = ppa.ch ∧ l = ppa.lun)) →
    e.reply.times.nextLunAvailTime p c l = e.before.nextLunAvailTime p c l
  serial : ∀ ppa, e.call.ncmd.ppa = some ppa →
    Serial e.before e.call.part e.call.clock e.call.ncmd ppa e.reply

variable {spp} {nrParts : Nat} {s : TimedNs}

theorem ssdAdvanceNand_spec {times : NandTimes} (h : Working times) {call : NandCall}
    (hcall : InRange spp nrParts call) :
    ∃ reply, ssdAdvanceNand spp lat times call.part call.clock call.ncmd = .ok reply ∧
      Working reply.times ∧ (Fits reply.sums → WellServed ⟨call, times, reply⟩) := by
  rw [ssdAdvanceNand]
  cases hppa : call.ncmd.ppa with
  | none =>
      refine ⟨_, rfl, h, fun _ => ⟨Nat.le_refl _, fun _ _ _ => Nat.le_refl _, fun _ _ _ _ => rfl,
        fun ppa hsome => ?_⟩⟩
      exact absurd (hppa.symm.trans hsome) (by simp)
  | some ppa =>
      obtain ⟨reply, hreply, hkept, hserial⟩ :=
        advanceLun_spec spp lat call.part call.clock h ppa hcall.2.2
      refine ⟨reply, hreply, hkept.working, fun hfits => ?_⟩
      have hserved := hserial hfits
      refine ⟨hserved.stime_le, fun p c l => ?_, fun p c l hne => ?_, fun ppa' hsome => ?_⟩
      · by_cases hlun : p = call.part ∧ c = ppa.ch ∧ l = ppa.lun
        · obtain ⟨rfl, rfl, rfl⟩ := hlun
          exact hserved.left_ge
        · exact Nat.le_of_eq (hkept.others p c l hlun).symm
      · exact hkept.others p c l (hne ppa hppa)
      · obtain rfl := Option.some.inj (hppa.symm.trans hsome)
        exact hserved

structure Ordered (s : TimedNs) : Prop where
  served : ∀ e ∈ s.log, WellServed e
  past : ∀ e ∈ s.log, ∀ p c l,
    e.reply.times.nextLunAvailTime p c l ≤ s.times.nextLunAvailTime p c l
  inOrder : s.log.Pairwise fun e e' => ∀ p c l,
    e.reply.times.nextLunAvailTime p c l ≤ e'.before.nextLunAvailTime p c l

def AllFit (s : TimedNs) : Prop := ∀ e ∈ s.log, Fits e.reply.sums

structure Sane (spp : SsdParams) (nrParts : Nat) (s : TimedNs) : Prop where
  working : Working s.times
  inRange : ∀ e ∈ s.log, InRange spp nrParts e.call
  ordered : AllFit s → Ordered s

theorem ordered_concat (h : Ordered s) {e : Issued} (he : WellServed e)
    (hbefore : e.before = s.times) :
    Ordered { times := e.reply.times, log := s.log ++ [e] } where
  served := by
    intro e' he'
    rcases List.mem_append.1 he' with he' | he'
    · exact h.served e' he'
    · obtain rfl := List.mem_singleton.1 he'
      exact he
  past := by
    intro e' he' p c l
    rcases List.mem_append.1 he' with he' | he'
    · exact Nat.le_trans (h.past e' he' p c l) (hbefore ▸ he.rises p c l)
    · obtain rfl := List.mem_singleton.1 he'
      exact Nat.le_refl _
  inOrder := by
    refine List.pairwise_append.2 ⟨h.inOrder, List.pairwise_singleton _ _, ?_⟩
    intro e' he' e'' he'' p c l
    obtain rfl := List.mem_singleton.1 he''
    rw [hbefore]
    exact h.past e' he' p c l

theorem timedStep_sane (h : Sane spp nrParts s) (event : TimedEvent)
    (hcall : ∀ call, event = .nand call → InRange spp nrParts call) :
    ∃ s', timedStep spp lat s event = .ok s' ∧ Sane spp nrParts s' := by
  cases event with
  | nand call =>
      have hrange := hcall call rfl
      obtain ⟨reply, hreply, hworking, hserved⟩ :=
        ssdAdvanceNand_spec lat h.working hrange
      rw [timedStep, hreply, ok_bind]
      refine ⟨_, rfl, hworking, fun e he => ?_, fun hfits => ?_⟩
      · rcases List.mem_append.1 he with he | he
        · exact h.inRange e he
        · obtain rfl := List.mem_singleton.1 he
          exact hrange
      · have hbefore : AllFit s := fun e he => hfits e (List.mem_append_left _ he)
        exact ordered_concat (h.ordered hbefore)
          (hserved (hfits _ (List.mem_append_right _ (List.mem_singleton_self _)))) rfl
  | pcie clock requestTime length =>
      obtain ⟨reply, hreply, hready, _⟩ :=
        chmodelRequest_ready h.working.pcie clock requestTime length
      rw [timedStep, ssdAdvancePcie, hreply, ok_bind]
      refine ⟨_, rfl, ⟨h.working.perfModel, hready⟩, h.inRange, fun hfits => ?_⟩
      have hordered := h.ordered hfits
      exact ⟨hordered.served, hordered.past, hordered.inOrder⟩

theorem timedRun_sane (events : List TimedEvent) (h : Sane spp nrParts s)
    (hcalls : ∀ call, .nand call ∈ events → InRange spp nrParts call) :
    ∃ s', events.foldlM (timedStep spp lat) s = .ok s' ∧ Sane spp nrParts s' := by
  induction events generalizing s with
  | nil => exact ⟨s, rfl, h⟩
  | cons event events ih =>
      obtain ⟨next, hnext, hsane⟩ := timedStep_sane lat h event
        fun call hcall => hcalls call (hcall ▸ List.mem_cons_self)
      obtain ⟨s', hs', hsane'⟩ := ih hsane
        fun call hcall => hcalls call (List.mem_cons_of_mem _ hcall)
      refine ⟨s', ?_, hsane'⟩
      rw [List.foldlM_cons, hnext]
      exact hs'

/-- Over every run, each LUN does one thing after the other, and a flush waits
for every program and erase made so far. -/
theorem nand_serial_and_flushed {times : NandTimes} (hworking : Working times)
    {events : List TimedEvent}
    (hcalls : ∀ call, .nand call ∈ events → InRange spp nrParts call) :
    ∃ s, timedRun spp lat times events = .ok s ∧ (AllFit s →
      (∀ e ∈ s.log, WellServed e) ∧
      (s.log.Pairwise fun e e' => ∀ ppa ppa', e.call.ncmd.ppa = some ppa →
        e'.call.ncmd.ppa = some ppa' → e.call.part = e'.call.part → ppa.ch = ppa'.ch →
        ppa.lun = ppa'.lun → ∃ start, e'.reply.nandStime = some start ∧
          e.reply.times.nextLunAvailTime e.call.part ppa.ch ppa.lun ≤ start) ∧
      ∀ e ∈ s.log, e.call.ncmd.ppa ≠ none →
        e.call.ncmd.cmd = .write ∨ e.call.ncmd.cmd = .erase →
        ∀ start ioclock,
          e.reply.completedTime ≤ convFlush spp s.times nrParts start ioclock ∧
          (nrParts = 1 → e.reply.completedTime ≤ znsFlush spp s.times start ioclock)) := by
  have hstart : Sane spp nrParts { times := times, log := [] } :=
    ⟨hworking, fun e he => absurd he List.not_mem_nil, fun _ =>
      ⟨fun e he => absurd he List.not_mem_nil, fun e he => absurd he List.not_mem_nil,
        List.Pairwise.nil⟩⟩
  obtain ⟨s, hs, hsane⟩ := timedRun_sane lat events hstart hcalls
  refine ⟨s, hs, fun hfits => ?_⟩
  have hordered := hsane.ordered hfits
  refine ⟨hordered.served, ?_, ?_⟩
  · refine hordered.inOrder.imp_of_mem ?_
    intro e e' _ he' hle ppa ppa' _ hppa' hpart hch hlun
    obtain ⟨start, hstart, hbefore⟩ := ((hordered.served e' he').serial ppa' hppa').starts
    refine ⟨start, hstart, Nat.le_trans (hle _ _ _) ?_⟩
    rw [hpart, hch, hlun]
    exact hbefore
  · intro e he hmapped hwork start ioclock
    obtain ⟨ppa, hppa⟩ := Option.ne_none_iff_exists'.1 hmapped
    obtain ⟨hpart, hlun, _⟩ := hsane.inRange e he
    obtain ⟨hch, hlun⟩ := hlun ppa hppa
    have hdone : e.reply.completedTime ≤
        s.times.nextLunAvailTime e.call.part ppa.ch ppa.lun :=
      Nat.le_trans (((hordered.served e he).serial ppa hppa).covered hwork)
        (hordered.past e he _ _ _)
    refine ⟨Nat.le_trans hdone (avail_le_flushTarget hpart hch hlun start ioclock), ?_⟩
    rintro rfl
    exact Nat.le_trans hdone (avail_le_flushTarget hpart hch hlun start ioclock)

end Runs

section Example

/-- The latencies of the `SAMSUNG_970PRO` configuration. -/
def samsung970proLatencies : NandLatencies where
  cellMode := 2
  pg4kbRdLat := fun cell => if cell = 0 then 29760 else 41760
  pgRdLat := fun cell => if cell = 0 then 30013 else 42013
  pgWrLat := 185000
  blkErLat := 0
  maxChXferSize := 16 * 1024
  maxChXferSize_pos := by decide

def idleChannel (maxCredits xferLat : Nat) : Channel where
  curTime := 0
  head := 0
  validLen := 0
  maxCredits := maxCredits
  commandCredits := 0
  xferLat := xferLat
  availCredits := fun _ => maxCredits

def idleTimes : NandTimes where
  nextLunAvailTime := fun _ _ _ => 0
  perfModel := fun _ _ => idleChannel 26 152
  pcie := idleChannel 110 36

def firstPage : Ppa := Ppa.ofFields 0 0 0 0 0

/-- A program, the erase of a collection and a read, all on one LUN. -/
def threeCalls : List TimedEvent :=
  [.nand ⟨0, fun _ => 1000, ⟨.write, 32768, 2000, false, some firstPage⟩⟩,
    .nand ⟨0, fun _ => 3000, ⟨.erase, 0, 0, false, some firstPage⟩⟩,
    .nand ⟨0, fun _ => 4000, ⟨.read, 32768, 5000, true, some firstPage⟩⟩]

theorem nand_serial_and_flushed_three :
    ∃ s, timedRun (ssdInitParams samsung970pro (2 ^ 30) 4) samsung970proLatencies idleTimes
        threeCalls = .ok s ∧ s.log.length = 3 ∧ (∀ e ∈ s.log, WellServed e) ∧
      ∀ e ∈ s.log, e.call.ncmd.ppa ≠ none →
        e.call.ncmd.cmd = .write ∨ e.call.ncmd.cmd = .erase →
        e.reply.completedTime ≤
          convFlush (ssdInitParams samsung970pro (2 ^ 30) 4) s.times 4 6000 fun _ => 6000 := by
  have hidle : ∀ maxCredits xferLat, 0 < maxCredits → Ready (idleChannel maxCredits xferLat) :=
    fun _ _ hpos => ⟨nrCreditEntries_pos, Nat.zero_le _, hpos⟩
  have hcalls : ∀ call, .nand call ∈ threeCalls →
      InRange (ssdInitParams samsung970pro (2 ^ 30) 4) 4 call := by
    intro call hcall
    simp only [threeCalls, List.mem_cons, TimedEvent.nand.injEq, List.not_mem_nil,
      or_false] at hcall
    rcases hcall with rfl | rfl | rfl <;>
      exact ⟨by decide, fun ppa hppa => Option.some.inj hppa ▸ by decide, by decide⟩
  have hworking : Working idleTimes :=
    ⟨fun _ _ => hidle 26 152 (by decide), hidle 110 36 (by decide)⟩
  obtain ⟨s, hs, hordered⟩ := nand_serial_and_flushed samsung970proLatencies hworking hcalls
  have hrun : returns (timedRun (ssdInitParams samsung970pro (2 ^ 30) 4)
      samsung970proLatencies idleTimes threeCalls) (fun s => s.log.length == 3 &&
        s.log.all fun e => e.reply.sums.all fun x => decide (x < 2 ^ 64)) = true := by
    decide +kernel
  rw [hs] at hrun
  simp only [returns, Bool.and_eq_true, beq_iff_eq, List.all_eq_true, decide_eq_true_eq] at hrun
  obtain ⟨hserved, _, hflush⟩ := hordered hrun.2
  exact ⟨s, hs, hrun.1, hserved, fun e he hmapped hwork => (hflush e he hmapped hwork _ _).1⟩

end Example

end NvmeVirt.NandTiming
