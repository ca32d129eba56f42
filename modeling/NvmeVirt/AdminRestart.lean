import Mathlib.Data.List.Infix
import NvmeVirt.AdminRegisters

namespace NvmeVirt.AdminRestart

open AdminQueues
open AdminRegisters
open CompletionPhase
open FaultOutcome
open IoDispatch
open Relation (ReflTransGen)
open WriteBuffer

section Traces

variable {ε : Type} {settles : ε → Option Bool} {initially : Bool} {entry : ε}
  {trace recent earlier : List ε}

/-- What the latest entry says that settles a question, of a trace with the latest
entry in front. -/
def latest (settles : ε → Option Bool) (initially : Bool) (trace : List ε) : Bool :=
  (trace.findSome? settles).getD initially

theorem latest_settled {answer : Bool} (h : settles entry = some answer) :
    latest settles initially (entry :: trace) = answer := by
  rw [latest, List.findSome?_cons, h]
  rfl

theorem latest_passed (h : settles entry = none) :
    latest settles initially (entry :: trace) = latest settles initially trace := by
  rw [latest, List.findSome?_cons, h]
  rfl

theorem latest_eq_false (hentry : settles entry = some false)
    (hrecent : ∀ e ∈ recent, settles e ≠ some true) :
    latest settles initially (recent ++ entry :: earlier) = false := by
  induction recent with
  | nil => exact latest_settled hentry
  | cons e recent ih =>
      cases he : settles e with
      | none =>
          rw [List.cons_append, latest_passed he]
          exact ih fun e he => hrecent e (List.mem_cons_of_mem _ he)
      | some answer =>
          rw [List.cons_append, latest_settled he]
          have hno := hrecent e List.mem_cons_self
          rw [he] at hno
          simpa using hno

/-- Every entry is as `P` wants it, given what came before. -/
def Throughout (P : ε → List ε → Prop) (trace : List ε) : Prop :=
  ∀ entry before, entry :: before <:+ trace → P entry before

theorem Throughout.cons {P : ε → List ε → Prop} (h : Throughout P trace)
    (hentry : P entry trace) : Throughout P (entry :: trace) := by
  intro e before hsuffix
  rcases List.suffix_cons_iff.1 hsuffix with heq | hsuffix
  · cases heq
    exact hentry
  · exact h e before hsuffix

end Traces

/-- Whether the head of the completion queue is at slot 0 again. -/
def headRenewal : AdminRecord → Option Bool
  | .aqaSeen => some true
  | .acqSeen => some true
  | .stopped true => some true
  | .posted slot depth _ => some (slot + 1 = depth)
  | _ => none

/-- Whether the phase is 1 again. A shutdown does not count. -/
def phaseRenewal : AdminRecord → Option Bool
  | .aqaSeen => some true
  | .acqSeen => some true
  | .posted slot depth cqe => some (phaseBit cqe = if slot + 1 = depth then 0 else 1)
  | _ => none

def sqRenewal : AdminRecord → Option Bool
  | .aqaSeen => some true
  | .asqSeen => some true
  | .stopped true => some true
  | .handled db => some (db = 0)
  | _ => none

def downAfter : AdminRecord → Option Bool
  | .stopped _ => some true
  | .enabled => some false
  | _ => none

/-- `AQA` or `ACQ` changed since the last completion; or else the next slot is the first
one, by a shutdown or by wrapping, and the phase it is due is 1. -/
def CompletionsRenewed (trace : List AdminRecord) : Prop :=
  latest headRenewal false trace = true ∧ latest phaseRenewal false trace = true

/-- `AQA` or `ASQ` changed, or there was a shutdown, since a doorbell other than 0 was
handled. -/
def SubmissionsRenewed (trace : List AdminRecord) : Prop :=
  latest sqRenewal true trace = true

def isPosted : AdminRecord → Bool
  | .posted .. => true
  | _ => false

def isFetched : AdminRecord → Bool
  | .fetched _ => true
  | _ => false

/-- The controller had been stopped, was enabled, and nothing of the kind was done since. -/
def Restarted (kind : AdminRecord → Bool) (trace : List AdminRecord) : Prop :=
  ∃ recent earlier, trace = recent ++ .enabled :: earlier ∧
    latest downAfter false earlier = true ∧ ∀ entry ∈ recent, kind entry = false

/-- The first completion and the first fetch of every restart. -/
def RestartsCleanly : List AdminRecord → Prop :=
  Throughout fun entry before =>
    match entry with
    | .posted slot _ cqe => Restarted isPosted before → slot = 0 ∧ phaseBit cqe = 1
    | .fetched eid => Restarted isFetched before → eid = 0
    | _ => True

/-- Before them, the host has made the device see what it takes. -/
def RestartsRenewed : List AdminRecord → Prop :=
  Throughout fun entry before =>
    match entry with
    | .posted .. => Restarted isPosted before → CompletionsRenewed before
    | .fetched _ => Restarted isFetched before → SubmissionsRenewed before
    | _ => True

/-- Within a call of `nvmev_proc_admin_sq`, after its first fetch. -/
def batch : AdminRecord → Option Bool
  | .fetched _ => some true
  | .posted .. => none
  | _ => some false

def Explained (entry : AdminRecord) (before : List AdminRecord) : Prop :=
  match entry with
  | .posted slot _ cqe =>
      latest headRenewal false before = decide (slot = 0) ∧
        latest phaseRenewal false before = decide (phaseBit cqe = 1)
  | .fetched eid =>
      latest batch false before = true ∨ latest sqRenewal true before = decide (eid = 0)
  | _ => True

theorem not_batch_of_restarted {trace : List AdminRecord} (h : Restarted isFetched trace) :
    latest batch false trace = false := by
  obtain ⟨recent, earlier, rfl, -, hrecent⟩ := h
  refine latest_eq_false rfl fun entry hentry heq => ?_
  have hkind := hrecent entry hentry
  cases entry with
  | fetched eid => cases hkind
  | posted slot depth cqe => cases heq
  | _ => cases heq

theorem restartsCleanly_iff {trace : List AdminRecord} (h : Throughout Explained trace) :
    RestartsCleanly trace ↔ RestartsRenewed trace := by
  refine forall_congr' fun entry => forall_congr' fun before => forall_congr' fun hsuffix => ?_
  have hentry := h entry before hsuffix
  cases entry with
  | posted slot depth cqe =>
      obtain ⟨hhead, hphase⟩ := hentry
      refine imp_congr_right fun _ => ?_
      rw [CompletionsRenewed, hhead, hphase, decide_eq_true_eq, decide_eq_true_eq]
  | fetched eid =>
      refine imp_congr_right fun hrestarted => ?_
      have hfirst := hentry.resolve_left (by simp [not_batch_of_restarted hrestarted])
      rw [SubmissionsRenewed, hfirst, decide_eq_true_eq]
  | _ => exact Iff.rfl

section Queue

variable {μ κ : Type} {vdev vdev' : AdminVdev μ κ}

/-- The completion side of the queue is what the trace says. -/
structure Followed (vdev : AdminVdev μ κ) : Prop where
  explained : Throughout Explained vdev.trace
  head : ∀ q, vdev.adminQ = some q →
    latest headRenewal false vdev.trace = decide (q.queue.cqHead = 0)
  phase : ∀ q, vdev.adminQ = some q → q.queue.phase ≤ 1 ∧
    latest phaseRenewal false vdev.trace = decide (q.queue.phase = 1)

/-- Between two rounds of the dispatcher, the submission side is too. -/
structure Settled (vdev : AdminVdev μ κ) : Prop extends Followed vdev where
  doorbell : latest sqRenewal true vdev.trace = decide (vdev.dev.oldDbs 0 = 0)

theorem vdevInit_settled (dev : NvmevDev μ κ) : Settled (vdevInit dev) where
  explained := fun _ _ hsuffix => by simp [vdevInit] at hsuffix
  head := fun _ hq => by cases hq
  phase := fun _ hq => by cases hq
  doorbell := rfl

section Registers

variable (h : Settled vdev)
include h

theorem procAqa_settled : Settled (procAqa vdev) where
  explained := h.explained.cons trivial
  head := by
    rintro q hq
    cases hq
    exact latest_settled rfl
  phase := by
    rintro q hq
    cases hq
    exact ⟨Nat.le_refl 1, latest_settled rfl⟩
  doorbell := latest_settled rfl

theorem procAsq_settled (memory : Nat → AdminCommand κ) : Settled (procAsq vdev memory) := by
  rw [procAsq]
  cases hqueue : vdev.adminQ with
  | none => exact h
  | some queue =>
      refine ⟨⟨h.explained.cons trivial, ?_, ?_⟩, ?_⟩
      · rintro q hq
        cases hq
        exact (latest_passed rfl).trans (h.head queue hqueue)
      · rintro q hq
        cases hq
        exact ⟨(h.phase queue hqueue).1, (latest_passed rfl).trans (h.phase queue hqueue).2⟩
      · exact latest_settled rfl

theorem procAcq_settled (memory : Nat → Completion) : Settled (procAcq vdev memory) := by
  rw [procAcq]
  cases hqueue : vdev.adminQ with
  | none => exact h
  | some queue =>
      refine ⟨⟨h.explained.cons trivial, ?_, ?_⟩, (latest_passed rfl).trans h.doorbell⟩
      · rintro q hq
        cases hq
        exact latest_settled rfl
      · rintro q hq
        cases hq
        exact ⟨Nat.le_refl 1, latest_settled rfl⟩

theorem Settled.passed {entry : AdminRecord} (hqueue : vdev'.adminQ = vdev.adminQ)
    (hdev : vdev'.dev = vdev.dev) (htrace : vdev'.trace = entry :: vdev.trace)
    (hentry : Explained entry vdev.trace) (hhead : headRenewal entry = none)
    (hphase : phaseRenewal entry = none) (hsq : sqRenewal entry = none) : Settled vdev' where
  explained := htrace ▸ h.explained.cons hentry
  head q hq := by
    rw [htrace, latest_passed hhead]
    exact h.head q (hqueue ▸ hq)
  phase q hq := by
    rw [htrace, latest_passed hphase]
    exact h.phase q (hqueue ▸ hq)
  doorbell := by
    rw [htrace, latest_passed hsq, hdev]
    exact h.doorbell

theorem procCc_settled (hrun : procCc vdev = .ok vdev') : Settled vdev' := by
  rw [procCc] at hrun
  dsimp only at hrun
  split at hrun
  · cases hqueue : vdev.adminQ with
    | none => simp [hqueue] at hrun
    | some queue =>
        simp only [hqueue] at hrun
        cases hrun
        refine ⟨⟨h.explained.cons trivial, ?_, ?_⟩, ?_⟩
        · rintro q hq
          cases hq
          exact latest_settled rfl
        · rintro q hq
          cases hq
          exact ⟨(h.phase queue hqueue).1, (latest_passed rfl).trans (h.phase queue hqueue).2⟩
        · exact latest_settled rfl
  · split at hrun
    · cases hrun
      exact h.passed rfl rfl rfl trivial rfl rfl rfl
    · split at hrun
      · cases hrun
        exact h.passed rfl rfl rfl trivial rfl rfl rfl
      · cases hrun
        exact ⟨⟨h.explained, h.head, h.phase⟩, h.doorbell⟩

theorem procBars_settled {changed : Bool} {sqMemory : Nat → AdminCommand κ}
    {cqMemory : Nat → Completion}
    (hrun : procBars vdev sqMemory cqMemory = .ok (changed, vdev')) : Settled vdev' := by
  rw [procBars] at hrun
  split at hrun
  · cases hrun
    exact procAqa_settled h
  · split at hrun
    · cases hrun
      exact procAsq_settled h sqMemory
    · split at hrun
      · cases hrun
        exact procAcq_settled h cqMemory
      · split at hrun
        · obtain ⟨last, hlast, hrun⟩ := exists_of_bind_eq_ok hrun
          cases hrun
          exact procCc_settled h hlast
        · cases hrun
          exact h

end Registers

section Commands

theorem handleAdminReq_answered (ctrl : Controller μ κ) {eid : Nat}
    (h : AdminRequest.answered (ctrl.adminQ.nvmeSq eid).request = true) :
    ∃ ret result0 result1,
      (handleAdminReq ctrl eid).adminQ =
        makeCqEntryResults ctrl.adminQ eid ret result0 result1 := by
  rw [handleAdminReq]
  cases hrequest : (ctrl.adminQ.nvmeSq eid).request with
  | createCq => exact ⟨0, 0, 0, rfl⟩
  | deleteCq => exact ⟨0, 0, 0, rfl⟩
  | createSq => exact ⟨0, 0, 0, rfl⟩
  | deleteSq => exact ⟨0, 0, 0, rfl⟩
  | abort =>
      rw [hrequest] at h
      cases h
  | other ret result0 result1 => exact ⟨ret, result0, result1, rfl⟩

theorem handleAdminReq_abort (ctrl : Controller μ κ) {eid : Nat}
    (h : AdminRequest.answered (ctrl.adminQ.nvmeSq eid).request ≠ true) :
    handleAdminReq ctrl eid = ctrl := by
  rw [handleAdminReq]
  cases hrequest : (ctrl.adminQ.nvmeSq eid).request with
  | abort => rfl
  | _ =>
      rw [hrequest] at h
      exact absurd rfl h

theorem makeCqEntryResults_spec (queue : AdminQueue κ) (hle : queue.phase ≤ 1)
    (eid ret result0 result1 : Nat) :
    phaseBit ((makeCqEntryResults queue eid ret result0 result1).nvmeCq queue.cqHead) =
        queue.phase ∧
      (makeCqEntryResults queue eid ret result0 result1).cqHead =
        (if queue.cqHead + 1 = queue.cqDepth then 0 else queue.cqHead + 1) ∧
      (makeCqEntryResults queue eid ret result0 result1).phase =
        (if queue.cqHead + 1 = queue.cqDepth then PhaseRing.flip queue.phase else queue.phase) := by
  refine ⟨?_, rfl, rfl⟩
  have hwritten : (makeCqEntryResults queue eid ret result0 result1).nvmeCq queue.cqHead =
      adminEntry (queue.nvmeSq eid).commandId eid ret result0 result1 queue.phase :=
    Function.update_self ..
  rw [hwritten, phaseBit_adminEntry hle]

theorem headRenewed_posted (slot depth : Nat) (cqe : Completion) (trace : List AdminRecord) :
    latest headRenewal false (.posted slot depth cqe :: trace) = decide (slot + 1 = depth) :=
  latest_settled rfl

theorem phaseRenewed_posted (slot depth : Nat) (cqe : Completion) (trace : List AdminRecord) :
    latest phaseRenewal false (.posted slot depth cqe :: trace) =
      decide (phaseBit cqe = if slot + 1 = depth then 0 else 1) :=
  latest_settled rfl

theorem Followed.post (h : Followed vdev) {q : MappedQueue κ} (hqueue : vdev.adminQ = some q)
    (eid ret result0 result1 : Nat)
    (hqueue' : vdev'.adminQ =
      some { q with queue := makeCqEntryResults q.queue eid ret result0 result1 })
    (htrace : vdev'.trace =
      .posted q.queue.cqHead q.queue.cqDepth
        ((makeCqEntryResults q.queue eid ret result0 result1).nvmeCq q.queue.cqHead) ::
          vdev.trace) :
    Followed vdev' := by
  obtain ⟨hle, hphase⟩ := h.phase q hqueue
  obtain ⟨hbit, hnextHead, hnextPhase⟩ := makeCqEntryResults_spec q.queue hle eid ret result0
    result1
  refine ⟨?_, ?_, ?_⟩
  · rw [htrace]
    refine h.explained.cons ⟨h.head q hqueue, ?_⟩
    rw [hbit]
    exact hphase
  · rintro q' hq'
    cases hqueue'.symm.trans hq'
    rw [htrace, headRenewed_posted]
    dsimp only
    rw [hnextHead]
    split
    · next hwraps => simp [hwraps]
    · next hwraps => simp [hwraps]
  · rintro q' hq'
    cases hqueue'.symm.trans hq'
    rw [htrace, phaseRenewed_posted]
    dsimp only
    rw [hbit, hnextPhase, PhaseRing.flip]
    split
    · refine ⟨by split <;> omega, ?_⟩
      split
      · next hzero => simp [hzero]
      · next hone => simp [hone]
    · exact ⟨hle, rfl⟩

/-- The entry to be fetched next follows from the trace, unless it is one of a batch. -/
def Next (trace : List AdminRecord) (eid : Nat) : Prop :=
  latest batch false trace = true ∨ latest sqRenewal true trace = decide (eid = 0)

theorem Followed.fetch (h : Followed vdev) {eid : Nat} (hnext : Next vdev.trace eid)
    (hqueue : vdev'.adminQ = vdev.adminQ) (htrace : vdev'.trace = .fetched eid :: vdev.trace) :
    Followed vdev' where
  explained := htrace ▸ h.explained.cons hnext
  head q hq := by
    rw [htrace, latest_passed rfl]
    exact h.head q (hqueue ▸ hq)
  phase q hq := by
    rw [htrace, latest_passed rfl]
    exact h.phase q (hqueue ▸ hq)

theorem procAdminEntry_followed {eid : Nat} (h : Followed vdev) (hnext : Next vdev.trace eid)
    (hrun : procAdminEntry vdev eid = .ok vdev') :
    Followed vdev' ∧ latest batch false vdev'.trace = true := by
  rw [procAdminEntry] at hrun
  cases hqueue : vdev.adminQ with
  | none => simp [hqueue] at hrun
  | some q =>
      simp only [hqueue] at hrun
      obtain ⟨-, -, hrun⟩ := exists_of_bind_eq_ok hrun
      obtain ⟨ctrl, hctrl, hrun⟩ := exists_of_bind_eq_ok hrun
      cases handled_of_procAdminReq hctrl
      have hfetched : Followed (vdev.record (.fetched eid)) := h.fetch hnext rfl rfl
      split at hrun
      · next hanswered =>
        obtain ⟨-, -, hrun⟩ := exists_of_bind_eq_ok hrun
        cases hrun
        obtain ⟨ret, result0, result1, hposted⟩ := handleAdminReq_answered
          ⟨vdev.dev, q.queue, vdev.cqDbs, vdev.oldCqDbs⟩ hanswered
        refine ⟨hfetched.post hqueue eid ret result0 result1 ?_ ?_, ?_⟩
        · rw [AdminVdev.record, AdminVdev.record, hposted]
        · rw [AdminVdev.record, AdminVdev.record, AdminVdev.record, hposted]
        · rw [AdminVdev.record, AdminVdev.record, latest_passed rfl]
          exact latest_settled rfl
      · next habort =>
        cases hrun
        refine ⟨⟨hfetched.explained, ?_, ?_⟩, latest_settled rfl⟩
        · rintro q' hq'
          rw [AdminVdev.record, handleAdminReq_abort _ habort] at hq'
          cases hq'
          exact hfetched.head q hqueue
        · rintro q' hq'
          rw [AdminVdev.record, handleAdminReq_abort _ habort] at hq'
          cases hq'
          exact hfetched.phase q hqueue

theorem procAdminSqLoop_followed {sqDepth n curr : Nat} (h : Followed vdev)
    (hnext : Next vdev.trace curr) (hrun : procAdminSqLoop sqDepth n curr vdev = .ok vdev') :
    Followed vdev' := by
  induction n generalizing curr vdev with
  | zero =>
      cases hrun
      exact h
  | succ n ih =>
      obtain ⟨first, hfirst, hrun⟩ := exists_of_bind_eq_ok hrun
      obtain ⟨hfollowed, hbatch⟩ := procAdminEntry_followed h hnext hfirst
      exact ih hfollowed (.inl hbatch) hrun

theorem procAdminSq_followed {newDb oldDb : Nat} (h : Followed vdev)
    (hnext : Next vdev.trace oldDb) (hrun : procAdminSq vdev newDb oldDb = .ok vdev') :
    Followed vdev' := by
  rw [procAdminSq] at hrun
  cases hqueue : vdev.adminQ with
  | none => simp [hqueue] at hrun
  | some q =>
      simp only [hqueue] at hrun
      exact procAdminSqLoop_followed h hnext hrun

theorem procAdminSqDb_settled (h : Settled vdev) (hrun : procAdminSqDb vdev = .ok vdev') :
    Settled vdev' := by
  rw [procAdminSqDb] at hrun
  dsimp only at hrun
  split at hrun
  · cases hrun
    exact h
  · obtain ⟨last, hlast, hrun⟩ := exists_of_bind_eq_ok hrun
    cases hrun
    have hfollowed := procAdminSq_followed h.toFollowed (.inr h.doorbell) hlast
    refine ⟨⟨hfollowed.explained.cons trivial, fun q hq => ?_, fun q hq => ?_⟩, ?_⟩
    · exact (latest_passed rfl).trans (hfollowed.head q hq)
    · exact ⟨(hfollowed.phase q hq).1, (latest_passed rfl).trans (hfollowed.phase q hq).2⟩
    · exact latest_settled rfl

theorem procAdminDbs_settled (h : Settled vdev) (hrun : procAdminDbs vdev = .ok vdev') :
    Settled vdev' := by
  obtain ⟨last, hlast, hrun⟩ := exists_of_bind_eq_ok hrun
  cases hrun
  have hsettled := procAdminSqDb_settled h hlast
  exact ⟨⟨hsettled.explained, hsettled.head, hsettled.phase⟩, hsettled.doorbell⟩

end Commands

theorem adminStep_settled {event : AdminEvent κ} (h : Settled vdev)
    (hrun : adminStep vdev event = .ok vdev') : Settled vdev' := by
  cases event with
  | writeAqa | writeAsq | writeAcq | writeCc | ringSq | ringCq =>
      cases hrun
      exact ⟨⟨h.explained, h.head, h.phase⟩, h.doorbell⟩
  | writeEntry eid cmd =>
      cases hrun
      refine ⟨⟨h.explained, ?_, ?_⟩, h.doorbell⟩
      · rintro q hq
        obtain ⟨old, hold, rfl⟩ := Option.map_eq_some_iff.1 hq
        exact h.head old hold
      · rintro q hq
        obtain ⟨old, hold, rfl⟩ := Option.map_eq_some_iff.1 hq
        exact h.phase old hold
  | procBars sqMemory cqMemory =>
      obtain ⟨⟨changed, last⟩, hlast, hrun⟩ := exists_of_bind_eq_ok hrun
      cases hrun
      exact procBars_settled h hlast
  | procDbs => exact procAdminDbs_settled h hrun

def Acts (vdev vdev' : AdminVdev μ κ) : Prop :=
  ∃ event, adminStep vdev event = .ok vdev'

/-- The admin queue restarts cleanly exactly when each restart is preceded by changes
that the device notices. -/
theorem admin_queue_restarts_iff (dev : NvmevDev μ κ)
    (hrun : ReflTransGen Acts (vdevInit dev) vdev) :
    RestartsCleanly vdev.trace ↔ RestartsRenewed vdev.trace := by
  have hsettled : Settled vdev := by
    induction hrun with
    | refl => exact vdevInit_settled dev
    | tail _ hstep ih =>
        obtain ⟨event, hevent⟩ := hstep
        exact adminStep_settled ih hevent
  exact restartsCleanly_iff hsettled.explained

end Queue

def look : AdminEvent Nat :=
  .procBars (fun eid => ⟨eid, .other 0 0 0⟩) fun _ => ⟨0, 0, 0, 0, 0, 0⟩

/-- The host sets up two queues of the given depths and enables the controller. -/
def bringUp (aqa : Nat) : List (AdminEvent Nat) :=
  [.writeAqa aqa, .writeAsq 4096, .writeAcq 8192, look, look, look, .writeCc 1, look]

/-- The host shuts down, as on a reboot, and disables the controller. -/
def bringDown : List (AdminEvent Nat) := [.writeCc 16385, look, .writeCc 0, look]

def completion (eid status : Nat) : Completion := ⟨eid, 0, eid, status, 0, 0⟩

/-- What is done until the two commands of the first run are answered. -/
def firstRun : List AdminRecord :=
  [.handled 0, .posted 1 2 (completion 1 1), .fetched 1, .handled 1,
    .posted 0 2 (completion 0 1), .fetched 0, .enabled, .acqSeen, .asqSeen, .aqaSeen]

/-- The first command after a restart with the registers `aqa`, once the two commands
of a first run have filled a completion queue of two slots. -/
def restart (aqa : Nat) : List (AdminEvent Nat) :=
  bringUp 65537 ++ [.ringSq 1, .procDbs, .ringSq 0, .procDbs] ++ bringDown ++ bringUp aqa ++
    [.ringSq 1, .procDbs]

theorem exists_restart (aqa : Nat) (trace : List AdminRecord)
    (htest : returns ((restart aqa).foldlM adminStep (vdevInit bareController.dev))
      (fun vdev => vdev.trace = trace) = true) :
    ∃ vdev, ReflTransGen Acts (vdevInit bareController.dev) vdev ∧ vdev.trace = trace := by
  obtain ⟨vdev, hsteps, htrace⟩ := exists_of_returns htest
  exact ⟨vdev, reflTransGen_of_foldlM _ (fun event _ _ _ h => ⟨event, h⟩) hsteps,
    of_decide_eq_true htrace⟩

theorem admin_queue_restarts_iff_new_depths :
    ∃ vdev, ReflTransGen Acts (vdevInit bareController.dev) vdev ∧
      vdev.trace = .handled 1 :: .posted 0 3 (completion 0 1) :: .fetched 0 :: .enabled ::
        .aqaSeen :: .stopped false :: .stopped true :: firstRun ∧
      (RestartsCleanly vdev.trace ↔ RestartsRenewed vdev.trace) := by
  obtain ⟨vdev, hrun, htrace⟩ := exists_restart 131074
    (.handled 1 :: .posted 0 3 (completion 0 1) :: .fetched 0 :: .enabled ::
      .aqaSeen :: .stopped false :: .stopped true :: firstRun) (by decide +kernel)
  exact ⟨vdev, hrun, htrace, admin_queue_restarts_iff _ hrun⟩

/-- With the registers written as before, the first completion shows the phase of an
empty slot. -/
theorem same_registers_restart_stale :
    ∃ vdev, ReflTransGen Acts (vdevInit bareController.dev) vdev ∧
      ¬RestartsCleanly vdev.trace := by
  obtain ⟨vdev, hrun, htrace⟩ := exists_restart 65537
    (.handled 1 :: .posted 0 2 (completion 0 0) :: .fetched 0 :: .enabled ::
      .stopped false :: .stopped true :: firstRun) (by decide +kernel)
  have hrestarted : Restarted isPosted
      (.fetched 0 :: .enabled :: .stopped false :: .stopped true :: firstRun) := by
    refine ⟨[.fetched 0], .stopped false :: .stopped true :: firstRun, rfl, rfl, ?_⟩
    rintro entry hentry
    rw [List.mem_singleton.1 hentry]
    rfl
  refine ⟨vdev, hrun, fun hclean => ?_⟩
  rw [htrace] at hclean
  have hphase := (hclean (.posted 0 2 (completion 0 0)) _ (List.suffix_cons _ _) hrestarted).2
  cases hphase

end NvmeVirt.AdminRestart
