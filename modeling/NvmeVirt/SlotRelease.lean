import NvmeVirt.DispatchOrder
import NvmeVirt.SubmissionRing

namespace NvmeVirt.SlotRelease

open AdminQueues
open DispatchOrder
open FaultOutcome
open IoDispatch
open IoStanding
open IoSteps
open IoTable
open IoWorkers
open PhaseRing
open Relation
open SubmissionRing
open WriteBuffer

variable {μ κ : Type}

/-- The history that decides which slots the host may write: besides the ring,
how many entries of each queue were reported back by `sq_head`, the commands as
they were dispatched and which of them had their data moved. `early` tells
whether a slot was reported whose data had not been moved, `stale` whether a
transfer ever read another command than the one dispatched. -/
structure SlotLog (κ : Type) where
  ring : RingLog
  reported : Nat → Nat
  dispatched : List κ
  performed : List Nat
  early : Bool
  stale : Bool

def SlotLog.empty : SlotLog κ where
  ring := .empty
  reported _ := 0
  dispatched := []
  performed := []
  early := false
  stale := false

/-- The place of the accepted command `t` among those of queue `q`. -/
def indexOf (vdev : NvmevDev μ κ) (t q : Nat) : Nat :=
  ((vdev.accepted.take t).filter fun a => a.sqid = q).length

/-- Command `t` was dispatched from queue `q`. -/
def fromQueue (vdev : NvmevDev μ κ) (t q : Nat) : Bool :=
  (vdev.accepted[t]?).map Accepted.sqid == some q

def SlotLog.transfer [DecidableEq κ] (log : SlotLog κ) (vdev : NvmevDev μ κ) (w : IoWork) :
    SlotLog κ :=
  { log with
    performed := log.performed ++ [w.ticket]
    stale := log.stale ||
      (vdev.sqes w.sqid).map (fun sq => sq.sq w.sqEntry) != log.dispatched[w.ticket]? }

/-- The commands dispatched from the queue of `w` before `w` whose slots have not
been reported yet. -/
def releasedBy (log : SlotLog κ) (vdev : NvmevDev μ κ) (w : IoWork) : List Nat :=
  (List.range w.ticket).filter fun t =>
    fromQueue vdev t w.sqid && decide (log.reported w.sqid ≤ indexOf vdev t w.sqid)

/-- A completion reports the index of its own command as `sq_head`. -/
def SlotLog.post (log : SlotLog κ) (vdev : NvmevDev μ κ) (w : IoWork) : SlotLog κ :=
  { log with
    reported := Function.update log.reported w.sqid
      (max (log.reported w.sqid) (indexOf vdev w.ticket w.sqid))
    early := log.early || !(releasedBy log vdev w).all fun t => log.performed.contains t }

def SlotLog.work [DecidableEq κ] (log : SlotLog κ) (vdev : NvmevDev μ κ) (id now : Nat) :
    SlotLog κ :=
  let log := match moves vdev id with
    | none => log
    | some w => log.transfer vdev w
  match completes vdev id now with
  | none => log
  | some w => log.post vdev w

def SlotLog.record [DecidableEq κ] (log : SlotLog κ) (vdev : NvmevDev μ κ) (event : Event κ)
    (vdev' : NvmevDev μ κ) : SlotLog κ :=
  let log := { log with ring := log.ring.record vdev event vdev' }
  match event with
  | .procIo cmd (some _) =>
      if vdev.accepted.length < vdev'.accepted.length then
        { log with dispatched := log.dispatched ++ [cmd] }
      else log
  | .worker id now => log.work vdev id now
  | _ => log

def slotStep [DecidableEq κ] (be : Backend μ κ) (s : NvmevDev μ κ × SlotLog κ)
    (event : Event κ) : Except Fault (NvmevDev μ κ × SlotLog κ) := do
  let vdev' ← step be s.1 event
  return (vdev', s.2.record s.1 event vdev')

/-- The host uses a slot again only when `sq_head` has moved past it: it submits
at most `queue_size - 1` entries that are not reported, and writes to no slot of
an entry that is submitted and not reported. -/
def SlotRule (s : NvmevDev μ κ × SlotLog κ) : Event κ → Prop
  | .hostRing sqid db =>
      ∀ sq, s.1.sqes sqid = some sq → db < sq.queueSize ∧
        s.2.ring.submitted sqid + distance sq.queueSize (s.1.dbs sqid) db <
          s.2.reported sqid + sq.queueSize
  | .hostWrite sqid slot _ =>
      ∀ sq, s.1.sqes sqid = some sq → ∀ i < s.2.ring.submitted sqid,
        s.2.reported sqid ≤ i → i % sq.queueSize ≠ slot
  | _ => True

instance (s : NvmevDev μ κ × SlotLog κ) (event : Event κ) : Decidable (SlotRule s event) :=
  match event with
  | .hostRing sqid db =>
      inferInstanceAs (Decidable (∀ sq ∈ s.1.sqes sqid, db < sq.queueSize ∧
        s.2.ring.submitted sqid + distance sq.queueSize (s.1.dbs sqid) db <
          s.2.reported sqid + sq.queueSize))
  | .hostWrite sqid slot _ =>
      inferInstanceAs (Decidable (∀ sq ∈ s.1.sqes sqid, ∀ i < s.2.ring.submitted sqid,
        s.2.reported sqid ≤ i → i % sq.queueSize ≠ slot))
  | .beginPass _ => .isTrue trivial
  | .procIo _ _ => .isTrue trivial
  | .internal _ _ _ _ => .isTrue trivial
  | .reclaim => .isTrue trivial
  | .worker _ _ => .isTrue trivial

/-- What dispatching in order leaves to each step: a command finds an entry, and a
completed command overtakes none. -/
def InTurn (vdev : NvmevDev μ κ) : Event κ → Prop
  | .procIo _ (some _) =>
      ∀ p, vdev.pass = some p → p.turn = none → p.seq < p.numProc →
        ∀ worker, workerOf vdev p.sqid = some worker → HasSlot worker
  | .worker id now =>
      ∀ w, completes vdev id now = some w →
        ∀ i < vdev.nrIoWorkers, ∀ e ∈ busyList (vdev.ioWorkers i),
          ¬Overtakes w ((vdev.ioWorkers i).workQueue e)
  | _ => True

theorem inTurn_of_inOrder {vdev : NvmevDev μ κ} {event : Event κ} (h : Lined vdev)
    (horder : InOrder vdev event) : InTurn vdev event := by
  cases event with
  | procIo cmd ret =>
      cases ret with
      | none => trivial
      | some ret =>
          intro p hpass hturn hseq worker hworker
          exact (horder p hpass hturn hseq worker hworker).1
  | worker id now =>
      intro w hcompletes i hi e he
      exact h.completes hcompletes hi he
  | _ => trivial

section Waiting

variable {worker worker' : IoWorker} {t : Nat}

/-- The worker has command `t` in its list and has not moved its data. -/
def Waits (worker : IoWorker) (t : Nat) : Prop :=
  ∃ e ∈ busyList worker, (body worker e).isInternal = false ∧
    (body worker e).isCopied = false ∧ (body worker e).ticket = t

theorem Waits.enqueue {P : IoWork → Prop} {r : Request} (h : Waits worker t)
    (hheld : Held P worker) (hrun : enqueue r worker = .ok worker') : Waits worker' t := by
  obtain ⟨free, busy, hchains, -, -⟩ := hheld
  by_cases hslot : HasSlot worker
  · obtain ⟨worker'', entry, rest, before, after, hrun', hdone⟩ := enqueue_spec hchains r hslot
    rw [hrun] at hrun'
    cases hrun'
    obtain ⟨e, he, hw⟩ := h
    have hne : e ≠ entry := by
      rintro rfl
      rw [hchains.busyList_eq] at he
      exact (List.nodup_append.1 hchains.nodup).2.2 e (by rw [hdone.free_eq]; simp) e he rfl
    refine ⟨e, ?_, ?_⟩
    · rw [hchains.busyList_eq, hdone.busy_eq] at he
      rw [hdone.chains.busyList_eq]
      simp only [List.mem_append, List.mem_cons] at he ⊢
      tauto
    · rw [hdone.body, Function.update_of_ne hne]
      exact hw
  · rw [enqueue_refused r hslot] at hrun
    cases hrun
    exact h

theorem waits_new {P : IoWork → Prop} {sqid cqid sqEntry commandId : Nat} {ret : NvmevResult}
    (hheld : Held P worker) (hslot : HasSlot worker)
    (hrun : enqueue (.host sqid cqid sqEntry commandId ret t) worker = .ok worker') :
    Waits worker' t := by
  obtain ⟨free, busy, hchains, -, -⟩ := hheld
  obtain ⟨worker'', entry, rest, before, after, hrun', hdone⟩ := enqueue_spec hchains _ hslot
  rw [hrun] at hrun'
  cases hrun'
  refine ⟨entry, ?_, ?_⟩
  · rw [hdone.chains.busyList_eq]
    simp
  · rw [hdone.body, Function.update_self]
    exact ⟨rfl, rfl, rfl⟩

theorem Waits.reclaim {P : IoWork → Prop} (h : Waits worker t) (hheld : Held P worker)
    (hrun : reclaimCompletedReqs worker = .ok worker') : Waits worker' t := by
  obtain ⟨free, busy, hchains, -, -⟩ := hheld
  obtain ⟨worker'', hrun', hchains', hbody, -⟩ := reclaimCompletedReqs_spec hchains
  rw [hrun] at hrun'
  cases hrun'
  obtain ⟨e, he, hhost, hcopied, hticket⟩ := h
  refine ⟨e, ?_, by rw [hbody]; exact ⟨hhost, hcopied, hticket⟩⟩
  rw [hchains.busyList_eq, ← List.takeWhile_append_dropWhile (p := worker.reclaimable) (l := busy),
    List.mem_append] at he
  rw [hchains'.busyList_eq]
  refine he.resolve_left ?_
  intro htaken
  have hreclaim := List.mem_takeWhile_imp htaken
  simp only [IoWorker.reclaimable, Bool.and_eq_true] at hreclaim
  have hmoved : (body worker e).isCopied = true := hreclaim.1.2
  rw [hcopied] at hmoved
  cases hmoved

theorem Waits.work {P : IoWork → Prop} (h : Waits worker t) (hheld : Held P worker) (now : Nat)
    (moved : Nat × Nat) :
    Waits (ioWorkerStep worker now moved).1 t ∨
      worker.transfers = true ∧ (worker.workQueue worker.curr).ticket = t := by
  obtain ⟨free, busy, hchains, -, -⟩ := hheld
  have hbusy : busyList (ioWorkerStep worker now moved).1 = busyList worker := by
    rw [(ioWorkerStep_chains hchains now moved).busyList_eq, hchains.busyList_eq]
  obtain ⟨e, he, hhost, hcopied, hticket⟩ := h
  have hcases := ioWorkerStep_cases worker now moved
  generalize ioWorkerStep worker now moved = result at hcases hbusy
  have hstored : ∀ (w : IoWork) (worker₁ : IoWorker),
      worker₁.workQueue = (worker.store worker.curr w).workQueue →
      busyList worker₁ = busyList worker → e ≠ worker.curr → Waits worker₁ t := by
    intro w worker₁ hqueue hlist hne
    have hbody : body worker₁ e = body worker e := by
      rw [body, hqueue]
      dsimp only [IoWorker.store]
      rw [Function.update_of_ne hne]
      rfl
    exact ⟨e, by rw [hlist]; exact he, by rw [hbody]; exact ⟨hhost, hcopied, hticket⟩⟩
  have hmoves : worker.curr ≠ noEntry →
      (worker.workQueue worker.curr).isCompleted = false → e = worker.curr →
      worker.transfers = true ∧ (worker.workQueue worker.curr).ticket = t := by
    rintro hcurr hopen rfl
    have hhost' : (worker.workQueue worker.curr).isInternal = false := hhost
    have hcopied' : (worker.workQueue worker.curr).isCopied = false := hcopied
    refine ⟨?_, hticket⟩
    simp [IoWorker.transfers, hcurr, hopen, hhost', hcopied']
  cases hcases with
  | restart hcurr => exact .inl ⟨e, by rw [hbusy]; exact he, hhost, hcopied, hticket⟩
  | skip hcurr hdone => exact .inl ⟨e, by rw [hbusy]; exact he, hhost, hcopied, hticket⟩
  | wait w hcurr hopen hw hdue =>
      by_cases heq : e = worker.curr
      · exact .inr (hmoves hcurr hopen heq)
      · exact .inl (hstored w _ rfl hbusy heq)
  | complete w hcurr hopen hw hdue =>
      by_cases heq : e = worker.curr
      · exact .inr (hmoves hcurr hopen heq)
      · exact .inl (hstored _ _ rfl hbusy heq)

end Waiting

section Indices

variable {vdev vdev' : NvmevDev μ κ} {t t' q : Nat} {a : Accepted}

theorem indexOf_mono (h : t ≤ t') : indexOf vdev t q ≤ indexOf vdev t' q := by
  have htake : vdev.accepted.take t <+: vdev.accepted.take t' := List.take_prefix_take_left h
  exact (htake.sublist.filter _).length_le

theorem indexOf_length (q : Nat) : indexOf vdev vdev.accepted.length q = nrAccepted vdev q := by
  rw [indexOf, List.take_length, nrAccepted, acceptedOf, List.length_map]

theorem indexOf_le (t q : Nat) : indexOf vdev t q ≤ nrAccepted vdev q := by
  rw [nrAccepted, acceptedOf, List.length_map]
  exact ((List.take_sublist t _).filter _).length_le

theorem indexOf_extend (h : vdev.accepted <+: vdev'.accepted)
    (ht : t ≤ vdev.accepted.length) (q : Nat) : indexOf vdev' t q = indexOf vdev t q := by
  obtain ⟨rest, hrest⟩ := h
  rw [indexOf, ← hrest, List.take_append_of_le_length ht, indexOf]

theorem acceptedOf_indexOf (h : vdev.accepted[t]? = some a) :
    (acceptedOf vdev a.sqid)[indexOf vdev t a.sqid]? = some a.sqEntry := by
  obtain ⟨hlt, ha⟩ := List.getElem?_eq_some_iff.1 h
  have hsplit : vdev.accepted.take t ++ a :: vdev.accepted.drop (t + 1) = vdev.accepted := by
    rw [← ha, List.getElem_cons_drop, List.take_append_drop]
  have hfilter : vdev.accepted.filter (fun b => b.sqid = a.sqid) =
      (vdev.accepted.take t).filter (fun b => b.sqid = a.sqid) ++
        a :: (vdev.accepted.drop (t + 1)).filter (fun b => b.sqid = a.sqid) := by
    rw [← List.filter_cons_of_pos (a := a) (by simp), ← List.filter_append, hsplit]
  rw [acceptedOf, hfilter, List.map_append, List.getElem?_append_right (by simp [indexOf]),
    List.length_map, indexOf, Nat.sub_self]
  rfl

end Indices

/-- The entry is the command with its ticket, and until its data is moved its slot
is not reported and holds what was dispatched. -/
def Fit (vdev : NvmevDev μ κ) (log : SlotLog κ) (w : IoWork) : Prop :=
  w.isInternal = false →
    vdev.accepted[w.ticket]? = some ⟨w.sqid, w.sqEntry, w.commandId⟩ ∧
      (w.isCopied = false → log.reported w.sqid ≤ indexOf vdev w.ticket w.sqid ∧
        (vdev.sqes w.sqid).map (fun sq => sq.sq w.sqEntry) = log.dispatched[w.ticket]?)

/-- What holds of the device and of its history when the host keeps `SlotRule` and
the commands are completed in turn. -/
structure Consistent (s : NvmevDev μ κ × SlotLog κ) : Prop where
  ring : AllInRing (s.1, s.2.ring)
  reported : ∀ q, s.2.reported q ≤ nrAccepted s.1 q
  room : ∀ q sq, s.1.sqes q = some sq →
    s.2.ring.submitted q < s.2.reported q + sq.queueSize
  dispatched : s.2.dispatched.length = s.1.accepted.length
  held : ∀ id < s.1.nrIoWorkers, Held (Fit s.1 s.2) (s.1.ioWorkers id)
  waiting : ∀ t < s.1.accepted.length,
    t ∈ s.2.performed ∨ ∃ id < s.1.nrIoWorkers, Waits (s.1.ioWorkers id) t
  early : s.2.early = false
  stale : s.2.stale = false

section Fits

variable {vdev vdev' : NvmevDev μ κ} {log log' : SlotLog κ} {w : IoWork}

theorem getElem?_extend {α : Type} {xs ys : List α} {i : Nat} (h : xs <+: ys)
    (hi : i < xs.length) : ys[i]? = xs[i]? := by
  obtain ⟨rest, rfl⟩ := h
  exact List.getElem?_append_left hi

theorem Fit.index_lt (h : Fit vdev log w) (hhost : w.isInternal = false) :
    indexOf vdev w.ticket w.sqid < nrAccepted vdev w.sqid :=
  (List.getElem?_eq_some_iff.1 (acceptedOf_indexOf (h hhost).1)).1

theorem Fit.ticket_lt (h : Fit vdev log w) (hhost : w.isInternal = false) :
    w.ticket < vdev.accepted.length :=
  (List.getElem?_eq_some_iff.1 (h hhost).1).1

theorem Fit.slot {ring : RingLog} {sq : SubmissionQueue κ} (h : Fit vdev log w)
    (hring : AllInRing (vdev, ring)) (hhost : w.isInternal = false)
    (hsq : vdev.sqes w.sqid = some sq) :
    w.sqEntry = indexOf vdev w.ticket w.sqid % sq.queueSize := by
  have hentry : (acceptedOf vdev w.sqid)[indexOf vdev w.ticket w.sqid]? = some w.sqEntry :=
    acceptedOf_indexOf (h hhost).1
  have horder : acceptedOf vdev w.sqid =
      (List.range (nrAccepted vdev w.sqid)).map (· % sq.queueSize) :=
    (hring w.sqid sq hsq).order
  rw [horder, List.getElem?_map, List.getElem?_range (h.index_lt hhost)] at hentry
  exact (Option.some.inj hentry).symm

theorem Fit.copied (h : Fit vdev log w) (moved : Nat × Nat) :
    Fit vdev log (copied w moved) := by
  obtain ⟨status, result0, hcopied⟩ := copied_eq w moved
  rw [hcopied]
  intro hhost
  exact ⟨(h hhost).1, fun hcase => by cases hcase⟩

theorem Fit.carry (h : Fit vdev log w) (haccepted : vdev.accepted <+: vdev'.accepted)
    (hdispatched : log.dispatched <+: log'.dispatched)
    (hlength : log.dispatched.length = vdev.accepted.length)
    (hreported : w.isInternal = false → w.isCopied = false →
      log'.reported w.sqid ≤ indexOf vdev w.ticket w.sqid)
    (hslot : w.isInternal = false → w.isCopied = false →
      (vdev'.sqes w.sqid).map (fun sq => sq.sq w.sqEntry) =
        (vdev.sqes w.sqid).map (fun sq => sq.sq w.sqEntry)) : Fit vdev' log' w := by
  intro hhost
  have hlt := h.ticket_lt hhost
  obtain ⟨hticket, hopen⟩ := h hhost
  refine ⟨?_, ?_⟩
  · exact (getElem?_extend haccepted hlt).trans hticket
  · intro hcopied
    obtain ⟨-, hcmd⟩ := hopen hcopied
    rw [indexOf_extend haccepted hlt.le, hslot hhost hcopied, hcmd]
    refine ⟨hreported hhost hcopied, ?_⟩
    exact (getElem?_extend hdispatched (by rw [hlength]; exact hlt)).symm

end Fits

section Steps

variable {be : Backend μ κ} {vdev vdev' : NvmevDev μ κ} {log : SlotLog κ} {event : Event κ}

theorem step_slot (hstep : step be vdev event = .ok vdev') (q k : Nat) :
    (vdev'.sqes q).map (fun sq => sq.sq k) = (vdev.sqes q).map (fun sq => sq.sq k) ∨
      (∃ cmd, event = .hostWrite q k cmd) ∨
      ∃ p, vdev.pass = some p ∧ p.turn = none ∧ p.seq < p.numProc ∧ p.sqid = q ∧
        p.sqEntry = k := by
  have hupdate : ∀ (sqes : Nat → Option (SubmissionQueue κ)) (q' : Nat)
      (sq sq' : SubmissionQueue κ), sqes q' = some sq → (q = q' → sq'.sq k = sq.sq k) →
      (Function.update sqes q' (some sq') q).map (fun sq => sq.sq k) =
        (sqes q).map (fun sq => sq.sq k) := by
    intro sqes q' sq sq' hsq hsame
    by_cases heq : q = q'
    · subst heq
      rw [Function.update_self, hsq, Option.map_some, Option.map_some, hsame rfl]
    · rw [Function.update_of_ne heq]
  -- the dispatcher stands on slot `p.sqEntry`, or the slot is kept
  have hwritten : ∀ (p : Pass) (sq : SubmissionQueue κ) (cmd : κ), vdev.pass = some p →
      p.turn = none → p.seq < p.numProc →
      (q = p.sqid → (writeSlot sq p.sqEntry cmd).sq k = sq.sq k) ∨
        ∃ p, vdev.pass = some p ∧ p.turn = none ∧ p.seq < p.numProc ∧ p.sqid = q ∧
          p.sqEntry = k := by
    intro p sq cmd hpass hturn hseq
    by_cases hq : p.sqid = q
    · by_cases hk : p.sqEntry = k
      · exact .inr ⟨p, hpass, hturn, hseq, hq, hk⟩
      · exact .inl fun _ => Function.update_of_ne (Ne.symm hk) _ _
    · exact .inl fun heq => absurd heq.symm hq
  cases step_result hstep with
  | hostWrite sqid slot cmd =>
      by_cases hq : q = sqid
      · subst hq
        by_cases hk : k = slot
        · subst hk
          exact .inr (.inl ⟨cmd, rfl⟩)
        · left
          dsimp only
          rw [Function.update_self, Option.map_map]
          refine congrArg (Option.map · (vdev.sqes q)) ?_
          funext sq
          exact Function.update_of_ne hk _ _
      · left
        dsimp only
        rw [Function.update_of_ne hq]
  | finish cmd ret p sq pass present turn seq =>
      exact .inl (hupdate _ _ _ _ present fun _ => rfl)
  | refuse cmd p sq pass present turn seq =>
      rcases hwritten p sq cmd pass turn seq with hsame | hown
      · left
        have hslot := hupdate vdev.sqes p.sqid sq (writeSlot sq p.sqEntry cmd) present hsame
        refine Eq.trans ?_ hslot
        exact hupdate _ p.sqid _ _ (Function.update_self _ _ _) fun _ => rfl
      · exact .inr (.inr hown)
  | accept cmd ret p sq id turns worker pass present turn seq hid run =>
      rcases hwritten p sq cmd pass turn seq with hsame | hown
      · exact .inl (hupdate _ _ _ _ present hsame)
      · exact .inr (.inr hown)
  | advance p id sq pass turn present =>
      exact .inl (hupdate _ _ _ _ present fun _ => rfl)
  | _ => exact .inl rfl

/-- An entry of a busy list that is not copied keeps its slot, its place in the
ring being not reported. -/
theorem Consistent.slot_kept (h : Consistent (vdev, log)) (hrule : SlotRule (vdev, log) event)
    (hstep : step be vdev event = .ok vdev') {w : IoWork} (hfit : Fit vdev log w)
    (hhost : w.isInternal = false) (hcopied : w.isCopied = false) :
    (vdev'.sqes w.sqid).map (fun sq => sq.sq w.sqEntry) =
      (vdev.sqes w.sqid).map (fun sq => sq.sq w.sqEntry) := by
  obtain ⟨hreported, -⟩ := (hfit hhost).2 hcopied
  have hlt := hfit.index_lt hhost
  cases hsq : vdev.sqes w.sqid with
  | none =>
      have hshape := step_shape hstep w.sqid
      rw [hsq, Option.map_none, Option.map_eq_none_iff] at hshape
      rw [hshape]
  | some sq =>
      rw [← hsq]
      have hslot := hfit.slot h.ring hhost hsq
      rcases step_slot hstep w.sqid w.sqEntry with
        hsame | ⟨cmd, rfl⟩ | ⟨p, hp, hturn, hseq, hq, hk⟩
      · exact hsame
      · have hbehind : nrAccepted vdev w.sqid ≤ log.ring.submitted w.sqid :=
          (h.ring w.sqid sq hsq).behind
        exact absurd hslot.symm (hrule sq hsq _ (lt_of_lt_of_le hlt hbehind) hreported)
      · have hroom : log.ring.submitted w.sqid < log.reported w.sqid + sq.queueSize :=
          h.room w.sqid sq hsq
        obtain ⟨hentry, htail⟩ : p.sqEntry = nrAccepted vdev w.sqid % sq.queueSize ∧
            nrAccepted vdev w.sqid < log.ring.submitted w.sqid :=
          (h.ring.dispatched hsq).touched p (passOn_eq hp hq) hturn hseq
        rw [← hk, hentry] at hslot
        exact absurd hslot.symm (mod_ne_of_close hlt (by omega))

theorem completes_host {id now : Nat} {w : IoWork} (h : completes vdev id now = some w) :
    w.isInternal = false := by
  rw [completes] at h
  split at h
  · next hcond =>
    cases h
    exact hcond.2.2.2.1
  · cases h

theorem Consistent.moves_dispatched (h : Consistent (vdev, log)) {id : Nat} {w : IoWork}
    (hmoves : moves vdev id = some w) :
    (vdev.sqes w.sqid).map (fun sq => sq.sq w.sqEntry) = log.dispatched[w.ticket]? := by
  rw [moves] at hmoves
  split at hmoves
  · next hcond =>
    cases hmoves
    obtain ⟨hid, htransfers⟩ := hcond
    simp only [IoWorker.transfers, Bool.and_eq_true, bne_iff_ne, Bool.not_eq_true'] at htransfers
    obtain ⟨⟨⟨hcurr, hopen⟩, hcopied⟩, hhost⟩ := htransfers
    obtain ⟨hfit, -⟩ := (h.held id hid).curr hcurr hopen
    exact ((hfit hhost).2 hcopied).2
  · cases hmoves

theorem Consistent.released_performed (h : Consistent (vdev, log)) {id now : Nat} {w : IoWork}
    (hturn : InTurn vdev (.worker id now)) (hcompletes : completes vdev id now = some w) :
    ∀ t ∈ releasedBy log vdev w, t ∈ log.performed := by
  intro t ht
  simp only [releasedBy, List.mem_filter, List.mem_range, Bool.and_eq_true, fromQueue,
    beq_iff_eq, Option.map_eq_some_iff] at ht
  obtain ⟨hearlier, ⟨a, ha, hsqid⟩, -⟩ := ht
  have hlt : t < vdev.accepted.length := (List.getElem?_eq_some_iff.1 ha).1
  refine (h.waiting t hlt).resolve_right ?_
  rintro ⟨i, hi, e, he, hhost, hcopied, rfl⟩
  have hfit := ((h.held i hi).busyList he hhost).1
  have hsame : (body (vdev.ioWorkers i) e).sqid = w.sqid := by
    rw [← hsqid, ← Option.some.inj (hfit.symm.trans ha)]
  exact hturn w hcompletes i hi e he ⟨completes_host hcompletes, hhost, hcopied, hsame, hearlier⟩

theorem consistent_start (hstart : Started vdev)
    (hfresh : ∀ q sq, vdev.sqes q = some sq →
      0 < sq.queueSize ∧ vdev.dbs q = 0 ∧ vdev.oldDbs q = 0) :
    Consistent (vdev, (SlotLog.empty : SlotLog κ)) where
  ring := by
    intro q sq hsq
    obtain ⟨hpos, hdb, hold⟩ := hfresh q sq hsq
    simp only [SlotLog.empty, RingLog.empty, acceptedOf, hstart.accepted,
      passOn_none hstart.pass, hdb, hold]
    exact InRing.start hpos 0
  reported _ := Nat.zero_le _
  room q sq hsq := by
    simpa [SlotLog.empty, RingLog.empty] using (hfresh q sq hsq).1
  dispatched := by rw [hstart.accepted]; rfl
  held id _ := by
    dsimp only
    rw [hstart.workers]
    exact held_init _
  waiting t ht := by
    rw [hstart.accepted] at ht
    exact absurd ht (Nat.not_lt_zero t)
  early := rfl
  stale := rfl

/-- A host that waits for `sq_head` never has more than a ring of entries waiting. -/
theorem Consistent.tailRule (h : Consistent (vdev, log)) (hrule : SlotRule (vdev, log) event) :
    TailRule (vdev, log.ring) event := by
  cases event with
  | hostRing sqid db =>
      intro sq hsq
      obtain ⟨hdb, hroom⟩ := hrule sq hsq
      have hreported : log.reported sqid ≤ nrAccepted vdev sqid := h.reported sqid
      exact ⟨hdb, Nat.lt_of_lt_of_le hroom (Nat.add_le_add_right hreported _)⟩
  | _ => trivial

variable [DecidableEq κ]

theorem work_kept (log : SlotLog κ) (vdev : NvmevDev μ κ) (id now : Nat) :
    (log.work vdev id now).ring = log.ring ∧
      (log.work vdev id now).dispatched = log.dispatched := by
  rw [SlotLog.work]
  cases moves vdev id <;> cases completes vdev id now <;> exact ⟨rfl, rfl⟩

theorem record_ring (log : SlotLog κ) (vdev vdev' : NvmevDev μ κ) (event : Event κ) :
    (log.record vdev event vdev').ring = log.ring.record vdev event vdev' := by
  cases event with
  | procIo cmd ret =>
      cases ret with
      | none => rfl
      | some ret =>
          simp only [SlotLog.record]
          split <;> rfl
  | worker id now => exact (work_kept _ vdev id now).1
  | _ => rfl

theorem record_dispatched (log : SlotLog κ) (hstep : step be vdev event = .ok vdev') :
    (∃ cmd a, vdev'.accepted = vdev.accepted ++ [a] ∧
        (log.record vdev event vdev').dispatched = log.dispatched ++ [cmd]) ∨
      vdev'.accepted = vdev.accepted ∧
        (log.record vdev event vdev').dispatched = log.dispatched := by
  have hsame : vdev'.accepted = vdev.accepted →
      (log.record vdev event vdev').dispatched = log.dispatched := by
    intro haccepted
    cases event with
    | procIo cmd ret =>
        cases ret with
        | none => rfl
        | some ret =>
            simp only [SlotLog.record]
            rw [haccepted, if_neg (lt_irrefl _)]
    | worker id now => exact (work_kept _ vdev id now).2
    | _ => rfl
  cases step_result hstep with
  | accept cmd ret p sq id turns worker pass present turn seq hid run =>
      refine .inl ⟨cmd, _, rfl, ?_⟩
      simp only [SlotLog.record]
      rw [if_pos (by simp)]
  | _ => exact .inr ⟨rfl, hsame rfl⟩

theorem record_reported (log : SlotLog κ) (vdev vdev' : NvmevDev μ κ) (event : Event κ) :
    (log.record vdev event vdev').reported = log.reported ∨
      ∃ id now w, event = .worker id now ∧ completes vdev id now = some w ∧
        (log.record vdev event vdev').reported =
          Function.update log.reported w.sqid
            (max (log.reported w.sqid) (indexOf vdev w.ticket w.sqid)) := by
  cases event with
  | procIo cmd ret =>
      left
      cases ret with
      | none => rfl
      | some ret =>
          simp only [SlotLog.record]
          split <;> rfl
  | worker id now =>
      cases hcompletes : completes vdev id now with
      | none =>
          left
          simp only [SlotLog.record, SlotLog.work, hcompletes]
          cases moves vdev id <;> rfl
      | some w =>
          refine .inr ⟨id, now, w, rfl, hcompletes, ?_⟩
          simp only [SlotLog.record, SlotLog.work, hcompletes]
          cases moves vdev id <;> rfl
  | _ => exact .inl rfl

theorem reported_le (log : SlotLog κ) (vdev vdev' : NvmevDev μ κ) (event : Event κ) (q : Nat) :
    log.reported q ≤ (log.record vdev event vdev').reported q := by
  rcases record_reported log vdev vdev' event with hsame | ⟨id, now, w, -, -, hreported⟩
  · rw [hsame]
  · rw [hreported]
    by_cases heq : q = w.sqid
    · subst heq
      rw [Function.update_self]
      exact Nat.le_max_left _ _
    · rw [Function.update_of_ne heq]

theorem record_performed_subset (log : SlotLog κ) (vdev vdev' : NvmevDev μ κ)
    (event : Event κ) : log.performed ⊆ (log.record vdev event vdev').performed := by
  cases event with
  | procIo cmd ret =>
      cases ret with
      | none => exact List.Subset.refl _
      | some ret =>
          simp only [SlotLog.record]
          split <;> exact List.Subset.refl _
  | worker id now =>
      simp only [SlotLog.record, SlotLog.work]
      cases moves vdev id with
      | none => cases completes vdev id now <;> exact List.Subset.refl _
      | some w => cases completes vdev id now <;> exact List.subset_append_left _ _
  | _ => exact List.Subset.refl _

theorem Consistent.not_reported (h : Consistent (vdev, log)) (hturn : InTurn vdev event)
    {id e : Nat} (hid : id < vdev.nrIoWorkers) (he : e ∈ busyList (vdev.ioWorkers id))
    (hhost : (body (vdev.ioWorkers id) e).isInternal = false)
    (hcopied : (body (vdev.ioWorkers id) e).isCopied = false) :
    (log.record vdev event vdev').reported (body (vdev.ioWorkers id) e).sqid ≤
      indexOf vdev (body (vdev.ioWorkers id) e).ticket (body (vdev.ioWorkers id) e).sqid := by
  have hfit := (h.held id hid).busyList he
  obtain ⟨hreported, -⟩ := (hfit hhost).2 hcopied
  rcases record_reported log vdev vdev' event with hsame | ⟨i, now, w, rfl, hcompletes, hnew⟩
  · rw [hsame]
    exact hreported
  · rw [hnew]
    by_cases heq : (body (vdev.ioWorkers id) e).sqid = w.sqid
    · have hearlier : w.ticket ≤ (body (vdev.ioWorkers id) e).ticket := by
        refine Nat.not_lt.1 fun hlt => hturn w hcompletes id hid e he ?_
        exact ⟨completes_host hcompletes, hhost, hcopied, heq, hlt⟩
      rw [← heq, Function.update_self]
      exact Nat.max_le.2 ⟨hreported, indexOf_mono hearlier⟩
    · rw [Function.update_of_ne heq]
      exact hreported

theorem Consistent.accepted_extend (h : Consistent (vdev, log))
    (hstep : step be vdev event = .ok vdev') :
    vdev.accepted <+: vdev'.accepted ∧
      log.dispatched <+: (log.record vdev event vdev').dispatched ∧
      (log.record vdev event vdev').dispatched.length = vdev'.accepted.length := by
  have hlength : log.dispatched.length = vdev.accepted.length := h.dispatched
  rcases record_dispatched log hstep with
    ⟨cmd, a, haccepted, hdispatched⟩ | ⟨haccepted, hdispatched⟩
  · rw [haccepted, hdispatched]
    exact ⟨List.prefix_append _ _, List.prefix_append _ _, by simp [hlength]⟩
  · rw [haccepted, hdispatched]
    exact ⟨List.prefix_refl _, List.prefix_refl _, hlength⟩

theorem Consistent.held_step (h : Consistent (vdev, log)) (hrule : SlotRule (vdev, log) event)
    (hturn : InTurn vdev event) (hstep : step be vdev event = .ok vdev') :
    vdev'.nrIoWorkers = vdev.nrIoWorkers ∧
      ∀ id < vdev'.nrIoWorkers,
        Held (Fit vdev' (log.record vdev event vdev')) (vdev'.ioWorkers id) := by
  have hlength : log.dispatched.length = vdev.accepted.length := h.dispatched
  obtain ⟨haccepted, hdispatched, hlength'⟩ := h.accepted_extend hstep
  refine step_held hstep ?_ ?_ ?_ ?_ ?_
  · intro id hid
    refine (h.held id hid).imp_busy ?_
    intro e he hfit
    refine hfit.carry haccepted hdispatched hlength ?_ ?_
    · exact fun hhost hcopied => h.not_reported hturn hid he hhost hcopied
    · exact fun hhost hcopied => h.slot_kept hrule hstep hfit hhost hcopied
  · rintro cmd ret p sq rfl hpass hopen hseq hsq w -
    obtain ⟨hnew, hslot⟩ := step_accepts hstep hpass hopen hseq hsq
    refine ⟨?_, fun _ => ⟨?_, ?_⟩⟩
    · rw [hnew]
      exact List.getElem?_concat_length
    · have hindex : indexOf vdev' vdev.accepted.length p.sqid = nrAccepted vdev p.sqid := by
        rw [indexOf_extend haccepted (Nat.le_refl _), indexOf_length]
      refine Nat.le_trans ?_ hindex.ge
      rcases record_reported log vdev vdev' (.procIo cmd (some ret)) with
        hsame | ⟨id, now, w', hevent, -⟩
      · rw [hsame]
        exact h.reported p.sqid
      · cases hevent
    · have hstored : (vdev'.sqes p.sqid).map (fun sq => sq.sq p.sqEntry) = some cmd := by
        rw [hslot, Option.map_some]
        exact congrArg some (Function.update_self _ _ _)
      have hfound : (log.record vdev (.procIo cmd (some ret)) vdev').dispatched[
          vdev.accepted.length]? = some cmd := by
        simp only [SlotLog.record]
        rw [hnew, if_pos (by simp), ← hlength]
        exact List.getElem?_concat_length
      exact hstored.trans hfound.symm
  · intro sqid nsecsTarget writeBuffer buffsToRelease w hhost
    cases hhost
  · exact fun w moved hfit _ => hfit.copied moved
  · exact fun w hfit _ hhost => hfit hhost

theorem Consistent.waiting_update (h : Consistent (vdev, log)) (event : Event κ)
    (vdev' : NvmevDev μ κ) {id t : Nat} {worker : IoWorker} (ht : t < vdev.accepted.length)
    (hworker : Waits (vdev.ioWorkers id) t → Waits worker t ∨
      t ∈ (log.record vdev event vdev').performed) :
    t ∈ (log.record vdev event vdev').performed ∨
      ∃ i < vdev.nrIoWorkers, Waits (Function.update vdev.ioWorkers id worker i) t := by
  rcases h.waiting t ht with hdone | ⟨i, hi, hwaits⟩
  · exact .inl (record_performed_subset log vdev vdev' event hdone)
  · by_cases heq : i = id
    · subst heq
      rcases hworker hwaits with hwaits' | hdone
      · exact .inr ⟨i, hi, by rw [Function.update_self]; exact hwaits'⟩
      · exact .inl hdone
    · exact .inr ⟨i, hi, by rw [Function.update_of_ne heq]; exact hwaits⟩

theorem Consistent.waiting_work (h : Consistent (vdev, log)) (vdev' : NvmevDev μ κ)
    {id now t : Nat} (moved : Nat × Nat) (hid : id < vdev.nrIoWorkers)
    (ht : t < vdev.accepted.length) :
    t ∈ (log.record vdev (.worker id now) vdev').performed ∨
      ∃ i < vdev.nrIoWorkers, Waits (Function.update vdev.ioWorkers id
        (ioWorkerStep (vdev.ioWorkers id) now moved).1 i) t := by
  refine h.waiting_update _ vdev' ht fun hwaits => ?_
  refine (hwaits.work (h.held id hid) now moved).imp_right ?_
  rintro ⟨htransfers, rfl⟩
  have hmoves : moves vdev id =
      some ((vdev.ioWorkers id).workQueue (vdev.ioWorkers id).curr) :=
    if_pos ⟨hid, htransfers⟩
  simp only [SlotLog.record, SlotLog.work, hmoves]
  cases completes vdev id now <;> simp [SlotLog.transfer, SlotLog.post]

theorem Consistent.waiting_step (h : Consistent (vdev, log)) (hturn : InTurn vdev event)
    (hstep : step be vdev event = .ok vdev') :
    ∀ t < vdev'.accepted.length, t ∈ (log.record vdev event vdev').performed ∨
      ∃ id < vdev'.nrIoWorkers, Waits (vdev'.ioWorkers id) t := by
  have hstill : vdev'.ioWorkers = vdev.ioWorkers → vdev'.nrIoWorkers = vdev.nrIoWorkers →
      vdev'.accepted = vdev.accepted →
      ∀ t < vdev'.accepted.length, t ∈ (log.record vdev event vdev').performed ∨
        ∃ id < vdev'.nrIoWorkers, Waits (vdev'.ioWorkers id) t := by
    intro hworkers hnr haccepted t ht
    rw [haccepted] at ht
    rw [hworkers, hnr]
    exact (h.waiting t ht).imp_left fun hdone =>
      record_performed_subset log vdev vdev' event hdone
  cases step_result hstep with
  | accept cmd ret p sq id turns worker pass present turn seq hid run =>
      intro t ht
      dsimp only at ht ⊢
      rw [List.length_append, List.length_singleton] at ht
      by_cases hnew : t = vdev.accepted.length
      · subst hnew
        refine .inr ⟨id, getIoWorker_lt hid, ?_⟩
        rw [Function.update_self]
        exact waits_new (h.held id (getIoWorker_lt hid))
          (hturn p pass turn seq _ (workerOf_eq hid)) run
      · refine h.waiting_update _ _ (by omega) fun hwaits => .inl ?_
        exact hwaits.enqueue (h.held id (getIoWorker_lt hid)) run
  | schedule sqid nsecsTarget writeBuffer buffsToRelease id turns worker hid run =>
      intro t ht
      refine h.waiting_update _ _ ht fun hwaits => .inl ?_
      exact hwaits.enqueue (h.held id (getIoWorker_lt hid)) run
  | reclaim p id worker pass turn lt run =>
      intro t ht
      refine h.waiting_update _ _ ht fun hwaits => .inl ?_
      exact hwaits.reclaim (h.held id lt) run
  | work id now medium moved lt perform effect =>
      exact fun t ht => h.waiting_work _ moved lt ht
  | post id now medium moved w cq lt perform effect present =>
      exact fun t ht => h.waiting_work _ moved lt ht
  | release id now medium moved writeBuffer buffsToRelease lt perform effect =>
      exact fun t ht => h.waiting_work _ moved lt ht
  | _ => exact hstill rfl rfl rfl

theorem Consistent.flags_step (h : Consistent (vdev, log)) (hturn : InTurn vdev event)
    (vdev' : NvmevDev μ κ) :
    (log.record vdev event vdev').early = false ∧ (log.record vdev event vdev').stale = false := by
  have hearly : log.early = false := h.early
  have hstale : log.stale = false := h.stale
  cases event with
  | procIo cmd ret =>
      cases ret with
      | none => exact ⟨hearly, hstale⟩
      | some ret =>
          simp only [SlotLog.record]
          split <;> exact ⟨hearly, hstale⟩
  | worker id now =>
      have hreads : ∀ w, moves vdev id = some w →
          ((vdev.sqes w.sqid).map (fun sq => sq.sq w.sqEntry) != log.dispatched[w.ticket]?) =
            false := by
        intro w hmoves
        rw [h.moves_dispatched hmoves, bne_self_eq_false]
      have hreleases : ∀ w, completes vdev id now = some w → ∀ performed,
          log.performed ⊆ performed →
          ((releasedBy log vdev w).all fun t => performed.contains t) = true := by
        intro w hcompletes performed hsubset
        rw [List.all_eq_true]
        intro t ht
        exact List.contains_iff_mem.2 (hsubset (h.released_performed hturn hcompletes t ht))
      simp only [SlotLog.record, SlotLog.work]
      cases hmoves : moves vdev id with
      | none =>
          cases hcompletes : completes vdev id now with
          | none => exact ⟨hearly, hstale⟩
          | some w =>
              refine ⟨?_, hstale⟩
              have hall := hreleases w hcompletes log.performed (List.Subset.refl _)
              simp only [SlotLog.post, hearly, Bool.false_or, Bool.not_eq_false']
              exact hall
      | some w =>
          have hread := hreads w hmoves
          cases hcompletes : completes vdev id now with
          | none =>
              refine ⟨hearly, ?_⟩
              simp only [SlotLog.transfer, hstale, Bool.false_or]
              exact hread
          | some w' =>
              have hall := hreleases w' hcompletes (log.performed ++ [w.ticket])
                (List.subset_append_left _ _)
              refine ⟨?_, ?_⟩
              · simp only [SlotLog.post, SlotLog.transfer, hearly, Bool.false_or,
                  Bool.not_eq_false']
                exact hall
              · simp only [SlotLog.post, SlotLog.transfer, hstale, Bool.false_or]
                exact hread
  | _ => exact ⟨hearly, hstale⟩

theorem Consistent.reported_step (h : Consistent (vdev, log))
    (hstep : step be vdev event = .ok vdev') (q : Nat) :
    (log.record vdev event vdev').reported q ≤ nrAccepted vdev' q := by
  have hgrow : nrAccepted vdev q ≤ nrAccepted vdev' q := by
    rw [← indexOf_length, ← indexOf_extend (h.accepted_extend hstep).1 (Nat.le_refl _)]
    exact indexOf_le _ _
  have hold : log.reported q ≤ nrAccepted vdev q := h.reported q
  refine Nat.le_trans ?_ hgrow
  rcases record_reported log vdev vdev' event with hsame | ⟨id, now, w, -, -, hnew⟩
  · rw [hsame]
    exact hold
  · rw [hnew]
    by_cases heq : q = w.sqid
    · subst heq
      rw [Function.update_self]
      exact Nat.max_le.2 ⟨hold, indexOf_le _ _⟩
    · rw [Function.update_of_ne heq]
      exact hold

theorem Consistent.room_step (h : Consistent (vdev, log)) (hrule : SlotRule (vdev, log) event)
    (hstep : step be vdev event = .ok vdev') {q : Nat} {sq' : SubmissionQueue κ}
    (hsq' : vdev'.sqes q = some sq') :
    (log.record vdev event vdev').ring.submitted q <
      (log.record vdev event vdev').reported q + sq'.queueSize := by
  obtain ⟨sq, hsq, hsize⟩ := step_queueSize hstep hsq'
  have hroom : log.ring.submitted q < log.reported q + sq.queueSize := h.room q sq hsq
  have hle := reported_le log vdev vdev' event q
  have hsubmitted : recordRing log.ring vdev event q < log.reported q + sq.queueSize := by
    cases event with
    | hostRing sqid db =>
        by_cases heq : q = sqid
        · subst heq
          simp only [recordRing, hsq, Function.update_self]
          exact (hrule sq hsq).2
        · have hsame : recordRing log.ring vdev (.hostRing sqid db) q = log.ring.submitted q := by
            cases hsqid : vdev.sqes sqid with
            | none => simp only [recordRing, hsqid]
            | some sq => simp only [recordRing, hsqid, Function.update_of_ne heq]
          rw [hsame]
          exact hroom
    | _ => exact hroom
  rw [record_ring]
  dsimp only [RingLog.record]
  omega

theorem Consistent.step (h : Consistent (vdev, log)) (hrule : SlotRule (vdev, log) event)
    (hturn : InTurn vdev event) (hstep : step be vdev event = .ok vdev') :
    Consistent (vdev', log.record vdev event vdev') where
  ring := by
    rw [record_ring]
    exact h.ring.step (h.tailRule hrule) hstep
  reported := h.reported_step hstep
  room _ _ hsq' := h.room_step hrule hstep hsq'
  dispatched := (h.accepted_extend hstep).2.2
  held := (h.held_step hrule hturn hstep).2
  waiting := h.waiting_step hturn hstep
  early := (h.flags_step hturn vdev').1
  stale := (h.flags_step hturn vdev').2

end Steps

/-- When commands are dispatched in order, no completion gives back a slot whose data
has not been moved, and no transfer reads a command the host has replaced. -/
theorem slots_kept_until_moved [DecidableEq κ] (be : Backend μ κ) (start : NvmevDev μ κ)
    (hstart : Started start)
    (hfresh : ∀ q sq, start.sqes q = some sq →
      0 < sq.queueSize ∧ start.dbs q = 0 ∧ start.oldDbs q = 0)
    {s : NvmevDev μ κ × SlotLog κ}
    (hrun : ReflTransGen (fun s s' => ∃ event, SlotRule s event ∧ InOrder s.1 event ∧
      slotStep be s event = .ok s') (start, .empty) s) :
    s.2.early = false ∧ s.2.stale = false := by
  have hconsistent : Lined s.1 ∧ Consistent s := by
    induction hrun with
    | refl => exact ⟨lined_start hstart, consistent_start hstart hfresh⟩
    | @tail s₁ s₂ _ hstep ih =>
        obtain ⟨event, hrule, horder, hstep⟩ := hstep
        obtain ⟨hlined, hold⟩ := ih
        obtain ⟨vdev', hdev, hstep⟩ := exists_of_bind_eq_ok hstep
        cases hstep
        have hturn := inTurn_of_inOrder hlined horder
        exact ⟨hlined.step horder hdev, hold.step hrule hturn hdev⟩
  exact ⟨hconsistent.2.early, hconsistent.2.stale⟩

/-- One worker, a submission queue of four slots and its completion queue. -/
def fourSlots : NvmevDev Unit Nat :=
  { bareController.dev with
    sqes := fun q => if q = 1 then some (newSq 1 3 id) else none
    cqes := fun q => if q = 1 then some (newCq 3 fun _ => ⟨0, 0, 0, 0, 0, 0⟩) else none }

/-- The dispatch of two commands that are due at `first` and at `second`. -/
def twoCommands (first second : Nat) : List (Event Nat) :=
  [.hostRing 1 2, .beginPass 1, .procIo 0 (some ⟨0, first, 0⟩), .reclaim, .reclaim,
    .procIo 1 (some ⟨0, second, 0⟩), .reclaim, .reclaim, .procIo 0 none]

/-- The worker completes both, and the host writes to slot 0 again. -/
def dueInOrder : List (Event Nat) :=
  twoCommands 5 20 ++ [.worker 0 20, .worker 0 20, .worker 0 20, .hostWrite 1 0 77]

/-- The host writes to slot 0 as soon as the second command is completed. -/
def lateFirst : List (Event Nat) :=
  twoCommands 100 5 ++ [.worker 0 10, .worker 0 10, .hostWrite 1 0 77, .worker 0 10]

theorem slots_kept_until_moved_in_order :
    ∃ s : NvmevDev Unit Nat × SlotLog Nat, s.2.performed = [0, 1] ∧ s.2.reported 1 = 1 ∧
      s.2.early = false ∧ s.2.stale = false := by
  let careful (s : NvmevDev Unit Nat × SlotLog Nat) (event : Event Nat) :=
    if SlotRule s event ∧ InOrder s.1 event then slotStep namedBackend s event
    else .error (.bugOn .procIoSq)
  let test (s : NvmevDev Unit Nat × SlotLog Nat) : Bool :=
    s.2.performed == [0, 1] && s.2.reported 1 == 1
  obtain ⟨s, hrun, htest⟩ :
      ∃ s, dueInOrder.foldlM careful (fourSlots, .empty) = .ok s ∧ test s = true :=
    exists_of_returns (by decide +kernel)
  simp only [test, Bool.and_eq_true, beq_iff_eq] at htest
  refine ⟨s, htest.1, htest.2, slots_kept_until_moved namedBackend fourSlots
    ⟨fun _ => rfl, rfl, rfl, rfl⟩ ?_ (reflTransGen_of_foldlM _ ?_ hrun)⟩
  · intro q sq hsq
    simp only [fourSlots] at hsq
    split at hsq
    · cases hsq
      exact ⟨Nat.succ_pos 3, rfl, rfl⟩
    · cases hsq
  · intro event _ s s' hstep
    simp only [careful] at hstep
    split at hstep
    · next hcond => exact ⟨event, hcond.1, hcond.2, hstep⟩
    · cases hstep

/-- The command in slot 1 is due first: its completion gives back slot 0, and the
worker reads what the host wrote there in the meantime. -/
theorem slot_released_early :
    ∃ s : NvmevDev Unit Nat × SlotLog Nat,
      ReflTransGen (fun s s' => ∃ event, SlotRule s event ∧
        slotStep namedBackend s event = .ok s') (fourSlots, .empty) s ∧
      s.2.early = true ∧ s.2.stale = true := by
  let ruled (s : NvmevDev Unit Nat × SlotLog Nat) (event : Event Nat) :=
    if SlotRule s event then slotStep namedBackend s event else .error (.bugOn .procIoSq)
  obtain ⟨s, hrun, hearly, hstale⟩ :
      ∃ s, lateFirst.foldlM ruled (fourSlots, .empty) = .ok s ∧
        s.2.early = true ∧ s.2.stale = true := by
    simpa using exists_of_returns (x := lateFirst.foldlM ruled (fourSlots, .empty))
      (p := fun s => s.2.early && s.2.stale) (by decide +kernel)
  refine ⟨s, reflTransGen_of_foldlM _ ?_ hrun, hearly, hstale⟩
  intro event _ s s' hstep
  simp only [ruled] at hstep
  split at hstep
  · next hrule => exact ⟨event, hrule, hstep⟩
  · cases hstep

end NvmeVirt.SlotRelease
