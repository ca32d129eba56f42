import NvmeVirt.AdminQueues
import NvmeVirt.PhaseRing

namespace NvmeVirt.SubmissionRing

open AdminQueues
open FaultOutcome
open IoDispatch
open IoSteps
open IoWorkers
open PhaseRing
open Relation
open WriteBuffer

variable {μ κ : Type}

/-- What the host submitted: how many entries of each queue so far, and how many
of them when the last pass over the queue began. -/
structure RingLog where
  submitted : Nat → Nat
  seen : Nat → Nat

def RingLog.empty : RingLog where
  submitted _ := 0
  seen _ := 0

/-- The entries of queue `q` that `__nvmev_proc_io` accepted, in order. -/
def acceptedOf (vdev : NvmevDev μ κ) (q : Nat) : List Nat :=
  (vdev.accepted.filter fun a => a.sqid = q).map Accepted.sqEntry

def nrAccepted (vdev : NvmevDev μ κ) (q : Nat) : Nat := (acceptedOf vdev q).length

/-- The pass of `nvmev_proc_io_sq` over queue `q`, if it is being made. -/
def passOn (vdev : NvmevDev μ κ) (q : Nat) : Option Pass :=
  vdev.pass.filter fun p => p.sqid = q

def recordRing (log : RingLog) (vdev : NvmevDev μ κ) : Event κ → Nat → Nat
  | .hostRing sqid db =>
      match vdev.sqes sqid with
      | none => log.submitted
      | some sq => Function.update log.submitted sqid
          (log.submitted sqid + distance sq.queueSize (vdev.dbs sqid) db)
  | _ => log.submitted

def recordSeen (log : RingLog) (vdev vdev' : NvmevDev μ κ) : Nat → Nat :=
  match vdev.pass, vdev'.pass with
  | none, some p => Function.update log.seen p.sqid (log.submitted p.sqid)
  | _, _ => log.seen

def RingLog.record (log : RingLog) (vdev : NvmevDev μ κ) (event : Event κ)
    (vdev' : NvmevDev μ κ) : RingLog where
  submitted := recordRing log vdev event
  seen := recordSeen log vdev vdev'

def ringStep (be : Backend μ κ) (s : NvmevDev μ κ × RingLog) (event : Event κ) :
    Except Fault (NvmevDev μ κ × RingLog) := do
  let vdev' ← step be s.1 event
  return (vdev', s.2.record s.1 event vdev')

/-- The host rings with slots of the queue and never has more than
`queue_size - 1` entries waiting to be accepted. -/
def TailRule (s : NvmevDev μ κ × RingLog) : Event κ → Prop
  | .hostRing sqid db =>
      ∀ sq, s.1.sqes sqid = some sq → db < sq.queueSize ∧
        s.2.submitted sqid + distance sq.queueSize (s.1.dbs sqid) db <
          nrAccepted s.1 sqid + sq.queueSize
  | _ => True

instance (s : NvmevDev μ κ × RingLog) (event : Event κ) : Decidable (TailRule s event) :=
  match event with
  | .hostRing sqid db =>
      inferInstanceAs (Decidable (∀ sq ∈ s.1.sqes sqid, db < sq.queueSize ∧
        s.2.submitted sqid + distance sq.queueSize (s.1.dbs sqid) db <
          nrAccepted s.1 sqid + sq.queueSize))
  | .hostWrite _ _ _ => .isTrue trivial
  | .beginPass _ => .isTrue trivial
  | .procIo _ _ => .isTrue trivial
  | .internal _ _ _ _ => .isTrue trivial
  | .reclaim => .isTrue trivial
  | .worker _ _ => .isTrue trivial

/-- A pass over a queue of `n` slots: `accepted` entries were accepted so far, of
the `seen` that were submitted when it began. -/
structure PassAt (n accepted seen : Nat) (p : Pass) (base : Nat) : Prop where
  oldDb : p.oldDb = base % n
  sqEntry : p.sqEntry = (base + p.seq) % n
  numProc : base + p.numProc = seen
  before : p.turn = none → base + p.seq = accepted ∧ p.seq ≤ p.numProc
  after : p.turn ≠ none → base + p.seq + 1 = accepted ∧ p.seq < p.numProc

/-- The state of one submission queue of `n` slots. -/
structure InRing (n submitted seen db oldDb : Nat) (entries : List Nat)
    (on : Option Pass) : Prop where
  pos : 0 < n
  order : entries = (List.range entries.length).map (· % n)
  tail : db = submitted % n
  behind : entries.length ≤ submitted
  room : submitted < entries.length + n
  away : on = none → oldDb = entries.length % n
  inside : ∀ p, on = some p → seen ≤ submitted ∧ ∃ base, PassAt n entries.length seen p base

namespace InRing

variable {n submitted seen db oldDb : Nat} {entries : List Nat} {on : Option Pass} {p : Pass}

theorem start (hn : 0 < n) (seen : Nat) : InRing n 0 seen 0 0 [] none where
  pos := hn
  order := rfl
  tail := by simp
  behind := Nat.le_refl 0
  room := by simpa using hn
  away _ := by simp
  inside := by simp

theorem ring (h : InRing n submitted seen db oldDb entries on) {db' : Nat} (hdb : db' < n)
    (hroom : submitted + distance n db db' < entries.length + n) :
    InRing n (submitted + distance n db db') seen db' oldDb entries on where
  pos := h.pos
  order := h.order
  tail := by rw [h.tail, distance_mod hdb]
  behind := Nat.le_trans h.behind (Nat.le_add_right _ _)
  room := hroom
  away := h.away
  inside p hp := by
    obtain ⟨hseen, hpass⟩ := h.inside p hp
    exact ⟨Nat.le_trans hseen (Nat.le_add_right _ _), hpass⟩

theorem enter (h : InRing n submitted seen db oldDb entries none) (q : Nat) :
    InRing n submitted submitted db oldDb entries (some
      { sqid := q
        oldDb := oldDb
        numProc := if db < oldDb then db + n - oldDb else db - oldDb
        seq := 0
        sqEntry := oldDb
        turn := none }) where
  pos := h.pos
  order := h.order
  tail := h.tail
  behind := h.behind
  room := h.room
  away := by simp
  inside p hp := by
    have hold := h.away rfl
    cases hp
    refine ⟨Nat.le_refl _, entries.length, hold, hold, ?_, ?_, ?_⟩
    · rw [h.tail, hold, sub_of_mod h.behind h.room]
      exact Nat.add_sub_of_le h.behind
    · exact fun _ => ⟨rfl, Nat.zero_le _⟩
    · exact fun hturn => absurd rfl hturn

theorem leave (h : InRing n submitted seen db oldDb entries (some p)) (hturn : p.turn = none) :
    InRing n submitted seen db ((p.oldDb + p.seq) % n) entries none where
  pos := h.pos
  order := h.order
  tail := h.tail
  behind := h.behind
  room := h.room
  away _ := by
    obtain ⟨-, base, hpass⟩ := h.inside p rfl
    rw [hpass.oldDb, Nat.mod_add_mod, (hpass.before hturn).1]
  inside := by simp

theorem accept (h : InRing n submitted seen db oldDb entries (some p)) (hturn : p.turn = none)
    (hseq : p.seq < p.numProc) :
    InRing n submitted seen db oldDb (entries ++ [p.sqEntry])
      (some { p with turn := some 0 }) := by
  obtain ⟨hseen, base, hpass⟩ := h.inside p rfl
  obtain ⟨hcount, -⟩ := hpass.before hturn
  have hnum := hpass.numProc
  refine ⟨h.pos, ?_, h.tail, ?_, ?_, by simp, ?_⟩
  · rw [List.length_append, List.length_singleton, List.range_succ, List.map_append, ← h.order,
      List.map_singleton, hpass.sqEntry, hcount]
  · rw [List.length_append, List.length_singleton]
    omega
  · have hroom := h.room
    rw [List.length_append, List.length_singleton]
    omega
  · intro p' hp'
    cases hp'
    refine ⟨hseen, base, hpass.oldDb, hpass.sqEntry, hnum, nofun, ?_⟩
    intro _
    rw [List.length_append, List.length_singleton]
    exact ⟨by rw [hcount], hseq⟩

theorem reclaim (h : InRing n submitted seen db oldDb entries (some p)) {id : Nat}
    (hturn : p.turn = some id) :
    InRing n submitted seen db oldDb entries (some { p with turn := some (id + 1) }) := by
  obtain ⟨hseen, base, hpass⟩ := h.inside p rfl
  refine ⟨h.pos, h.order, h.tail, h.behind, h.room, by simp, ?_⟩
  intro p' hp'
  cases hp'
  exact ⟨hseen, base, hpass.oldDb, hpass.sqEntry, hpass.numProc, nofun,
    fun _ => hpass.after (by simp [hturn])⟩

theorem advance (h : InRing n submitted seen db oldDb entries (some p)) {id : Nat}
    (hturn : p.turn = some id) :
    InRing n submitted seen db oldDb entries (some
      { p with
        seq := p.seq + 1
        sqEntry := if p.sqEntry + 1 = n then 0 else p.sqEntry + 1
        turn := none }) := by
  obtain ⟨hseen, base, hpass⟩ := h.inside p rfl
  obtain ⟨hcount, hlt⟩ := hpass.after (by simp [hturn])
  refine ⟨h.pos, h.order, h.tail, h.behind, h.room, by simp, ?_⟩
  intro p' hp'
  cases hp'
  refine ⟨hseen, base, hpass.oldDb, ?_, hpass.numProc, fun _ => ⟨hcount, hlt⟩, ?_⟩
  · dsimp only
    rw [hpass.sqEntry, succ_mod h.pos, Nat.add_assoc]
  · exact fun hturn' => absurd rfl hturn'

end InRing

def AllInRing (s : NvmevDev μ κ × RingLog) : Prop :=
  ∀ q sq, s.1.sqes q = some sq →
    InRing sq.queueSize (s.2.submitted q) (s.2.seen q) (s.1.dbs q) (s.1.oldDbs q)
      (acceptedOf s.1 q) (passOn s.1 q)

section Steps

variable {be : Backend μ κ} {vdev vdev' : NvmevDev μ κ} {log : RingLog} {event : Event κ}
  {p : Pass} {q : Nat}

theorem passOn_none (h : vdev.pass = none) (q : Nat) : passOn vdev q = none := by
  rw [passOn, h]
  rfl

theorem passOn_eq (h : vdev.pass = some p) (hq : p.sqid = q) : passOn vdev q = some p := by
  rw [passOn, h, Option.filter_some, if_pos (by simpa using hq)]

theorem passOn_of_ne (h : vdev.pass = some p) (hne : q ≠ p.sqid) : passOn vdev q = none := by
  rw [passOn, h, Option.filter_some, if_neg (by simpa using Ne.symm hne)]

theorem acceptedOf_append {a : Accepted} (h : vdev'.accepted = vdev.accepted ++ [a]) (q : Nat) :
    acceptedOf vdev' q = acceptedOf vdev q ++ if a.sqid = q then [a.sqEntry] else [] := by
  rw [acceptedOf, h, List.filter_append, List.map_append]
  congr 1
  split <;> simp_all

theorem recordSeen_of_same (h : vdev'.pass = vdev.pass) : recordSeen log vdev vdev' = log.seen := by
  rw [recordSeen, h]
  cases vdev.pass <;> rfl

theorem recordSeen_of_some (h : vdev.pass = some p) : recordSeen log vdev vdev' = log.seen := by
  rw [recordSeen, h]

theorem AllInRing.still (h : AllInRing (vdev, log)) (hstep : step be vdev event = .ok vdev')
    (hsubmitted : recordRing log vdev event = log.submitted) (hpass : vdev'.pass = vdev.pass)
    (hdbs : vdev'.dbs = vdev.dbs) (hold : vdev'.oldDbs = vdev.oldDbs)
    (haccepted : vdev'.accepted = vdev.accepted) :
    AllInRing (vdev', log.record vdev event vdev') := by
  intro q sq' hsq'
  obtain ⟨sq, hsq, hsize⟩ := step_queueSize hstep hsq'
  have hq := h q sq hsq
  simp only [RingLog.record, hsubmitted, recordSeen_of_same hpass, hdbs, hold, acceptedOf,
    haccepted, passOn, hpass, ← hsize]
  exact hq

theorem AllInRing.within (h : AllInRing (vdev, log)) (hstep : step be vdev event = .ok vdev')
    (hsubmitted : recordRing log vdev event = log.submitted) (hpass : vdev.pass = some p)
    (hpass' : ∀ p', vdev'.pass = some p' → p'.sqid = p.sqid)
    (hdbs : vdev'.dbs = vdev.dbs) (hold : ∀ q, q ≠ p.sqid → vdev'.oldDbs q = vdev.oldDbs q)
    (haccepted : ∀ q, q ≠ p.sqid → acceptedOf vdev' q = acceptedOf vdev q)
    (hown : ∀ n, InRing n (log.submitted p.sqid) (log.seen p.sqid) (vdev.dbs p.sqid)
        (vdev.oldDbs p.sqid) (acceptedOf vdev p.sqid) (some p) →
      (∃ sq, vdev.sqes p.sqid = some sq ∧ sq.queueSize = n) →
      InRing n (log.submitted p.sqid) (log.seen p.sqid) (vdev.dbs p.sqid)
        (vdev'.oldDbs p.sqid) (acceptedOf vdev' p.sqid) (passOn vdev' p.sqid)) :
    AllInRing (vdev', log.record vdev event vdev') := by
  intro q sq' hsq'
  obtain ⟨sq, hsq, hsize⟩ := step_queueSize hstep hsq'
  have hq := h q sq hsq
  simp only [RingLog.record, hsubmitted, recordSeen_of_some hpass, hdbs, ← hsize]
  by_cases heq : q = p.sqid
  · subst heq
    rw [passOn_eq hpass rfl] at hq
    exact hown _ hq ⟨sq, hsq, rfl⟩
  · have haway : passOn vdev' q = none := by
      cases hnow : vdev'.pass with
      | none => exact passOn_none hnow q
      | some p' => exact passOn_of_ne hnow (by rw [hpass' p' hnow]; exact heq)
    rw [passOn_of_ne hpass heq] at hq
    rw [haway, hold q heq, haccepted q heq]
    exact hq

theorem AllInRing.leaves {sq : SubmissionQueue κ} (h : AllInRing (vdev, log))
    (hstep : step be vdev event = .ok vdev')
    (hsubmitted : recordRing log vdev event = log.submitted) (hpass : vdev.pass = some p)
    (hpresent : vdev.sqes p.sqid = some sq) (hturn : p.turn = none) (hpass' : vdev'.pass = none)
    (hdbs : vdev'.dbs = vdev.dbs) (haccepted : vdev'.accepted = vdev.accepted)
    (hold : vdev'.oldDbs =
      Function.update vdev.oldDbs p.sqid ((p.oldDb + p.seq) % sq.queueSize)) :
    AllInRing (vdev', log.record vdev event vdev') := by
  have hsame : ∀ q, acceptedOf vdev' q = acceptedOf vdev q := by
    intro q
    rw [acceptedOf, haccepted, acceptedOf]
  refine h.within hstep hsubmitted hpass ?_ hdbs ?_ (fun q _ => hsame q) ?_
  · intro p' hp'
    rw [hpass'] at hp'
    cases hp'
  · intro q hne
    rw [hold, Function.update_of_ne hne]
  · rintro n hq ⟨sq', hsq', rfl⟩
    rw [hpresent] at hsq'
    cases hsq'
    rw [hold, Function.update_self, hsame, passOn_none hpass']
    exact hq.leave hturn

theorem AllInRing.rings {sqid db : Nat} (h : AllInRing (vdev, log))
    (hrule : TailRule (vdev, log) (.hostRing sqid db)) :
    AllInRing ({ vdev with dbs := Function.update vdev.dbs sqid db },
      log.record vdev (.hostRing sqid db)
        { vdev with dbs := Function.update vdev.dbs sqid db }) := by
  intro q sq hsq
  have hq := h q sq hsq
  have hsame : recordSeen log vdev
      { vdev with dbs := Function.update vdev.dbs sqid db } = log.seen :=
    recordSeen_of_same rfl
  simp only [RingLog.record, hsame]
  by_cases heq : q = sqid
  · subst heq
    obtain ⟨hdb, hroom⟩ := hrule sq hsq
    have hpresent : vdev.sqes q = some sq := hsq
    simp only [recordRing, hpresent, Function.update_self]
    exact hq.ring hdb hroom
  · have hsubmitted : recordRing log vdev (.hostRing sqid db) q = log.submitted q := by
      cases hsqid : vdev.sqes sqid with
      | none => simp only [recordRing, hsqid]
      | some sq => simp only [recordRing, hsqid, Function.update_of_ne heq]
    rw [hsubmitted, Function.update_of_ne heq]
    exact hq

theorem AllInRing.step (h : AllInRing (vdev, log)) (hrule : TailRule (vdev, log) event)
    (hstep : step be vdev event = .ok vdev') :
    AllInRing (vdev', log.record vdev event vdev') := by
  cases step_result hstep with
  | idle _ _ host =>
      refine h.still hstep ?_ rfl rfl rfl rfl
      cases event with
      | hostRing sqid db => exact absurd rfl (host sqid db)
      | _ => rfl
  | hostWrite sqid slot cmd => exact h.still hstep rfl rfl rfl rfl rfl
  | hostRing sqid db => exact h.rings hrule
  | beginPass sqid sq pass present rung =>
      intro q sq' hsq'
      have hq := h q sq' hsq'
      simp only [RingLog.record, recordSeen, pass, recordRing]
      rw [passOn_none pass] at hq
      by_cases heq : q = sqid
      · subst heq
        have hsq : some sq = some sq' := present.symm.trans hsq'
        cases hsq
        simp only [Function.update_self]
        rw [passOn_eq (q := q) rfl rfl]
        exact hq.enter q
      · rw [Function.update_of_ne heq, passOn_of_ne rfl heq]
        exact hq
  | finish cmd ret p sq pass present turn seq =>
      exact h.leaves hstep rfl pass present turn rfl rfl rfl rfl
  | refuse cmd p sq pass present turn seq =>
      exact h.leaves hstep rfl pass present turn rfl rfl rfl rfl
  | accept cmd ret p sq id turns worker pass present turn seq hid run =>
      refine h.within hstep rfl pass ?_ rfl (fun _ _ => rfl) ?_ ?_
      · rintro p' hp'
        cases hp'
        rfl
      · intro q hne
        rw [acceptedOf_append rfl, if_neg (Ne.symm hne), List.append_nil]
      · rintro n hq -
        rw [acceptedOf_append rfl, if_pos rfl]
        rw [passOn_eq (p := { p with turn := some 0 }) rfl rfl]
        exact hq.accept turn seq
  | schedule sqid nsecsTarget writeBuffer buffsToRelease id turns worker hid run =>
      exact h.still hstep rfl rfl rfl rfl rfl
  | reclaim p id worker pass turn lt run =>
      refine h.within hstep rfl pass ?_ rfl (fun _ _ => rfl) (fun _ _ => rfl) ?_
      · rintro p' hp'
        cases hp'
        rfl
      · rintro n hq -
        rw [passOn_eq (p := { p with turn := some (id + 1) }) rfl rfl]
        exact hq.reclaim turn
  | advance p id sq pass turn present =>
      refine h.within hstep rfl pass ?_ rfl (fun _ _ => rfl) (fun _ _ => rfl) ?_
      · rintro p' hp'
        cases hp'
        rfl
      · rintro n hq ⟨sq', hsq', rfl⟩
        rw [present] at hsq'
        cases hsq'
        rw [passOn_eq (p :=
          { p with
            seq := p.seq + 1
            sqEntry := if p.sqEntry + 1 = sq.queueSize then 0 else p.sqEntry + 1
            turn := none }) rfl rfl]
        exact hq.advance turn
  | work id now medium moved lt perform effect => exact h.still hstep rfl rfl rfl rfl rfl
  | post id now medium moved w cq lt perform effect present =>
      exact h.still hstep rfl rfl rfl rfl rfl
  | release id now medium moved writeBuffer buffsToRelease lt perform effect =>
      exact h.still hstep rfl rfl rfl rfl rfl

end Steps

/-- The order in which the dispatcher works through one queue. -/
structure DispatchedInOrder (s : NvmevDev μ κ × RingLog) (q n : Nat) : Prop where
  /-- Each accepted entry follows the one before in the ring. -/
  order : acceptedOf s.1 q = (List.range (nrAccepted s.1 q)).map (· % n)
  /-- Nothing beyond the tail was accepted. -/
  behind : nrAccepted s.1 q ≤ s.2.submitted q
  /-- What `nvmev_proc_io_sq` returned: the first entry not yet accepted. -/
  returned : passOn s.1 q = none → s.1.oldDbs q = nrAccepted s.1 q % n
  /-- Only the first entry not yet accepted, which was submitted, is looked at. -/
  touched : ∀ p, passOn s.1 q = some p → p.turn = none → p.seq < p.numProc →
    p.sqEntry = nrAccepted s.1 q % n ∧ nrAccepted s.1 q < s.2.submitted q
  /-- A pass that is never refused accepts all that was submitted when it began. -/
  drained : ∀ p, passOn s.1 q = some p → p.turn = none → p.numProc ≤ p.seq →
    nrAccepted s.1 q = s.2.seen q
  /-- A pass is due exactly when an entry waits. -/
  due : passOn s.1 q = none →
    (s.1.dbs q ≠ s.1.oldDbs q ↔ nrAccepted s.1 q < s.2.submitted q)

theorem AllInRing.dispatched {s : NvmevDev μ κ × RingLog} (h : AllInRing s) {q : Nat}
    {sq : SubmissionQueue κ} (hsq : s.1.sqes q = some sq) :
    DispatchedInOrder s q sq.queueSize := by
  have hq := h q sq hsq
  have hbehind := hq.behind
  have hroom := hq.room
  refine ⟨hq.order, hbehind, hq.away, ?_, ?_, ?_⟩
  · intro p hp hturn hseq
    obtain ⟨hseen, base, hpass⟩ := hq.inside p hp
    obtain ⟨hcount, -⟩ := hpass.before hturn
    have hnum := hpass.numProc
    refine ⟨by rw [hpass.sqEntry, hcount]; rfl, ?_⟩
    rw [nrAccepted]
    omega
  · intro p hp hturn hseq
    obtain ⟨hseen, base, hpass⟩ := hq.inside p hp
    obtain ⟨hcount, hle⟩ := hpass.before hturn
    have hnum := hpass.numProc
    rw [nrAccepted]
    omega
  · intro hp
    rw [hq.tail, hq.away hp, nrAccepted]
    constructor
    · intro hne
      refine lt_of_le_of_ne hbehind ?_
      intro heq
      exact hne (by rw [heq])
    · intro hlt heq
      exact mod_ne_of_close hlt hroom heq.symm

/-- Whatever is refused and however the host rings, the dispatcher works through
every submission queue in ring order. -/
theorem submissions_dispatched_in_order (be : Backend μ κ) (start : NvmevDev μ κ)
    (hpass : start.pass = none) (haccepted : start.accepted = [])
    (hfresh : ∀ q sq, start.sqes q = some sq →
      0 < sq.queueSize ∧ start.dbs q = 0 ∧ start.oldDbs q = 0)
    {s : NvmevDev μ κ × RingLog}
    (hrun : ReflTransGen (fun s s' => ∃ event, TailRule s event ∧
      ringStep be s event = .ok s') (start, .empty) s)
    {q : Nat} {sq : SubmissionQueue κ} (hsq : s.1.sqes q = some sq) :
    DispatchedInOrder s q sq.queueSize := by
  have hall : AllInRing s := by
    clear hsq
    induction hrun with
    | refl =>
        intro q sq hsq
        obtain ⟨hpos, hdb, hold⟩ := hfresh q sq hsq
        have hstart := InRing.start hpos 0
        simp only [RingLog.empty, acceptedOf, haccepted, passOn_none hpass, hdb, hold]
        exact hstart
    | @tail s₁ s₂ _ hstep ih =>
        obtain ⟨event, hrule, hstep⟩ := hstep
        obtain ⟨vdev', hdev, hstep⟩ := exists_of_bind_eq_ok hstep
        cases hstep
        exact ih.step hrule hdev
  exact hall.dispatched hsq

def twoSlots : NvmevDev Unit Nat :=
  { bareController.dev with sqes := fun q => if q = 1 then some (newSq 1 1 id) else none }

/-- Three commands around the ring, the second one refused at first. -/
def refusedOnce : List (Event Nat) :=
  [.hostRing 1 1, .beginPass 1, .procIo 0 (some ⟨0, 5, 0⟩), .reclaim, .reclaim, .procIo 0 none,
    .hostRing 1 0, .beginPass 1, .procIo 1 none,
    .beginPass 1, .procIo 1 (some ⟨0, 5, 0⟩), .reclaim, .reclaim, .procIo 0 none,
    .hostRing 1 1, .beginPass 1, .procIo 0 (some ⟨0, 5, 0⟩)]

theorem submissions_dispatched_in_order_refused_once :
    ∃ s : NvmevDev Unit Nat × RingLog, acceptedOf s.1 1 = [0, 1, 0] ∧
      DispatchedInOrder s 1 2 := by
  let careful (s : NvmevDev Unit Nat × RingLog) (event : Event Nat) :=
    if TailRule s event then ringStep namedBackend s event else .error (.bugOn .procIoSq)
  let test (s : NvmevDev Unit Nat × RingLog) : Bool :=
    acceptedOf s.1 1 == [0, 1, 0] && ((s.1.sqes 1).map SubmissionQueue.queueSize == some 2)
  obtain ⟨s, hrun, htest⟩ :
      ∃ s, refusedOnce.foldlM careful (twoSlots, .empty) = .ok s ∧ test s = true :=
    exists_of_returns (by decide +kernel)
  simp only [test, Bool.and_eq_true, beq_iff_eq, Option.map_eq_some_iff] at htest
  obtain ⟨haccepted, sq, hsq, hsize⟩ := htest
  refine ⟨s, haccepted, hsize ▸ submissions_dispatched_in_order namedBackend twoSlots rfl rfl
    ?_ (reflTransGen_of_foldlM _ ?_ hrun) hsq⟩
  · intro q sq hsq
    simp only [twoSlots] at hsq
    split at hsq
    · cases hsq
      exact ⟨Nat.two_pos, rfl, rfl⟩
    · cases hsq
  · intro event _ s s' hstep
    simp only [careful] at hstep
    split at hstep
    · next hrule => exact ⟨event, hrule, hstep⟩
    · cases hstep

end NvmeVirt.SubmissionRing
