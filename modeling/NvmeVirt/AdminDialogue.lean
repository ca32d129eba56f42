import Mathlib.Data.List.Infix
import Mathlib.Logic.Relation
import NvmeVirt.AdminRestart
import NvmeVirt.RingFifo

namespace NvmeVirt.AdminDialogue

open AdminQueues
open AdminRegisters
open AdminRestart
open CompletionPhase
open FaultOutcome
open IoDispatch
open PhaseRing
open Relation
open RingFifo
open WriteBuffer

variable {μ κ : Type}

/-- The host brings the controller up: a register it writes is seen a look later. -/
def setUp (regs : CtrlRegs) (sqMemory : Nat → AdminCommand κ) (cqMemory : Nat → Completion) :
    List (AdminEvent κ) :=
  [.writeAqa regs.aqa, .writeAsq regs.asq, .writeAcq regs.acq, .procBars sqMemory cqMemory,
    .procBars sqMemory cqMemory, .procBars sqMemory cqMemory, .writeCc regs.cc,
    .procBars sqMemory cqMemory]

/-- Values the device notices, none of which asks for a shutdown. -/
structure Startable (regs : CtrlRegs) : Prop where
  aqa_pos : 0 < regs.aqa
  aqa_lt : regs.aqa < 2 ^ 32
  asq_pos : 0 < regs.asq
  asq_lt : regs.asq < 2 ^ 64
  acq_pos : 0 < regs.acq
  acq_lt : regs.acq < 2 ^ 64
  cc_lt : regs.cc < 2 ^ 32
  shn_ne : regs.shn ≠ 1

/-- The device and the host. The host keeps the tail of the submission ring, and `submitted`
lists what it has put there. -/
structure Dialogue (μ κ : Type) where
  vdev : AdminVdev μ κ
  tail : Nat
  host : Host
  submitted : List (AdminCommand κ)

/-- What the completion of a command tells the host, if there is one. -/
def answerOf (cmd : AdminCommand κ) : Option Answer :=
  match cmd.request with
  | .abort => none
  | .other ret result0 result1 =>
      some ⟨cmd.commandId % 2 ^ 16, 0, ret % 2 ^ 15, result0, result1⟩
  | _ => some ⟨cmd.commandId % 2 ^ 16, 0, 0, 0, 0⟩

def reply (cqe : Completion) : Nat × Answer := (cqe.sqHead, answer cqe)

/-- The replies to commands, the first of which is the `k`-th in a ring of `depth` slots. -/
def repliesFrom (depth : Nat) : Nat → List (AdminCommand κ) → List (Nat × Answer)
  | _, [] => []
  | k, cmd :: cmds =>
      (answerOf cmd).toList.map (fun a => (k % depth % 2 ^ 16, a)) ++ repliesFrom depth (k + 1) cmds

/-- `__nvmev_admin_create_sq` clears the doorbell of the queue it creates, which for queue 0
is the one of the admin queue. -/
def CreatesSqZero (cmd : AdminCommand κ) : Prop :=
  match cmd.request with
  | .createSq sqid _ _ _ => sqid = 0
  | _ => False

instance (cmd : AdminCommand κ) : Decidable (CreatesSqZero cmd) :=
  match h : cmd.request with
  | .createSq sqid _ _ _ => decidable_of_iff (sqid = 0) (by simp [CreatesSqZero, h])
  | .createCq _ _ _ => .isFalse (by simp [CreatesSqZero, h])
  | .deleteCq _ => .isFalse (by simp [CreatesSqZero, h])
  | .deleteSq _ => .isFalse (by simp [CreatesSqZero, h])
  | .abort => .isFalse (by simp [CreatesSqZero, h])
  | .other _ _ _ => .isFalse (by simp [CreatesSqZero, h])

/-- One move of the host or the dispatcher. The host leaves a slot of the submission ring
free and waits for no more answers than the completion ring has slots; its commands name
queues that have a place, and those of `AdminRequest.other` are ones whose handler returns. -/
inductive Talk : Dialogue μ κ → Dialogue μ κ → Prop where
  | submit (s : Dialogue μ κ) (q : MappedQueue κ) (cmd : AdminCommand κ)
      (queue : s.vdev.adminQ = some q) (valid : ¬CreatesSqZero cmd)
      (indexed : cmd.request.Indexed)
      (room : distance q.queue.sqDepth (s.vdev.dev.oldDbs 0) s.tail + 1 < q.queue.sqDepth)
      (waits : (repliesFrom q.queue.sqDepth 0 (s.submitted ++ [cmd])).length ≤
        s.host.taken.length + q.queue.cqDepth) :
      Talk s { s with
        vdev := writeEntry s.vdev s.tail cmd
        tail := if s.tail + 1 = q.queue.sqDepth then 0 else s.tail + 1
        submitted := s.submitted ++ [cmd] }
  | ring (s : Dialogue μ κ) (vdev : AdminVdev μ κ)
      (run : adminStep s.vdev (.ringSq s.tail) = .ok vdev) : Talk s { s with vdev := vdev }
  | poll (s : Dialogue μ κ) (q : MappedQueue κ) (queue : s.vdev.adminQ = some q) :
      Talk s { s with host := s.host.poll (adminRing q.queue) }
  | ringCq (s : Dialogue μ κ) (db : Nat) (vdev : AdminVdev μ κ)
      (run : adminStep s.vdev (.ringCq db) = .ok vdev) : Talk s { s with vdev := vdev }
  | look (s : Dialogue μ κ) (sqMemory : Nat → AdminCommand κ) (cqMemory : Nat → Completion)
      (vdev : AdminVdev μ κ) (run : adminStep s.vdev (.procBars sqMemory cqMemory) = .ok vdev) :
      Talk s { s with vdev := vdev }
  | dispatch (s : Dialogue μ κ) (vdev : AdminVdev μ κ)
      (run : adminStep s.vdev .procDbs = .ok vdev) : Talk s { s with vdev := vdev }
  /-- The other queues. -/
  | elsewhere (s : Dialogue μ κ) (dev : NvmevDev μ κ) (cqDbs oldCqDbs : Nat → Nat)
      (dbs : dev.dbs 0 = s.vdev.dev.dbs 0) (oldDbs : dev.oldDbs 0 = s.vdev.dev.oldDbs 0) :
      Talk s { s with
        vdev := { s.vdev with dev := dev, cqDbs := cqDbs, oldCqDbs := oldCqDbs } }

section Replies

variable {depth k : Nat} {cmd : AdminCommand κ} {cmds cmds' : List (AdminCommand κ)}

theorem repliesFrom_append :
    repliesFrom depth k (cmds ++ cmds') =
      repliesFrom depth k cmds ++ repliesFrom depth (k + cmds.length) cmds' := by
  induction cmds generalizing k with
  | nil => simp [repliesFrom]
  | cons cmd cmds ih =>
      rw [List.cons_append, repliesFrom, repliesFrom, ih, List.append_assoc, List.length_cons,
        Nat.add_right_comm, Nat.add_assoc k]

theorem repliesFrom_singleton_of_none (h : answerOf cmd = none) :
    repliesFrom depth k [cmd] = [] := by
  simp [repliesFrom, h]

theorem repliesFrom_singleton_of_some {a : Answer} (h : answerOf cmd = some a) :
    repliesFrom depth k [cmd] = [(k % depth % 2 ^ 16, a)] := by
  simp [repliesFrom, h]

theorem repliesFrom_prefix_length (h : cmds <+: cmds') :
    (repliesFrom depth k cmds).length ≤ (repliesFrom depth k cmds').length := by
  obtain ⟨rest, rfl⟩ := h
  rw [repliesFrom_append, List.length_append]
  exact Nat.le_add_right _ _

end Replies

/-- `__nvmev_proc_admin_req` on an answered command. -/
structure Answers (ctrl ctrl' : Controller μ κ) (eid : Nat) (cmd : AdminCommand κ)
    (ret result0 result1 : Nat) : Prop where
  adminQ : ctrl'.adminQ = makeCqEntryResults ctrl.adminQ eid ret result0 result1
  answer : answerOf cmd = some ⟨cmd.commandId % 2 ^ 16, 0, ret % 2 ^ 15, result0, result1⟩
  dbs : ctrl'.dev.dbs 0 = ctrl.dev.dbs 0

theorem handleAdminReq_answers (ctrl : Controller μ κ) {eid : Nat}
    (hvalid : ¬CreatesSqZero (ctrl.adminQ.nvmeSq eid))
    (hanswered : AdminRequest.answered (ctrl.adminQ.nvmeSq eid).request = true) :
    ∃ ret result0 result1,
      Answers ctrl (handleAdminReq ctrl eid) eid (ctrl.adminQ.nvmeSq eid) ret result0 result1 := by
  rw [handleAdminReq]
  cases hrequest : (ctrl.adminQ.nvmeSq eid).request with
  | createSq sqid cqid qsize memory =>
      have hne : 0 ≠ sqid := by
        rintro rfl
        exact hvalid (by simp [CreatesSqZero, hrequest])
      exact ⟨0, 0, 0, rfl, by simp [answerOf, hrequest], Function.update_of_ne hne _ _⟩
  | createCq => exact ⟨0, 0, 0, rfl, by simp [answerOf, hrequest], rfl⟩
  | deleteCq => exact ⟨0, 0, 0, rfl, by simp [answerOf, hrequest], rfl⟩
  | deleteSq => exact ⟨0, 0, 0, rfl, by simp [answerOf, hrequest], rfl⟩
  | abort =>
      rw [hrequest] at hanswered
      cases hanswered
  | other ret result0 result1 =>
      exact ⟨ret, result0, result1, rfl, by simp [answerOf, hrequest], rfl⟩

theorem answerOf_of_not_answered {cmd : AdminCommand κ}
    (h : AdminRequest.answered cmd.request ≠ true) : answerOf cmd = none := by
  rw [answerOf]
  cases hrequest : cmd.request with
  | abort => rfl
  | _ =>
      rw [hrequest] at h
      exact absurd rfl h

/-- The dispatcher has answered the commands in `fetched` with `posted`. -/
structure Serving (vdev : AdminVdev μ κ) (host : Host) (q : MappedQueue κ)
    (fetched : List (AdminCommand κ)) (posted : List Completion) : Prop where
  queue : vdev.adminQ = some q
  depth_pos : 0 < q.queue.sqDepth
  sqPages : q.sqPages = some (ringPages q.queue.sqDepth 64)
  cqPages : q.cqPages = some (ringPages q.queue.cqDepth 16)
  answers : InStep phaseBit (adminRing q.queue) host.reader posted host.taken
  replies : posted.map reply = repliesFrom q.queue.sqDepth 0 fetched

structure Untouched (vdev vdev' : AdminVdev μ κ) (q q' : MappedQueue κ) : Prop where
  bar : vdev'.bar = vdev.bar
  oldBar : vdev'.oldBar = vdev.oldBar
  dbs : vdev'.dev.dbs 0 = vdev.dev.dbs 0
  nvmeSq : q'.queue.nvmeSq = q.queue.nvmeSq
  sqDepth : q'.queue.sqDepth = q.queue.sqDepth
  cqDepth : q'.queue.cqDepth = q.queue.cqDepth

theorem Untouched.trans {vdev vdev' vdev'' : AdminVdev μ κ} {q q' q'' : MappedQueue κ}
    (h : Untouched vdev vdev' q q') (h' : Untouched vdev' vdev'' q' q'') :
    Untouched vdev vdev'' q q'' :=
  ⟨h'.bar.trans h.bar, h'.oldBar.trans h.oldBar, h'.dbs.trans h.dbs, h'.nvmeSq.trans h.nvmeSq,
    h'.sqDepth.trans h.sqDepth, h'.cqDepth.trans h.cqDepth⟩

section Device

variable {vdev vdev' : AdminVdev μ κ} {host : Host} {q q' : MappedQueue κ}
  {fetched unfetched : List (AdminCommand κ)} {posted : List Completion} {cmd : AdminCommand κ}

theorem Serving.sqPage (h : Serving vdev host q fetched posted) :
    entryPage q.sqPages (fetched.length % q.queue.sqDepth / 64) = .ok () := by
  have hlt := Nat.mod_lt fetched.length h.depth_pos
  rw [h.sqPages, entryPage, ringPages]
  exact if_pos (by omega)

theorem Serving.cqPage (h : Serving vdev host q fetched posted) :
    entryPage q.cqPages (q.queue.cqHead / 256) = .ok () := by
  have hlt : q.queue.cqHead < q.queue.cqDepth := by
    have hhead := h.answers.head
    have hmod := Nat.mod_lt posted.length h.answers.size_pos
    simp only [adminRing] at hhead hmod
    omega
  rw [h.cqPages, entryPage, ringPages]
  exact if_pos (by omega)

theorem Serving.entry (h : Serving vdev host q fetched posted)
    (hslot : q.queue.nvmeSq (fetched.length % q.queue.sqDepth) = cmd)
    (hvalid : ¬CreatesSqZero cmd) (hindexed : cmd.request.Indexed)
    (hroom : (repliesFrom q.queue.sqDepth 0 (fetched ++ [cmd])).length ≤
      host.taken.length + q.queue.cqDepth) :
    ∃ vdev' q' posted',
      procAdminEntry vdev (fetched.length % q.queue.sqDepth) = .ok vdev' ∧
      Serving vdev' host q' (fetched ++ [cmd]) posted' ∧ Untouched vdev vdev' q q' := by
  have hpage := h.sqPage
  have hpage' := h.cqPage
  rw [procAdminEntry, h.queue]
  dsimp only
  rw [hpage, ok_bind, procAdminReq, if_pos (hslot ▸ hindexed), ok_bind]
  by_cases hanswered : AdminRequest.answered
      (q.queue.nvmeSq (fetched.length % q.queue.sqDepth)).request = true
  · obtain ⟨ret, result0, result1, hdone⟩ := handleAdminReq_answers
      ⟨vdev.dev, q.queue, vdev.cqDbs, vdev.oldCqDbs⟩ (hslot ▸ hvalid) hanswered
    rw [if_pos hanswered, hpage', ok_bind]
    have hanswer := hdone.answer
    dsimp only at hanswer
    rw [hslot] at hanswer
    have hphase : q.queue.phase ≤ 1 := by
      have hring := h.answers.phase
      simp only [adminRing] at hring
      rw [hring]
      exact phaseOf_le_one
    rw [repliesFrom_append, Nat.zero_add, repliesFrom_singleton_of_some hanswer, ← h.replies,
      List.length_append, List.length_map, List.length_singleton] at hroom
    let queue := makeCqEntryResults q.queue (fetched.length % q.queue.sqDepth) ret result0 result1
    let cqe := adminEntry cmd.commandId (fetched.length % q.queue.sqDepth) ret result0 result1
      q.queue.phase
    have hpost : InStep phaseBit (adminRing queue) host.reader (posted ++ [cqe]) host.taken := by
      rw [makeCqEntryResults_post, hslot]
      exact h.answers.post hroom (phaseBit_adminEntry hphase _ _ _ _ _)
    refine ⟨_, { q with queue := queue }, posted ++ [cqe], rfl,
      ⟨?_, h.depth_pos, h.sqPages, h.cqPages, hpost, ?_⟩, ?_⟩
    · simp only [AdminVdev.record, hdone.adminQ]
      rfl
    · rw [List.map_append, h.replies, repliesFrom_append, Nat.zero_add]
      refine congrArg (_ ++ ·) ?_
      change _ = repliesFrom q.queue.sqDepth fetched.length [cmd]
      rw [repliesFrom_singleton_of_some hanswer, List.map_singleton, reply,
        answer_adminEntry hphase]
      rfl
    · exact ⟨rfl, rfl, hdone.dbs, rfl, rfl, rfl⟩
  · have hnone := answerOf_of_not_answered (hslot ▸ hanswered)
    rw [if_neg hanswered, handleAdminReq_abort _ hanswered]
    refine ⟨_, q, posted, rfl, ⟨rfl, h.depth_pos, h.sqPages, h.cqPages, h.answers, ?_⟩,
      ⟨rfl, rfl, rfl, rfl, rfl, rfl⟩⟩
    rw [repliesFrom_append, repliesFrom_singleton_of_none hnone, List.append_nil]
    exact h.replies

theorem Serving.loop (h : Serving vdev host q fetched posted)
    (hslots : ∀ i (hi : i < unfetched.length),
      q.queue.nvmeSq ((fetched.length + i) % q.queue.sqDepth) = unfetched[i])
    (hvalid : ∀ cmd ∈ unfetched, ¬CreatesSqZero cmd ∧ cmd.request.Indexed)
    (hroom : (repliesFrom q.queue.sqDepth 0 (fetched ++ unfetched)).length ≤
      host.taken.length + q.queue.cqDepth) :
    ∃ vdev' q' posted',
      procAdminSqLoop q.queue.sqDepth unfetched.length (fetched.length % q.queue.sqDepth) vdev =
        .ok vdev' ∧
      Serving vdev' host q' (fetched ++ unfetched) posted' ∧ Untouched vdev vdev' q q' := by
  induction unfetched generalizing vdev q fetched posted with
  | nil =>
      rw [List.append_nil]
      exact ⟨vdev, q, posted, rfl, h, ⟨rfl, rfl, rfl, rfl, rfl, rfl⟩⟩
  | cons cmd unfetched ih =>
      have hfront : fetched ++ [cmd] <+: fetched ++ cmd :: unfetched :=
        ⟨unfetched, by simp⟩
      have hslot : q.queue.nvmeSq (fetched.length % q.queue.sqDepth) = cmd :=
        hslots 0 (Nat.succ_pos _)
      obtain ⟨first, q₁, posted₁, hfirst, hserving, hsame⟩ := h.entry hslot
        (hvalid cmd List.mem_cons_self).1 (hvalid cmd List.mem_cons_self).2
        (Nat.le_trans (repliesFrom_prefix_length hfront) hroom)
      have hnext : (fetched ++ [cmd]).length = fetched.length + 1 := by simp
      have hsplit : fetched ++ cmd :: unfetched = (fetched ++ [cmd]) ++ unfetched := by simp
      rw [hsplit] at hroom ⊢
      obtain ⟨last, q₂, posted₂, hlast, hserving₂, hsame₂⟩ := ih hserving
        (fun i hi => by
          rw [hsame.nvmeSq, hsame.sqDepth, hnext, Nat.add_assoc, Nat.add_comm 1 i]
          exact hslots (i + 1) (Nat.succ_lt_succ hi))
        (fun c hc => hvalid c (List.mem_cons_of_mem _ hc))
        (by rw [hsame.sqDepth, hsame.cqDepth]; exact hroom)
      refine ⟨last, q₂, posted₂, ?_, hserving₂, hsame.trans hsame₂⟩
      rw [List.length_cons, procAdminSqLoop, hfirst, ok_bind, succ_mod h.depth_pos, ← hnext,
        ← hsame.sqDepth]
      exact hlast

theorem numProc_toNat {n a b : Nat} (ha : a < n) (hb : b < n) (hn : n ≤ 4096) :
    (if ((b : Int) - a).bmod (2 ^ 32) < 0 then ((b : Int) - a).bmod (2 ^ 32) + n
      else ((b : Int) - a).bmod (2 ^ 32)).toNat = distance n a b := by
  have hsmall : ((b : Int) - a).bmod (2 ^ 32) = b - a := by
    rw [Int.bmod_eq_iff (by decide)]
    refine ⟨by omega, by omega, ?_⟩
    rw [Int.sub_self]
    exact Int.dvd_zero _
  rw [hsmall, distance]
  split
  case isTrue hlt =>
    have hwrapped : b + n - a < n := by omega
    rw [Nat.mod_eq_of_lt hwrapped]
    omega
  case isFalse hge =>
    have hstraight : b + n - a = b - a + n := by omega
    rw [hstraight, Nat.add_mod_right, Nat.mod_eq_of_lt (by omega)]
    omega

end Device

structure Talking (s : Dialogue μ κ) (q : MappedQueue κ) (fetched unfetched : List (AdminCommand κ))
    (posted : List Completion) : Prop extends Serving s.vdev s.host q fetched posted where
  seen : s.vdev.oldBar = s.vdev.bar
  depth_le : q.queue.sqDepth ≤ 4096
  submitted : s.submitted = fetched ++ unfetched
  valid : ∀ cmd ∈ s.submitted, ¬CreatesSqZero cmd ∧ cmd.request.Indexed
  oldDb : s.vdev.dev.oldDbs 0 = fetched.length % q.queue.sqDepth
  queued : Queued q.queue.sqDepth q.queue.nvmeSq (s.vdev.dev.oldDbs 0) s.tail unfetched
  room : unfetched.length < q.queue.sqDepth
  db_lt : s.vdev.dev.dbs 0 < q.queue.sqDepth
  rung : distance q.queue.sqDepth (s.vdev.dev.oldDbs 0) (s.vdev.dev.dbs 0) ≤ unfetched.length
  waits : (repliesFrom q.queue.sqDepth 0 s.submitted).length ≤
    s.host.taken.length + q.queue.cqDepth

namespace Talking

variable {s : Dialogue μ κ} {q : MappedQueue κ} {fetched unfetched : List (AdminCommand κ)}
  {posted : List Completion}

theorem tail_lt (h : Talking s q fetched unfetched posted) : s.tail < q.queue.sqDepth := by
  rw [h.queued.head_eq]
  exact Nat.mod_lt _ h.depth_pos

theorem submit (h : Talking s q fetched unfetched posted) {cmd : AdminCommand κ}
    (hvalid : ¬CreatesSqZero cmd) (hindexed : cmd.request.Indexed)
    (hroom : distance q.queue.sqDepth (s.vdev.dev.oldDbs 0) s.tail + 1 < q.queue.sqDepth)
    (hwaits : (repliesFrom q.queue.sqDepth 0 (s.submitted ++ [cmd])).length ≤
      s.host.taken.length + q.queue.cqDepth) :
    Talking
      { s with
        vdev := writeEntry s.vdev s.tail cmd
        tail := if s.tail + 1 = q.queue.sqDepth then 0 else s.tail + 1
        submitted := s.submitted ++ [cmd] }
      { q with queue := { q.queue with nvmeSq := Function.update q.queue.nvmeSq s.tail cmd } }
      fetched (unfetched ++ [cmd]) posted where
  queue := by
    dsimp only [writeEntry]
    rw [h.queue]
    rfl
  depth_pos := h.depth_pos
  sqPages := h.sqPages
  cqPages := h.cqPages
  answers := h.answers
  replies := h.replies
  seen := h.seen
  depth_le := h.depth_le
  submitted := by
    rw [← List.append_assoc, ← h.submitted]
  valid := by
    rintro c hc
    rcases List.mem_append.1 hc with hold | hnew
    · exact h.valid c hold
    · rw [List.mem_singleton.1 hnew]
      exact ⟨hvalid, hindexed⟩
  oldDb := h.oldDb
  queued := h.queued.push h.room cmd
  room := by
    rw [h.queued.distance_head h.room] at hroom
    rw [List.length_append, List.length_singleton]
    exact hroom
  db_lt := h.db_lt
  rung := by
    rw [List.length_append]
    exact Nat.le_add_right_of_le h.rung
  waits := hwaits

theorem ring (h : Talking s q fetched unfetched posted) {vdev : AdminVdev μ κ}
    (hrun : adminStep s.vdev (.ringSq s.tail) = .ok vdev) :
    Talking { s with vdev := vdev } q fetched unfetched posted := by
  cases hrun
  have hdb : Function.update s.vdev.dev.dbs 0 (s.tail % 2 ^ 32) 0 = s.tail := by
    have hlt := h.tail_lt
    have hle := h.depth_le
    rw [Function.update_self, Nat.mod_eq_of_lt (by omega)]
  refine ⟨⟨h.queue, h.depth_pos, h.sqPages, h.cqPages, h.answers, h.replies⟩, h.seen, h.depth_le,
    h.submitted, h.valid, h.oldDb, h.queued, h.room, ?_, ?_, h.waits⟩
  · dsimp only
    rw [hdb]
    exact h.tail_lt
  · dsimp only
    rw [hdb, h.queued.distance_head h.room]

theorem poll (h : Talking s q fetched unfetched posted) :
    Talking { s with host := s.host.poll (adminRing q.queue) } q fetched unfetched posted := by
  rw [Host.poll]
  cases hpoll : s.host.reader.poll phaseBit (adminRing q.queue) with
  | none => exact h
  | some next =>
      obtain ⟨cqe, reader⟩ := next
      refine ⟨⟨h.queue, h.depth_pos, h.sqPages, h.cqPages, h.answers.poll hpoll, h.replies⟩, h.seen,
        h.depth_le, h.submitted, h.valid, h.oldDb, h.queued, h.room, h.db_lt, h.rung, ?_⟩
      refine Nat.le_trans h.waits (Nat.add_le_add_right ?_ _)
      exact (List.prefix_append s.host.taken [cqe]).length_le

theorem look (h : Talking s q fetched unfetched posted) {sqMemory : Nat → AdminCommand κ}
    {cqMemory : Nat → Completion} {vdev : AdminVdev μ κ}
    (hrun : adminStep s.vdev (.procBars sqMemory cqMemory) = .ok vdev) : vdev = s.vdev := by
  rw [adminStep, procBars, h.seen] at hrun
  simp only [ne_eq, not_true_eq_false, if_false] at hrun
  cases hrun
  rfl

theorem elsewhere (h : Talking s q fetched unfetched posted) {vdev : AdminVdev μ κ}
    (hqueue : vdev.adminQ = s.vdev.adminQ) (hbar : vdev.bar = s.vdev.bar)
    (holdBar : vdev.oldBar = s.vdev.oldBar) (hdbs : vdev.dev.dbs 0 = s.vdev.dev.dbs 0)
    (holdDbs : vdev.dev.oldDbs 0 = s.vdev.dev.oldDbs 0) :
    Talking { s with vdev := vdev } q fetched unfetched posted where
  queue := hqueue.trans h.queue
  depth_pos := h.depth_pos
  sqPages := h.sqPages
  cqPages := h.cqPages
  answers := h.answers
  replies := h.replies
  seen := by rw [holdBar, hbar, h.seen]
  depth_le := h.depth_le
  submitted := h.submitted
  valid := h.valid
  oldDb := holdDbs.trans h.oldDb
  queued := by
    rw [holdDbs]
    exact h.queued
  room := h.room
  db_lt := by
    rw [hdbs]
    exact h.db_lt
  rung := by
    rw [hdbs, holdDbs]
    exact h.rung
  waits := h.waits

theorem handled (h : Talking s q fetched unfetched posted) {n : Nat}
    (hn : distance q.queue.sqDepth (s.vdev.dev.oldDbs 0) (s.vdev.dev.dbs 0) = n)
    {vdev vdev' : AdminVdev μ κ} {q' : MappedQueue κ} {posted' : List Completion}
    (hserving : Serving vdev s.host q' (fetched ++ unfetched.take n) posted')
    (hsame : Untouched s.vdev vdev q q') (hqueue : vdev'.adminQ = vdev.adminQ)
    (hbar : vdev'.bar = vdev.bar) (holdBar : vdev'.oldBar = vdev.oldBar)
    (hdbs : vdev'.dev.dbs 0 = vdev.dev.dbs 0)
    (holdDbs : vdev'.dev.oldDbs 0 = s.vdev.dev.dbs 0) :
    Talking { s with vdev := vdev' } q' (fetched ++ unfetched.take n) (unfetched.drop n)
      posted' where
  queue := hqueue.trans hserving.queue
  depth_pos := hserving.depth_pos
  sqPages := hserving.sqPages
  cqPages := hserving.cqPages
  answers := hserving.answers
  replies := hserving.replies
  seen := by rw [holdBar, hbar, hsame.oldBar, hsame.bar, h.seen]
  depth_le := by
    rw [hsame.sqDepth]
    exact h.depth_le
  submitted := by rw [h.submitted, List.append_assoc, List.take_append_drop]
  valid := h.valid
  oldDb := by
    have hlength : (unfetched.take n).length = n := List.length_take_of_le (hn ▸ h.rung)
    rw [holdDbs, hsame.sqDepth, List.length_append, hlength, ← hn, h.oldDb]
    exact (distance_mod h.db_lt).symm
  queued := by
    rw [holdDbs, hsame.sqDepth, hsame.nvmeSq, ← hn]
    exact h.queued.pop h.db_lt h.rung
  room := by
    rw [hsame.sqDepth, List.length_drop]
    exact Nat.lt_of_le_of_lt (Nat.sub_le _ _) h.room
  db_lt := by
    rw [hdbs, hsame.dbs, hsame.sqDepth]
    exact h.db_lt
  rung := by
    rw [hdbs, hsame.dbs, holdDbs, distance, Nat.add_sub_cancel_left, Nat.mod_self]
    exact Nat.zero_le _
  waits := by
    rw [hsame.sqDepth, hsame.cqDepth]
    exact h.waits

theorem dispatch (h : Talking s q fetched unfetched posted) {n : Nat}
    (hn : distance q.queue.sqDepth (s.vdev.dev.oldDbs 0) (s.vdev.dev.dbs 0) = n) :
    ∃ vdev' q' posted', adminStep s.vdev .procDbs = .ok vdev' ∧
      q'.queue.sqDepth = q.queue.sqDepth ∧
      Talking { s with vdev := vdev' } q' (fetched ++ unfetched.take n) (unfetched.drop n)
        posted' := by
  have hrung : n ≤ unfetched.length := hn ▸ h.rung
  have hlength : (unfetched.take n).length = n := List.length_take_of_le hrung
  have hold_lt : s.vdev.dev.oldDbs 0 < q.queue.sqDepth := h.queued.tail_lt
  rw [adminStep, procAdminDbs, procAdminSqDb]
  dsimp only
  split
  case isTrue heq =>
    have hzero : n = 0 := by
      rw [← hn, distance, heq, Nat.add_sub_cancel_left, Nat.mod_self]
    rw [hzero, List.take_zero, List.append_nil, List.drop_zero]
    exact ⟨_, q, posted, rfl, rfl, h.elsewhere rfl rfl rfl rfl rfl⟩
  case isFalse hne =>
    have hslots : ∀ i (hi : i < (unfetched.take n).length),
        q.queue.nvmeSq ((fetched.length + i) % q.queue.sqDepth) = (unfetched.take n)[i] := by
      intro i hi
      have hslot := h.queued.slot i (by omega)
      rw [h.oldDb, Nat.mod_add_mod] at hslot
      rw [hslot, List.getElem_take]
    have hfront : fetched ++ unfetched.take n <+: s.submitted := by
      rw [h.submitted]
      exact (List.prefix_append_right_inj _).2 (List.take_prefix _ _)
    obtain ⟨vdev', q', posted', hloop, hserving, hsame⟩ := h.toServing.loop hslots
      (fun cmd hcmd => h.valid cmd (hfront.subset (List.mem_append_right _ hcmd)))
      (Nat.le_trans (repliesFrom_prefix_length hfront) h.waits)
    have hpass : procAdminSq s.vdev (s.vdev.dev.dbs 0) (s.vdev.dev.oldDbs 0) = .ok vdev' := by
      rw [procAdminSq, h.queue]
      dsimp only
      rw [numProc_toNat hold_lt h.db_lt h.depth_le, hn, ← hlength, h.oldDb]
      exact hloop
    rw [hpass, ok_bind]
    have hlast : Function.update vdev'.dev.oldDbs 0 (s.vdev.dev.dbs 0) 0 = s.vdev.dev.dbs 0 :=
      Function.update_self ..
    exact ⟨_, q', posted', rfl, hsame.sqDepth,
      h.handled hn hserving hsame rfl rfl rfl rfl hlast⟩

theorem step (h : Talking s q fetched unfetched posted) {s' : Dialogue μ κ} (hstep : Talk s s') :
    ∃ q' fetched' unfetched' posted', q'.queue.sqDepth = q.queue.sqDepth ∧
      Talking s' q' fetched' unfetched' posted' := by
  cases hstep with
  | submit q₁ cmd hqueue hvalid hindexed hroom hwaits =>
      cases h.queue.symm.trans hqueue
      refine ⟨_, _, _, _, ?_, h.submit hvalid hindexed hroom hwaits⟩
      rfl
  | ring vdev hrun => exact ⟨q, _, _, _, rfl, h.ring hrun⟩
  | poll q₁ hqueue =>
      cases h.queue.symm.trans hqueue
      exact ⟨q, _, _, _, rfl, h.poll⟩
  | ringCq db vdev hrun =>
      cases hrun
      exact ⟨q, _, _, _, rfl, h.elsewhere rfl rfl rfl rfl rfl⟩
  | look sqMemory cqMemory vdev hrun =>
      rw [h.look hrun]
      exact ⟨q, _, _, _, rfl, h⟩
  | dispatch vdev hrun =>
      obtain ⟨vdev', q', posted', hrun', hdepth, htalking⟩ := h.dispatch rfl
      cases hrun'.symm.trans hrun
      exact ⟨q', _, _, posted', hdepth, htalking⟩
  | elsewhere dev cqDbs oldCqDbs hdbs holdDbs =>
      exact ⟨q, _, _, _, rfl, h.elsewhere rfl rfl rfl hdbs holdDbs⟩

theorem run (h : Talking s q fetched unfetched posted) {s' : Dialogue μ κ}
    (hrun : ReflTransGen Talk s s') :
    ∃ q' fetched' unfetched' posted', q'.queue.sqDepth = q.queue.sqDepth ∧
      Talking s' q' fetched' unfetched' posted' := by
  induction hrun with
  | refl => exact ⟨q, _, _, _, rfl, h⟩
  | tail _ hstep ih =>
      obtain ⟨q₁, _, _, _, hdepth₁, htalking⟩ := ih
      obtain ⟨q₂, fetched₂, unfetched₂, posted₂, hdepth₂, htalking₂⟩ := htalking.step hstep
      exact ⟨q₂, fetched₂, unfetched₂, posted₂, hdepth₂.trans hdepth₁, htalking₂⟩

theorem taken_prefix (h : Talking s q fetched unfetched posted) :
    s.host.taken.map reply <+: repliesFrom q.queue.sqDepth 0 s.submitted := by
  have hposted : s.host.taken.map reply <+: posted.map reply := h.answers.taken_eq.map reply
  rw [h.replies] at hposted
  refine hposted.trans ?_
  rw [h.submitted, repliesFrom_append]
  exact List.prefix_append _ _

end Talking

theorem taken_polls {ring : SlotRing Completion} {host : Host} {posted : List Completion}
    (h : InStep phaseBit ring host.reader posted host.taken) (n : Nat) :
    ((fun host => host.poll ring)^[n] host).taken = posted.take (host.taken.length + n) := by
  induction n generalizing host with
  | zero => exact List.prefix_iff_eq_take.1 h.taken_eq
  | succ n ih =>
      rw [Function.iterate_succ_apply, Host.poll]
      cases hpoll : host.reader.poll phaseBit ring with
      | none =>
          have hall : posted.length ≤ host.taken.length := by
            refine Nat.not_lt.1 fun hnext => ?_
            rw [← h.poll_isSome_iff, hpoll] at hnext
            cases hnext
          rw [ih h, List.take_of_length_le (by omega), List.take_of_length_le (by omega)]
      | some next =>
          obtain ⟨cqe, reader⟩ := next
          have hnext : InStep phaseBit ring (Host.mk reader (host.taken ++ [cqe])).reader posted
              (Host.mk reader (host.taken ++ [cqe])).taken := h.poll hpoll
          have htaken := ih hnext
          rw [List.length_append, List.length_singleton, Nat.add_assoc, Nat.add_comm 1 n] at htaken
          exact htaken

/-- The device once it has seen where the rings are, with `CC` written. -/
def ringsSeen (dev : NvmevDev μ κ) (regs : CtrlRegs) (sqMemory : Nat → AdminCommand κ)
    (cqMemory : Nat → Completion) : AdminVdev μ κ :=
  let vdev := { vdevInit dev with bar := { regs with cc := 0 } }
  { procAcq (procAsq (procAqa vdev) sqMemory) cqMemory with bar := regs }

section SetUp

variable (vdev : AdminVdev μ κ) (sqMemory : Nat → AdminCommand κ) (cqMemory : Nat → Completion)
  {regs : CtrlRegs}

theorem look_aqa (h : vdev.oldBar.aqa ≠ vdev.bar.aqa) :
    adminStep vdev (.procBars sqMemory cqMemory) = .ok (procAqa vdev) := by
  rw [adminStep, procBars, if_pos h]
  rfl

theorem look_asq (haqa : vdev.oldBar.aqa = vdev.bar.aqa) (h : vdev.oldBar.asq ≠ vdev.bar.asq) :
    adminStep vdev (.procBars sqMemory cqMemory) = .ok (procAsq vdev sqMemory) := by
  rw [adminStep, procBars, if_neg (not_not_intro haqa), if_pos h]
  rfl

theorem look_acq (haqa : vdev.oldBar.aqa = vdev.bar.aqa) (hasq : vdev.oldBar.asq = vdev.bar.asq)
    (h : vdev.oldBar.acq ≠ vdev.bar.acq) :
    adminStep vdev (.procBars sqMemory cqMemory) = .ok (procAcq vdev cqMemory) := by
  rw [adminStep, procBars, if_neg (not_not_intro haqa), if_neg (not_not_intro hasq), if_pos h]
  rfl

theorem look_cc (haqa : vdev.oldBar.aqa = vdev.bar.aqa) (hasq : vdev.oldBar.asq = vdev.bar.asq)
    (hacq : vdev.oldBar.acq = vdev.bar.acq) (hshn : vdev.bar.shn ≠ 1) :
    ∃ vdev', adminStep vdev (.procBars sqMemory cqMemory) = .ok vdev' ∧
      vdev'.adminQ = vdev.adminQ ∧ vdev'.oldBar = vdev'.bar ∧ vdev'.dev = vdev.dev := by
  have hbar : ∀ cc, cc = vdev.bar.cc → { vdev.oldBar with cc := cc } = vdev.bar := by
    rintro cc rfl
    cases hold : vdev.oldBar
    cases hnew : vdev.bar
    simp only [hold, hnew] at haqa hasq hacq
    rw [haqa, hasq, hacq]
  rw [adminStep, procBars, if_neg (not_not_intro haqa), if_neg (not_not_intro hasq),
    if_neg (not_not_intro hacq)]
  split
  · rw [procCc]
    dsimp only
    rw [if_neg hshn]
    split
    · exact ⟨_, rfl, rfl, hbar _ rfl, rfl⟩
    · split
      · exact ⟨_, rfl, rfl, hbar _ rfl, rfl⟩
      · exact ⟨_, rfl, rfl, hbar _ rfl, rfl⟩
  case isFalse hsame =>
    exact ⟨vdev, rfl, rfl, hbar _ (not_not.1 hsame), rfl⟩

theorem foldlM_setUp (dev : NvmevDev μ κ) (hregs : Startable regs) :
    (setUp regs sqMemory cqMemory).foldlM adminStep (vdevInit dev) =
      adminStep (ringsSeen dev regs sqMemory cqMemory) (.procBars sqMemory cqMemory) := by
  obtain ⟨aqa, asq, acq, cc⟩ := regs
  have haqa : adminStep (vdevInit dev) (.writeAqa aqa) =
      .ok { vdevInit dev with bar := ⟨aqa, 0, 0, 0⟩ } := by
    rw [adminStep, Nat.mod_eq_of_lt hregs.aqa_lt]
    rfl
  have hasq : adminStep { vdevInit dev with bar := ⟨aqa, 0, 0, 0⟩ } (.writeAsq asq) =
      .ok { vdevInit dev with bar := ⟨aqa, asq, 0, 0⟩ } := by
    rw [adminStep, Nat.mod_eq_of_lt hregs.asq_lt]
  have hacq : adminStep { vdevInit dev with bar := ⟨aqa, asq, 0, 0⟩ } (.writeAcq acq) =
      .ok { vdevInit dev with bar := ⟨aqa, asq, acq, 0⟩ } := by
    rw [adminStep, Nat.mod_eq_of_lt hregs.acq_lt]
  have hcc : adminStep (procAcq (procAsq (procAqa
      { vdevInit dev with bar := ⟨aqa, asq, acq, 0⟩ }) sqMemory) cqMemory) (.writeCc cc) =
        .ok (ringsSeen dev ⟨aqa, asq, acq, cc⟩ sqMemory cqMemory) := by
    rw [adminStep, Nat.mod_eq_of_lt hregs.cc_lt]
    rfl
  rw [setUp, List.foldlM_cons, haqa, ok_bind, List.foldlM_cons, hasq, ok_bind, List.foldlM_cons,
    hacq, ok_bind, List.foldlM_cons, look_aqa _ _ _ hregs.aqa_pos.ne, ok_bind, List.foldlM_cons,
    look_asq _ _ _ rfl hregs.asq_pos.ne, ok_bind, List.foldlM_cons,
    look_acq _ _ _ rfl rfl hregs.acq_pos.ne, ok_bind, List.foldlM_cons, hcc, ok_bind,
    List.foldlM_cons]
  exact bind_pure _

theorem setUp_talking (dev : NvmevDev μ κ) (hregs : Startable regs)
    (hblank : ∀ i < regs.acqs + 1, phaseBit (cqMemory i) = 0) :
    ∃ vdev q, (setUp regs sqMemory cqMemory).foldlM adminStep (vdevInit dev) = .ok vdev ∧
      q.queue.sqDepth = regs.asqs + 1 ∧ Talking ⟨vdev, 0, .start, []⟩ q [] [] [] := by
  obtain ⟨vdev, hlook, hqueue, hseen, hdev⟩ := look_cc (ringsSeen dev regs sqMemory cqMemory)
    sqMemory cqMemory rfl rfl rfl hregs.shn_ne
  have hsize : 0 < regs.acqs + 1 := Nat.succ_pos _
  have hdbs : vdev.dev.dbs 0 = 0 := by
    rw [hdev]
    rfl
  have holdDbs : vdev.dev.oldDbs 0 = 0 := by
    rw [hdev]
    rfl
  refine ⟨vdev, _, ?_, rfl, ⟨hqueue, Nat.succ_pos _, rfl, rfl,
    InStep.start hsize rfl rfl hblank, rfl⟩, hseen, ?_, rfl, ?_, ?_, ?_, Nat.succ_pos _, ?_, ?_,
    Nat.zero_le _⟩
  · rw [foldlM_setUp _ _ _ hregs]
    exact hlook
  · exact Nat.mod_lt _ (by decide)
  · rintro cmd hcmd
    cases hcmd
  · exact holdDbs
  · dsimp only
    rw [holdDbs]
    exact queued_nil (Nat.succ_pos _) _
  · dsimp only
    rw [hdbs]
    exact Nat.succ_pos _
  · dsimp only
    rw [hdbs, holdDbs, distance, Nat.sub_zero, Nat.zero_add, Nat.mod_self]
    exact Nat.le_refl 0

end SetUp

def smallRings : CtrlRegs := ⟨65538, 4096, 8192, 1⟩

def blankSq (eid : Nat) : AdminCommand Nat := ⟨eid, .abort⟩

def blankCq (_ : Nat) : Completion := ⟨0, 0, 0, 0, 0, 0⟩

def brought : AdminVdev Unit Nat :=
  { ringsSeen bareController.dev smallRings blankSq blankCq with
    oldBar := smallRings
    csts := ⟨1, 0⟩
    trace := [.enabled, .acqSeen, .asqSeen, .aqaSeen] }

theorem setUp_brought :
    (setUp smallRings blankSq blankCq).foldlM adminStep (vdevInit bareController.dev) =
      .ok brought :=
  rfl

theorem exists_talk :
    ∃ s, ReflTransGen Talk ⟨brought, 0, .start, []⟩ s ∧
      s.submitted = [⟨7, .other 5 1 2⟩, ⟨8, .abort⟩, ⟨9, .other 0 3 4⟩] ∧
      s.vdev.dev.dbs 0 = s.tail ∧ s.host.taken.length = 1 := by
  refine ⟨_, (((((((ReflTransGen.refl.tail (.submit _ _ ⟨7, .other 5 1 2⟩ rfl ?_ ?_ ?_ ?_)).tail
    (.submit _ _ ⟨8, .abort⟩ rfl ?_ ?_ ?_ ?_)).tail (.ring _ _ rfl)).tail (.dispatch _ _ rfl)).tail
    (.poll _ _ rfl)).tail (.submit _ _ ⟨9, .other 0 3 4⟩ rfl ?_ ?_ ?_ ?_)).tail (.ring _ _ rfl)),
    rfl, ?_, ?_⟩
  all_goals decide

end NvmeVirt.AdminDialogue
