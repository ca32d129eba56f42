import Mathlib.Logic.Relation
import NvmeVirt.AdminQueues
import NvmeVirt.PhaseRing

namespace NvmeVirt.CompletionPhase

open AdminQueues
open FaultOutcome
open IoDispatch
open IoWorkers
open PhaseRing
open Relation
open WriteBuffer

variable {μ κ : Type}

structure Answer where
  commandId : Nat
  sqId : Nat
  status : Nat
  result0 : Nat
  result1 : Nat
deriving DecidableEq, Repr

def phaseBit (cqe : Completion) : Nat := cqe.status % 2

def answer (cqe : Completion) : Answer :=
  ⟨cqe.commandId, cqe.sqId, cqe.status / 2, cqe.result0, cqe.result1⟩

/-- The completion `__fill_cq_result` writes for `w` in the given phase. -/
def ioEntry (w : IoWork) (phase : Nat) : Completion where
  commandId := w.commandId % 2 ^ 16
  sqId := w.sqid % 2 ^ 16
  sqHead := w.sqEntry % 2 ^ 16
  status := (phase ||| w.status * 2) % 2 ^ 16
  result0 := w.result0
  result1 := w.result1

def ioAnswer (w : IoWork) : Answer :=
  ⟨w.commandId % 2 ^ 16, w.sqid % 2 ^ 16, w.status % 2 ^ 15, w.result0, w.result1⟩

/-- The completion `__make_cq_entry_results` writes. -/
def adminEntry (commandId eid ret result0 result1 phase : Nat) : Completion where
  commandId := commandId % 2 ^ 16
  sqId := 0
  sqHead := eid % 2 ^ 16
  status := (phase ||| ret * 2) % 2 ^ 16
  result0 := result0
  result1 := result1

def cqRing (cq : CompletionQueue) : SlotRing Completion where
  size := cq.queueSize
  head := cq.cqHead
  phase := cq.phase
  slots := cq.cq

def adminRing (queue : AdminQueue κ) : SlotRing Completion where
  size := queue.cqDepth
  head := queue.cqHead
  phase := queue.phase
  slots := queue.nvmeCq

theorem status_word {phase : Nat} (hphase : phase ≤ 1) (status : Nat) :
    (phase ||| status * 2) % 2 ^ 16 % 2 = phase ∧
      (phase ||| status * 2) % 2 ^ 16 / 2 = status % 2 ^ 15 := by
  have hsum : (phase ||| status * 2) = 2 ^ 1 * status + phase := by
    rw [Nat.or_comm, Nat.mul_comm status 2]
    exact (Nat.two_pow_add_eq_or_of_lt (i := 1) (by omega) status).symm
  rw [hsum]
  omega

section Entries

variable {phase : Nat} (hphase : phase ≤ 1)
include hphase

theorem phaseBit_ioEntry (w : IoWork) : phaseBit (ioEntry w phase) = phase :=
  (status_word hphase w.status).1

theorem answer_ioEntry (w : IoWork) : answer (ioEntry w phase) = ioAnswer w := by
  rw [answer, ioAnswer, ioEntry, (status_word hphase w.status).2]

theorem phaseBit_adminEntry (commandId eid ret result0 result1 : Nat) :
    phaseBit (adminEntry commandId eid ret result0 result1 phase) = phase :=
  (status_word hphase ret).1

theorem answer_adminEntry (commandId eid ret result0 result1 : Nat) :
    answer (adminEntry commandId eid ret result0 result1 phase) =
      ⟨commandId % 2 ^ 16, 0, ret % 2 ^ 15, result0, result1⟩ := by
  rw [answer, adminEntry, (status_word hphase ret).2]

end Entries

/-- `__fill_cq_result` is a write to the ring of its queue. -/
theorem fillCqResult_post {vdev vdev' : NvmevDev μ κ} {w : IoWork}
    (h : fillCqResult vdev w = .ok vdev') :
    ∃ cq cq', vdev.cqes w.cqid = some cq ∧
      vdev'.cqes = Function.update vdev.cqes w.cqid (some cq') ∧
      cqRing cq' = (cqRing cq).post (ioEntry w) ∧ vdev'.posted = vdev.posted ++ [w] := by
  rw [fillCqResult] at h
  cases hcq : vdev.cqes w.cqid with
  | none => simp [hcq] at h
  | some cq =>
      simp only [hcq] at h
      cases h
      exact ⟨cq, _, rfl, rfl, rfl, rfl⟩

theorem makeCqEntryResults_post (queue : AdminQueue κ) (eid ret result0 result1 : Nat) :
    adminRing (makeCqEntryResults queue eid ret result0 result1) =
      (adminRing queue).post
        (adminEntry (queue.nvmeSq eid).commandId eid ret result0 result1) :=
  rfl

structure Host where
  reader : Reader
  taken : List Completion

def Host.start : Host where
  reader := .start
  taken := []

def Host.poll (host : Host) (ring : SlotRing Completion) : Host :=
  match host.reader.poll phaseBit ring with
  | none => host
  | some (cqe, reader) => { reader := reader, taken := host.taken ++ [cqe] }

/-- The host has taken a first part of what was posted, and takes the next one
exactly when there is one. -/
def InOrder (posts : List Answer) (ring : SlotRing Completion) (host : Host) : Prop :=
  host.taken.map answer = posts.take host.taken.length ∧
    ((host.reader.poll phaseBit ring).isSome = true ↔ host.taken.length < posts.length)

section Protocol

variable {ring : SlotRing Completion} {host : Host} {posts : List Answer}

/-- The exchange so far, with the answers the host is to see. -/
def Agree (ring : SlotRing Completion) (host : Host) (posts : List Answer) : Prop :=
  ∃ entries, InStep phaseBit ring host.reader entries host.taken ∧
    entries.map answer = posts

theorem Agree.inOrder (h : Agree ring host posts) : InOrder posts ring host := by
  obtain ⟨entries, hstep, rfl⟩ := h
  constructor
  · rw [← List.map_take, ← List.prefix_iff_eq_take.1 hstep.taken_eq]
  · rw [List.length_map]
    exact hstep.poll_isSome_iff

theorem Agree.poll (h : Agree ring host posts) : Agree ring (host.poll ring) posts := by
  obtain ⟨entries, hstep, hposts⟩ := h
  refine ⟨entries, ?_, hposts⟩
  rw [Host.poll]
  cases hpoll : host.reader.poll phaseBit ring with
  | none => exact hstep
  | some found =>
      obtain ⟨cqe, reader⟩ := found
      exact hstep.poll hpoll

theorem Agree.post (h : Agree ring host posts) {make : Nat → Completion} {a : Answer}
    (hroom : posts.length < host.taken.length + ring.size)
    (hbit : ∀ phase ≤ 1, phaseBit (make phase) = phase)
    (hanswer : ∀ phase ≤ 1, answer (make phase) = a) :
    Agree (ring.post make) host (posts ++ [a]) := by
  obtain ⟨entries, hstep, rfl⟩ := h
  have hphase : ring.phase ≤ 1 := by
    rw [hstep.phase]
    exact phaseOf_le_one
  rw [List.length_map] at hroom
  refine ⟨_, hstep.post hroom (hbit _ hphase), ?_⟩
  rw [List.map_append, List.map_singleton, hanswer _ hphase]

theorem agree_start (hsize : 0 < ring.size) (hhead : ring.head = 0) (hphase : ring.phase = 1)
    (hzero : ∀ i < ring.size, ring.slots i = ⟨0, 0, 0, 0, 0, 0⟩) :
    Agree ring .start [] := by
  refine ⟨[], InStep.start hsize hhead hphase ?_, rfl⟩
  intro i hi
  rw [hzero i hi]
  rfl

end Protocol

def postedTo (cqid : Nat) (vdev : NvmevDev μ κ) : List IoWork :=
  vdev.posted.filter fun w => w.cqid = cqid

/-- A worker posts to some queue, or the host polls the queue `cqid`. -/
inductive IoMove (cqid : Nat) :
    NvmevDev μ κ × Host → NvmevDev μ κ × Host → Prop where
  | post {vdev vdev' : NvmevDev μ κ} (host : Host) (w : IoWork)
      (run : fillCqResult vdev w = .ok vdev') : IoMove cqid (vdev, host) (vdev', host)
  | poll (vdev : NvmevDev μ κ) (host : Host) {cq : CompletionQueue}
      (present : vdev.cqes cqid = some cq) :
      IoMove cqid (vdev, host) (vdev, host.poll (cqRing cq))

/-- The admin queue with its driver; `posts` are the answers given so far. -/
structure AdminExchange (κ : Type) where
  queue : AdminQueue κ
  host : Host
  posts : List Answer

inductive AdminMove : AdminExchange κ → AdminExchange κ → Prop where
  | write (x : AdminExchange κ) (eid : Nat) (cmd : AdminCommand κ) :
      AdminMove x { x with queue := { x.queue with
        nvmeSq := Function.update x.queue.nvmeSq eid cmd } }
  | post (x : AdminExchange κ) (eid ret result0 result1 : Nat) :
      AdminMove x { x with
        queue := makeCqEntryResults x.queue eid ret result0 result1
        posts := x.posts ++
          [⟨(x.queue.nvmeSq eid).commandId % 2 ^ 16, 0, ret % 2 ^ 15, result0, result1⟩] }
  | poll (x : AdminExchange κ) :
      AdminMove x { x with host := x.host.poll (adminRing x.queue) }

section Runs

variable {cqid qsize : Nat} {start vdev vdev' : NvmevDev μ κ} {host host' : Host}

theorem postedTo_append (cqid : Nat) {w : IoWork} (hposted : vdev'.posted = vdev.posted ++ [w]) :
    postedTo cqid vdev' = postedTo cqid vdev ++ if w.cqid = cqid then [w] else [] := by
  rw [postedTo, hposted, List.filter_append]
  congr 1
  split <;> simp_all

theorem ioMove_agree {base : List IoWork} {posts : List IoWork} {cq : CompletionQueue}
    (hmove : IoMove cqid (vdev, host) (vdev', host'))
    (hcq : vdev.cqes cqid = some cq) (hsize : cq.queueSize = qsize + 1)
    (hposted : postedTo cqid vdev = base ++ posts)
    (hagree : Agree (cqRing cq) host (posts.map ioAnswer))
    (hwithin : (postedTo cqid vdev').length ≤ base.length + host'.taken.length + (qsize + 1)) :
    ∃ cq' posts', vdev'.cqes cqid = some cq' ∧ cq'.queueSize = qsize + 1 ∧
      postedTo cqid vdev' = base ++ posts' ∧
      Agree (cqRing cq') host' (posts'.map ioAnswer) := by
  cases hmove with
  | post host w run =>
      obtain ⟨cq₀, cq', hfound, hcqes, hring, happend⟩ := fillCqResult_post run
      have hlist := postedTo_append cqid happend
      by_cases hw : w.cqid = cqid
      · subst hw
        rw [hcq] at hfound
        cases hfound
        rw [if_pos rfl, hposted, List.append_assoc] at hlist
        refine ⟨cq', posts ++ [w], ?_, ?_, hlist, ?_⟩
        · rw [hcqes, Function.update_self]
        · have hpost : (cqRing cq').size = (cqRing cq).size := by
            rw [hring]
            rfl
          exact hpost.trans hsize
        · rw [hring, List.map_append, List.map_singleton]
          refine hagree.post ?_ (fun phase hphase => phaseBit_ioEntry hphase w)
            fun phase hphase => answer_ioEntry hphase w
          rw [hlist] at hwithin
          simp only [List.length_append, List.length_singleton] at hwithin
          rw [List.length_map]
          have hring' : (cqRing cq).size = qsize + 1 := hsize
          omega
      · rw [if_neg hw, List.append_nil, hposted] at hlist
        refine ⟨cq, posts, ?_, hsize, hlist, hagree⟩
        rw [hcqes, Function.update_of_ne (Ne.symm hw)]
        exact hcq
  | poll vdev host present =>
      rw [hcq] at present
      cases present
      exact ⟨cq, posts, hcq, hsize, hposted, hagree.poll⟩

theorem adminMove_agree {x x' : AdminExchange κ} (hmove : AdminMove x x')
    (hagree : Agree (adminRing x.queue) x.host x.posts)
    (hwithin : x'.posts.length ≤ x'.host.taken.length + x'.queue.cqDepth) :
    Agree (adminRing x'.queue) x'.host x'.posts := by
  cases hmove with
  | write eid cmd => exact hagree
  | post eid ret result0 result1 =>
      rw [makeCqEntryResults_post]
      refine hagree.post ?_ (fun phase hphase => phaseBit_adminEntry hphase _ eid ret _ _)
        fun phase hphase => answer_adminEntry hphase _ eid ret _ _
      simp only [List.length_append, List.length_singleton] at hwithin
      exact hwithin
  | poll => exact hagree.poll

end Runs

/-- As long as no more completions are outstanding than the ring has slots, the
host takes exactly what was posted, in order. -/
theorem completions_consumed_in_order (μ κ : Type) :
    (∀ (start : NvmevDev μ κ) (cqid qsize : Nat) (memory : Nat → Completion),
      start.cqes cqid = some (newCq qsize memory) →
      (∀ i < qsize + 1, memory i = ⟨0, 0, 0, 0, 0, 0⟩) →
      ∀ vdev host, ReflTransGen
        (fun s s' => IoMove cqid s s' ∧ (postedTo cqid s'.1).length ≤
          (postedTo cqid start).length + s'.2.taken.length + (qsize + 1))
        (start, .start) (vdev, host) →
      ∃ cq posts, vdev.cqes cqid = some cq ∧
        postedTo cqid vdev = postedTo cqid start ++ posts ∧
        InOrder (posts.map ioAnswer) (cqRing cq) host) ∧
    (∀ queue : AdminQueue κ, 0 < queue.cqDepth → queue.cqHead = 0 → queue.phase = 1 →
      (∀ i < queue.cqDepth, queue.nvmeCq i = ⟨0, 0, 0, 0, 0, 0⟩) →
      ∀ x, ReflTransGen
        (fun s s' : AdminExchange κ => AdminMove s s' ∧
          s'.posts.length ≤ s'.host.taken.length + s'.queue.cqDepth)
        ⟨queue, .start, []⟩ x →
      InOrder x.posts (adminRing x.queue) x.host) := by
  constructor
  · intro start cqid qsize memory hcq hzero vdev host hrun
    have hall : ∀ s : NvmevDev μ κ × Host, ReflTransGen
        (fun s s' => IoMove cqid s s' ∧ (postedTo cqid s'.1).length ≤
          (postedTo cqid start).length + s'.2.taken.length + (qsize + 1))
        (start, .start) s →
        ∃ cq posts, s.1.cqes cqid = some cq ∧ cq.queueSize = qsize + 1 ∧
          postedTo cqid s.1 = postedTo cqid start ++ posts ∧
          Agree (cqRing cq) s.2 (posts.map ioAnswer) := by
      intro s hrun
      induction hrun with
      | refl =>
          exact ⟨_, [], hcq, rfl, by simp,
            agree_start (Nat.succ_pos qsize) rfl rfl hzero⟩
      | tail _ hstep ih =>
          obtain ⟨cq, posts, hcq, hsize, hposted, hagree⟩ := ih
          exact ioMove_agree hstep.1 hcq hsize hposted hagree hstep.2
    obtain ⟨cq, posts, hcq, -, hposted, hagree⟩ := hall _ hrun
    exact ⟨cq, posts, hcq, hposted, hagree.inOrder⟩
  · intro queue hdepth hhead hphase hzero x hrun
    have hall : Agree (adminRing x.queue) x.host x.posts := by
      induction hrun with
      | refl => exact agree_start hdepth hhead hphase hzero
      | tail _ hstep ih => exact adminMove_agree hstep.1 ih hstep.2
    exact hall.inOrder

def oneSlot : NvmevDev Unit Unit where
  nrIoWorkers := 1
  ioWorkers _ := ioWorkerInit
  ioWorkerTurn := 0
  sqes _ := none
  cqes q := if q = 1 then some (newCq 0 fun _ => ⟨0, 0, 0, 0, 0, 0⟩) else none
  dbs _ := 0
  oldDbs _ := 0
  pass := none
  buffers _ := bufferInit 0
  medium := ()
  accepted := []
  posted := []

def oneSlotAdmin : AdminQueue Unit where
  phase := 1
  sqDepth := 1
  cqDepth := 1
  cqHead := 0
  nvmeSq _ := ⟨3, .abort⟩
  nvmeCq _ := ⟨0, 0, 0, 0, 0, 0⟩

theorem completions_consumed_in_order_one_slot :
    ∃ (vdev : NvmevDev Unit Unit) (host : Host), host.taken.length = 2 ∧
      (∃ cq posts, vdev.cqes 1 = some cq ∧
        postedTo 1 vdev = postedTo 1 oneSlot ++ posts ∧
        InOrder (posts.map ioAnswer) (cqRing cq) host) ∧
      ∃ x : AdminExchange Unit, x.host.taken.length = 1 ∧
        InOrder x.posts (adminRing x.queue) x.host := by
  let w : IoWork := { zeroedWork with cqid := 1 }
  obtain ⟨vdev₁, host₁, hpost₁, hpoll₁, vdev₂, host₂, hpost₂, hpoll₂, hlength⟩ :
      ∃ vdev₁ host₁, fillCqResult oneSlot w = .ok vdev₁ ∧
        (∃ cq, vdev₁.cqes 1 = some cq ∧ host₁ = Host.start.poll (cqRing cq)) ∧
        ∃ vdev₂ host₂, fillCqResult vdev₁ w = .ok vdev₂ ∧
          (∃ cq, vdev₂.cqes 1 = some cq ∧ host₂ = host₁.poll (cqRing cq)) ∧
          host₁.taken.length = 1 ∧ host₂.taken.length = 2 ∧
          (postedTo 1 vdev₁).length = 1 ∧ (postedTo 1 vdev₂).length = 2 :=
    ⟨_, _, rfl, ⟨_, rfl, rfl⟩, _, _, rfl, ⟨_, rfl, rfl⟩, by decide, by decide, by decide,
      by decide⟩
  obtain ⟨cq₁, hcq₁, rfl⟩ := hpoll₁
  obtain ⟨cq₂, hcq₂, rfl⟩ := hpoll₂
  obtain ⟨htaken₁, htaken₂, hposted₁, hposted₂⟩ := hlength
  have hboth := completions_consumed_in_order Unit Unit
  refine ⟨vdev₂, _, htaken₂, ?_, ⟨makeCqEntryResults oneSlotAdmin 0 0 0 0,
    Host.start.poll (adminRing (makeCqEntryResults oneSlotAdmin 0 0 0 0)),
    [⟨3, 0, 0, 0, 0⟩]⟩, rfl, ?_⟩
  · refine hboth.1 oneSlot 1 0 _ rfl (fun _ _ => rfl) vdev₂ _ ?_
    refine (((ReflTransGen.single ⟨.post _ w hpost₁, ?_⟩).tail
      ⟨.poll vdev₁ _ hcq₁, ?_⟩).tail ⟨.post _ w hpost₂, ?_⟩).tail ⟨.poll vdev₂ _ hcq₂, ?_⟩
    all_goals
      dsimp only
      omega
  · refine hboth.2 oneSlotAdmin Nat.one_pos rfl rfl (fun _ _ => rfl) _ ?_
    refine (ReflTransGen.single ⟨.post ⟨oneSlotAdmin, .start, []⟩ 0 0 0 0, ?_⟩).tail
      ⟨.poll _, ?_⟩
    · simp [makeCqEntryResults, oneSlotAdmin]
    · simp [makeCqEntryResults, oneSlotAdmin]

end NvmeVirt.CompletionPhase
