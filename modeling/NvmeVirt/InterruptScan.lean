import Mathlib.Logic.Relation
import NvmeVirt.AdminQueues
import NvmeVirt.PciConfig
import NvmeVirt.ReadyFlag

/-!
The interrupts of I/O completions: after every pass over its busy list a worker thread
scans the completion queues it serves and signals those that were posted to (`io.c`).
-/

namespace NvmeVirt.InterruptScan

open AdminQueues
open FaultOutcome
open IoDispatch
open IoSteps
open IoWorkers
open PciConfig
open ReadyFlag
open Relation (ReflTransGen)

variable {μ κ : Type}

inductive ScanPos where
  /-- At the head of its outer loop. -/
  | top
  /-- On the busy list, at the `curr` of the worker. -/
  | busy
  /-- At the head of the loop over the completion queues. -/
  | check (qidx : Nat)
  /-- Holding `irq_lock`, before the test of `interrupt_ready`. -/
  | locked (qidx : Nat)
  | found (qidx : Nat)
  /-- Between the assignment to `interrupt_ready` and the call of `nvmev_signal_irq`. -/
  | cleared (qidx : Nat)
  | leaving (qidx : Nat)
deriving DecidableEq, Repr

/-- The device with the fields of the completion queues that concern interrupts.
`notes` is a ghost history of each queue since it was created. -/
structure Interrupts (μ κ : Type) where
  ctrl : Controller μ κ
  pci : PciDev
  nrCq : Nat
  irqEnabled : Nat → Bool
  irqVector : Nat → Nat
  irqLock : Nat → Option Nat
  scan : Nat → ScanPos
  notes : Nat → List Note

def Interrupts.goto (s : Interrupts μ κ) (id : Nat) (pos : ScanPos) : Interrupts μ κ :=
  { s with scan := Function.update s.scan id pos }

def Interrupts.setLock (s : Interrupts μ κ) (q : Nat) (holder : Option Nat) :
    Interrupts μ κ :=
  { s with irqLock := Function.update s.irqLock q holder }

/-- The device after a step of it, whose postings are noted. -/
def Interrupts.record (s : Interrupts μ κ) (ctrl : Controller μ κ) : Interrupts μ κ :=
  { s with
    ctrl := ctrl
    notes := fun q => s.notes q ++
      ((ctrl.dev.posted.drop s.ctrl.dev.posted.length).filter (·.cqid = q)).map
        fun _ => .raised }

def Interrupts.setReady (s : Interrupts μ κ) (q : Nat) (cq : CompletionQueue) :
    Interrupts μ κ :=
  { s with ctrl := { s.ctrl with dev := { s.ctrl.dev with
    cqes := Function.update s.ctrl.dev.cqes q (some { cq with interruptReady := false }) } } }

/-- The device after `nvmev_signal_irq` for a queue. -/
def Interrupts.signalled (s : Interrupts μ κ) (q : Nat) (pci : PciDev) : Interrupts μ κ :=
  { s with pci := pci, notes := Function.update s.notes q (s.notes q ++ [.signalled]) }

/-- The part of a worker's round that works on its busy list. -/
def busyRound (be : Backend μ κ) (s : Interrupts μ κ) (id now : Nat) :
    Option (Interrupts μ κ) :=
  match ctrlStep be s.ctrl (.io (.worker id now)) with
  | .error _ => none
  | .ok ctrl => some (s.record ctrl)

/-- One step of the thread `nvmev_io_worker`: `none` once it has used a pointer to
nothing. -/
def nvmevIoWorker (be : Backend μ κ) (s : Interrupts μ κ) (id now : Nat) :
    Option (Interrupts μ κ) :=
  match s.scan id with
  | .top => (busyRound be s id now).map fun s => s.goto id .busy
  | .busy =>
      if (s.ctrl.dev.ioWorkers id).curr = noEntry then some (s.goto id (.check 1))
      else busyRound be s id now
  | .check qidx =>
      if s.nrCq < qidx then some (s.goto id .top)
      else
        match getIoWorker s.ctrl.dev qidx with
        | .error _ => none
        | .ok owner =>
            if owner ≠ id then some (s.goto id (.check (qidx + 1)))
            else if (s.ctrl.dev.cqes qidx).isNone ∨ ¬ s.irqEnabled qidx then
              some (s.goto id (.check (qidx + 1)))
            else if (s.irqLock qidx).isSome then some (s.goto id (.check (qidx + 1)))
            else some ((s.goto id (.locked qidx)).setLock qidx (some id))
  | .locked qidx =>
      match s.ctrl.dev.cqes qidx with
      | none => none
      | some cq => some (s.goto id (if cq.interruptReady then .found qidx else .leaving qidx))
  | .found qidx =>
      match s.ctrl.dev.cqes qidx with
      | none => none
      | some cq => some ((s.setReady qidx cq).goto id (.cleared qidx))
  | .cleared qidx =>
      match s.ctrl.dev.cqes qidx, nvmevSignalIrq s.pci (s.irqVector qidx) with
      | some _, some (pci, _) => some ((s.goto id (.leaving qidx)).signalled qidx pci)
      | _, _ => none
  | .leaving qidx =>
      match s.ctrl.dev.cqes qidx with
      | none => none
      | some _ => some ((s.goto id (.check (qidx + 1))).setLock qidx none)

/-- `NVME_CQ_IRQ_ENABLED`. -/
def nvmeCqIrqEnabled : Nat := 2

/-- An admin command. `cqFlags` and `irqVector` are what the command holds besides. -/
def procAdmin (s : Interrupts μ κ) (eid cqFlags irqVector : Nat) : Interrupts μ κ :=
  let ctrl := handleAdminReq s.ctrl eid
  match (s.ctrl.adminQ.nvmeSq eid).request with
  | .createCq cqid _ _ =>
      let enabled : Bool := cqFlags &&& nvmeCqIrqEnabled ≠ 0
      { s with
        ctrl := ctrl
        irqEnabled := Function.update s.irqEnabled cqid enabled
        irqVector := Function.update s.irqVector cqid (if enabled then irqVector else 0)
        irqLock := Function.update s.irqLock cqid none
        notes := Function.update s.notes cqid [] }
  | _ => { s with ctrl := ctrl }

/-- A step of a worker, an admin command, a write to the configuration space, a new
`nr_cq`, or any other step of the device. -/
inductive IntrEvent (κ : Type) where
  | worker (id now : Nat)
  | admin (eid cqFlags irqVector : Nat)
  | config (offs size : Nat) (val : BitVec 32)
  | setNrCq (nrCq : Nat)
  | ctrl (event : CtrlEvent κ)

def intrStep (be : Backend μ κ) (s : Interrupts μ κ) :
    IntrEvent κ → Option (Interrupts μ κ)
  | .worker id now =>
      if id < s.ctrl.dev.nrIoWorkers then nvmevIoWorker be s id now else some s
  | .admin eid cqFlags irqVector =>
      if s.ctrl.dev.pass.isSome then some s
      else if (s.ctrl.adminQ.nvmeSq eid).request.Indexed then
        some (procAdmin s eid cqFlags irqVector)
      else none
  | .config offs size val => some { s with pci := nvmevPciWrite s.pci offs size val }
  | .setNrCq nrCq => some { s with nrCq := nrCq }
  | .ctrl (.io (.worker _ _)) => some s
  | .ctrl (.admin _) => some s
  | .ctrl event =>
      match ctrlStep be s.ctrl event with
      | .error _ => none
      | .ok ctrl => some (s.record ctrl)

/-- The queue whose `irq_lock` a worker at this place holds. -/
def ScanPos.holding : ScanPos → Option Nat
  | .locked q | .found q | .cleared q | .leaving q => some q
  | _ => none

def ScanPos.stage : ScanPos → Stage
  | .locked _ => .testing
  | .found _ => .clearing
  | .cleared _ => .signalling
  | .leaving _ => .unlocking
  | _ => .idle

/-- The queue exists, with this `interrupt_ready`. -/
def readyOf (ctrl : Controller μ κ) (q : Nat) : Option Bool :=
  (ctrl.dev.cqes q).map (·.interruptReady)

def Interrupts.stage (s : Interrupts μ κ) (q : Nat) : Stage :=
  match s.irqLock q with
  | none => .idle
  | some id => (s.scan id).stage

def Interrupts.flag (s : Interrupts μ κ) (q : Nat) (ready : Bool) : Flag where
  ready := ready
  stage := s.stage q
  history := s.notes q

/-- An admin command that neither creates nor deletes queue `q`. -/
def Spares (q : Nat) : AdminRequest κ → Prop
  | .createCq cqid _ _ => cqid ≠ q
  | .deleteCq qid => qid ≠ q
  | _ => True

/-- The driver creates and deletes a queue while no worker is at it. -/
def Careful (s : Interrupts μ κ) : IntrEvent κ → Prop
  | .admin eid _ _ => ∀ id q, (s.scan id).holding = some q →
      Spares q (s.ctrl.adminQ.nvmeSq eid).request
  | _ => True

/-- The lock of a queue is held by the worker that stands there, which is the one the
queue is assigned to. -/
structure Seated (s : Interrupts μ κ) : Prop where
  lock : ∀ q id, s.irqLock q = some id ↔ (s.scan id).holding = some q
  owner : ∀ q id, (s.scan id).holding = some q →
    getIoWorker s.ctrl.dev q = .ok id ∧ s.irqEnabled q = true

section Device

variable {be : Backend μ κ} {ctrl ctrl' : Controller μ κ}

/-- What a step of the device means to the interrupts: at most one posting. -/
inductive Posts (ctrl ctrl' : Controller μ κ) : Prop where
  | quiet (hworkers : ctrl'.dev.nrIoWorkers = ctrl.dev.nrIoWorkers)
      (hposted : ctrl'.dev.posted = ctrl.dev.posted)
      (hready : ∀ q, readyOf ctrl' q = readyOf ctrl q)
  | post (w : IoWork) (hpresent : ∃ b, readyOf ctrl w.cqid = some b)
      (hworkers : ctrl'.dev.nrIoWorkers = ctrl.dev.nrIoWorkers)
      (hposted : ctrl'.dev.posted = ctrl.dev.posted ++ [w])
      (hready : ∀ q, readyOf ctrl' q = if q = w.cqid then some true else readyOf ctrl q)

theorem Posts.nrIoWorkers (h : Posts ctrl ctrl') :
    ctrl'.dev.nrIoWorkers = ctrl.dev.nrIoWorkers := by
  cases h with
  | quiet hworkers => exact hworkers
  | post _ _ hworkers => exact hworkers

theorem Posts.present (h : Posts ctrl ctrl') {q : Nat} {b : Bool}
    (hready : readyOf ctrl' q = some b) : ∃ b', readyOf ctrl q = some b' := by
  cases h with
  | quiet _ _ hsame => exact ⟨b, (hsame q).symm.trans hready⟩
  | post w hpresent _ _ hpost =>
      rw [hpost] at hready
      split at hready
      · rename_i heq
        rw [heq]
        exact hpresent
      · exact ⟨b, hready⟩

theorem getIoWorker_congr {vdev vdev' : NvmevDev μ κ} (q : Nat)
    (h : vdev'.nrIoWorkers = vdev.nrIoWorkers) : getIoWorker vdev' q = getIoWorker vdev q := by
  rw [getIoWorker, getIoWorker, h]

theorem step_posts {vdev vdev' : NvmevDev μ κ} {event : Event κ}
    (h : step be vdev event = .ok vdev') (hdev : ctrl.dev = vdev) :
    Posts ctrl { ctrl with dev := vdev' } := by
  subst hdev
  cases step_result h with
  | post id now medium moved w cq lt perform effect present =>
      refine .post w ⟨cq.interruptReady, by rw [readyOf, present, Option.map_some]⟩ rfl rfl
        fun q => ?_
      rcases eq_or_ne q w.cqid with rfl | hne
      · rw [if_pos rfl, readyOf]
        simp [postEntry]
      · rw [if_neg hne, readyOf, readyOf]
        simp [hne]
  | _ => exact .quiet rfl rfl fun _ => rfl

theorem procCqDb_posts {cqid : Nat} (h : procCqDb ctrl cqid = .ok ctrl') :
    Posts ctrl ctrl' := by
  rw [procCqDb] at h
  split at h
  · cases h
    exact .quiet rfl rfl fun _ => rfl
  · rename_i cq hcq
    dsimp only at h
    split at h
    · cases h
      exact .quiet rfl rfl fun _ => rfl
    · obtain ⟨dev, hdev, h⟩ := exists_of_bind_eq_ok h
      cases h
      rw [procIoCq, hcq] at hdev
      dsimp only at hdev
      obtain ⟨sqes, -, hdev⟩ := exists_of_bind_eq_ok hdev
      cases hdev
      refine .quiet rfl rfl fun q => ?_
      rcases eq_or_ne q cqid with rfl | hne
      · simp [readyOf, hcq]
      · simp [readyOf, hne]

theorem ctrlStep_posts {event : CtrlEvent κ} (hevent : ∀ eid, event ≠ .admin eid)
    (h : ctrlStep be ctrl event = .ok ctrl') : Posts ctrl ctrl' := by
  cases event with
  | io event =>
      obtain ⟨dev, hdev, h⟩ := exists_of_bind_eq_ok h
      cases h
      exact step_posts hdev rfl
  | adminWrite eid cmd =>
      cases h
      exact .quiet rfl rfl fun _ => rfl
  | admin eid => exact absurd rfl (hevent eid)
  | ringCq cqid db =>
      cases h
      exact .quiet rfl rfl fun _ => rfl
  | procCqDb cqid =>
      rw [ctrlStep] at h
      split at h
      · cases h
        exact .quiet rfl rfl fun _ => rfl
      · exact procCqDb_posts h

end Device

section Steps

variable {be : Backend μ κ} {s s' : Interrupts μ κ} {id now q : Nat} {b : Bool}

inductive Scans (s : Interrupts μ κ) (id : Nat) : Interrupts μ κ → Prop where
  | round (ctrl : Controller μ κ) (hat : s.scan id = .top ∨ s.scan id = .busy)
      (hposts : Posts s.ctrl ctrl) : Scans s id ((s.record ctrl).goto id .busy)
  | enter (hat : s.scan id = .busy) : Scans s id (s.goto id (.check 1))
  | done (q : Nat) (hat : s.scan id = .check q) (hcount : s.nrCq < q) :
      Scans s id (s.goto id .top)
  | skip (q : Nat) (hat : s.scan id = .check q)
      (hskip : getIoWorker s.ctrl.dev q ≠ .ok id ∨ readyOf s.ctrl q = none ∨
        s.irqEnabled q = false ∨ (s.irqLock q).isSome) :
      Scans s id (s.goto id (.check (q + 1)))
  | lock (q : Nat) (hat : s.scan id = .check q) (howner : getIoWorker s.ctrl.dev q = .ok id)
      (henabled : s.irqEnabled q = true) (hfree : s.irqLock q = none) :
      Scans s id ((s.goto id (.locked q)).setLock q (some id))
  | test (q : Nat) (cq : CompletionQueue) (hat : s.scan id = .locked q)
      (hcq : s.ctrl.dev.cqes q = some cq) :
      Scans s id (s.goto id (if cq.interruptReady then .found q else .leaving q))
  | clear (q : Nat) (cq : CompletionQueue) (hat : s.scan id = .found q)
      (hcq : s.ctrl.dev.cqes q = some cq) :
      Scans s id ((s.setReady q cq).goto id (.cleared q))
  | signal (q : Nat) (pci : PciDev) (hat : s.scan id = .cleared q) :
      Scans s id ((s.goto id (.leaving q)).signalled q pci)
  | unlock (q : Nat) (hat : s.scan id = .leaving q) :
      Scans s id ((s.goto id (.check (q + 1))).setLock q none)

theorem busyRound_posts (h : busyRound be s id now = some s') :
    ∃ ctrl, Posts s.ctrl ctrl ∧ s' = s.record ctrl := by
  unfold busyRound at h
  split at h
  · cases h
  · rename_i ctrl hctrl
    cases h
    exact ⟨ctrl, ctrlStep_posts (by simp) hctrl, rfl⟩

theorem nvmevIoWorker_scans (h : nvmevIoWorker be s id now = some s') : Scans s id s' := by
  unfold nvmevIoWorker at h
  split at h
  · rename_i hat
    obtain ⟨mid, hmid, rfl⟩ := Option.map_eq_some_iff.mp h
    obtain ⟨ctrl, hposts, rfl⟩ := busyRound_posts hmid
    exact .round ctrl (Or.inl hat) hposts
  · rename_i hat
    split at h
    · cases h
      exact .enter hat
    · obtain ⟨ctrl, hposts, rfl⟩ := busyRound_posts h
      have hstays : s.record ctrl = (s.record ctrl).goto id .busy := by
        rw [Interrupts.goto, ← hat]
        exact (congrArg (fun scan => { s.record ctrl with scan := scan })
          (Function.update_eq_self id s.scan)).symm
      rw [hstays]
      exact .round ctrl (Or.inr hat) hposts
  · rename_i q hat
    split at h
    · rename_i hcount
      cases h
      exact .done q hat hcount
    · split at h
      · cases h
      · rename_i owner howner
        split at h
        · rename_i hother
          cases h
          exact .skip q hat (Or.inl fun hsame => hother (by
            rw [howner] at hsame
            exact Except.ok.inj hsame))
        · rename_i hsame
          obtain rfl := not_not.mp hsame
          split at h
          · rename_i hidle
            cases h
            refine .skip q hat (Or.inr ?_)
            rcases hidle with hnone | hirq
            · left
              rw [readyOf, Option.isNone_iff_eq_none.mp hnone, Option.map_none]
            · right
              left
              simpa using hirq
          · rename_i hidle
            rw [not_or, not_not] at hidle
            split at h
            · rename_i hheld
              cases h
              exact .skip q hat (Or.inr (Or.inr (Or.inr hheld)))
            · rename_i hfree
              cases h
              exact .lock q hat howner hidle.2 (by simpa using hfree)
  · rename_i q hat
    split at h
    · cases h
    · rename_i cq hcq
      cases h
      exact .test q cq hat hcq
  · rename_i q hat
    split at h
    · cases h
    · rename_i cq hcq
      cases h
      exact .clear q cq hat hcq
  · rename_i q hat
    split at h
    · rename_i pci _ _ _
      cases h
      exact .signal q pci hat
    · cases h
  · rename_i q hat
    split at h
    · cases h
    · cases h
      exact .unlock q hat

theorem Seated.goto (h : Seated s) {id : Nat} {pos : ScanPos}
    (hpos : pos.holding = (s.scan id).holding) : Seated (s.goto id pos) := by
  have hheld : ∀ id', (Function.update s.scan id pos id').holding = (s.scan id').holding := by
    intro id'
    rcases eq_or_ne id' id with rfl | hne
    · rw [Function.update_self, hpos]
    · rw [Function.update_of_ne hne]
  constructor
  · intro q id'
    exact (h.lock q id').trans (by rw [← hheld]; rfl)
  · intro q id' hholds
    exact h.owner q id' ((hheld id').symm.trans hholds)

theorem Seated.record (h : Seated s) {ctrl : Controller μ κ} (hposts : Posts s.ctrl ctrl) :
    Seated (s.record ctrl) := by
  refine ⟨h.lock, fun q id hholds => ?_⟩
  obtain ⟨howner, henabled⟩ := h.owner q id hholds
  exact ⟨(getIoWorker_congr q hposts.nrIoWorkers).trans howner, henabled⟩

theorem Seated.reseat (h : Seated s) {pos : ScanPos} {holder : Option Nat}
    (hfrom : (s.scan id).holding = none ∨ (s.scan id).holding = some q)
    (hfree : s.irqLock q = none ∨ s.irqLock q = some id)
    (hto : pos.holding = none ∧ holder = none ∨ pos.holding = some q ∧ holder = some id ∧
      getIoWorker s.ctrl.dev q = .ok id ∧ s.irqEnabled q = true) :
    Seated ((s.goto id pos).setLock q holder) := by
  have hpos : pos.holding = holder.map fun _ => q := by
    rcases hto with ⟨hpos, rfl⟩ | ⟨hpos, rfl, -⟩ <;> exact hpos
  have hholder : ∀ id', holder = some id' → id' = id := by
    rintro id' rfl
    rcases hto with ⟨-, hcontra⟩ | ⟨-, hsome, -⟩
    · cases hcontra
    · exact Option.some.inj hsome
  constructor
  · intro q' id'
    change Function.update s.irqLock q holder q' = some id' ↔
      (Function.update s.scan id pos id').holding = some q'
    have hlock := h.lock q' id'
    rcases eq_or_ne q' q with rfl | hq <;> rcases eq_or_ne id' id with rfl | hid
    · rw [Function.update_self, Function.update_self, hpos]
      cases holder with
      | none => simp
      | some id'' => simp [hholder id'' rfl]
    · rw [Function.update_self, Function.update_of_ne hid, ← hlock]
      constructor
      · intro hsome
        exact absurd (hholder id' hsome) hid
      · intro hsome
        rw [hsome] at hfree
        rcases hfree with hcontra | hsame
        · cases hcontra
        · exact absurd (Option.some.inj hsame) hid
    · rw [Function.update_of_ne hq, Function.update_self, hpos, hlock]
      constructor
      · intro hsome
        rw [hsome] at hfrom
        rcases hfrom with hcontra | hsame
        · cases hcontra
        · exact absurd (Option.some.inj hsame) hq
      · intro hsome
        obtain ⟨-, -, hsame⟩ := Option.map_eq_some_iff.mp hsome
        exact absurd hsame.symm hq
    · rw [Function.update_of_ne hq, Function.update_of_ne hid, hlock]
  · intro q' id' hholds
    change (Function.update s.scan id pos id').holding = some q' at hholds
    rcases eq_or_ne id' id with rfl | hid
    · rw [Function.update_self] at hholds
      rcases hto with ⟨hpos, -⟩ | ⟨hpos, -, howner⟩
      · rw [hpos] at hholds
        cases hholds
      · rw [hpos] at hholds
        cases hholds
        exact howner
    · rw [Function.update_of_ne hid] at hholds
      exact h.owner q' id' hholds

theorem Seated.scans (h : Seated s) (hstep : Scans s id s') : Seated s' := by
  cases hstep with
  | round ctrl hat hposts =>
      refine (h.record hposts).goto ?_
      rcases hat with hat | hat
      · exact (congrArg ScanPos.holding hat).symm
      · exact (congrArg ScanPos.holding hat).symm
  | enter hat => exact h.goto (congrArg ScanPos.holding hat).symm
  | done q hat => exact h.goto (congrArg ScanPos.holding hat).symm
  | skip q hat => exact h.goto (congrArg ScanPos.holding hat).symm
  | lock q hat howner henabled hfree =>
      exact h.reseat (Or.inl (congrArg ScanPos.holding hat)) (Or.inl hfree)
        (Or.inr ⟨rfl, rfl, howner, henabled⟩)
  | test q cq hat =>
      refine h.goto ?_
      rw [hat]
      split <;> rfl
  | clear q cq hat =>
      have hcleared : Seated (s.setReady q cq) := ⟨h.lock, h.owner⟩
      exact hcleared.goto (congrArg ScanPos.holding hat).symm
  | signal q pci hat =>
      have hmoved : Seated (s.goto id (.leaving q)) :=
        h.goto (congrArg ScanPos.holding hat).symm
      exact ⟨hmoved.lock, hmoved.owner⟩
  | unlock q hat =>
      have hholds := congrArg ScanPos.holding hat
      exact h.reseat (Or.inr hholds) (Or.inr ((h.lock q id).mpr hholds)) (Or.inl ⟨rfl, rfl⟩)

/-- The step is one of the abstract flag of queue `q`, or none. -/
def Follows (s s' : Interrupts μ κ) (q : Nat) (b : Bool) : Prop :=
  ∃ b', readyOf s'.ctrl q = some b' ∧
    (s'.flag q b' = s.flag q b ∨ Move (s.flag q b) (s'.flag q b'))

theorem Follows.of_eq (hready : readyOf s'.ctrl q = some b)
    (hflag : s'.flag q b = s.flag q b) : Follows s s' q b :=
  ⟨b, hready, Or.inl hflag⟩

theorem follows_record {ctrl : Controller μ κ} (hposts : Posts s.ctrl ctrl)
    (hready : readyOf s.ctrl q = some b) : Follows s (s.record ctrl) q b := by
  cases hposts with
  | quiet _ hposted hsame =>
      refine .of_eq ((hsame q).trans hready) ?_
      simp [Interrupts.flag, Interrupts.stage, Interrupts.record, hposted]
  | post w _ _ hposted hpost =>
      rcases eq_or_ne q w.cqid with rfl | hne
      · refine ⟨true, (hpost w.cqid).trans (if_pos rfl), Or.inr ?_⟩
        have hflag : (s.record ctrl).flag w.cqid true =
            { s.flag w.cqid b with
              ready := true
              history := (s.flag w.cqid b).history ++ [.raised] } := by
          simp [Interrupts.flag, Interrupts.stage, Interrupts.record, hposted]
        rw [hflag]
        exact .raise _
      · refine .of_eq (((hpost q).trans (if_neg hne)).trans hready) ?_
        simp [Interrupts.flag, Interrupts.stage, Interrupts.record, hposted, Ne.symm hne]

theorem Interrupts.stage_eq {pos : ScanPos} (hlock : s.irqLock q = some id)
    (hat : s.scan id = pos) : s.stage q = pos.stage := by
  rw [Interrupts.stage, hlock]
  exact congrArg ScanPos.stage hat

theorem Seated.flag_elsewhere (h : Seated s) {p : Nat} (hq : q ≠ p)
    (hfrom : (s.scan id).holding = none ∨ (s.scan id).holding = some p)
    (hlock : s'.irqLock q = s.irqLock q) (hnotes : s'.notes q = s.notes q)
    (hscan : ∀ id', id' ≠ id → s'.scan id' = s.scan id') : s'.flag q b = s.flag q b := by
  have hstage : s'.stage q = s.stage q := by
    rw [Interrupts.stage, Interrupts.stage, hlock]
    cases hholder : s.irqLock q with
    | none => rfl
    | some id' =>
        refine congrArg ScanPos.stage (hscan id' ?_)
        rintro rfl
        rw [(h.lock q id').mp hholder] at hfrom
        rcases hfrom with hcontra | hsame
        · cases hcontra
        · exact hq (Option.some.inj hsame)
  rw [Interrupts.flag, hstage, hnotes]
  rfl

theorem Seated.follows (h : Seated s) (hstep : Scans s id s')
    (hready : readyOf s.ctrl q = some b) : Follows s s' q b := by
  have hgoto : ∀ pos id', id' ≠ id → Function.update s.scan id pos id' = s.scan id' :=
    fun pos id' hne => Function.update_of_ne hne _ _
  -- Where no lock is held or taken, nothing is.
  have hwalk : ∀ {pos : ScanPos}, (s.scan id).holding = none →
      Follows s (s.goto id pos) q b := fun hfrom =>
    .of_eq hready (h.flag_elsewhere (p := q + 1) (by omega) (Or.inl hfrom) rfl rfl (hgoto _))
  cases hstep with
  | round ctrl hat hposts =>
      obtain ⟨b', hready', hflag⟩ := follows_record hposts hready
      have hfrom : (s.scan id).holding = none := by
        rcases hat with hat | hat <;> exact congrArg ScanPos.holding hat
      have hstays : ((s.record ctrl).goto id .busy).flag q b' = (s.record ctrl).flag q b' :=
        (h.record hposts).flag_elsewhere (p := q + 1) (by omega) (Or.inl hfrom) rfl rfl
          (hgoto _)
      refine ⟨b', hready', ?_⟩
      rw [hstays]
      exact hflag
  | enter hat => exact hwalk (congrArg ScanPos.holding hat)
  | done p hat => exact hwalk (congrArg ScanPos.holding hat)
  | skip p hat => exact hwalk (congrArg ScanPos.holding hat)
  | lock p hat howner henabled hfree =>
      rcases eq_or_ne q p with rfl | hne
      · have hidle : (s.flag q b).stage = .idle := by
          simp [Interrupts.flag, Interrupts.stage, hfree]
        have hflag : ((s.goto id (.locked q)).setLock q (some id)).flag q b =
            { s.flag q b with stage := .testing } := by
          simp [Interrupts.flag, Interrupts.stage, Interrupts.setLock, Interrupts.goto,
            ScanPos.stage]
        refine ⟨b, hready, Or.inr ?_⟩
        rw [hflag]
        exact .lock _ hidle
      · refine .of_eq hready (h.flag_elsewhere hne (Or.inl (congrArg ScanPos.holding hat))
          ?_ rfl (hgoto _))
        exact Function.update_of_ne hne _ _
  | test p cq hat hcq =>
      have hholds := congrArg ScanPos.holding hat
      rcases eq_or_ne q p with rfl | hne
      · have hlock := (h.lock q id).mpr hholds
        obtain rfl : cq.interruptReady = b := by simpa [readyOf, hcq] using hready
        have hflag : (s.goto id (if cq.interruptReady then .found q else .leaving q)).flag q
            cq.interruptReady = { s.flag q cq.interruptReady with
              stage := if cq.interruptReady then .clearing else .unlocking } := by
          cases hbit : cq.interruptReady <;>
            simp [Interrupts.flag, Interrupts.stage, Interrupts.goto, hlock, ScanPos.stage]
        refine ⟨_, hready, Or.inr ?_⟩
        rw [hflag]
        exact .test _ (Interrupts.stage_eq hlock hat)
      · exact .of_eq hready (h.flag_elsewhere hne (Or.inr hholds) rfl rfl (hgoto _))
  | clear p cq hat hcq =>
      have hholds := congrArg ScanPos.holding hat
      rcases eq_or_ne q p with rfl | hne
      · have hlock := (h.lock q id).mpr hholds
        have hflag : ((s.setReady q cq).goto id (.cleared q)).flag q false =
            { s.flag q b with ready := false, stage := .signalling } := by
          simp [Interrupts.flag, Interrupts.stage, Interrupts.goto, Interrupts.setReady, hlock,
            ScanPos.stage]
        refine ⟨false, by simp [readyOf, Interrupts.goto, Interrupts.setReady], Or.inr ?_⟩
        rw [hflag]
        exact .clear _ (Interrupts.stage_eq hlock hat)
      · refine .of_eq ?_ (h.flag_elsewhere hne (Or.inr hholds) rfl rfl (hgoto _))
        rw [← hready]
        simp [readyOf, Interrupts.goto, Interrupts.setReady, hne]
  | signal p pci hat =>
      have hholds := congrArg ScanPos.holding hat
      rcases eq_or_ne q p with rfl | hne
      · have hlock := (h.lock q id).mpr hholds
        have hflag : ((s.goto id (.leaving q)).signalled q pci).flag q b =
            { s.flag q b with
              stage := .unlocking
              history := (s.flag q b).history ++ [.signalled] } := by
          simp [Interrupts.flag, Interrupts.stage, Interrupts.goto, Interrupts.signalled, hlock,
            ScanPos.stage]
        refine ⟨b, hready, Or.inr ?_⟩
        rw [hflag]
        exact .signal _ (Interrupts.stage_eq hlock hat)
      · refine .of_eq hready (h.flag_elsewhere hne (Or.inr hholds) rfl ?_ (hgoto _))
        exact Function.update_of_ne hne _ _
  | unlock p hat =>
      have hholds := congrArg ScanPos.holding hat
      rcases eq_or_ne q p with rfl | hne
      · have hlock := (h.lock q id).mpr hholds
        have hflag : ((s.goto id (.check (q + 1))).setLock q none).flag q b =
            { s.flag q b with stage := .idle } := by
          simp [Interrupts.flag, Interrupts.stage, Interrupts.goto, Interrupts.setLock]
        refine ⟨b, hready, Or.inr ?_⟩
        rw [hflag]
        exact .unlock _ (Interrupts.stage_eq hlock hat)
      · refine .of_eq hready (h.flag_elsewhere hne (Or.inr hholds) ?_ rfl (hgoto _))
        exact Function.update_of_ne hne _ _

structure Kept (s : Interrupts μ κ) : Prop where
  seated : Seated s
  sound : ∀ q b, readyOf s.ctrl q = some b → Sound (s.flag q b)
  muted : ∀ q, s.irqEnabled q = false → .signalled ∉ s.notes q

theorem procAdmin_spares (cqFlags irqVector : Nat) (b : Bool) {eid : Nat}
    (h : Spares q (s.ctrl.adminQ.nvmeSq eid).request) :
    readyOf (procAdmin s eid cqFlags irqVector).ctrl q = readyOf s.ctrl q ∧
      (procAdmin s eid cqFlags irqVector).flag q b = s.flag q b ∧
      (procAdmin s eid cqFlags irqVector).irqEnabled q = s.irqEnabled q ∧
      (procAdmin s eid cqFlags irqVector).irqLock q = s.irqLock q := by
  unfold procAdmin handleAdminReq
  cases hreq : (s.ctrl.adminQ.nvmeSq eid).request with
  | createCq cqid qsize memory =>
      rw [hreq] at h
      have hne : q ≠ cqid := Ne.symm h
      simp [readyOf, nvmevAdminCreateCq, Interrupts.flag, Interrupts.stage, hne]
  | deleteCq qid =>
      rw [hreq] at h
      have hne : q ≠ qid := Ne.symm h
      simp [readyOf, nvmevAdminDeleteCq, Interrupts.flag, Interrupts.stage, hne]
  | _ => exact ⟨rfl, rfl, rfl, rfl⟩

theorem procAdmin_frame (s : Interrupts μ κ) (eid cqFlags irqVector : Nat) :
    (procAdmin s eid cqFlags irqVector).scan = s.scan ∧
      (procAdmin s eid cqFlags irqVector).nrCq = s.nrCq ∧
      (procAdmin s eid cqFlags irqVector).ctrl.dev.nrIoWorkers = s.ctrl.dev.nrIoWorkers := by
  unfold procAdmin handleAdminReq
  cases (s.ctrl.adminQ.nvmeSq eid).request <;> exact ⟨rfl, rfl, rfl⟩

theorem unlocked_of_careful (h : Seated s) {eid cqFlags irqVector : Nat}
    (hcareful : Careful s (.admin eid cqFlags irqVector))
    (hq : ¬ Spares q (s.ctrl.adminQ.nvmeSq eid).request) : s.irqLock q = none := by
  cases hlock : s.irqLock q with
  | none => rfl
  | some id => exact absurd (hcareful id q ((h.lock q id).mp hlock)) hq

theorem procAdmin_lock (h : Seated s) {eid cqFlags irqVector : Nat}
    (hcareful : Careful s (.admin eid cqFlags irqVector)) (q : Nat) :
    (procAdmin s eid cqFlags irqVector).irqLock q = s.irqLock q := by
  by_cases hspares : Spares q (s.ctrl.adminQ.nvmeSq eid).request
  · exact (procAdmin_spares _ _ false hspares).2.2.2
  · have hfree := unlocked_of_careful h hcareful hspares
    rw [hfree]
    unfold procAdmin
    cases hreq : (s.ctrl.adminQ.nvmeSq eid).request with
    | createCq cqid qsize memory =>
        obtain rfl : cqid = q := by simpa [hreq, Spares] using hspares
        simp
    | _ => exact hfree

theorem Kept.admin (h : Kept s) {eid cqFlags irqVector : Nat}
    (hcareful : Careful s (.admin eid cqFlags irqVector)) :
    Kept (procAdmin s eid cqFlags irqVector) := by
  obtain ⟨hscan, -, hworkers⟩ := procAdmin_frame s eid cqFlags irqVector
  have hlock := procAdmin_lock h.seated hcareful
  -- A queue that is not spared is gone, or it is a new one.
  have hnew : ∀ q, ¬ Spares q (s.ctrl.adminQ.nvmeSq eid).request →
      readyOf (procAdmin s eid cqFlags irqVector).ctrl q = none ∧
        (procAdmin s eid cqFlags irqVector).irqEnabled q = s.irqEnabled q ∧
        (procAdmin s eid cqFlags irqVector).notes q = s.notes q ∨
      readyOf (procAdmin s eid cqFlags irqVector).ctrl q = some false ∧
        (procAdmin s eid cqFlags irqVector).notes q = [] := by
    intro q hspares
    unfold procAdmin handleAdminReq
    cases hreq : (s.ctrl.adminQ.nvmeSq eid).request with
    | createCq cqid qsize memory =>
        obtain rfl : cqid = q := by simpa [hreq, Spares] using hspares
        simp [readyOf, nvmevAdminCreateCq, newCq]
    | deleteCq qid =>
        obtain rfl : qid = q := by simpa [hreq, Spares] using hspares
        simp [readyOf, nvmevAdminDeleteCq]
    | _ => simp [hreq, Spares] at hspares
  refine ⟨⟨?_, ?_⟩, ?_, ?_⟩
  · intro q id
    rw [hlock, hscan]
    exact h.seated.lock q id
  · intro q id hholds
    rw [hscan] at hholds
    obtain ⟨howner, henabled⟩ := h.seated.owner q id hholds
    refine ⟨(getIoWorker_congr q hworkers).trans howner, ?_⟩
    rw [(procAdmin_spares _ _ false (hcareful id q hholds)).2.2.1]
    exact henabled
  · intro q b hready
    by_cases hspares : Spares q (s.ctrl.adminQ.nvmeSq eid).request
    · obtain ⟨hsame, hflag, -⟩ := procAdmin_spares cqFlags irqVector b hspares
      rw [hflag]
      exact h.sound q b (hsame.symm.trans hready)
    · rcases hnew q hspares with ⟨hgone, -⟩ | ⟨hfresh, hnotes⟩
      · rw [hgone] at hready
        cases hready
      · rw [hfresh] at hready
        cases hready
        refine Sound.of_fresh rfl ?_ hnotes
        have hfree := unlocked_of_careful h.seated hcareful hspares
        rw [← hlock] at hfree
        simp [Interrupts.flag, Interrupts.stage, hfree]
  · intro q hmuted
    by_cases hspares : Spares q (s.ctrl.adminQ.nvmeSq eid).request
    · obtain ⟨-, hflag, henabled, -⟩ :=
        procAdmin_spares cqFlags irqVector false hspares
      have hnotes : (procAdmin s eid cqFlags irqVector).notes q = s.notes q :=
        congrArg Flag.history hflag
      rw [hnotes]
      exact h.muted q (henabled.symm.trans hmuted)
    · rcases hnew q hspares with ⟨-, henabled, hnotes⟩ | ⟨-, hnotes⟩
      · rw [hnotes]
        exact h.muted q (henabled.symm.trans hmuted)
      · rw [hnotes]
        exact List.not_mem_nil

theorem notMem_record {ctrl : Controller μ κ} (hnot : .signalled ∉ s.notes q) :
    .signalled ∉ (s.record ctrl).notes q := by
  intro hmem
  rcases List.mem_append.mp hmem with hmem | hmem
  · exact hnot hmem
  · obtain ⟨_, -, hcontra⟩ := List.mem_map.mp hmem
    cases hcontra

theorem Scans.signalled_notMem (h : Seated s) (hstep : Scans s id s')
    (hmuted : s'.irqEnabled q = false) (hnot : .signalled ∉ s.notes q) :
    .signalled ∉ s'.notes q := by
  cases hstep with
  | round ctrl hat hposts => exact notMem_record hnot
  | signal p pci hat =>
      rcases eq_or_ne q p with rfl | hne
      · have henabled := (h.owner q id (congrArg ScanPos.holding hat)).2
        exact absurd (henabled.symm.trans hmuted) (by decide)
      · have hsame : ((s.goto id (.leaving p)).signalled p pci).notes q = s.notes q :=
          Function.update_of_ne hne _ _
        rw [hsame]
        exact hnot
  | _ => exact hnot

theorem Scans.irqEnabled_eq (hstep : Scans s id s') : s'.irqEnabled = s.irqEnabled := by
  cases hstep <;> rfl

theorem Scans.present (hstep : Scans s id s') (hready : readyOf s'.ctrl q = some b) :
    ∃ b', readyOf s.ctrl q = some b' := by
  cases hstep with
  | round ctrl hat hposts => exact hposts.present hready
  | clear p cq hat hcq =>
      rcases eq_or_ne q p with rfl | hne
      · exact ⟨cq.interruptReady, by rw [readyOf, hcq, Option.map_some]⟩
      · refine ⟨b, Eq.trans ?_ hready⟩
        simp [readyOf, Interrupts.goto, Interrupts.setReady, hne]
  | _ => exact ⟨b, hready⟩

theorem Kept.of_follows (h : Kept s) (hseated : Seated s')
    (hpresent : ∀ q b, readyOf s'.ctrl q = some b → ∃ b', readyOf s.ctrl q = some b')
    (hfollows : ∀ q b, readyOf s.ctrl q = some b → Follows s s' q b)
    (hmuted : ∀ q, s'.irqEnabled q = false → .signalled ∉ s'.notes q) : Kept s' := by
  refine ⟨hseated, ?_, hmuted⟩
  intro q b hready
  obtain ⟨b', hready'⟩ := hpresent q b hready
  obtain ⟨b'', hnow, hflag⟩ := hfollows q b' hready'
  rw [hready] at hnow
  cases hnow
  rcases hflag with hsame | hmove
  · rw [hsame]
    exact h.sound q b' hready'
  · exact (h.sound q b' hready').move hmove

theorem Kept.scans (h : Kept s) (hstep : Scans s id s') : Kept s' := by
  refine h.of_follows (h.seated.scans hstep) (fun q b => hstep.present)
    (fun q b => h.seated.follows hstep) ?_
  intro q hmuted
  exact hstep.signalled_notMem h.seated hmuted
    (h.muted q ((congrFun hstep.irqEnabled_eq q).symm.trans hmuted))

inductive Moves (s : Interrupts μ κ) : IntrEvent κ → Interrupts μ κ → Prop where
  | idle (event : IntrEvent κ) : Moves s event s
  | worker (id now : Nat) (s' : Interrupts μ κ) (hscans : Scans s id s') :
      Moves s (.worker id now) s'
  | admin (eid cqFlags irqVector : Nat) :
      Moves s (.admin eid cqFlags irqVector) (procAdmin s eid cqFlags irqVector)
  | config (offs size : Nat) (val : BitVec 32) :
      Moves s (.config offs size val) { s with pci := nvmevPciWrite s.pci offs size val }
  | setNrCq (nrCq : Nat) : Moves s (.setNrCq nrCq) { s with nrCq := nrCq }
  | ctrl (event : CtrlEvent κ) (ctrl : Controller μ κ) (hposts : Posts s.ctrl ctrl) :
      Moves s (.ctrl event) (s.record ctrl)

theorem intrStep_moves {event : IntrEvent κ} (h : intrStep be s event = some s') :
    Moves s event s' := by
  unfold intrStep at h
  split at h
  · split at h
    · exact .worker _ _ s' (nvmevIoWorker_scans h)
    · cases h
      exact .idle _
  · split at h
    · cases h
      exact .idle _
    · split at h
      · cases h
        exact .admin _ _ _
      · cases h
  · cases h
    exact .config _ _ _
  · cases h
    exact .setNrCq _
  · cases h
    exact .idle _
  · cases h
    exact .idle _
  · rename_i event _ hadmin
    split at h
    · cases h
    · rename_i ctrl hctrl
      cases h
      exact .ctrl event ctrl (ctrlStep_posts hadmin hctrl)

theorem Kept.step {event : IntrEvent κ} (h : Kept s) (hcareful : Careful s event)
    (hstep : intrStep be s event = some s') : Kept s' := by
  cases intrStep_moves hstep with
  | idle => exact h
  | worker id now _ hscans => exact h.scans hscans
  | admin eid cqFlags irqVector => exact h.admin hcareful
  | config => exact ⟨⟨h.seated.lock, h.seated.owner⟩, h.sound, h.muted⟩
  | setNrCq => exact ⟨⟨h.seated.lock, h.seated.owner⟩, h.sound, h.muted⟩
  | ctrl event ctrl hposts =>
      exact h.of_follows (h.seated.record hposts) (fun q b => hposts.present)
        (fun q b => follows_record hposts) (fun q hmuted => notMem_record (h.muted q hmuted))

/-- The event leaves queue `q` among those that are scanned. -/
def Leaves (q : Nat) (s : Interrupts μ κ) : IntrEvent κ → Prop
  | .admin eid _ _ => Spares q (s.ctrl.adminQ.nvmeSq eid).request
  | .setNrCq nrCq => q ≤ nrCq
  | _ => True

theorem Moves.follows {event : IntrEvent κ} (h : Moves s event s') (hseated : Seated s)
    (hleaves : Leaves q s event) (hready : readyOf s.ctrl q = some b) : Follows s s' q b := by
  cases h with
  | idle => exact .of_eq hready rfl
  | worker id now _ hscans => exact hseated.follows hscans hready
  | admin eid cqFlags irqVector =>
      obtain ⟨hsame, hflag, -⟩ := procAdmin_spares cqFlags irqVector b hleaves
      exact .of_eq (hsame.trans hready) hflag
  | config => exact .of_eq hready rfl
  | setNrCq => exact .of_eq hready rfl
  | ctrl event ctrl hposts => exact follows_record hposts hready

/-- Queue `q` is one that worker `id` scans. -/
structure Served (q id : Nat) (s : Interrupts μ κ) : Prop where
  owner : getIoWorker s.ctrl.dev q = .ok id
  enabled : s.irqEnabled q = true
  count : q ≤ s.nrCq

theorem Scans.served {id' : Nat} (hstep : Scans s id' s') (h : Served q id s) :
    Served q id s' := by
  refine ⟨?_, (congrFun hstep.irqEnabled_eq q).trans h.enabled, ?_⟩
  · refine (getIoWorker_congr q ?_).trans h.owner
    cases hstep with
    | round ctrl hat hposts => exact hposts.nrIoWorkers
    | _ => rfl
  · have hcount : s'.nrCq = s.nrCq := by cases hstep <;> rfl
    rw [hcount]
    exact h.count

theorem Moves.served {event : IntrEvent κ} (hstep : Moves s event s')
    (hleaves : Leaves q s event) (h : Served q id s) : Served q id s' := by
  cases hstep with
  | idle => exact h
  | worker id' now _ hscans => exact hscans.served h
  | admin eid cqFlags irqVector =>
      obtain ⟨-, hcount, hworkers⟩ := procAdmin_frame s eid cqFlags irqVector
      refine ⟨(getIoWorker_congr q hworkers).trans h.owner, ?_, ?_⟩
      · rw [(procAdmin_spares _ _ false hleaves).2.2.1]
        exact h.enabled
      · rw [hcount]
        exact h.count
  | config => exact ⟨h.owner, h.enabled, h.count⟩
  | setNrCq => exact ⟨h.owner, h.enabled, hleaves⟩
  | ctrl event ctrl hposts =>
      exact ⟨(getIoWorker_congr q hposts.nrIoWorkers).trans h.owner, h.enabled, h.count⟩

theorem Moves.scan_eq {event : IntrEvent κ} (hstep : Moves s event s') (id : Nat) :
    s'.scan id = s.scan id ∨ Scans s id s' := by
  cases hstep with
  | worker id' now _ hscans =>
      rcases eq_or_ne id id' with rfl | hne
      · exact Or.inr hscans
      · left
        cases hscans <;> exact Function.update_of_ne hne _ _
  | admin eid cqFlags irqVector =>
      exact Or.inl (congrFun (procAdmin_frame s eid cqFlags irqVector).1 id)
  | _ => exact Or.inl rfl

/-- The scan comes to queue `q` later on. -/
def ScanPos.Before (q : Nat) : ScanPos → Prop
  | .top | .busy => False
  | .check p => p ≤ q
  | .locked p | .found p | .cleared p | .leaving p => p < q

theorem Seated.idle_of_before (h : Seated s) (howner : getIoWorker s.ctrl.dev q = .ok id)
    (hbefore : (s.scan id).Before q) : s.irqLock q = none := by
  cases hlock : s.irqLock q with
  | none => rfl
  | some id' =>
      have hholds := (h.lock q id').mp hlock
      have hsame := howner.symm.trans (h.owner q id' hholds).1
      obtain rfl : id = id' := Except.ok.inj hsame
      generalize s.scan id = pos at hholds hbefore
      cases pos <;> simp_all [ScanPos.holding, ScanPos.Before]

theorem Scans.before (hstep : Scans s id s') (hseated : Seated s) (h : Served q id s)
    (hready : readyOf s.ctrl q = some b) (hbefore : (s.scan id).Before q) :
    (s'.scan id).Before q ∨ s'.scan id = .locked q ∧ s'.irqLock q = some id ∧
      s'.notes q = s.notes q ∧ readyOf s'.ctrl q = some b := by
  have hat' : ∀ pos, Function.update s.scan id pos id = pos :=
    fun pos => Function.update_self _ _ _
  have hfree := hseated.idle_of_before h.owner hbefore
  cases hstep with
  | round ctrl hat hposts => rcases hat with hat | hat <;> simp [hat, ScanPos.Before] at hbefore
  | enter hat => simp [hat, ScanPos.Before] at hbefore
  | done p hat hcount =>
      rw [hat] at hbefore
      have := h.count
      exact absurd hbefore (by simp only [ScanPos.Before]; omega)
  | skip p hat hskip =>
      rw [hat] at hbefore
      have hne : p ≠ q := by
        rintro rfl
        simp [h.owner, h.enabled, hready, hfree] at hskip
      left
      change (Function.update s.scan id _ id).Before q
      rw [hat']
      simp only [ScanPos.Before] at hbefore ⊢
      omega
  | lock p hat howner henabled _ =>
      rw [hat] at hbefore
      rcases eq_or_ne p q with rfl | hne
      · exact Or.inr ⟨hat' _, Function.update_self _ _ _, rfl, hready⟩
      · left
        change (Function.update s.scan id _ id).Before q
        rw [hat']
        simp only [ScanPos.Before] at hbefore ⊢
        omega
  | test p cq hat hcq =>
      rw [hat] at hbefore
      left
      change (Function.update s.scan id _ id).Before q
      rw [hat']
      split <;> exact hbefore
  | clear p cq hat hcq =>
      rw [hat] at hbefore
      left
      change (Function.update s.scan id _ id).Before q
      rw [hat']
      exact hbefore
  | signal p pci hat =>
      rw [hat] at hbefore
      left
      change (Function.update s.scan id _ id).Before q
      rw [hat']
      exact hbefore
  | unlock p hat =>
      rw [hat] at hbefore
      left
      change (Function.update s.scan id _ id).Before q
      rw [hat']
      exact hbefore

/-- The queue had something to signal, and it still is, or it has been, seen to. -/
def Expecting (q id : Nat) (before : List Note) (s : Interrupts μ κ) : Prop :=
  ∃ b, readyOf s.ctrl q = some b ∧
    (Answered before (s.flag q b) ∨
      b = true ∧ (∃ since, s.notes q = before ++ since) ∧ (s.scan id).Before q)

theorem Expecting.step {before : List Note} {event : IntrEvent κ}
    (h : Expecting q id before s) (hseated : Seated s) (hserved : Served q id s)
    (hleaves : Leaves q s event) (hstep : Moves s event s') : Expecting q id before s' := by
  obtain ⟨b, hready, hstate⟩ := h
  obtain ⟨b', hready', hflag⟩ := hstep.follows hseated hleaves hready
  refine ⟨b', hready', ?_⟩
  rcases hstate with hanswered | ⟨rfl, ⟨since, hsince⟩, hbefore⟩
  · left
    rcases hflag with hsame | hmove
    · rw [hsame]
      exact hanswered
    · exact hanswered.move hmove
  · have hidle : (s.flag q true).stage = .idle := by
      simp [Interrupts.flag, Interrupts.stage,
        hseated.idle_of_before hserved.owner hbefore]
    have hkept : b' = true ∧ (∃ since', s'.notes q = before ++ since') ∨
        Answered before (s'.flag q b') := by
      rcases hflag with hsame | hmove
      · exact Or.inl ⟨congrArg Flag.ready hsame, since,
          (congrArg Flag.history hsame).trans hsince⟩
      · rcases hmove.of_idle hidle with ⟨-, hraised, hhistory⟩ | ⟨htesting, hsame, hhistory⟩
        · left
          refine ⟨hraised, since ++ [.raised], hhistory.trans ?_⟩
          change s.notes q ++ _ = _
          rw [hsince, List.append_assoc]
        · right
          exact ⟨since, hhistory.trans hsince, Or.inr (Or.inl ⟨htesting, hsame⟩)⟩
    rcases hkept with ⟨rfl, hextends⟩ | hanswered
    · rcases hstep.scan_eq id with hstays | hscans
      · rw [hstays]
        exact Or.inr ⟨rfl, hextends, hbefore⟩
      · rcases hscans.before hseated hserved hready hbefore with hstill | ⟨hat, hlock, hsame, -⟩
        · exact Or.inr ⟨rfl, hextends, hstill⟩
        · left
          refine ⟨since, hsame.trans hsince, Or.inr (Or.inl ⟨?_, rfl⟩)⟩
          exact Interrupts.stage_eq hlock hat
    · exact Or.inl hanswered

end Steps

section Results

/-- The device before the host creates its first completion queue. -/
structure Launched (s : Interrupts μ κ) : Prop where
  queues : ∀ q, s.ctrl.dev.cqes q = none
  lock : ∀ q, s.irqLock q = none
  scan : ∀ id, s.scan id = .top
  notes : ∀ q, s.notes q = []

theorem Launched.kept {s : Interrupts μ κ} (h : Launched s) : Kept s := by
  refine ⟨⟨?_, ?_⟩, ?_, ?_⟩
  · intro q id
    rw [h.lock, h.scan]
    simp [ScanPos.holding]
  · intro q id hholds
    rw [h.scan] at hholds
    cases hholds
  · intro q b hready
    rw [readyOf, h.queues] at hready
    cases hready
  · intro q _
    rw [h.notes]
    exact List.not_mem_nil

def CarefulStep (be : Backend μ κ) (s s' : Interrupts μ κ) : Prop :=
  ∃ event, Careful s event ∧ intrStep be s event = some s'

theorem kept_of_run {be : Backend μ κ} {start s : Interrupts μ κ} (h : Kept start)
    (hrun : ReflTransGen (CarefulStep be) start s) : Kept s := by
  induction hrun with
  | refl => exact h
  | tail _ hstep ih =>
      obtain ⟨event, hcareful, hstep⟩ := hstep
      exact ih.step hcareful hstep

/-- However the host, the dispatcher and the workers interleave: a completion that has not
been signalled keeps `interrupt_ready` set unless its worker is on the way to signal, there
are no more signals than completions, a lock is only ever tried while it is free, and a
queue without interrupts gets none. -/
theorem interrupts_not_lost (be : Backend μ κ) {start s : Interrupts μ κ}
    (hstart : Launched start) (hrun : ReflTransGen (CarefulStep be) start s) (q : Nat) :
    (∀ cq, s.ctrl.dev.cqes q = some cq →
      (0 < unheard (s.notes q) → cq.interruptReady = true ∨
        ∃ id, getIoWorker s.ctrl.dev q = .ok id ∧
          (s.scan id = .found q ∨ s.scan id = .cleared q)) ∧
      (s.notes q).count .signalled ≤ (s.notes q).count .raised) ∧
    (∀ id, s.scan id = .check q → getIoWorker s.ctrl.dev q = .ok id → s.irqLock q = none) ∧
    (s.irqEnabled q = false → .signalled ∉ s.notes q) := by
  obtain ⟨hseated, hsound, hmuted⟩ := kept_of_run hstart.kept hrun
  refine ⟨?_, ?_, hmuted q⟩
  · intro cq hcq
    have hflag := hsound q cq.interruptReady (by rw [readyOf, hcq, Option.map_some])
    constructor
    · intro hunheard
      have hholder : ∀ stage, s.stage q = stage → stage ≠ .idle →
          ∃ id, getIoWorker s.ctrl.dev q = .ok id ∧ (s.scan id).holding = some q ∧
            (s.scan id).stage = stage := by
        rintro stage rfl hne
        cases hlock : s.irqLock q with
        | none => exact absurd (by rw [Interrupts.stage, hlock]) hne
        | some id =>
            have hholds := (hseated.lock q id).mp hlock
            exact ⟨id, (hseated.owner q id hholds).1, hholds,
              (Interrupts.stage_eq hlock rfl).symm⟩
      rcases hflag.kept hunheard with hready | hclearing | hsignalling
      · exact Or.inl hready
      · obtain ⟨id, howner, hholds, hstage⟩ := hholder _ hclearing (by decide)
        refine Or.inr ⟨id, howner, Or.inl ?_⟩
        generalize s.scan id = pos at hholds hstage
        cases pos <;> simp_all [ScanPos.holding, ScanPos.stage]
      · obtain ⟨id, howner, hholds, hstage⟩ := hholder _ hsignalling (by decide)
        refine Or.inr ⟨id, howner, Or.inr ?_⟩
        generalize s.scan id = pos at hholds hstage
        cases pos <;> simp_all [ScanPos.holding, ScanPos.stage]
    · exact Nat.le_trans (Nat.le_add_right _ _) hflag.spent
  · intro id hat howner
    exact hseated.idle_of_before howner (by rw [hat]; exact Nat.le_refl q)

section Witness

def launched : Interrupts Unit Nat where
  ctrl := bareController
  pci := { foundDevice with pdev := some true }
  nrCq := 1
  irqEnabled _ := false
  irqVector _ := 0
  irqLock _ := none
  scan _ := .top
  notes _ := []

theorem launched_launched : Launched launched :=
  ⟨fun _ => rfl, fun _ => rfl, fun _ => rfl, fun _ => rfl⟩

/-- The host writes an admin command, which is carried out. -/
def submitAdmin (s : Interrupts Unit Nat) (eid : Nat) (request : AdminRequest Nat)
    (cqFlags irqVector : Nat) : Interrupts Unit Nat :=
  let nvmeSq := Function.update s.ctrl.adminQ.nvmeSq eid ⟨eid, request⟩
  procAdmin (s.record { s.ctrl with adminQ := { s.ctrl.adminQ with nvmeSq := nvmeSq } })
    eid cqFlags irqVector

/-- It creates a pair of queues, the completion queue with interrupts. -/
def paired : Interrupts Unit Nat :=
  submitAdmin (submitAdmin launched 0 (.createCq 1 1 fun _ => ⟨0, 0, 0, 0, 0, 0⟩) 3 1)
    1 (.createSq 1 1 3 id) 0 0

theorem submitAdmin_reached {s : Interrupts Unit Nat} {eid : Nat}
    {request : AdminRequest Nat} {cqFlags irqVector : Nat}
    (hpass : s.ctrl.dev.pass = none) (hscan : ∀ id, s.scan id = .top)
    (hindexed : request.Indexed) :
    ReflTransGen (CarefulStep namedBackend) s (submitAdmin s eid request cqFlags irqVector) := by
  refine (ReflTransGen.single ⟨.ctrl (.adminWrite eid ⟨eid, request⟩), trivial, rfl⟩).tail
    ⟨.admin eid cqFlags irqVector, ?_, ?_⟩
  · intro id q hholds
    have hcontra := congrArg ScanPos.holding (hscan id)
    exact absurd (hcontra.symm.trans hholds) (by simp [ScanPos.holding])
  · rw [intrStep]
    have hidle : ¬ s.ctrl.dev.pass.isSome = true := by simp [hpass]
    refine (if_neg hidle).trans (if_pos ?_)
    simpa [Interrupts.record] using hindexed

theorem paired_reached : ReflTransGen (CarefulStep namedBackend) launched paired :=
  (submitAdmin_reached rfl (fun _ => rfl) (by decide)).trans
    (submitAdmin_reached rfl (fun _ => rfl) (by decide))

/-- One command is submitted and completed, and the worker comes to the scan. -/
def completeOne : List (IntrEvent Nat) :=
  [.ctrl (.io (.hostRing 1 1)), .ctrl (.io (.beginPass 1)),
    .ctrl (.io (.procIo 0 (some ⟨0, 100, 0⟩))), .ctrl (.io .reclaim), .ctrl (.io .reclaim),
    .ctrl (.io (.procIo 0 none)), .worker 0 100, .worker 0 100, .worker 0 100]

theorem exists_of_any (s : Interrupts Unit Nat) (events : List (IntrEvent Nat))
    (test : Interrupts Unit Nat → Bool)
    (h : (events.foldlM (intrStep namedBackend) s).any test = true) :
    ∃ s', events.foldlM (intrStep namedBackend) s = some s' ∧ test s' = true := by
  cases hrun : events.foldlM (intrStep namedBackend) s with
  | none => simp [hrun] at h
  | some s' => exact ⟨s', rfl, by simpa [hrun] using h⟩

theorem reflTransGen_of_run {R : Interrupts Unit Nat → Interrupts Unit Nat → Prop}
    {s s' : Interrupts Unit Nat} (events : List (IntrEvent Nat))
    (hR : ∀ event ∈ events, ∀ s s', intrStep namedBackend s event = some s' → R s s')
    (hrun : events.foldlM (intrStep namedBackend) s = some s') : ReflTransGen R s s' := by
  induction events generalizing s with
  | nil =>
      cases hrun
      exact .refl
  | cons event events ih =>
      rw [List.foldlM_cons] at hrun
      obtain ⟨mid, hmid, hrest⟩ := Option.bind_eq_some_iff.mp hrun
      exact .head (hR event List.mem_cons_self s mid hmid)
        (ih (fun e he => hR e (List.mem_cons_of_mem _ he)) hrest)

theorem careful_completeOne {event : IntrEvent Nat} (h : event ∈ completeOne)
    (s : Interrupts Unit Nat) : Careful s event := by
  simp only [completeOne, List.mem_cons, List.not_mem_nil, or_false] at h
  rcases h with rfl | rfl | rfl | rfl | rfl | rfl | rfl | rfl | rfl <;> trivial

theorem interrupts_not_lost_completed :
    ∃ s : Interrupts Unit Nat, s.notes 1 = [.raised] ∧
      (s.notes 1).count .signalled ≤ (s.notes 1).count .raised := by
  obtain ⟨s, hrun, htest⟩ := exists_of_any paired completeOne
    (fun s => (s.ctrl.dev.cqes 1).isSome && s.notes 1 == [.raised]) (by decide +kernel)
  simp only [Bool.and_eq_true, beq_iff_eq] at htest
  obtain ⟨cq, hcq⟩ := Option.isSome_iff_exists.mp htest.1
  have hreached := paired_reached.trans (reflTransGen_of_run completeOne
    (fun event hevent s s' hstep => ⟨event, careful_completeOne hevent s, hstep⟩) hrun)
  exact ⟨s, htest.2,
    ((interrupts_not_lost namedBackend launched_launched hreached 1).1 cq hcq).2⟩

end Witness

/-- A worker that starts to scan the completion queues has, when it is through, signalled
every completion that was posted before to a queue it serves. -/
theorem scan_signals_posts (be : Backend μ κ) {start s s' : Interrupts μ κ} {q id : Nat}
    (hstart : Launched start) (hreach : ReflTransGen (CarefulStep be) start s)
    (hat : s.scan id = .check 1) (hq : 1 ≤ q) (hpresent : (s.ctrl.dev.cqes q).isSome)
    (hserved : Served q id s) (hposted : 0 < unheard (s.notes q))
    (hrun : ReflTransGen (fun s s' => ∃ event, Careful s event ∧ Leaves q s event ∧
      intrStep be s event = some s') s s') (hend : s'.scan id = .top) :
    ∃ since, s'.notes q = s.notes q ++ since ∧ .signalled ∈ since := by
  have hkept := kept_of_run hstart.kept hreach
  have hbefore : (s.scan id).Before q := by
    rw [hat]
    exact hq
  have hstate : Kept s' ∧ Served q id s' ∧ Expecting q id (s.notes q) s' := by
    clear hend
    induction hrun with
    | refl =>
        obtain ⟨cq, hcq⟩ := Option.isSome_iff_exists.mp hpresent
        have hready : readyOf s.ctrl q = some cq.interruptReady := by
          rw [readyOf, hcq, Option.map_some]
        have hidle := hkept.seated.idle_of_before hserved.owner hbefore
        have hset : cq.interruptReady = true := by
          have hstage : s.stage q = .idle := by
            rw [Interrupts.stage, hidle]
          rcases (hkept.sound q _ hready).kept hposted with hset | hcontra | hcontra
          · exact hset
          all_goals
            rw [Interrupts.flag, hstage] at hcontra
            cases hcontra
        exact ⟨hkept, hserved, cq.interruptReady, hready,
          Or.inr ⟨hset, ⟨[], (List.append_nil _).symm⟩, hbefore⟩⟩
    | tail _ hstep ih =>
        obtain ⟨event, hcareful, hleaves, hstep⟩ := hstep
        obtain ⟨hmid, hserved, hexpecting⟩ := ih
        have hmoves := intrStep_moves hstep
        exact ⟨hmid.step hcareful hstep, hmoves.served hleaves hserved,
          hexpecting.step hmid.seated hserved hleaves hmoves⟩
  obtain ⟨hkept', hserved', b, -, hanswered | ⟨-, -, hcontra⟩⟩ := hstate
  · obtain ⟨since, hnotes, hdone⟩ := hanswered
    have hfree : s'.irqLock q = none := by
      cases hlock : s'.irqLock q with
      | none => rfl
      | some id' =>
          have hholds := (hkept'.seated.lock q id').mp hlock
          have hsame := hserved'.owner.symm.trans (hkept'.seated.owner q id' hholds).1
          obtain rfl : id = id' := Except.ok.inj hsame
          rw [hend] at hholds
          cases hholds
    refine ⟨since, hnotes, ?_⟩
    simpa [Interrupts.flag, Interrupts.stage, hfree] using hdone
  · rw [hend] at hcontra
    exact hcontra.elim

theorem scan_signals_posts_completed :
    ∃ s s' : Interrupts Unit Nat, s.notes 1 = [.raised] ∧
      ∃ since, s'.notes 1 = s.notes 1 ++ since ∧ .signalled ∈ since := by
  obtain ⟨s, hrun, htest⟩ := exists_of_any paired completeOne
    (fun s => (s.ctrl.dev.cqes 1).isSome && s.notes 1 == [.raised] &&
      s.scan 0 == .check 1 && s.irqEnabled 1 && s.nrCq == 1 && s.ctrl.dev.nrIoWorkers == 1 &&
      ((List.replicate 6 (.worker 0 100)).foldlM (intrStep namedBackend) s).any
        fun s' => s'.scan 0 == .top) (by decide +kernel)
  simp only [Bool.and_eq_true, beq_iff_eq] at htest
  obtain ⟨⟨⟨⟨⟨⟨hpresent, hnotes⟩, hat⟩, henabled⟩, hcount⟩, hworkers⟩, hscan⟩ := htest
  obtain ⟨s', hrun', hend⟩ := exists_of_any _ _ _ hscan
  have hreached := paired_reached.trans (reflTransGen_of_run completeOne
    (fun event hevent s s' hstep => ⟨event, careful_completeOne hevent s, hstep⟩) hrun)
  have hserved : Served 1 0 s := by
    refine ⟨?_, henabled, by rw [hcount]⟩
    rw [getIoWorker, hworkers]
    rfl
  refine ⟨s, s', hnotes, scan_signals_posts namedBackend launched_launched hreached hat
    (Nat.le_refl 1) hpresent hserved (by rw [hnotes]; decide)
    (reflTransGen_of_run _ ?_ hrun') (by simpa using hend)⟩
  intro event hevent mid mid' hstep
  obtain rfl := List.eq_of_mem_replicate hevent
  exact ⟨.worker 0 100, trivial, trivial, hstep⟩

end Results

end NvmeVirt.InterruptScan
