import NvmeVirt.ConvCapacity
import NvmeVirt.HostBuffer
import NvmeVirt.DmaTransfer

namespace NvmeVirt.DataPath

open ByteMemory
open DmaTransfer
open FaultOutcome
open HostBuffer
open PrpTransfer

/-- An entry of `ns_ssd_type`, as far as it matters, and of `ns_capacity`. -/
structure NsConfig where
  conv : Bool
  capacity : Nat
deriving DecidableEq, Repr

/-- `struct nvmev_ns`, as far as its data goes. -/
structure Namespace where
  mapped : Nat
  size : Nat
deriving DecidableEq, Repr

/-- The `ns->size` that the `_init_namespace` of the type sets. -/
def initNamespace (cfg : NsConfig) (size mappedAddr : Nat) : Namespace where
  mapped := mappedAddr
  size := if cfg.conv then ConvCapacity.nsSize size else size

/-- The loop of `NVMEV_NAMESPACE_INIT`. -/
def nvmevNamespaceInit : List NsConfig → Nat → Nat → List Namespace
  | [], _, _ => []
  | cfg :: cfgs, remainingCapacity, nsAddr =>
      let size :=
        if cfg.capacity = 0 then remainingCapacity else min cfg.capacity remainingCapacity
      initNamespace cfg size nsAddr ::
        nvmevNamespaceInit cfgs (remainingCapacity - size) (nsAddr + size)

/-- `struct nvme_rw_command`; `length` is the number of blocks less one. -/
structure RwCommand where
  nsid : Nat
  dir : Direction
  slba : Nat
  length : Nat
  dptr : DataPtr
deriving DecidableEq, Repr

structure Written where
  ns : Nat
  slba : Nat
  bytes : List UInt8

/-- The memory of the host and the storage. `journal` is a ghost history. -/
structure Data where
  host : Memory
  storage : Memory
  journal : List Written

def written (pfnValid : Nat → Bool) (host : Memory) (cmd : RwCommand) : List Written :=
  match cmd.dir, payload pfnValid cmd.dptr host (cmdIoSize cmd.length) with
  | .toDevice, .ok bytes => [⟨cmd.nsid - 1, cmd.slba, bytes⟩]
  | _, _ => []

/-- `__do_perform_io`: `none` where it leaves the namespaces or its list of pages. -/
def doPerformIo (pfnValid : Nat → Bool) (nss : List Namespace) (s : Data) (cmd : RwCommand) :
    Option Data :=
  match nss[cmd.nsid - 1]? with
  | none => none
  | some ns =>
      match performIo pfnValid cmd.dptr cmd.dir s.host s.storage
        (ns.mapped + cmdIoOffset cmd.slba) (cmdIoSize cmd.length) with
      | .error _ => none
      | .ok (host, storage) =>
          some
            { host := host
              storage := storage
              journal := s.journal ++ written pfnValid s.host cmd }

/-- The host changes its memory, or a worker carries a command out. -/
inductive DataEvent where
  | host (mem : Memory)
  | command (cmd : RwCommand)

def dataStep (pfnValid : Nat → Bool) (nss : List Namespace) (s : Data) :
    DataEvent → Option Data
  | .host mem => some { s with host := mem }
  | .command cmd => doPerformIo pfnValid nss s cmd

def dataRun (pfnValid : Nat → Bool) (nss : List Namespace) (s : Data)
    (events : List DataEvent) : Option Data :=
  events.foldlM (dataStep pfnValid nss) s

def InRange (nss : List Namespace) (cmd : RwCommand) : Prop :=
  cmd.nsid ≠ 0 ∧ ∃ ns, nss[cmd.nsid - 1]? = some ns ∧
    cmd.slba * 512 + cmdIoSize cmd.length ≤ ns.size

def EventInRange (nss : List Namespace) : DataEvent → Prop
  | .host _ => True
  | .command cmd => InRange nss cmd

section Layout

/-- The namespaces lie one behind the other between `base` and `top`. -/
inductive Tiled : Nat → Nat → List Namespace → Prop where
  | nil (base top : Nat) (h : base ≤ top) : Tiled base top []
  | cons (base top : Nat) (ns : Namespace) (nss : List Namespace) (hbase : base ≤ ns.mapped)
      (hrest : Tiled (ns.mapped + ns.size) top nss) : Tiled base top (ns :: nss)

variable {base top i j : Nat} {nss : List Namespace} {ns ns' : Namespace}

theorem Tiled.mono {base' : Nat} (h : Tiled base top nss) (hle : base' ≤ base) :
    Tiled base' top nss := by
  cases h with
  | nil _ _ h => exact .nil _ _ (Nat.le_trans hle h)
  | cons _ _ ns nss hbase hrest => exact .cons _ _ ns nss (Nat.le_trans hle hbase) hrest

theorem Tiled.le (h : Tiled base top nss) : base ≤ top := by
  induction h with
  | nil _ _ h => exact h
  | cons _ _ ns _ hbase _ ih => omega

theorem Tiled.bounds (h : Tiled base top nss) (hns : nss[i]? = some ns) :
    base ≤ ns.mapped ∧ ns.mapped + ns.size ≤ top := by
  induction h generalizing i with
  | nil => simp at hns
  | cons base top head nss hbase hrest ih =>
      cases i with
      | zero =>
          obtain rfl : head = ns := by simpa using hns
          exact ⟨hbase, hrest.le⟩
      | succ i =>
          obtain ⟨hle, htop⟩ := ih (by simpa using hns)
          exact ⟨by omega, htop⟩

theorem Tiled.disjoint (h : Tiled base top nss) (hij : i < j) (hns : nss[i]? = some ns)
    (hns' : nss[j]? = some ns') : ns.mapped + ns.size ≤ ns'.mapped := by
  induction h generalizing i j with
  | nil => simp at hns
  | cons base top head nss hbase hrest ih =>
      cases j with
      | zero => omega
      | succ j =>
          rw [List.getElem?_cons_succ] at hns'
          cases i with
          | zero =>
              obtain rfl : head = ns := by simpa using hns
              exact (hrest.bounds hns').1
          | succ i => exact ih (i := i) (j := j) (by omega) (by simpa using hns) hns'

theorem initNamespace_size_le (cfg : NsConfig) (size mappedAddr : Nat) :
    (initNamespace cfg size mappedAddr).size ≤ size := by
  rw [initNamespace]
  split
  · rw [ConvCapacity.nsSize]
    change size * 100 / 107 ≤ size
    omega
  · exact Nat.le_refl size

theorem nvmevNamespaceInit_tiled (cfgs : List NsConfig) (remainingCapacity nsAddr : Nat) :
    Tiled nsAddr (nsAddr + remainingCapacity)
      (nvmevNamespaceInit cfgs remainingCapacity nsAddr) := by
  induction cfgs generalizing remainingCapacity nsAddr with
  | nil => exact .nil _ _ (Nat.le_add_right _ _)
  | cons cfg cfgs ih =>
      rw [nvmevNamespaceInit]
      obtain ⟨size, hsize⟩ : ∃ size, size =
        if cfg.capacity = 0 then remainingCapacity
        else min cfg.capacity remainingCapacity := ⟨_, rfl⟩
      have hle : size ≤ remainingCapacity := by
        rw [hsize]
        split
        · exact Nat.le_refl _
        · exact Nat.min_le_right _ _
      have hrest := ih (remainingCapacity - size) (nsAddr + size)
      rw [show nsAddr + size + (remainingCapacity - size) = nsAddr + remainingCapacity by
        omega] at hrest
      rw [← hsize]
      have hfits := initNamespace_size_le cfg size nsAddr
      exact .cons _ _ _ _ (Nat.le_refl nsAddr)
        (hrest.mono (Nat.add_le_add_left hfits nsAddr))

end Layout

section Blocks

/-- Block `b` of namespace `i`, which is what a namespace consists of. -/
def block (nss : List Namespace) (storage : Memory) (i b : Nat) : List UInt8 :=
  match nss[i]? with
  | none => []
  | some ns => slice storage (ns.mapped + 512 * b) 512

/-- What a write puts into block `b` of namespace `i`, if it covers it. -/
def Written.block? (w : Written) (i b : Nat) : Option (List UInt8) :=
  if w.ns = i ∧ w.slba ≤ b ∧ 512 * (b - w.slba) + 512 ≤ w.bytes.length then
    some ((w.bytes.drop (512 * (b - w.slba))).take 512)
  else none

/-- What the last write to a block has put there, or else what was there before. -/
def lastWritten (before : Nat → Nat → List UInt8) (journal : List Written) (i b : Nat) :
    List UInt8 :=
  journal.foldl (fun data w => (w.block? i b).getD data) (before i b)

variable {nss : List Namespace} {ns : Namespace} {storage : Memory} {base top i b : Nat}

theorem slice_overwrite_inside {mem : Memory} {a k n : Nat} {bytes : List UInt8}
    (h : k + n ≤ bytes.length) :
    slice (overwrite mem a bytes) (a + k) n = (bytes.drop k).take n := by
  refine List.ext_getElem (by simp; omega) fun i hi hi' => ?_
  rw [length_slice] at hi
  simp only [slice, List.getElem_map, List.getElem_range, List.getElem_take,
    List.getElem_drop]
  rw [overwrite_of_mem (by omega) (by omega), List.getD_eq_getElem _ _ (by omega)]
  congr 1
  omega

theorem slice_blocks {mem : Memory} {a n : Nat} :
    slice mem a (512 * n) = (List.range n).flatMap fun k => slice mem (a + 512 * k) 512 := by
  induction n with
  | zero => rfl
  | succ n ih => rw [Nat.mul_succ, slice_add, ih, List.range_succ, List.flatMap_append,
      List.flatMap_singleton]

def HasBlock (nss : List Namespace) (i b : Nat) : Prop :=
  ∃ ns, nss[i]? = some ns ∧ 512 * b + 512 ≤ ns.size

/-- A write changes the blocks it covers, and no other block of any namespace. -/
theorem block_write {w : Written} {n : Nat} (htiled : Tiled base top nss)
    (hns : nss[w.ns]? = some ns) (hlength : w.bytes.length = 512 * n)
    (hfits : 512 * w.slba + 512 * n ≤ ns.size) (hblock : HasBlock nss i b) :
    block nss (overwrite storage (ns.mapped + 512 * w.slba) w.bytes) i b =
      (w.block? i b).getD (block nss storage i b) := by
  obtain ⟨ns', hns', hin⟩ := hblock
  simp only [block, hns', Written.block?]
  split
  · rename_i hcovers
    obtain ⟨rfl, hle, hlast⟩ := hcovers
    obtain rfl : ns = ns' := Option.some.inj (hns.symm.trans hns')
    rw [show ns.mapped + 512 * b = ns.mapped + 512 * w.slba + 512 * (b - w.slba) by omega,
      slice_overwrite_inside hlast, Option.getD_some]
  · rename_i hmisses
    rw [Option.getD_none]
    refine slice_overwrite_of_disjoint ?_
    rcases Nat.lt_trichotomy i w.ns with hlt | rfl | hgt
    · have := htiled.disjoint hlt hns' hns
      omega
    · obtain rfl : ns = ns' := Option.some.inj (hns.symm.trans hns')
      simp only [true_and, not_and, not_le] at hmisses
      rcases Nat.lt_or_ge b w.slba with hbefore | hbehind
      · omega
      · have := hmisses hbehind
        omega
    · have := htiled.disjoint hgt hns hns'
      omega

end Blocks

section Runs

variable {pfnValid : Nat → Bool} {nss : List Namespace} {s s' : Data} {base top : Nat}

theorem transferLoop_neither {dptr : DataPtr} {fuel : Nat} {t t' : Transfer}
    (hrun : transferLoop pfnValid dptr .neither fuel t = .ok t') : t'.device = t.device := by
  induction fuel generalizing t with
  | zero =>
      rw [transferLoop] at hrun
      split at hrun
      · cases hrun
        rfl
      · cases hrun
  | succ fuel ih =>
      rw [transferLoop] at hrun
      split at hrun
      · cases hrun
        rfl
      · obtain ⟨⟨paddr, cursor⟩, -, hrun⟩ := exists_of_bind_eq_ok hrun
        exact ih (t := ⟨t.host, t.device, _, _, cursor⟩) hrun

theorem performIo_neither_device {dptr : DataPtr} {host device host' device' : Memory}
    {offset length : Nat} (hrun : performIo pfnValid dptr .neither host device offset length =
      .ok (host', device')) : device' = device := by
  obtain ⟨t, ht, hrun⟩ := exists_of_bind_eq_ok hrun
  cases hrun
  exact transferLoop_neither ht

theorem lastWritten_append (before : Nat → Nat → List UInt8) (journal : List Written)
    (w : Written) (i b : Nat) :
    lastWritten before (journal ++ [w]) i b =
      (w.block? i b).getD (lastWritten before journal i b) := by
  simp [lastWritten]

theorem cmdIoOffset_eq {cmd : RwCommand} {ns : Namespace} (htiled : Tiled base top nss)
    (htop : top ≤ 2 ^ 64) (hns : nss[cmd.nsid - 1]? = some ns)
    (hfits : cmd.slba * 512 + cmdIoSize cmd.length ≤ ns.size) :
    cmdIoOffset cmd.slba = 512 * cmd.slba := by
  have := (htiled.bounds hns).2
  rw [cmdIoSize] at hfits
  rw [cmdIoOffset, Nat.mod_eq_of_lt (by omega), Nat.mul_comm]

theorem doPerformIo_cases {cmd : RwCommand} (htiled : Tiled base top nss)
    (htop : top ≤ 2 ^ 64) (hrange : InRange nss cmd)
    (hstep : doPerformIo pfnValid nss s cmd = some s') :
    cmd.dir ≠ .toDevice ∧ s'.storage = s.storage ∧ s'.journal = s.journal ∨
      ∃ ns w, nss[w.ns]? = some ns ∧ w.bytes.length = 512 * (cmd.length + 1) ∧
        512 * w.slba + 512 * (cmd.length + 1) ≤ ns.size ∧
        s'.storage = overwrite s.storage (ns.mapped + 512 * w.slba) w.bytes ∧
        s'.journal = s.journal ++ [w] := by
  obtain ⟨-, ns, hns, hfits⟩ := hrange
  have hoffset := cmdIoOffset_eq htiled htop hns hfits
  unfold doPerformIo at hstep
  simp only [hns] at hstep
  split at hstep
  · cases hstep
  · rename_i host storage hrun
    cases hstep
    cases hdir : cmd.dir with
    | toDevice =>
        rw [hdir] at hrun
        obtain ⟨bytes, hbytes, hlength, -, hstorage⟩ := performIo_toDevice hrun
        right
        refine ⟨ns, ⟨cmd.nsid - 1, cmd.slba, bytes⟩, hns, ?_, ?_, ?_, ?_⟩
        · rw [hlength, cmdIoSize, Nat.mul_comm]
        · change 512 * cmd.slba + 512 * (cmd.length + 1) ≤ ns.size
          rw [cmdIoSize] at hfits
          omega
        · rw [← hoffset]
          exact hstorage
        · simp only [written, hdir, hbytes]
    | toHost =>
        rw [hdir] at hrun
        exact Or.inl ⟨by decide, performIo_toHost_device hrun, by simp [written, hdir]⟩
    | neither =>
        rw [hdir] at hrun
        exact Or.inl ⟨by decide, performIo_neither_device hrun, by simp [written, hdir]⟩

def Current (before : Nat → Nat → List UInt8) (nss : List Namespace) (s : Data) : Prop :=
  ∀ i b, HasBlock nss i b → block nss s.storage i b = lastWritten before s.journal i b

theorem Current.step {before : Nat → Nat → List UInt8} {event : DataEvent}
    (h : Current before nss s) (htiled : Tiled base top nss) (htop : top ≤ 2 ^ 64)
    (hrange : EventInRange nss event) (hstep : dataStep pfnValid nss s event = some s') :
    Current before nss s' := by
  cases event with
  | host mem =>
      cases hstep
      exact h
  | command cmd =>
      intro i b hblock
      rcases doPerformIo_cases htiled htop hrange hstep with ⟨-, hstorage, hjournal⟩ |
        ⟨ns, w, hns, hlength, hfits, hstorage, hjournal⟩
      · rw [hstorage, hjournal]
        exact h i b hblock
      · rw [hstorage, hjournal, lastWritten_append,
          block_write htiled hns hlength hfits hblock, h i b hblock]

theorem Current.run {before : Nat → Nat → List UInt8} {events : List DataEvent}
    (h : Current before nss s) (htiled : Tiled base top nss) (htop : top ≤ 2 ^ 64)
    (hrange : ∀ event ∈ events, EventInRange nss event)
    (hrun : dataRun pfnValid nss s events = some s') : Current before nss s' := by
  induction events generalizing s with
  | nil =>
      cases hrun
      exact h
  | cons event events ih =>
      rw [dataRun, List.foldlM_cons] at hrun
      obtain ⟨mid, hmid, hrest⟩ := Option.bind_eq_some_iff.mp hrun
      exact ih (h.step htiled htop (hrange event List.mem_cons_self) hmid)
        (fun e he => hrange e (List.mem_cons_of_mem _ he)) hrest

/-- The namespaces behave as arrays of blocks that do not share storage: after any commands
in range, and whatever the host does to its memory meanwhile, a block of a namespace holds
what the last write to that namespace has put there, and a read fills exactly the buffer of
the host with the blocks it asks for. -/
theorem reads_return_last_written {cfgs : List NsConfig} {storageSize nsAddr : Nat}
    {events : List DataEvent} (hnss : nss = nvmevNamespaceInit cfgs storageSize nsAddr)
    (hspace : nsAddr + storageSize ≤ 2 ^ 64) (hfresh : s.journal = [])
    (hrange : ∀ event ∈ events, EventInRange nss event)
    (hrun : dataRun pfnValid nss s events = some s') :
    (∀ i b, HasBlock nss i b →
      block nss s'.storage i b = lastWritten (block nss s.storage) s'.journal i b) ∧
    ∀ cmd addrs cells, cmd.dir = .toHost → InRange nss cmd →
      hostBuffer pfnValid cmd.dptr s'.host (cmdIoSize cmd.length) = .ok (addrs, cells) →
      Separate addrs cells →
      ∃ s'', doPerformIo pfnValid nss s' cmd = some s'' ∧ s''.storage = s'.storage ∧
        addrs.map s''.host = (List.range (cmd.length + 1)).flatMap (fun k =>
          lastWritten (block nss s.storage) s'.journal (cmd.nsid - 1) (cmd.slba + k)) ∧
        ∀ a, a ∉ addrs → s''.host a = s'.host a := by
  have htiled := nvmevNamespaceInit_tiled cfgs storageSize nsAddr
  rw [← hnss] at htiled
  have hstart : Current (block nss s.storage) nss s := by
    intro i b _
    rw [hfresh]
    rfl
  have hcurrent := hstart.run htiled hspace hrange hrun
  refine ⟨hcurrent, ?_⟩
  intro cmd addrs cells hdir hcmd hbuffer hseparate
  obtain ⟨-, ns, hns, hfits⟩ := hcmd
  have hoffset := cmdIoOffset_eq htiled hspace hns hfits
  obtain ⟨host', hperform, hfilled, hkept⟩ := performIo_toHost s'.storage
    (ns.mapped + cmdIoOffset cmd.slba) hbuffer hseparate
  refine ⟨{ s' with host := host' }, ?_, rfl, ?_, hkept⟩
  · rw [doPerformIo]
    simp only [hns, hdir, hperform, written, List.append_nil]
  · change addrs.map host' = _
    rw [hfilled, hoffset, cmdIoSize, Nat.mul_comm (cmd.length + 1), slice_blocks]
    refine List.flatMap_congr fun k hk => ?_
    have hlt := List.mem_range.mp hk
    rw [cmdIoSize] at hfits
    rw [← hcurrent _ _ ⟨ns, hns, by omega⟩, block, hns]
    dsimp only
    congr 1
    omega

/-- The host writes a block of sevens to the second of two namespaces. -/
def writeSevens : RwCommand where
  nsid := 2
  dir := .toDevice
  slba := 3
  length := 0
  dptr := ⟨4096, 0⟩

def readSevens : RwCommand := { writeSevens with dir := .toHost, dptr := ⟨20480, 0⟩ }

def twoNamespaces : List Namespace :=
  nvmevNamespaceInit [⟨true, 8192⟩, ⟨false, 0⟩] 16384 0

def sevens : List UInt8 := List.replicate (cmdIoSize 0) 7

theorem writeSevens_payload :
    payload (fun _ => true) writeSevens.dptr (fun _ => 7) (cmdIoSize writeSevens.length) =
      .ok sevens := by
  rw [payload_of_hostBuffer (hostBuffer_page (by decide) (by decide)), List.map_const',
    List.length_range']
  rfl

theorem doPerformIo_writeSevens (storage : Memory) :
    doPerformIo (fun _ => true) twoNamespaces ⟨fun _ => 7, storage, []⟩ writeSevens =
      some ⟨fun _ => 7, overwrite storage (8192 + cmdIoOffset writeSevens.slba) sevens,
        [⟨1, 3, sevens⟩]⟩ := by
  have hns : twoNamespaces[writeSevens.nsid - 1]? = some ⟨8192, 8192⟩ := rfl
  have hdir : writeSevens.dir = .toDevice := rfl
  have hperform : performIo (fun _ => true) writeSevens.dptr .toDevice (fun _ => 7) storage
      (8192 + cmdIoOffset writeSevens.slba) (cmdIoSize writeSevens.length) = _ :=
    performIo_of_payload writeSevens_payload
  rw [doPerformIo, hns]
  dsimp only
  rw [hdir, hperform, written, hdir, writeSevens_payload]
  rfl

theorem dataRun_command (pfnValid : Nat → Bool) (nss : List Namespace) (s : Data)
    (mem : Memory) (cmd : RwCommand) :
    dataRun pfnValid nss s [.host mem, .command cmd] =
      doPerformIo pfnValid nss { s with host := mem } cmd := by
  change (doPerformIo pfnValid nss { s with host := mem } cmd).bind some = _
  exact Option.bind_fun_some _

theorem reads_return_last_written_sevens :
    ∃ s', dataRun (fun _ => true) twoNamespaces ⟨fun _ => 0, fun _ => 0, []⟩
        [.host fun _ => 7, .command writeSevens] = some s' ∧
      block twoNamespaces s'.storage 1 3 = sevens ∧
      ∃ s'', doPerformIo (fun _ => true) twoNamespaces s' readSevens = some s'' ∧
        (List.range' 20480 (cmdIoSize 0)).map s''.host = sevens := by
  have hrun := (dataRun_command (fun _ => true) twoNamespaces ⟨fun _ => 0, fun _ => 0, []⟩
    (fun _ => 7) writeSevens).trans (doPerformIo_writeSevens _)
  have hrange : ∀ event ∈ [DataEvent.host fun _ => 7, .command writeSevens],
      EventInRange twoNamespaces event := by
    intro event hevent
    simp only [List.mem_cons, List.not_mem_nil, or_false] at hevent
    rcases hevent with rfl | rfl
    · trivial
    · exact ⟨by decide, ⟨8192, 8192⟩, rfl, by decide⟩
  have hblocks := reads_return_last_written (show twoNamespaces =
    nvmevNamespaceInit [⟨true, 8192⟩, ⟨false, 0⟩] 16384 0 from rfl) (by decide) rfl hrange hrun
  obtain ⟨s'', hread, -, hfilled, -⟩ := hblocks.2 readSevens _ _ rfl
    ⟨by decide, ⟨8192, 8192⟩, rfl, by decide⟩ (hostBuffer_page (by decide) (by decide))
    ⟨List.nodup_range', by simp⟩
  refine ⟨_, hrun, ?_, s'', hread, hfilled.trans ?_⟩
  · rw [hblocks.1 1 3 ⟨⟨8192, 8192⟩, rfl, by decide⟩]
    decide +kernel
  · decide +kernel

end Runs

end NvmeVirt.DataPath
