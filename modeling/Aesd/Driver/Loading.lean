import Aesd.Driver.Calls
import Aesd.Driver.Ownership

/-!
# Loading and unloading

`aesd_init_module` acquires one thing after another, a region of device numbers, a block for the
circular buffer, the mutex and the entry of the device in the kernel's table, and gives back what it
has got if one of them is refused.  `aesd_cleanup_module` gives back all of them.  In between the
device is opened and used.

An `AesdModule` is what there is at a moment.  A run loads and unloads it as often as it likes, and
whatever can be refused may be.  `module_balanced` says that nothing is given back twice, that
nothing is left when the module is not loaded, and that whoever has the device open finds all of it
in place.

What the kernel does is this.  A device can be opened as long as it is in the table and nobody has
begun to unload its module, and a module is not unloaded while its device is open.  `aesd_open` and
`aesd_release` do nothing but refer to the one device there is, and a file that is opened is at its
beginning.  The calls on the open files are whole here; `Aesd.Driver.Calls` says why that is enough.

`load_eq` says that loading step by step comes to the same as `aesdInitModule`.  `Sound` is the
invariant for what comes from the kernel.  For the command data it is `Owned` and `Reclaimable`
again, and `step_data` says what an event does to them.
-/

set_option autoImplicit false

namespace Aesd

/-! ## The state -/

/-- Where the module is: what it does next. -/
inductive ModulePc where
  /-- It is not loaded. -/
  | absent
  /-- `aesd_init_module`: `kzalloc`. -/
  | kzalloc
  /-- `mutex_init`. -/
  | mutexInit
  /-- `cdev_add`, in `aesd_setup_cdev`. -/
  | cdevAdd
  /-- At `fail`, with the value of `result`. -/
  | fail (result : ℤ)
  /-- `unregister_chrdev_region`, after `fail`. -/
  | failUnregister (result : ℤ)
  /-- It is loaded. -/
  | live
  /-- `aesd_cleanup_module`: `cdev_del`. -/
  | cdevDel
  /-- The `kfree`s of command data. -/
  | kfreeData
  /-- `kfree(buffer)`. -/
  | kfreeBuffer
  /-- `mutex_destroy`. -/
  | mutexDestroy
  /-- `unregister_chrdev_region`. -/
  | unregister
  deriving DecidableEq

namespace ModulePc

/-- The module has its region of device numbers here. -/
@[simp] def hasRegion : ModulePc → Bool
  | .absent => false
  | _ => true

/-- It has its mutex here. -/
@[simp] def hasLock : ModulePc → Bool
  | .cdevAdd | .live | .cdevDel | .kfreeData | .kfreeBuffer | .mutexDestroy => true
  | _ => false

/-- The device is in the table here. -/
@[simp] def hasCdev : ModulePc → Bool
  | .live | .cdevDel => true
  | _ => false

/-- Nobody has had the device since it was cleared. -/
@[simp] def isFresh : ModulePc → Bool
  | .kzalloc | .mutexInit | .cdevAdd => true
  | _ => false

end ModulePc

/-- The module, what it has got from the kernel, and the open files. -/
structure AesdModule where
  /-- Where it is. -/
  pc : ModulePc
  /-- `aesd_major`. -/
  aesdMajor : ℕ
  /-- The regions of device numbers it has, by their major numbers. -/
  regions : List ℕ
  /-- All blocks for a circular buffer there have been. -/
  buffers : Heap Unit
  /-- `aesd_device.buffer`. -/
  buffer : ℕ
  /-- `aesd_device.lock` can be used. -/
  lockReady : Bool
  /-- The number under which the device is in the kernel's table. -/
  cdev : Option ℕ
  /-- The device, with the positions of its files. -/
  sys : Sys
  /-- The files that are open. -/
  opened : List ℕ
  /-- What earlier unloadings have left of the command data. -/
  past : List (Heap (List Byte))
  /-- What `aesd_init_module` has returned when it was called last. -/
  returned : Option ℤ

/-- One event. -/
inductive ModuleEvent where
  /-- The module is loaded, and `alloc_chrdev_region` returns a major number or an error. -/
  | insmod (region : Except ℤ ℕ)
  /-- The next call of the module succeeds. -/
  | ok
  /-- It fails. -/
  | fail (err : ℤ)
  /-- `aesd_open`. -/
  | openFile (f : ℕ)
  /-- A call on an open file. -/
  | call (f : ℕ) (c : FileCall)
  /-- `aesd_release`. -/
  | release (f : ℕ)
  /-- The module is unloaded. -/
  | rmmod

namespace AesdModule

/-- Never loaded. -/
def init : AesdModule where
  pc := .absent
  aesdMajor := 0
  regions := []
  buffers := .empty
  buffer := 0
  lockReady := false
  cdev := none
  sys := .init
  opened := []
  past := []
  returned := none

/-- `aesd_init_module` up to the answer of `alloc_chrdev_region`. -/
def allocChrdevRegion (s : AesdModule) : Except ℤ ℕ → Option AesdModule
  | .error err =>
    if s.pc = .absent ∧ err < 0 then
      some { s with aesdMajor := 0, returned := some err }
    else none
  | .ok major =>
    if s.pc = .absent ∧ major ∉ s.regions then
      some { s with
        aesdMajor := major, regions := major :: s.regions, buffer := 0, lockReady := false,
        sys := ⟨.init, s.sys.fPos⟩, pc := .kzalloc }
    else none

/-- What `aesd_cleanup_module` leaves of the command data. -/
def cleanupData (s : AesdModule) : Heap (List Byte) :=
  if s.buffer ≠ 0 then aesdCleanupModule s.sys.dev
  else if s.sys.dev.tmpBuffSize > 0 then s.sys.dev.mem.free s.sys.dev.tmpBuffPtr
  else s.sys.dev.mem

/-- `kfree` of the circular buffer, if there is one. -/
def kfreeBuffer (s : AesdModule) : Heap Unit :=
  if s.buffer ≠ 0 then s.buffers.free s.buffer else s.buffers

/-- The next call succeeds. -/
def ok (s : AesdModule) : Option AesdModule :=
  match s.pc with
  | .absent | .live => none
  | .kzalloc =>
    some { s with buffers := s.buffers.alloc (), buffer := s.buffers.next, pc := .mutexInit }
  | .mutexInit => some { s with lockReady := true, pc := .cdevAdd }
  | .cdevAdd => some { s with cdev := some s.aesdMajor, returned := some 0, pc := .live }
  | .fail result =>
    some { s with buffers := s.kfreeBuffer, pc := .failUnregister result }
  | .failUnregister result =>
    some { s with
      regions := s.regions.erase s.aesdMajor, returned := some result, pc := .absent }
  | .cdevDel => some { s with cdev := none, pc := .kfreeData }
  | .kfreeData => some { s with past := s.cleanupData :: s.past, pc := .kfreeBuffer }
  | .kfreeBuffer => some { s with buffers := s.kfreeBuffer, pc := .mutexDestroy }
  | .mutexDestroy => some { s with lockReady := false, pc := .unregister }
  | .unregister => some { s with regions := s.regions.erase s.aesdMajor, pc := .absent }

/-- The next call fails, if it is one that can. -/
def refuse (s : AesdModule) (err : ℤ) : Option AesdModule :=
  match s.pc with
  | .kzalloc => some { s with buffer := 0, pc := .fail (-ENOMEM) }
  | .cdevAdd => if err < 0 then some { s with pc := .fail err } else none
  | _ => none

/-- One event. -/
def step (seek : FixedSizeLlseek) (s : AesdModule) : ModuleEvent → Option AesdModule
  | .insmod region => s.allocChrdevRegion region
  | .ok => s.ok
  | .fail err => s.refuse err
  | .openFile f =>
    if s.cdev ≠ none ∧ s.pc ≠ .cdevDel ∧ f ∉ s.opened then
      some { s with opened := f :: s.opened, sys := s.sys.setPos f 0 }
    else none
  | .call f c => if f ∈ s.opened then some { s with sys := (s.sys.exec seek f c).1 } else none
  | .release f => if f ∈ s.opened then some { s with opened := s.opened.erase f } else none
  | .rmmod => if s.pc = .live ∧ s.opened = [] then some { s with pc := .cdevDel } else none

/-- No call leaves a block of command data without an owner. -/
def keepsBlocks (s : AesdModule) : ModuleEvent → Bool
  | .call f (.write buf env) => !decide (Leaks s.sys.dev ⟨f, buf, env⟩)
  | _ => true

/-- The events of loading the module when the kernel decides `env`. -/
def load (env : InitEnv) (major : ℕ) : List ModuleEvent :=
  if env.region < 0 then [.insmod (.error env.region)]
  else if !env.room then [.insmod (.ok major), .fail (-ENOMEM), .ok, .ok]
  else if env.cdev = 0 then [.insmod (.ok major), .ok, .ok, .ok]
  else [.insmod (.ok major), .ok, .ok, .fail env.cdev, .ok, .ok]

variable {seek : FixedSizeLlseek} {s s' : AesdModule} {f : ℕ}

/-- **Loading** step by step comes to what `aesdInitModule` says, the device included. -/
theorem load_eq (seek : FixedSizeLlseek) (hpc : s.pc = .absent) {env : InitEnv} {major : ℕ}
    (hmajor : major ∉ s.regions) (hcdev : env.cdev ≤ 0) :
    ∃ s', (load env major).foldlM (step seek) s = some s' ∧
      match aesdInitModule env with
      | .ok d => s'.pc = .live ∧ s'.sys.dev = d ∧ s'.returned = some 0
      | .error err => s'.pc = .absent ∧ s'.returned = some err := by
  rw [load, aesdInitModule]
  split
  · rename_i hregion
    refine ⟨{ s with aesdMajor := 0, returned := some env.region }, ?_, hpc, rfl⟩
    simp [step, allocChrdevRegion, hpc, hregion]
  · split
    · apply Exists.intro
      constructor
      · simp [step, allocChrdevRegion, refuse, ok, hpc, hmajor]
        rfl
      · exact ⟨rfl, rfl⟩
    · split
      · apply Exists.intro
        constructor
        · simp [step, allocChrdevRegion, ok, hpc, hmajor]
          rfl
        · exact ⟨rfl, rfl, rfl⟩
      · rename_i hne
        have hneg : env.cdev < 0 := lt_of_le_of_ne hcdev hne
        apply Exists.intro
        constructor
        · simp [step, allocChrdevRegion, refuse, ok, hpc, hmajor, hneg]
          rfl
        · exact ⟨rfl, rfl⟩

/-! ## What comes from the kernel -/

/-- The block for the circular buffer that the module should have. -/
def holds (s : AesdModule) : Option ℕ :=
  match s.pc with
  | .absent | .kzalloc | .failUnregister _ | .mutexDestroy | .unregister => none
  | .fail _ => if s.buffer = 0 then none else some s.buffer
  | .mutexInit | .cdevAdd | .live | .cdevDel | .kfreeData | .kfreeBuffer => some s.buffer

/-- **The module has what it should have**, and nothing else. -/
structure Sound (s : AesdModule) : Prop where
  /-- Its region. -/
  regions : s.regions = if s.pc.hasRegion then [s.aesdMajor] else []
  /-- Its entry in the table. -/
  cdev : s.cdev = if s.pc.hasCdev then some s.aesdMajor else none
  /-- Its mutex. -/
  lock : s.pc.hasLock = true → s.lockReady = true
  /-- Its circular buffer. -/
  buffers : s.buffers.Single s.holds
  /-- It is loaded while a file is open. -/
  opened : s.pc ≠ .live → s.opened = []
  /-- It does not find the device in use. -/
  fresh : s.pc.isFresh = true → s.sys.dev = .init
  /-- It is loaded when `aesd_init_module` has said so. -/
  returned : s.pc = .live → s.returned = some 0

theorem sound_init : init.Sound where
  regions := rfl
  cdev := rfl
  lock h := absurd h (by decide)
  buffers := Heap.single_empty
  opened _ := rfl
  fresh h := absurd h (by decide)
  returned h := absurd h (by decide)

theorem Sound.single (h : s.Sound) {held : Option ℕ} (heq : s.holds = held) :
    s.buffers.Single held := heq ▸ h.buffers

/-- **The circular buffer is freed** where it should be. -/
theorem Sound.kfreeBuffer (h : s.Sound)
    (hat : s.holds = if s.buffer = 0 then none else some s.buffer) :
    s.kfreeBuffer.Single none := by
  have hbuffers := h.single hat
  rw [AesdModule.kfreeBuffer]
  split
  · rename_i hne
    rw [if_neg hne] at hbuffers
    exact hbuffers.free
  · rename_i hnull
    rwa [if_pos (not_not.mp hnull)] at hbuffers

/-- There is one. -/
theorem Sound.buffer_ne_zero (h : s.Sound) (hsome : s.holds = some s.buffer) : s.buffer ≠ 0 :=
  (h.single hsome).ne_null

/-- Loading begins. -/
theorem Sound.allocChrdevRegion (h : s.Sound) {region : Except ℤ ℕ}
    (hs : s.allocChrdevRegion region = some s') : s'.Sound := by
  cases region with
  | error err =>
    obtain ⟨⟨hpc, -⟩, rfl⟩ := Option.ite_some_none_eq_some.mp hs
    exact {
      regions := by simpa [hpc] using h.regions
      cdev := by simpa [hpc] using h.cdev
      lock := h.lock
      buffers := h.buffers
      opened := h.opened
      fresh := h.fresh
      returned := fun hlive ↦ absurd (hpc.symm.trans hlive) (by decide) }
  | ok major =>
    obtain ⟨⟨hpc, -⟩, rfl⟩ := Option.ite_some_none_eq_some.mp hs
    have hnone : s.holds = none := by rw [holds, hpc]
    exact {
      regions := by simpa [hpc] using h.regions
      cdev := by simpa [hpc] using h.cdev
      lock := by simp
      buffers := h.single hnone
      opened := fun _ ↦ h.opened (by simp [hpc])
      fresh := fun _ ↦ rfl
      returned := by simp }

/-- A call is refused. -/
theorem Sound.refuse (h : s.Sound) {err : ℤ} (hs : s.refuse err = some s') : s'.Sound := by
  cases hpc : s.pc <;> simp only [AesdModule.refuse, hpc, reduceCtorEq, Option.some.injEq] at hs
  case kzalloc =>
    subst hs
    have hnone : s.holds = none := by rw [holds, hpc]
    exact {
      regions := by simpa [hpc] using h.regions
      cdev := by simpa [hpc] using h.cdev
      lock := by simp
      buffers := h.single hnone
      opened := fun _ ↦ h.opened (by simp [hpc])
      fresh := by simp
      returned := by simp }
  case cdevAdd =>
    obtain ⟨-, rfl⟩ := Option.ite_some_none_eq_some.mp hs
    have hsome : s.holds = some s.buffer := by rw [holds, hpc]
    exact {
      regions := by simpa [hpc] using h.regions
      cdev := by simpa [hpc] using h.cdev
      lock := by simp
      buffers := by
        rw [holds, if_neg (h.buffer_ne_zero hsome)]
        exact h.single hsome
      opened := fun _ ↦ h.opened (by simp [hpc])
      fresh := by simp
      returned := by simp }

/-- The circular buffer, when a call succeeds. -/
theorem Sound.buffers_ok (h : s.Sound) (hs : s.ok = some s') : s'.buffers.Single s'.holds := by
  have hbuffers := h.buffers
  cases hpc : s.pc <;> simp only [AesdModule.ok, hpc, reduceCtorEq, Option.some.injEq] at hs <;>
    subst hs
  case kzalloc =>
    rw [holds, hpc] at hbuffers
    exact hbuffers.alloc ()
  case fail result => exact h.kfreeBuffer (by rw [holds, hpc])
  case kfreeBuffer =>
    have hsome : s.holds = some s.buffer := by rw [holds, hpc]
    exact h.kfreeBuffer (by rw [if_neg (h.buffer_ne_zero hsome), hsome])
  all_goals
    rw [holds, hpc] at hbuffers
    exact hbuffers

/-- The next call succeeds. -/
theorem Sound.ok (h : s.Sound) (hs : s.ok = some s') : s'.Sound := by
  have hbuffers := h.buffers_ok hs
  have hregions := h.regions
  have hcdev := h.cdev
  have hlock := h.lock
  have hopened := h.opened
  have hfresh := h.fresh
  cases hpc : s.pc <;> simp only [AesdModule.ok, hpc, reduceCtorEq, Option.some.injEq] at hs <;>
    subst hs <;> rw [hpc] at hregions hcdev hlock hopened hfresh <;>
    exact {
      regions := by simp [hregions]
      cdev := by simp [hcdev]
      lock := by first | exact fun _ ↦ hlock rfl | simp
      buffers := hbuffers
      opened := by simp [hopened]
      fresh := by first | exact fun _ ↦ hfresh rfl | simp
      returned := by simp }

/-- Who has the device open has got it from a loaded module. -/
theorem Sound.live_of_mem (h : s.Sound) (hf : f ∈ s.opened) : s.pc = .live := by
  by_contra hpc
  rw [h.opened hpc] at hf
  exact absurd hf (by simp)

/-- The files are used. -/
theorem Sound.use (h : s.Sound) (hpc : s.pc = .live) (sys : Sys) (opened : List ℕ) :
    Sound { s with sys := sys, opened := opened } where
  regions := h.regions
  cdev := h.cdev
  lock := h.lock
  buffers := h.buffers
  opened hne := absurd hpc hne
  fresh hfresh := absurd hfresh (by simp [hpc])
  returned := h.returned

/-- **One event.** -/
theorem Sound.step (h : s.Sound) {a : ModuleEvent} (hs : s.step seek a = some s') : s'.Sound := by
  cases a with
  | insmod region => exact h.allocChrdevRegion hs
  | ok => exact h.ok hs
  | fail err => exact h.refuse hs
  | openFile f =>
    obtain ⟨⟨hcdev, hgoing, -⟩, rfl⟩ := Option.ite_some_none_eq_some.mp hs
    have hpc : s.pc = .live := by
      rw [h.cdev] at hcdev
      -- it is in the table, and nobody has begun to unload the module
      cases hpc : s.pc <;> simp_all
    exact h.use hpc _ _
  | call f c =>
    obtain ⟨hopen, rfl⟩ := Option.ite_some_none_eq_some.mp hs
    exact h.use (h.live_of_mem hopen) _ _
  | release f =>
    obtain ⟨hopen, rfl⟩ := Option.ite_some_none_eq_some.mp hs
    exact h.use (h.live_of_mem hopen) _ _
  | rmmod =>
    obtain ⟨⟨hpc, hnone⟩, rfl⟩ := Option.ite_some_none_eq_some.mp hs
    have hsome : s.holds = some s.buffer := by rw [holds, hpc]
    exact {
      regions := by simpa [hpc] using h.regions
      cdev := by simpa [hpc] using h.cdev
      lock := fun _ ↦ h.lock (by rw [hpc]; rfl)
      buffers := h.single hsome
      opened := fun _ ↦ hnone
      fresh := by simp
      returned := by simp }

/-! ## The command data -/

/-- Only `aesd_write` changes the device. -/
theorem dev_exec (s : Sys) (f : ℕ) (c : FileCall) : (s.exec seek f c).1.dev = s.dev ∨
    ∃ buf env, c = .write buf env ∧ (s.exec seek f c).1 = s.write ⟨f, buf, env⟩ := by
  cases c with
  | write buf env => exact .inr ⟨buf, env, rfl, rfl⟩
  | read | llseek | ioctl => exact .inl rfl

/-- **What an event does to the command data**: it leaves it alone, clears the device, unloads it or
writes to it. -/
theorem Sound.step_data (h : s.Sound) {a : ModuleEvent} (hs : s.step seek a = some s') :
    (s'.sys.dev = s.sys.dev ∨ s'.sys.dev = .init) ∧ s'.past = s.past ∨
    s'.sys.dev = s.sys.dev ∧ s'.past = aesdCleanupModule s.sys.dev :: s.past ∨
    ∃ f buf env, a = .call f (.write buf env) ∧ s'.sys = s.sys.write ⟨f, buf, env⟩ ∧
      s'.past = s.past := by
  cases a with
  | insmod region =>
    left
    cases region with
    | error err =>
      obtain ⟨-, rfl⟩ := Option.ite_some_none_eq_some.mp hs
      exact ⟨.inl rfl, rfl⟩
    | ok major =>
      obtain ⟨-, rfl⟩ := Option.ite_some_none_eq_some.mp hs
      exact ⟨.inr rfl, rfl⟩
  | ok =>
    rw [AesdModule.step] at hs
    cases hpc : s.pc <;> simp only [AesdModule.ok, hpc, reduceCtorEq, Option.some.injEq] at hs <;>
      subst hs
    case kfreeData =>
      have hne := h.buffer_ne_zero (by rw [holds, hpc])
      exact .inr (.inl ⟨rfl, by rw [cleanupData, if_pos hne]⟩)
    all_goals exact .inl ⟨.inl rfl, rfl⟩
  | fail err =>
    left
    rw [AesdModule.step] at hs
    cases hpc : s.pc <;> simp only [AesdModule.refuse, hpc, reduceCtorEq, Option.some.injEq] at hs
    case kzalloc =>
      subst hs
      exact ⟨.inl rfl, rfl⟩
    case cdevAdd =>
      obtain ⟨-, rfl⟩ := Option.ite_some_none_eq_some.mp hs
      exact ⟨.inl rfl, rfl⟩
  | openFile f | release f | rmmod =>
    obtain ⟨-, rfl⟩ := Option.ite_some_none_eq_some.mp hs
    exact .inl ⟨.inl rfl, rfl⟩
  | call f c =>
    obtain ⟨-, rfl⟩ := Option.ite_some_none_eq_some.mp hs
    rcases dev_exec s.sys f c with hdev | ⟨buf, env, rfl, hsys⟩
    · exact .inl ⟨.inl hdev, rfl⟩
    · exact .inr (.inr ⟨f, buf, env, rfl, hsys, rfl⟩)

/-- The device is as `I` says, and what earlier unloadings have left as `J` says. -/
structure Data (I : AesdDev → Prop) (J : Heap (List Byte) → Prop) (s : AesdModule) : Prop where
  /-- The device. -/
  dev : I s.sys.dev
  /-- What is left. -/
  past : ∀ m ∈ s.past, J m

/-- **The rule for the command data**: a fresh device, `aesd_write` and `aesd_cleanup_module` are
all there is to look at. -/
theorem Data.step {I : AesdDev → Prop} {J : Heap (List Byte) → Prop} (hd : s.Data I J)
    (h : s.Sound) {a : ModuleEvent} (hs : s.step seek a = some s') (hinit : I .init)
    (hcleanup : ∀ d, I d → J (aesdCleanupModule d))
    (hwrite : ∀ f buf env, a = .call f (.write buf env) → I (s.sys.write ⟨f, buf, env⟩).dev) :
    s'.Data I J := by
  rcases h.step_data hs with ⟨hdev, hpast⟩ | ⟨hdev, hpast⟩ | ⟨f, buf, env, rfl, hsys, hpast⟩
  · refine ⟨?_, hpast ▸ hd.past⟩
    rcases hdev with hdev | hdev <;> rw [hdev]
    · exact hd.dev
    · exact hinit
  · refine ⟨hdev ▸ hd.dev, ?_⟩
    rw [hpast, List.forall_mem_cons]
    exact ⟨hcleanup _ hd.dev, hd.past⟩
  · exact ⟨hsys ▸ hwrite f buf env rfl, hpast ▸ hd.past⟩

/-- Nothing is freed twice. -/
abbrev FreedOnce (s : AesdModule) : Prop :=
  s.Data (fun d ↦ ∃ hist, d.Owned hist) fun m ↦ m.badFrees = []

/-- Nothing is left over. -/
abbrev NothingLeft (s : AesdModule) : Prop :=
  s.Data (fun d ↦ (∃ log, Refines d log) ∧ Reclaimable d) fun m ↦ ∀ p, m.block p = none

theorem freedOnce_init : init.FreedOnce := ⟨⟨_, AesdDev.owned_init⟩, by simp [init]⟩

theorem nothingLeft_init : init.NothingLeft :=
  ⟨⟨⟨_, refines_init⟩, fun p hp ↦ by cases hp⟩, by simp [init]⟩

theorem Sound.freedOnce_step (h : s.Sound) (hd : s.FreedOnce) {a : ModuleEvent}
    (hs : s.step seek a = some s') : s'.FreedOnce := by
  refine hd.step h hs ⟨_, AesdDev.owned_init⟩ ?_ ?_
  · rintro d ⟨hist, ho⟩
    exact ho.badFrees_cleanup
  intro f buf env _
  obtain ⟨hist, ho⟩ := hd.dev
  exact ho.aesdWrite env (s.sys.fPos f) buf

theorem Sound.nothingLeft_step (h : s.Sound) (hd : s.NothingLeft) {a : ModuleEvent}
    (hs : Run.restrict (AesdModule.step seek) keepsBlocks s a = some s') : s'.NothingLeft := by
  obtain ⟨hkeeps, hs⟩ := Run.restrict_eq_some.mp hs
  refine hd.step h hs ⟨⟨_, refines_init⟩, fun p hp ↦ by cases hp⟩
    (fun d hrec ↦ (cleanup_frees_all_iff d).mpr hrec.2) ?_
  rintro f buf env rfl
  obtain ⟨⟨log, hr⟩, hrec⟩ := hd.dev
  obtain ⟨hist, ho⟩ := hr.owned
  have hleaks : ¬Leaks s.sys.dev ⟨f, buf, env⟩ := by simpa [keepsBlocks] using hkeeps
  exact ⟨⟨_, hr.write (mt Leaks.of_losesPending hleaks)⟩,
    (reclaimable_aesdWrite_iff ho hr.intact hrec ⟨f, buf, env⟩ (s.sys.fPos f)).mpr hleaks⟩

end AesdModule

/-- **Loading and unloading are balanced.**  In every run of loads and unloads with anything
refused, of opens, calls with any outcome and releases:

* nothing is freed that is not there, neither a circular buffer nor command data, now or in earlier
  unloadings;
* whoever has the device open has got it from a module that has said it is loaded, whose region and
  entry in the table are still there, and so are its mutex and its circular buffer;
* the device is cleared and its mutex there before it can be opened;
* when the module is not loaded, there is no region, no entry in the table and no circular buffer,
  every one there has been has been freed once, and nobody has the device open;
* no command data is left by an unloading, if no `aesd_write` has left a block without an owner. -/
theorem module_balanced (seek : FixedSizeLlseek) (as : List ModuleEvent) (s : AesdModule)
    (hrun : as.foldlM (AesdModule.step seek) .init = some s) :
    (s.buffers.badFrees = [] ∧ s.sys.dev.mem.badFrees = [] ∧ ∀ m ∈ s.past, m.badFrees = []) ∧
    (∀ f ∈ s.opened, s.returned = some 0 ∧ s.regions = [s.aesdMajor] ∧
      s.cdev = some s.aesdMajor ∧ s.lockReady = true ∧ (s.buffers.block s.buffer).isSome) ∧
    (s.pc = .cdevAdd → s.sys.dev = .init ∧ s.lockReady = true) ∧
    (s.pc = .absent → s.regions = [] ∧ s.cdev = none ∧ s.opened = [] ∧
      ∀ p, s.buffers.block p = none ∧
        (0 < p → p < s.buffers.next → s.buffers.frees.count p = 1)) ∧
    (as.foldlM (Run.restrict (AesdModule.step seek) AesdModule.keepsBlocks) .init = some s →
      ∀ m ∈ s.past, ∀ p, m.block p = none) := by
  obtain ⟨h, honce⟩ : s.Sound ∧ s.FreedOnce := by
    refine Run.foldlM_invariant (I := fun t ↦ t.Sound ∧ t.FreedOnce) (fun t a t' ht hs ↦ ?_) hrun
      ⟨AesdModule.sound_init, AesdModule.freedOnce_init⟩
    exact ⟨ht.1.step hs, ht.1.freedOnce_step ht.2 hs⟩
  obtain ⟨hist, ho⟩ := honce.dev
  refine ⟨⟨h.buffers.badFrees, ho.badFrees, honce.past⟩, ?_, ?_, ?_, ?_⟩
  · intro f hf
    have hpc := h.live_of_mem hf
    refine ⟨h.returned hpc, ?_, ?_, h.lock (by rw [hpc]; rfl), ?_⟩
    · rw [h.regions, hpc]
      rfl
    · rw [h.cdev, hpc]
      rfl
    · have hsome : s.holds = some s.buffer := by rw [AesdModule.holds, hpc]
      exact (h.single hsome).isSome
  · exact fun hpc ↦ ⟨h.fresh (by rw [hpc]; rfl), h.lock (by rw [hpc]; rfl)⟩
  · intro hpc
    have hnone : s.holds = none := by rw [AesdModule.holds, hpc]
    have hdead := (h.single hnone).block_eq_none
    refine ⟨?_, ?_, h.opened (by simp [hpc]), fun p ↦ ⟨hdead p, fun h0 hlt ↦ ?_⟩⟩
    · rw [h.regions, hpc]
      rfl
    · rw [h.cdev, hpc]
      rfl
    · exact h.buffers.accounted.count_of_dead (by omega) hlt (hdead p)
  · intro hkeeps
    have hleft : s.Sound ∧ s.NothingLeft := by
      refine Run.foldlM_invariant (I := fun t ↦ t.Sound ∧ t.NothingLeft) (fun t a t' ht hs ↦ ?_)
        hkeeps ⟨AesdModule.sound_init, AesdModule.nothingLeft_init⟩
      exact ⟨ht.1.step (Run.restrict_eq_some.mp hs).2, ht.1.nothingLeft_step ht.2 hs⟩
    exact hleft.2.past

/-- Loaded, used by one file, unloaded, and then loaded again with `cdev_add` refused. -/
def loadedTwice : List ModuleEvent :=
  AesdModule.load ⟨0, true, 0⟩ 250 ++
    [.openFile 0, .call 0 (.write [97] ⟨false, .fresh, fun _ ↦ 0, 0, 0⟩), .release 0, .rmmod, .ok,
      .ok, .ok, .ok, .ok] ++ AesdModule.load ⟨0, true, -12⟩ 251

/-- Nothing is left after that. -/
theorem module_balanced_twice :
    ∃ s, loadedTwice.foldlM (Run.restrict (AesdModule.step fixedSizeLlseek) AesdModule.keepsBlocks)
        .init = some s ∧ s.pc = .absent ∧ s.regions = [] ∧ s.buffers.next = 3 ∧
      (∀ p, s.buffers.block p = none) ∧ s.past.length = 1 ∧
      ∀ m ∈ s.past, ∀ p, m.block p = none := by
  have hrun : (loadedTwice.foldlM
      (Run.restrict (AesdModule.step fixedSizeLlseek) AesdModule.keepsBlocks) .init).map
      (fun s ↦ (s.pc, s.buffers.next, s.past.length)) = some (.absent, 3, 1) := by decide +kernel
  obtain ⟨s, hs, hfacts⟩ := Option.map_eq_some_iff.mp hrun
  obtain ⟨hpc, hfacts⟩ := Prod.mk.inj hfacts
  obtain ⟨hnext, hpast⟩ := Prod.mk.inj hfacts
  obtain ⟨-, -, -, habsent, hleft⟩ := module_balanced fixedSizeLlseek loadedTwice s
    (Run.foldlM_restrict_eq_some.mp hs).1
  obtain ⟨hregions, -, -, hdead⟩ := habsent hpc
  exact ⟨s, hs, hpc, hregions, hnext, fun p ↦ (hdead p).1, hpast, hleft hs⟩

end Aesd
