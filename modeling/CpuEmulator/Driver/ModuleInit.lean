import CpuEmulator.Uapi
import CpuEmulator.Library.Events
import CpuEmulator.Library.Ledger
import Mathlib.Data.List.FinRange

set_option autoImplicit false

namespace CpuEmulator.Driver

open Library Library.Ledger

def enodev : Int := 19
def ebusy : Int := 16

-- What the module registers with the kernel. An interrupt handler is known by
-- the line it is for.
inductive Resource where
  | handler (irq : Int)
  | devNum (dev : Nat)
  | cdev
  | cpuClass
  | device (dev : Nat)
deriving DecidableEq

inductive Pointer where
  | null | errPtr | valid
deriving DecidableEq

structure GpioEnv where
  ledDesc : Fin 4 → Bool
  outputDesc : Bool
  runDesc : Bool
  pauseDesc : Bool
  inputDesc : Bool
  ledDirection : Fin 4 → Int
  outputDirection : Int
  runDirection : Int
  pauseDirection : Int
  inputDirection : Int
  runIrq : Int
  runRequest : Int
  pauseIrq : Int
  pauseRequest : Int
  stepIrq : Int
  stepRequest : Int

structure ChrdevEnv where
  allocRegion : Int
  devNum : Nat
  cdevAdd : Int
  classCreate : Pointer
  deviceCreate : Pointer

structure InitEnv where
  gpio : GpioEnv
  chrdev : ChrdevEnv

-- The calls of gpio_to_desc and gpiod_direction_* in their order.
def GpioEnv.descriptors (env : GpioEnv) : List Bool :=
  (List.finRange 4).map env.ledDesc ++ [env.outputDesc, env.runDesc, env.pauseDesc, env.inputDesc]

def GpioEnv.directions (env : GpioEnv) : List Int :=
  (List.finRange 4).map env.ledDirection ++
    [env.outputDirection, env.runDirection, env.pauseDirection, env.inputDirection]

inductive Ended where
  | returned (status : Int)
  | fault
deriving DecidableEq

structure Ran where
  log : List (Entry Resource)
  ended : Ended

def gpioInit (env : GpioEnv) : Ran :=
  let run := Resource.handler env.runIrq
  let pause := Resource.handler env.pauseIrq
  let step := Resource.handler env.stepIrq
  if false ∈ env.descriptors then ⟨[], .returned (-enodev)⟩
  else
    match env.directions.find? (fun status => status != 0) with
    | some status => ⟨[], .returned status⟩
    | none =>
        if env.runIrq < 0 then ⟨[], .returned env.runIrq⟩
        else if env.runRequest ≠ 0 then ⟨[], .returned env.runRequest⟩
        else if env.pauseIrq < 0 then ⟨taken [run] ++ given [run], .returned env.pauseIrq⟩
        else if env.pauseRequest ≠ 0 then ⟨taken [run] ++ given [run], .returned env.pauseRequest⟩
        else if env.stepIrq < 0 then ⟨taken [run, pause] ++ given [run, pause], .returned env.stepIrq⟩
        else if env.stepRequest ≠ 0 then ⟨taken [run, pause] ++ given [run, pause], .returned env.stepRequest⟩
        else ⟨taken [run, pause, step], .returned 0⟩

-- The labels of chrdev_init, each falling through to the next.
def freeDevNum (dev : Nat) : List Resource := [.devNum dev]
def deleteCdev (dev : Nat) : List Resource := .cdev :: freeDevNum dev

-- class_unregister and class_destroy each release the class.
def deleteClass (dev : Nat) : List Resource := .cpuClass :: .cpuClass :: deleteCdev dev

def chrdevInit (env : ChrdevEnv) : Ran :=
  let region := Resource.devNum env.devNum
  if env.allocRegion ≠ 0 then ⟨[], .returned env.allocRegion⟩
  else if env.cdevAdd ≠ 0 then ⟨taken [region] ++ given (freeDevNum env.devNum), .returned env.cdevAdd⟩
  else
    match env.classCreate with
    | .null => ⟨taken [region, .cdev] ++ given (deleteCdev env.devNum), .returned (-enomem)⟩
    -- The test for NULL lets an error pointer through to cpu_class->devnode.
    | .errPtr => ⟨taken [region, .cdev], .fault⟩
    | .valid =>
        match env.deviceCreate with
        | .null => ⟨taken [region, .cdev, .cpuClass] ++ given (deleteClass env.devNum), .returned (-enomem)⟩
        | .errPtr => ⟨taken [region, .cdev, .cpuClass], .returned 0⟩
        | .valid => ⟨taken [region, .cdev, .cpuClass, .device env.devNum], .returned 0⟩

def cpuInit (env : InitEnv) : Ran :=
  let gpio := gpioInit env.gpio
  if gpio.ended ≠ .returned 0 then gpio
  else
    let chrdev := chrdevInit env.chrdev
    ⟨gpio.log ++ chrdev.log, chrdev.ended⟩

-- cpu_exit reads the variables that cpu_init has set under env.
def cpuExit (env : InitEnv) : List (Entry Resource) :=
  given ([.handler env.gpio.runIrq, .handler env.gpio.pauseIrq, .handler env.gpio.stepIrq,
    .device env.chrdev.devNum] ++ deleteClass env.chrdev.devNum)

inductive Module where
  | unloaded
  | loaded (env : InitEnv)
  | stuck

structure Kernel where
  module : Module
  held : Resource → Nat

def bareKernel : Kernel := ⟨.unloaded, fun _ => 0⟩

inductive Attempt where
  | load (env : InitEnv)
  | unload

-- The kernel refuses to load a module twice and to unload one that is not there;
-- one whose init function has faulted stays as it is.
def attempt (kernel : Kernel) : Attempt → Kernel
  | .load env =>
      match kernel.module with
      | .unloaded =>
          let ran := cpuInit env
          let module : Module :=
            match ran.ended with
            | .returned status => if status = 0 then .loaded env else .unloaded
            | .fault => .stuck
          ⟨module, replay kernel.held ran.log⟩
      | .loaded _ | .stuck => kernel
  | .unload =>
      match kernel.module with
      | .loaded env => ⟨.unloaded, replay kernel.held (cpuExit env)⟩
      | .unloaded | .stuck => kernel

def attemptStep (kernel : Kernel) (event : Attempt) : Option Kernel := some (attempt kernel event)

-- A load that does not succeed leaves nothing registered, and an unload releases
-- what the load has registered as often as it has.
def AllOrNothing (kernel : Kernel) : Attempt → Prop
  | .load env => kernel.module = .unloaded → (cpuInit env).ended ≠ .returned 0 →
      ∀ resource, (attempt kernel (.load env)).held resource = 0
  | .unload => ∀ env, kernel.module = .loaded env → ∀ resource, .acquired resource ∈ (cpuInit env).log →
      (cpuExit env).count (.released resource) = (cpuInit env).log.count (.acquired resource)

structure GpioSucceeds (env : GpioEnv) : Prop where
  descriptors : false ∉ env.descriptors
  directions : ∀ status ∈ env.directions, status = 0
  irqs : 0 ≤ env.runIrq ∧ 0 ≤ env.pauseIrq ∧ 0 ≤ env.stepIrq
  requests : env.runRequest = 0 ∧ env.pauseRequest = 0 ∧ env.stepRequest = 0

-- An error pointer for the device goes unnoticed.
structure ChrdevSucceeds (env : ChrdevEnv) : Prop where
  region : env.allocRegion = 0
  cdev : env.cdevAdd = 0
  cpuClass : env.classCreate = .valid
  device : env.deviceCreate ≠ .null

def Clean (kernel : Kernel) : Attempt → Prop
  | .load env => kernel.module = .unloaded → GpioSucceeds env.gpio → ChrdevSucceeds env.chrdev
  | .unload => ∀ env, kernel.module ≠ .loaded env

section Init

inductive GpioRan (env : GpioEnv) : Ran → Prop where
  | failed (resources : List Resource) (status : Int) (not : ¬ GpioSucceeds env) (error : status ≠ 0) :
      GpioRan env ⟨taken resources ++ given resources, .returned status⟩
  | succeeded (holds : GpioSucceeds env) :
      GpioRan env ⟨taken [.handler env.runIrq, .handler env.pauseIrq, .handler env.stepIrq], .returned 0⟩

theorem gpio_init_ran (env : GpioEnv) : GpioRan env (gpioInit env) := by
  simp only [gpioInit]
  by_cases missing : false ∈ env.descriptors
  · rw [if_pos missing]
    exact .failed [] _ (fun holds => holds.descriptors missing) (by decide)
  rw [if_neg missing]
  cases found : env.directions.find? (fun status => status != 0) with
  | some status =>
      have checked := List.find?_some found
      have error : status ≠ 0 := bne_iff_ne.mp checked
      exact .failed [] _ (fun holds => error (holds.directions status (List.mem_of_find?_eq_some found))) error
  | none =>
      have directed : ∀ status ∈ env.directions, status = 0 := by simpa using found
      dsimp only
      by_cases runIrq : env.runIrq < 0
      · rw [if_pos runIrq]
        exact .failed [] _ (fun holds => absurd holds.irqs.1 (Int.not_le.mpr runIrq)) (Int.ne_of_lt runIrq)
      rw [if_neg runIrq]
      by_cases runRequest : env.runRequest ≠ 0
      · rw [if_pos runRequest]
        exact .failed [] _ (fun holds => runRequest holds.requests.1) runRequest
      rw [if_neg runRequest]
      by_cases pauseIrq : env.pauseIrq < 0
      · rw [if_pos pauseIrq]
        exact .failed _ _ (fun holds => absurd holds.irqs.2.1 (Int.not_le.mpr pauseIrq)) (Int.ne_of_lt pauseIrq)
      rw [if_neg pauseIrq]
      by_cases pauseRequest : env.pauseRequest ≠ 0
      · rw [if_pos pauseRequest]
        exact .failed _ _ (fun holds => pauseRequest holds.requests.2.1) pauseRequest
      rw [if_neg pauseRequest]
      by_cases stepIrq : env.stepIrq < 0
      · rw [if_pos stepIrq]
        exact .failed _ _ (fun holds => absurd holds.irqs.2.2 (Int.not_le.mpr stepIrq)) (Int.ne_of_lt stepIrq)
      rw [if_neg stepIrq]
      by_cases stepRequest : env.stepRequest ≠ 0
      · rw [if_pos stepRequest]
        exact .failed _ _ (fun holds => stepRequest holds.requests.2.2) stepRequest
      rw [if_neg stepRequest]
      exact .succeeded ⟨missing, directed,
        ⟨Int.not_lt.mp runIrq, Int.not_lt.mp pauseIrq, Int.not_lt.mp stepIrq⟩,
        ⟨not_not.mp runRequest, not_not.mp pauseRequest, not_not.mp stepRequest⟩⟩

theorem chrdev_init_succeeds_iff (env : ChrdevEnv) : (chrdevInit env).ended = .returned 0 ↔ ChrdevSucceeds env := by
  simp only [chrdevInit]
  by_cases region : env.allocRegion = 0
  · rw [if_neg (not_not.mpr region)]
    by_cases cdev : env.cdevAdd = 0
    · rw [if_neg (not_not.mpr cdev)]
      cases cls : env.classCreate with
      | null =>
          refine iff_of_false (fun same => by cases same) (fun holds => ?_)
          rw [holds.cpuClass] at cls
          cases cls
      | errPtr =>
          refine iff_of_false (fun same => by cases same) (fun holds => ?_)
          rw [holds.cpuClass] at cls
          cases cls
      | valid =>
          cases device : env.deviceCreate with
          | null => exact iff_of_false (fun same => by cases same) (fun holds => holds.device device)
          | errPtr | valid =>
              refine iff_of_true rfl ⟨region, cdev, cls, fun null => ?_⟩
              rw [device] at null
              cases null
    · rw [if_pos cdev]
      exact iff_of_false (fun same => cdev (Ended.returned.inj same)) (fun holds => cdev holds.cdev)
  · rw [if_pos region]
    exact iff_of_false (fun same => region (Ended.returned.inj same)) (fun holds => region holds.region)

theorem chrdev_init_keeps_handlers (env : ChrdevEnv) (irq : Int) : .released (.handler irq) ∉ (chrdevInit env).log := by
  simp only [chrdevInit]
  split
  · simp
  · split
    · simp [taken, given, freeDevNum]
    · cases env.classCreate with
      | null | errPtr => simp [taken, given, deleteCdev, freeDevNum]
      | valid =>
          cases env.deviceCreate with
          | null | errPtr | valid => simp [taken, given, deleteClass, deleteCdev, freeDevNum]

theorem chrdev_init_takes_class (env : ChrdevEnv) (holds : ChrdevSucceeds env) :
    (chrdevInit env).log.count (.acquired .cpuClass) = 1 := by
  simp only [chrdevInit, holds.region, holds.cdev, holds.cpuClass, ne_eq, not_true, if_false]
  cases device : env.deviceCreate with
  | null => exact absurd device holds.device
  | errPtr => simp [taken]
  | valid => simp [taken]

variable (env : InitEnv)

theorem cpu_init_gpio_failed (failed : ¬ GpioSucceeds env.gpio) : (cpuInit env).ended ≠ .returned 0 ∧
    ∀ held, replay held (cpuInit env).log = held := by
  have ran := gpio_init_ran env.gpio
  simp only [cpuInit]
  generalize gpioInit env.gpio = gpio at ran ⊢
  cases ran with
  | failed resources status _ error =>
      have stopped : Ended.returned status ≠ .returned 0 := fun same => error (Ended.returned.inj same)
      rw [if_pos stopped]
      exact ⟨stopped, fun held => replay_settled held resources resources (List.Perm.refl _)⟩
  | succeeded holds => exact absurd holds failed

theorem cpu_init_gpio_succeeded (holds : GpioSucceeds env.gpio) : cpuInit env =
    ⟨taken [.handler env.gpio.runIrq, .handler env.gpio.pauseIrq, .handler env.gpio.stepIrq] ++ (chrdevInit env.chrdev).log,
      (chrdevInit env.chrdev).ended⟩ := by
  have ran := gpio_init_ran env.gpio
  simp only [cpuInit]
  generalize gpioInit env.gpio = gpio at ran ⊢
  cases ran with
  | failed _ _ failed _ => exact absurd holds failed
  | succeeded _ => rw [if_neg (not_not.mpr rfl)]

theorem cpu_init_succeeds_iff : (cpuInit env).ended = .returned 0 ↔ GpioSucceeds env.gpio ∧ ChrdevSucceeds env.chrdev := by
  by_cases gpio : GpioSucceeds env.gpio
  · rw [cpu_init_gpio_succeeded env gpio, chrdev_init_succeeds_iff]
    exact (and_iff_right gpio).symm
  · exact iff_of_false (cpu_init_gpio_failed env gpio).1 (fun both => gpio both.1)

theorem cpu_init_leaves_handler (holds : GpioSucceeds env.gpio) (held : Resource → Nat) :
    0 < replay held (cpuInit env).log (.handler env.gpio.runIrq) := by
  rw [cpu_init_gpio_succeeded env holds, replay_append]
  refine Nat.lt_of_lt_of_le ?_ (replay_unreleased _ _ _ (chrdev_init_keeps_handlers env.chrdev _))
  rw [replay_taken, List.count_cons_self]
  omega

theorem exit_releases_class_twice : (cpuExit env).count (.released .cpuClass) = 2 := by
  simp [cpuExit, given, deleteClass, deleteCdev, freeDevNum]

theorem init_takes_class_once (succeeded : (cpuInit env).ended = .returned 0) :
    (cpuInit env).log.count (.acquired .cpuClass) = 1 := by
  obtain ⟨gpio, chrdev⟩ := (cpu_init_succeeds_iff env).mp succeeded
  rw [cpu_init_gpio_succeeded env gpio, List.count_append, chrdev_init_takes_class env.chrdev chrdev]
  simp [taken]

theorem exit_releases_others (resource : Resource) (succeeded : (cpuInit env).ended = .returned 0)
    (other : resource ≠ .cpuClass) (registered : .acquired resource ∈ (cpuInit env).log) :
    (cpuExit env).count (.released resource) = (cpuInit env).log.count (.acquired resource) := by
  obtain ⟨gpio, chrdev⟩ := (cpu_init_succeeds_iff env).mp succeeded
  rw [cpu_init_gpio_succeeded env gpio] at registered ⊢
  simp only [chrdevInit, chrdev.region, chrdev.cdev, chrdev.cpuClass, ne_eq, not_true, if_false] at registered ⊢
  cases device : env.chrdev.deviceCreate with
  | null => exact absurd device chrdev.device
  | errPtr =>
      rw [device] at registered
      cases resource with
      | cpuClass => exact absurd rfl other
      | device dev => simp [taken] at registered
      | handler | devNum | cdev => simp [taken, given, cpuExit, deleteClass, deleteCdev, freeDevNum, List.count_cons]
  | valid =>
      cases resource with
      | cpuClass => exact absurd rfl other
      | handler | devNum | cdev | device =>
          simp [taken, given, cpuExit, deleteClass, deleteCdev, freeDevNum, List.count_cons]

end Init

section Attempts

structure Consistent (kernel : Kernel) : Prop where
  succeeded : ∀ env, kernel.module = .loaded env → (cpuInit env).ended = .returned 0
  nothing : kernel.module = .unloaded → ∀ resource, kernel.held resource = 0

theorem attempt_sound_iff (kernel : Kernel) (event : Attempt) (consistent : Consistent kernel) :
    AllOrNothing kernel event ↔ Clean kernel event := by
  cases event with
  | load env =>
      constructor
      · intro sound absent gpio
        by_contra broken
        have failed : (cpuInit env).ended ≠ .returned 0 := fun succeeded =>
          broken ((cpu_init_succeeds_iff env).mp succeeded).2
        have left := sound absent failed (.handler env.gpio.runIrq)
        rw [attempt, absent] at left
        exact absurd left (Nat.ne_of_gt (cpu_init_leaves_handler env gpio kernel.held))
      · intro clean absent failed resource
        have gpio : ¬ GpioSucceeds env.gpio := fun gpio => failed ((cpu_init_succeeds_iff env).mpr ⟨gpio, clean absent gpio⟩)
        rw [attempt, absent]
        dsimp only
        rw [(cpu_init_gpio_failed env gpio).2 kernel.held]
        exact consistent.nothing absent resource
  | unload =>
      constructor
      · intro sound env there
        have once := init_takes_class_once env (consistent.succeeded env there)
        have taken : Entry.acquired Resource.cpuClass ∈ (cpuInit env).log :=
          List.count_pos_iff.mp (by rw [once]; exact Nat.one_pos)
        have same := sound env there .cpuClass taken
        rw [once, exit_releases_class_twice] at same
        exact absurd same (by decide)
      · intro clean env there
        exact absurd there (clean env)

theorem attempt_consistent (kernel : Kernel) (event : Attempt) (consistent : Consistent kernel) (clean : Clean kernel event) :
    Consistent (attempt kernel event) := by
  cases event with
  | load env =>
      rw [attempt]
      cases absent : kernel.module with
      | loaded _ | stuck => exact consistent
      | unloaded =>
          dsimp only
          by_cases succeeded : (cpuInit env).ended = .returned 0
          · rw [succeeded]
            exact ⟨fun other same => Module.loaded.inj same ▸ succeeded, fun same => by cases same⟩
          · have gpio : ¬ GpioSucceeds env.gpio := fun gpio =>
              succeeded ((cpu_init_succeeds_iff env).mpr ⟨gpio, clean absent gpio⟩)
            rw [(cpu_init_gpio_failed env gpio).2 kernel.held]
            cases ended : (cpuInit env).ended with
            | fault => exact ⟨fun other same => (by cases same), fun same => (by cases same)⟩
            | returned status =>
                have error : status ≠ 0 := fun same => succeeded (ended.trans (congrArg Ended.returned same))
                dsimp only
                rw [if_neg error]
                exact ⟨fun other same => (by cases same), fun _ => consistent.nothing absent⟩
  | unload =>
      rw [attempt]
      cases there : kernel.module with
      | loaded env => exact absurd there (clean env)
      | unloaded | stuck => exact consistent

theorem init_all_or_nothing_iff (events : List Attempt) :
    Events.Along attemptStep AllOrNothing bareKernel events ↔ Events.Along attemptStep Clean bareKernel events := by
  refine Events.along_congr attemptStep AllOrNothing Clean Consistent attempt_sound_iff ?_ bareKernel events ?_
  · intro kernel event next consistent clean stepped
    rw [← Option.some.inj stepped]
    exact attempt_consistent kernel event consistent clean
  · exact ⟨fun env there => (by cases there), fun _ _ => rfl⟩

end Attempts

def foundGpio : GpioEnv where
  ledDesc := fun _ => true
  outputDesc := true
  runDesc := true
  pauseDesc := true
  inputDesc := true
  ledDirection := fun _ => 0
  outputDirection := 0
  runDirection := 0
  pauseDirection := 0
  inputDirection := 0
  runIrq := 1
  runRequest := 0
  pauseIrq := 2
  pauseRequest := 0
  stepIrq := 3
  stepRequest := 0

def busyInit : InitEnv := ⟨foundGpio, ⟨-ebusy, 0, 0, .valid, .valid⟩⟩
def wholeInit : InitEnv := ⟨foundGpio, ⟨0, 240, 0, .valid, .valid⟩⟩

-- The failed load leaves its three handlers, the unload releases the class twice.
theorem failed_load_leaves_handlers :
    ¬ (∀ events, Events.Along attemptStep AllOrNothing bareKernel events) ∧
      ((cpuInit busyInit).ended = .returned (-ebusy) ∧
        [1, 2, 3].map (fun irq => (attempt bareKernel (.load busyInit)).held (.handler irq)) = [1, 1, 1]) ∧
      (cpuInit wholeInit).ended = .returned 0 ∧ (cpuExit wholeInit).count (.released .cpuClass) = 2 := by
  refine ⟨fun claimed => ?_, ⟨by decide, by decide⟩, by decide, by decide⟩
  have sound := (claimed [.load busyInit]).1
  have left := sound rfl (by decide) (.handler 1)
  exact absurd left (by decide)

end CpuEmulator.Driver
