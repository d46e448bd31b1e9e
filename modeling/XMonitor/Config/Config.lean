import XMonitor.Lib.EventRun
import XMonitor.Lib.RWMutex

/-!
# The configuration of the exporter

The goroutines of the exporter ask for the settings of the programs with `Enabled`,
`ProgramConfigByName` and `ProgramCommFilter`, while `OnConfigChange` replaces them when the
file changes. The settings are guarded by a readers-writer lock. `ProgramCommFilter` calls
`ProgramConfigByName` and so takes the read lock twice.

A goroutine is the list of its calls and the point it has reached in the first of them. A
body between two operations on the lock runs in one step with the second of them: while the
goroutine has its lock, nothing changes what the body reads.
-/

namespace XMonitor.Config

/-- `ProgConfigArgs`, with the fields that the filter reads. -/
structure ProgConfigArgs where
  includeComms : List String := []
  excludeComms : List String := []
deriving DecidableEq, Repr

structure ProgramConfig where
  name : String
  args : ProgConfigArgs := {}
  enabled : Bool := false
deriving DecidableEq, Repr

/-! ## The bodies of the functions -/

def programConfigByName (programConfigs : List ProgramConfig) (name : String) :
    Option ProgramConfig :=
  programConfigs.find? fun progCfg => progCfg.name = name

/-- A program without settings is not enabled. -/
def enabled (programConfigs : List ProgramConfig) (name : String) : Bool :=
  ((programConfigByName programConfigs name).map ProgramConfig.enabled).getD false

/-- What `ProgramCommFilter` returns for the settings that it has found. A list of commands
to include hides the one of commands to exclude. -/
def commFilter (progCfg : Option ProgramConfig) (comm : String) : Bool :=
  match progCfg with
  | none => true
  | some progCfg =>
      if 0 < progCfg.args.includeComms.length then progCfg.args.includeComms.contains comm
      else if 0 < progCfg.args.excludeComms.length then
        !progCfg.args.excludeComms.contains comm
      else true

/-- A change of the file, with the settings that `UnmarshalKey` finds in it. -/
inductive Call
  | enabled (name : String)
  | programConfigByName (name : String)
  | programCommFilter (progName comm : String)
  | onConfigChange (tmpCfgs : Option (List ProgramConfig))
deriving DecidableEq, Repr

inductive Result
  | bool (b : Bool)
  | config (progCfg : Option ProgramConfig)
deriving DecidableEq, Repr

/-! ## Goroutines -/

/-- Where a goroutine is. -/
inductive Point
  /-- Before the next call. -/
  | entry
  | enabled (name : String)
  | programConfigByName (name : String)
  /-- `ProgramCommFilter`, before it calls `ProgramConfigByName`. -/
  | programCommFilter (progName comm : String)
  /-- In the `ProgramConfigByName` of `ProgramCommFilter`. -/
  | commFilterConfig (progName comm : String)
  /-- Back from there. -/
  | commFilterFound (progCfg : Option ProgramConfig) (comm : String)
  /-- `OnConfigChange`, in its call of `Lock`. -/
  | lockCalled (tmpCfgs : Option (List ProgramConfig))
  | locked (tmpCfgs : Option (List ProgramConfig))
deriving DecidableEq, Repr

/-- The locks that a goroutine has at a point. -/
def Point.use : Point → RWMutex.Use
  | .entry => {}
  | .enabled _ | .programConfigByName _ | .programCommFilter _ _ | .commFilterFound _ _ =>
      { reads := 1 }
  | .commFilterConfig _ _ => { reads := 2 }
  | .lockCalled _ => { waits := true }
  | .locked _ => { writes := true }

/-- The calls that are left, without the one that the goroutine is in, and the results of
those that have returned. -/
structure Goroutine where
  calls : List Call
  point : Point := .entry
  results : List Result := []
deriving DecidableEq, Repr

def Goroutine.Finished (g : Goroutine) : Prop := g.calls = [] ∧ g.point = .entry

instance (g : Goroutine) : Decidable g.Finished := inferInstanceAs (Decidable (_ ∧ _))

def Goroutine.goto (g : Goroutine) (point : Point) : Goroutine := { g with point }

def Goroutine.return (g : Goroutine) (result : Result) : Goroutine :=
  { g with point := .entry, results := g.results ++ [result] }

/-- The lock and the settings, which the goroutines share. -/
structure Shared where
  mu : RWMutex := {}
  programConfigs : List ProgramConfig := []
deriving DecidableEq, Repr

/-- The first step of a call. -/
def enter (s : Shared) (g : Goroutine) : Call → Option (Shared × Goroutine)
  | .enabled name => do
      let mu ← s.mu.rlock
      return ({ s with mu }, g.goto (.enabled name))
  | .programConfigByName name => do
      let mu ← s.mu.rlock
      return ({ s with mu }, g.goto (.programConfigByName name))
  | .programCommFilter progName comm => do
      let mu ← s.mu.rlock
      return ({ s with mu }, g.goto (.programCommFilter progName comm))
  | .onConfigChange tmpCfgs =>
      some ({ s with mu := s.mu.callLock }, g.goto (.lockCalled tmpCfgs))

/-- The next step of a goroutine, none if it blocks or has finished. -/
def step (s : Shared) (g : Goroutine) : Option (Shared × Goroutine) :=
  match g.point with
  | .entry =>
      match g.calls with
      | [] => none
      | call :: calls => enter s { g with calls } call
  | .enabled name =>
      some ({ s with mu := s.mu.runlock }, g.return (.bool (enabled s.programConfigs name)))
  | .programConfigByName name =>
      some ({ s with mu := s.mu.runlock },
        g.return (.config (programConfigByName s.programConfigs name)))
  | .programCommFilter progName comm => do
      let mu ← s.mu.rlock
      return ({ s with mu }, g.goto (.commFilterConfig progName comm))
  | .commFilterConfig progName comm =>
      some ({ s with mu := s.mu.runlock },
        g.goto (.commFilterFound (programConfigByName s.programConfigs progName) comm))
  | .commFilterFound progCfg comm =>
      some ({ s with mu := s.mu.runlock }, g.return (.bool (commFilter progCfg comm)))
  | .lockCalled tmpCfgs => do
      let mu ← s.mu.acquire
      return ({ s with mu }, g.goto (.locked tmpCfgs))
  | .locked tmpCfgs =>
      -- settings that cannot be read leave the old ones in place
      some ({ mu := s.mu.unlock, programConfigs := tmpCfgs.getD s.programConfigs },
        g.goto .entry)

/-! ## All goroutines together -/

variable {ι : Type*} [DecidableEq ι]

structure System (ι : Type*) where
  shared : Shared
  goroutines : ι → Goroutine

/-- The goroutines before their first call. -/
def System.start (programConfigs : List ProgramConfig) (calls : ι → List Call) : System ι where
  shared := { programConfigs }
  goroutines i := { calls := calls i }

def System.step (s : System ι) (i : ι) : Option (System ι) :=
  (Config.step s.shared (s.goroutines i)).map fun (shared, g) =>
    { shared, goroutines := Function.update s.goroutines i g }

/-- The scheduler picks a goroutine; one that blocks stays where it is. -/
def System.schedule (s : System ι) (i : ι) : System ι := (s.step i).getD s

/-- Some goroutine has not finished, and none can take a step. -/
def System.Deadlocked (s : System ι) : Prop :=
  (∃ i, ¬ (s.goroutines i).Finished) ∧ ∀ i, s.step i = none

instance [Fintype ι] (s : System ι) : Decidable s.Deadlocked :=
  inferInstanceAs (Decidable ((∃ i, ¬ (s.goroutines i).Finished) ∧ ∀ i, s.step i = none))

end XMonitor.Config
