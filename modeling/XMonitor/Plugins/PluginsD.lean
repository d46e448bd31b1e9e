import XMonitor.Lib.SinglyLinked
import XMonitor.Utils.Strings

/-!
# The external plugins

The routine of `plugins_d.c` scans the directory of the plugins again and again. For a file that
is enabled and not yet running it allocates an entry, creates a worker thread, puts the entry in
front of the list at `external_plugins_root` and sets `is_working`. The worker runs the plugin
until it is disabled or does not start, and resets `is_working` when it ends. The entry of a
worker that has ended stays in the list until the next scan of the same file takes it out.

The threads share the memory of the entries. A step of a thread returns nothing if it would
follow a pointer to no entry.
-/

namespace XMonitor.PluginsD

open SinglyLinked (Memory Cell find setNext setData)

/-! ## Entries -/

/-- `struct external_plugin`. The command line and the times are left out, and the pointer to
the next entry is that of the cell. -/
structure ExternalPlugin where
  configName : CString
  fileName : CString
  exitFlag : Bool
  enabled : Bool
  isWorking : Bool
  threadId : Nat
  childPid : Nat
deriving DecidableEq

def pluginsdFileSuffix : CString := ['.', 'p', 'l', 'u', 'g', 'i', 'n']

def configNamePrefix : CString := ['p', 'l', 'u', 'g', 'i', 'n', 's', 'd', '.']

/-- `XM_CONFIG_NAME_MAX` -/
def configNameMax : Nat := 128

/-- `XM_FILENAME_SIZE` -/
def fileNameSize : Nat := 512

/-- The name of a directory entry: `struct dirent` has 256 bytes for it. -/
abbrev DName := { name : CString // name.length < 256 }

/-- `strlcpy` and `snprintf` leave a byte for the terminating zero. -/
def strlcpy (size : Nat) (src : CString) : CString := src.take (size - 1)

/-- What the scan reads about an entry of the directory: its name, the member `enable` of its
configuration, whether `access` and `pthread_create` succeed, and the memory that `calloc`
returns. -/
structure DirEntry where
  dName : DName
  enabled : Bool
  accessible : Bool
  created : Bool
  fresh : Nat

/-- The names that the scan does not skip. -/
def isPlugin (dName : CString) : Bool :=
  dName != ['.'] && dName != ['.', '.'] && decide (pluginsdFileSuffix.length < dName.length) &&
    dName.drop (dName.length - pluginsdFileSuffix.length) == pluginsdFileSuffix

def externalPluginCfgname (dName : CString) : CString :=
  strlcpy configNameMax
    (configNamePrefix ++ dName.take (dName.length - pluginsdFileSuffix.length))

/-- The entry when the thread is created. -/
def newExternalPlugin (entry : DirEntry) (threadId : Nat) : ExternalPlugin where
  configName := strlcpy configNameMax (externalPluginCfgname entry.dName)
  fileName := strlcpy fileNameSize entry.dName
  exitFlag := false
  enabled := entry.enabled
  isWorking := false
  threadId := threadId
  childPid := 0

/-! ## Workers -/

/-- Where a worker thread is: before `mypopen`, reading the output of the plugin, behind
`mypclose`, out of the loop, or past its cleanup. -/
inductive Phase
  | starting
  | reading
  | closed
  | leaving
  | ended
deriving DecidableEq

/-- A thread runs the worker for one entry. -/
structure Worker where
  ep : Nat
  phase : Phase
deriving DecidableEq

inductive WorkerEvent
  | popen (child : Option Nat)
  | childExit
  | readEnable (enable : Bool)
  | cleanup
deriving DecidableEq

/-- `__external_plugin_thread_cleanup` -/
def externalPluginThreadCleanup (ep : ExternalPlugin) : ExternalPlugin :=
  { ep with childPid := 0, isWorking := false }

/-- A step of `external_plugin_thread_worker`. -/
def externalPluginThreadWorker (phase : Phase) (ep : ExternalPlugin) :
    WorkerEvent → Phase × ExternalPlugin
  | .popen child =>
      if phase = .starting then
        if ep.exitFlag then (.leaving, ep)
        else
          match child with
          | none => (.leaving, ep)
          | some pid => (.reading, { ep with childPid := pid })
      else (phase, ep)
  | .childExit =>
      if phase = .reading then (.closed, { ep with childPid := 0 }) else (phase, ep)
  | .readEnable enable =>
      if phase = .closed then
        (if enable then .starting else .leaving, { ep with enabled := enable })
      else (phase, ep)
  | .cleanup =>
      if phase = .leaving then (.ended, externalPluginThreadCleanup ep) else (phase, ep)

/-! ## The state -/

/-- Where the scanner is: between the files, or at a file behind `pthread_create` or behind the
assignment to `external_plugins_root`. -/
inductive Scanner
  | idle
  | created (ep : Nat)
  | linked (ep : Nat)
deriving DecidableEq

/-- The threads are numbered in the order of their creation. -/
structure State where
  cells : Memory ExternalPlugin
  externalPluginsRoot : Option Nat
  workers : List Worker
  scanner : Scanner

def State.init : State where
  cells := fun _ => none
  externalPluginsRoot := none
  workers := []
  scanner := .idle

/-- A worker thread that has not ended takes a step. -/
def State.work (s : State) (t : Nat) (e : WorkerEvent) : Option State :=
  match s.workers[t]? with
  | none => some s
  | some w =>
      if w.phase = .ended then some s
      else
        (s.cells w.ep).bind fun c =>
          let (phase, ep) := externalPluginThreadWorker w.phase c.data e
          (setData s.cells w.ep ep).map fun cells =>
            { s with cells, workers := s.workers.set t { w with phase } }

/-! ## The scan -/

/-- What the scan knows about a file after it has looked for its entry. -/
inductive Lookup
  | running
  | notRunning (s : State)

/-- The entry of the file is searched for, and taken out if its worker has ended. -/
def State.lookup (s : State) (dName : CString) : Option Lookup :=
  (find s.cells (fun ep => ep.fileName == dName) s.workers.length s.externalPluginsRoot
      s.externalPluginsRoot).bind fun
    | (_, none) => some (.notRunning s)
    | (prevEp, some ep) =>
        (s.cells ep).bind fun c =>
          if c.data.isWorking then some .running
          else if prevEp ≠ some ep then
            prevEp.bind fun prev =>
              (setNext s.cells prev c.next).map fun cells =>
                .notRunning { s with cells := Function.update cells ep none }
          else
            some (.notRunning
              { s with
                cells := Function.update s.cells ep none
                externalPluginsRoot := none })

/-- The entry is allocated and its worker created; it is freed again if that fails. -/
def State.create (s : State) (entry : DirEntry) : State :=
  if entry.accessible && entry.created then
    { s with
      cells := Function.update s.cells entry.fresh
        (some { next := none, data := newExternalPlugin entry s.workers.length })
      workers := s.workers ++ [{ ep := entry.fresh, phase := .starting }]
      scanner := .created entry.fresh }
  else s

/-- The scanner reads the next entry of the directory. -/
def State.scan (s : State) (entry : DirEntry) : Option State :=
  if s.scanner = .idle ∧ isPlugin entry.dName ∧ entry.enabled then
    (s.lookup entry.dName).map fun
      | .running => s
      | .notRunning s => s.create entry
  else some s

/-- The scanner puts the entry in front of the list. -/
def State.link (s : State) : Option State :=
  match s.scanner with
  | .created ep =>
      match s.externalPluginsRoot with
      | none => some { s with externalPluginsRoot := some ep, scanner := .linked ep }
      | some root =>
          (setNext s.cells ep (some root)).map fun cells =>
            { s with cells, externalPluginsRoot := some ep, scanner := .linked ep }
  | _ => some s

/-- The scanner sets `is_working`. -/
def State.setWorking (s : State) : Option State :=
  match s.scanner with
  | .linked ep =>
      (s.cells ep).bind fun c =>
        (setData s.cells ep { c.data with isWorking := true }).map fun cells =>
          { s with cells, scanner := .idle }
  | _ => some s

/-! ## The end -/

/-- `pthread_cancel` and `pthread_join`: the thread runs its cleanup if it has not ended. -/
def State.cancelAndJoin (s : State) (t : Nat) : Option State :=
  s.workers[t]?.bind fun w =>
    if w.phase = .ended then some s
    else
      (s.cells w.ep).bind fun c =>
        (setData s.cells w.ep (externalPluginThreadCleanup c.data)).map fun cells =>
          { s with cells, workers := s.workers.set t { w with phase := .ended } }

/-- The loop of `pluginsd_routine_stop`. -/
def State.stopLoop : Nat → Option Nat → State → Option State
  | _, none, s => some s
  | 0, some _, _ => none
  | n + 1, some p, s =>
      (s.cells p).bind fun c =>
        (setData s.cells p { c.data with exitFlag := true }).bind fun cells =>
          (State.cancelAndJoin { s with cells } c.data.threadId).bind fun s =>
            (s.cells p).bind fun c =>
              State.stopLoop n c.next { s with cells := Function.update s.cells p none }

/-- `pluginsd_routine_stop`, after the scanner has returned. -/
def pluginsdRoutineStop (s : State) : Option State :=
  s.stopLoop s.workers.length s.externalPluginsRoot

/-! ## Runs -/

inductive Event
  | scan (entry : DirEntry)
  | link
  | setWorking
  | worker (t : Nat) (e : WorkerEvent)

/-- What an event does. -/
def State.next (s : State) : Event → Option State
  | .scan entry => s.scan entry
  | .link => s.link
  | .setWorking => s.setWorking
  | .worker t e => s.work t e

/-- A run ends where a pointer to no entry is followed. -/
def step (s : Option State) (e : Event) : Option State := s.bind fun s => s.next e

/-- Nothing is allocated at an address when the scan allocates the entry. -/
def Lookup.Unused (a : Nat) : Lookup → Prop
  | .running => True
  | .notRunning s => s.cells a = none

/-- `calloc` returns memory that is not in use. The entry that the scan has freed is not. -/
def State.Allows (s : State) : Event → Prop
  | .scan entry => ∀ found ∈ s.lookup entry.dName, found.Unused entry.fresh
  | _ => True

/-- The system keeps to this in every step of a run. -/
def Allowed (s : Option State) (e : Event) : Prop := ∀ t ∈ s, t.Allows e

instance (a : Nat) (found : Lookup) : Decidable (found.Unused a) :=
  match found with
  | .running => .isTrue trivial
  | .notRunning s => inferInstanceAs (Decidable (s.cells a = none))

instance (s : State) (e : Event) : Decidable (s.Allows e) :=
  match e with
  | .scan entry => inferInstanceAs (Decidable (∀ found ∈ s.lookup entry.dName, _))
  | .link => .isTrue trivial
  | .setWorking => .isTrue trivial
  | .worker _ _ => .isTrue trivial

instance (s : Option State) (e : Event) : Decidable (Allowed s e) :=
  inferInstanceAs (Decidable (∀ t ∈ s, t.Allows e))

theorem strlcpy_eq {size : Nat} {src : CString} (h : src.length < size) :
    strlcpy size src = src :=
  List.take_of_length_le (Nat.le_sub_one_of_lt h)

theorem fileName_newExternalPlugin (entry : DirEntry) (threadId : Nat) :
    (newExternalPlugin entry threadId).fileName = entry.dName :=
  strlcpy_eq (Nat.lt_of_lt_of_le entry.dName.property (by decide))

/-- A file that is enabled, with an entry at an address. -/
def enabledFile (name : Char) (fresh : Nat) : DirEntry where
  dName := ⟨name :: pluginsdFileSuffix, (by decide : 8 < 256)⟩
  enabled := true
  accessible := true
  created := true
  fresh := fresh

end XMonitor.PluginsD
