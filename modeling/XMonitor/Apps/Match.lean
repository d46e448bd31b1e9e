import Mathlib.Data.List.Infix
import Mathlib.Logic.Relation
import XMonitor.Apps.AppStatus
import XMonitor.Lib.EventRun

/-!
# Associating processes with apps

`update_app_collection` goes through the processes of `/proc` and matches the command
line of each against the rules that have not matched yet. The process that matches a
rule becomes the main process of the app of that rule. If the rule binds the process
tree, all descendants of the process are associated with the app too, even if they
belong to another one.

A snapshot of `/proc` comes with a rank that descends from a process to its children,
so that walking the tree ends.
-/

namespace XMonitor.Apps

inductive AppBindProcessType
  | processTree | process
deriving DecidableEq

/-- `struct app_process_filter_rule`. -/
structure AppProcessFilterRule where
  enable : Bool
  appTypeName : String
  appName : String
  assignType : AppBindProcessType
  keys : List CString
  isMatched : Bool

/-- `XM_CHILDPID_COUNT_MAX`. -/
def childpidCountMax : Nat := 256

/-- `XM_PROC_CHILDREN_LINE_SIZE`. -/
def procChildrenLineSize : Nat := 4096

/-- `strtoull(tok, NULL, 10)` of a token that starts with a digit. -/
def strtoull (tok : CString) : Nat :=
  min (2 ^ 64 - 1)
    ((tok.takeWhile Char.isDigit).foldl (fun n c => n * 10 + (c.toNat - '0'.toNat)) 0)

/-- `strsplit_to_nums` with a blank as delimiter. -/
def strsplitToNums (str : CString) (numsMaxSize : Nat) : List Nat :=
  (((str.splitOn ' ').filter (· ≠ [])).take numsMaxSize).map strtoull

/-- The pids that `__get_all_childpids` takes from the file with the children. -/
def childPids (file : Option CString) : List Pid :=
  strsplitToNums ((file.getD []).take (procChildrenLineSize - 1)) childpidCountMax

/-- What an update reads: the processes in the order of the directory, the outcome of
`read_proc_pid_cmdline` for each, and the files with their children. -/
structure ProcFs where
  pids : List Pid
  cmdline : Pid → Option CString
  childrenFile : Pid → Option CString
  rank : Pid → Nat
  rank_lt : ∀ pid, ∀ child ∈ childPids (childrenFile pid), rank child < rank pid

def ProcFs.children (fs : ProcFs) (pid : Pid) : List Pid := childPids (fs.childrenFile pid)

/-- `__get_all_childpids`: the children first, then the descendants of each. The fuel
is the rank of a process above the given one. -/
def ProcFs.getAllChildpids (fs : ProcFs) : Nat → Pid → List Pid
  | 0, _ => []
  | fuel + 1, ppid => fs.children ppid ++ (fs.children ppid).flatMap (fs.getAllChildpids fuel)

/-- `get_process_descendant_pids`. -/
def ProcFs.descendantPids (fs : ProcFs) (pid : Pid) : List Pid :=
  fs.getAllChildpids (fs.rank pid + 1) pid

/-- A process is listed as a child of the other one. -/
def ProcFs.ChildOf (fs : ProcFs) (ppid pid : Pid) : Prop := pid ∈ fs.children ppid

theorem ProcFs.mem_getAllChildpids (fs : ProcFs) {fuel : Nat} {ppid pid : Pid}
    (hfuel : fs.rank ppid < fuel) :
    pid ∈ fs.getAllChildpids fuel ppid ↔ Relation.TransGen fs.ChildOf ppid pid := by
  induction fuel generalizing ppid with
  | zero => omega
  | succ fuel ih =>
      have hchild {child : Pid} (h : fs.ChildOf ppid child) : fs.rank child < fuel := by
        have hlt := fs.rank_lt ppid child h
        omega
      rw [getAllChildpids, List.mem_append, List.mem_flatMap, Relation.TransGen.head'_iff]
      constructor
      · rintro (h | ⟨child, h, hrest⟩)
        · exact ⟨pid, h, .refl⟩
        · exact ⟨child, h, ((ih (hchild h)).mp hrest).to_reflTransGen⟩
      · rintro ⟨child, h, hrest⟩
        obtain rfl | hrest := Relation.reflTransGen_iff_eq_or_transGen.mp hrest
        · exact .inl h
        · exact .inr ⟨child, h, (ih (hchild h)).mpr hrest⟩

/-- The walk finds the descendants at every depth. -/
theorem ProcFs.mem_descendantPids (fs : ProcFs) {ppid pid : Pid} :
    pid ∈ fs.descendantPids ppid ↔ Relation.TransGen fs.ChildOf ppid pid :=
  fs.mem_getAllChildpids (Nat.lt_succ_self _)

/-! ## Getting a status and an association -/

/-- `__get_app_status`: the status and whether it had to be created, or nothing if the
name is taken by another process or the registry refuses the collector. -/
def getAppStatus (s : AppsState) (registers : Bool) (pid : Pid) (appName appTypeName : String) :
    Option (AppStatus × AppsState) :=
  match s.apps.find? fun as => as.appName = appName with
  | some as => if as.appPid = pid then some (as, s) else none
  | none =>
      if registers then
        let as := { id := s.nextId, appName, appTypeName, appPid := pid }
        some (as, { s with apps := s.apps ++ [as], nextId := s.nextId + 1 })
      else none

/-- A new association. -/
def addAppAssocProcess (s : AppsState) (as : AppStatus) (pid : Pid) : AppsState :=
  { s with
    apps := modifyApp s.apps as.id fun as => { as with processCount := as.processCount + 1 }
    table := s.table.insert pid { asTarget := as.id, update := false } }

/-- `__get_app_assoc_process`. An association with another app is deleted first. -/
def getAppAssocProcess (s : AppsState) (as : AppStatus) (pid appPid : Pid) (appName : String) :
    AppsState :=
  match s.table.lookup pid with
  | none => addAppAssocProcess s as pid
  | some aap =>
      let same := s.apps.any fun as =>
        as.id = aap.asTarget ∧ as.appPid = appPid ∧ as.appName = appName
      if same then s else addAppAssocProcess (delAppAssocProcess s pid aap) as pid

/-! ## Matching -/

/-- All keys of a rule occur in the command line. -/
def AppProcessFilterRule.matches (rule : AppProcessFilterRule) (cmdLine : CString) : Bool :=
  rule.enable && !rule.isMatched && rule.keys.all fun key => key <:+: cmdLine

/-- Set `is_matched` of the first rule that matches. -/
def markMatched (cmdLine : CString) : List AppProcessFilterRule → List AppProcessFilterRule
  | [] => []
  | rule :: rules =>
      if rule.matches cmdLine then { rule with isMatched := true } :: rules
      else rule :: markMatched cmdLine rules

/-- `__match_app_process`. -/
def matchAppProcess (fs : ProcFs) (registers : String → Bool)
    (st : AppsState × List AppProcessFilterRule) (pid : Pid) :
    AppsState × List AppProcessFilterRule :=
  match fs.cmdline pid with
  | none => st
  | some cmdLine =>
      match st.2.find? fun rule => rule.matches cmdLine with
      | none => st
      | some rule =>
          match getAppStatus st.1 (registers rule.appName) pid rule.appName rule.appTypeName with
          | none => st
          | some (as, s) =>
              let s := getAppAssocProcess s as pid pid rule.appName
              let s :=
                if rule.assignType = .processTree then
                  (fs.descendantPids pid).foldl
                    (fun s child => getAppAssocProcess s as child pid rule.appName) s
                else s
              (s, markMatched cmdLine st.2)

/-- `update_app_collection`. -/
def updateAppCollection (s : AppsState) (fs : ProcFs) (registers : String → Bool)
    (rules : List AppProcessFilterRule) : AppsState :=
  (fs.pids.foldl (matchAppProcess fs registers) (s, rules)).1

/-! ## Runs -/

/-- The two calls of the plugin, with what they read. -/
inductive AppEvent
  | update (fs : ProcFs) (registers : String → Bool) (rules : List AppProcessFilterRule)
  | collect (r : Reading)

def appStep (s : AppsState) : AppEvent → AppsState
  | .update fs registers rules => updateAppCollection s fs registers rules
  | .collect r => collectingAppsUsage s r

def appRun (events : List AppEvent) : AppsState := events.foldl appStep {}

end XMonitor.Apps
