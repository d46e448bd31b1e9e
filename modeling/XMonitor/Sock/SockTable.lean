import Mathlib.Data.List.Induction
import Mathlib.Logic.Function.Basic
import XMonitor.Lib.EventRun
import XMonitor.Utils.Strings

/-!
# The table of sockets

A round reads the five socket files of `/proc/net` and brings the table of sockets,
which is keyed by inode, up to date. Whether an entry is still alive is decided by its
counter `is_update`: every round begins by decrementing all of them, a row that
repeats the entry increments it, a row that differs replaces the entry by a new one
with counter one, and entries with counter zero are removed at the end.

The counter is meant to be a flag. It is one only as long as no round lists an entry
twice; after that the entry outlives its socket.
-/

namespace XMonitor.Sock

/-- `enum SOCK_TYPE`, without the values that no socket has. -/
inductive SockType
  | tcp | tcp6 | udp | udp6 | unix
deriving DecidableEq

/-- `enum SOCK_STATE`, which takes any number that stands in the file. -/
abbrev SockState := UInt32

def SS_ESTABLISHED : SockState := 1
def SS_SYN_RECV : SockState := 3
def SS_CLOSE : SockState := 7
def SS_CLOSE_WAIT : SockState := 8
def SS_LISTEN : SockState := 10

structure SockInfo where
  ino : UInt32
  sockType : SockType
  sockState : SockState
deriving DecidableEq

structure SockInfoNode where
  si : SockInfo
  isUpdate : Int
deriving DecidableEq

/-- `sock_info_node_rcu_ht`. -/
abbrev SockTable := UInt32 → Option SockInfoNode

/-- `add_sock_info_node`, for a new node whose counter is one. -/
def addSockInfoNode (table : SockTable) (new : SockInfo) : SockTable :=
  match table new.ino with
  | some old =>
      if old.si.sockType ≠ new.sockType ∨ old.si.sockState ≠ new.sockState then
        Function.update table new.ino (some { si := new, isUpdate := 1 })
      else
        Function.update table new.ino (some { old with isUpdate := old.isUpdate + 1 })
  | none => Function.update table new.ino (some { si := new, isUpdate := 1 })

def findSockInfo (table : SockTable) (ino : UInt32) : Option SockInfo :=
  (table ino).map SockInfoNode.si

def cleanAllSockInfoUpdateFlag (table : SockTable) : SockTable := fun ino =>
  (table ino).map fun sin => { sin with isUpdate := sin.isUpdate - 1 }

def removeAllNotUpdateSockInfo (table : SockTable) : SockTable := fun ino =>
  (table ino).filter fun sin => sin.isUpdate ≠ 0

/-- The socket of a line, if it has one. -/
def sockRow (sockType : SockType) (line : List CString) : Option SockInfo :=
  match sockType with
  | .unix =>
      let soIno := str2uint32 (lineword line 6)
      if soIno = 0 then none
      else some
        { ino := soIno, sockType, sockState := UInt32.ofInt (strtolHex (lineword line 5)) }
  | .tcp | .tcp6 | .udp | .udp6 =>
      if line.length < 14 then none
      else
        let soIno := str2uint32 (lineword line 13)
        if soIno = 0 then none
        else some
          { ino := soIno, sockType, sockState := UInt32.ofInt (strtolHex (lineword line 5)) }

/-- The five files of a round, `none` where opening or reading fails. -/
abbrev SockFiles := SockType → Option ProcFile

/-- The sockets that a file lists after its header. -/
def sockFileRows (sockType : SockType) (file : Option ProcFile) : List SockInfo :=
  ((file.getD []).drop 1).filterMap (sockRow sockType)

def collectProcSocksInfo (table : SockTable) (sockType : SockType) (file : Option ProcFile) :
    SockTable :=
  (sockFileRows sockType file).foldl addSockInfoNode table

/-- `__sock_file_infos`. -/
def sockFileInfos : List SockType := [.tcp, .tcp6, .udp, .udp6, .unix]

def collectSocksInfo (table : SockTable) (files : SockFiles) : SockTable :=
  removeAllNotUpdateSockInfo
    (sockFileInfos.foldl
      (fun table sockType => collectProcSocksInfo table sockType (files sockType))
      (cleanAllSockInfoUpdateFlag table))

/-! ## What the table should be -/

/-- All rows of a round, in the order in which they are read. -/
def SockFiles.rows (files : SockFiles) : List SockInfo :=
  sockFileInfos.flatMap fun sockType => sockFileRows sockType (files sockType)

def lastRow (rows : List SockInfo) (ino : UInt32) : Option SockInfo :=
  rows.reverse.find? fun row => row.ino = ino

/-- The table has an entry for every inode of the rows, with the type and the state of
its last row, and no other entry. -/
def Mirrors (table : SockTable) (rows : List SockInfo) : Prop :=
  ∀ ino, findSockInfo table ino = lastRow rows ino

/-- Every entry that was counted more than once is listed again. -/
def CountedAgain (table : SockTable) (files : SockFiles) : Prop :=
  ∀ ino sin, table ino = some sin → sin.isUpdate ≠ 1 → ∃ row ∈ files.rows, row.ino = ino

/-- Between rounds every counter is positive. -/
def Positive (table : SockTable) : Prop :=
  ∀ ino sin, table ino = some sin → 0 < sin.isUpdate ∧ sin.si.ino = ino

theorem lastRow_append_singleton (rows : List SockInfo) (row : SockInfo) (ino : UInt32) :
    lastRow (rows ++ [row]) ino = if row.ino = ino then some row else lastRow rows ino := by
  simp [lastRow, List.find?_cons]
  split <;> simp_all

theorem lastRow_eq_none_iff {rows : List SockInfo} {ino : UInt32} :
    lastRow rows ino = none ↔ ¬ ∃ row ∈ rows, row.ino = ino := by
  simp [lastRow]

theorem collectSocksInfo_eq (table : SockTable) (files : SockFiles) :
    collectSocksInfo table files = removeAllNotUpdateSockInfo
      (files.rows.foldl addSockInfoNode (cleanAllSockInfoUpdateFlag table)) := by
  rw [SockFiles.rows, List.foldl_flatMap]
  rfl

/-! ## A round, row by row -/

theorem addSockInfoNode_of_ne {table : SockTable} {row : SockInfo} {ino : UInt32}
    (h : row.ino ≠ ino) : addSockInfoNode table row ino = table ino := by
  unfold addSockInfoNode
  cases table row.ino with
  | none => exact Function.update_of_ne h.symm _ _
  | some old =>
      simp only
      split
      · exact Function.update_of_ne h.symm _ _
      · exact Function.update_of_ne h.symm _ _

/-- A row leaves its own socket in the table, with a positive counter. -/
theorem addSockInfoNode_self {table : SockTable} {row : SockInfo}
    (h : ∀ sin, table row.ino = some sin → 0 ≤ sin.isUpdate ∧ sin.si.ino = row.ino) :
    ∃ n, addSockInfoNode table row row.ino = some { si := row, isUpdate := n } ∧ 0 < n := by
  unfold addSockInfoNode
  cases hold : table row.ino with
  | none => exact ⟨1, Function.update_self _ _ _, Int.one_pos⟩
  | some old =>
      obtain ⟨hcount, hino⟩ := h old hold
      simp only
      split
      · exact ⟨1, Function.update_self _ _ _, Int.one_pos⟩
      · rename_i hsame
        have hsi : old.si = row := by
          obtain ⟨htype, hstate⟩ := not_or.mp hsame
          cases hsi : old.si with
          | mk ino sockType sockState =>
              simp only [hsi, not_not] at hino htype hstate
              rw [hino, htype, hstate]
        refine ⟨old.isUpdate + 1, ?_, by omega⟩
        rw [Function.update_self, hsi]

/-- After some rows, an inode that they list has the socket of its last row and a
positive counter, and every other entry is unchanged. -/
theorem foldl_addSockInfoNode {table : SockTable}
    (h : ∀ ino sin, table ino = some sin → 0 ≤ sin.isUpdate ∧ sin.si.ino = ino)
    (rows : List SockInfo) (ino : UInt32) :
    (lastRow rows ino = none ∧ rows.foldl addSockInfoNode table ino = table ino) ∨
      ∃ row n, lastRow rows ino = some row ∧ row.ino = ino ∧ 0 < n ∧
        rows.foldl addSockInfoNode table ino = some { si := row, isUpdate := n } := by
  induction rows using List.reverseRecOn generalizing ino with
  | nil => exact .inl ⟨rfl, rfl⟩
  | append_singleton rows row ih =>
      rw [List.foldl_append, lastRow_append_singleton]
      change _ ∨ ∃ row' n, _ ∧ _ ∧ _ ∧
        addSockInfoNode (rows.foldl addSockInfoNode table) row ino = _
      by_cases hino : row.ino = ino
      · subst hino
        have hfound : ∀ sin, rows.foldl addSockInfoNode table row.ino = some sin →
            0 ≤ sin.isUpdate ∧ sin.si.ino = row.ino := by
          intro sin hsin
          obtain ⟨-, hkept⟩ | ⟨last, n, -, hlast, hn, hnode⟩ := ih row.ino
          · exact h row.ino sin (hkept ▸ hsin)
          · obtain rfl : _ = sin := Option.some.inj (hnode ▸ hsin)
            exact ⟨Int.le_of_lt hn, hlast⟩
        obtain ⟨n, hnode, hn⟩ := addSockInfoNode_self hfound
        exact .inr ⟨row, n, if_pos rfl, rfl, hn, hnode⟩
      · rw [if_neg hino]
        simp only [addSockInfoNode_of_ne hino, List.foldl_cons, List.foldl_nil]
        exact ih ino

theorem cleanAllSockInfoUpdateFlag_nonneg {table : SockTable} (h : Positive table)
    (ino : UInt32) (sin : SockInfoNode) (hsin : cleanAllSockInfoUpdateFlag table ino = some sin) :
    0 ≤ sin.isUpdate ∧ sin.si.ino = ino := by
  obtain ⟨old, hold, rfl⟩ := Option.map_eq_some_iff.mp hsin
  obtain ⟨hpos, hino⟩ := h ino old hold
  exact ⟨by simp only; omega, hino⟩

/-- The outcome of a round for one inode. -/
theorem collectSocksInfo_apply {table : SockTable} (h : Positive table) (files : SockFiles)
    (ino : UInt32) :
    (lastRow files.rows ino = none ∧ collectSocksInfo table files ino =
        removeAllNotUpdateSockInfo (cleanAllSockInfoUpdateFlag table) ino) ∨
      ∃ row n, lastRow files.rows ino = some row ∧ row.ino = ino ∧ 0 < n ∧
        collectSocksInfo table files ino = some { si := row, isUpdate := n } := by
  rw [collectSocksInfo_eq]
  obtain ⟨hnone, hkept⟩ | ⟨row, n, hlast, hino, hn, hnode⟩ :=
    foldl_addSockInfoNode (cleanAllSockInfoUpdateFlag_nonneg h) files.rows ino
  · refine .inl ⟨hnone, ?_⟩
    rw [removeAllNotUpdateSockInfo, hkept]
    rfl
  · refine .inr ⟨row, n, hlast, hino, hn, ?_⟩
    rw [removeAllNotUpdateSockInfo, hnode, Option.filter_some, if_pos]
    exact decide_eq_true (Int.ne_of_gt hn)

theorem positive_collectSocksInfo {table : SockTable} (h : Positive table) (files : SockFiles) :
    Positive (collectSocksInfo table files) := by
  intro ino sin hsin
  obtain ⟨-, hkept⟩ | ⟨row, n, -, hino, hn, hnode⟩ := collectSocksInfo_apply h files ino
  · rw [hkept] at hsin
    obtain ⟨hclean, hne⟩ := Option.filter_eq_some_iff.mp hsin
    obtain ⟨hnonneg, hino⟩ := cleanAllSockInfoUpdateFlag_nonneg h ino sin hclean
    have hne : sin.isUpdate ≠ 0 := of_decide_eq_true hne
    exact ⟨by omega, hino⟩
  · obtain rfl : _ = sin := Option.some.inj (hnode ▸ hsin)
    exact ⟨hn, hino⟩

/-- One round mirrors its files exactly if every entry that was counted more than once
before is listed in them. -/
theorem mirrors_collectSocksInfo_iff {table : SockTable} (h : Positive table)
    (files : SockFiles) :
    Mirrors (collectSocksInfo table files) files.rows ↔ CountedAgain table files := by
  constructor
  · intro hmirror ino sin hsin hcount
    by_contra hunseen
    have hnone := lastRow_eq_none_iff.mpr hunseen
    have hgone := hmirror ino
    obtain ⟨-, hkept⟩ | ⟨row, n, hlast, -⟩ := collectSocksInfo_apply h files ino
    · rw [findSockInfo, hkept, hnone, Option.map_eq_none_iff] at hgone
      have hstays : decide (sin.isUpdate - 1 ≠ 0) = true := by
        have := (h ino sin hsin).1
        exact decide_eq_true (by omega)
      rw [removeAllNotUpdateSockInfo, cleanAllSockInfoUpdateFlag, hsin, Option.map_some,
        Option.filter_some, if_pos hstays] at hgone
      cases hgone
    · rw [hnone] at hlast
      cases hlast
  · intro hagain ino
    obtain ⟨hnone, hkept⟩ | ⟨row, n, hlast, -, -, hnode⟩ := collectSocksInfo_apply h files ino
    · rw [findSockInfo, hkept, hnone, Option.map_eq_none_iff, removeAllNotUpdateSockInfo,
        cleanAllSockInfoUpdateFlag]
      cases hsin : table ino with
      | none => rfl
      | some sin =>
          have hone : sin.isUpdate = 1 := by
            by_contra hcount
            exact lastRow_eq_none_iff.mp hnone (hagain ino sin hsin hcount)
          simp [hone]
    · rw [findSockInfo, hnode, hlast, Option.map_some]

/-- The table mirrors the files after every round exactly if every round lists again the
entries that were counted more than once before it. -/
theorem socks_mirrored_iff (rounds : List SockFiles) :
    EventRun.AllSteps collectSocksInfo
        (fun table files => Mirrors (collectSocksInfo table files) files.rows)
        (fun _ => none) rounds ↔
      EventRun.AllSteps collectSocksInfo CountedAgain (fun _ => none) rounds := by
  have hempty : Positive fun _ => none := by
    intro ino sin hsin
    cases hsin
  have keep : ∀ table files, Positive table →
      Mirrors (collectSocksInfo table files) files.rows → Positive (collectSocksInfo table files) :=
    fun table files h _ => positive_collectSocksInfo h files
  exact EventRun.allSteps_congr keep (fun table files h => mirrors_collectSocksInfo_iff h files)
    hempty rounds

/-- A line of `/proc/net/tcp` after the addresses and ports have been split. -/
def tcpLine (state ino : String) : List CString :=
  ["0", "0100007F", "1F90", "00000000", "0000", state, "00000000", "00000000", "00", "00000000",
    "00000000", "1000", "0", ino].map String.toList

/-- A round in which only `/proc/net/tcp` can be read. -/
def tcpRound (lines : List (List CString)) : SockFiles
  | .tcp => some (["sl".toList] :: lines)
  | .tcp6 | .udp | .udp6 | .unix => none

/-- A socket that one round lists twice is still in the table when the next round does
not list it any more. -/
theorem socket_listed_twice_lingers :
    ¬ EventRun.AllSteps collectSocksInfo
      (fun table files => Mirrors (collectSocksInfo table files) files.rows) (fun _ => none)
      [tcpRound [tcpLine "01" "4711", tcpLine "01" "4711"], tcpRound []] := by
  rintro ⟨-, hmirror, -⟩
  exact absurd (hmirror 4711) (by decide)

end XMonitor.Sock
