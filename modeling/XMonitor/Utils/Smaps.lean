import XMonitor.Lib.LineReader
import XMonitor.Utils.ProcfileOpen

/-!
# The memory of a process by its mappings

`get_mss_from_smaps` reads `/proc/<pid>/smaps_rollup`, or `smaps` where there is no such file, in
blocks, and adds up numbers of lines that it knows by the bytes they begin with. The lines of
anonymous, file and shared memory are taken for lines of the proportional size, so their
numbers are added to that size and to no other sum.
-/

namespace XMonitor.Smaps

open LineReader Procfile

/-- `struct smaps_info`. -/
structure SmapsInfo where
  smapsFd : Int32
  rss : UInt64 := 0
  pss : UInt64 := 0
  pssAnon : UInt64 := 0
  pssFile : UInt64 := 0
  pssShmem : UInt64 := 0
  uss : UInt64 := 0
deriving DecidableEq

/-- The types of lines that are counted. -/
inductive SmapsLineType
  | rss | pss | uss
deriving DecidableEq

/-- `__check_line_is_rss`. -/
def checkLineIsRss (line : List UInt8) : Bool := ascii "Rss:" <+: line

/-- `__check_line_is_pss`. -/
def checkLineIsPss (line : List UInt8) : Bool :=
  ascii "Pss:" <+: line ∨ ascii "Pss_Anon:" <+: line ∨ ascii "Pss_File:" <+: line ∨
    ascii "Pss_Shmem:" <+: line

/-- `__check_line_is_uss`. -/
def checkLineIsUss (line : List UInt8) : Bool :=
  ascii "Private_C" <+: line ∨ ascii "Private_D" <+: line

/-- `__smaps_line_tags`. -/
def smapsLineTags : List (SmapsLineType × (List UInt8 → Bool)) :=
  [(.rss, checkLineIsRss), (.pss, checkLineIsPss), (.uss, checkLineIsUss)]

/-- `__get_mss_val`, behind a part of the line. -/
def getMssVal (val : UInt64) : List UInt8 → UInt64
  | [] => val
  | c :: line =>
      if 48 ≤ c ∧ c ≤ 57 then getMssVal (val * 10 + UInt64.ofNat (c.toNat - 48)) line
      else if 0 < val then val
      else getMssVal val line

/-- A number is added to the sum of its type. -/
def SmapsInfo.count (info : SmapsInfo) (val : UInt64) : SmapsLineType → SmapsInfo
  | .rss => { info with rss := info.rss + val }
  | .pss => { info with pss := info.pss + val }
  | .uss => { info with uss := info.uss + val }

/-- One line. The first tag that matches ends the search, so that `match_tags`, which is cleared
behind each line, never excludes one. -/
def parseLine (info : SmapsInfo) (line : List UInt8) : SmapsInfo :=
  match smapsLineTags.find? fun tag => tag.2 line with
  | none => info
  | some (type, _) => info.count (getMssVal 0 line) type

/-- One block: the lines that `strchr` finds in the buffer, up to a zero, and the rest. -/
def parseBlock (st : SmapsInfo × List UInt8) (chunk : List UInt8) : SmapsInfo × List UInt8 :=
  let buf := st.2 ++ chunk
  let text := buf.takeWhile fun c => c ≠ 0
  let (lines, rest) := takeLines 10 [] text
  (lines.foldl parseLine st.1, rest ++ buf.drop text.length)

/-- What the system calls return: whether there is a rollup file, the descriptors of the files,
the bytes that the calls of `read` deliver, and whether the last call fails. -/
structure SmapsCalls where
  rollupExists : Bool
  openRollup : Int32
  openSmaps : Int32
  chunks : List (List UInt8)
  readFails : Bool := false

/-- The descriptor of the file that is opened. -/
def SmapsCalls.opened (calls : SmapsCalls) : Int32 :=
  if calls.rollupExists then calls.openRollup else calls.openSmaps

/-- `get_mss_from_smaps`. -/
def getMssFromSmaps (info : SmapsInfo) (calls : SmapsCalls) : SmapsInfo × Int :=
  let info := if info.smapsFd ≤ 0 then { smapsFd := calls.opened } else info
  if info.smapsFd = -1 then (info, -1)
  else
    let (info, _) := calls.chunks.foldl parseBlock (info, [])
    if calls.readFails then ({ info with smapsFd := 0 }, -1) else (info, 0)

/-- The sums are cleared by `collector_process_mem_usage` in front of the call. -/
def SmapsInfo.clear (info : SmapsInfo) : SmapsInfo := { smapsFd := info.smapsFd }

/-! ## The text -/

/-- The lines that have a number to be reported. -/
inductive SmapsKey
  | rss | pss | pssAnon | pssFile | pssShmem | privateClean | privateDirty
deriving DecidableEq

def SmapsKey.name : SmapsKey → List UInt8
  | .rss => ascii "Rss:"
  | .pss => ascii "Pss:"
  | .pssAnon => ascii "Pss_Anon:"
  | .pssFile => ascii "Pss_File:"
  | .pssShmem => ascii "Pss_Shmem:"
  | .privateClean => ascii "Private_Clean:"
  | .privateDirty => ascii "Private_Dirty:"

/-- Any other line. -/
structure OtherLine where
  bytes : List UInt8
  text : ∀ c ∈ bytes, c ≠ 0 ∧ c ≠ 10
  other : ∀ key : SmapsKey, ¬key.name <+: bytes

/-- A line of the file. -/
inductive SmapsLine
  | value (key : SmapsKey) (blanks : Nat) (kB : UInt64)
  | other (line : OtherLine)

namespace SmapsLine

def bytes : SmapsLine → List UInt8
  | value key blanks kB => key.name ++ List.replicate blanks 32 ++ decimal kB.toNat ++ ascii " kB"
  | other line => line.bytes

/-- The number on a line with the key. -/
def kB (key : SmapsKey) : SmapsLine → Nat
  | value key' _ kB => if key' = key then kB.toNat else 0
  | other _ => 0

/-- The number on another line that begins as those of private memory do. -/
def stray : SmapsLine → Nat
  | value .. => 0
  | other line => if checkLineIsUss line.bytes then (getMssVal 0 line.bytes).toNat else 0

end SmapsLine

/-- The text of some lines. -/
def smapsText (lines : List SmapsLine) : List UInt8 :=
  (lines.map SmapsLine.bytes).flatMap fun l => l ++ [10]

/-- The sum of the numbers on the lines with a key. -/
def total (key : SmapsKey) (lines : List SmapsLine) : Nat := (lines.map (SmapsLine.kB key)).sum

/-- The sum of the numbers on the other lines that are counted. -/
def totalStray (lines : List SmapsLine) : Nat := (lines.map SmapsLine.stray).sum

/-- The sums are those of the lines with their names, and with them the proportional size is
not above the resident size, if it is not for any mapping. -/
structure Reported (mappings : List (List SmapsLine)) (info : SmapsInfo) : Prop where
  rss : info.rss = UInt64.ofNat (total .rss mappings.flatten)
  pss : info.pss = UInt64.ofNat (total .pss mappings.flatten)
  uss : info.uss =
    UInt64.ofNat (total .privateClean mappings.flatten + total .privateDirty mappings.flatten)
  pssAnon : info.pssAnon = UInt64.ofNat (total .pssAnon mappings.flatten)
  pssFile : info.pssFile = UInt64.ofNat (total .pssFile mappings.flatten)
  pssShmem : info.pssShmem = UInt64.ofNat (total .pssShmem mappings.flatten)
  pss_le_rss : (∀ m ∈ mappings, total .pss m ≤ total .rss m) →
    total .rss mappings.flatten < 2 ^ 64 → info.pss ≤ info.rss

end XMonitor.Smaps
