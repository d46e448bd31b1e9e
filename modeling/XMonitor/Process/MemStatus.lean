import XMonitor.Utils.Smaps

/-!
# The memory usage of a process

`collector_process_mem_usage` reads the sums of the mappings, and then looks for seven tags at
the starts of the lines of `/proc/<pid>/status`. The byte behind the number of a tagged line is
skipped before the scanner goes on to the next newline, so that it misses a line behind a number
that is itself followed by the newline.
-/

namespace XMonitor.Process

open Procfile Smaps

/-- The fields of `struct process_status` that a tagged line sets, in the order of `status`. -/
inductive StatusField
  | vmsize | rssAnon | rssFile | rssShmem | vmswap | nvcsw | nivcsw
deriving DecidableEq

def StatusField.all : List StatusField :=
  [.vmsize, .rssAnon, .rssFile, .rssShmem, .vmswap, .nvcsw, .nivcsw]

/-- `__status_tags`. -/
def StatusField.tag : StatusField → List UInt8
  | .vmsize => ascii "VmSize:"
  | .rssAnon => ascii "RssAnon:"
  | .rssFile => ascii "RssFile:"
  | .rssShmem => ascii "RssShmem:"
  | .vmswap => ascii "VmSwap:"
  | .nvcsw => ascii "voluntary_ctxt_switches:"
  | .nivcsw => ascii "nonvoluntary_ctxt_switches:"

/-- What `collector_process_mem_usage` uses of `struct process_status`. -/
structure MemStatus where
  pid : Int32
  smaps : SmapsInfo
  memStatusFd : Int32
  fields : StatusField → UInt64

/-- The fields and the number of tags that have been found. -/
structure StatusScan where
  fields : StatusField → UInt64
  numFound : Nat := 0

def isBlank (c : UInt8) : Bool := c = 32 ∨ c = 9

def isDigit (c : UInt8) : Bool := 48 ≤ c ∧ c ≤ 57

/-- A round of the outer loop: the number behind the first tag that `p` begins with, and then
the rest of the line. A zero takes the place of the byte behind the number. -/
def statusRound (scan : StatusScan) (p : List UInt8) : StatusScan × List UInt8 :=
  let (scan, p) :=
    match StatusField.all.find? fun field => field.tag <+: p with
    | none => (scan, p)
    | some field =>
        let num := (p.drop field.tag.length).dropWhile isBlank
        let value := str2uint64 (cString (num.takeWhile isDigit))
        ({ fields := Function.update scan.fields field value, numFound := scan.numFound + 1 },
          (num.dropWhile isDigit).drop 1)
  (scan, (p.dropWhile fun c => c ≠ 10).drop 1)

/-- The outer loop, in which every round takes some bytes. -/
def statusLoop : Nat → StatusScan → List UInt8 → StatusScan
  | 0, scan, _ => scan
  | n + 1, scan, p =>
      if p ≠ [] ∧ scan.numFound < StatusField.all.length then
        let (scan, p) := statusRound scan p
        statusLoop n scan p
      else scan

/-- `collector_process_mem_usage`, for the descriptor that `open` returns for the status file and
the bytes in it. One call of `read` fills at most 4095 bytes of the buffer. -/
def collectorProcessMemUsage (ps : MemStatus) (smapsCalls : SmapsCalls) (openStatus : Int32)
    (content : List UInt8) : MemStatus × Int :=
  if ps.pid ≤ 0 then (ps, -1)
  else
    let (smaps, ret) := getMssFromSmaps ps.smaps.clear smapsCalls
    let ps := { ps with smaps }
    if ret < 0 then (ps, -1)
    else
      let fd := if ps.memStatusFd ≤ 0 then openStatus else ps.memStatusFd
      if fd < 0 then ({ ps with memStatusFd := fd }, -1)
      else
        let buf := content.take 4095
        if buf = [] then ({ ps with memStatusFd := 0 }, -1)
        else
          let text := buf.takeWhile fun c => c ≠ 0
          let scan := statusLoop text.length { fields := ps.fields } text
          ({ ps with memStatusFd := fd, fields := scan.fields }, 0)

/-! ## The text -/

/-- A line with a tag. -/
structure TaggedLine where
  field : StatusField
  blanks : List UInt8
  blanks_isBlank : ∀ c ∈ blanks, isBlank c
  value : UInt64
  hasUnit : Bool

/-- Any other line. -/
structure UntaggedLine where
  bytes : List UInt8
  text : ∀ c ∈ bytes, c ≠ 0 ∧ c ≠ 10
  untagged : ∀ field : StatusField, ¬field.tag <+: bytes

/-- A line of the file. -/
inductive StatusLine
  | tagged (line : TaggedLine)
  | untagged (line : UntaggedLine)

namespace StatusLine

def bytes : StatusLine → List UInt8
  | tagged line =>
      line.field.tag ++ (line.blanks ++ (decimal line.value.toNat ++
        if line.hasUnit then ascii " kB" else []))
  | untagged line => line.bytes

def field? : StatusLine → Option StatusField
  | tagged line => some line.field
  | untagged _ => none

/-- A number with a newline directly behind it. -/
def isBare : StatusLine → Bool
  | tagged line => !line.hasUnit
  | untagged _ => false

end StatusLine

/-- The text of some lines. -/
def statusText (lines : List StatusLine) : List UInt8 := lines.flatMap fun l => l.bytes ++ [10]

/-- The lines that the scanner passes over. The flag says that it is inside of the line in
front, which it has read up to its end. -/
def passedOver : Bool → List StatusLine → List StatusLine
  | _, [] => []
  | true, l :: lines => l :: passedOver false lines
  | false, l :: lines => passedOver l.isBare lines

/-- The lines that it reads. -/
def readLines : Bool → List StatusLine → List StatusLine
  | _, [] => []
  | true, _ :: lines => readLines false lines
  | false, l :: lines => l :: readLines l.isBare lines

end XMonitor.Process
