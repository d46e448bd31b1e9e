import Mathlib.Data.List.DropRight
import Mathlib.Data.List.Infix
import XMonitor.Disk.DiskStats
import XMonitor.Utils.ProcfileOpen
import XMonitor.Utils.ProcfileRuns

/-!
# The mounts of a process

`mountinfo_read` makes a list of the lines of `/proc/self/mountinfo`. The words of a line have
fixed places up to the mount options; optional words follow, up to the first one that begins
with a dash, and behind it the file system, the source and the options of the superblock. Of
all words only the source is decoded.
-/

namespace XMonitor.MountInfo

open Disk Procfile

/-- `struct mountinfo`. A pointer that no assignment has reached is none. -/
structure Mountinfo where
  id : Int32
  parentId : Int32
  major : UInt32
  minor : UInt32
  root : CString
  rootHash : UInt32
  mountPoint : CString
  mountPointHash : UInt32
  mountOptions : CString
  optionalFieldsCount : Int32 := 0
  filesystem : Option CString := none
  filesystemHash : UInt32 := 0
  mountSource : Option CString := none
  mountSourceHash : UInt32 := 0
  mountSourceNameHash : UInt32 := 0
  mountSourceName : Option CString := none
  superOptions : Option CString := none
  flags : UInt32 := 0
deriving DecidableEq

/-- `MOUNTINFO_FLAG_IS_DUMMY`. -/
def flagIsDummy : UInt32 := 0x1

/-- `MOUNTINFO_FLAG_IS_REMOTE`. -/
def flagIsRemote : UInt32 := 0x2

/-- `MOUNTINFO_FLAG_READONLY`. -/
def flagReadonly : UInt32 := 0x40

/-- `is_readonly`. -/
def isReadonly (options : CString) : Bool :=
  if options.length < 2 then false
  else if options.length = 2 then options = ['r', 'o']
  else
    ['r', 'o', ','] <+: options ∨ [',', 'r', 'o'] <:+ options ∨ [',', 'r', 'o', ','] <:+: options

/-- The byte of a character. -/
def byteOf (c : Char) : UInt8 := UInt8.ofNat c.toNat

/-- The byte that three digits stand for. They are shifted into a `char`. -/
def octal (a b c : Char) : Char :=
  charOf (((byteOf a - 48) <<< 3 ||| (byteOf b - 48)) <<< 3 ||| (byteOf c - 48))

/-- The loop of `strdup_decoding_octal`. -/
def decodeOctal : CString → CString
  | [] => []
  | ch :: s =>
      if ch = '\\' then
        match s with
        | a :: b :: c :: rest =>
            if a.isDigit ∧ b.isDigit ∧ c.isDigit then octal a b c :: decodeOctal rest
            else '_' :: decodeOctal (a :: b :: c :: rest)
        | s => '_' :: decodeOctal s
      else ch :: decodeOctal s

/-- `strdup_decoding_octal`. A zero that has been decoded ends the string. -/
def strdupDecodingOctal (s : CString) : CString := (decodeOctal s).takeWhile (· ≠ '\x00')

/-- `basename` of `libgen.h`, with what it leaves of its argument: it cuts slashes off the end,
if there is anything else. -/
def basename (path : CString) : CString × CString :=
  if path = [] then (path, ['.'])
  else
    let kept := path.rdropWhile (· = '/')
    if kept = [] then (path, ['/']) else (kept, kept.rtakeWhile (· ≠ '/'))

/-- The types of file systems in `ME_DUMMY`. -/
def dummyTypes : List String :=
  ["autofs", "proc", "subfs", "debugfs", "devpts", "fusectl", "mqueue", "rpc_pipefs", "sysfs",
    "devfs", "kernfs", "ignore", "none"]

/-- `ME_DUMMY`. -/
def meDummy (fsType : CString) : Bool := (dummyTypes.map String.toList).contains fsType

/-- `ME_REMOTE`. -/
def meRemote (fsName fsType : CString) : Bool :=
  ':' ∈ fsName ∨
    (['/', '/'] <+: fsName ∧ (fsType = "smbfs".toList ∨ fsType = "cifs".toList)) ∨
    fsName = "-hosts".toList

/-- `strtol(s, NULL, 10)`, which saturates at the ends of `long`. -/
def strtol (s : CString) : Int :=
  match s.dropWhile Char.isWhitespace with
  | '-' :: s => max (-2 ^ 63) (-(scanDigits (fun d : Nat => d) 0 s : Int))
  | '+' :: s => min (2 ^ 63 - 1) (scanDigits (fun d : Nat => d) 0 s : Int)
  | s => min (2 ^ 63 - 1) (scanDigits (fun d : Nat => d) 0 s : Int)

namespace Mountinfo

/-- A flag is set under a condition. -/
def setFlag (mi : Mountinfo) (flag : UInt32) (cond : Bool) : Mountinfo :=
  { mi with flags := if cond then mi.flags ||| flag else mi.flags }

/-- What follows the dash: the file system, its source and the options of the superblock. -/
def readSource (mi : Mountinfo) (words : List CString) : Mountinfo :=
  let filesystem := lineword words 0
  let decoded := strdupDecodingOctal (lineword words 1)
  -- the hash is that of the source before `basename` changes it
  let (mountSource, name) := basename decoded
  let superOptions := lineword words 2
  let mi :=
    { mi with
      filesystem := some filesystem
      filesystemHash := bkrdHash filesystem
      mountSource := some mountSource
      mountSourceHash := bkrdHash decoded
      mountSourceName := some name
      mountSourceNameHash := bkrdHash name
      superOptions := some superOptions }
  ((mi.setFlag flagReadonly (isReadonly superOptions)).setFlag flagIsDummy
    (meDummy filesystem)).setFlag flagIsRemote (meRemote mountSource filesystem)

/-- So many more optional words. -/
def addOptional (mi : Mountinfo) (n : Int32) : Mountinfo :=
  { mi with optionalFieldsCount := mi.optionalFieldsCount + n }

/-- The loop over the optional words, and what follows it. There are empty strings behind the
last word of a line. -/
def readOptional (mi : Mountinfo) : List CString → Mountinfo
  | [] => mi
  | s :: words =>
      if s.head? = some '-' then mi.readSource words
      else if s = [] then mi
      else (mi.addOptional 1).readOptional words

end Mountinfo

/-- The words of a line up to the mount options, with what stands behind the colon of the
device. -/
def readFront (words : List CString) (minor : CString) : Mountinfo :=
  let root := lineword words 3
  let mountPoint := lineword words 4
  let mountOptions := lineword words 5
  let mi : Mountinfo :=
    { id := Int32.ofInt (strtol (lineword words 0))
      parentId := Int32.ofInt (strtol (lineword words 1))
      major := str2uint32 ((lineword words 2).takeWhile (· ≠ ':'))
      minor := str2uint32 minor
      root
      rootHash := bkrdHash root
      mountPoint
      mountPointHash := bkrdHash mountPoint
      mountOptions }
  mi.setFlag flagReadonly (isReadonly mountOptions)

/-- The body of the loop over the lines, for the words of a line. -/
def readLine (words : List CString) : Option Mountinfo :=
  if words.length < 5 then none
  else
    match (lineword words 2).dropWhile (· ≠ ':') with
    -- there is no colon
    | [] => none
    | _ :: minor => some ((readFront words minor).readOptional (words.drop 6))

/-- The separators that `mountinfo_read` opens the file with. -/
def mountSeparators : UInt8 → PfChar := procfileSetSeparators (some [32, 9])

/-- `mountinfo_read`, for the bytes of the file. -/
def mountinfoRead (content : List UInt8) : List Mountinfo :=
  (fileLines mountSeparators content).filterMap readLine

/-! ## Options -/

theorem two_letters_of_mem_splitOn {a b : CString} (ha : a = [] ∨ ∃ a', a = a' ++ [','])
    (hb : b = [] ∨ ∃ b', b = ',' :: b') : isReadonly (a ++ ['r', 'o'] ++ b) = true := by
  obtain rfl | ⟨a, rfl⟩ := ha <;> obtain rfl | ⟨b, rfl⟩ := hb
  · rfl
  · rw [isReadonly, if_neg (by simp), if_neg (by simp)]
    exact decide_eq_true (.inl ⟨b, rfl⟩)
  · rw [isReadonly, if_neg (by simp), if_neg (by simp)]
    exact decide_eq_true (.inr (.inl ⟨a, by simp⟩))
  · rw [isReadonly, if_neg (by simp; omega), if_neg (by simp; omega)]
    exact decide_eq_true (.inr (.inr ⟨a, b, by simp⟩))

/-- The options say `ro` exactly if it is one of them. -/
theorem isReadonly_iff (options : CString) :
    isReadonly options = true ↔ ['r', 'o'] ∈ options.splitOn ',' := by
  rw [Lib.mem_splitOn_iff]
  constructor
  · intro h
    refine ⟨by decide, ?_⟩
    rw [isReadonly] at h
    split at h
    · cases h
    split at h
    · obtain rfl := of_decide_eq_true h
      exact ⟨[], [], rfl, .inl rfl, .inl rfl⟩
    obtain ⟨b, rfl⟩ | ⟨a, rfl⟩ | ⟨a, b, rfl⟩ := of_decide_eq_true h
    · exact ⟨[], ',' :: b, rfl, .inl rfl, .inr ⟨b, rfl⟩⟩
    · exact ⟨a ++ [','], [], by simp, .inr ⟨a, rfl⟩, .inl rfl⟩
    · exact ⟨a ++ [','], ',' :: b, by simp, .inr ⟨a, rfl⟩, .inr ⟨b, rfl⟩⟩
  · rintro ⟨-, a, b, rfl, ha, hb⟩
    exact two_letters_of_mem_splitOn ha hb

/-! ## Sources -/

theorem decodeOctal_cons_of_ne {c : Char} (hc : c ≠ '\\') (s : CString) :
    decodeOctal (c :: s) = c :: decodeOctal s :=
  (decodeOctal.eq_def _).trans (if_neg hc)

theorem decodeOctal_backslash {a b c : Char} (h : a.isDigit ∧ b.isDigit ∧ c.isDigit)
    (s : CString) : decodeOctal ('\\' :: a :: b :: c :: s) = octal a b c :: decodeOctal s :=
  (decodeOctal.eq_def _).trans ((if_pos rfl).trans (if_pos h))

theorem basename_subset {path : CString} : (basename path).1 ⊆ path := by
  rw [basename]
  split
  · exact List.Subset.refl path
  dsimp only
  split
  · exact List.Subset.refl path
  · exact (List.rdropWhile_prefix _ path).subset

/-- `basename` leaves a path as it is exactly if it does not end in a slash, or is nothing
else. -/
theorem basename_eq_iff (path : CString) :
    (basename path).1 = path ↔ path.getLast? ≠ some '/' ∨ ∀ c ∈ path, c = '/' := by
  rw [basename]
  split
  · rename_i hnil
    rw [hnil]
    exact iff_of_true rfl (.inr (List.forall_mem_nil _))
  rename_i hne
  have hall : path.rdropWhile (· = '/') = [] ↔ ∀ c ∈ path, c = '/' := by
    rw [List.rdropWhile_eq_nil_iff]
    exact forall₂_congr fun c _ => decide_eq_true_iff
  have hlast : path.rdropWhile (· = '/') = path ↔ path.getLast? ≠ some '/' := by
    rw [List.rdropWhile_eq_self_iff, List.getLast?_eq_some_getLast hne]
    simp [hne]
  dsimp only
  split
  · rename_i hkept
    exact iff_of_true rfl (.inr (hall.mp hkept))
  · rename_i hkept
    rw [hlast, or_iff_left fun h => hkept (hall.mpr h)]

/-! ## Lines -/

theorem or_and_mask (a b mask : UInt32) :
    (a ||| b) &&& mask = a &&& mask ||| b &&& mask := by
  refine UInt32.toBitVec_inj.mp (BitVec.eq_of_getLsbD_eq fun i _ => ?_)
  simp only [UInt32.toBitVec_and, UInt32.toBitVec_or, BitVec.getLsbD_and, BitVec.getLsbD_or]
  exact Bool.and_or_distrib_right _ _ _

namespace Mountinfo

variable {mi : Mountinfo}

/-- A flag is set. -/
def HasFlag (mi : Mountinfo) (flag : UInt32) : Prop := mi.flags &&& flag ≠ 0

instance (mi : Mountinfo) (flag : UInt32) : Decidable (mi.HasFlag flag) :=
  inferInstanceAs (Decidable (_ ≠ _))

theorem hasFlag_setFlag {flag : UInt32} (hflag : flag ≠ 0) (cond : Bool) :
    (mi.setFlag flag cond).HasFlag flag ↔ mi.HasFlag flag ∨ cond = true := by
  cases cond with
  | false => exact (or_iff_left Bool.false_ne_true).symm
  | true =>
      refine iff_of_true ?_ (.inr rfl)
      change (mi.flags ||| flag) &&& flag ≠ 0
      rw [or_and_mask, UInt32.and_self]
      intro hzero
      exact hflag (UInt32.or_eq_zero_iff.mp hzero).2

theorem hasFlag_setFlag_of_disjoint {flag other : UInt32} (h : other &&& flag = 0)
    (cond : Bool) : (mi.setFlag other cond).HasFlag flag ↔ mi.HasFlag flag := by
  cases cond with
  | false => exact Iff.rfl
  | true =>
      change (mi.flags ||| other) &&& flag ≠ 0 ↔ mi.flags &&& flag ≠ 0
      rw [or_and_mask, h, UInt32.or_zero]

theorem hasFlag_readSource (words : List CString) :
    (mi.readSource words).HasFlag flagReadonly ↔
      mi.HasFlag flagReadonly ∨ isReadonly (lineword words 2) = true :=
  (hasFlag_setFlag_of_disjoint (by decide) _).trans <|
    (hasFlag_setFlag_of_disjoint (by decide) _).trans (hasFlag_setFlag (by decide) _)

theorem readSource_mountSource (words : List CString) :
    (mi.readSource words).mountSource =
      some (basename (strdupDecodingOctal (lineword words 1))).1 := rfl

theorem readSource_superOptions (words : List CString) :
    (mi.readSource words).superOptions = some (lineword words 2) := rfl

theorem addOptional_zero : mi.addOptional 0 = mi := by
  rw [addOptional, Int32.add_zero]

theorem addOptional_addOptional (m n : Int32) :
    (mi.addOptional m).addOptional n = mi.addOptional (m + n) := by
  rw [addOptional, addOptional, addOptional, Int32.add_assoc]

/-- Behind optional words there is a dash. -/
theorem readOptional_append {optional : List CString}
    (h : ∀ s ∈ optional, s ≠ [] ∧ s.head? ≠ some '-') (words : List CString) :
    mi.readOptional (optional ++ ['-'] :: words) =
      (mi.addOptional (Int32.ofNat optional.length)).readSource words := by
  induction optional generalizing mi with
  | nil => exact congrArg (readSource · words) addOptional_zero.symm
  | cons s optional ih =>
      obtain ⟨⟨hne, hdash⟩, h⟩ := List.forall_mem_cons.mp h
      rw [List.cons_append, readOptional, if_neg hdash, if_neg hne, ih h, addOptional_addOptional,
        List.length_cons, Nat.add_comm, Int32.ofNat_add]
      rfl

end Mountinfo

theorem readLine_of_colon {words : List CString} {colon : Char} {minor : CString}
    (hlength : 5 ≤ words.length)
    (h : (lineword words 2).dropWhile (· ≠ ':') = colon :: minor) :
    readLine words = some ((readFront words minor).readOptional (words.drop 6)) := by
  rw [readLine, if_neg (Nat.not_lt.mpr hlength), h]

theorem hasFlag_readFront (words : List CString) (minor : CString) :
    (readFront words minor).HasFlag flagReadonly ↔
      isReadonly (lineword words 5) = true :=
  (Mountinfo.hasFlag_setFlag (by decide) _).trans (or_iff_right fun h => h UInt32.zero_and)

/-- A line with a device, with optional words and with a dash behind them. -/
theorem readLine_eq (id parentId : CString) {device root mountPoint mountOptions : CString}
    (hdevice : ':' ∈ device) {optional : List CString}
    (hoptional : ∀ s ∈ optional, s ≠ [] ∧ s.head? ≠ some '-') (words : List CString) :
    ∃ front : Mountinfo, front.root = root ∧ front.mountPoint = mountPoint ∧
      front.mountOptions = mountOptions ∧
      front.optionalFieldsCount = Int32.ofNat optional.length ∧
      (front.HasFlag flagReadonly ↔ isReadonly mountOptions = true) ∧
      readLine ([id, parentId, device, root, mountPoint, mountOptions] ++
        (optional ++ ['-'] :: words)) = some (front.readSource words) := by
  obtain ⟨colon, minor, hminor⟩ : ∃ colon minor, device.dropWhile (· ≠ ':') = colon :: minor := by
    refine List.exists_cons_of_ne_nil fun hnil => ?_
    simpa using List.dropWhile_eq_nil_iff.mp hnil ':' hdevice
  have hlength : 5 ≤ ([id, parentId, device, root, mountPoint, mountOptions] ++
      (optional ++ ['-'] :: words)).length := by
    rw [List.length_append]
    exact Nat.le_add_right_of_le (by simp)
  have hread := readLine_of_colon hlength hminor
  refine ⟨_, ?_, ?_, ?_, ?_, ?_,
    hread.trans (congrArg some (Mountinfo.readOptional_append hoptional words))⟩
  · rfl
  · rfl
  · rfl
  · exact Int32.zero_add _
  · exact hasFlag_readFront _ minor

/-! ## Strings that are words of the line -/

/-- A property of the strings of a node that are copied from the line. -/
structure Mountinfo.Copies (mi : Mountinfo) (P : CString → Prop) : Prop where
  root : P mi.root
  mountPoint : P mi.mountPoint
  mountOptions : P mi.mountOptions
  filesystem : ∀ s, mi.filesystem = some s → P s
  superOptions : ∀ s, mi.superOptions = some s → P s

section Copies

variable {P : CString → Prop} (hnil : P [])

include hnil

theorem lineword_of_forall {words : List CString} (h : ∀ s ∈ words, P s) (i : Nat) :
    P (lineword words i) := by
  rw [lineword, List.getD_eq_getElem?_getD]
  cases hi : words[i]? with
  | none => exact hnil
  | some s => exact h s (List.mem_of_getElem? hi)

theorem Mountinfo.Copies.readOptional {mi : Mountinfo} (h : mi.Copies P) {words : List CString}
    (hwords : ∀ s ∈ words, P s) : (mi.readOptional words).Copies P := by
  induction words generalizing mi with
  | nil => exact h
  | cons s words ih =>
      obtain ⟨-, hwords⟩ := List.forall_mem_cons.mp hwords
      rw [Mountinfo.readOptional]
      split
      · refine ⟨h.root, h.mountPoint, h.mountOptions, fun s hs => ?_, fun s hs => ?_⟩
        · rw [← Option.some.inj hs]
          exact lineword_of_forall hnil hwords 0
        · rw [← Option.some.inj hs]
          exact lineword_of_forall hnil hwords 2
      split
      · exact h
      · exact ih ⟨h.root, h.mountPoint, h.mountOptions, h.filesystem, h.superOptions⟩ hwords

/-- What is true of the words of a line is true of the strings that are copied from it. -/
theorem copies_readLine {words : List CString} (hwords : ∀ s ∈ words, P s) {mi : Mountinfo}
    (h : readLine words = some mi) : mi.Copies P := by
  rw [readLine] at h
  split at h
  · cases h
  split at h
  · cases h
  obtain rfl := Option.some.inj h
  have hword := lineword_of_forall hnil hwords
  have hfront (minor : CString) : (readFront words minor).Copies P :=
    ⟨hword 3, hword 4, hword 5, fun s hs => (Option.some_ne_none s hs.symm).elim,
      fun s hs => (Option.some_ne_none s hs.symm).elim⟩
  exact (hfront _).readOptional hnil fun s hs => hwords s (List.mem_of_mem_drop hs)

end Copies

end XMonitor.MountInfo
