import XMonitor.Cgroups.CpuRuns

/-!
# The lines of `cpu.stat`

The kernel prints a key and a value on each line. Version 1 reads the value of a counter from the
last line that begins with its key, and version 2 from a fixed line. Both count one line more than
the file has, which is the empty one behind the last newline.
-/

namespace XMonitor.Cgroups

open Procfile

/-- A line with a key and its value. -/
structure StatLine where
  key : List UInt8
  value : UInt64
  nonempty : key ≠ []
  isWord : ∀ c ∈ key, cpuTypes c = .isWord

def StatLine.name (l : StatLine) : CString := cString l.key

/-- The text of a file with some lines. -/
def statText (lines : List StatLine) : List UInt8 :=
  lines.flatMap fun l => lineText [(l.key, 32)] (decimal l.value.toNat)

/-- The words of a line. -/
def StatLine.words (l : StatLine) : List CString := [l.name, Nat.toDigits 10 l.value.toNat]

theorem cpuTypes_decimal {c : UInt8} (h : 48 ≤ c ∧ c ≤ 57) : cpuTypes c = .isWord := by
  have hge : 48 ≤ c.toNat := h.1
  have hle : c.toNat ≤ 57 := h.2
  refine procfileSetSeparators_of_notMem ?_ (by omega) (by omega)
  simp only [Option.getD_none, defaultSeps, List.mem_cons, List.not_mem_nil, or_false, not_or]
  refine ⟨?_, ?_, ?_, ?_⟩
  all_goals
    rintro rfl
    revert h
    decide

theorem cpuTypes_of_mem_decimal {n : Nat} : ∀ c ∈ decimal n, cpuTypes c = .isWord :=
  fun _ hc => cpuTypes_decimal (digit_of_mem_decimal hc)

theorem StatLine.plain (l : StatLine) :
    Plain cpuTypes [(l.key, 32)] (decimal l.value.toNat) where
  newline := rfl
  nonempty := List.forall_mem_singleton.mpr l.nonempty
  words := List.forall_mem_singleton.mpr l.isWord
  separators := List.forall_mem_singleton.mpr rfl
  last := cpuTypes_of_mem_decimal

/-- What the parser makes of a file. -/
theorem fileLines_statText (lines : List StatLine) :
    fileLines cpuTypes (statText lines) = lines.map StatLine.words ++ [[]] := by
  rw [fileLines, statText, splitLines_of_plain lines _ _ fun l _ => l.plain, List.map_append,
    List.map_map]
  congr 1
  refine List.map_congr_left fun l _ => ?_
  exact congrArg (fun w => [l.name, w]) (cString_decimal l.value.toNat)

theorem length_fileLines_statText (lines : List StatLine) :
    (fileLines cpuTypes (statText lines)).length = lines.length + 1 := by
  rw [fileLines_statText, List.length_append, List.length_map]
  rfl

theorem str2uint64_value (l : StatLine) : str2uint64 (lineword l.words 1) = l.value := by
  change str2uint64 (Nat.toDigits 10 l.value.toNat) = l.value
  rw [str2uint64_toDigits, UInt64.ofNat_toNat]

/-! ## Keys -/

/-- The value of the last line with some property. -/
def lastValue (p : StatLine → Prop) [DecidablePred p] (lines : List StatLine) : Option UInt64 :=
  (lines.filter p).getLast?.map StatLine.value

theorem lastValue_concat (p : StatLine → Prop) [DecidablePred p] (lines : List StatLine)
    (l : StatLine) :
    lastValue p (lines ++ [l]) = if p l then some l.value else lastValue p lines := by
  rw [lastValue, List.filter_append]
  split
  case isTrue h =>
    have hone : [l].filter (fun l => p l) = [l] := by simp [h]
    rw [hone, List.getLast?_concat, Option.map_some]
  case isFalse h =>
    have hnone : [l].filter (fun l => p l) = [] := by simp [h]
    rw [hnone, List.append_nil, lastValue]

/-- No key begins another one, and no two have the same value. -/
structure KeysApart {α : Type} (keys : List (String × α)) : Prop where
  prefix_eq : ∀ a ∈ keys, ∀ b ∈ keys, a.1.toList <+: b.1.toList → a = b
  value_eq : ∀ a ∈ keys, ∀ b ∈ keys, a.2 = b.2 → a = b
  nonempty : ∀ a ∈ keys, a.1.toList ≠ []

section Keys

variable {α : Type} [DecidableEq α] {keys : List (String × α)} {key : String × α}

/-- A line gives the value of a key that its first word begins with. -/
theorem KeysApart.readKey (h : KeysApart keys) (hkey : key ∈ keys) (values : α → UInt64)
    (line : List CString) :
    readKey keys values line key.2 =
      if key.1.toList <+: lineword line 0 then str2uint64 (lineword line 1) else values key.2 := by
  unfold Cgroups.readKey
  cases hfind : keys.find? fun key => key.1.toList <+: lineword line 0 with
  | none =>
      have hnot := List.find?_eq_none.mp hfind key hkey
      rw [if_neg fun hbegins => hnot (decide_eq_true hbegins)]
  | some found =>
      have hfound : found.1.toList <+: lineword line 0 := by
        have hsome := List.find?_some hfind
        exact of_decide_eq_true hsome
      have hmem := List.mem_of_find?_eq_some hfind
      dsimp only
      by_cases heq : key = found
      · rw [heq, if_pos hfound, Function.update_self]
      · have hnot : ¬key.1.toList <+: lineword line 0 := by
          intro hbegins
          obtain hprefix | hprefix := List.prefix_or_prefix_of_prefix hbegins hfound
          · exact heq (h.prefix_eq key hkey found hmem hprefix)
          · exact heq (h.prefix_eq found hmem key hkey hprefix).symm
        rw [if_neg hnot,
          Function.update_of_ne fun hvalue => heq (h.value_eq key hkey found hmem hvalue)]

/-- All lines together give the value of the last one that begins with a key. -/
theorem KeysApart.readKeys (h : KeysApart keys) (hkey : key ∈ keys) (lines : List StatLine) :
    readKeys keys (fileLines cpuTypes (statText lines)) key.2 =
      (lastValue (fun l => key.1.toList <+: l.name) lines).getD 0 := by
  have hempty : ¬key.1.toList <+: lineword [] 0 :=
    fun hprefix => h.nonempty key hkey (List.prefix_nil.mp hprefix)
  rw [fileLines_statText, Cgroups.readKeys, List.foldl_append]
  refine (h.readKey hkey _ []).trans ?_
  rw [if_neg hempty]
  induction lines using List.reverseRecOn with
  | nil => rfl
  | append_singleton lines l ih =>
      rw [List.map_append, List.foldl_append, lastValue_concat]
      refine (h.readKey hkey _ l.words).trans ?_
      rw [str2uint64_value, ih]
      change (if key.1.toList <+: l.name then _ else _) = _
      split
      · rfl
      · rfl

end Keys

theorem keysApart_cpuStatV1 : KeysApart cpuStatV1Keys where
  prefix_eq := by decide
  value_eq := by decide
  nonempty := by decide

/-! ## Values -/

/-- The counters from `cpu.stat`, with what they remember. -/
def cpuStatSets : CgType → List (CpuMetric × CpuCounter)
  | .v1 => cpuStatV1
  | .v2 => cpuStatV2

/-- The key that a counter stands for. -/
def cpuStatKey (cgType : CgType) : CpuCounter → String
  | .cpuStatNrPeriods => "nr_periods"
  | .cpuStatNrThrottled => "nr_throttled"
  | .cpuStatThrottledTime =>
      match cgType with
      | .v1 => "throttled_time"
      | .v2 => "throttled_usec"
  | .cpuStatUsageTime => "usage_usec"
  | .cpuStatUsageUserTime => "user_usec"
  | .cpuStatUsageSystemTime => "system_usec"

/-- The value of a counter's key in a file, which is that of the last line if it has several. -/
def valueOf (cgType : CgType) (lines : List StatLine) (c : CpuCounter) : Option UInt64 :=
  lastValue (fun l => l.name = (cpuStatKey cgType c).toList) lines

/-- The value that stands where a collection looks for that of a counter. -/
def valueAt (cgType : CgType) (lines : List StatLine) (c : CpuCounter) : Option UInt64 :=
  match cgType with
  | .v1 => lastValue (fun l => (cpuStatKey .v1 c).toList <+: l.name) lines
  | .v2 => lines[cpuStatV2Line c]?.map StatLine.value

/-- A file has fewer lines than a collection asks for. -/
def TooShort (cgType : CgType) (lines : List StatLine) : Prop :=
  match cgType with
  | .v1 => lines.length < 2
  | .v2 => lines.length < 5

instance : (cgType : CgType) → (lines : List StatLine) → Decidable (TooShort cgType lines)
  | .v1, lines => inferInstanceAs (Decidable (lines.length < 2))
  | .v2, lines => inferInstanceAs (Decidable (lines.length < 5))

end XMonitor.Cgroups
