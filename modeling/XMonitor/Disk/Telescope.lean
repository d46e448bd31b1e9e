import Mathlib.Data.List.Induction
import XMonitor.Disk.DiskStats

/-!
# The counters telescope

Between two appearances of a device its counters grow by the difference of the two
samples, so that their totals are the values of the kernel at the last appearance. A
device may be absent for any number of rounds.

The values pass through `double`, which holds every integer up to `2 ^ 53`. Beyond
that a total can miss the value of the kernel by rounding.
-/

namespace XMonitor.Disk

open scoped DoubleBuffer

/-- What the unit of a counter is: bytes are counted in sectors of the device. -/
def DiskCounter.scale (sectorSize : Int32) : DiskCounter → Int
  | readBytes => sectorSize.toInt
  | writesBytes => sectorSize.toInt
  | _ => 1

/-- The value of the kernel that a counter stands for. -/
def DiskCounter.kernelValue (c : DiskCounter) (sectorSize : Int32) (s : IoStats) : Int :=
  (c.field s).toNat * c.scale sectorSize

/-- The samples of a device that some lines state, in order. -/
def samples (name : CString) (lines : List Line) : List IoStats :=
  (lines.filter fun line => line.IsDevice ∧ line.devName = name).map Line.stats

/-- The kernel lists a device under one name and one number, and no two devices under
the same name or number. -/
def OneDevicePerName (lines : List Line) : Prop :=
  ∀ l ∈ lines, ∀ l' ∈ lines, l.IsDevice → l'.IsDevice →
    (l.devName = l'.devName ↔ l.major = l'.major ∧ l.minor = l'.minor)

/-- The kernel's counters of a device never decrease. -/
def NeverDecrease (lines : List Line) : Prop :=
  ∀ name, (samples name lines).Pairwise fun s s' => ∀ c : DiskCounter, c.field s ≤ c.field s'

theorem samples_append (name : CString) (past : List Line) (line : Line) :
    samples name (past ++ [line]) =
      samples name past ++ if line.IsDevice ∧ line.devName = name then [line.stats] else [] := by
  rw [samples, List.filter_append, List.map_append]
  congr 1
  by_cases h : line.IsDevice ∧ line.devName = name
  · simp [h]
  · rw [List.filter_cons_of_neg (by simpa using h), if_neg h]
    rfl

theorem OneDevicePerName.key_eq_iff {lines : List Line} (h : OneDevicePerName lines)
    {l l' : Line} (hl : l ∈ lines) (hl' : l' ∈ lines) (hdev : l.IsDevice)
    (hdev' : l'.IsDevice) :
    l.key = l'.key ↔ l.devName = l'.devName := by
  constructor
  · intro hkey
    injection hkey with hmajor hrest
    injection hrest with hminor
    exact (h l hl l' hl' hdev hdev').mpr ⟨hmajor, hminor⟩
  · intro hname
    obtain ⟨hmajor, hminor⟩ := (h l hl l' hl' hdev hdev').mp hname
    rw [Line.key, Line.key, hmajor, hminor, hname]

theorem NeverDecrease.le {lines past : List Line} {line : Line} {prev : IoStats}
    (h : NeverDecrease lines) (hpast : past ++ [line] <+: lines) (hline : line.IsDevice)
    (hprev : (samples line.devName past).getLast? = some prev) (c : DiskCounter) :
    c.field prev ≤ c.field line.stats := by
  obtain ⟨rest, rfl⟩ := hpast
  have hpair := h line.devName
  have hsplit : samples line.devName (past ++ [line] ++ rest) =
      samples line.devName past ++ [line.stats] ++ samples line.devName rest := by
    have hstep := samples_append line.devName past line
    rw [if_pos ⟨hline, rfl⟩] at hstep
    rw [← hstep, samples, List.filter_append, List.map_append]
    rfl
  rw [hsplit] at hpair
  have hpair' := (List.pairwise_append.mp hpair).1
  exact (List.pairwise_append.mp hpair').2.2 prev (List.mem_of_getLast? hprev) line.stats
    (List.mem_singleton_self line.stats) c

/-! ## What one line adds -/

theorem addedTo_append (c : DiskCounter) (name : CString) (adds adds' : List CounterAdd) :
    addedTo c name (adds ++ adds') = addedTo c name adds + addedTo c name adds' := by
  rw [addedTo, List.filter_append, List.map_append, List.sum_append]
  rfl

/-- Each counter is added to once. -/
theorem addedTo_addEach (c : DiskCounter) (name name' : CString) (value : DiskCounter → Nat) :
    addedTo c name (addEach name' value) = if name' = name then value c else 0 := by
  by_cases hname : name' = name
  · cases c <;> simp [addedTo, addEach, DiskCounter.all, hname]
  · cases c <;> simp [addedTo, addEach, DiskCounter.all, hname]

theorem total_collectLine {st : State} {line : Line} (hline : line.IsDevice) (c : DiskCounter)
    (name : CString) :
    (collectLine st line).total c name =
      st.total c name +
        addedTo c name (collectDevice (getDevice st.iodevList line).2 line).2.1 := by
  rw [collectLine, if_neg (Nat.not_lt.mpr hline)]
  exact addedTo_append c name st.added _

theorem computed_collectLine {st : State} {line : Line} (hline : line.IsDevice) :
    (collectLine st line).computed =
      st.computed ++ (collectDevice (getDevice st.iodevList line).2 line).2.2 := by
  rw [collectLine, if_neg (Nat.not_lt.mpr hline)]

/-! ## Values in `double` -/

theorem DiskCounter.toNat_factor {sectorSize : Int32} (h : 0 ≤ sectorSize.toInt)
    (c : DiskCounter) : ((c.factor sectorSize).toNat : Int) = c.scale sectorSize := by
  have hbytes : (sectorSize.toInt64.toUInt64.toNat : Int) = sectorSize.toInt := by
    have hint := Int64.toInt_toBitVec sectorSize.toInt64
    have hlt := sectorSize.toInt64.toBitVec.isLt
    rw [Int32.toInt_toInt64, BitVec.toInt_eq_toNat_cond] at hint
    change (sectorSize.toInt64.toBitVec.toNat : Int) = sectorSize.toInt
    split at hint <;> omega
  cases c with
  | readBytes => exact hbytes
  | writesBytes => exact hbytes
  | _ => rfl

/-- A product below the limit is passed on exactly. -/
theorem double_factor {sectorSize : Int32} (h : 0 ≤ sectorSize.toInt) (c : DiskCounter)
    {x : UInt64} (hx : x.toNat * c.scale sectorSize ≤ 2 ^ 53) :
    (doubleOfUInt64 (x * c.factor sectorSize) : Int) = x.toNat * c.scale sectorSize := by
  have hfactor := c.toNat_factor h
  rw [← hfactor] at hx ⊢
  have hbound : x.toNat * (c.factor sectorSize).toNat ≤ 2 ^ 53 := by exact_mod_cast hx
  have hmul : (x * c.factor sectorSize).toNat = x.toNat * (c.factor sectorSize).toNat := by
    rw [UInt64.toNat_mul]
    exact Nat.mod_eq_of_lt (by omega)
  rw [doubleOfUInt64_eq (hmul ▸ hbound), hmul, Int.natCast_mul]

/-! ## A device over its history -/

/-- The collector's view of a device whose last sample is the given one. -/
def Tracks (st : State) (name : CString) (key : UInt32 × UInt32 × UInt32) :
    Option IoStats → Prop
  | none => findDevice st.iodevList key = none ∧ ∀ c, st.total c name = 0
  | some s => ∃ dev, findDevice st.iodevList key = some dev ∧ dev.buffer.Valid ∧
      dev.buffer.last = some s ∧ 0 ≤ dev.sectorSize.toInt ∧
      ∀ c : DiskCounter, c.kernelValue dev.sectorSize s ≤ 2 ^ 53 →
        (st.total c name : Int) = c.kernelValue dev.sectorSize s

theorem sectorSize_newDevice (line : Line) : 0 ≤ (newDevice line).sectorSize.toInt := by
  change 0 ≤ (if line.sectorSize < 0 then kernelSectorSize else line.sectorSize).toInt
  split
  case isTrue => decide
  case isFalse h =>
    have hle : ¬line.sectorSize.toInt < (0 : Int32).toInt := fun hlt =>
      h (Int32.lt_iff_toInt_lt.mpr hlt)
    exact Int.not_lt.mp hle

/-- What a line leaves of its device: the statistics are its last sample, and the totals are those
of the kernel where these are small. -/
theorem tracks_collectLine {st : State} {line : Line} {dev : IoDevice} (hline : line.IsDevice)
    (hdev : (getDevice st.iodevList line).2 = dev) (hsize : 0 ≤ dev.sectorSize.toInt)
    (htotal : ∀ c : DiskCounter, c.kernelValue dev.sectorSize line.stats ≤ 2 ^ 53 →
      ((collectLine st line).total c line.devName : Int) =
        c.kernelValue dev.sectorSize line.stats) :
    Tracks (collectLine st line) line.devName line.key (some line.stats) := by
  refine ⟨(collectDevice dev line).1, ?_, ?_, ?_, ?_, ?_⟩
  · rw [findDevice_collectLine hline, if_pos rfl, hdev]
  · rw [buffer_collectDevice hline]
    exact DoubleBuffer.valid_push line.stats
  · rw [buffer_collectDevice hline]
    exact DoubleBuffer.last_push line.stats
  · rw [sectorSize_collectDevice]
    exact hsize
  · rw [sectorSize_collectDevice]
    exact htotal

theorem tracks_first {st : State} {line : Line} (hline : line.IsDevice)
    (h : Tracks st line.devName line.key none) :
    Tracks (collectLine st line) line.devName line.key (some line.stats) ∧
      (collectLine st line).computed = st.computed := by
  obtain ⟨hfind, htotal⟩ := h
  have hdev : (getDevice st.iodevList line).2 = newDevice line := by
    rw [getDevice, hfind]
  have hcollect : (collectDevice (newDevice line) line).2 =
      (firstAdds line.devName (newDevice line).sectorSize line.stats, []) :=
    collectDevice_first hline (last_newDevice line)
  refine ⟨tracks_collectLine hline hdev (sectorSize_newDevice line) fun c hc => ?_, ?_⟩
  · rw [total_collectLine hline, htotal, Nat.zero_add, hdev, hcollect, firstAdds, addedTo_addEach,
      if_pos rfl]
    exact double_factor (sectorSize_newDevice line) c hc
  · rw [computed_collectLine hline, hdev, hcollect, List.append_nil]

theorem kernelValue_mono {sectorSize : Int32} (h : 0 ≤ sectorSize.toInt) (c : DiskCounter)
    {s s' : IoStats} (hle : c.field s ≤ c.field s') :
    c.kernelValue sectorSize s ≤ c.kernelValue sectorSize s' := by
  have hscale : 0 ≤ c.scale sectorSize := by
    rw [← c.toNat_factor h]
    exact Int.natCast_nonneg _
  exact Int.mul_le_mul_of_nonneg_right (Int.ofNat_le.mpr hle) hscale

theorem tracks_next {st : State} {line : Line} {prev : IoStats} (hline : line.IsDevice)
    (hle : ∀ c : DiskCounter, c.field prev ≤ c.field line.stats)
    (h : Tracks st line.devName line.key (some prev)) :
    Tracks (collectLine st line) line.devName line.key (some line.stats) ∧
      (collectLine st line).computed =
        st.computed ++ [⟨line.devName, prev, line.stats⟩] := by
  obtain ⟨dev, hfind, hvalid, hlast, hsize, htotal⟩ := h
  have hdev : (getDevice st.iodevList line).2 = dev := by
    rw [getDevice, hfind]
  have hcollect := collectDevice_next hline hvalid hlast
  refine ⟨tracks_collectLine hline hdev hsize fun c hc => ?_, ?_⟩
  · have hmono := kernelValue_mono hsize c (hle c)
    have hdelta : ((c.field line.stats - c.field prev).toNat : Int) * c.scale dev.sectorSize =
        c.kernelValue dev.sectorSize line.stats - c.kernelValue dev.sectorSize prev := by
      have hnat : (c.field prev).toNat ≤ (c.field line.stats).toNat := hle c
      rw [UInt64.toNat_sub_of_le _ _ (hle c), Int.ofNat_sub hnat, Int.sub_mul]
      rfl
    have hprev : 0 ≤ c.kernelValue dev.sectorSize prev := by
      rw [← htotal c (Int.le_trans hmono hc)]
      exact Int.natCast_nonneg _
    rw [total_collectLine hline, hdev, hcollect, deltaAdds, addedTo_addEach, if_pos rfl,
      Int.natCast_add, htotal c (Int.le_trans hmono hc), double_factor hsize c (by omega), hdelta]
    omega
  · rw [computed_collectLine hline, hdev, hcollect]

/-- The lines of other devices leave a device alone. -/
theorem tracks_other {st : State} {line : Line} {name : CString}
    {key : UInt32 × UInt32 × UInt32} {last : Option IoStats} (hline : line.IsDevice)
    (hname : line.devName ≠ name) (hkey : key ≠ line.key) (h : Tracks st name key last) :
    Tracks (collectLine st line) name key last := by
  have hfind : findDevice (collectLine st line).iodevList key = findDevice st.iodevList key := by
    rw [findDevice_collectLine hline, if_neg hkey]
  have htotal : ∀ c, (collectLine st line).total c name = st.total c name := by
    intro c
    obtain ⟨value, hadds⟩ := exists_addEach (getDevice st.iodevList line).2 line
    rw [total_collectLine hline, hadds, addedTo_addEach, if_neg hname, Nat.add_zero]
  cases last with
  | none =>
      refine ⟨hfind.trans h.1, fun c => (htotal c).trans (h.2 c)⟩
  | some s =>
      obtain ⟨dev, hdev, hvalid, hlast, hsize, hvalue⟩ := h
      refine ⟨dev, hfind.trans hdev, hvalid, hlast, hsize, fun c hc => ?_⟩
      rw [htotal, hvalue c hc]

/-! ## Runs -/

/-- The collector's view of every device is right after any number of lines. -/
theorem tracks_foldl {lines : List Line} (hids : OneDevicePerName lines)
    (hmono : NeverDecrease lines) {past : List Line} (hpast : past <+: lines) {l : Line}
    (hl : l ∈ lines) (hdev : l.IsDevice) :
    Tracks (past.foldl collectLine {}) l.devName l.key (samples l.devName past).getLast? := by
  induction past using List.reverseRecOn with
  | nil => exact ⟨rfl, fun _ => rfl⟩
  | append_singleton past line ih =>
      have hprefix : past <+: lines := (List.prefix_append past [line]).trans hpast
      have hmem : line ∈ lines := hpast.subset (by simp)
      have hprev := ih hprefix
      rw [List.foldl_append, samples_append]
      change Tracks (collectLine (past.foldl collectLine {}) line) _ _ _
      by_cases hline : line.IsDevice
      · have hkey := hids.key_eq_iff hl hmem hdev hline
        by_cases hname : line.devName = l.devName
        · rw [if_pos ⟨hline, hname⟩, List.getLast?_append, List.getLast?_singleton,
            Option.some_or]
          rw [← hname] at hprev ⊢
          rw [hkey.mpr hname.symm] at hprev ⊢
          cases hlast : (samples line.devName past).getLast? with
          | none =>
              rw [hlast] at hprev
              exact (tracks_first hline hprev).1
          | some prev =>
              rw [hlast] at hprev
              exact (tracks_next hline (hmono.le hpast hline hlast) hprev).1
        · rw [if_neg fun h => hname h.2, List.append_nil]
          exact tracks_other hline hname (fun h => hname (hkey.mp h).symm) hprev
      · rw [if_neg fun h => hline h.1, List.append_nil, collectLine,
          if_pos (Nat.not_le.mp hline)]
        exact hprev

/-- At every computation the previous sample is the one of the device's previous
appearance, and every total that fits a `double` is the value of the kernel. -/
theorem counters_telescope (rounds : List (List Line)) (hids : OneDevicePerName rounds.flatten)
    (hmono : NeverDecrease rounds.flatten) :
    (∀ past line, past ++ [line] <+: rounds.flatten → line.IsDevice →
      (collectLine (past.foldl collectLine {}) line).computed =
        (past.foldl collectLine {}).computed ++
          ((samples line.devName past).getLast?.map fun prev =>
            (⟨line.devName, prev, line.stats⟩ : Computation)).toList) ∧
    ∀ line ∈ rounds.flatten, line.IsDevice →
      ∀ s, (samples line.devName rounds.flatten).getLast? = some s →
        ∃ dev, findDevice (run rounds).iodevList line.key = some dev ∧
          ∀ c : DiskCounter, c.kernelValue dev.sectorSize s ≤ 2 ^ 53 →
            ((run rounds).total c line.devName : Int) = c.kernelValue dev.sectorSize s := by
  refine ⟨fun past line hpast hline => ?_, fun line hmem hline s hs => ?_⟩
  · have hprefix : past <+: rounds.flatten := (List.prefix_append past [line]).trans hpast
    have htracks := tracks_foldl hids hmono hprefix (hpast.subset (by simp)) hline
    cases hlast : (samples line.devName past).getLast? with
    | none =>
        rw [hlast] at htracks
        rw [(tracks_first hline htracks).2]
        exact (List.append_nil _).symm
    | some prev =>
        rw [hlast] at htracks
        exact (tracks_next hline (hmono.le hpast hline hlast) htracks).2
  · have htracks := tracks_foldl hids hmono (List.prefix_refl _) hmem hline
    rw [hs, ← run_eq_foldl] at htracks
    obtain ⟨dev, hfind, -, -, -, htotal⟩ := htracks
    exact ⟨dev, hfind, htotal⟩

/-- The line of a disk `sda` with some numbers of completed reads and sectors read. -/
def sdaLine (reads sectors : CString) : Line where
  words := [['8'], ['0'], ['s', 'd', 'a'], reads, ['0'], sectors, ['0'], ['0'], ['0'], ['0'],
    ['0'], ['0'], ['0'], ['0']]
  sectorSize := 512

theorem rdIos_sdaLine (reads sectors : CString) :
    (sdaLine reads sectors).stats.rdIos = str2uint64 reads := rfl

theorem total_sdaLine (reads sectors : CString) :
    (run [[sdaLine reads sectors]]).total .readsCompleted ['s', 'd', 'a'] =
      doubleOfUInt64 (sdaLine reads sectors).stats.rdIos := by
  have hline : (sdaLine reads sectors).IsDevice := Nat.le_refl 14
  have hcollect : (collectDevice (newDevice (sdaLine reads sectors)) (sdaLine reads sectors)).2 =
      (firstAdds ['s', 'd', 'a'] 512 (sdaLine reads sectors).stats, []) :=
    collectDevice_first hline (last_newDevice _)
  change addedTo .readsCompleted _
    (collectDevice (newDevice (sdaLine reads sectors)) (sdaLine reads sectors)).2.1 = _
  rw [hcollect, firstAdds, addedTo_addEach]
  exact congrArg doubleOfUInt64 (UInt64.mul_one _)

theorem counters_telescope_sda :
    ∃ dev, findDevice (run [[sdaLine ['5'] ['9']], [], [sdaLine ['7'] ['9', '9']]]).iodevList
        (sdaLine ['7'] ['9', '9']).key = some dev ∧
      ((run [[sdaLine ['5'] ['9']], [], [sdaLine ['7'] ['9', '9']]]).total .readBytes
        ['s', 'd', 'a'] : Int) = 99 * dev.sectorSize.toInt := by
  have hids : OneDevicePerName
      [[sdaLine ['5'] ['9']], [], [sdaLine ['7'] ['9', '9']]].flatten := by
    intro l hl l' hl' _ _
    have hname : ∀ l ∈ [sdaLine ['5'] ['9'], sdaLine ['7'] ['9', '9']],
        l.devName = ['s', 'd', 'a'] ∧ l.major = 8 ∧ l.minor = 0 := by decide
    obtain ⟨hn, hmajor, hminor⟩ := hname l hl
    obtain ⟨hn', hmajor', hminor'⟩ := hname l' hl'
    simp [hn, hmajor, hminor, hn', hmajor', hminor']
  have hmono : NeverDecrease [[sdaLine ['5'] ['9']], [], [sdaLine ['7'] ['9', '9']]].flatten := by
    intro name
    by_cases hname : ['s', 'd', 'a'] = name
    · subst hname
      have hle : ∀ c ∈ DiskCounter.all,
          c.field (sdaLine ['5'] ['9']).stats ≤ c.field (sdaLine ['7'] ['9', '9']).stats := by
        decide
      have hall : ∀ c : DiskCounter, c ∈ DiskCounter.all := by
        intro c
        cases c <;> decide
      exact List.pairwise_pair.mpr fun c => hle c (hall c)
    · have hnone : samples name [sdaLine ['5'] ['9'], sdaLine ['7'] ['9', '9']] = [] := by
        simp [samples, Line.devName, sdaLine, lineword, hname]
      change (samples name [sdaLine ['5'] ['9'], sdaLine ['7'] ['9', '9']]).Pairwise _
      rw [hnone]
      exact List.Pairwise.nil
  obtain ⟨dev, hfind, htotal⟩ := (counters_telescope _ hids hmono).2 (sdaLine ['7'] ['9', '9'])
    (by simp) (by decide) (sdaLine ['7'] ['9', '9']).stats rfl
  refine ⟨dev, hfind, ?_⟩
  have hdev : dev.sectorSize = 512 := by
    cases hfind
    rfl
  refine (htotal .readBytes ?_).trans ?_
  · rw [hdev]
    decide
  · rw [hdev]
    rfl

/-- A disk that has completed `2 ^ 53 + 1` reads when it first appears. -/
theorem counters_inexact :
    ¬∀ rounds : List (List Line), OneDevicePerName rounds.flatten →
      NeverDecrease rounds.flatten → ∀ line ∈ rounds.flatten, line.IsDevice →
      ∀ s, (samples line.devName rounds.flatten).getLast? = some s →
        ∃ dev, findDevice (run rounds).iodevList line.key = some dev ∧
          ∀ c : DiskCounter,
            ((run rounds).total c line.devName : Int) = c.kernelValue dev.sectorSize s := by
  intro h
  let busy := sdaLine (Nat.toDigits 10 (2 ^ 53 + 1)) ['0']
  have hids : OneDevicePerName [[busy]].flatten := by
    intro l hl l' hl' _ _
    obtain rfl := List.mem_singleton.mp hl
    obtain rfl := List.mem_singleton.mp hl'
    simp
  have hmono : NeverDecrease [[busy]].flatten := by
    intro name
    by_cases hname : busy.IsDevice ∧ busy.devName = name
    · rw [show samples name [[busy]].flatten = [busy.stats] by simp [samples, hname]]
      exact List.pairwise_singleton _ _
    · rw [show samples name [[busy]].flatten = [] by simpa [samples] using hname]
      exact List.Pairwise.nil
  obtain ⟨dev, -, htotal⟩ := h [[busy]] hids hmono busy (List.mem_singleton_self busy)
    (by decide) busy.stats rfl
  have hreads : busy.stats.rdIos = UInt64.ofNat (2 ^ 53 + 1) :=
    (rdIos_sdaLine _ _).trans (str2uint64_toDigits (2 ^ 53 + 1))
  have hadded : (run [[busy]]).total .readsCompleted busy.devName =
      doubleOfUInt64 (UInt64.ofNat (2 ^ 53 + 1)) := by
    rw [← hreads]
    exact total_sdaLine _ _
  have hexact := htotal .readsCompleted
  rw [hadded, DiskCounter.kernelValue, DiskCounter.field, hreads] at hexact
  change (doubleOfUInt64 (UInt64.ofNat (2 ^ 53 + 1)) : Int) =
    (UInt64.ofNat (2 ^ 53 + 1)).toNat * 1 at hexact
  exact absurd hexact (by decide)

end XMonitor.Disk
