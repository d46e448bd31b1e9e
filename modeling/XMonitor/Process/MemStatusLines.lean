import Mathlib.Data.List.Perm.Subperm
import XMonitor.Process.MemStatus

/-!
# Which lines of a status file are read

A round of the scanner takes one line, and the next one with it if its number is followed by the
newline. So the fields are set from the lines that are not passed over.
-/

namespace XMonitor.Process

open Procfile Smaps

/-! ## One round -/

theorem isDigit_of_mem_decimal {n : Nat} {c : UInt8} (h : c ∈ decimal n) : isDigit c :=
  decide_eq_true (digit_of_mem_decimal h)

/-- What follows a number does not begin with a digit. -/
def EndsNumber (rest : List UInt8) : Prop := ∀ c, rest.head? = some c → isDigit c = false

theorem takeWhile_decimal (n : Nat) {rest : List UInt8} (h : EndsNumber rest) :
    (decimal n ++ rest).takeWhile isDigit = decimal n := by
  rw [List.takeWhile_append_of_pos fun c hc => isDigit_of_mem_decimal hc]
  cases rest with
  | nil => rw [List.takeWhile_nil, List.append_nil]
  | cons c rest =>
      have hc := h c rfl
      rw [List.takeWhile_cons_of_neg (by rw [hc]; exact Bool.false_ne_true), List.append_nil]

theorem dropWhile_decimal (n : Nat) {rest : List UInt8} (h : EndsNumber rest) :
    (decimal n ++ rest).dropWhile isDigit = rest := by
  rw [List.dropWhile_append_of_pos fun c hc => isDigit_of_mem_decimal hc]
  cases rest with
  | nil => rfl
  | cons c rest =>
      have hc := h c rfl
      rw [List.dropWhile_cons_of_neg (by rw [hc]; exact Bool.false_ne_true)]

theorem dropWhile_blanks {blanks : List UInt8} (h : ∀ c ∈ blanks, isBlank c) (n : Nat)
    (rest : List UInt8) :
    (blanks ++ (decimal n ++ rest)).dropWhile isBlank = decimal n ++ rest := by
  rw [List.dropWhile_append_of_pos h]
  cases hdigits : decimal n with
  | nil => exact absurd hdigits (decimal_ne_nil n)
  | cons c digits =>
      obtain ⟨hge, -⟩ := digit_of_mem_decimal (hdigits ▸ List.mem_cons_self : c ∈ decimal n)
      have hblank : ¬isBlank c := by
        intro hc
        obtain rfl | rfl := of_decide_eq_true hc
        all_goals exact absurd hge (by decide)
      rw [List.cons_append, List.dropWhile_cons_of_neg hblank]

/-- The rest of a line is dropped, with its newline. -/
theorem drop_line {bytes : List UInt8} (h : ∀ c ∈ bytes, c ≠ 10) (rest : List UInt8) :
    ((bytes ++ 10 :: rest).dropWhile fun c => c ≠ 10).drop 1 = rest := by
  rw [List.dropWhile_append_of_pos fun c hc => decide_eq_true (h c hc),
    List.dropWhile_cons_of_neg (by decide)]
  rfl

theorem str2uint64_decimal (n : UInt64) : str2uint64 (cString (decimal n.toNat)) = n := by
  rw [cString_decimal, str2uint64_toDigits, UInt64.ofNat_toNat]

theorem find_tag (field : StatusField) (rest : List UInt8) :
    (StatusField.all.find? fun field' => field'.tag <+: field.tag ++ rest) = some field := by
  cases field
  all_goals rfl

theorem drop_tag (field : StatusField) (rest : List UInt8) :
    (field.tag ++ rest).drop field.tag.length = rest :=
  List.drop_left

namespace StatusLine

theorem bytes_ne (l : StatusLine) : ∀ c ∈ l.bytes, c ≠ 0 ∧ c ≠ 10 := by
  cases l with
  | untagged line => exact line.text
  | tagged line =>
      have htag : ∀ c ∈ line.field.tag, c ≠ 0 ∧ c ≠ 10 := by
        cases line.field
        all_goals decide
      have hdecimal : ∀ c ∈ decimal line.value.toNat, c ≠ 0 ∧ c ≠ 10 := by
        intro c hc
        have hge := (digit_of_mem_decimal hc).1
        constructor
        all_goals
          rintro rfl
          exact absurd hge (by decide)
      have hblanks : ∀ c ∈ line.blanks, c ≠ 0 ∧ c ≠ 10 := by
        intro c hc
        obtain rfl | rfl := of_decide_eq_true (line.blanks_isBlank c hc)
        all_goals decide
      have hunit : ∀ c ∈ (if line.hasUnit then ascii " kB" else []), c ≠ 0 ∧ c ≠ 10 := by
        cases line.hasUnit
        all_goals decide
      exact List.forall_mem_append.mpr ⟨htag, List.forall_mem_append.mpr
        ⟨hblanks, List.forall_mem_append.mpr ⟨hdecimal, hunit⟩⟩⟩

/-- What a line that is read sets. -/
def set (fields : StatusField → UInt64) : StatusLine → StatusField → UInt64
  | tagged line => Function.update fields line.field line.value
  | untagged _ => fields

/-- The number of tags that it adds. -/
def found : StatusLine → Nat
  | tagged _ => 1
  | untagged _ => 0

end StatusLine

theorem statusText_cons (l : StatusLine) (lines : List StatusLine) :
    statusText (l :: lines) = l.bytes ++ 10 :: statusText lines := by
  rw [statusText, List.flatMap_cons, List.append_assoc]
  rfl

/-- A tag does not go beyond its line. -/
theorem tag_prefix_of_line {field : StatusField} {bytes rest : List UInt8}
    (h : field.tag <+: bytes ++ 10 :: rest) : field.tag <+: bytes := by
  have htag : 10 ∉ field.tag := by
    cases field
    all_goals decide
  obtain hle | ⟨t, ht⟩ := List.prefix_or_prefix_of_prefix h (List.prefix_append bytes _)
  · exact hle
  · rw [← ht] at h htag ⊢
    cases t with
    | nil => rw [List.append_nil]
    | cons c t =>
        obtain ⟨more, hmore⟩ := (List.prefix_append_right_inj bytes).mp h
        obtain rfl := (List.cons.inj hmore).1
        exact absurd (List.mem_append_right bytes List.mem_cons_self) htag

/-- Behind a bare number, the scanner is at the start of the next line. -/
theorem drop_next_line (lines : List StatusLine) :
    ((statusText lines).dropWhile fun c => c ≠ 10).drop 1 = statusText (lines.drop 1) := by
  cases lines with
  | nil => rfl
  | cons l lines =>
      rw [statusText_cons, drop_line fun c hc => (l.bytes_ne c hc).2]
      rfl

/-- A round behind a newline takes one line, and the next one behind a bare number. -/
theorem statusRound_text (scan : StatusScan) (l : StatusLine) (lines : List StatusLine) :
    statusRound scan (statusText (l :: lines)) =
      ({ fields := l.set scan.fields, numFound := scan.numFound + l.found },
        statusText (if l.isBare then lines.drop 1 else lines)) := by
  rw [statusText_cons]
  cases l with
  | untagged line =>
      have hfind : (StatusField.all.find? fun field =>
          field.tag <+: line.bytes ++ 10 :: statusText lines) = none := by
        refine List.find?_eq_none.mpr fun field _ hfield => ?_
        exact line.untagged field (tag_prefix_of_line (of_decide_eq_true hfield))
      have hdrop := drop_line (fun c hc => (line.text c hc).2) (statusText lines)
      rw [StatusLine.bytes, statusRound, hfind]
      exact congrArg (Prod.mk _) hdrop
  | tagged line =>
      obtain ⟨back, hback⟩ : ∃ back, back = (if line.hasUnit then ascii " kB" else []) ++
        10 :: statusText lines := ⟨_, rfl⟩
      have hbytes : (StatusLine.tagged line).bytes ++ 10 :: statusText lines =
          line.field.tag ++ (line.blanks ++ (decimal line.value.toNat ++ back)) := by
        rw [StatusLine.bytes, hback]
        simp only [List.append_assoc]
      have hends : EndsNumber back := by
        intro c hc
        rw [hback] at hc
        cases hunit : line.hasUnit with
        | false =>
            rw [hunit] at hc
            obtain rfl : 10 = c := Option.some.inj hc
            rfl
        | true =>
            rw [hunit] at hc
            obtain rfl : 32 = c := Option.some.inj hc
            rfl
      have hrest : ((back.drop 1).dropWhile fun c => c ≠ 10).drop 1 =
          statusText (if (StatusLine.tagged line).isBare then lines.drop 1 else lines) := by
        rw [hback, StatusLine.isBare]
        cases line.hasUnit with
        | false => exact drop_next_line lines
        | true => rfl
      rw [hbytes, statusRound, find_tag]
      simp only [drop_tag, dropWhile_blanks line.blanks_isBlank, takeWhile_decimal _ hends,
        dropWhile_decimal _ hends, str2uint64_decimal, hrest]
      rfl

/-! ## All rounds -/

theorem readLines_true (lines : List StatusLine) :
    readLines true lines = readLines false (lines.drop 1) := by
  cases lines with
  | nil => rfl
  | cons l lines => rfl

/-- The number of lines with a tag. -/
def tagCount (lines : List StatusLine) : Nat := (lines.filterMap StatusLine.field?).length

theorem tagCount_cons (l : StatusLine) (lines : List StatusLine) :
    tagCount (l :: lines) = l.found + tagCount lines := by
  cases l with
  | tagged line => exact Nat.add_comm _ 1
  | untagged line => exact (Nat.zero_add _).symm

theorem tagCount_drop_le (lines : List StatusLine) : tagCount (lines.drop 1) ≤ tagCount lines := by
  cases lines with
  | nil => exact Nat.le_refl _
  | cons l lines =>
      rw [tagCount_cons]
      exact Nat.le_add_left _ _

theorem length_drop_le (lines : List StatusLine) :
    (statusText (lines.drop 1)).length ≤ (statusText lines).length := by
  cases lines with
  | nil => exact Nat.le_refl _
  | cons l lines =>
      rw [statusText_cons, List.length_append, List.length_cons]
      exact Nat.le_trans (Nat.le_succ _) (Nat.le_add_left _ _)

theorem set_of_found {l : StatusLine} (h : l.found = 0) (fields : StatusField → UInt64) :
    l.set fields = fields := by
  cases l with
  | tagged line => exact absurd h Nat.one_ne_zero
  | untagged line => rfl

/-- Without tags, nothing is set. -/
theorem foldl_readLines_of_tagCount {lines : List StatusLine} (h : tagCount lines = 0) :
    ∀ (skip : Bool) (fields : StatusField → UInt64),
      (readLines skip lines).foldl (fun fields l => l.set fields) fields = fields := by
  induction lines with
  | nil =>
      intro skip fields
      cases skip
      all_goals rfl
  | cons l lines ih =>
      intro skip fields
      rw [tagCount_cons] at h
      obtain ⟨hl, hlines⟩ := Nat.add_eq_zero_iff.mp h
      cases skip with
      | true => exact ih hlines false fields
      | false =>
          rw [readLines, List.foldl_cons, set_of_found hl]
          exact ih hlines _ fields

/-- The loop sets the fields from the lines that it reads. When it ends because it has found all
tags, no line that is left has one. -/
theorem statusLoop_text {n : Nat} (scan : StatusScan) {lines : List StatusLine}
    (hn : (statusText lines).length ≤ n)
    (hfound : scan.numFound + tagCount lines ≤ StatusField.all.length) :
    (statusLoop n scan (statusText lines)).fields =
      (readLines false lines).foldl (fun fields l => l.set fields) scan.fields := by
  induction n generalizing scan lines with
  | zero =>
      cases lines with
      | nil => rfl
      | cons l lines =>
          rw [statusText_cons, List.length_append, List.length_cons] at hn
          omega
  | succ n ih =>
      cases lines with
      | nil => rfl
      | cons l lines =>
          have hne : statusText (l :: lines) ≠ [] := by
            rw [statusText_cons]
            exact List.append_ne_nil_of_right_ne_nil _ (List.cons_ne_nil _ _)
          rw [statusLoop]
          split
          · rw [statusRound_text, readLines, List.foldl_cons]
            rw [tagCount_cons] at hfound
            have hdrop := tagCount_drop_le lines
            rw [statusText_cons, List.length_append, List.length_cons] at hn
            have hlen := length_drop_le lines
            cases l.isBare with
            | true =>
                rw [readLines_true]
                exact ih _ (show (statusText (lines.drop 1)).length ≤ n by omega)
                  (show scan.numFound + l.found + tagCount (lines.drop 1) ≤ _ by omega)
            | false =>
                exact ih _ (show (statusText lines).length ≤ n by omega)
                  (show scan.numFound + l.found + tagCount lines ≤ _ by omega)
          · rename_i hend
            have hzero : tagCount (l :: lines) = 0 := by
              have hall := not_and.mp hend hne
              omega
            rw [foldl_readLines_of_tagCount hzero]

/-! ## What the fields are -/

/-- Every line is read or passed over. -/
theorem perm_readLines (skip : Bool) (lines : List StatusLine) :
    lines.Perm (readLines skip lines ++ passedOver skip lines) := by
  induction lines generalizing skip with
  | nil =>
      cases skip
      all_goals exact .refl _
  | cons l lines ih =>
      cases skip with
      | true => exact ((ih false).cons l).trans List.perm_middle.symm
      | false => exact (ih l.isBare).cons l

/-- Each tag is on at most one line. -/
def DistinctTags (lines : List StatusLine) : Prop := (lines.filterMap StatusLine.field?).Nodup

instance : DecidablePred DistinctTags := fun _ => inferInstanceAs (Decidable (List.Nodup _))

theorem set_of_ne {l : StatusLine} {field : StatusField} (h : l.field? ≠ some field)
    (fields : StatusField → UInt64) : l.set fields field = fields field := by
  cases l with
  | untagged line => rfl
  | tagged line =>
      refine Function.update_of_ne (fun heq => h ?_) _ _
      rw [heq]
      rfl

theorem foldl_set_of_notMem {lines : List StatusLine} {field : StatusField}
    (h : field ∉ lines.filterMap StatusLine.field?) (fields : StatusField → UInt64) :
    lines.foldl (fun fields l => l.set fields) fields field = fields field := by
  induction lines generalizing fields with
  | nil => rfl
  | cons l lines ih =>
      have hl : l.field? ≠ some field := fun heq =>
        h (List.mem_filterMap.mpr ⟨l, List.mem_cons_self, heq⟩)
      have hlines : field ∉ lines.filterMap StatusLine.field? := fun hmem => by
        obtain ⟨l', hl', heq⟩ := List.mem_filterMap.mp hmem
        exact h (List.mem_filterMap.mpr ⟨l', List.mem_cons_of_mem l hl', heq⟩)
      rw [List.foldl_cons, ih hlines, set_of_ne hl]

theorem foldl_set_of_mem {lines : List StatusLine} (h : DistinctTags lines) {line : TaggedLine}
    (hmem : .tagged line ∈ lines) (fields : StatusField → UInt64) :
    lines.foldl (fun fields l => l.set fields) fields line.field = line.value := by
  obtain ⟨front, back, rfl⟩ := List.append_of_mem hmem
  have hback : line.field ∉ back.filterMap StatusLine.field? := by
    rw [DistinctTags, List.filterMap_append] at h
    exact (List.nodup_cons.mp (List.nodup_append.mp h).2.1).1
  rw [List.foldl_append, List.foldl_cons, foldl_set_of_notMem hback]
  exact Function.update_self ..

theorem DistinctTags.append {lines : List StatusLine} (h : DistinctTags lines) (skip : Bool) :
    DistinctTags (readLines skip lines) ∧ ∀ line : TaggedLine,
      .tagged line ∈ passedOver skip lines →
        line.field ∉ (readLines skip lines).filterMap StatusLine.field? := by
  have hperm := (perm_readLines skip lines).filterMap StatusLine.field?
  have hnodup := hperm.nodup_iff.mp h
  rw [List.filterMap_append, List.nodup_append] at hnodup
  refine ⟨hnodup.1, fun line hline hmem => ?_⟩
  exact hnodup.2.2 _ hmem _ (List.mem_filterMap.mpr ⟨_, hline, rfl⟩) rfl

/-- There are no more lines with distinct tags than tags. -/
theorem DistinctTags.tagCount_le {lines : List StatusLine} (h : DistinctTags lines) :
    tagCount lines ≤ StatusField.all.length := by
  refine (List.subperm_of_subset h fun field _ => ?_).length_le
  cases field
  all_goals decide

/-- What a successful call finds: the sums have been read, the status file is open or can be
opened, and its text is shorter than the buffer and has every tag at most once. -/
structure ReadsStatus (ps : MemStatus) (smapsCalls : SmapsCalls) (openStatus : Int32)
    (lines : List StatusLine) : Prop where
  pid : ¬ps.pid ≤ 0
  smaps : (getMssFromSmaps ps.smaps.clear smapsCalls).2 = 0
  opened : ps.memStatusFd ≤ 0 → ¬openStatus < 0
  short : (statusText lines).length < 4096
  distinct : DistinctTags lines

theorem statusText_ne_zero (lines : List StatusLine) : ∀ c ∈ statusText lines, c ≠ 0 := by
  intro c hc
  obtain ⟨l, -, hc⟩ := List.mem_flatMap.mp hc
  obtain hc | hc := List.mem_append.mp hc
  · exact (l.bytes_ne c hc).1
  · rw [List.mem_singleton.mp hc]
    decide

/-- The fields behind a call. -/
theorem fields_collect {ps : MemStatus} {smapsCalls : SmapsCalls} {openStatus : Int32}
    {lines : List StatusLine} (h : ReadsStatus ps smapsCalls openStatus lines) :
    (collectorProcessMemUsage ps smapsCalls openStatus (statusText lines)).1.fields =
      (readLines false lines).foldl (fun fields l => l.set fields) ps.fields := by
  have hfd : ¬(if ps.memStatusFd ≤ 0 then openStatus else ps.memStatusFd) < 0 := by
    split
    · exact h.opened ‹_›
    · rename_i hpos
      exact fun hneg => hpos (Int32.le_of_lt hneg)
  have htake : (statusText lines).take 4095 = statusText lines :=
    List.take_of_length_le (Nat.le_of_lt_succ h.short)
  have hzero : (statusText lines).takeWhile (fun c => c ≠ 0) = statusText lines :=
    List.takeWhile_eq_self_iff.mpr fun c hc => decide_eq_true (statusText_ne_zero lines c hc)
  have hcount : 0 + tagCount lines ≤ StatusField.all.length := by
    rw [Nat.zero_add]
    exact h.distinct.tagCount_le
  have hloop := statusLoop_text { fields := ps.fields } (Nat.le_refl _) hcount
  rw [collectorProcessMemUsage, if_neg h.pid]
  dsimp only
  rw [h.smaps, if_neg (by omega), if_neg hfd, htake, hzero]
  split
  · rename_i hempty
    cases lines with
    | nil => rfl
    | cons l lines =>
        rw [statusText_cons] at hempty
        exact absurd (List.append_eq_nil_iff.mp hempty).2 (List.cons_ne_nil _ _)
  · exact hloop

/-- When the fields are the numbers of their lines: those that are passed over have the number
that the field has had before. -/
theorem fields_eq_values_iff (ps : MemStatus) (smapsCalls : SmapsCalls) (openStatus : Int32)
    (lines : List StatusLine) (h : ReadsStatus ps smapsCalls openStatus lines) :
    (∀ line, .tagged line ∈ lines →
      (collectorProcessMemUsage ps smapsCalls openStatus (statusText lines)).1.fields line.field =
        line.value) ↔
      ∀ line, .tagged line ∈ passedOver false lines → ps.fields line.field = line.value := by
  obtain ⟨hread, hpassed⟩ := h.distinct.append false
  have hperm := perm_readLines false lines
  rw [fields_collect h]
  constructor
  · intro hall line hline
    have hvalue := hall line (hperm.mem_iff.mpr (List.mem_append_right _ hline))
    rw [foldl_set_of_notMem (hpassed line hline)] at hvalue
    exact hvalue
  · intro hold line hline
    obtain hin | hin := List.mem_append.mp (hperm.mem_iff.mp hline)
    · exact foldl_set_of_mem hread hin ps.fields
    · rw [foldl_set_of_notMem (hpassed line hin)]
      exact hold line hin

/-- A status in front of the first call, and the calls for its mappings. -/
def newMemStatus : MemStatus where
  pid := 42
  smaps := { smapsFd := 0 }
  memStatusFd := 0
  fields := fun _ => 0

def emptySmaps : SmapsCalls where
  rollupExists := true
  openRollup := 7
  openSmaps := -1
  chunks := []

/-- A line of one tag with a tab in front of its number. -/
def tagLine (field : StatusField) (value : UInt64) (hasUnit : Bool) : StatusLine :=
  .tagged
    { field, value, hasUnit
      blanks := [9]
      blanks_isBlank := by decide }

/-- The size and the voluntary switches, in this order. -/
theorem size_and_switches_read :
    [StatusField.vmsize, .nvcsw].map (collectorProcessMemUsage newMemStatus emptySmaps 8
      (statusText [tagLine .vmsize 10 true, tagLine .nvcsw 5 false])).1.fields = [10, 5] := by
  have hread := (fields_eq_values_iff newMemStatus emptySmaps 8
    [tagLine .vmsize 10 true, tagLine .nvcsw 5 false]
    ⟨by decide, by decide, fun _ => by decide, by decide, by decide⟩).mpr
    fun _ hline => absurd hline List.not_mem_nil
  have hsize := hread _ List.mem_cons_self
  have hswitches := hread _ (List.mem_cons_of_mem _ List.mem_cons_self)
  exact congrArg₂ (fun size switches => [size, switches]) hsize hswitches

/-- The lines of the switches stand behind each other, and the second one is not read. -/
theorem nonvoluntary_switches_not_read :
    ReadsStatus newMemStatus emptySmaps 8 [tagLine .nvcsw 5 false, tagLine .nivcsw 7 false] ∧
      ¬∀ line, .tagged line ∈ [tagLine .nvcsw 5 false, tagLine .nivcsw 7 false] →
        (collectorProcessMemUsage newMemStatus emptySmaps 8 (statusText
          [tagLine .nvcsw 5 false, tagLine .nivcsw 7 false])).1.fields line.field = line.value := by
  have hreads : ReadsStatus newMemStatus emptySmaps 8
      [tagLine .nvcsw 5 false, tagLine .nivcsw 7 false] :=
    ⟨by decide, by decide, fun _ => by decide, by decide, by decide⟩
  refine ⟨hreads, fun hall => ?_⟩
  have hvalue := hall _ (List.mem_cons_of_mem _ List.mem_cons_self)
  rw [fields_collect hreads] at hvalue
  exact absurd hvalue (by decide)

end XMonitor.Process
