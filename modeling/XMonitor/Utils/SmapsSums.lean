import XMonitor.Utils.Smaps

/-!
# The sums of a smaps file

The blocks give the lines of the file, wherever `read` has cut it, and every line adds its number
to one of three sums. What is reported is right where the lines of anonymous, file and shared
memory have nothing to add.
-/

namespace XMonitor.Smaps

open LineReader Procfile

/-! ## Numbers -/

theorem getMssVal_skip {bytes : List UInt8} (h : ∀ c ∈ bytes, ¬(48 ≤ c ∧ c ≤ 57))
    (rest : List UInt8) : getMssVal 0 (bytes ++ rest) = getMssVal 0 rest := by
  induction bytes with
  | nil => rfl
  | cons c bytes ih =>
      obtain ⟨hc, hbytes⟩ := List.forall_mem_cons.mp h
      rw [List.cons_append, getMssVal, if_neg hc, if_neg (by decide), ih hbytes]

theorem getMssVal_digits {digits : List UInt8} (h : ∀ c ∈ digits, 48 ≤ c ∧ c ≤ 57)
    (val : UInt64) (rest : List UInt8) :
    getMssVal val (digits ++ rest) =
      getMssVal (scanDigits UInt64.ofNat val (digits.map charOf)) rest := by
  induction digits generalizing val with
  | nil => rfl
  | cons c digits ih =>
      obtain ⟨hc, hdigits⟩ := List.forall_mem_cons.mp h
      rw [List.cons_append, getMssVal, if_pos hc, ih hdigits, List.map_cons, scanDigits,
        if_pos ((isDigit_charOf_iff c).mpr hc), toNat_charOf]
      rfl

theorem getMssVal_kB (val : UInt64) : getMssVal val (ascii " kB") = val := by
  obtain hpos | hpos := Decidable.em (0 < val)
  · exact (if_neg (by decide)).trans (if_pos hpos)
  · have hskip (c : UInt8) (hc : ¬(48 ≤ c ∧ c ≤ 57)) (line : List UInt8) :
        getMssVal val (c :: line) = getMssVal val line := by
      rw [getMssVal, if_neg hc, if_neg hpos]
    change getMssVal val [32, 107, 66] = val
    rw [hskip _ (by decide), hskip _ (by decide), hskip _ (by decide), getMssVal]

theorem not_digit_of_mem_name (key : SmapsKey) : ∀ c ∈ key.name, ¬(48 ≤ c ∧ c ≤ 57) := by
  cases key
  all_goals decide

/-- The number of a line is the one that it has been printed with. -/
theorem getMssVal_value (key : SmapsKey) (blanks : Nat) (kB : UInt64) :
    getMssVal 0 (SmapsLine.value key blanks kB).bytes = kB := by
  have hblanks : ∀ c ∈ List.replicate blanks (32 : UInt8), ¬(48 ≤ c ∧ c ≤ 57) := by
    intro c hc
    rw [List.eq_of_mem_replicate hc]
    decide
  have hscan := str2uint64_toDigits kB.toNat
  rw [SmapsLine.bytes, List.append_assoc, List.append_assoc,
    getMssVal_skip (not_digit_of_mem_name key), getMssVal_skip hblanks,
    getMssVal_digits fun c hc => digit_of_mem_decimal hc, map_charOf_decimal]
  exact (congrArg (getMssVal · (ascii " kB")) hscan).trans
    ((getMssVal_kB _).trans UInt64.ofNat_toNat)

/-! ## Lines -/

/-- What some lines have added to the three sums. -/
def SmapsInfo.add (info : SmapsInfo) (rss pss uss : Nat) : SmapsInfo :=
  { info with
    rss := info.rss + UInt64.ofNat rss
    pss := info.pss + UInt64.ofNat pss
    uss := info.uss + UInt64.ofNat uss }

theorem SmapsInfo.add_add (info : SmapsInfo) (rss pss uss rss' pss' uss' : Nat) :
    (info.add rss pss uss).add rss' pss' uss' =
      info.add (rss + rss') (pss + pss') (uss + uss') := by
  simp only [add, UInt64.ofNat_add, UInt64.add_assoc]

theorem SmapsInfo.add_zero (info : SmapsInfo) : info.add 0 0 0 = info := by
  simp [add]

theorem SmapsInfo.add_clear (fd : Int32) (rss pss uss : Nat) :
    SmapsInfo.add { smapsFd := fd } rss pss uss =
      { smapsFd := fd
        rss := UInt64.ofNat rss
        pss := UInt64.ofNat pss
        uss := UInt64.ofNat uss } := by
  simp only [add, UInt64.zero_add]

namespace SmapsLine

/-- What the lines of the proportional size add, with those that are taken for them. -/
def pssLike (l : SmapsLine) : Nat :=
  l.kB .pss + l.kB .pssAnon + l.kB .pssFile + l.kB .pssShmem

def ussLike (l : SmapsLine) : Nat := l.kB .privateClean + l.kB .privateDirty + l.stray

end SmapsLine

/-- The type that the line of a key is taken for. -/
def SmapsKey.lineType : SmapsKey → SmapsLineType
  | .rss => .rss
  | .pss | .pssAnon | .pssFile | .pssShmem => .pss
  | .privateClean | .privateDirty => .uss

theorem parseLine_value (info : SmapsInfo) (key : SmapsKey) (blanks : Nat) (kB : UInt64) :
    parseLine info (SmapsLine.value key blanks kB).bytes = info.count kB key.lineType := by
  have hparse : parseLine info (SmapsLine.value key blanks kB).bytes =
      info.count (getMssVal 0 (SmapsLine.value key blanks kB).bytes) key.lineType := by
    cases key
    all_goals rfl
  rw [hparse, getMssVal_value]

theorem parseLine_bytes (info : SmapsInfo) (l : SmapsLine) :
    parseLine info l.bytes = info.add (l.kB .rss) l.pssLike l.ussLike := by
  cases l with
  | value key blanks kB =>
      rw [parseLine_value]
      cases key
      all_goals simp [SmapsKey.lineType, SmapsInfo.count, SmapsInfo.add, SmapsLine.kB,
        SmapsLine.pssLike, SmapsLine.ussLike, SmapsLine.stray]
  | other line =>
      have hrss : checkLineIsRss line.bytes = false := decide_eq_false (line.other .rss)
      have hpss : checkLineIsPss line.bytes = false :=
        decide_eq_false (not_or.mpr ⟨line.other .pss, not_or.mpr ⟨line.other .pssAnon,
          not_or.mpr ⟨line.other .pssFile, line.other .pssShmem⟩⟩⟩)
      obtain huss | huss := Bool.eq_false_or_eq_true (checkLineIsUss line.bytes)
      all_goals
        simp [parseLine, smapsLineTags, SmapsLine.bytes, hrss, hpss, huss,
          SmapsInfo.count, SmapsInfo.add, SmapsLine.kB, SmapsLine.pssLike, SmapsLine.ussLike,
          SmapsLine.stray]

/-- All lines of a text. -/
theorem foldl_parseLine (info : SmapsInfo) (lines : List SmapsLine) :
    (lines.map SmapsLine.bytes).foldl parseLine info =
      info.add (total .rss lines)
        (total .pss lines + total .pssAnon lines + total .pssFile lines + total .pssShmem lines)
        (total .privateClean lines + total .privateDirty lines + totalStray lines) := by
  induction lines generalizing info with
  | nil => exact info.add_zero.symm
  | cons l lines ih =>
      rw [List.map_cons, List.foldl_cons, parseLine_bytes, ih, SmapsInfo.add_add]
      simp only [total, totalStray, List.map_cons, List.sum_cons, SmapsLine.pssLike,
        SmapsLine.ussLike]
      congr 1
      · omega
      · omega

/-! ## Blocks -/

theorem SmapsLine.bytes_ne (l : SmapsLine) : ∀ c ∈ l.bytes, c ≠ 0 ∧ c ≠ 10 := by
  cases l with
  | other line => exact line.text
  | value key blanks kB =>
      have hname : ∀ c ∈ key.name, c ≠ 0 ∧ c ≠ 10 := by
        cases key
        all_goals decide
      intro c hc
      rw [SmapsLine.bytes, List.mem_append, List.mem_append, List.mem_append] at hc
      obtain ((hc | hc) | hc) | hc := hc
      · exact hname c hc
      · rw [List.eq_of_mem_replicate hc]
        decide
      · have hge := (digit_of_mem_decimal hc).1
        constructor
        all_goals
          rintro rfl
          exact absurd hge (by decide)
      · revert c
        decide

theorem smapsText_ne_zero (lines : List SmapsLine) : ∀ c ∈ smapsText lines, c ≠ 0 := by
  intro c hc
  obtain ⟨line, hline, hc⟩ := List.mem_flatMap.mp hc
  obtain ⟨l, -, rfl⟩ := List.mem_map.mp hline
  obtain hc | hc := List.mem_append.mp hc
  · exact (l.bytes_ne c hc).1
  · rw [List.mem_singleton.mp hc]
    decide

theorem newline_notMem (lines : List SmapsLine) : ∀ l ∈ lines.map SmapsLine.bytes, 10 ∉ l := by
  intro line hline hmem
  obtain ⟨l, -, rfl⟩ := List.mem_map.mp hline
  exact (l.bytes_ne 10 hmem).2 rfl

/-- Without a zero, a block is taken as the chunk of a reader of lines. -/
theorem parseBlock_eq_feed (st : SmapsInfo × List UInt8) (chunk : List UInt8)
    (h : ∀ c ∈ st.2 ++ chunk, c ≠ 0) : parseBlock st chunk = feed 10 parseLine st chunk := by
  have hall : (st.2 ++ chunk).takeWhile (fun c => c ≠ 0) = st.2 ++ chunk :=
    List.takeWhile_eq_self_iff.mpr fun c hc => decide_eq_true (h c hc)
  rw [parseBlock, hall, List.drop_length]
  change (_, (takeLines 10 [] (st.2 ++ chunk)).2 ++ []) = feed 10 parseLine st chunk
  rw [List.append_nil]
  rfl

/-- The blocks of a text without a zero give its lines. -/
theorem foldl_parseBlock (info : SmapsInfo) {rest : List UInt8} {chunks : List (List UInt8)}
    (h : ∀ c ∈ rest ++ chunks.flatten, c ≠ 0) :
    chunks.foldl parseBlock (info, rest) = chunks.foldl (feed 10 parseLine) (info, rest) := by
  induction chunks generalizing info rest with
  | nil => rfl
  | cons chunk chunks ih =>
      rw [List.flatten_cons, ← List.append_assoc, List.forall_mem_append] at h
      obtain ⟨hbuf, hchunks⟩ := h
      rw [List.foldl_cons, List.foldl_cons, parseBlock_eq_feed _ _ hbuf]
      refine ih _ (List.forall_mem_append.mpr ⟨fun c hc => ?_, hchunks⟩)
      obtain hnil | hc := mem_of_mem_rest hc
      · exact absurd hnil List.not_mem_nil
      · exact hbuf c hc

/-- While there is more to read, the buffer has space for it, if lines are shorter than it. -/
theorem space_pos (info : SmapsInfo) {lines : List SmapsLine}
    (hshort : ∀ l ∈ lines, l.bytes.length + 1 < 4096) {chunks : List (List UInt8)}
    {more : List UInt8} (htext : smapsText lines = chunks.flatten ++ more) (hmore : more ≠ []) :
    0 < 4096 - (chunks.foldl parseBlock (info, [])).2.length - 1 := by
  have hbound : ∀ l ∈ lines.map SmapsLine.bytes, l.length < 4095 := by
    intro line hline
    obtain ⟨l, hl, rfl⟩ := List.mem_map.mp hline
    have := hshort l hl
    omega
  have hzero : ∀ c ∈ [] ++ chunks.flatten, c ≠ 0 := by
    intro c hc
    refine smapsText_ne_zero lines c ?_
    rw [htext]
    exact List.mem_append_left _ hc
  have hrest := length_rest_lt (newline_notMem lines) hbound hmore htext
  rw [foldl_parseBlock info hzero, foldl_feed parseLine info List.not_mem_nil]
  dsimp only
  omega

/-- What the calls find for a text: the file is opened or already open, and the chunks are the
text. -/
structure SmapsCalls.Deliver (calls : SmapsCalls) (info : SmapsInfo)
    (mappings : List (List SmapsLine)) : Prop where
  opened : info.smapsFd ≤ 0 → calls.opened ≠ -1
  text : calls.chunks.flatten = smapsText mappings.flatten

theorem foldl_chunks (info : SmapsInfo) {chunks : List (List UInt8)} {lines : List SmapsLine}
    (h : chunks.flatten = smapsText lines) :
    (chunks.foldl parseBlock (info, [])).1 =
      info.add (total .rss lines)
        (total .pss lines + total .pssAnon lines + total .pssFile lines + total .pssShmem lines)
        (total .privateClean lines + total .privateDirty lines + totalStray lines) := by
  have hzero : ∀ c ∈ [] ++ chunks.flatten, c ≠ 0 := by
    rw [List.nil_append, h]
    exact smapsText_ne_zero lines
  rw [foldl_parseBlock info hzero, foldl_feed parseLine info List.not_mem_nil, h, smapsText,
    takeLines_flatMap (newline_notMem lines), ← foldl_parseLine]

/-- The sums behind a call, however the text has been read. -/
theorem getMssFromSmaps_sums (info : SmapsInfo) {calls : SmapsCalls}
    {mappings : List (List SmapsLine)} (h : calls.Deliver info mappings) :
    ∃ fd, (getMssFromSmaps info.clear calls).1 =
      { smapsFd := fd
        rss := UInt64.ofNat (total .rss mappings.flatten)
        pss := UInt64.ofNat (total .pss mappings.flatten + total .pssAnon mappings.flatten +
          total .pssFile mappings.flatten + total .pssShmem mappings.flatten)
        uss := UInt64.ofNat (total .privateClean mappings.flatten +
          total .privateDirty mappings.flatten + totalStray mappings.flatten) } := by
  have hsums (fd : Int32) := (foldl_chunks { smapsFd := fd } h.text).trans (SmapsInfo.add_clear ..)
  have hopened : ∃ fd : Int32, fd ≠ -1 ∧
      (if info.clear.smapsFd ≤ 0 then ({ smapsFd := calls.opened } : SmapsInfo) else info.clear) =
        { smapsFd := fd } := by
    split
    · rename_i hfd
      exact ⟨_, h.opened hfd, rfl⟩
    · rename_i hfd
      refine ⟨info.smapsFd, ?_, rfl⟩
      intro heq
      change ¬info.smapsFd ≤ 0 at hfd
      rw [heq] at hfd
      exact hfd (by decide)
  obtain ⟨fd, hne, hinfo⟩ := hopened
  rw [getMssFromSmaps, hinfo]
  dsimp only
  rw [if_neg hne]
  split
  · refine ⟨0, ?_⟩
    dsimp only
    rw [hsums]
  · exact ⟨fd, hsums fd⟩

/-! ## What is reported -/

theorem ofNat_eq_iff (a b : Nat) :
    UInt64.ofNat a = UInt64.ofNat b ↔ a % 2 ^ 64 = b % 2 ^ 64 := by
  rw [← UInt64.toNat_inj, UInt64.toNat_ofNat', UInt64.toNat_ofNat']

/-- A sum does not change with a multiple of `2 ^ 64`. -/
theorem ofNat_add_eq_iff (a b : Nat) :
    UInt64.ofNat (a + b) = UInt64.ofNat a ↔ 2 ^ 64 ∣ b := by
  rw [ofNat_eq_iff, Nat.dvd_iff_mod_eq_zero]
  omega

theorem zero_eq_ofNat_iff (a : Nat) : 0 = UInt64.ofNat a ↔ 2 ^ 64 ∣ a := by
  have h := ofNat_add_eq_iff 0 a
  rw [Nat.zero_add] at h
  rw [← h, eq_comm]
  rfl

theorem total_append (key : SmapsKey) (lines lines' : List SmapsLine) :
    total key (lines ++ lines') = total key lines + total key lines' := by
  rw [total, List.map_append, List.sum_append]
  rfl

/-- What holds for the sums of each mapping holds for those of all. -/
theorem total_le_total {key key' : SmapsKey} {mappings : List (List SmapsLine)}
    (h : ∀ m ∈ mappings, total key m ≤ total key' m) :
    total key mappings.flatten ≤ total key' mappings.flatten := by
  induction mappings with
  | nil => exact Nat.le_refl _
  | cons m mappings ih =>
      obtain ⟨hm, h⟩ := List.forall_mem_cons.mp h
      rw [List.flatten_cons, total_append, total_append]
      exact Nat.add_le_add hm (ih h)

/-- When the sums of a call are right: the lines of anonymous, file and shared memory, and the
other lines that begin as those of private memory, have added nothing. -/
theorem reported_iff (info : SmapsInfo) (calls : SmapsCalls) (mappings : List (List SmapsLine))
    (h : calls.Deliver info mappings) :
    Reported mappings (getMssFromSmaps info.clear calls).1 ↔
      2 ^ 64 ∣ total .pssAnon mappings.flatten ∧ 2 ^ 64 ∣ total .pssFile mappings.flatten ∧
        2 ^ 64 ∣ total .pssShmem mappings.flatten ∧ 2 ^ 64 ∣ totalStray mappings.flatten := by
  obtain ⟨fd, hcall⟩ := getMssFromSmaps_sums info h
  rw [hcall]
  constructor
  · intro hreported
    exact ⟨(zero_eq_ofNat_iff _).mp hreported.pssAnon, (zero_eq_ofNat_iff _).mp hreported.pssFile,
      (zero_eq_ofNat_iff _).mp hreported.pssShmem, (ofNat_add_eq_iff _ _).mp hreported.uss⟩
  · rintro ⟨hanon, hfile, hshmem, hstray⟩
    have hpss : UInt64.ofNat (total .pss mappings.flatten + total .pssAnon mappings.flatten +
        total .pssFile mappings.flatten + total .pssShmem mappings.flatten) =
          UInt64.ofNat (total .pss mappings.flatten) := by
      rw [Nat.add_assoc, Nat.add_assoc, ofNat_add_eq_iff]
      exact (Nat.dvd_add_right hanon).mpr ((Nat.dvd_add_right hfile).mpr hshmem)
    refine ⟨rfl, hpss, (ofNat_add_eq_iff _ _).mpr hstray, (zero_eq_ofNat_iff _).mpr hanon,
      (zero_eq_ofNat_iff _).mpr hfile, (zero_eq_ofNat_iff _).mpr hshmem, fun hle hlt => ?_⟩
    have hall := total_le_total hle
    dsimp only
    rw [hpss, UInt64.le_iff_toNat_le, UInt64.toNat_ofNat_of_lt' hlt,
      UInt64.toNat_ofNat_of_lt' (Nat.lt_of_le_of_lt hall hlt)]
    exact hall

/-- A process without anonymous memory, read in two parts. -/
theorem reported_of_two_chunks :
    Reported [[.value .rss 12 8, .value .pss 12 4]]
      (getMssFromSmaps (SmapsInfo.clear { smapsFd := 0 })
        { rollupExists := true
          openRollup := 7
          openSmaps := -1
          chunks := [ascii "Rss:            8 kB\nPss", ascii ":            4 kB\n"] }).1 :=
  (reported_iff { smapsFd := 0 } _ _ ⟨fun _ => by decide, by decide⟩).mpr (by decide)

/-- A process with anonymous memory, which is reported to have more than its resident memory. -/
theorem anonymous_memory_counted_twice :
    ∃ lines calls, calls.Deliver { smapsFd := 0 } [lines] ∧
      (getMssFromSmaps (SmapsInfo.clear { smapsFd := 0 }) calls).1.rss = 100 ∧
      (getMssFromSmaps (SmapsInfo.clear { smapsFd := 0 }) calls).1.pss = 200 ∧
      ¬Reported [lines] (getMssFromSmaps (SmapsInfo.clear { smapsFd := 0 }) calls).1 := by
  obtain ⟨lines, hlines⟩ : ∃ lines : List SmapsLine, lines =
      [.value .rss 12 100, .value .pss 12 100, .value .pssAnon 6 60, .value .pssFile 6 40] :=
    ⟨_, rfl⟩
  obtain ⟨calls, hcalls⟩ : ∃ calls : SmapsCalls, calls =
      { rollupExists := true, openRollup := 7, openSmaps := -1, chunks := [smapsText lines] } :=
    ⟨_, rfl⟩
  have hdeliver : calls.Deliver { smapsFd := 0 } [lines] := by
    rw [hcalls]
    exact ⟨fun _ => (by decide : (7 : Int32) ≠ -1), by simp⟩
  obtain ⟨fd, hcall⟩ := getMssFromSmaps_sums { smapsFd := 0 } hdeliver
  refine ⟨lines, calls, hdeliver, ?_, ?_, fun hreported => ?_⟩
  · rw [hcall, hlines]
    rfl
  · rw [hcall, hlines]
    rfl
  · have hanon := hreported.pssAnon
    rw [hcall, hlines] at hanon
    exact absurd ((zero_eq_ofNat_iff _).mp hanon) (by decide)

end XMonitor.Smaps
