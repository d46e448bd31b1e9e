import Mathlib.Data.List.Induction
import Mathlib.Data.List.TakeDrop
import XMonitor.Process.Stat

/-!
# Which stat lines are read back

The name of the process is the second word of the line, and the state and the numbers follow
it, if the name stays together. Where it does not, the second word of the line is not the name,
or there are no words behind it.
-/

namespace XMonitor.Process

open Procfile Splitter

variable {Seconds : Type} {perHz : Nat → Seconds} {l : StatLine} {ps : ProcessStatus Seconds}
  {pf : StatFile}

/-! ## Types -/

namespace StatFile

/-- Letters and digits are parts of words, and so is a sign. -/
theorem isWord_of_range {c : UInt8}
    (h : 42 ≤ c.toNat ∧ c.toNat ≤ 60 ∨ 62 ≤ c.toNat ∧ c.toNat ≤ 123) :
    pf.separators c = .isWord := by
  have hne (d : UInt8) (hd : d.toNat < 42 ∨ d.toNat = 61 ∨ 123 < d.toNat) : c ≠ d := by
    rintro rfl
    omega
  have hseps : c ∉ (none : Option (List UInt8)).getD defaultSeps := by
    simp only [Option.getD_none, defaultSeps, List.mem_cons, List.not_mem_nil, or_false, not_or]
    exact ⟨hne _ (by decide), hne _ (by decide), hne _ (by decide), hne _ (by decide)⟩
  rw [pf.others c (hne _ (by decide)) (hne _ (by decide))]
  exact procfileSetSeparators_of_notMem hseps (by omega) (by omega)

theorem separators_space : pf.separators 32 = .isSeparator :=
  pf.others 32 (by decide) (by decide)

theorem separators_newline : pf.separators 10 = .isNewline :=
  pf.others 10 (by decide) (by decide)

theorem separators_return : pf.separators 13 = .isNewline :=
  pf.others 13 (by decide) (by decide)

/-- Any other byte is part of a word or separates words. -/
theorem separators_cases {c : UInt8} (hopen : c ≠ 40) (hclose : c ≠ 41) (hnewline : c ≠ 10)
    (hreturn : c ≠ 13) : pf.separators c = .isSeparator ∨ pf.separators c = .isWord := by
  rw [pf.others c hopen hclose, procfileSetSeparators, defSepsType]
  repeat' split
  · exact .inl rfl
  · exact absurd ‹_› (not_or.mpr ⟨hnewline, hreturn⟩)
  · exact .inl rfl
  · exact .inr rfl

theorem setOpenClose_open : pf.setOpenClose.separators 40 = .isOpen := by
  simp [setOpenClose, procfileSetOpenClose]

theorem setOpenClose_close : pf.setOpenClose.separators 41 = .isClose := by
  simp [setOpenClose, procfileSetOpenClose]

theorem opened_cases (c : UInt8) :
    opened.separators c = .isSeparator ∨ opened.separators c = .isNewline ∨
      opened.separators c = .isWord :=
  defaultType_cases c

theorem opened_parenthesis {c : UInt8} (h : c = 40 ∨ c = 41) : opened.separators c = .isWord := by
  obtain rfl | rfl := h
  · rfl
  · rfl

end StatFile

/-! ## The fields behind the name -/

/-- A byte of a number is part of a word. -/
theorem isWord_of_mem_decimalInt {n : Int} {c : UInt8} (h : c ∈ decimalInt n) :
    pf.separators c = .isWord := by
  obtain rfl | ⟨hge, hle⟩ := mem_decimalInt h
  · exact StatFile.isWord_of_range (by decide)
  · exact StatFile.isWord_of_range
      (.inl ⟨Nat.le_trans (by decide) hge, Nat.le_trans hle (by decide)⟩)

theorem plain_fields (pf : StatFile) (l : StatLine) :
    Plain pf.separators l.fields (decimalInt l.exitCode) where
  newline := pf.separators_newline
  nonempty w hw := by
    obtain rfl | hw := List.mem_cons.mp hw
    · exact List.cons_ne_nil _ _
    · obtain ⟨n, -, rfl⟩ := List.mem_map.mp hw
      exact decimalInt_ne_nil n
  words w hw c hc := by
    obtain rfl | hw := List.mem_cons.mp hw
    · obtain rfl := List.mem_singleton.mp hc
      obtain ⟨hge, hle⟩ := l.state_letter
      exact StatFile.isWord_of_range
        (.inr ⟨Nat.le_trans (by decide) hge, Nat.le_trans hle (by decide)⟩)
    · obtain ⟨n, -, rfl⟩ := List.mem_map.mp hw
      exact isWord_of_mem_decimalInt hc
  separators w hw := by
    obtain rfl | hw := List.mem_cons.mp hw
    · exact pf.separators_space
    · obtain ⟨n, -, rfl⟩ := List.mem_map.mp hw
      exact pf.separators_space
  last c hc := isWord_of_mem_decimalInt hc

/-! ## Words and numbers -/

/-- The words of the line, for a second one. -/
def StatLine.words (l : StatLine) (name : List UInt8) : List (List UInt8) :=
  [decimal l.pid, name] ++ l.fields.map Prod.fst ++ [decimalInt l.exitCode]

theorem str2uint64_decimalInt (n : UInt64) : str2uint64 (cString (decimalInt n.toNat)) = n := by
  change str2uint64 (cString (decimal n.toNat)) = n
  rw [cString_decimal, str2uint64_toDigits, UInt64.ofNat_toNat]

theorem str2uint32_decimalInt (n : Nat) :
    (str2uint32 (cString (decimalInt n))).toInt32 = Int32.ofNat n := by
  change (str2uint32 (cString (decimal n))).toInt32 = Int32.ofNat n
  rw [cString_decimal, str2uint32_toDigits]
  rfl

theorem str2int32_decimalInt (n : Nat) : str2int32 (cString (decimalInt n)) = Int32.ofNat n := by
  change str2int32 (cString (decimal n)) = Int32.ofNat n
  have hscan := scanDigits_toDigits Int32.ofNat_add Int32.ofNat_mul n
  rw [cString_decimal, ← hscan]
  cases hdigits : Nat.toDigits 10 n with
  | nil => exact absurd hdigits Nat.toDigits_ne_nil
  | cons c s =>
      have hc : c.isDigit :=
        Nat.isDigit_of_mem_toDigits (by omega) (by omega)
          (hdigits ▸ List.mem_cons_self : c ∈ Nat.toDigits 10 n)
      unfold str2int32
      split
      · rename_i hminus
        rw [(List.cons.inj hminus).1] at hc
        exact absurd hc (by decide)
      · rfl

theorem lineword_number {name : List UInt8} {i : Nat} {n : Int} (h : l.numbers[i]? = some n) :
    lineword ((l.words name).map cString) (i + 3) = cString (decimalInt n) := by
  have hfields : (l.fields.map Prod.fst)[i + 1]? = some (decimalInt n) := by
    rw [StatLine.fields, List.map_cons, List.getElem?_cons_succ, List.map_map, List.getElem?_map, h]
    rfl
  have hlt := (List.getElem?_eq_some_iff.mp hfields).1
  rw [lineword, List.getD_eq_getElem?_getD, List.getElem?_map, StatLine.words, List.append_assoc]
  change (Option.map cString ((l.fields.map Prod.fst ++ [decimalInt l.exitCode])[i + 1]?)).getD []
    = _
  rw [List.getElem?_append_left hlt, hfields]
  rfl

theorem guestTime_numbers (l : StatLine) :
    l.numbers[39]? = some (l.guestTime.toNat : Int) ∧
      l.numbers[40]? = some (l.cguestTime.toNat : Int) := by
  have hlen := l.memoryAndSignals_length
  rw [StatLine.numbers]
  constructor
  all_goals
    rw [List.getElem?_append_left, List.getElem?_append_right]
    · simp [hlen]
    all_goals simp [hlen]

/-- The comm after a call is the second word, cut to the size of the array. -/
theorem comm_takeWords (perHz : Nat → Seconds) (ps : ProcessStatus Seconds) (pf : StatFile)
    (line : List CString) :
    (ps.takeWords perHz pf line).comm = strlcpyComm (lineword line 1) := by
  obtain h | h := Decidable.em (lineword line 1 = ps.comm)
  · have hcomm : (ps.takeWords perHz pf line).comm = ps.comm := if_neg (not_not.mpr h)
    rw [hcomm, strlcpyComm, h, List.take_of_length_le (Nat.le_of_lt_succ ps.comm_lt)]
  · exact if_pos h

/-- With the words in their places, all but the comm is taken. -/
theorem takenBy_words_iff (name : List UInt8) :
    l.TakenBy perHz (ps.takeWords perHz pf ((l.words name).map cString)) ↔
      strlcpyComm (cString name) = cString l.comm := by
  obtain ⟨hguest, hcguest⟩ := guestTime_numbers l
  have number {i : Nat} {n : UInt64} (h : l.numbers[i]? = some (n.toNat : Int)) :
      str2uint64 (lineword ((l.words name).map cString) (i + 3)) = n := by
    rw [lineword_number h, str2uint64_decimalInt]
  have hutime := number (show l.numbers[10]? = some (l.utime.toNat : Int) from rfl)
  have hcutime := number (show l.numbers[12]? = some (l.cutime.toNat : Int) from rfl)
  have hstart := number (show l.numbers[18]? = some (l.starttime.toNat : Int) from rfl)
  have hppid : lineword ((l.words name).map cString) 3 = cString (decimalInt l.ppid) :=
    lineword_number (show l.numbers[0]? = some (l.ppid : Int) from rfl)
  have hthreads : lineword ((l.words name).map cString) 19 = cString (decimalInt l.numThreads) :=
    lineword_number (show l.numbers[16]? = some (l.numThreads : Int) from rfl)
  constructor
  · intro h
    have hcomm := h.comm
    rw [comm_takeWords] at hcomm
    exact hcomm
  · intro h
    have hcomm := (comm_takeWords perHz ps pf ((l.words name).map cString)).trans h
    -- From here on the words of the line matter only through the facts above.
    generalize (l.words name).map cString = line at *
    refine ⟨hcomm, ?_, number rfl, number rfl, number rfl, number rfl, ?_, number rfl, ?_,
      number rfl, ?_, ?_⟩
    · exact (congrArg (fun s => (str2uint32 s).toInt32) hppid).trans (str2uint32_decimalInt l.ppid)
    · exact congrArg₂ (· - ·) hutime (number hguest)
    · exact congrArg₂ (· - ·) hcutime (number hcguest)
    · exact (congrArg str2int32 hthreads).trans (str2int32_decimalInt l.numThreads)
    · exact congrArg (fun n => perHz (doubleOfUInt64 n)) hstart

/-! ## Splitting the line -/

theorem foldl_pid (pf : StatFile) (l : StatLine) :
    (decimal l.pid ++ [32]).foldl (step pf.separators) {} = { line := [decimal l.pid] } := by
  have hword : ∀ c ∈ decimal l.pid, pf.separators c = .isWord :=
    fun c hc => isWord_of_mem_decimalInt (show c ∈ decimalInt l.pid from hc)
  rw [List.foldl_append, foldl_word hword, List.foldl_cons,
    step_of_isSeparator pf.separators_space rfl (decimal_ne_nil _)]
  rfl

theorem StatLine.text_eq (l : StatLine) :
    l.text =
      (decimal l.pid ++ [32]) ++ (l.name ++ [32]) ++ lineText l.fields (decimalInt l.exitCode) := by
  rw [StatLine.text]
  simp only [List.append_assoc, List.cons_append, List.nil_append]

/-- The lines of the file, if the name has become one word. -/
theorem fileLines_of_foldl_name {name : List UInt8}
    (h : (l.name ++ [32]).foldl (step pf.separators) { line := [decimal l.pid] } =
      { line := [decimal l.pid, name] }) :
    (fileLines pf.separators l.text).getD 0 [] = (l.words name).map cString := by
  rw [fileLines, splitLines, l.text_eq, List.foldl_append, List.foldl_append, foldl_pid, h,
    foldl_line [] _ (plain_fields pf l)]
  rfl

/-- The second word of the line, once it has ended. -/
theorem lineword_of_ended_name {name : List UInt8} (front : List UInt8)
    (hfront : front <+: l.name ++ [32])
    (h : (front.foldl (step pf.separators) { line := [decimal l.pid] }).Ended 0 1 name) :
    lineword ((fileLines pf.separators l.text).getD 0 []) 1 = cString name := by
  refine lineword_of_ended ((decimal l.pid ++ [32]) ++ front) ?_ ?_
  · rw [l.text_eq]
    exact ((List.prefix_append_right_inj _).mpr hfront).trans (List.prefix_append _ _)
  · rw [List.foldl_append, foldl_pid]
    exact h

/-! ## Names inside parentheses -/

theorem KeptTogether.of_append {p q : List UInt8} (h : KeptTogether (p ++ q)) :
    KeptTogether p where
  noReturn hmem := h.noReturn (List.mem_append_left q hmem)
  first hhead := by
    refine h.first ?_
    rw [List.head?_append, hhead]
    rfl
  closes n := by
    obtain hle | hle := Nat.le_total n p.length
    · have hn := h.closes n
      rw [List.take_append_of_le_length hle] at hn
      exact hn
    · have hp := h.closes p.length
      rw [List.take_left] at hp
      rw [List.take_of_length_le hle]
      exact hp

theorem KeptTogether.count_le {comm : List UInt8} (h : KeptTogether comm) :
    comm.count 41 ≤ comm.count 40 := by
  have hall := h.closes comm.length
  rw [List.take_length] at hall
  exact hall

/-- A name that is kept together is a word, with some parentheses still open behind it. -/
theorem foldl_comm (pf : StatFile) (line : List (List UInt8)) {comm : List UInt8}
    (h : KeptTogether comm) (hne : 10 ∉ comm) :
    comm.foldl (step pf.setOpenClose.separators) { line, quoting := { opened := 1 } } =
      { line, word := comm
        quoting := { opened := 1 + comm.count 40 - comm.count 41 } } := by
  induction comm using List.reverseRecOn with
  | nil => rfl
  | append_singleton p c ih =>
      have hp := h.of_append
      have hcounts := hp.count_le
      have hcounts' := h.count_le
      rw [List.mem_append, not_or] at hne
      have hc10 : c ≠ 10 := fun hc => hne.2 (hc ▸ List.mem_singleton_self c)
      have hc13 : c ≠ 13 := by
        rintro rfl
        exact h.noReturn (List.mem_append_right p (List.mem_singleton_self _))
      rw [List.foldl_append, ih hp hne.1, List.foldl_cons, List.foldl_nil]
      rw [List.count_append, List.count_append] at hcounts' ⊢
      by_cases hopen : c = 40
      · subst hopen
        have hp0 : p ≠ [] := by
          rintro rfl
          exact h.first rfl
        rw [step_of_isOpen StatFile.setOpenClose_open hp0 (by dsimp only; omega)]
        congr 2
        simp
        omega
      · by_cases hclose : c = 41
        · subst hclose
          simp at hcounts'
          rw [step_of_isClose StatFile.setOpenClose_close (by dsimp only; omega)]
          congr 2
        · rw [step_of_opened (StatFile.separators_cases hopen hclose hc10 hc13)
            (by dsimp only; omega)]
          simp [hopen, hclose]

theorem KeptTogether.concat {p : List UInt8} {c : UInt8} (h : KeptTogether p) (hreturn : c ≠ 13)
    (hfirst : (p ++ [c]).head? ≠ some 40) (hcloses : c = 41 → p.count 40 ≠ p.count 41) :
    KeptTogether (p ++ [c]) where
  noReturn hmem := by
    obtain hmem | hmem := List.mem_append.mp hmem
    · exact h.noReturn hmem
    · exact hreturn (List.mem_singleton.mp hmem).symm
  first := hfirst
  closes n := by
    obtain hle | hlt := Nat.lt_or_ge p.length n
    · have hcounts := h.count_le
      have hall : (p ++ [c]).length ≤ n := by
        rw [List.length_append]
        exact hle
      rw [List.take_of_length_le hall, List.count_append, List.count_append]
      by_cases hclose : c = 41
      · subst hclose
        have hne := hcloses rfl
        have hone : [(41 : UInt8)].count 41 = 1 := rfl
        omega
      · have hzero : [c].count 41 = 0 := List.count_eq_zero.mpr fun hmem =>
          hclose (List.mem_singleton.mp hmem).symm
        omega
    · rw [List.take_append_of_le_length hlt]
      exact h.closes n

/-- The first byte that a name is not kept together behind. -/
theorem exists_end {comm : List UInt8} (hfirst : comm.head? ≠ some 40)
    (h : ¬KeptTogether comm) :
    ∃ p c, p ++ [c] <+: comm ∧ KeptTogether p ∧ (c = 13 ∨ c = 41 ∧ p.count 40 = p.count 41) := by
  induction comm using List.reverseRecOn with
  | nil =>
      refine absurd ⟨List.not_mem_nil, hfirst, fun n => ?_⟩ h
      rw [List.take_nil]
      exact Nat.le_refl _
  | append_singleton p c ih =>
      by_cases hp : KeptTogether p
      · refine ⟨p, c, List.prefix_refl _, hp, ?_⟩
        by_contra hend
        rw [not_or, not_and] at hend
        exact h (hp.concat hend.1 hfirst hend.2)
      · have hfirst' : p.head? ≠ some 40 := by
          intro hhead
          refine hfirst ?_
          rw [List.head?_append, hhead]
          rfl
        obtain ⟨q, d, hfront, hq, hend⟩ := ih hfirst' hp
        exact ⟨q, d, hfront.trans (List.prefix_append _ _), hq, hend⟩

/-! ## Calls behind the first one -/

theorem foldl_open (pf : StatFile) (line : List (List UInt8)) (bytes : List UInt8) :
    (40 :: bytes).foldl (step pf.setOpenClose.separators) { line } =
      bytes.foldl (step pf.setOpenClose.separators) { line, quoting := { opened := 1 } } := by
  rw [List.foldl_cons, step_of_isOpen_nil StatFile.setOpenClose_open rfl]

/-- A name whose parentheses are all closed is the second word. -/
theorem line_of_balanced (pf : StatFile) (h : KeptTogether l.comm)
    (hcount : l.comm.count 40 = l.comm.count 41) :
    (fileLines pf.setOpenClose.separators l.text).getD 0 [] =
      (l.words l.comm).map cString := by
  refine fileLines_of_foldl_name ?_
  have hne : 10 ∉ l.comm := fun hmem => (l.comm_ne 10 hmem).2 rfl
  rw [StatLine.name, List.cons_append, List.cons_append, foldl_open, List.append_assoc,
    List.foldl_append, foldl_comm pf _ h hne, hcount, Nat.add_sub_cancel, List.cons_append,
    List.nil_append, List.foldl_cons, step_of_isClose_last StatFile.setOpenClose_close rfl,
    List.foldl_cons, step_of_isSeparator_nil StatFile.separators_space rfl rfl]
  rfl

/-- A name that is not kept together is not the second word. -/
theorem comm_ne_of_not_kept (pf : StatFile) (h : ¬KeptTogether l.comm) :
    strlcpyComm (lineword ((fileLines pf.setOpenClose.separators l.text).getD 0 []) 1) ≠
      cString l.comm := by
  by_cases hfirst : l.comm.head? = some 40
  · -- the parenthesis that the name begins with would be skipped
    intro heq
    have hcomm := congrArg List.head? heq
    rw [strlcpyComm, List.head?_take, if_neg (by omega), cString_of_ne_zero fun c hc =>
      (l.comm_ne c hc).1, List.head?_map, hfirst] at hcomm
    exact ne_isOpen_of_head_lineword hcomm StatFile.setOpenClose_open
  · obtain ⟨p, c, hcomm, hp, hend⟩ := exists_end hfirst h
    have hne : 10 ∉ p := fun hmem =>
      (l.comm_ne 10 (hcomm.mem (List.mem_append_left _ hmem))).2 rfl
    have hended : ((40 :: (p ++ [c])).foldl (step pf.setOpenClose.separators)
        { line := [decimal l.pid] }).Ended 0 1 p := by
      rw [foldl_open, List.foldl_append, foldl_comm pf _ hp hne, List.foldl_cons, List.foldl_nil]
      obtain rfl | ⟨rfl, hcount⟩ := hend
      · rw [step_of_isNewline StatFile.separators_return]
        exact ⟨_, rfl, rfl⟩
      · rw [hcount, Nat.add_sub_cancel, step_of_isClose_last StatFile.setOpenClose_close rfl]
        exact ⟨_, rfl, rfl⟩
    have hfront : 40 :: (p ++ [c]) <+: l.name ++ [32] := by
      rw [StatLine.name, List.cons_append, List.cons_append, List.append_assoc]
      exact (List.prefix_cons_inj 40).mpr (hcomm.trans (List.prefix_append _ _))
    rw [lineword_of_ended_name _ hfront hended]
    have hnz : ∀ c ∈ p, c ≠ 0 := fun c hc =>
      (l.comm_ne c (hcomm.mem (List.mem_append_left _ hc))).1
    rw [strlcpyComm, Ne, take_cString_eq_iff hnz fun c hc => (l.comm_ne c hc).1]
    intro heq
    have hlen := hcomm.length_le
    rw [← heq, List.length_append, List.length_take] at hlen
    have := List.length_singleton (a := c)
    omega

/-- A name that leaves a parenthesis open takes the rest of the line with it. -/
theorem line_of_unbalanced (pf : StatFile) (h : KeptTogether l.comm)
    (hcount : l.comm.count 40 ≠ l.comm.count 41) :
    ∃ rest, (fileLines pf.setOpenClose.separators l.text).getD 0 [] =
      [cString (decimal l.pid), cString (l.comm ++ 41 :: rest)] := by
  have hplain := plain_fields pf.setOpenClose l
  obtain ⟨body, hbody⟩ : ∃ body, body =
    (l.fields.flatMap fun w => w.1 ++ [w.2]) ++ decimalInt l.exitCode := ⟨_, rfl⟩
  have htext : l.text =
      (decimal l.pid ++ [32]) ++ (40 :: (l.comm ++ 41 :: 32 :: body ++ [10])) := by
    rw [l.text_eq, lineText, ← hbody, StatLine.name]
    simp only [List.append_assoc, List.cons_append, List.nil_append]
  have hne : 10 ∉ l.comm := fun hmem => (l.comm_ne 10 hmem).2 rfl
  have hle := h.count_le
  have hpass : ∀ c ∈ 32 :: body, pf.setOpenClose.separators c = .isSeparator ∨
      pf.setOpenClose.separators c = .isWord := by
    refine List.forall_mem_cons.mpr ⟨.inl StatFile.separators_space, ?_⟩
    rw [hbody]
    exact hplain.mem
  have hword : (l.comm ++ 41 :: 32 :: body).foldl (step pf.setOpenClose.separators)
      { line := [decimal l.pid], quoting := { opened := 1 } } =
        { line := [decimal l.pid], word := l.comm ++ 41 :: 32 :: body
          quoting := { opened := 1 + l.comm.count 40 - l.comm.count 41 - 1 } } := by
    rw [List.foldl_append, foldl_comm pf _ h hne, List.foldl_cons,
      step_of_isClose StatFile.setOpenClose_close (by dsimp only; omega),
      foldl_opened hpass (by dsimp only; omega), List.append_assoc]
    rfl
  refine ⟨32 :: body, ?_⟩
  rw [fileLines, splitLines, htext, List.foldl_append, foldl_pid, foldl_open, List.foldl_append,
    hword, List.foldl_cons, List.foldl_nil, step_of_isNewline StatFile.separators_newline]
  rfl

/-- Without words behind the second one, all numbers are zero. -/
theorem takenBy_pair_iff (a b : CString) :
    l.TakenBy perHz (ps.takeWords perHz pf [a, b]) ↔
      strlcpyComm b = cString l.comm ∧ l.NoNumbers perHz := by
  have hcomm := comm_takeWords perHz ps pf [a, b]
  have small {n : Nat} (hn : n < 2 ^ 31) (h : 0 = Int32.ofNat n) : n = 0 := by
    have hint := congrArg Int32.toInt h
    rw [Int32.toInt_ofNat_of_lt hn] at hint
    exact Int.ofNat_inj.mp hint.symm
  have hutime : (ps.takeWords perHz pf [a, b]).utimeRaw = 0 := UInt64.sub_self 0
  have hcutime : (ps.takeWords perHz pf [a, b]).cutimeRaw = 0 := UInt64.sub_self 0
  have hstart : (ps.takeWords perHz pf [a, b]).startTime = perHz 0 :=
    congrArg perHz (doubleOfUInt64_eq (Nat.zero_le _))
  have difference (n m : UInt64) : 0 = n - m ↔ n = m := by
    rw [eq_comm, UInt64.sub_eq_iff_eq_add, UInt64.zero_add]
  constructor
  · intro h
    refine ⟨hcomm.symm.trans h.comm, small l.ppid_lt h.ppid, h.minflt.symm, h.cminflt.symm,
      h.majflt.symm, h.cmajflt.symm, ?_, h.stime.symm, ?_, h.cstime.symm,
      small l.numThreads_lt h.numThreads, h.startTime.symm.trans hstart⟩
    · exact (difference _ _).mp (hutime.symm.trans h.utime)
    · exact (difference _ _).mp (hcutime.symm.trans h.cutime)
  · rintro ⟨hb, h⟩
    refine ⟨hcomm.trans hb, ?_, h.minflt.symm, h.cminflt.symm, h.majflt.symm, h.cmajflt.symm, ?_,
      h.stime.symm, ?_, h.cstime.symm, ?_, hstart.trans h.startTime.symm⟩
    · rw [h.ppid]
      rfl
    · exact hutime.trans ((difference _ _).mpr h.utime)
    · exact hcutime.trans ((difference _ _).mpr h.cutime)
    · rw [h.numThreads]
      rfl

/-- What is put behind a string is only cut off again behind 63 bytes. -/
theorem strlcpyComm_append_iff (comm : CString) (c : Char) (s : CString) :
    strlcpyComm (comm ++ c :: s) = comm ↔ comm.length = 63 := by
  rw [strlcpyComm]
  constructor
  · intro h
    have hlen := congrArg List.length h
    rw [List.length_take, List.length_append, List.length_cons] at hlen
    omega
  · intro h
    rw [← h, List.take_left]

/-- Calls behind the first one, for any name. -/
theorem takenBy_later_iff (pf : StatFile) :
    l.TakenBy perHz (ps.takeWords perHz pf.setOpenClose
        ((fileLines pf.setOpenClose.separators l.text).getD 0 [])) ↔
      KeptTogether l.comm ∧
        (l.comm.length ≤ 63 ∧ l.comm.count 40 = l.comm.count 41 ∨
          l.comm.length = 63 ∧ l.comm.count 40 ≠ l.comm.count 41 ∧ l.NoNumbers perHz) := by
  have hnz : ∀ c ∈ l.comm, c ≠ 0 := fun c hc => (l.comm_ne c hc).1
  have hlen : (cString l.comm).length = l.comm.length := by
    rw [cString_of_ne_zero hnz, List.length_map]
  by_cases hkept : KeptTogether l.comm
  · by_cases hcount : l.comm.count 40 = l.comm.count 41
    · rw [line_of_balanced pf hkept hcount, takenBy_words_iff, strlcpyComm, List.take_eq_self_iff,
        hlen]
      simp [hkept, hcount]
    · obtain ⟨rest, hline⟩ := line_of_unbalanced pf hkept hcount
      rw [hline, takenBy_pair_iff, cString_append hnz]
      change strlcpyComm (cString l.comm ++ charOf 41 :: cString rest) = _ ∧ _ ↔ _
      rw [strlcpyComm_append_iff, hlen]
      simp [hkept, hcount]
  · refine iff_of_false (fun h => ?_) fun h => hkept h.1
    refine comm_ne_of_not_kept pf hkept ?_
    rw [← comm_takeWords perHz ps pf.setOpenClose]
    exact h.comm

/-! ## The first call -/

/-- A list that is its own tail behind a byte has only this byte. -/
theorem eq_replicate_of_shift {c : UInt8} {n : Nat} {bytes : List UInt8}
    (h : c :: bytes.take n = bytes) : bytes = List.replicate (n + 1) c := by
  induction n generalizing bytes with
  | zero => exact h.symm
  | succ n ih =>
      cases bytes with
      | nil => exact absurd h (List.cons_ne_nil _ _)
      | cons d bytes =>
          obtain ⟨rfl, hbytes⟩ := List.cons.inj h
          rw [List.take_succ_cons] at hbytes
          rw [ih hbytes, ← List.replicate_succ]

theorem take_name_iff : l.name.take 63 = l.comm ↔ l.comm = List.replicate 63 40 := by
  rw [StatLine.name]
  constructor
  · intro h
    have hlen := congrArg List.length h
    rw [List.length_take, List.length_append, List.length_cons, List.length_singleton] at hlen
    have hcut : (l.comm ++ [41]).take 62 = l.comm.take 62 :=
      List.take_append_of_le_length (by omega)
    rw [List.cons_append, List.take_succ_cons, hcut] at h
    exact eq_replicate_of_shift h
  · intro h
    rw [h]
    rfl

/-- Without types for parentheses, a name of other bytes than separators is a word with its
parentheses. -/
theorem line_of_words (h : ∀ c ∈ l.name, StatFile.opened.separators c = .isWord) :
    (fileLines StatFile.opened.separators l.text).getD 0 [] =
      (l.words l.name).map cString := by
  refine fileLines_of_foldl_name ?_
  rw [List.foldl_append, foldl_word h, List.foldl_cons,
    step_of_isSeparator StatFile.separators_space rfl (List.cons_ne_nil _ _)]
  rfl

/-- A name with a separator or a carriage return is not the second word. -/
theorem comm_ne_of_not_word (h : ¬∀ c ∈ l.name, StatFile.opened.separators c = .isWord) :
    strlcpyComm (lineword ((fileLines StatFile.opened.separators l.text).getD 0 []) 1) ≠
      cString l.comm := by
  cases hfind : l.name.find? fun c => StatFile.opened.separators c ≠ .isWord with
  | none =>
      refine absurd (fun c hc => ?_) h
      simpa using List.find?_eq_none.mp hfind c hc
  | some c =>
      obtain ⟨hc, p, q, hname, hp⟩ := List.find?_eq_some_iff_append.mp hfind
      have hwords : ∀ d ∈ p, StatFile.opened.separators d = .isWord :=
        fun d hd => by simpa using hp d hd
      have hnz : ∀ d ∈ l.comm, d ≠ 0 := fun d hd => (l.comm_ne d hd).1
      have hpz : ∀ d ∈ p, d ≠ 0 := by
        rintro d hd rfl
        exact PfChar.noConfusion (hwords 0 hd : PfChar.isSeparator = PfChar.isWord)
      have hempty : p ≠ [] := by
        rintro rfl
        obtain rfl : (40 : UInt8) = c := (List.cons.inj hname).1
        simp [StatFile.opened_parenthesis] at hc
      have hended : ((p ++ [c]).foldl (step StatFile.opened.separators)
          { line := [decimal l.pid] }).Ended 0 1 p := by
        rw [List.foldl_append, foldl_word hwords, List.foldl_cons, List.foldl_nil]
        obtain hsep | hnewline | hword := StatFile.opened_cases c
        · rw [step_of_isSeparator hsep rfl hempty]
          exact ⟨_, rfl, rfl⟩
        · rw [step_of_isNewline hnewline]
          exact ⟨_, rfl, rfl⟩
        · exact absurd hword (by simpa using hc)
      have hfront : p ++ [c] <+: l.name ++ [32] := by
        refine ⟨q ++ [32], ?_⟩
        rw [hname]
        simp
      rw [lineword_of_ended_name _ hfront hended, strlcpyComm, Ne, take_cString_eq_iff hpz hnz]
      intro heq
      refine h ?_
      rw [StatLine.name, ← heq]
      refine List.forall_mem_append.mpr ⟨List.forall_mem_cons.mpr ⟨rfl, fun d hd => ?_⟩,
        List.forall_mem_singleton.mpr rfl⟩
      exact hwords d (List.mem_of_mem_take hd)

theorem takenBy_first_iff :
    l.TakenBy perHz (ps.takeWords perHz StatFile.opened
        ((fileLines StatFile.opened.separators l.text).getD 0 [])) ↔
      l.comm = List.replicate 63 40 := by
  have hnz : ∀ c ∈ l.comm, c ≠ 0 := fun c hc => (l.comm_ne c hc).1
  by_cases hword : ∀ c ∈ l.name, StatFile.opened.separators c = .isWord
  · have hname : ∀ c ∈ l.name, c ≠ 0 := by
      rw [StatLine.name]
      exact List.forall_mem_append.mpr
        ⟨List.forall_mem_cons.mpr ⟨by decide, hnz⟩, List.forall_mem_singleton.mpr (by decide)⟩
    rw [line_of_words hword, takenBy_words_iff, strlcpyComm, take_cString_eq_iff hname hnz,
      take_name_iff]
  · refine iff_of_false (fun h => ?_) fun h => hword ?_
    · refine comm_ne_of_not_word hword ?_
      rw [← comm_takeWords perHz ps StatFile.opened]
      exact h.comm
    · rw [StatLine.name, h]
      intro c hc
      refine StatFile.opened_parenthesis ?_
      obtain hc | hc := List.mem_append.mp hc
      · obtain rfl | hc := List.mem_cons.mp hc
        · exact .inl rfl
        · exact .inl (List.eq_of_mem_replicate hc)
      · exact .inr (List.mem_singleton.mp hc)

/-- When a call takes the fields of the line. -/
theorem takenBy_iff_readable (ps : ProcessStatus Seconds) (l : StatLine) :
    l.TakenBy perHz (collectorProcessCpuUsage perHz ps true (some l.text)).1 ↔
      l.Readable perHz ps := by
  rw [collectorProcessCpuUsage, StatLine.Readable]
  cases ps.pfProcPidStat with
  | none => exact takenBy_first_iff
  | some pf => exact takenBy_later_iff pf

/-- The second call for a process takes the fields of a name whose parentheses are closed. -/
theorem takenBy_of_second_call (ps : ProcessStatus Seconds) (content : List UInt8) (l : StatLine)
    (hkept : KeptTogether l.comm) (hlen : l.comm.length ≤ 63)
    (hcount : l.comm.count 40 = l.comm.count 41) :
    l.TakenBy perHz (collectorProcessCpuUsage perHz
      (collectorProcessCpuUsage perHz ps true (some content)).1 true (some l.text)).1 := by
  have hopen : ∃ pf, (collectorProcessCpuUsage perHz ps true (some content)).1.pfProcPidStat =
      some pf := by
    rw [collectorProcessCpuUsage]
    cases ps.pfProcPidStat with
    | none => exact ⟨_, rfl⟩
    | some pf => exact ⟨_, rfl⟩
  obtain ⟨pf, hpf⟩ := hopen
  rw [collectorProcessCpuUsage, hpf]
  exact (takenBy_later_iff pf).mpr ⟨hkept, .inl ⟨hlen, hcount⟩⟩

/-- A process of the name `cat`. -/
def catLine : StatLine where
  pid := 42
  comm := [99, 97, 116]
  comm_ne := by decide
  state := 83
  state_letter := by decide
  ppid := 1
  ppid_lt := by decide
  pgrp := 42
  session := 1
  ttyNr := 0
  tpgid := -1
  flags := 0
  minflt := 7
  cminflt := 0
  majflt := 0
  cmajflt := 0
  utime := 3
  stime := 2
  cutime := 0
  cstime := 0
  priority := 20
  nice := 0
  numThreads := 1
  numThreads_lt := by decide
  itrealvalue := 0
  starttime := 100
  memoryAndSignals := List.replicate 20 0
  memoryAndSignals_length := rfl
  guestTime := 0
  cguestTime := 0
  addresses := List.replicate 7 0
  addresses_length := rfl
  exitCode := 0

/-- The status of a process that has not been read. -/
def newStatus : ProcessStatus Nat where
  pfProcPidStat := none
  ppid := 0
  comm := []
  comm_lt := by decide
  minfltRaw := 0
  cminfltRaw := 0
  majfltRaw := 0
  cmajfltRaw := 0
  utimeRaw := 0
  stimeRaw := 0
  cutimeRaw := 0
  cstimeRaw := 0
  processCpuJiffies := 0
  numThreads := 0
  startTime := 0

/-- The first call takes the name with its parentheses. -/
theorem first_call_with_parentheses :
    (collectorProcessCpuUsage id newStatus true (some catLine.text)).1.comm = "(cat)".toList ∧
      ¬catLine.TakenBy id (collectorProcessCpuUsage id newStatus true (some catLine.text)).1 := by
  have hline := line_of_words (l := catLine) (by decide)
  refine ⟨?_, fun h => ?_⟩
  · change (newStatus.takeWords id StatFile.opened
      ((fileLines StatFile.opened.separators catLine.text).getD 0 [])).comm = _
    rw [comm_takeWords, hline]
    rfl
  · exact absurd (takenBy_first_iff.mp h) (by decide)

end XMonitor.Process
