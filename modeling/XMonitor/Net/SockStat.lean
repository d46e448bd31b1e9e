import Mathlib.Data.List.Induction
import XMonitor.Utils.ArlComplete

/-!
# The sections of sockstat

A line of `/proc/net/sockstat` is a section with keywords and their values. The collector has
a keyword list for each section and finds the list of a line by comparing the first letters
of its first word. `UDP` is compared before `UDPLITE`, of which it is a prefix, so that the
list of `UDP` reads both lines and the list of `UDPLITE` none.
-/

namespace XMonitor.Net

/-- `struct proc_net_sockstat`, without the limits that are read only once. -/
inductive SockstatField
  | socketsUsed | tcpInuse | tcpOrphan | tcpTw | tcpAlloc | tcpMem | udpInuse | udpMem
  | rawInuse | fragInuse | fragMemory
deriving DecidableEq, Repr

inductive SockstatSection
  | sockets | tcp | udp | udplite | raw | frag
deriving DecidableEq, Repr

namespace SockstatSection

/-- The first word of the line. -/
def name : SockstatSection → CString
  | .sockets => "sockets".toList
  | .tcp => "TCP".toList
  | .udp => "UDP".toList
  | .udplite => "UDPLITE".toList
  | .raw => "RAW".toList
  | .frag => "FRAG".toList

/-- The keywords that `init_collector_proc_net_sockstat` expects. -/
def keywords : SockstatSection → List (CString × SockstatField)
  | .sockets => [("used".toList, .socketsUsed)]
  | .tcp =>
    [("inuse".toList, .tcpInuse), ("orphan".toList, .tcpOrphan), ("tw".toList, .tcpTw),
      ("alloc".toList, .tcpAlloc), ("mem".toList, .tcpMem)]
  | .udp => [("inuse".toList, .udpInuse), ("mem".toList, .udpMem)]
  | .udplite => []
  | .raw => [("inuse".toList, .rawInuse)]
  | .frag => [("inuse".toList, .fragInuse), ("memory".toList, .fragMemory)]

end SockstatSection

/-- The static variables: the keyword lists and the fields that they write. -/
structure Sockstat where
  arl : SockstatSection → ArlBase SockstatField
  fields : SockstatField → UInt64

def initCollectorProcNetSockstat : Sockstat where
  arl sec := arlExpectAll 3 sec.keywords
  fields _ := 0

/-- `strncmp(s, t, n) == 0`. -/
def strncmpEq (s t : CString) (n : Nat) : Bool := s.take n = t.take n

/-- The list that a line is for, by its first word. -/
def baseOf (key : CString) : Option SockstatSection :=
  if strncmpEq "sockets".toList key 7 then some .sockets
  else if strncmpEq "TCP".toList key 3 then some .tcp
  else if strncmpEq "UDP".toList key 3 then some .udp
  else if strncmpEq "RAW".toList key 3 then some .raw
  else if strncmpEq "FRAG".toList key 4 then some .frag
  else if strncmpEq "UDPLITE".toList key 7 then some .udplite
  else none

/-- The names and values among the words behind the first. -/
def namesAndValues : List CString → List (CString × CString)
  | name :: value :: words => (name, value) :: namesAndValues words
  | _ => []

/-- `arl_callback_str2ull`. -/
def arlCallbackStr2ull (fields : SockstatField → UInt64) (call : SockstatField × CString) :
    SockstatField → UInt64 :=
  Function.update fields call.1 (str2uint64 call.2)

/-- Read names and values with a keyword list, until it has found what it wants. -/
def Sockstat.read (s : Sockstat) (base : SockstatSection) (pairs : List (CString × CString)) :
    Sockstat :=
  let (arl, calls) := arlRead (s.arl base) pairs
  { arl := Function.update s.arl base arl, fields := calls.foldl arlCallbackStr2ull s.fields }

def Sockstat.line (s : Sockstat) (words : List CString) : Sockstat :=
  match baseOf (lineword words 0) with
  | none => s
  | some base => s.read base (namesAndValues words.tail)

def Sockstat.begin_ (s : Sockstat) : Sockstat := { s with arl := fun sec => arlBegin (s.arl sec) }

/-- The value that a gauge is set to: memory is counted in pages. -/
def sockstatGauge (pgSizeKb value : UInt64) : SockstatField → Nat
  | .tcpMem | .udpMem | .fragMemory => doubleOfUInt64 (value * pgSizeKb)
  | _ => doubleOfUInt64 value

/-- A gauge is exact as long as a `double` holds the product. -/
theorem sockstatGauge_eq {pgSizeKb value : UInt64} (hpages : 1 ≤ pgSizeKb.toNat)
    (h : value.toNat * pgSizeKb.toNat ≤ 2 ^ 53) (field : SockstatField) :
    sockstatGauge pgSizeKb value field =
      value.toNat * if field ∈ [.tcpMem, .udpMem, .fragMemory] then pgSizeKb.toNat else 1 := by
  have hmul : (value * pgSizeKb).toNat = value.toNat * pgSizeKb.toNat := by
    rw [UInt64.toNat_mul, Nat.mod_eq_of_lt (by omega)]
  have hvalue : value.toNat ≤ 2 ^ 53 := Nat.le_trans (Nat.le_mul_of_pos_right _ hpages) h
  have hpagesGauge : doubleOfUInt64 (value * pgSizeKb) = value.toNat * pgSizeKb.toNat :=
    (doubleOfUInt64_eq (hmul ▸ h)).trans hmul
  have hplain : doubleOfUInt64 value = value.toNat * 1 := by
    rw [doubleOfUInt64_eq hvalue, Nat.mul_one]
  cases field with
  | tcpMem | udpMem | fragMemory => exact hpagesGauge
  | _ => exact hplain

/-- `collector_proc_net_sockstat`, with the values of the gauges. -/
def collectorProcNetSockstat (pgSizeKb : UInt64) (s : Sockstat) (lines : ProcFile) :
    Sockstat × (SockstatField → Nat) :=
  let s := lines.foldl Sockstat.line s.begin_
  (s, fun field => sockstatGauge pgSizeKb (s.fields field) field)

/-! ## Files -/

/-- A section with its keywords and their values. -/
abbrev SockstatRow := SockstatSection × List (CString × CString)

def SockstatRow.words (row : SockstatRow) : List CString :=
  row.1.name :: row.2.flatMap fun pair => [pair.1, pair.2]

/-- A file with a line for each section, and empty lines perhaps. -/
structure SockstatFile where
  lines : ProcFile
  rows : List SockstatRow
  lines_eq : lines.filter (fun line => line ≠ []) = rows.map SockstatRow.words
  sections : (rows.map Prod.fst).Perm [.sockets, .tcp, .udp, .udplite, .raw, .frag]
  complete : ∀ row ∈ rows, Complete row.1.keywords row.2

/-- The gauges have the values that the section has in the file. -/
def SockstatFile.Shows (file : SockstatFile) (pgSizeKb : UInt64) (gauges : SockstatField → Nat)
    (sec : SockstatSection) : Prop :=
  ∀ pairs, (sec, pairs) ∈ file.rows → ∀ keyword field value, (keyword, field) ∈ sec.keywords →
    (keyword, value) ∈ pairs →
      gauges field = sockstatGauge pgSizeKb (str2uint64 value) field

/-- The static variables after rounds that have read the files. -/
def runSockstat (pgSizeKb : UInt64) (files : List SockstatFile) : Sockstat :=
  files.foldl (fun s file => (collectorProcNetSockstat pgSizeKb s file.lines).1)
    initCollectorProcNetSockstat

/-- The list that reads the line of a section. -/
def SockstatSection.base : SockstatSection → SockstatSection
  | .udplite => .udp
  | sec => sec

/-- The line of `UDPLITE` does no harm. Behind that of `UDP` it must not begin with a keyword
of `UDP`. In front of it, it has none of them, or all of them and the line of `UDP` begins
with one. -/
def SockstatFile.UdpApart (file : SockstatFile) : Prop :=
  ∃ udp udplite,
    (file.rows.filter (fun row => row.1.base = .udp) = [(.udp, udp), (.udplite, udplite)] ∧
      ∀ pair ∈ udplite.head?, pair.1 ∉ SockstatSection.udp.keywords.map Prod.fst) ∨
    (file.rows.filter (fun row => row.1.base = .udp) = [(.udplite, udplite), (.udp, udp)] ∧
      ((∀ pair ∈ udplite, pair.1 ∉ SockstatSection.udp.keywords.map Prod.fst) ∨
        (∀ keyword ∈ SockstatSection.udp.keywords.map Prod.fst,
            keyword ∈ udplite.map Prod.fst) ∧
          ∃ pair ∈ udp.head?, pair.1 ∈ SockstatSection.udp.keywords.map Prod.fst))

/-! ## Lines -/

theorem baseOf_name (sec : SockstatSection) : baseOf sec.name = some sec.base := by
  cases sec <;> decide

theorem namesAndValues_flatMap (pairs : List (CString × CString)) :
    namesAndValues (pairs.flatMap fun pair => [pair.1, pair.2]) = pairs := by
  induction pairs with
  | nil => rfl
  | cons pair pairs ih => exact congrArg (pair :: ·) ih

theorem line_words (s : Sockstat) (row : SockstatRow) :
    s.line row.words = s.read row.1.base row.2 := by
  change (match baseOf row.1.name with
    | none => s
    | some base => s.read base
        (namesAndValues (row.2.flatMap fun pair : CString × CString => [pair.1, pair.2]))) = _
  rw [baseOf_name, namesAndValues_flatMap]

/-- The rows of a file are read, and its empty lines are not. -/
theorem SockstatFile.foldl_line (file : SockstatFile) (s : Sockstat) :
    file.lines.foldl Sockstat.line s =
      file.rows.foldl (fun s row => s.read row.1.base row.2) s := by
  have hskip : file.lines.foldl Sockstat.line s =
      (file.lines.filter fun line => line ≠ []).foldl Sockstat.line s := by
    rw [List.foldl_filter]
    congr 1
    funext s line
    cases line <;> rfl
  rw [hskip, file.lines_eq, List.foldl_map]
  congr 1
  funext s row
  exact line_words s row

/-! ## Lists do not write the fields of others -/

/-- Two states agree on the list of a section and its fields. -/
def SameOn (sec : SockstatSection) (s s' : Sockstat) : Prop :=
  s.arl sec = s'.arl sec ∧ ∀ field ∈ sec.keywords.map Prod.snd, s.fields field = s'.fields field

theorem SameOn.refl (sec : SockstatSection) (s : Sockstat) : SameOn sec s s :=
  ⟨rfl, fun _ _ => rfl⟩

theorem nodup_keywords (sec : SockstatSection) : (sec.keywords.map Prod.fst).Nodup := by
  cases sec <;> decide

theorem nodup_fields (sec : SockstatSection) : (sec.keywords.map Prod.snd).Nodup := by
  cases sec <;> decide

/-- The section that a field belongs to. -/
def SockstatField.sec : SockstatField → SockstatSection
  | .socketsUsed => .sockets
  | .tcpInuse | .tcpOrphan | .tcpTw | .tcpAlloc | .tcpMem => .tcp
  | .udpInuse | .udpMem => .udp
  | .rawInuse => .raw
  | .fragInuse | .fragMemory => .frag

theorem sec_of_mem {sec : SockstatSection} {field : SockstatField}
    (h : field ∈ sec.keywords.map Prod.snd) : field.sec = sec := by
  have hall : ∀ field ∈ sec.keywords.map Prod.snd, field.sec = sec := by
    cases sec <;> decide
  exact hall field h

/-- Every list is a dictionary of the keywords of its section. -/
def Sockstat.Dictionaries (s : Sockstat) : Prop :=
  ∀ sec, (s.arl sec).Dictionary sec.keywords

variable {s s' : Sockstat} {sec base : SockstatSection} {pairs : List (CString × CString)}

theorem Sockstat.Dictionaries.read (h : s.Dictionaries) (base : SockstatSection)
    (pairs : List (CString × CString)) : (s.read base pairs).Dictionaries := by
  intro sec
  change (Function.update s.arl base (arlRead (s.arl base) pairs).1 sec).Dictionary sec.keywords
  by_cases hsec : sec = base
  · subst hsec
    rw [Function.update_self]
    exact (h sec).arlRead pairs
  · rw [Function.update_of_ne hsec]
    exact h sec

theorem Sockstat.read_arl (s : Sockstat) (base : SockstatSection)
    (pairs : List (CString × CString)) :
    (s.read base pairs).arl base = (arlRead (s.arl base) pairs).1 :=
  Function.update_self ..

theorem SameOn.read (h : SameOn sec s s') (pairs : List (CString × CString)) :
    SameOn sec (s.read sec pairs) (s'.read sec pairs) := by
  obtain ⟨harl, hfields⟩ := h
  refine ⟨by rw [s.read_arl, s'.read_arl, harl], fun field hfield => ?_⟩
  change (arlRead (s.arl sec) pairs).2.foldl arlCallbackStr2ull s.fields field =
    (arlRead (s'.arl sec) pairs).2.foldl arlCallbackStr2ull s'.fields field
  rw [harl]
  exact foldl_update_congr str2uint64 (.inl (hfields field hfield))

theorem Sockstat.Dictionaries.sameOn_read (h : s.Dictionaries) (hne : base ≠ sec)
    (pairs : List (CString × CString)) : SameOn sec (s.read base pairs) s := by
  refine ⟨Function.update_of_ne (Ne.symm hne) .., fun field hfield => ?_⟩
  refine foldl_update_of_notMem str2uint64 ?_ s.fields
  intro hmem
  obtain ⟨call, hcall, rfl⟩ := List.mem_map.mp hmem
  have hother := sec_of_mem ((h base).dst_mem hcall)
  exact hne (hother.symm.trans (sec_of_mem hfield))

/-- For a section only the rows count that its list reads. -/
theorem Sockstat.Dictionaries.sameOn_foldl (h : s.Dictionaries) (hsame : SameOn sec s s')
    (rows : List SockstatRow) :
    SameOn sec (rows.foldl (fun s row => s.read row.1.base row.2) s)
      ((rows.filter fun row => row.1.base = sec).foldl
        (fun s row => s.read row.1.base row.2) s') := by
  induction rows generalizing s s' with
  | nil => exact hsame
  | cons row rows ih =>
      rw [List.foldl_cons, List.filter_cons]
      split
      · rename_i hbase
        have hbase := of_decide_eq_true hbase
        refine ih (h.read _ _) ?_
        change SameOn sec (s.read row.1.base row.2) (s'.read row.1.base row.2)
        rw [hbase]
        exact hsame.read row.2
      · rename_i hbase
        have hbase : row.1.base ≠ sec := fun heq => hbase (decide_eq_true heq)
        obtain ⟨harl, hfields⟩ := h.sameOn_read hbase row.2
        refine ih (h.read _ _) ⟨harl.trans hsame.1, fun field hfield => ?_⟩
        exact (hfields field hfield).trans (hsame.2 field hfield)

/-! ## A section in a round -/

/-- The list of a section has read the line of the section to its last expected keyword. -/
structure Sockstat.HasRead (s : Sockstat) (sec : SockstatSection)
    (pairs : List (CString × CString)) : Prop where
  wantsAll : (s.arl sec).WantsAll sec.keywords
  flagged : ∀ keyword ∈ sec.keywords.map Prod.fst, (s.arl sec).Flagged keyword
  stored : ∀ keyword field value, (keyword, field) ∈ sec.keywords → (keyword, value) ∈ pairs →
    s.fields field = str2uint64 value

theorem Sockstat.HasRead.settled (h : s.HasRead sec pairs) : (s.arl sec).Settled sec.keywords :=
  h.wantsAll.settled (nodup_keywords sec) h.flagged

theorem Sockstat.HasRead.sameOn (h : s'.HasRead sec pairs) (hsame : SameOn sec s s') :
    s.HasRead sec pairs := by
  obtain ⟨harl, hfields⟩ := hsame
  refine ⟨harl ▸ h.wantsAll, harl ▸ h.flagged, fun keyword field value hkeyword hpair => ?_⟩
  rw [hfields field (List.mem_map_of_mem (f := Prod.snd) hkeyword)]
  exact h.stored keyword field value hkeyword hpair

/-- Reading the line of the section with all of its calls. -/
theorem hasRead_read (h : (s.arl sec).WantsAll sec.keywords)
    (hpairs : Complete sec.keywords pairs)
    (hfound : (s.arl sec).found = 0 ∨ (s.arl sec).found = sec.keywords.length ∧
      ∃ pair ∈ pairs.head?, pair.1 ∈ sec.keywords.map Prod.fst) :
    (s.read sec pairs).HasRead sec pairs := by
  have hdistinct := nodup_keywords sec
  have hcalls := h.calls_complete hdistinct hpairs hfound
  refine ⟨?_, fun keyword hkeyword => ?_, fun keyword field value hkeyword hpair => ?_⟩
  · rw [s.read_arl]
    exact h.arlRead pairs
  · rw [s.read_arl]
    obtain ⟨pair, hpair, rfl⟩ := List.mem_map.mp (hpairs.all keyword hkeyword)
    exact h.flagged_arlRead hpair ((isSome_destination hdistinct).mpr hkeyword) hcalls
  · change (arlRead (s.arl sec) pairs).2.foldl arlCallbackStr2ull s.fields field = _
    rw [hcalls]
    exact hpairs.stored str2uint64 hdistinct (nodup_fields sec) hkeyword hpair s.fields

/-- Reading another line without any call. -/
theorem Sockstat.HasRead.read (h : s.HasRead sec pairs) {more : List (CString × CString)}
    (hcalls : (arlRead (s.arl sec) more).2 = []) : (s.read sec more).HasRead sec pairs := by
  refine ⟨?_, fun keyword hkeyword => ?_, fun keyword field value hkeyword hpair => ?_⟩
  · rw [s.read_arl]
    exact h.wantsAll.arlRead more
  · rw [s.read_arl]
    exact (h.flagged keyword hkeyword).arlRead more
  · change (arlRead (s.arl sec) more).2.foldl arlCallbackStr2ull s.fields field = _
    rw [hcalls]
    exact h.stored keyword field value hkeyword hpair

/-- A list reads the lines of its sections. -/
theorem SockstatFile.filter_base_perm (file : SockstatFile) (sec : SockstatSection) :
    ((file.rows.filter fun row => row.1.base = sec).map Prod.fst).Perm
      ([.sockets, .tcp, .udp, .udplite, .raw, .frag].filter
        fun sec' : SockstatSection => sec'.base = sec) := by
  have hperm := file.sections.filter fun sec' : SockstatSection => decide (sec'.base = sec)
  rw [List.filter_map] at hperm
  exact hperm

theorem base_self (hsome : sec.keywords ≠ []) : sec.base = sec := by
  cases sec with
  | udplite => exact absurd rfl hsome
  | _ => rfl

/-- Every section but that of `UDP` has one line that its list reads. -/
theorem SockstatFile.filter_base (file : SockstatFile) (hsec : sec ≠ .udp)
    (hsome : sec.keywords ≠ []) (hpairs : (sec, pairs) ∈ file.rows) :
    file.rows.filter (fun row => row.1.base = sec) = [(sec, pairs)] := by
  have hsingle : (file.rows.filter fun row => row.1.base = sec).map Prod.fst = [sec] := by
    apply List.perm_singleton.mp
    refine (file.filter_base_perm sec).trans ?_
    cases sec with
    | udp => exact absurd rfl hsec
    | udplite => exact absurd rfl hsome
    | _ => exact List.Perm.refl _
  have hmem : (sec, pairs) ∈ file.rows.filter fun row => row.1.base = sec :=
    List.mem_filter.mpr ⟨hpairs, decide_eq_true (base_self hsome)⟩
  obtain ⟨row, hrow, -⟩ := List.map_eq_singleton_iff.mp hsingle
  rw [hrow] at hmem ⊢
  rw [List.mem_singleton.mp hmem]

theorem Sockstat.Dictionaries.begin_ (h : s.Dictionaries) : s.begin_.Dictionaries :=
  fun sec => (h sec).arlBegin

/-- A section of which the list reads a single line. -/
theorem SockstatFile.hasRead_single (file : SockstatFile) (h : s.Dictionaries)
    (hsettled : (s.arl sec).Settled sec.keywords) (hsome : sec.keywords ≠ [])
    (hsec : sec ≠ .udp) (hpairs : (sec, pairs) ∈ file.rows) :
    (file.lines.foldl Sockstat.line s.begin_).HasRead sec pairs := by
  have hsame := h.begin_.sameOn_foldl (SameOn.refl sec s.begin_) file.rows
  rw [← file.foldl_line, file.filter_base hsec hsome hpairs] at hsame
  change SameOn sec _ (s.begin_.read sec.base pairs) at hsame
  rw [base_self hsome] at hsame
  exact (hasRead_read (hsettled.arlBegin hsome) (file.complete _ hpairs)
    (.inl (arlBegin_found (s.arl sec)))).sameOn hsame

theorem Sockstat.found_read (s : Sockstat) (sec : SockstatSection)
    {pairs : List (CString × CString)}
    (hcalls : (arlRead (s.arl sec) pairs).2 = allCalls sec.keywords pairs) :
    ((s.read sec pairs).arl sec).found =
      (s.arl sec).found + present sec.keywords pairs := by
  rw [s.read_arl, arlRead_found, hcalls, length_allCalls]

/-- The list of `UDP`, which reads two lines. -/
theorem SockstatFile.hasRead_udp (file : SockstatFile) (h : s.Dictionaries)
    (hsettled : (s.arl .udp).Settled SockstatSection.udp.keywords) (hapart : file.UdpApart)
    (hpairs : (.udp, pairs) ∈ file.rows) :
    (file.lines.foldl Sockstat.line s.begin_).HasRead .udp pairs := by
  have hsome : SockstatSection.udp.keywords ≠ [] := List.cons_ne_nil _ _
  have hdistinct := nodup_keywords .udp
  have hwants : (s.begin_.arl .udp).WantsAll SockstatSection.udp.keywords :=
    hsettled.arlBegin hsome
  have hzero : (s.begin_.arl .udp).found = 0 := arlBegin_found (s.arl .udp)
  have hsame := h.begin_.sameOn_foldl (SameOn.refl .udp s.begin_) file.rows
  rw [← file.foldl_line] at hsame
  have hmem : (SockstatSection.udp, pairs) ∈ file.rows.filter fun row => row.1.base = .udp :=
    List.mem_filter.mpr ⟨hpairs, decide_eq_true rfl⟩
  have hcomplete := file.complete _ hpairs
  obtain ⟨udp, udplite, ⟨hrows, hhead⟩ | ⟨hrows, hlite⟩⟩ := hapart
  · -- the line of `UDP` comes first
    rw [hrows] at hmem hsame
    have hudp : pairs = udp := by simpa using hmem
    subst hudp
    have hread := hasRead_read hwants hcomplete (.inl hzero)
    have hfound := s.begin_.found_read .udp
      (hwants.calls_complete hdistinct hcomplete (.inl hzero))
    rw [hzero, hcomplete.present hdistinct, Nat.zero_add] at hfound
    exact (hread.read (hread.wantsAll.calls_stopped hdistinct hfound hhead)).sameOn hsame
  · rw [hrows] at hmem hsame
    have hudp : pairs = udp := by simpa using hmem
    subst hudp
    have hwants' : ((s.begin_.read .udp udplite).arl .udp).WantsAll
        SockstatSection.udp.keywords := by
      rw [s.begin_.read_arl]
      exact hwants.arlRead udplite
    refine (hasRead_read hwants' hcomplete ?_).sameOn hsame
    obtain hnone | ⟨hall, hhead⟩ := hlite
    · left
      have hpresent : present SockstatSection.udp.keywords udplite = 0 := by
        rw [present, List.countP_eq_zero]
        intro pair hpair
        rw [isSome_destination hdistinct]
        exact hnone pair hpair
      rw [s.begin_.found_read .udp (hwants.calls_of_present hpresent), hpresent, hzero]
    · right
      have hmem' : (SockstatSection.udplite, udplite) ∈ file.rows :=
        (List.mem_filter.mp (hrows ▸ List.mem_cons_self)).1
      have hcomplete' : Complete SockstatSection.udp.keywords udplite :=
        ⟨(file.complete _ hmem').nodup, hall⟩
      refine ⟨?_, hhead⟩
      rw [s.begin_.found_read .udp (hwants.calls_complete hdistinct hcomplete' (.inl hzero)),
        hcomplete'.present hdistinct, hzero, Nat.zero_add]

/-! ## Runs -/

theorem dictionaries_init : initCollectorProcNetSockstat.Dictionaries :=
  fun sec => arlExpectAll_dictionary 3 (nodup_keywords sec)

theorem Sockstat.Dictionaries.foldl_line (h : s.Dictionaries) (file : SockstatFile) :
    (file.lines.foldl Sockstat.line s.begin_).Dictionaries := by
  rw [file.foldl_line]
  have hrows : ∀ (rows : List SockstatRow) (s : Sockstat), s.Dictionaries →
      (rows.foldl (fun s row => s.read row.1.base row.2) s).Dictionaries := by
    intro rows
    induction rows with
    | nil => exact fun s hs => hs
    | cons row rows ih => exact fun s hs => ih _ (hs.read row.1.base row.2)
  exact hrows file.rows _ h.begin_

/-- A round, for a section that is not disturbed in it. -/
theorem SockstatFile.hasRead_line (file : SockstatFile) (h : s.Dictionaries)
    (hsettled : (s.arl sec).Settled sec.keywords) (hsome : sec.keywords ≠ [])
    (hapart : sec = .udp → file.UdpApart) (hpairs : (sec, pairs) ∈ file.rows) :
    (file.lines.foldl Sockstat.line s.begin_).HasRead sec pairs := by
  by_cases hsec : sec = .udp
  · subst hsec
    exact file.hasRead_udp h hsettled (hapart rfl) hpairs
  · exact file.hasRead_single h hsettled hsome hsec hpairs

theorem SockstatFile.exists_pairs (file : SockstatFile) (sec : SockstatSection) :
    ∃ pairs, (sec, pairs) ∈ file.rows := by
  have hmem : sec ∈ file.rows.map Prod.fst := by
    rw [file.sections.mem_iff]
    cases sec <;> decide
  obtain ⟨⟨_, pairs⟩, hrow, rfl⟩ := List.mem_map.mp hmem
  exact ⟨pairs, hrow⟩

theorem runSockstat_concat (pgSizeKb : UInt64) (files : List SockstatFile) (file : SockstatFile) :
    runSockstat pgSizeKb (files ++ [file]) =
      file.lines.foldl Sockstat.line (runSockstat pgSizeKb files).begin_ := by
  rw [runSockstat, List.foldl_concat]
  rfl

theorem dictionaries_run (pgSizeKb : UInt64) (files : List SockstatFile) :
    (runSockstat pgSizeKb files).Dictionaries := by
  induction files using List.reverseRecOn with
  | nil => exact dictionaries_init
  | append_singleton files file ih =>
      rw [runSockstat_concat]
      exact ih.foldl_line file

theorem settled_run (pgSizeKb : UInt64) {files : List SockstatFile} (hsome : sec.keywords ≠ [])
    (hapart : sec = .udp → ∀ file ∈ files, file.UdpApart) :
    ((runSockstat pgSizeKb files).arl sec).Settled sec.keywords := by
  induction files using List.reverseRecOn with
  | nil => exact arlExpectAll_settled 3 (nodup_keywords sec)
  | append_singleton files file ih =>
      obtain ⟨pairs, hpairs⟩ := file.exists_pairs sec
      rw [runSockstat_concat]
      refine (file.hasRead_line (dictionaries_run pgSizeKb files) (ih fun hsec => ?_) hsome
        (fun hsec => ?_) hpairs).settled
      · exact fun file' hfile' => hapart hsec file' (List.mem_append_left _ hfile')
      · exact hapart hsec file (List.mem_append_right _ List.mem_cons_self)

/-- After every round the gauges of every section but `UDP` have the values of that section,
and those of `UDP` too if the line of `UDPLITE` has done no harm in this round and those
before. -/
theorem sections_shown (pgSizeKb : UInt64) (files : List SockstatFile) (file : SockstatFile)
    (sec : SockstatSection)
    (hapart : sec = .udp → ∀ file' ∈ files ++ [file], file'.UdpApart) :
    file.Shows pgSizeKb
      (collectorProcNetSockstat pgSizeKb (runSockstat pgSizeKb files) file.lines).2 sec := by
  intro pairs hpairs keyword field value hkeyword hpair
  have hsome : sec.keywords ≠ [] := List.ne_nil_of_mem hkeyword
  have hread := file.hasRead_line (dictionaries_run pgSizeKb files)
    (settled_run pgSizeKb hsome fun hsec file' hfile' =>
      hapart hsec file' (List.mem_append_left _ hfile')) hsome
    (fun hsec => hapart hsec file (List.mem_append_right _ List.mem_cons_self)) hpairs
  exact congrArg (sockstatGauge pgSizeKb · field)
    (hread.stored keyword field value hkeyword hpair)

/-- A file as the kernel writes it, up to the line of `UDPLITE`. -/
def sockstatRows (udplite : List (CString × CString)) : List SockstatRow :=
  [(.sockets, [("used".toList, "290".toList)]),
    (.tcp, [("inuse".toList, "4".toList), ("orphan".toList, "0".toList),
      ("tw".toList, "1".toList), ("alloc".toList, "5".toList), ("mem".toList, "2".toList)]),
    (.udp, [("inuse".toList, "3".toList), ("mem".toList, "2".toList)]),
    (.udplite, udplite),
    (.raw, [("inuse".toList, "0".toList)]),
    (.frag, [("inuse".toList, "0".toList), ("memory".toList, "0".toList)])]

def sockstatFile (udplite : List (CString × CString)) (h : (udplite.map Prod.fst).Nodup) :
    SockstatFile where
  lines := (sockstatRows udplite).map SockstatRow.words
  rows := sockstatRows udplite
  lines_eq := rfl
  sections := List.Perm.refl _
  complete := by
    intro row hrow
    simp only [sockstatRows, List.mem_cons, List.not_mem_nil, or_false] at hrow
    obtain rfl | rfl | rfl | rfl | rfl | rfl := hrow
    case inr.inr.inr.inl => exact ⟨h, fun keyword hkeyword => absurd hkeyword List.not_mem_nil⟩
    all_goals exact ⟨by decide, by decide⟩

/-- Nothing happens while the line of `UDPLITE` is empty. -/
theorem emptyUdplite_apart :
    (sockstatFile [] List.nodup_nil).Shows 4
      (collectorProcNetSockstat 4 (runSockstat 4 []) (sockstatFile [] List.nodup_nil).lines).2
      .udp := by
  refine sections_shown 4 [] _ .udp fun _ file hfile => ?_
  obtain rfl := List.mem_singleton.mp hfile
  refine ⟨[("inuse".toList, "3".toList), ("mem".toList, "2".toList)], [], .inl ⟨rfl, ?_⟩⟩
  intro pair hpair
  cases hpair

/-- With the line that the kernel writes, the sockets of `UDPLITE` are shown for `UDP`. -/
theorem udplite_shown_for_udp : ¬ ∀ pgSizeKb files file sec, SockstatFile.Shows file pgSizeKb
    (collectorProcNetSockstat pgSizeKb (runSockstat pgSizeKb files) file.lines).2 sec := by
  intro hclaim
  have hudp := hclaim 4 [] (sockstatFile [("inuse".toList, "0".toList)] (by decide)) .udp
    [("inuse".toList, "3".toList), ("mem".toList, "2".toList)] (by decide) "inuse".toList
    .udpInuse "3".toList (by decide) (by decide)
  revert hudp
  decide

end XMonitor.Net
