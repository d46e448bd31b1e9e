import XMonitor.Utils.MountInfo

/-!
# Reading what the kernel prints

The kernel prints a line for each mount. In the root, the mount point and the source it escapes
spaces, tabs, newlines and backslashes; the other texts have no white space. The reader takes
every byte that is not printable for a separator or a newline, decodes the source only, and
loses the slashes at the end of a source.
-/

namespace XMonitor.MountInfo

open Lib Procfile

/-- A text of the kernel. -/
structure Text where
  bytes : List UInt8
  ne_nil : bytes ≠ []
  ne_zero : ∀ c ∈ bytes, c ≠ 0

/-- A text that is printed as it is. -/
structure PlainText extends Text where
  ne_space : ∀ c ∈ bytes, c ≠ 32 ∧ c ≠ 9 ∧ c ≠ 10

/-- `isgraph`. -/
def isgraph (c : UInt8) : Bool := 33 ≤ c ∧ c ≤ 126

/-- An optional field, such as a tag with a number. -/
structure OptionalField where
  bytes : List UInt8
  ne_nil : bytes ≠ []
  graphic : ∀ c ∈ bytes, isgraph c = true
  no_dash : bytes.head? ≠ some 45

/-- A mount of the kernel. -/
structure Mount where
  id : Int
  parentId : Int
  major : Nat
  minor : Nat
  root : Text
  mountPoint : Text
  mountOptions : PlainText
  optionalFields : List OptionalField
  filesystem : PlainText
  mountSource : Text
  superOptions : PlainText

/-- A byte is printed as a backslash and three octal digits. -/
def Escaped (c : UInt8) : Prop := c = 32 ∨ c = 9 ∨ c = 10 ∨ c = 92

instance (c : UInt8) : Decidable (Escaped c) := inferInstanceAs (Decidable (_ ∨ _))

def escapeByte (c : UInt8) : List UInt8 :=
  if Escaped c then [92, 48 + c / 64, 48 + c / 8 % 8, 48 + c % 8] else [c]

def escape (s : List UInt8) : List UInt8 := s.flatMap escapeByte

namespace Mount

/-- The words in front of the source. -/
def front (m : Mount) : List (List UInt8) :=
  [decimalInt m.id, decimalInt m.parentId, decimal m.major ++ 58 :: decimal m.minor,
    escape m.root.bytes, escape m.mountPoint.bytes, m.mountOptions.bytes] ++
  (m.optionalFields.map OptionalField.bytes ++ [[45], m.filesystem.bytes])

/-- What stands behind these words. -/
def back (m : Mount) : List UInt8 := escape m.mountSource.bytes ++ 32 :: m.superOptions.bytes

/-- A line of the file. -/
def print (m : Mount) : List UInt8 := (m.front.flatMap fun w => w ++ [32]) ++ m.back

/-- A node has the texts of a mount, and the number of its optional fields. It is read-only
exactly if `ro` is among the options. -/
structure Reads (m : Mount) (mi : Mountinfo) : Prop where
  root : mi.root = cString m.root.bytes
  mountPoint : mi.mountPoint = cString m.mountPoint.bytes
  mountOptions : mi.mountOptions = cString m.mountOptions.bytes
  optionalFieldsCount : mi.optionalFieldsCount.toInt = m.optionalFields.length
  filesystem : mi.filesystem = some (cString m.filesystem.bytes)
  mountSource : mi.mountSource = some (cString m.mountSource.bytes)
  superOptions : mi.superOptions = some (cString m.superOptions.bytes)
  readonly : mi.HasFlag flagReadonly ↔
    ['r', 'o'] ∈ (cString m.mountOptions.bytes).splitOn ',' ∨
      ['r', 'o'] ∈ (cString m.superOptions.bytes).splitOn ','

/-- The texts that are not decoded are printable. -/
structure Graphic (m : Mount) : Prop where
  root : ∀ c ∈ m.root.bytes, isgraph c = true
  mountPoint : ∀ c ∈ m.mountPoint.bytes, isgraph c = true
  mountOptions : ∀ c ∈ m.mountOptions.bytes, isgraph c = true
  filesystem : ∀ c ∈ m.filesystem.bytes, isgraph c = true
  superOptions : ∀ c ∈ m.superOptions.bytes, isgraph c = true

/-- So is the source, apart from white space that is escaped. -/
structure OneLine (m : Mount) : Prop extends Graphic m where
  mountSource : ∀ c ∈ m.mountSource.bytes, isgraph c = true ∨ Escaped c

/-- Besides, the root and the mount point have no backslash, and the source does not end in a
slash, or it is nothing else. -/
structure Kept (m : Mount) : Prop extends OneLine m where
  root_backslash : 92 ∉ m.root.bytes
  mountPoint_backslash : 92 ∉ m.mountPoint.bytes
  mountSource_slash : m.mountSource.bytes.getLast? ≠ some 47 ∨ ∀ c ∈ m.mountSource.bytes, c = 47
  optionalFields : m.optionalFields.length < 2 ^ 31

end Mount

/-- The bytes of the file. -/
def mountinfoFile (mounts : List Mount) : List UInt8 :=
  mounts.flatMap fun m => m.print ++ [10]

/-! ## Bytes -/

theorem isWord_iff (c : UInt8) : mountSeparators c = .isWord ↔ isgraph c = true := by
  have hgraph : isgraph c = true ↔ 33 ≤ c.toNat ∧ c.toNat ≤ 126 := by
    rw [isgraph, decide_eq_true_iff, UInt8.le_iff_toNat_le, UInt8.le_iff_toNat_le]
    rfl
  rw [hgraph]
  constructor
  · intro h
    rw [mountSeparators, procfileSetSeparators] at h
    split at h
    · cases h
    rw [defSepsType] at h
    split at h
    · cases h
    split at h
    · cases h
    rename_i hspaces _ hprint
    have hne : c.toNat ≠ 32 := fun heq =>
      hspaces (List.mem_cons.mpr (.inl (UInt8.toNat_inj.mp heq)))
    have hprintable : isprint c = true := by
      by_contra hnot
      exact hprint (.inr hnot)
    rw [isprint, decide_eq_true_iff, UInt8.le_iff_toNat_le, UInt8.le_iff_toNat_le] at hprintable
    obtain ⟨hlow, hhigh⟩ : 32 ≤ c.toNat ∧ c.toNat ≤ 126 := hprintable
    omega
  · rintro ⟨hlow, hhigh⟩
    refine procfileSetSeparators_of_notMem (fun hmem => ?_) (by omega) (by omega)
    obtain rfl | rfl := List.mem_pair.mp hmem <;> exact absurd hlow (by decide)

theorem noQuotes_mountSeparators : NoQuotes mountSeparators := by
  intro c
  rw [mountSeparators, procfileSetSeparators]
  split
  · exact .inr (.inl rfl)
  rw [defSepsType]
  split
  · exact .inr (.inr rfl)
  split
  · exact .inr (.inl rfl)
  · exact .inl rfl

/-- The table for `runs`. -/
theorem decide_isWord (c : UInt8) : decide (mountSeparators c = .isWord) = isgraph c := by
  rw [Bool.eq_iff_iff, decide_eq_true_iff, isWord_iff]

theorem ne_zero_of_isgraph {c : UInt8} (h : isgraph c = true) : c ≠ 0 := by
  rintro rfl
  exact absurd h (by decide)

theorem ne_zero_of_kept {c : UInt8} (h : isgraph c = true ∨ Escaped c) : c ≠ 0 := by
  rintro rfl
  exact absurd h (by decide)

theorem escapeByte_of_not {c : UInt8} (h : ¬Escaped c) : escapeByte c = [c] := if_neg h

theorem escapeByte_ne_nil (c : UInt8) : escapeByte c ≠ [] := by
  rw [escapeByte]
  split <;> exact List.cons_ne_nil _ _

/-- What is kept is printed as part of a word. -/
theorem isgraph_of_mem_escapeByte {c : UInt8} (h : isgraph c = true ∨ Escaped c) {d : UInt8}
    (hd : d ∈ escapeByte c) : isgraph d = true := by
  rw [escapeByte] at hd
  split at hd
  · rename_i hescaped
    obtain rfl | rfl | rfl | rfl := hescaped <;> revert d <;> decide
  · rename_i hplain
    rw [List.mem_singleton.mp hd]
    exact h.resolve_right hplain

theorem escape_ne_nil {s : List UInt8} (h : s ≠ []) : escape s ≠ [] := by
  obtain ⟨c, s, rfl⟩ := List.exists_cons_of_ne_nil h
  exact List.append_ne_nil_of_left_ne_nil (escapeByte_ne_nil c) _

theorem length_escape_ge (s : List UInt8) : s.length ≤ (escape s).length := by
  induction s with
  | nil => exact Nat.le_refl 0
  | cons c s ih =>
      have hpos := List.length_pos_iff.mpr (escapeByte_ne_nil c)
      rw [escape, List.flatMap_cons, List.length_append, List.length_cons]
      change s.length ≤ (s.flatMap escapeByte).length at ih
      omega

/-- A text is printed as it is exactly if nothing of it is escaped. -/
theorem escape_eq_iff (s : List UInt8) : escape s = s ↔ ∀ c ∈ s, ¬Escaped c := by
  induction s with
  | nil => exact iff_of_true rfl (List.forall_mem_nil _)
  | cons c s ih =>
      rw [List.forall_mem_cons, ← ih, escape, List.flatMap_cons]
      change escapeByte c ++ escape s = c :: s ↔ _
      by_cases hc : Escaped c
      · refine iff_of_false (fun h => ?_) fun h => h.1 hc
        have hlength := congrArg List.length h
        have hge := length_escape_ge s
        simp only [escapeByte, if_pos hc, List.length_append, List.length_cons] at hlength
        omega
      · rw [escapeByte_of_not hc, List.singleton_append, List.cons_inj_right]
        exact (and_iff_right hc).symm

theorem decodeOctal_escapeByte (c : UInt8) (s : CString) :
    decodeOctal ((escapeByte c).map charOf ++ s) = charOf c :: decodeOctal s := by
  rw [escapeByte]
  split
  · rename_i hescaped
    obtain rfl | rfl | rfl | rfl := hescaped <;>
      exact (decodeOctal_backslash (by decide) s).trans (congrArg (· :: _) (by decide))
  · rename_i hplain
    refine decodeOctal_cons_of_ne (fun h => ?_) s
    exact hplain (.inr (.inr (.inr (charOf_injective h))))

/-- What has been escaped is decoded. -/
theorem decodeOctal_escape (s : List UInt8) :
    decodeOctal ((escape s).map charOf) = s.map charOf := by
  induction s with
  | nil => rfl
  | cons c s ih =>
      rw [escape, List.flatMap_cons, List.map_append, decodeOctal_escapeByte, List.map_cons]
      exact congrArg _ ih

theorem strdupDecodingOctal_escape {s : List UInt8} (h : ∀ c ∈ s, c ≠ 0) :
    strdupDecodingOctal (cString (escape s)) = cString s := by
  have hescape : ∀ c ∈ escape s, c ≠ 0 := by
    intro d hd
    obtain ⟨c, hc, hd⟩ := List.mem_flatMap.mp hd
    by_cases hescaped : Escaped c
    · exact ne_zero_of_isgraph (isgraph_of_mem_escapeByte (.inr hescaped) hd)
    · rw [escapeByte_of_not hescaped] at hd
      rw [List.mem_singleton.mp hd]
      exact h c hc
  rw [strdupDecodingOctal, cString_of_ne_zero hescape, decodeOctal_escape, cString_of_ne_zero h]
  refine List.takeWhile_eq_self_iff.mpr fun c hc => ?_
  obtain ⟨b, hb, rfl⟩ := List.mem_map.mp hc
  exact decide_eq_true fun hzero => h b hb (charOf_injective hzero)

/-! ## Lines -/

theorem isNewline_iff (c : UInt8) : mountSeparators c = .isNewline ↔ c = 10 ∨ c = 13 := by
  rw [mountSeparators, procfileSetSeparators]
  split
  · rename_i hmem
    refine iff_of_false PfChar.noConfusion ?_
    obtain rfl | rfl := List.mem_pair.mp hmem <;> decide
  rw [defSepsType]
  split
  · rename_i h
    exact iff_of_true rfl h
  · rename_i h
    refine iff_of_false ?_ h
    split <;> exact PfChar.noConfusion

theorem not_isNewline {c : UInt8} (h : isgraph c = true) :
    decide (mountSeparators c = .isNewline) = false := by
  rw [(isWord_iff c).mpr h]
  rfl

theorem wordRuns_eq (line : List UInt8) : wordRuns mountSeparators line = runs isgraph line :=
  congrArg (runs · line) (funext decide_isWord)

/-- Behind the words of a line there is an empty one at most. -/
theorem exists_blank (types : UInt8 → PfChar) (line : List UInt8) :
    ∃ blank, endedWords types line = wordRuns types line ++ blank ∧ ∀ w ∈ blank, w = [] := by
  refine ⟨_, rfl, fun w hw => ?_⟩
  split at hw
  · exact List.mem_singleton.mp hw
  · exact absurd hw List.not_mem_nil

/-- The node of a line that a newline ends. -/
def lineMount (line : List UInt8) : Option Mountinfo :=
  readLine ((endedWords mountSeparators line).map cString)

theorem mountinfoRead_append_newline (a b : List UInt8) :
    mountinfoRead (a ++ 10 :: b) =
      (rawLines mountSeparators a).filterMap lineMount ++ mountinfoRead b := by
  rw [mountinfoRead, fileLines, splitLines_append_newline noQuotes_mountSeparators rfl,
    List.map_append, List.filterMap_append, List.map_map, List.filterMap_map]
  rfl

theorem lineword_eq_nil {words : List CString} {i : Nat} (h : words.length ≤ i) :
    lineword words i = [] := by
  rw [lineword, List.getD_eq_getElem?_getD, List.getElem?_eq_none h]
  rfl

theorem lineword_append_blank {words blank : List CString} (h : ∀ s ∈ blank, s = []) (i : Nat) :
    lineword (words ++ blank) i = lineword words i := by
  rw [lineword, lineword, List.getD_eq_getElem?_getD, List.getD_eq_getElem?_getD]
  obtain hi | hi := Nat.lt_or_ge i words.length
  · rw [List.getElem?_append_left hi]
  · rw [List.getElem?_append_right hi, List.getElem?_eq_none hi]
    cases hblank : blank[i - words.length]? with
    | none => rfl
    | some s => exact h s (List.mem_of_getElem? hblank)

theorem Mountinfo.readSource_congr (mi : Mountinfo) {words words' : List CString}
    (h : ∀ i, lineword words i = lineword words' i) :
    mi.readSource words = mi.readSource words' := by
  simp only [Mountinfo.readSource, h]

namespace Mount

variable {m : Mount}

theorem isgraph_of_mem_decimal {n : Nat} {c : UInt8} (h : c ∈ decimal n) : isgraph c = true := by
  obtain ⟨hlow, hhigh⟩ := digit_of_mem_decimal h
  rw [UInt8.le_iff_toNat_le] at hlow hhigh
  refine decide_eq_true ?_
  rw [UInt8.le_iff_toNat_le, UInt8.le_iff_toNat_le]
  exact ⟨Nat.le_trans (by decide) hlow, Nat.le_trans hhigh (by decide)⟩

theorem isgraph_of_mem_decimalInt {n : Int} {c : UInt8} (h : c ∈ decimalInt n) :
    isgraph c = true := by
  cases n with
  | ofNat n => exact isgraph_of_mem_decimal h
  | negSucc n =>
      obtain rfl | h := List.mem_cons.mp h
      · decide
      · exact isgraph_of_mem_decimal h

theorem isgraph_of_mem_escape {s : List UInt8} (h : ∀ c ∈ s, isgraph c = true ∨ Escaped c) :
    ∀ c ∈ escape s, isgraph c = true := by
  intro d hd
  obtain ⟨c, hc, hd⟩ := List.mem_flatMap.mp hd
  exact isgraph_of_mem_escapeByte (h c hc) hd

/-- The words in front of the source are words for the reader. -/
theorem Graphic.front (h : m.Graphic) :
    ∀ w ∈ m.front, w ≠ [] ∧ ∀ c ∈ w, isgraph c = true := by
  refine List.forall_mem_append.mpr ⟨?_, List.forall_mem_append.mpr ⟨?_, ?_⟩⟩
  · refine List.forall_mem_cons.mpr ⟨⟨decimalInt_ne_nil _, fun c => isgraph_of_mem_decimalInt⟩, ?_⟩
    refine List.forall_mem_cons.mpr ⟨⟨decimalInt_ne_nil _, fun c => isgraph_of_mem_decimalInt⟩, ?_⟩
    refine List.forall_mem_cons.mpr ⟨⟨List.append_ne_nil_of_left_ne_nil (decimal_ne_nil _) _,
      fun c hc => ?_⟩, ?_⟩
    · obtain hc | hc := List.mem_append.mp hc
      · exact isgraph_of_mem_decimal hc
      obtain rfl | hc := List.mem_cons.mp hc
      · decide
      · exact isgraph_of_mem_decimal hc
    refine List.forall_mem_cons.mpr ⟨⟨escape_ne_nil m.root.ne_nil,
      isgraph_of_mem_escape fun c hc => .inl (h.root c hc)⟩, ?_⟩
    refine List.forall_mem_cons.mpr ⟨⟨escape_ne_nil m.mountPoint.ne_nil,
      isgraph_of_mem_escape fun c hc => .inl (h.mountPoint c hc)⟩, ?_⟩
    exact List.forall_mem_singleton.mpr ⟨m.mountOptions.ne_nil, h.mountOptions⟩
  · intro w hw
    obtain ⟨field, -, rfl⟩ := List.mem_map.mp hw
    exact ⟨field.ne_nil, field.graphic⟩
  · refine List.forall_mem_cons.mpr ⟨⟨by decide, by decide⟩, ?_⟩
    exact List.forall_mem_singleton.mpr ⟨m.filesystem.ne_nil, h.filesystem⟩

/-- The first line of what is printed begins with these words. -/
theorem Graphic.rawLines_print (h : m.Graphic) {line : List UInt8} {lines : List (List UInt8)}
    (hback : rawLines mountSeparators m.back = line :: lines) :
    rawLines mountSeparators m.print =
      ((m.front.flatMap fun w => w ++ [32]) ++ line) :: lines := by
  have hfront : ∀ c ∈ m.front.flatMap fun w => w ++ [32],
      decide (mountSeparators c = .isNewline) = false := by
    intro c hc
    obtain ⟨w, hw, hc⟩ := List.mem_flatMap.mp hc
    obtain hc | hc := List.mem_append.mp hc
    · exact not_isNewline ((h.front w hw).2 c hc)
    · rw [List.mem_singleton.mp hc]
      rfl
  rw [rawLines, print, splitOnP_append_of_forall hfront, ← rawLines, hback]
  rfl

/-- What has been read in front of the source. -/
structure ReadsFront (m : Mount) (mi : Mountinfo) : Prop where
  root : mi.root = cString (escape m.root.bytes)
  mountPoint : mi.mountPoint = cString (escape m.mountPoint.bytes)
  mountOptions : mi.mountOptions = cString m.mountOptions.bytes
  optionalFieldsCount : mi.optionalFieldsCount = Int32.ofNat m.optionalFields.length
  readonly : mi.HasFlag flagReadonly ↔ isReadonly (cString m.mountOptions.bytes) = true

theorem colon_mem_device (major minor : Nat) :
    ':' ∈ cString (decimal major ++ 58 :: decimal minor) := by
  have hne : ∀ c ∈ decimal major ++ 58 :: decimal minor, c ≠ 0 := by
    intro c hc
    obtain hc | hc := List.mem_append.mp hc
    · exact ne_zero_of_isgraph (isgraph_of_mem_decimal hc)
    obtain rfl | hc := List.mem_cons.mp hc
    · decide
    · exact ne_zero_of_isgraph (isgraph_of_mem_decimal hc)
  rw [cString_of_ne_zero hne]
  exact List.mem_map.mpr ⟨58, List.mem_append_right _ List.mem_cons_self, by decide⟩

theorem cString_ne_nil {s : List UInt8} (hne : s ≠ []) (h : ∀ c ∈ s, c ≠ 0) : cString s ≠ [] := by
  rw [cString_of_ne_zero h, Ne, List.map_eq_nil_iff]
  exact hne

theorem optional_ne_dash (fields : List OptionalField) :
    ∀ s ∈ (fields.map OptionalField.bytes).map cString, s ≠ [] ∧ s.head? ≠ some '-' := by
  intro s hs
  rw [List.map_map] at hs
  obtain ⟨field, -, rfl⟩ := List.mem_map.mp hs
  have hne : ∀ c ∈ field.bytes, c ≠ 0 := fun c hc => ne_zero_of_isgraph (field.graphic c hc)
  refine ⟨cString_ne_nil field.ne_nil hne, fun hhead => ?_⟩
  have hdash : (cString field.bytes).head? = some (charOf 45) := hhead
  exact field.no_dash (head_of_cString hdash)

/-- A line that begins with these words makes a node. -/
theorem Graphic.lineMount_eq (h : m.Graphic) (line : List UInt8) :
    ∃ mi : Mountinfo, m.ReadsFront mi ∧
      lineMount ((m.front.flatMap fun w => w ++ [32]) ++ line) =
        some (mi.readSource (cString m.filesystem.bytes :: (runs isgraph line).map cString)) := by
  obtain ⟨blank, hended, hblank⟩ :=
    exists_blank mountSeparators ((m.front.flatMap fun w => w ++ [32]) ++ line)
  obtain ⟨mi, hroot, hmountPoint, hmountOptions, hcount, hreadonly, hread⟩ :=
    readLine_eq (cString (decimalInt m.id)) (cString (decimalInt m.parentId))
      (colon_mem_device m.major m.minor) (optional_ne_dash m.optionalFields)
      (cString m.filesystem.bytes :: ((runs isgraph line).map cString ++ blank.map cString))
  refine ⟨mi, ⟨hroot, hmountPoint, hmountOptions, ?_, hreadonly⟩, ?_⟩
  · rw [hcount, List.length_map, List.length_map]
  rw [lineMount, hended, wordRuns_eq, runs_words (by decide) h.front]
  refine (congrArg readLine ?_).trans
    (hread.trans (congrArg some (mi.readSource_congr fun i => ?_)))
  · rw [Mount.front, List.map_append, List.map_append, List.map_append, List.map_append,
      List.append_assoc, List.append_assoc, List.append_assoc]
    rfl
  · rw [← List.cons_append]
    refine lineword_append_blank (fun s hs => ?_) i
    obtain ⟨w, hw, rfl⟩ := List.mem_map.mp hs
    rw [hblank w hw]
    rfl

/-! ## Sources -/

/-- A byte of the source that the reader keeps. -/
def kept (c : UInt8) : Bool := isgraph c || decide (Escaped c)

theorem kept_iff (c : UInt8) : kept c = true ↔ isgraph c = true ∨ Escaped c := by
  rw [kept, Bool.or_eq_true, decide_eq_true_iff]

/-- The words of a source are those of its bytes that are kept. -/
theorem runs_escape (s : List UInt8) : runs isgraph (escape s) = (runs kept s).map escape := by
  refine runs_flatMap (fun c hc => ⟨escapeByte_ne_nil c, fun d hd => ?_⟩) (fun c hc => ⟨c, ?_⟩) s
  · exact isgraph_of_mem_escapeByte ((kept_iff c).mp hc) hd
  · obtain ⟨hgraph, hescaped⟩ := Bool.or_eq_false_iff.mp hc
    exact ⟨escapeByte_of_not (of_decide_eq_false hescaped), hgraph⟩

theorem not_isNewline_escape {s : List UInt8} (h : 13 ∉ s) :
    ∀ d ∈ escape s, decide (mountSeparators d = .isNewline) = false := by
  intro d hd
  obtain ⟨c, hc, hd⟩ := List.mem_flatMap.mp hd
  by_cases hescaped : Escaped c
  · exact not_isNewline (isgraph_of_mem_escapeByte (.inr hescaped) hd)
  · rw [escapeByte_of_not hescaped] at hd
    rw [List.mem_singleton.mp hd]
    refine decide_eq_false fun hnewline => ?_
    obtain rfl | rfl := (isNewline_iff c).mp hnewline
    · exact hescaped (.inr (.inr (.inl rfl)))
    · exact h hc

theorem rawLines_escape {s : List UInt8} (h : 13 ∉ s) :
    rawLines mountSeparators (escape s) = [escape s] :=
  List.splitOnP_eq_singleton (not_isNewline_escape h)

/-- Without a carriage return in the source, no newline stands behind it. -/
theorem Graphic.rawLines_back (h : m.Graphic) (hsource : 13 ∉ m.mountSource.bytes) :
    rawLines mountSeparators m.back = [m.back] := by
  refine List.splitOnP_eq_singleton (List.forall_mem_append.mpr ⟨not_isNewline_escape hsource, ?_⟩)
  exact List.forall_mem_cons.mpr ⟨rfl, fun c hc => not_isNewline (h.superOptions c hc)⟩

theorem Graphic.runs_back (h : m.Graphic) :
    runs isgraph m.back = (runs kept m.mountSource.bytes).map escape ++ [m.superOptions.bytes] := by
  rw [back, runs_append_cons _ (by decide), runs_escape,
    runs_of_forall h.superOptions m.superOptions.ne_nil]

/-- The words behind the file system are those of a part of the source, and the options. -/
theorem Graphic.exists_back (h : m.Graphic) :
    ∃ line lines s t, rawLines mountSeparators m.back = line :: lines ∧
      runs isgraph line = (runs kept s).map escape ++ t ∧ t.length ≤ 1 := by
  by_cases hsource : 13 ∈ m.mountSource.bytes
  · obtain ⟨s, rest, hs, hmem⟩ := List.eq_append_cons_of_mem hsource
    have hback : m.back = escape s ++ 13 :: (escape rest ++ 32 :: m.superOptions.bytes) := by
      rw [back, hs, escape, List.flatMap_append, List.flatMap_cons, List.append_assoc]
      rfl
    have hraw : rawLines mountSeparators m.back = escape s ::
        rawLines mountSeparators (escape rest ++ 32 :: m.superOptions.bytes) := by
      rw [hback, rawLines_append_newline (by decide), rawLines_escape hmem, List.singleton_append]
    refine ⟨escape s, _, s, [], hraw, ?_, Nat.zero_le 1⟩
    rw [runs_escape, List.append_nil]
  · exact ⟨m.back, [], m.mountSource.bytes, _, h.rawLines_back hsource, h.runs_back, Nat.le_refl 1⟩

/-- The first node of what is printed has the texts only if its line is one. -/
theorem Graphic.exists_head (h : m.Graphic) :
    ∃ mi more, (rawLines mountSeparators m.print).filterMap lineMount = mi :: more ∧
      (m.Reads mi → m.OneLine) := by
  obtain ⟨line, lines, s, t, hback, hruns, ht⟩ := h.exists_back
  obtain ⟨mi, -, hline⟩ := h.lineMount_eq line
  have hfirst := List.filterMap_cons_some (l := lines) hline
  rw [← h.rawLines_print hback] at hfirst
  refine ⟨_, _, hfirst, fun hreads => ⟨h, ?_⟩⟩
  have hsource := Option.some.inj ((mi.readSource_mountSource _).symm.trans hreads.mountSource)
  have hsuper := Option.some.inj ((mi.readSource_superOptions _).symm.trans hreads.superOptions)
  rw [hruns] at hsource hsuper
  cases hkept : runs kept s with
  | nil =>
      -- the options are not where they are looked for
      rw [hkept] at hsuper
      have hblank : lineword (cString m.filesystem.bytes :: t.map cString) 2 = [] :=
        lineword_eq_nil (by rw [List.length_cons, List.length_map]; omega)
      refine absurd (hsuper.symm.trans hblank) ?_
      exact cString_ne_nil m.superOptions.ne_nil m.superOptions.ne_zero
  | cons word words =>
      rw [hkept] at hsource
      have hmem : word ∈ runs kept s := hkept ▸ List.mem_cons_self
      have hword : ∀ c ∈ word, isgraph c = true ∨ Escaped c := fun c hc =>
        (kept_iff c).mp ((of_mem_runs hmem).2 c hc)
      have hne : ∀ c ∈ word, c ≠ 0 := fun c hc => ne_zero_of_kept (hword c hc)
      have hsubset : cString m.mountSource.bytes ⊆ cString word := by
        rw [← strdupDecodingOctal_escape hne, ← hsource]
        exact basename_subset
      rw [cString_of_ne_zero m.mountSource.ne_zero, cString_of_ne_zero hne] at hsubset
      intro c hc
      obtain ⟨d, hd, hdc⟩ := List.mem_map.mp (hsubset (List.mem_map_of_mem hc))
      rw [← charOf_injective hdc]
      exact hword d hd

/-- What has been read of a mount that is one line. -/
theorem OneLine.filterMap_eq (h : m.OneLine) :
    ∃ mi : Mountinfo, m.ReadsFront mi ∧
      (rawLines mountSeparators m.print).filterMap lineMount =
        [mi.readSource [cString m.filesystem.bytes, cString (escape m.mountSource.bytes),
          cString m.superOptions.bytes]] := by
  have hsource : 13 ∉ m.mountSource.bytes := fun hmem =>
    absurd (h.mountSource 13 hmem) (by decide)
  have hkept : runs kept m.mountSource.bytes = [m.mountSource.bytes] :=
    runs_of_forall (fun c hc => (kept_iff c).mpr (h.mountSource c hc)) m.mountSource.ne_nil
  obtain ⟨mi, hmi, hline⟩ := h.lineMount_eq m.back
  rw [h.runs_back, hkept] at hline
  refine ⟨mi, hmi, ?_⟩
  rw [h.rawLines_print (h.rawLines_back hsource), List.filterMap_cons_some hline]
  rfl

theorem cString_inj {s t : List UInt8} (hs : ∀ c ∈ s, c ≠ 0) (ht : ∀ c ∈ t, c ≠ 0) :
    cString s = cString t ↔ s = t := by
  rw [cString_of_ne_zero hs, cString_of_ne_zero ht]
  exact (List.map_injective_iff.mpr charOf_injective).eq_iff

/-- A text without white space is read as it is exactly if it has no backslash. -/
theorem cString_escape_eq_iff {s : List UInt8} (h : ∀ c ∈ s, isgraph c = true) :
    cString (escape s) = cString s ↔ 92 ∉ s := by
  have hescape := isgraph_of_mem_escape fun c hc => .inl (h c hc)
  rw [cString_inj (fun c hc => ne_zero_of_isgraph (hescape c hc))
    (fun c hc => ne_zero_of_isgraph (h c hc)), escape_eq_iff]
  constructor
  · intro hnot hmem
    exact hnot 92 hmem (.inr (.inr (.inr rfl)))
  · rintro hmem c hc hescaped
    have hgraph := h c hc
    obtain rfl | rfl | rfl | rfl := hescaped
    · exact absurd hgraph (by decide)
    · exact absurd hgraph (by decide)
    · exact absurd hgraph (by decide)
    · exact hmem hc

/-- The source of a node is that of the mount exactly if no slash at its end is cut. -/
theorem basename_cString_iff (s : Text) :
    (basename (cString s.bytes)).1 = cString s.bytes ↔
      s.bytes.getLast? ≠ some 47 ∨ ∀ c ∈ s.bytes, c = 47 := by
  rw [basename_eq_iff, cString_of_ne_zero s.ne_zero, List.getLast?_map, List.forall_mem_map]
  refine or_congr (not_congr ?_) (forall₂_congr fun c _ => ?_)
  · cases s.bytes.getLast? with
    | none => exact iff_of_false (Option.some_ne_none _).symm (Option.some_ne_none _).symm
    | some c =>
        rw [Option.map_some, Option.some_inj, Option.some_inj]
        exact charOf_injective.eq_iff' (by decide)
  · exact charOf_injective.eq_iff' (by decide)

theorem toInt_ofNat_iff (n : Nat) : (Int32.ofNat n).toInt = n ↔ n < 2 ^ 31 := by
  constructor
  · intro h
    have hlt := (Int32.ofNat n).toInt_lt
    omega
  · exact Int32.toInt_ofNat_of_lt

/-- What has been read of a mount that is one line, and when it is all right. -/
theorem OneLine.reads_iff (h : m.OneLine) {mi : Mountinfo} (hmi : m.ReadsFront mi) :
    m.Reads (mi.readSource [cString m.filesystem.bytes, cString (escape m.mountSource.bytes),
      cString m.superOptions.bytes]) ↔ m.Kept := by
  have hroot := cString_escape_eq_iff h.root
  have hmountPoint := cString_escape_eq_iff h.mountPoint
  have hcount := toInt_ofNat_iff m.optionalFields.length
  rw [← hmi.root] at hroot
  rw [← hmi.mountPoint] at hmountPoint
  rw [← hmi.optionalFieldsCount] at hcount
  have hsource : (mi.readSource [cString m.filesystem.bytes, cString (escape m.mountSource.bytes),
      cString m.superOptions.bytes]).mountSource =
      some (basename (cString m.mountSource.bytes)).1 := by
    rw [← strdupDecodingOctal_escape m.mountSource.ne_zero]
    rfl
  have hslash := basename_cString_iff m.mountSource
  constructor
  · intro hreads
    have hkept := hslash.mp (Option.some.inj (hsource.symm.trans hreads.mountSource))
    exact ⟨h, hroot.mp hreads.root, hmountPoint.mp hreads.mountPoint, hkept,
      hcount.mp hreads.optionalFieldsCount⟩
  · intro hkept
    refine ⟨hroot.mpr hkept.root_backslash, hmountPoint.mpr hkept.mountPoint_backslash,
      hmi.mountOptions, hcount.mpr hkept.optionalFields, rfl,
      hsource.trans (congrArg some (hslash.mpr hkept.mountSource_slash)), rfl, ?_⟩
    rw [Mountinfo.hasFlag_readSource, hmi.readonly, isReadonly_iff, isReadonly_iff]
    rfl

end Mount

/-! ## Files -/

theorem exists_isgraph_of_mem {content : List UInt8} {words : List CString}
    (hwords : words ∈ fileLines mountSeparators content) {s : CString} (hs : s ∈ words) :
    ∀ c ∈ s, ∃ b, isgraph b = true ∧ charOf b = c := by
  obtain ⟨line, hline, rfl⟩ := List.mem_map.mp hwords
  obtain ⟨w, hw, rfl⟩ := List.mem_map.mp hs
  have hword := isWord_of_mem_splitLines noQuotes_mountSeparators hline hw
  intro c hc
  obtain ⟨b, hb, rfl⟩ := List.mem_map.mp hc
  exact ⟨b, (isWord_iff b).mp (hword b ((List.takeWhile_prefix _).subset hb)), rfl⟩

/-- A node has the texts of a mount only if they are printable. -/
theorem Mount.Reads.graphic {m : Mount} {mi : Mountinfo} (h : m.Reads mi)
    {content : List UInt8} (hmem : mi ∈ mountinfoRead content) : m.Graphic := by
  obtain ⟨words, hwords, hline⟩ := List.mem_filterMap.mp hmem
  have hcopies := copies_readLine (P := fun s => ∀ c ∈ s, ∃ b, isgraph b = true ∧ charOf b = c)
    (List.forall_mem_nil _) (fun s hs => exists_isgraph_of_mem hwords hs) hline
  have graphic {s : List UInt8} (hne : ∀ c ∈ s, c ≠ 0)
      (hs : ∀ c ∈ cString s, ∃ b, isgraph b = true ∧ charOf b = c) : ∀ c ∈ s, isgraph c = true := by
    intro c hc
    rw [cString_of_ne_zero hne] at hs
    obtain ⟨b, hb, hbc⟩ := hs _ (List.mem_map_of_mem hc)
    rw [← charOf_injective hbc]
    exact hb
  exact ⟨graphic m.root.ne_zero (h.root ▸ hcopies.root),
    graphic m.mountPoint.ne_zero (h.mountPoint ▸ hcopies.mountPoint),
    graphic m.mountOptions.ne_zero (h.mountOptions ▸ hcopies.mountOptions),
    graphic m.filesystem.ne_zero (hcopies.filesystem _ h.filesystem),
    graphic m.superOptions.ne_zero (hcopies.superOptions _ h.superOptions)⟩

theorem mountinfoFile_cons (m : Mount) (mounts : List Mount) :
    mountinfoFile (m :: mounts) = m.print ++ 10 :: mountinfoFile mounts := by
  rw [mountinfoFile, List.flatMap_cons, List.append_assoc]
  rfl

/-- Every node has the texts of its mount. -/
def ReadsAll (mounts : List Mount) : Prop :=
  List.Forall₂ Mount.Reads mounts (mountinfoRead (mountinfoFile mounts))

/-- One mount more, if its texts are in one line. -/
theorem readsAll_cons_iff {m : Mount} (h : m.OneLine) (mounts : List Mount) :
    ReadsAll (m :: mounts) ↔ m.Kept ∧ ReadsAll mounts := by
  obtain ⟨mi, hmi, hline⟩ := h.filterMap_eq
  rw [ReadsAll, mountinfoFile_cons, mountinfoRead_append_newline, hline, List.singleton_append,
    List.forall₂_cons, h.reads_iff hmi]
  rfl

theorem ReadsAll.oneLine {m : Mount} {mounts : List Mount} (h : ReadsAll (m :: mounts)) :
    m.OneLine := by
  rw [ReadsAll] at h
  cases hread : mountinfoRead (mountinfoFile (m :: mounts)) with
  | nil => rw [hread] at h; cases h
  | cons node nodes =>
      rw [hread] at h
      obtain ⟨hnode, -⟩ := List.forall₂_cons.mp h
      have hgraphic : m.Graphic := hnode.graphic (hread ▸ List.mem_cons_self)
      obtain ⟨first, more, hfirst, honeLine⟩ := hgraphic.exists_head
      rw [mountinfoFile_cons, mountinfoRead_append_newline, hfirst] at hread
      obtain ⟨rfl, -⟩ := List.cons.inj hread
      exact honeLine hnode

theorem ReadsAll.kept {mounts : List Mount} (h : ReadsAll mounts) : ∀ m ∈ mounts, m.Kept := by
  induction mounts with
  | nil => exact List.forall_mem_nil _
  | cons m mounts ih =>
      obtain ⟨hm, hmounts⟩ := (readsAll_cons_iff h.oneLine mounts).mp h
      exact List.forall_mem_cons.mpr ⟨hm, ih hmounts⟩

theorem readsAll_nil : ReadsAll [] := by
  rw [ReadsAll]
  exact List.Forall₂.nil

/-- The nodes have the texts of the mounts exactly if every text is kept. -/
theorem mountinfo_read_iff (mounts : List Mount) :
    List.Forall₂ Mount.Reads mounts (mountinfoRead (mountinfoFile mounts)) ↔
      ∀ m ∈ mounts, m.Kept := by
  refine ⟨ReadsAll.kept, fun h => ?_⟩
  induction mounts with
  | nil => exact readsAll_nil
  | cons m mounts ih =>
      obtain ⟨hm, hmounts⟩ := List.forall_mem_cons.mp h
      exact (readsAll_cons_iff hm.toOneLine mounts).mpr ⟨hm, ih hmounts⟩

/-- A mount on a directory with a space in its name. -/
def spacedMount : Mount where
  id := 36
  parentId := 35
  major := 98
  minor := 0
  root := ⟨[47], by decide, by decide⟩
  mountPoint := ⟨[47, 97, 32, 98], by decide, by decide⟩
  mountOptions := ⟨⟨[114, 119], by decide, by decide⟩, by decide⟩
  optionalFields := []
  filesystem := ⟨⟨[101, 120, 116, 52], by decide, by decide⟩, by decide⟩
  mountSource := ⟨[47, 100], by decide, by decide⟩
  superOptions := ⟨⟨[114, 119], by decide, by decide⟩, by decide⟩

/-- Its mount point is not decoded. -/
theorem mount_point_not_decoded :
    ¬∀ mounts : List Mount,
      List.Forall₂ Mount.Reads mounts (mountinfoRead (mountinfoFile mounts)) := by
  intro hclaim
  have hread : ReadsAll [spacedMount] := hclaim _
  have hkept := hread.kept _ List.mem_cons_self
  exact absurd (hkept.mountPoint 32 (by decide)) (by decide)

end XMonitor.MountInfo
