import XMonitor.Lib.Buffer
import XMonitor.Utils.SimplePatternParts

/-!
# What the asterisks stand for

`simple_pattern_matches_extract` appends the parts of a string that the asterisks of a pattern
match to a buffer, as far as there is room. The buffer is emptied before each pattern by a zero at
its start. Nothing terminates what is appended behind it, and what a pattern has appended before
it fails stays behind that zero.
-/

namespace XMonitor

open Lib

/-- The pointer `wildcarded` and the size that `wildcarded_size` points to. -/
structure Wildcarded where
  buf : Buffer Char
  next : Int
  size : Nat

/-- The bytes that `strncpy` writes. -/
def strncpy (src : CString) (n : Nat) : CString :=
  src.take n ++ List.replicate (n - src.length) '\x00'

/-- `__add_wildcarded` for a buffer. -/
def addWildcarded (matched : CString) (matchedSize : Nat) (w : Wildcarded) : Wildcarded :=
  if w.size ≠ 0 ∧ matched ≠ [] ∧ matchedSize ≠ 0 then
    let wss := w.size - 1
    let len := if matchedSize < wss then matchedSize else wss
    if len ≠ 0 then
      { buf := w.buf.copy w.next (strncpy matched len)
        next := w.next + len
        size := w.size - len }
    else w
  else w

/-- `__match_pattern`. Without a buffer the pointer is NULL. -/
def matchPatternExtract : List PatternNode → CString → Option Wildcarded → Bool × Option Wildcarded
  | [], _, w => (false, w)
  | m :: child, str, w =>
      if m.text.length ≤ str.length then
        match m.mode with
        | .substring =>
            if m.text = [] then (true, w)
            else
              match Glob.strstr str m.text with
              | some s =>
                  let behind := s.drop m.text.length
                  let w := w.map (addWildcarded str (str.length - s.length))
                  if child.isEmpty then (true, w.map (addWildcarded behind behind.length))
                  else matchPatternExtract child behind w
              | none => (false, w)
        | .prefixed =>
            if m.text <+: str then
              let behind := str.drop m.text.length
              if child.isEmpty then (true, w.map (addWildcarded behind behind.length))
              else matchPatternExtract child behind w
            else (false, w)
        | .suffixed =>
            if str.drop (str.length - m.text.length) = m.text then
              (child.isEmpty, w.map (addWildcarded str (str.length - m.text.length)))
            else (false, w)
        | .exact => if str = m.text then (child.isEmpty, w) else (false, w)
      else (false, w)

/-- The loop of `simple_pattern_matches_extract`. -/
def extractLoop (str : CString) (size : Nat) :
    List SimplePattern → Option (Buffer Char) → Bool × Option (Buffer Char)
  | [], wildcarded => (false, wildcarded)
  | m :: next, wildcarded =>
      let ws := wildcarded.map fun buf => buf.put 0 '\x00'
      let (matched, w) :=
        matchPatternExtract m.chain str (ws.map fun buf => { buf, next := 0, size })
      if matched then (!m.negative, w.map Wildcarded.buf)
      else extractLoop str size next (w.map Wildcarded.buf)

/-- `simple_pattern_matches_extract`, with what it leaves in the buffer. -/
def simplePatternMatchesExtract (list : List SimplePattern) (str : CString)
    (wildcarded : Option (Buffer Char)) (size : Nat) : Bool × Option (Buffer Char) :=
  if list = [] ∨ str = [] then (false, wildcarded) else extractLoop str size list wildcarded

/-! ## The answer does not depend on the buffer -/

section Answer

variable {str : CString} {size : Nat}

/-- The buffer has no part in the answer, and is there afterwards if it was there before. -/
theorem matchPatternExtract_answer (chain : List PatternNode) (str : CString)
    (w : Option Wildcarded) :
    (matchPatternExtract chain str w).1 = matchPattern chain str ∧
      (matchPatternExtract chain str w).2.isSome = w.isSome := by
  induction chain generalizing str w with
  | nil => exact ⟨rfl, rfl⟩
  | cons m child ih =>
      rw [matchPatternExtract, matchPattern]
      split
      · cases m.mode with
        | substring =>
            dsimp only
            split
            · exact ⟨rfl, rfl⟩
            · cases Glob.strstr str m.text with
              | none => exact ⟨rfl, rfl⟩
              | some s =>
                  dsimp only
                  cases child.isEmpty with
                  | true => exact ⟨rfl, by simp⟩
                  | false =>
                      obtain ⟨hanswer, hsome⟩ := ih (s.drop m.text.length)
                        (w.map (addWildcarded str (str.length - s.length)))
                      exact ⟨hanswer, hsome.trans Option.isSome_map⟩
        | prefixed =>
            dsimp only
            split
            · cases child.isEmpty with
              | true => exact ⟨rfl, Option.isSome_map⟩
              | false => exact ih _ _
            · exact ⟨rfl, rfl⟩
        | suffixed =>
            dsimp only
            split
            · exact ⟨rfl, Option.isSome_map⟩
            · exact ⟨rfl, rfl⟩
        | exact =>
            dsimp only
            split <;> exact ⟨rfl, rfl⟩
      · exact ⟨rfl, rfl⟩

theorem matchPatternExtract_none (chain : List PatternNode) (str : CString) :
    matchPatternExtract chain str none = (matchPattern chain str, none) := by
  obtain ⟨hanswer, hsome⟩ := matchPatternExtract_answer chain str none
  exact Prod.ext hanswer (Option.not_isSome_iff_eq_none.mp (by rw [hsome]; decide))

/-- The loop after its first pattern. -/
theorem extractLoop_of_eq {m : SimplePattern} {wildcarded : Option (Buffer Char)} {matched : Bool}
    {w : Option Wildcarded}
    (h : matchPatternExtract m.chain str ((wildcarded.map fun buf => buf.put 0 '\x00').map
      fun buf => { buf, next := 0, size }) = (matched, w)) (next : List SimplePattern) :
    extractLoop str size (m :: next) wildcarded =
      if matched = true then (!m.negative, w.map Wildcarded.buf)
      else extractLoop str size next (w.map Wildcarded.buf) := by
  simp only [extractLoop, h]

theorem extractLoop_none (list : List SimplePattern) :
    extractLoop str size list none =
      (match list.find? fun m => matchPattern m.chain str with
        | some m => !m.negative
        | none => false, none) := by
  induction list with
  | nil => rfl
  | cons m next ih =>
      rw [extractLoop_of_eq (matchPatternExtract_none m.chain str), List.find?_cons]
      cases hmatch : matchPattern m.chain str with
      | true => rfl
      | false => exact ih

/-- `simple_pattern_matches` is the call without a buffer. -/
theorem simplePatternMatchesExtract_none (list : List SimplePattern) (str : CString) (size : Nat) :
    simplePatternMatchesExtract list str none size = (simplePatternMatches list str, none) := by
  rw [simplePatternMatchesExtract, simplePatternMatches]
  split
  · rfl
  · exact extractLoop_none list

end Answer

/-! ## What is appended -/

/-- A text has been appended as far as there is room for it and a terminating zero. -/
structure Appends (w w' : Wildcarded) (text : CString) : Prop where
  stores : Buffer.Stores w.buf w'.buf w.next (text.take (w.size - 1))
  next : w'.next = w.next + (text.take (w.size - 1)).length
  size : w'.size = w.size - (text.take (w.size - 1)).length

section Append

variable {w w' w'' : Wildcarded} {chain : List PatternNode} {str : CString}

theorem appends_of_take_eq_nil {text : CString} (h : text.take (w.size - 1) = []) :
    Appends w w text where
  stores := by
    rw [h]
    exact Buffer.stores_nil w.buf w.next
  next := by
    rw [h]
    exact (Int.add_zero _).symm
  size := by
    rw [h]
    rfl

theorem Appends.append {first second : CString} (h : Appends w w' first)
    (h' : Appends w' w'' second) : Appends w w'' (first ++ second) := by
  have hroom : w'.size - 1 = w.size - 1 - first.length := by
    rw [h.size, List.length_take]
    omega
  have htake : (first ++ second).take (w.size - 1) =
      first.take (w.size - 1) ++ second.take (w'.size - 1) := by
    rw [List.take_append, hroom]
  refine ⟨?_, ?_, ?_⟩
  · rw [htake]
    exact Buffer.stores_append (.inl ⟨h.stores, h.next ▸ h'.stores⟩)
  · rw [htake, h'.next, h.next, List.length_append]
    omega
  · rw [htake, h'.size, h.size, List.length_append]
    omega

theorem strncpy_eq {src : CString} {n : Nat} (h : n ≤ src.length) : strncpy src n = src.take n := by
  rw [strncpy, Nat.sub_eq_zero_of_le h]
  exact List.append_nil _

theorem addWildcarded_appends (w : Wildcarded) {matched : CString} {matchedSize : Nat}
    (h : matchedSize ≤ matched.length) :
    Appends w (addWildcarded matched matchedSize w) (matched.take matchedSize) := by
  have htake : (matched.take matchedSize).take (w.size - 1) =
      matched.take (min (w.size - 1) matchedSize) := List.take_take
  have hlen : (if matchedSize < w.size - 1 then matchedSize else w.size - 1) =
      min (w.size - 1) matchedSize := by
    split <;> omega
  have hfits : min (w.size - 1) matchedSize ≤ matched.length := (Nat.min_le_right _ _).trans h
  by_cases hnone : min (w.size - 1) matchedSize = 0
  · have hsame : addWildcarded matched matchedSize w = w := by
      rw [addWildcarded]
      split
      · simp only [hlen]
        exact if_neg (not_not.mpr hnone)
      · rfl
    rw [hsame]
    apply appends_of_take_eq_nil
    rw [htake, hnone, List.take_zero]
  · have hcond : w.size ≠ 0 ∧ matched ≠ [] ∧ matchedSize ≠ 0 := by
      refine ⟨by omega, ?_, by omega⟩
      rintro rfl
      rw [List.length_nil] at h
      omega
    rw [addWildcarded, if_pos hcond]
    simp only [hlen, if_pos hnone, strncpy_eq hfits]
    have hlength : (matched.take (min (w.size - 1) matchedSize)).length =
        min (w.size - 1) matchedSize := List.length_take_of_le hfits
    constructor
    · rw [htake]
      exact Buffer.stores_copy _ _ _
    · rw [htake, hlength]
    · rw [htake, hlength]

theorem addWildcarded_appends_all (w : Wildcarded) (matched : CString) :
    Appends w (addWildcarded matched matched.length w) matched := by
  have h := addWildcarded_appends w (Nat.le_refl matched.length)
  rw [List.take_length] at h
  exact h

/-- What the code appends for a node and what is behind it. -/
def AppendsText (chain : List PatternNode) (str : CString) (w : Wildcarded)
    (result : Option Wildcarded) : Prop :=
  ∃ w' text, result = some w' ∧ Appends w w' text ∧
    text ++ starText chain str = wildcardText chain str

theorem appendsText_self (h : wildcardText chain str = starText chain str) (w : Wildcarded) :
    AppendsText chain str w (some w) :=
  ⟨w, [], rfl, appends_of_take_eq_nil List.take_nil, h.symm⟩

/-- Both parts around the text of a node without children. -/
theorem appendsText_last {m : PatternNode} {front behind : CString}
    (hparts : m.parts str = some (front, behind)) (hstar : ¬ m.IsStar)
    (h : Appends w w' (front ++ behind)) : AppendsText [m] str w (some w') := by
  refine ⟨w', front ++ behind, rfl, h, ?_⟩
  rw [wildcardText_singleton hparts, starText_cons hparts, if_neg hstar, if_pos rfl]
  exact List.append_nil _

/-- The part in front of the text of a node, and what its children append. -/
theorem appendsText_cons {m : PatternNode} {child : List PatternNode} {front behind : CString}
    {result : Option Wildcarded} (hparts : m.parts str = some (front, behind))
    (hstar : ¬ m.IsStar) (hchild : child ≠ []) (h : Appends w w' front)
    (hrest : AppendsText child behind w' result) : AppendsText (m :: child) str w result := by
  obtain ⟨final, text, rfl, htext, hwild⟩ := hrest
  refine ⟨final, front ++ text, rfl, h.append htext, ?_⟩
  rw [wildcardText_of_child hparts hstar hchild, starText_cons hparts, if_neg hstar,
    if_neg hchild, List.append_assoc, hwild]

/-- Nothing is left behind the text of the node. -/
theorem appendsText_front {m : PatternNode} {child : List PatternNode} {front : CString}
    (hparts : m.parts str = some (front, [])) (hstar : ¬ m.IsStar) (h : Appends w w' front) :
    AppendsText (m :: child) str w (some w') := by
  refine ⟨w', front, rfl, h, ?_⟩
  rw [wildcardText_cons hparts, starText_cons hparts, wildcardText_nil, starText_nil, if_neg hstar,
    ite_self, ite_self]

/-- A node that fails ends the parts. -/
theorem appendsText_of_parts_none {m : PatternNode} {child : List PatternNode}
    (hparts : m.parts str = none) : AppendsText (m :: child) str w (some w) := by
  apply appendsText_self
  rw [wildcardText_of_parts_none hparts, starText_of_parts_none hparts]

/-- What a chain appends are the parts of the string without the last, if that belongs to
asterisks without a text. -/
theorem matchPatternExtract_appends (chain : List PatternNode) (str : CString) (w : Wildcarded) :
    AppendsText chain str w (matchPatternExtract chain str (some w)).2 := by
  induction chain generalizing str w with
  | nil => exact appendsText_self rfl w
  | cons m child ih =>
      obtain ⟨text, mode⟩ := m
      rw [matchPatternExtract]
      split
      · rename_i hlen
        cases mode with
        | substring =>
            dsimp only
            split
            · rename_i htext
              obtain rfl : text = [] := htext
              have hstar : PatternNode.IsStar ⟨[], .substring⟩ := ⟨rfl, rfl⟩
              have hparts := parts_star str
              apply appendsText_self
              rw [wildcardText_cons hparts, starText_cons hparts, if_pos (.inl hstar), if_pos hstar]
              rfl
            · rename_i htext
              have hstar : ¬ PatternNode.IsStar ⟨text, .substring⟩ := fun h => htext h.2
              cases hfirst : Glob.strstr str text with
              | none =>
                  apply appendsText_of_parts_none
                  show (Glob.strstr str text).map _ = none
                  rw [hfirst]
                  rfl
              | some s =>
                  have hparts := parts_substring_iff.mpr ⟨s, hfirst, rfl, rfl⟩
                  have hfront := addWildcarded_appends w (Nat.sub_le str.length s.length)
                  dsimp only
                  cases child with
                  | nil =>
                      exact appendsText_last hparts hstar
                        (hfront.append (addWildcarded_appends_all _ _))
                  | cons p child =>
                      exact appendsText_cons hparts hstar (List.cons_ne_nil p child) hfront
                        (ih _ _)
        | prefixed =>
            have hstar : ¬ PatternNode.IsStar ⟨text, .prefixed⟩ := fun h => by cases h.1
            dsimp only
            split
            · rename_i hbegin
              have hparts : PatternNode.parts ⟨text, .prefixed⟩ str =
                  some ([], str.drop text.length) := if_pos hbegin
              cases child with
              | nil =>
                  exact appendsText_last hparts hstar (addWildcarded_appends_all w _)
              | cons p child =>
                  exact appendsText_cons hparts hstar (List.cons_ne_nil p child)
                    (appends_of_take_eq_nil List.take_nil) (ih _ _)
            · rename_i hbegin
              exact appendsText_of_parts_none (if_neg hbegin)
        | suffixed =>
            have hstar : ¬ PatternNode.IsStar ⟨text, .suffixed⟩ := fun h => by cases h.1
            dsimp only
            split
            · rename_i hsuffix
              have hparts : PatternNode.parts ⟨text, .suffixed⟩ str =
                  some (str.take (str.length - text.length), []) :=
                if_pos (List.suffix_iff_eq_drop.mpr hsuffix.symm)
              exact appendsText_front hparts hstar
                (addWildcarded_appends w (Nat.sub_le str.length text.length))
            · rename_i hsuffix
              apply appendsText_of_parts_none
              exact if_neg fun h => hsuffix (List.suffix_iff_eq_drop.mp h).symm
        | exact =>
            have hstar : ¬ PatternNode.IsStar ⟨text, .exact⟩ := fun h => by cases h.1
            dsimp only
            split
            · rename_i heq
              have hparts : PatternNode.parts ⟨text, .exact⟩ str = some ([], []) := if_pos heq
              exact appendsText_front hparts hstar (appends_of_take_eq_nil List.take_nil)
            · rename_i hne
              exact appendsText_of_parts_none (if_neg hne)
      · rename_i hlen
        exact appendsText_of_parts_none (parts_eq_none (Nat.lt_of_not_le hlen))

/-- A chain matches if it comes to asterisks without a text. -/
theorem matchPattern_of_starText_ne (h : starText chain str ≠ []) :
    matchPattern chain str = true := by
  induction chain generalizing str with
  | nil => exact absurd rfl h
  | cons m child ih =>
      cases hparts : m.parts str with
      | none => exact absurd (starText_of_parts_none hparts) h
      | some p =>
          obtain ⟨front, behind⟩ := p
          rw [starText_cons hparts] at h
          obtain ⟨text, mode⟩ := m
          split at h
          · rename_i hstar
            obtain ⟨rfl, rfl⟩ := hstar
            exact matchPattern_empty
          · rename_i hstar
            split at h
            · exact absurd rfl h
            · have hchild := ih h
              cases mode with
              | substring =>
                  have htext : text ≠ [] := fun htext => hstar ⟨rfl, htext⟩
                  obtain ⟨s, hfirst, -, rfl⟩ := parts_substring_iff.mp hparts
                  exact (matchPattern_substring htext).mpr ⟨s, hfirst, .inr hchild⟩
              | prefixed =>
                  obtain ⟨-, hwhole⟩ := parts_prefixed_iff.mp hparts
                  exact matchPattern_prefixed.mpr ⟨behind, hwhole, .inr hchild⟩
              | suffixed =>
                  obtain ⟨-, rfl⟩ := parts_suffixed_iff.mp hparts
                  exact absurd (starText_nil child) h
              | exact =>
                  obtain ⟨-, -, rfl⟩ := parts_exact_iff.mp hparts
                  exact absurd (starText_nil child) h

end Append

/-! ## What a list leaves in the buffer -/

/-- The bytes of a buffer before a pattern is tried. -/
def emptied (bytes : Nat → Char) : Nat → Char := Function.update bytes 0 '\x00'

/-- The bytes of a buffer behind a pattern that fails. -/
def leftBehind (str : CString) (size : Nat) (m : SimplePattern) (bytes : Nat → Char) : Nat → Char :=
  fun p => ((wildcardText m.chain str).take (size - 1)).getD p (emptied bytes p)

/-- The bytes that are not written are those of the text all the same: the zero behind it, and
what asterisks without a text stand for. -/
def TextKept (str : CString) (size : Nat) (m : SimplePattern) (bytes : Nat → Char) : Prop :=
  let text := (wildcardText m.chain str).take (size - 1)
  let appended := (wildcardText m.chain str).length - (starText m.chain str).length
  ∀ p ≤ text.length, appended ≤ p ∨ p = text.length → emptied bytes p = text.getD p '\x00'

/-- The text is kept by the first pattern that matches, if it is not negative. -/
def ExtractKept (str : CString) (size : Nat) : List SimplePattern → (Nat → Char) → Prop
  | [], _ => True
  | m :: next, bytes =>
      if matchPattern m.chain str = true then m.negative = true ∨ TextKept str size m bytes
      else ExtractKept str size next (leftBehind str size m bytes)

instance (str : CString) (size : Nat) (m : SimplePattern) (bytes : Nat → Char) :
    Decidable (TextKept str size m bytes) :=
  inferInstanceAs (Decidable (∀ p ≤ ((wildcardText m.chain str).take (size - 1)).length, _ → _))

instance ExtractKept.decidable (str : CString) (size : Nat) :
    (list : List SimplePattern) → (bytes : Nat → Char) →
      Decidable (ExtractKept str size list bytes)
  | [], _ => .isTrue trivial
  | m :: next, bytes =>
      have := ExtractKept.decidable str size next (leftBehind str size m bytes)
      inferInstanceAs (Decidable
        (if matchPattern m.chain str = true then m.negative = true ∨ TextKept str size m bytes
        else ExtractKept str size next (leftBehind str size m bytes)))

/-- If the result is true, the buffer holds what the asterisks of the first pattern that matches
stand for, cut to the size of the buffer. -/
def ExtractsText (list : List SimplePattern) (str : CString) (size : Nat)
    (result : Bool × Option (Buffer Char)) : Prop :=
  result.1 = true → ∃ m buf, list.find? (fun m => matchPattern m.chain str) = some m ∧
    result.2 = some buf ∧ buf.HoldsString 0 ((wildcardText m.chain str).take (size - 1)) '\x00'

section List

variable {str : CString} {size : Nat}

theorem emptied_eq (buf : Buffer Char) (p : Nat) :
    (buf.put 0 '\x00').data p = emptied (fun q : Nat => buf.data q) p := by
  show Function.update buf.data 0 '\x00' (p : Int) = _
  rw [emptied]
  cases p with
  | zero => rfl
  | succ p => rw [Function.update_of_ne (by omega), Function.update_of_ne (Nat.succ_ne_zero p)]

/-- The first pattern of a list. -/
theorem extractLoop_cons (str : CString) (size : Nat) (m : SimplePattern)
    (next : List SimplePattern) (buf : Buffer Char) :
    ∃ final text, text ++ starText m.chain str = wildcardText m.chain str ∧
      Buffer.Stores (buf.put 0 '\x00') final 0 (text.take (size - 1)) ∧
      extractLoop str size (m :: next) (some buf) =
        if matchPattern m.chain str = true then (!m.negative, some final)
        else extractLoop str size next (some final) := by
  let w : Wildcarded := { buf := buf.put 0 '\x00', next := 0, size }
  obtain ⟨w', text, hresult, happends, htext⟩ := matchPatternExtract_appends m.chain str w
  have hpair : matchPatternExtract m.chain str
      (((some buf).map fun buf => buf.put 0 '\x00').map fun buf => { buf, next := 0, size }) =
        (matchPattern m.chain str, some w') :=
    Prod.ext (matchPatternExtract_answer m.chain str (some w)).1 hresult
  exact ⟨w'.buf, text, htext, happends.stores, extractLoop_of_eq hpair next⟩

/-- Nothing is written outside of a buffer of the given size. -/
theorem extractLoop_inside (hsize : 0 < size) (list : List SimplePattern) {buf final : Buffer Char}
    (hfinal : (extractLoop str size list (some buf)).2 = some final) :
    ∀ p ∈ final.written, p ∈ buf.written ∨ 0 ≤ p ∧ p < size := by
  induction list generalizing buf with
  | nil =>
      obtain rfl := Option.some.inj hfinal
      exact fun p hp => .inl hp
  | cons m next ih =>
      obtain ⟨last, text, -, hstores, hresult⟩ :=
        extractLoop_cons str size m next buf
      have hlength : (text.take (size - 1)).length < size := by
        rw [List.length_take]
        omega
      have hlast : ∀ p ∈ last.written, p ∈ buf.written ∨ 0 ≤ p ∧ p < size := by
        intro p hp
        obtain hput | hstored := (hstores.written p).mp hp
        · obtain hold | hzero := List.mem_append.mp hput
          · exact .inl hold
          · obtain rfl : p = 0 := List.mem_singleton.mp hzero
            omega
        · omega
      rw [hresult] at hfinal
      split at hfinal
      · obtain rfl := Option.some.inj hfinal
        exact hlast
      · intro p hp
        exact (ih hfinal p hp).elim (hlast p) .inr

/-- What the first pattern that matches leaves in the buffer. -/
theorem holdsString_iff_textKept {m : SimplePattern} {final : Buffer Char} {text : CString}
    {bytes : Nat → Char} (htext : text ++ starText m.chain str = wildcardText m.chain str)
    (hfinal : ∀ p : Nat, final.data p = (text.take (size - 1)).getD p (emptied bytes p)) :
    final.HoldsString 0 ((wildcardText m.chain str).take (size - 1)) '\x00' ↔
      TextKept str size m bytes := by
  have hlength : (wildcardText m.chain str).length - (starText m.chain str).length =
      text.length := by
    rw [← htext, List.length_append, Nat.add_sub_cancel]
  rw [Buffer.holdsString_zero_iff, TextKept]
  refine forall₂_congr fun p hp => ?_
  rw [hfinal, hlength]
  by_cases hwritten : text.length ≤ p ∨ p = ((wildcardText m.chain str).take (size - 1)).length
  · have hbehind : (text.take (size - 1)).length ≤ p := by
      rw [List.length_take]
      obtain h | rfl := hwritten
      · omega
      · rw [← htext, List.length_take, List.length_append]
        omega
    rw [List.getD_eq_default _ _ hbehind]
    exact ⟨fun h _ => h, fun h => h hwritten⟩
  · obtain ⟨hshort, hne⟩ := not_or.mp hwritten
    have hlt : p < text.length := Nat.lt_of_not_le hshort
    have hroom : p < size - 1 := by
      rw [List.length_take] at hp hne
      omega
    have htake : p < (text.take (size - 1)).length := by
      rw [List.length_take]
      omega
    apply iff_of_true
    · have hwhole : p < ((text ++ starText m.chain str).take (size - 1)).length := by
        rw [List.length_take, List.length_append]
        omega
      rw [← htext, List.getD_eq_getElem _ _ htake, List.getD_eq_getElem _ _ hwhole,
        List.getElem_take, List.getElem_take, List.getElem_append_left hlt]
    · exact fun h => absurd h hwritten

/-- Exactly when `simple_pattern_matches_extract` fills the buffer as its comment says. -/
theorem simple_pattern_matches_extract_iff (list : List SimplePattern) {str : CString}
    (hstr : str ≠ []) (buf : Buffer Char) (size : Nat) :
    ExtractsText list str size (simplePatternMatchesExtract list str (some buf) size) ↔
      ExtractKept str size list fun p => buf.data p := by
  have hloop : ExtractsText list str size (extractLoop str size list (some buf)) ↔
      ExtractKept str size list fun p => buf.data p := by
    induction list generalizing buf with
    | nil => exact iff_of_true (fun h => by cases h) trivial
    | cons m next ih =>
        obtain ⟨final, text, htext, hstores, hresult⟩ :=
          extractLoop_cons str size m next buf
        have hfinal (p : Nat) : final.data p =
            (text.take (size - 1)).getD p (emptied (fun q : Nat => buf.data q) p) := by
          rw [hstores.data_eq, emptied_eq]
        rw [hresult, ExtractKept]
        by_cases hmatch : matchPattern m.chain str = true
        · rw [if_pos hmatch, if_pos hmatch, ← holdsString_iff_textKept htext hfinal]
          have hfirst : (m :: next).find? (fun m => matchPattern m.chain str) = some m :=
            List.find?_cons_of_pos hmatch
          constructor
          · intro h
            cases hnegative : m.negative with
            | true => exact .inl rfl
            | false =>
                obtain ⟨first, buf', hfind, hbuf, hholds⟩ := h (by rw [hnegative]; rfl)
                obtain rfl := Option.some.inj (hfirst.symm.trans hfind)
                obtain rfl := Option.some.inj hbuf
                exact .inr hholds
          · rintro (hnegative | hholds) hanswer
            · rw [hnegative] at hanswer
              cases hanswer
            · exact ⟨m, final, hfirst, rfl, hholds⟩
        · have hstar : starText m.chain str = [] := by
            by_contra hstar
            exact hmatch (matchPattern_of_starText_ne hstar)
          have hbytes : (fun p : Nat => final.data p) =
              leftBehind str size m fun p : Nat => buf.data p := by
            funext p
            rw [hfinal, leftBehind, ← htext, hstar, List.append_nil]
          have hfind : (m :: next).find? (fun m => matchPattern m.chain str) =
              next.find? fun m => matchPattern m.chain str := List.find?_cons_of_neg hmatch
          rw [if_neg hmatch, if_neg hmatch, ← hbytes, ← ih final, ExtractsText, hfind]
          exact Iff.rfl
  rw [simplePatternMatchesExtract]
  by_cases hlist : list = []
  · rw [if_pos (.inl hlist), hlist]
    exact iff_of_true (fun h => by cases h) trivial
  · rw [if_neg (not_or.mpr ⟨hlist, hstr⟩)]
    exact hloop

/-! ## What the condition says -/

theorem mem_of_mem_wildcardText {chain : List PatternNode} {c : Char}
    (h : c ∈ wildcardText chain str) : c ∈ str := by
  induction chain generalizing str with
  | nil => cases h
  | cons m child ih =>
      cases hparts : m.parts str with
      | none =>
          rw [wildcardText_of_parts_none hparts] at h
          cases h
      | some p =>
          obtain ⟨front, behind⟩ := p
          have hbehind : behind <:+ str := by
            rw [parts_append hparts, ← List.append_assoc]
            exact List.suffix_append _ behind
          rw [wildcardText_cons hparts] at h
          obtain h | h := List.mem_append.mp h
          · rw [parts_append hparts]
            exact List.mem_append_left _ h
          · split at h
            · exact hbehind.subset h
            · exact hbehind.subset (ih h)

/-- Without asterisks that have no text, only the zero behind the text matters. -/
theorem textKept_iff_of_starText_nil {m : SimplePattern} {bytes : Nat → Char}
    (h : starText m.chain str = []) :
    TextKept str size m bytes ↔
      emptied bytes ((wildcardText m.chain str).take (size - 1)).length = '\x00' := by
  have hlast (text : CString) : text.getD text.length '\x00' = '\x00' :=
    List.getD_eq_default _ _ (Nat.le_refl _)
  have hlength : ((wildcardText m.chain str).take (size - 1)).length ≤
      (wildcardText m.chain str).length := List.length_take_le' _ _
  rw [TextKept, h]
  constructor
  · intro hkept
    exact (hkept _ (Nat.le_refl _) (.inr rfl)).trans (hlast _)
  · intro hzero p hp hwritten
    obtain rfl : p = ((wildcardText m.chain str).take (size - 1)).length := by
      obtain hle | heq := hwritten
      · exact Nat.le_antisymm hp (hlength.trans hle)
      · exact heq
    exact hzero.trans (hlast _).symm

/-- A zero that was in the buffer is left by patterns that append no more than what is in front
of it. -/
theorem leftBehind_eq_nul_iff (hnul : '\x00' ∉ str) {m : SimplePattern} {bytes : Nat → Char}
    {p : Nat} (hp : 0 < p) :
    leftBehind str size m bytes p = '\x00' ↔
      ((wildcardText m.chain str).take (size - 1)).length ≤ p ∧ bytes p = '\x00' := by
  have hbytes : emptied bytes p = bytes p := Function.update_of_ne (Nat.ne_of_gt hp) _ _
  rw [leftBehind, hbytes]
  by_cases hlength : ((wildcardText m.chain str).take (size - 1)).length ≤ p
  · rw [List.getD_eq_default _ _ hlength, and_iff_right hlength]
  · rw [List.getD_eq_getElem _ _ (Nat.lt_of_not_le hlength)]
    refine iff_of_false (fun hzero => hnul ?_) fun h => hlength h.1
    have hmem := List.mem_of_mem_take (List.getElem_mem (Nat.lt_of_not_le hlength))
    rw [hzero] at hmem
    exact mem_of_mem_wildcardText hmem

end List

/-- A pattern of a word and an asterisk. -/
theorem create_word_asterisk : simplePatternCreate ['a', '*'] [] .exact =
    [{ chain := [⟨['a'], .prefixed⟩], negative := false }] := by
  have hitems : listItems (isSeparator []) ['a', '*'] =
      [{ negative := false, text := ['a', '*'] }] := by
    rw [listItems_eq (by decide)]
    decide
  have hchain : parsePattern .exact ['a', '*'] = [⟨['a'], .prefixed⟩] := by
    rw [parsePattern, if_neg (by decide)]
    decide
  rw [simplePatternCreate, hitems, List.map_singleton, hchain]

/-- A buffer of zeros. -/
theorem simple_pattern_matches_extract_iff_zeros :
    ExtractsText (simplePatternCreate ['a', '*'] [] .exact) ['a', 'b'] 4
      (simplePatternMatchesExtract (simplePatternCreate ['a', '*'] [] .exact) ['a', 'b']
        (some { data := fun _ => '\x00' }) 4) :=
  (simple_pattern_matches_extract_iff _ (List.cons_ne_nil _ _) _ 4).mpr (by
    rw [create_word_asterisk]
    decide)

/-- In a buffer of other bytes, what is extracted is not terminated. -/
theorem extract_not_terminated : ¬ ExtractsText (simplePatternCreate ['a', '*'] [] .exact)
    ['a', 'b'] 4 (simplePatternMatchesExtract (simplePatternCreate ['a', '*'] [] .exact) ['a', 'b']
      (some { data := fun _ => 'x' }) 4) := by
  rw [create_word_asterisk]
  intro h
  obtain ⟨m, buf, hfind, hbuf, hholds⟩ := h (by decide)
  obtain rfl : m = { chain := [⟨['a'], .prefixed⟩], negative := false } :=
    (Option.some.inj hfind).symm
  obtain rfl := Option.some.inj hbuf
  exact absurd hholds.terminated (by decide)

end XMonitor
