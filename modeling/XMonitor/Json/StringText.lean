import XMonitor.Json.ParseString

/-!
# Reading a printed string

What `print_string_ptr` writes for a string, `parse_string` reads as that string. Each byte is
printed in one of three ways, and both passes of `parse_string` go over the three of them.
-/

namespace XMonitor.Json

open Lib Lib.Procedure

/-- The ways in which a byte is printed inside quotation marks. -/
inductive Escaped (c : UInt8) : Bytes → Prop
  | plain : c ≠ quotationMark → c ≠ backslash → Escaped c [c]
  | simple (e : UInt8) : simpleEscape e = some c → Escaped c [backslash, e]
  | control : c < 32 →
    Escaped c [backslash, 117, 48, 48, hexDigit (c / 16), hexDigit (c % 16)]

theorem escaped_escape (c : UInt8) : Escaped c (escape c) := by
  rw [escape]
  split
  · next h =>
    refine .simple c ?_
    rcases h with rfl | rfl <;> rfl
  · next hne =>
    rw [not_or] at hne
    split
    · next h => exact h ▸ .simple 98 rfl
    split
    · next h => exact h ▸ .simple 102 rfl
    split
    · next h => exact h ▸ .simple 110 rfl
    split
    · next h => exact h ▸ .simple 114 rfl
    split
    · next h => exact h ▸ .simple 116 rfl
    split
    · next h => exact .control h
    · exact .plain hne.1 hne.2

/-! ## The first pass -/

theorem findEnd_cons {c : UInt8} (hquote : c ≠ quotationMark) (hslash : c ≠ backslash)
    (inputEnd k : Nat) (rest : Bytes) :
    findEnd inputEnd k (c :: rest) = findEnd (inputEnd + 1) k rest := by
  conv_lhs => unfold findEnd
  rw [if_neg hquote, if_neg hslash]

theorem hexDigit_ne : ∀ c : UInt8, hexDigit (c / 16) ≠ quotationMark ∧
    hexDigit (c / 16) ≠ backslash ∧ hexDigit (c % 16) ≠ quotationMark ∧
    hexDigit (c % 16) ≠ backslash :=
  forall_byte (by decide +kernel)

/-- The first pass goes over a printed byte, and what it leaves out is not the byte. -/
theorem findEnd_escaped {c : UInt8} {e : Bytes} (h : Escaped c e) :
    ∃ j, j + 1 ≤ e.length ∧ ∀ inputEnd k rest,
      findEnd inputEnd k (e ++ rest) = findEnd (inputEnd + e.length) (k + j) rest := by
  cases h with
  | plain hquote hslash =>
    exact ⟨0, Nat.le_refl _, fun inputEnd k rest => findEnd_cons hquote hslash inputEnd k rest⟩
  | simple e he =>
    exact ⟨1, Nat.le_refl _, fun inputEnd k rest => rfl⟩
  | control hc =>
    refine ⟨1, Nat.le_of_ble_eq_true rfl, fun inputEnd k rest => ?_⟩
    obtain ⟨hhigh, hhigh', hlow, hlow'⟩ := hexDigit_ne c
    change findEnd (inputEnd + 2 + 1 + 1) (k + 1)
      (hexDigit (c / 16) :: hexDigit (c % 16) :: rest) = _
    rw [findEnd_cons hhigh hhigh', findEnd_cons hlow hlow']
    rfl

theorem findEnd_text (bytes : Bytes) : ∃ j, j + bytes.length ≤ (bytes.flatMap escape).length ∧
    ∀ inputEnd k rest, findEnd inputEnd k (bytes.flatMap escape ++ quotationMark :: rest) =
      some (inputEnd + (bytes.flatMap escape).length, k + j) := by
  induction bytes with
  | nil =>
    refine ⟨0, Nat.le_refl _, fun inputEnd k rest => ?_⟩
    change findEnd inputEnd k (quotationMark :: rest) = some (inputEnd, k)
    unfold findEnd
    exact if_pos rfl
  | cons c bytes ih =>
    obtain ⟨j, hj, hfind⟩ := ih
    obtain ⟨i, hi, hfirst⟩ := findEnd_escaped (escaped_escape c)
    refine ⟨i + j, ?_, fun inputEnd k rest => ?_⟩
    · rw [List.flatMap_cons, List.length_append, List.length_cons]
      omega
    · rw [List.flatMap_cons, List.append_assoc, hfirst, hfind, List.length_append, Nat.add_assoc,
        Nat.add_assoc]

/-! ## The second pass -/

theorem load_of_drop {σ : Type} {content e rest : Bytes} {p i : Nat} {c : UInt8}
    (h : content.drop p = e ++ rest) (hi : e[i]? = some c) (s : σ) :
    load content (p + i) s = .ok c s := by
  have hlt : i < e.length := (List.getElem?_eq_some_iff.1 hi).1
  rw [load, ← List.getElem?_drop, h, List.getElem?_append_left hlt, hi]
  rfl

theorem load_first_of_drop {σ : Type} {content e rest : Bytes} {p : Nat} {c : UInt8}
    (h : content.drop p = c :: (e ++ rest)) (s : σ) : load content p s = .ok c s :=
  load_of_drop (i := 0) (e := c :: e) h rfl s

theorem write_eq {size : Nat} {s : StringState} {bytes : Bytes}
    (h : s.output.length + bytes.length ≤ size) :
    write size bytes s = .ok () { s with output := s.output ++ bytes } := if_pos h

theorem hexValue_hexDigit : ∀ c : UInt8, hexValue (hexDigit (c / 16)) = some (c / 16).toNat ∧
    hexValue (hexDigit (c % 16)) = some (c % 16).toNat :=
  forall_byte (by decide +kernel)

theorem control_value : ∀ c : UInt8, c < 32 →
    (((0 + 0) * 16 + 0) * 16 + (c / 16).toNat) * 16 + (c % 16).toNat = c.toNat ∧
      encodeUtf8 c.toNat = some [c] :=
  forall_byte (by decide +kernel)

section Decode

variable {c : UInt8} {content rest : Bytes} {p : Nat}

theorem parseHex4_control {σ : Type} (hc : c < 32)
    (h : content.drop p =
      [backslash, 117, 48, 48, hexDigit (c / 16), hexDigit (c % 16)] ++ rest) (s : σ) :
    parseHex4 content (p + 2) s = .ok c.toNat s := by
  obtain ⟨hhigh, hlow⟩ := hexValue_hexDigit c
  have hload₀ : load content (p + 2) s = .ok 48 s := load_of_drop h rfl s
  have hload₁ : load content (p + 3) s = .ok 48 s := load_of_drop h rfl s
  have hload₂ : load content (p + 4) s = .ok (hexDigit (c / 16)) s := load_of_drop h rfl s
  have hload₃ : load content (p + 5) s = .ok (hexDigit (c % 16)) s := load_of_drop h rfl s
  rw [parseHex4, parseHexDigits, bind_of_ok hload₀]
  change parseHexDigits content _ 3 (p + 3) s = _
  rw [parseHexDigits, bind_of_ok hload₁]
  change parseHexDigits content _ 2 (p + 4) s = _
  rw [parseHexDigits, bind_of_ok hload₂, hhigh]
  change parseHexDigits content _ 1 (p + 5) s = _
  rw [parseHexDigits, bind_of_ok hload₃, hlow]
  exact congrArg (fun n => Outcome.ok n s) (control_value c hc).1

theorem utf16LiteralToUtf8_control {σ : Type} {inputEnd : Nat} (hc : c < 32)
    (h : content.drop p =
      [backslash, 117, 48, 48, hexDigit (c / 16), hexDigit (c % 16)] ++ rest)
    (hend : p + 6 ≤ inputEnd) (s : σ) :
    utf16LiteralToUtf8 content p inputEnd s = .ok (6, [c]) s := by
  have hsmall : c.toNat < 32 := UInt8.lt_iff_toNat_lt.1 hc
  unfold utf16LiteralToUtf8
  rw [if_neg (by omega), bind_of_ok (parseHex4_control hc h s), if_neg (by omega),
    if_neg (by omega), (control_value c hc).2]
  rfl

/-- A turn over a printed byte writes that byte. -/
theorem decodeNext_escaped {e : Bytes} (he : Escaped c e) {inputEnd size : Nat} {s : StringState}
    (h : content.drop s.inputPointer = e ++ rest) (hend : s.inputPointer + e.length ≤ inputEnd)
    (hsize : s.output.length + 1 ≤ size) :
    decodeNext content inputEnd size s =
      .ok () { inputPointer := s.inputPointer + e.length, output := s.output ++ [c] } := by
  have hwrite : write size [c] s = .ok () { s with output := s.output ++ [c] } := write_eq hsize
  unfold decodeNext
  rw [get_bind]
  cases he with
  | plain hquote hslash =>
    have hload : load content s.inputPointer s = .ok c s := load_first_of_drop (e := []) h s
    rw [bind_of_ok hload, if_pos hslash, bind_of_ok hwrite]
    rfl
  | simple e he =>
    have hload : load content s.inputPointer s = .ok backslash s := load_first_of_drop h s
    have hload' : load content (s.inputPointer + 1) s = .ok e s := load_of_drop h rfl s
    have hlength : s.inputPointer + 2 ≤ inputEnd := hend
    rw [bind_of_ok hload, if_neg (not_not_intro rfl), if_neg (by omega), bind_of_ok hload', he]
    change (write size [c] >>= fun _ => advanceInput 2) s = _
    rw [bind_of_ok hwrite]
    rfl
  | control hc =>
    have hload : load content s.inputPointer s = .ok backslash s := load_first_of_drop h s
    have hload' : load content (s.inputPointer + 1) s = .ok 117 s := load_of_drop h rfl s
    have hlength : s.inputPointer + 6 ≤ inputEnd := hend
    rw [bind_of_ok hload, if_neg (not_not_intro rfl), if_neg (by omega), bind_of_ok hload']
    change (utf16LiteralToUtf8 content s.inputPointer inputEnd >>= _) s = _
    rw [bind_of_ok (utf16LiteralToUtf8_control hc h hlength s)]
    change (write size [c] >>= fun _ => advanceInput 6) s = _
    rw [bind_of_ok hwrite]
    rfl

theorem decodeString_text (size : Nat) : ∀ (bytes : Bytes) (fuel : Nat) {s : StringState},
    content.drop s.inputPointer = bytes.flatMap escape ++ rest → bytes.length < fuel →
    s.output.length + bytes.length ≤ size →
    decodeString content (s.inputPointer + (bytes.flatMap escape).length) size fuel s =
      .ok () { inputPointer := s.inputPointer + (bytes.flatMap escape).length,
               output := s.output ++ bytes }
  | [], fuel + 1, s, _, _, _ => by
    rw [decodeString, get_bind, List.append_nil]
    exact congrFun (if_neg (Nat.lt_irrefl _)) s
  | c :: bytes, fuel + 1, s, h, hfuel, hsize => by
    have hpos : 0 < (escape c).length := by
      obtain ⟨j, hj, -⟩ := findEnd_escaped (escaped_escape c)
      exact Nat.lt_of_lt_of_le (Nat.succ_pos j) hj
    rw [List.flatMap_cons, List.append_assoc] at h
    rw [List.flatMap_cons, List.length_append, decodeString, get_bind, if_pos (by omega)]
    rw [List.length_cons] at hsize hfuel
    rw [bind_of_ok (decodeNext_escaped (escaped_escape c) h (by omega) (by omega)),
      ← Nat.add_assoc]
    have hdrop : content.drop (s.inputPointer + (escape c).length) =
        bytes.flatMap escape ++ rest := by
      rw [← List.drop_drop, h, List.drop_left]
    have ih := decodeString_text size bytes fuel
      (s := { inputPointer := s.inputPointer + (escape c).length, output := s.output ++ [c] })
      hdrop (by omega) (by
        change (s.output ++ [c]).length + bytes.length ≤ size
        rw [List.length_append, List.length_singleton]
        omega)
    rw [List.append_assoc] at ih
    exact ih

end Decode

/-! ## The string -/

theorem Str.ofBytes_nul (s : Str) : Str.ofBytes (s.bytes ++ [0]) = s := by
  have htake : (s.bytes ++ [0]).takeWhile (· ≠ 0) = s.bytes := by
    rw [List.takeWhile_append_of_pos]
    · exact List.append_nil _
    · intro c hc
      refine decide_eq_true ?_
      rintro rfl
      exact s.nul_free hc
  cases s with
  | mk bytes nul_free => exact Str.mk.injEq _ _ _ _ ▸ htake

/-- `parse_string` reads what `print_string_ptr` has written. -/
theorem parseString_text (s : Str) {b : ParseBuffer} {rest : Bytes}
    (h : b.content.drop b.offset = s.text ++ rest) :
    parseString b = .ok s { b with offset := b.offset + s.text.length } := by
  obtain ⟨j, hj, hfind⟩ := findEnd_text s.bytes
  have hlength : s.text.length = (s.bytes.flatMap escape).length + 2 := by
    rw [Str.text, List.length_cons, List.length_append, List.length_singleton]
  have hquote : b.content[b.offset]? = some quotationMark := by
    have hzero := congrArg (fun l => l[0]?) h
    simp only [List.getElem?_drop, Nat.add_zero] at hzero
    exact hzero
  have hdrop : b.content.drop (b.offset + 1) =
      s.bytes.flatMap escape ++ quotationMark :: rest := by
    rw [← List.drop_drop, h, Str.text, List.cons_append, List.append_assoc]
    rfl
  rw [parseString, hquote]
  simp only
  rw [if_neg (not_not_intro rfl), hdrop, hfind]
  simp only [Nat.zero_add]
  generalize hsize : b.offset + 1 + (s.bytes.flatMap escape).length - b.offset - j + 1 = size
  have hdecode := decodeString_text (s := { inputPointer := b.offset + 1 }) size s.bytes
    (b.offset + 1 + (s.bytes.flatMap escape).length - (b.offset + 1) + 1) hdrop
    (by omega) (by change 0 + _ ≤ _; omega)
  simp only [List.nil_append] at hdecode
  rw [bind_of_ok hdecode, write_eq (by change s.bytes.length + 1 ≤ size; omega)]
  simp only
  rw [s.ofBytes_nul, hlength]
  have hoffset : b.offset + 1 + (s.bytes.flatMap escape).length + 1 =
      b.offset + ((s.bytes.flatMap escape).length + 2) := by omega
  rw [hoffset]

end XMonitor.Json
