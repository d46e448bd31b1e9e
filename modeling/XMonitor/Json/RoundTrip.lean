import XMonitor.Json.ParseSafety
import XMonitor.Json.PrintText
import XMonitor.Json.StringText

/-!
# Parsing a printed item

What `print_value` writes, `parse_value` reads as the same item, formatted or not. A floating point
number takes part if its text is one that `parse_number` reads as a floating point number: the
text of an integral one has no point, and is read as an integer.
-/

namespace XMonitor.Json

open Lib Lib.Procedure Procfile

/-! ## Reading a piece of text -/

/-- What the parser has not read yet. -/
def ParseBuffer.rest (b : ParseBuffer) : Bytes := b.content.drop b.offset

/-- In front of `text`, the parser reads it as `a` and leaves `rest`. -/
def Reads {α : Type} (p : Parse α) (depth : Nat) (text rest : Bytes) (a : α) : Prop :=
  ∀ b : ParseBuffer, b.depth = depth → b.rest = text ++ rest →
    p b = .ok a { b with offset := b.offset + text.length }

section Reads

variable {α β : Type} {p : Parse α} {f : α → Parse β} {depth : Nat} {text next rest : Bytes}
  {a : α} {c : β}

theorem ParseBuffer.rest_advance {b : ParseBuffer} (h : b.rest = text ++ rest) :
    ({ b with offset := b.offset + text.length } : ParseBuffer).rest = rest := by
  change b.content.drop (b.offset + text.length) = rest
  rw [← List.drop_drop]
  change b.rest.drop text.length = rest
  rw [h, List.drop_left]

theorem Reads.bind (first : Reads p depth text (next ++ rest) a)
    (second : Reads (f a) depth next rest c) : Reads (p >>= f) depth (text ++ next) rest c := by
  intro b hdepth hrest
  rw [List.append_assoc] at hrest
  have hsecond := second { b with offset := b.offset + text.length } hdepth
    (ParseBuffer.rest_advance hrest)
  rw [bind_of_ok (first b hdepth hrest), hsecond, List.length_append, ← Nat.add_assoc]

/-- The first parser reads nothing. -/
theorem Reads.bind_nil (first : Reads p depth [] (text ++ rest) a)
    (second : Reads (f a) depth text rest c) : Reads (p >>= f) depth text rest c := by
  have h : Reads (p >>= f) depth ([] ++ text) rest c := Reads.bind first second
  exact h

theorem Reads.pure (a : α) : Reads (Pure.pure a : Parse α) depth [] rest a := fun _ _ _ => rfl

theorem Reads.get {f : ParseBuffer → Parse β}
    (h : ∀ b, b.depth = depth → b.rest = text ++ rest → Reads (f b) depth text rest c) :
    Reads ((Procedure.get : Parse ParseBuffer) >>= f) depth text rest c :=
  fun b hdepth hrest => h b hdepth hrest b hdepth hrest

/-- A parser that ends with what it has read. -/
theorem Reads.map {g : α → β} (h : Reads p depth text rest a) :
    Reads (do let a ← p; Pure.pure (g a)) depth text rest (g a) := by
  have hpure : Reads (Pure.pure (g a)) depth [] rest (g a) := Reads.pure _
  have hbind := Reads.bind (f := fun a => Pure.pure (g a)) h hpure
  rwa [List.append_nil] at hbind

end Reads

/-! ## Looking at the next byte -/

section Next

variable {b : ParseBuffer} {c : UInt8} {r : Bytes}

theorem ParseBuffer.getElem?_of_rest (h : b.rest = c :: r) : b.content[b.offset]? = some c := by
  have hzero := congrArg (fun l => l[0]?) h
  simpa only [rest, List.getElem?_drop, Nat.add_zero, List.getElem?_cons_zero] using hzero

theorem ParseBuffer.offset_lt_of_rest (h : b.rest = c :: r) : b.offset < b.content.length :=
  (List.getElem?_eq_some_iff.1 (getElem?_of_rest h)).1

theorem ParseBuffer.isAt_of_rest (h : b.rest = c :: r) (d : UInt8) : b.isAt d = decide (c = d) := by
  rw [isAt, getElem?_of_rest h]
  exact decide_eq_decide.2 ⟨Option.some.inj, congrArg some⟩

theorem ParseBuffer.startsWith_of_rest {literal : Bytes} (h : b.rest = literal ++ r)
    (hpos : 0 < literal.length) : b.startsWith literal = true := by
  have hlength := congrArg List.length h
  rw [rest, List.length_drop, List.length_append] at hlength
  have hread : b.canRead literal.length = true := decide_eq_true (by omega)
  refine decide_eq_true ⟨hread, ?_⟩
  change b.rest.take literal.length = literal
  rw [h, List.take_left]

theorem ParseBuffer.not_startsWith_of_rest {d : UInt8} {l : Bytes} (h : b.rest = c :: r)
    (hne : c ≠ d) : b.startsWith (d :: l) = false := by
  refine decide_eq_false fun hstarts => hne ?_
  have htake : b.rest.take (l.length + 1) = d :: l := hstarts.2
  rw [h, List.take_succ_cons] at htake
  exact (List.cons.inj htake).1

end Next

theorem skip_reads (depth : Nat) (text rest : Bytes) :
    Reads (skip text.length) depth text rest () := fun _ _ _ => rfl

/-- Bytes that `buffer_skip_whitespace` goes over. -/
def White (ws : Bytes) : Prop := ∀ c ∈ ws, c ≤ 32

theorem white_nil : White [] := fun _ hc => absurd hc List.not_mem_nil

theorem white_singleton {c : UInt8} (h : c ≤ 32) : White [c] :=
  fun _ hd => List.eq_of_mem_singleton hd ▸ h

theorem white_space {format : Bool} {ws : Bytes} (h : White ws) : White (space format ws) := by
  cases format with
  | true => exact h
  | false => exact white_nil

theorem white_tabs (depth : Nat) : White (tabs depth) :=
  fun c hc => List.eq_of_mem_replicate hc ▸ by decide

theorem White.append {ws ws' : Bytes} (h : White ws) (h' : White ws') : White (ws ++ ws') :=
  fun c hc => (List.mem_append.1 hc).elim (h c) (h' c)

theorem takeWhile_append_cons {p : UInt8 → Bool} {l r : Bytes} {c : UInt8} (h : ∀ a ∈ l, p a = true)
    (hc : p c = false) : (l ++ c :: r).takeWhile p = l := by
  have hneg : ¬ p c = true := by
    rw [hc]
    exact Bool.false_ne_true
  rw [List.takeWhile_append_of_pos h, List.takeWhile_cons_of_neg hneg, List.append_nil]

theorem whitespace_reads {depth : Nat} {ws r : Bytes} {c : UInt8} (h : White ws) (hc : 32 < c) :
    Reads bufferSkipWhitespace depth ws (c :: r) () := by
  intro b _ hrest
  have hlength := congrArg List.length hrest
  rw [ParseBuffer.rest, List.length_drop, List.length_append, List.length_cons] at hlength
  have htake : ((b.content.drop b.offset).takeWhile (· ≤ 32)).length = ws.length := by
    change (b.rest.takeWhile (· ≤ 32)).length = _
    rw [hrest, takeWhile_append_cons (fun a ha => decide_eq_true (h a ha))
      (decide_eq_false (UInt8.not_le.2 hc))]
  have haccess : b.canAccessAtIndex 0 = true :=
    decide_eq_true (by change b.offset < b.content.length; omega)
  change Outcome.ok () (if b.canAccessAtIndex 0 then _ else _) = _
  rw [if_pos haccess]
  change Outcome.ok () (if b.offset + _ = _ then _ else _) = _
  rw [htake, if_neg (by omega)]

/-! ## Numbers -/

/-- A number ends here. -/
def EndsNumber (rest : Bytes) : Prop := ∀ c ∈ rest.head?, isNumberByte c = false

/-- What `parse_number` copies. -/
theorem numberCString_eq {b : ParseBuffer} {text rest : Bytes} (hrest : b.rest = text ++ rest)
    (hall : ∀ c ∈ text, isNumberByte c = true) (hlength : text.length ≤ 63)
    (hend : EndsNumber rest) :
    ((b.content.drop b.offset).take 63).takeWhile isNumberByte = text := by
  have hself : text.takeWhile isNumberByte = text := List.takeWhile_eq_self_iff.2 hall
  change (b.rest.take 63).takeWhile isNumberByte = text
  rw [hrest, List.take_append, List.take_of_length_le hlength]
  cases rest with
  | nil => rw [List.take_nil, List.append_nil, hself]
  | cons c rest =>
    cases 63 - text.length with
    | zero => rw [List.take_zero, List.append_nil, hself]
    | succ n =>
      rw [List.take_succ_cons]
      exact takeWhile_append_cons hall (hend c rfl)

theorem isDigit_of_mem_decimal {n : Nat} {c : UInt8} (h : c ∈ decimal n) : isDigit c = true :=
  decide_eq_true (digit_of_mem_decimal h)

theorem decimalValue_decimal (n : Nat) : decimalValue (decimal n) = n := by
  have hstep : ∀ (l : List Char) (m : Nat), (∀ c ∈ l, c.isDigit) →
      (l.map fun c => UInt8.ofNat c.toNat).foldl (fun n c => n * 10 + (c.toNat - 48)) m =
        Nat.ofDigitChars 10 l m := by
    intro l
    induction l with
    | nil => exact fun _ _ => rfl
    | cons c l ih =>
      intro m hl
      obtain ⟨-, hle⟩ := toNat_of_isDigit (hl c List.mem_cons_self)
      have hmod : c.toNat % 2 ^ 8 = c.toNat := Nat.mod_eq_of_lt (by omega)
      rw [List.map_cons, List.foldl_cons, ih _ fun d hd => hl d (List.mem_cons_of_mem _ hd),
        Nat.ofDigitChars_cons, UInt8.toNat_ofNat', hmod, Nat.mul_comm m]
      rfl
  rw [decimalValue, decimal, hstep _ 0 fun c hc =>
    Nat.isDigit_of_mem_toDigits (by decide) (by decide) hc, Nat.ofDigitChars_ten_toDigits]

/-- A sign that may be missing, and digits. -/
theorem decimalInt_eq (v : Int) : ∃ sign, decimalInt v = sign ++ decimal v.natAbs ∧
    (sign = [] ∧ 0 ≤ v ∨ sign = [45] ∧ v < 0) := by
  cases v with
  | ofNat n => exact ⟨[], rfl, .inl ⟨rfl, Int.natCast_nonneg n⟩⟩
  | negSucc n => exact ⟨[45], rfl, .inr ⟨rfl, Int.negSucc_lt_zero n⟩⟩

theorem isNumberByte_of_mem_decimalInt {v : Int} {c : UInt8} (h : c ∈ decimalInt v) :
    isNumberByte c = true := by
  rcases mem_decimalInt h with rfl | hdigit
  · rfl
  · exact decide_eq_true (.inl (decide_eq_true hdigit))

theorem not_exponent_of_mem_decimalInt {v : Int} {c : UInt8} (h : c ∈ decimalInt v) :
    (!isExponent c && !isPoint c) = true := by
  have hall : ∀ c : UInt8, 48 ≤ c ∧ c ≤ 57 → (!isExponent c && !isPoint c) = true :=
    forall_byte (by decide +kernel)
  rcases mem_decimalInt h with rfl | hdigit
  · rfl
  · exact hall c hdigit

section Decimal

variable {sign digits : Bytes} (hsign : sign = [] ∨ sign = [45])
  (hdigits : ∀ c ∈ digits, isDigit c = true) (hne : digits ≠ [])

include hsign hdigits hne

theorem signLength_decimal : signLength (sign ++ digits) = sign.length := by
  obtain ⟨c, tail, rfl⟩ := List.exists_cons_of_ne_nil hne
  rcases hsign with rfl | rfl
  · have hall : ∀ c : UInt8, isDigit c = true → isSign c = false := forall_byte (by decide +kernel)
    have hc : isSign c = false := hall c (hdigits c List.mem_cons_self)
    rw [signLength]
    exact if_neg (by rw [List.nil_append, List.head?_cons, Option.any_some, hc]; decide)
  · rfl

theorem strtodLength_decimal : strtodLength (sign ++ digits) = (sign ++ digits).length := by
  have hwhole : digitsLength digits = digits.length := by
    rw [digitsLength, List.takeWhile_eq_self_iff.2 hdigits]
  have hpos := List.length_pos_iff.2 hne
  have hend : (sign ++ digits).drop (sign.length + digits.length) = [] :=
    List.drop_eq_nil_of_le (Nat.le_of_eq List.length_append)
  simp only [strtodLength, signLength_decimal hsign hdigits hne, List.drop_left, hwhole, hend]
  rw [if_neg (by simp; omega), List.length_append]
  simp [hend]

theorem strtoll_decimal (v : Int64) (hvalue : decimalValue digits = v.toInt.natAbs)
    (hneg : sign = [] ∧ 0 ≤ v.toInt ∨ sign = [45] ∧ v.toInt < 0) :
    strtoll (sign ++ digits) = (v, (sign ++ digits).length) := by
  have hdrop : ((sign ++ digits).drop sign.length).takeWhile isDigit = digits := by
    rw [List.drop_left, List.takeWhile_eq_self_iff.2 hdigits]
  have hle := v.le_toInt
  have hlt := v.toInt_lt
  have hsigned : (if (sign ++ digits).head? = some 45 then -(v.toInt.natAbs : Int)
      else v.toInt.natAbs) = v.toInt := by
    rcases hneg with ⟨rfl, hv⟩ | ⟨rfl, hv⟩
    · obtain ⟨c, tail, rfl⟩ := List.exists_cons_of_ne_nil hne
      rw [if_neg, Int.natAbs_of_nonneg hv]
      intro h
      have hc := hdigits c List.mem_cons_self
      rw [Option.some.inj h] at hc
      exact absurd hc (by decide)
    · refine (if_pos rfl).trans ?_
      rw [Int.ofNat_natAbs_of_nonpos (Int.le_of_lt hv), Int.neg_neg]
  simp only [strtoll, signLength_decimal hsign hdigits hne, hdrop, hvalue, hsigned]
  rw [if_neg hne, List.length_append, Int.min_eq_right (by omega), Int.max_eq_right (by omega),
    Int64.ofInt_toInt]

end Decimal

section Value

variable {D : Type} (strtod : Bytes → D) (sprintfDouble : D → NumberText)

/-- The text of a floating point number that is read as the same floating point number. -/
structure ReadBack (d : D) : Prop where
  byte : ∀ c ∈ (sprintfDouble d).bytes, isNumberByte c = true
  first : ∃ c tail, (sprintfDouble d).bytes = c :: tail ∧ (isSign c || isDigit c) = true
  whole : strtodLength (sprintfDouble d).bytes = (sprintfDouble d).bytes.length
  notInteger : ((sprintfDouble d).bytes.all fun c => !isExponent c && !isPoint c) = false
  value : strtod (sprintfDouble d).bytes = d

theorem number_reads {depth : Nat} {rest : Bytes} {d : D} (h : ReadBack strtod sprintfDouble d)
    (hend : EndsNumber rest) :
    Reads (parseNumber strtod) depth (sprintfDouble d).bytes rest (.number d) := by
  have hfits := (sprintfDouble d).fits
  obtain ⟨c, tail, htext, -⟩ := h.first
  have hpos : (sprintfDouble d).bytes.length ≠ 0 := by
    rw [htext]
    exact Nat.succ_ne_zero _
  intro b _ hrest
  have hnumber := numberCString_eq hrest h.byte (by omega) hend
  rw [parseNumber, get_bind]
  simp only [hnumber, h.whole, h.notInteger, if_neg hpos, h.value]
  rfl

theorem int_reads {depth : Nat} {rest : Bytes} (v : Int64) (hend : EndsNumber rest) :
    Reads (parseNumber strtod) depth (decimalInt v.toInt) rest (.int v) := by
  obtain ⟨sign, htext, hsign⟩ := decimalInt_eq v.toInt
  have hone : sign = [] ∨ sign = [45] := hsign.imp And.left And.left
  have hdigits : ∀ c ∈ decimal v.toInt.natAbs, isDigit c = true := fun _ => isDigit_of_mem_decimal
  have hne := decimal_ne_nil v.toInt.natAbs
  have hlength := strtodLength_decimal hone hdigits hne
  have hvalue := strtoll_decimal hone hdigits hne v (decimalValue_decimal _) hsign
  rw [← htext] at hlength hvalue
  have hpos : (decimalInt v.toInt).length ≠ 0 :=
    Nat.ne_of_gt (List.length_pos_iff.2 (decimalInt_ne_nil _))
  intro b _ hrest
  have hnumber := numberCString_eq hrest (fun c hc => isNumberByte_of_mem_decimalInt hc)
    (Nat.le_trans (length_decimalInt v) (by decide)) hend
  have hinteger : ((decimalInt v.toInt).all fun c => !isExponent c && !isPoint c) = true :=
    List.all_eq_true.2 fun c hc => not_exponent_of_mem_decimalInt hc
  rw [parseNumber, get_bind]
  simp only [hnumber, hlength, hinteger, if_neg hpos, hvalue]
  rfl

/-! ## Values -/

theorem string_reads {depth : Nat} {rest : Bytes} (s : Str) :
    Reads parseString depth s.text rest s := fun _ _ hrest => parseString_text s hrest

mutual

/-- Every floating point number in the item is read back. -/
def Item.ReadBack : Item D → Prop
  | .null | .bool _ | .int _ | .string _ => True
  | .number d => Json.ReadBack strtod sprintfDouble d
  | .array child => child.ReadBack
  | .object child => child.ReadBack

def Elements.ReadBack : Elements D → Prop
  | .nil => True
  | .cons item next => item.ReadBack ∧ next.ReadBack

def Members.ReadBack : Members D → Prop
  | .nil => True
  | .cons _ item next => item.ReadBack ∧ next.ReadBack

end

/-- The text of some members without the white space in front. -/
def Members.body (format : Bool) (depth : Nat) : Members D → Bytes
  | .nil => []
  | .cons string item next =>
    string.text ++ (colon :: (space format [9] ++ (item.text sprintfDouble format depth ++
      (Members.separator next ++ (space format [10] ++ next.text sprintfDouble format depth)))))

theorem Members.text_eq {format : Bool} {depth : Nat} {child : Members D}
    (h : child.isNull = false) : child.text sprintfDouble format depth =
      space format (tabs depth) ++ child.body sprintfDouble format depth := by
  cases child with
  | nil => exact absurd h Bool.noConfusion
  | cons string item next => rw [Members.text, Members.body]

theorem Members.length_body_le (format : Bool) (depth : Nat) {child : Members D}
    (h : child.isNull = false) : (child.body sprintfDouble format depth).length ≤
      (child.text sprintfDouble format depth).length := by
  rw [Members.text_eq sprintfDouble h, List.length_append]
  exact Nat.le_add_left _ _

variable {strtod sprintfDouble}

theorem first_decimalInt (v : Int) :
    ∃ c tail, decimalInt v = c :: tail ∧ (isSign c || isDigit c) = true := by
  obtain ⟨c, tail, htext⟩ := List.exists_cons_of_ne_nil (decimalInt_ne_nil v)
  refine ⟨c, tail, htext, ?_⟩
  rcases mem_decimalInt (htext ▸ List.mem_cons_self : c ∈ decimalInt v) with rfl | hdigit
  · rfl
  · rw [Bool.or_eq_true]
    exact .inr (decide_eq_true hdigit)

theorem first_number : ∀ c : UInt8, (isSign c || isDigit c) = true →
    (32 < c ∧ c < 128) ∧ c ≠ rightBracket ∧ c ≠ 110 ∧ c ≠ 102 ∧ c ≠ 116 ∧ c ≠ quotationMark :=
  forall_byte (by decide +kernel)

/-- The first byte of an item is neither white space nor the end of an array nor part of a byte
order mark. -/
theorem Item.first (format : Bool) (depth : Nat) {item : Item D}
    (h : item.ReadBack strtod sprintfDouble) :
    ∃ c tail, item.text sprintfDouble format depth = c :: tail ∧ (32 < c ∧ c < 128) ∧
      c ≠ rightBracket := by
  cases item with
  | null => exact ⟨_, _, by rw [Item.text]; rfl, by decide, by decide⟩
  | bool b =>
    rw [Item.text]
    cases b with
    | true => exact ⟨_, _, rfl, by decide, by decide⟩
    | false => exact ⟨_, _, rfl, by decide, by decide⟩
  | int v =>
    obtain ⟨c, tail, htext, hc⟩ := first_decimalInt v.toInt
    obtain ⟨hgt, hne, -⟩ := first_number c hc
    exact ⟨c, tail, by rw [Item.text, htext], hgt, hne⟩
  | number d =>
    rw [Item.ReadBack] at h
    obtain ⟨c, tail, htext, hc⟩ := h.first
    obtain ⟨hgt, hne, -⟩ := first_number c hc
    exact ⟨c, tail, by rw [Item.text, htext], hgt, hne⟩
  | string s => exact ⟨_, _, by rw [Item.text]; rfl, by decide, by decide⟩
  | array child => exact ⟨_, _, by rw [Item.text], by decide, by decide⟩
  | object child => exact ⟨_, _, by rw [Item.text], by decide, by decide⟩

variable (strtod)

/-- What `parse_value` does when no literal begins here. -/
theorem parseValue_dispatch {b : ParseBuffer} {c : UInt8} {r : Bytes} (h : b.rest = c :: r)
    (hn : c ≠ 110) (hf : c ≠ 102) (ht : c ≠ 116) (fuel : Nat) :
    parseValue strtod (fuel + 1) b =
      (if c = quotationMark then do let s ← parseString; pure (.string s)
        else if isSign c || isDigit c then parseNumber strtod
        else if c = leftBracket then parseArray strtod fuel
        else if c = leftBrace then parseObject strtod fuel
        else fail : Parse (Item D)) b := by
  rw [parseValue, get_bind]
  simp only [literalNull, literalFalse, literalTrue, ParseBuffer.not_startsWith_of_rest h hn,
    ParseBuffer.not_startsWith_of_rest h hf, ParseBuffer.not_startsWith_of_rest h ht,
    ParseBuffer.isAt_of_rest h, ParseBuffer.getElem?_of_rest h, Option.any_some,
    Bool.false_eq_true, if_false, decide_eq_true_eq]

theorem literal_reads {depth : Nat} {literal rest : Bytes} {item : Item D} :
    Reads (do skip literal.length; pure item) depth literal rest item :=
  Reads.map (g := fun _ => item) (skip_reads depth literal rest)

/-! ## Brackets -/

section Bracketed

variable {α : Type} {start close x : UInt8} {empty : Item D} {wrap : α → Item D}
  {children : Parse α} {depth : Nat} {ws tail rest : Bytes} {a : α}

/-- One byte further back. -/
theorem ParseBuffer.rest_stepBack {b : ParseBuffer} {c : UInt8} {r : Bytes} (h : b.rest = c :: r)
    (hpos : 0 < b.offset) :
    ∃ d, ({ b with offset := b.offset - 1 } : ParseBuffer).rest = d :: c :: r := by
  have hlt : b.offset - 1 < b.content.length :=
    Nat.lt_of_le_of_lt (Nat.sub_le _ _) (offset_lt_of_rest h)
  refine ⟨b.content[b.offset - 1], ?_⟩
  change b.content.drop (b.offset - 1) = _
  rw [List.drop_eq_getElem_cons hlt, Nat.sub_add_cancel hpos]
  exact congrArg _ h

/-- The way to the first child. -/
theorem bracketed_start (hdepth : depth < cjsonNestingLimit) (hws : White ws) (hx : 32 < x)
    {b : ParseBuffer} (hb : b.depth = depth) (hrest : b.rest = start :: (ws ++ x :: tail)) :
    parseBracketed close empty wrap children b =
      (if x = close then do nest (· - 1); skip 1; pure empty
        else do
          stepBack
          let child ← children
          let b ← get
          if b.isAt close then do
            nest (· - 1)
            skip 1
            pure (wrap child)
          else fail : Parse (Item D))
        { b with offset := b.offset + 1 + ws.length, depth := depth + 1 } := by
  subst hb
  have hskip : b.rest = [start] ++ (ws ++ x :: tail) := hrest
  have hrest₁ : ({ b with offset := b.offset + 1, depth := b.depth + 1 } : ParseBuffer).rest =
      ws ++ x :: tail := ParseBuffer.rest_advance hskip
  have hspace := whitespace_reads hws hx _ rfl hrest₁
  have hrest₂ := ParseBuffer.rest_advance hrest₁
  have hnest : nest (· + 1) b = .ok () { b with depth := b.depth + 1 } := rfl
  have hone : skip 1 { b with depth := b.depth + 1 } =
      .ok () { b with offset := b.offset + 1, depth := b.depth + 1 } := rfl
  rw [parseBracketed, get_bind, if_neg (by omega), bind_of_ok hnest, bind_of_ok hone,
    bind_of_ok hspace, get_bind, ParseBuffer.isAt_of_rest hrest₂]
  have haccess : ({ b with offset := b.offset + 1 + ws.length, depth := b.depth + 1 } :
      ParseBuffer).canAccessAtIndex 0 = true :=
    decide_eq_true (ParseBuffer.offset_lt_of_rest hrest₂)
  simp only [haccess, Bool.not_true, Bool.false_eq_true, if_false, decide_eq_true_eq]

theorem bracketed_empty_reads (hdepth : depth < cjsonNestingLimit) (hws : White ws)
    (hclose : 32 < close) :
    Reads (parseBracketed close empty wrap children) depth (start :: (ws ++ [close])) rest
      empty := by
  intro b hb hrest
  have hrest' : b.rest = start :: (ws ++ close :: rest) := by
    rw [hrest, List.cons_append, List.append_assoc]
    rfl
  rw [bracketed_start hdepth hws hclose hb hrest', if_pos rfl]
  change Outcome.ok empty ({ b with
    offset := b.offset + 1 + ws.length + 1, depth := depth + 1 - 1 } : ParseBuffer) = _
  have hlength : (start :: (ws ++ [close])).length = 1 + ws.length + 1 := by
    rw [List.length_cons, List.length_append, List.length_singleton, Nat.add_comm 1]
  rw [Nat.add_sub_cancel, hlength, ← hb, Nat.add_assoc b.offset, Nat.add_assoc b.offset]

theorem bracketed_reads (hdepth : depth < cjsonNestingLimit) (hws : White ws) (hx : 32 < x)
    (hne : x ≠ close)
    (hchildren : ∀ c, Reads children (depth + 1) (c :: x :: tail) (close :: rest) a) :
    Reads (parseBracketed close empty wrap children) depth
      (start :: (ws ++ (x :: (tail ++ [close])))) rest (wrap a) := by
  intro b hb hrest
  have hrest' : b.rest = start :: (ws ++ x :: (tail ++ close :: rest)) := by
    rw [hrest, List.cons_append, List.append_assoc, List.cons_append, List.append_assoc]
    rfl
  rw [bracketed_start hdepth hws hx hb hrest', if_neg hne]
  generalize hbuffer : ({ b with offset := b.offset + 1 + ws.length, depth := depth + 1 } :
    ParseBuffer) = s
  have hoffset : s.offset = b.offset + 1 + ws.length := by rw [← hbuffer]
  have hs : s.rest = x :: (tail ++ close :: rest) := by
    have hskip : b.rest = (start :: ws) ++ x :: (tail ++ close :: rest) := hrest'
    have hdrop := ParseBuffer.rest_advance hskip
    rw [← hbuffer, ← hdrop]
    change b.content.drop (b.offset + 1 + ws.length) = b.content.drop (b.offset + (ws.length + 1))
    rw [Nat.add_assoc, Nat.add_comm 1]
  obtain ⟨c, hback⟩ := ParseBuffer.rest_stepBack hs (by omega)
  have hrun := hchildren c { s with offset := s.offset - 1 } (by rw [← hbuffer]) hback
  have hend := ParseBuffer.rest_advance (show _ = (c :: x :: tail) ++ close :: rest from hback)
  have hstep : stepBack s = .ok () { s with offset := s.offset - 1 } := rfl
  rw [bind_of_ok hstep, bind_of_ok hrun, get_bind, ParseBuffer.isAt_of_rest hend,
    if_pos (decide_eq_true rfl)]
  change Outcome.ok (wrap a) ({ s with
    offset := s.offset - 1 + (c :: x :: tail).length + 1, depth := s.depth - 1 } : ParseBuffer) = _
  have hlength : s.offset - 1 + (c :: x :: tail).length + 1 =
      b.offset + (start :: (ws ++ (x :: (tail ++ [close])))).length := by
    simp only [List.length_cons, List.length_append, List.length_nil]
    omega
  rw [hlength, ← hbuffer, ← hb, Nat.add_sub_cancel]

end Bracketed

/-! ## The loops over children -/

section Next

variable {α : Type} {children : Parse α} {cons : α → α} {nil a : α} {depth : Nat}
  {ws text rest : Bytes} {close : UInt8}

/-- Behind the last child. -/
theorem last_reads (hws : White ws) (hclose : 32 < close) (hne : close ≠ comma) :
    Reads (nextChildren children cons nil) depth ws (close :: rest) (cons nil) := by
  have hget : Reads (do
      let b ← get
      if b.isAt comma then do
        let next ← children
        pure (cons next)
      else pure (cons nil)) depth [] (close :: rest) (cons nil) := by
    refine Reads.get fun b _ hrest => ?_
    rw [ParseBuffer.isAt_of_rest hrest, if_neg (by rw [decide_eq_true_eq]; exact hne)]
    exact Reads.pure _
  have hspace : Reads bufferSkipWhitespace depth ws ([] ++ close :: rest) () :=
    whitespace_reads hws hclose
  rw [← List.append_nil ws]
  exact Reads.bind hspace hget

/-- Behind a child that others follow. -/
theorem more_reads (h : Reads children depth (comma :: text) rest a) :
    Reads (nextChildren children cons nil) depth (comma :: text) rest (cons a) := by
  have hget : Reads (do
      let b ← get
      if b.isAt comma then do
        let next ← children
        pure (cons next)
      else pure (cons nil)) depth (comma :: text) rest (cons a) := by
    refine Reads.get fun b _ hrest => ?_
    rw [ParseBuffer.isAt_of_rest hrest, if_pos (decide_eq_true rfl)]
    exact h.map
  have hspace : Reads bufferSkipWhitespace depth [] ((comma :: text) ++ rest) () :=
    whitespace_reads white_nil (by decide)
  exact Reads.bind hspace hget

end Next

theorem endsNumber_cons {c : UInt8} {r : Bytes} (hc : isNumberByte c = false) :
    EndsNumber (c :: r) := fun _ hd => Option.some.inj hd ▸ hc

theorem endsNumber_white {ws r : Bytes} {c : UInt8} (hws : White ws) (hc : isNumberByte c = false) :
    EndsNumber (ws ++ c :: r) := by
  have hwhite : ∀ c : UInt8, c ≤ 32 → isNumberByte c = false := forall_byte (by decide +kernel)
  cases ws with
  | nil => exact endsNumber_cons hc
  | cons d ws => exact endsNumber_cons (hwhite d (hws d List.mem_cons_self))

section Step

variable {fuel depth : Nat} {format : Bool} {rest ws : Bytes}

theorem elements_reads {item : Item D} {next : Elements D} (hws : White ws)
    (hback : item.ReadBack strtod sprintfDouble)
    (hitem : ∀ rest, EndsNumber rest → Reads (parseValue strtod fuel) depth
      (item.text sprintfDouble format depth) rest item)
    (hnext : next.isNull = false → ∀ (c : UInt8) (ws : Bytes), White ws →
      Reads (parseElements strtod fuel) depth
        (c :: (ws ++ next.text sprintfDouble format depth)) (rightBracket :: rest) next)
    (c : UInt8) :
    Reads (parseElements strtod (fuel + 1)) depth
      (c :: (ws ++ (Elements.cons item next).text sprintfDouble format depth))
      (rightBracket :: rest) (.cons item next) := by
  obtain ⟨x, tail, htext, ⟨hx, -⟩, -⟩ := Item.first format depth hback
  rw [Elements.text, parseElements]
  generalize hafter : Elements.separator format next ++ next.text sprintfDouble format depth = after
  -- what stands behind the item, and how the loop goes on there
  have hends : EndsNumber (after ++ rightBracket :: rest) := by
    rw [← hafter]
    cases next with
    | nil => exact endsNumber_white white_nil (by decide)
    | cons _ _ => exact endsNumber_cons rfl
  have hloop : Reads (nextChildren (parseElements strtod fuel) (Elements.cons item) .nil) depth
      after (rightBracket :: rest) (.cons item next) := by
    rw [← hafter]
    cases next with
    | nil => exact last_reads white_nil (by decide) (by decide)
    | cons item' next' =>
      have hblank : White (space format [32]) := white_space (white_singleton (by decide))
      exact more_reads (hnext rfl comma _ hblank)
  have hspace : Reads bufferSkipWhitespace depth ws
      (item.text sprintfDouble format depth ++ after ++ rightBracket :: rest) () := by
    rw [htext]
    exact whitespace_reads hws hx
  have hskip := skip_reads depth [c]
    (ws ++ (item.text sprintfDouble format depth ++ after) ++ rightBracket :: rest)
  exact Reads.bind hskip (Reads.bind hspace (Reads.bind (hitem _ hends) hloop))

theorem members_reads {string : Str} {item : Item D} {next : Members D} {ws' : Bytes}
    (hws : White ws) (hws' : White ws') (hback : item.ReadBack strtod sprintfDouble)
    (hitem : ∀ rest, EndsNumber rest → Reads (parseValue strtod fuel) depth
      (item.text sprintfDouble format depth) rest item)
    (hnext : next.isNull = false → ∀ (c : UInt8) (ws : Bytes), White ws →
      Reads (parseMembers strtod fuel) depth
        (c :: (ws ++ (next.body sprintfDouble format depth ++ ws'))) (rightBrace :: rest) next)
    (c : UInt8) :
    Reads (parseMembers strtod (fuel + 1)) depth
      (c :: (ws ++ ((Members.cons string item next).body sprintfDouble format depth ++ ws')))
      (rightBrace :: rest) (.cons string item next) := by
  obtain ⟨x, tail, htext, ⟨hx, -⟩, -⟩ := Item.first format depth hback
  have hline : White (space format [10]) := white_space (white_singleton (by decide))
  rw [Members.body, parseMembers]
  simp only [List.append_assoc, List.cons_append]
  generalize hafter : Members.separator next ++ (space format [10] ++
    (next.text sprintfDouble format depth ++ ws')) = after
  -- what stands behind the item, and how the loop goes on there
  have hends : EndsNumber (after ++ rightBrace :: rest) := by
    rw [← hafter]
    cases next with
    | nil => exact endsNumber_white (hline.append hws') (by decide)
    | cons _ _ => exact endsNumber_cons rfl
  have hloop : Reads (nextChildren (parseMembers strtod fuel) (Members.cons string item) .nil) depth
      after (rightBrace :: rest) (.cons string item next) := by
    rw [← hafter]
    cases next with
    | nil => exact last_reads (hline.append hws') (by decide) (by decide)
    | cons string' item' next' =>
      have hindent : White (space format [10] ++ space format (tabs depth)) :=
        hline.append (white_space (white_tabs depth))
      have hmore := hnext rfl comma _ hindent
      rw [Members.text_eq sprintfDouble rfl]
      rw [List.append_assoc] at hmore
      rw [List.append_assoc]
      exact more_reads hmore
  have hspace : Reads bufferSkipWhitespace depth (space format [9])
      (item.text sprintfDouble format depth ++ after ++ rightBrace :: rest) () := by
    rw [htext]
    exact whitespace_reads (white_space (white_singleton (by decide))) hx
  have hcolon : Reads (do
      let b ← get
      if !b.isAt colon then
        fail
      else do
        skip 1
        bufferSkipWhitespace
        let item ← parseValue strtod fuel
        nextChildren (parseMembers strtod fuel) (Members.cons string item) .nil) depth
      (colon :: (space format [9] ++ (item.text sprintfDouble format depth ++ after)))
      (rightBrace :: rest) (.cons string item next) := by
    refine Reads.get fun b _ hrest => ?_
    rw [ParseBuffer.isAt_of_rest hrest, if_neg (by rw [decide_eq_true rfl]; decide)]
    exact Reads.bind (skip_reads depth [colon] _)
      (Reads.bind hspace (Reads.bind (hitem _ hends) hloop))
  have hbehind : Reads bufferSkipWhitespace depth [] (colon ::
      (space format [9] ++ (item.text sprintfDouble format depth ++ after)) ++
        rightBrace :: rest) () := whitespace_reads white_nil (by decide)
  have hname : Reads bufferSkipWhitespace depth ws (string.text ++ (colon ::
      (space format [9] ++ (item.text sprintfDouble format depth ++ after))) ++
        rightBrace :: rest) () := whitespace_reads hws (by decide)
  exact Reads.bind (skip_reads depth [c] _) (Reads.bind hname
    (Reads.bind (string_reads string) (Reads.bind hbehind hcolon)))

theorem array_reads {child : Elements D} (hdepth : depth < cjsonNestingLimit)
    (hback : child.ReadBack strtod sprintfDouble)
    (hchild : child.isNull = false → ∀ c, Reads (parseElements strtod fuel) (depth + 1)
      (c :: child.text sprintfDouble format (depth + 1)) (rightBracket :: rest) child) :
    Reads (parseValue strtod (fuel + 2)) depth
      ((Item.array child).text sprintfDouble format depth) rest (.array child) := by
  rw [Item.text]
  intro b hb hrest
  rw [parseValue_dispatch strtod hrest (by decide) (by decide) (by decide), if_neg (by decide),
    if_neg (by decide), if_pos rfl, parseArray]
  cases child with
  | nil =>
    rw [Elements.text] at hrest ⊢
    exact bracketed_empty_reads hdepth white_nil (by decide) b hb hrest
  | cons item next =>
    rw [Elements.ReadBack] at hback
    obtain ⟨x, tail, htext, ⟨hx, -⟩, hne⟩ := Item.first format (depth + 1) hback.1
    have hcons := hchild rfl
    rw [Elements.text, htext] at hcons hrest ⊢
    rw [List.cons_append] at hcons hrest ⊢
    exact bracketed_reads hdepth white_nil hx hne hcons b hb hrest

theorem object_reads {child : Members D} (hdepth : depth < cjsonNestingLimit)
    (hchild : child.isNull = false → ∀ c, Reads (parseMembers strtod fuel) (depth + 1)
      (c :: (child.body sprintfDouble format (depth + 1) ++ space format (tabs depth)))
      (rightBrace :: rest) child) :
    Reads (parseValue strtod (fuel + 2)) depth
      ((Item.object child).text sprintfDouble format depth) rest (.object child) := by
  have hline : White (space format [10]) := white_space (white_singleton (by decide))
  have hindent : White (space format [10] ++ space format (tabs (depth + 1))) :=
    hline.append (white_space (white_tabs _))
  have hclose : White (space format [10] ++ space format (tabs depth)) :=
    hline.append (white_space (white_tabs _))
  rw [Item.text]
  intro b hb hrest
  rw [parseValue_dispatch strtod hrest (by decide) (by decide) (by decide), if_neg (by decide),
    if_neg (by decide), if_neg (by decide), if_pos rfl, parseObject]
  cases child with
  | nil =>
    rw [Members.text, List.nil_append, ← List.append_assoc] at hrest ⊢
    exact bracketed_empty_reads hdepth hclose (by decide) b hb hrest
  | cons string item next =>
    have hcons := hchild rfl
    rw [Members.text_eq sprintfDouble rfl, List.append_assoc,
      ← List.append_assoc (space format [10])] at hrest ⊢
    obtain ⟨tail, htail⟩ : ∃ tail, (Members.cons string item next).body sprintfDouble format
        (depth + 1) = quotationMark :: tail := ⟨_, by rw [Members.body]; rfl⟩
    rw [htail, List.cons_append] at hcons ⊢
    rw [htail, List.cons_append, List.cons_append] at hrest
    rw [← List.append_assoc tail] at hrest ⊢
    exact bracketed_reads hdepth hindent (by decide) (by decide) hcons b hb hrest

theorem number_value_reads {text : Bytes} {item : Item D}
    (hfirst : ∃ c tail, text = c :: tail ∧ (isSign c || isDigit c) = true)
    (h : Reads (parseNumber strtod) depth text rest item) :
    Reads (parseValue strtod (fuel + 1)) depth text rest item := by
  obtain ⟨c, tail, rfl, hc⟩ := hfirst
  obtain ⟨-, -, hn, hf, ht, hquote⟩ := first_number c hc
  intro b hb hrest
  rw [parseValue_dispatch strtod hrest hn hf ht, if_neg hquote, if_pos hc]
  exact h b hb hrest

theorem string_value_reads (s : Str) :
    Reads (parseValue strtod (fuel + 1)) depth s.text rest (.string s) := by
  intro b hb hrest
  rw [parseValue_dispatch strtod hrest (by decide) (by decide) (by decide), if_pos rfl]
  exact (string_reads s).map b hb hrest

theorem null_reads : Reads (parseValue strtod (fuel + 1)) depth literalNull rest .null := by
  rw [parseValue]
  refine Reads.get fun b _ hrest => ?_
  rw [if_pos (ParseBuffer.startsWith_of_rest hrest (by decide))]
  exact literal_reads

theorem false_reads :
    Reads (parseValue strtod (fuel + 1)) depth literalFalse rest (.bool false) := by
  rw [parseValue]
  refine Reads.get fun b _ hrest => ?_
  have hnull : b.startsWith literalNull = false :=
    ParseBuffer.not_startsWith_of_rest hrest (by decide)
  rw [if_neg (by rw [hnull]; decide), if_pos (ParseBuffer.startsWith_of_rest hrest (by decide))]
  exact literal_reads

theorem true_reads : Reads (parseValue strtod (fuel + 1)) depth literalTrue rest (.bool true) := by
  rw [parseValue]
  refine Reads.get fun b _ hrest => ?_
  have hnull : b.startsWith literalNull = false :=
    ParseBuffer.not_startsWith_of_rest hrest (by decide)
  have hfalse : b.startsWith literalFalse = false :=
    ParseBuffer.not_startsWith_of_rest hrest (by decide)
  rw [if_neg (by rw [hnull]; decide), if_neg (by rw [hfalse]; decide),
    if_pos (ParseBuffer.startsWith_of_rest hrest (by decide))]
  exact literal_reads

end Step

/-! ## Whole items -/

theorem Item.length_pos (format : Bool) (depth : Nat) {item : Item D}
    (h : item.ReadBack strtod sprintfDouble) :
    0 < (item.text sprintfDouble format depth).length := by
  obtain ⟨c, tail, htext, -⟩ := Item.first format depth h
  rw [htext]
  exact Nat.succ_pos _

mutual

theorem Item.reads (format : Bool) : ∀ (item : Item D) (fuel depth : Nat) (rest : Bytes),
    item.ReadBack strtod sprintfDouble → item.nesting + depth ≤ cjsonNestingLimit →
    3 * (item.text sprintfDouble format depth).length ≤ fuel + 1 → EndsNumber rest →
    Reads (parseValue strtod (fuel + 1)) depth (item.text sprintfDouble format depth) rest item
  | .null, fuel, depth, rest, _, _, _, _ => by
    rw [Item.text]
    exact null_reads strtod
  | .bool b, fuel, depth, rest, _, _, _, _ => by
    rw [Item.text]
    cases b with
    | true => exact true_reads strtod
    | false => exact false_reads strtod
  | .int v, fuel, depth, rest, _, _, _, hend => by
    rw [Item.text]
    exact number_value_reads strtod (first_decimalInt _) (int_reads strtod v hend)
  | .number d, fuel, depth, rest, hback, _, _, hend => by
    rw [Item.ReadBack] at hback
    rw [Item.text]
    exact number_value_reads strtod hback.first (number_reads strtod sprintfDouble hback hend)
  | .string s, fuel, depth, rest, _, _, _, _ => by
    rw [Item.text]
    exact string_value_reads strtod s
  | .array child, fuel, depth, rest, hback, hnesting, hfuel, _ => by
    rw [Item.ReadBack] at hback
    rw [Item.nesting] at hnesting
    rw [Item.text, List.length_cons, List.length_append, List.length_singleton] at hfuel
    obtain ⟨fuel, rfl⟩ := Nat.exists_eq_add_one_of_ne_zero (show fuel ≠ 0 by omega)
    refine array_reads strtod (by omega) hback fun hne c => ?_
    obtain ⟨fuel, rfl⟩ := Nat.exists_eq_add_one_of_ne_zero (show fuel ≠ 0 by omega)
    exact Elements.reads format child fuel (depth + 1) rest hne hback (by omega) (by omega) [] c
      white_nil
  | .object child, fuel, depth, rest, hback, hnesting, hfuel, _ => by
    rw [Item.ReadBack] at hback
    rw [Item.nesting] at hnesting
    simp only [Item.text, List.length_cons, List.length_append, List.length_nil] at hfuel
    obtain ⟨fuel, rfl⟩ := Nat.exists_eq_add_one_of_ne_zero (show fuel ≠ 0 by omega)
    refine object_reads strtod (by omega) fun hne c => ?_
    have hbody := Members.length_body_le sprintfDouble format (depth + 1) hne
    obtain ⟨fuel, rfl⟩ := Nat.exists_eq_add_one_of_ne_zero (show fuel ≠ 0 by omega)
    exact Members.reads format child fuel (depth + 1) rest hne hback (by omega) (by omega) [] _ c
      white_nil (white_space (white_tabs depth))

theorem Elements.reads (format : Bool) : ∀ (child : Elements D) (fuel depth : Nat) (rest : Bytes),
    child.isNull = false → child.ReadBack strtod sprintfDouble →
    child.nesting + depth ≤ cjsonNestingLimit →
    3 * (child.text sprintfDouble format depth).length ≤ fuel →
    ∀ (ws : Bytes) (c : UInt8), White ws → Reads (parseElements strtod (fuel + 1)) depth
      (c :: (ws ++ child.text sprintfDouble format depth)) (rightBracket :: rest) child
  | .nil, _, _, _, hne, _, _, _, _, _, _ => absurd hne Bool.noConfusion
  | .cons item next, fuel, depth, rest, _, hback, hnesting, hfuel, ws, c, hws => by
    rw [Elements.ReadBack] at hback
    rw [Elements.nesting] at hnesting
    rw [Elements.text, List.length_append, List.length_append] at hfuel
    have hpos := Item.length_pos strtod format depth hback.1
    obtain ⟨fuel, rfl⟩ := Nat.exists_eq_add_one_of_ne_zero (show fuel ≠ 0 by omega)
    refine elements_reads strtod hws hback.1 (fun rest hend => ?_) (fun hne c ws hws => ?_) c
    · exact Item.reads format item fuel depth rest hback.1 (by omega) (by omega) hend
    · have hcomma : 0 < (Elements.separator format next).length := by
        rw [Elements.separator, hne]
        exact Nat.succ_pos _
      exact Elements.reads format next fuel depth rest hne hback.2 (by omega) (by omega) ws c hws

theorem Members.reads (format : Bool) : ∀ (child : Members D) (fuel depth : Nat) (rest : Bytes),
    child.isNull = false → child.ReadBack strtod sprintfDouble →
    child.nesting + depth ≤ cjsonNestingLimit →
    3 * (child.body sprintfDouble format depth).length ≤ fuel →
    ∀ (ws ws' : Bytes) (c : UInt8), White ws → White ws' →
      Reads (parseMembers strtod (fuel + 1)) depth
        (c :: (ws ++ (child.body sprintfDouble format depth ++ ws'))) (rightBrace :: rest) child
  | .nil, _, _, _, hne, _, _, _, _, _, _, _, _ => absurd hne Bool.noConfusion
  | .cons string item next, fuel, depth, rest, _, hback, hnesting, hfuel, ws, ws', c, hws,
      hws' => by
    rw [Members.ReadBack] at hback
    rw [Members.nesting] at hnesting
    simp only [Members.body, List.length_cons, List.length_append] at hfuel
    obtain ⟨fuel, rfl⟩ := Nat.exists_eq_add_one_of_ne_zero (show fuel ≠ 0 by omega)
    refine members_reads strtod hws hws' hback.1 (fun rest hend => ?_) (fun hne c ws hws => ?_) c
    · exact Item.reads format item fuel depth rest hback.1 (by omega) (by omega) hend
    · have hbody := Members.length_body_le sprintfDouble format depth hne
      exact Members.reads format next fuel depth rest hne hback.2 (by omega) (by omega) ws ws' c
        hws hws'

end

/-! ## Documents -/

theorem skipUtf8Bom_reads {depth : Nat} {c : UInt8} {r : Bytes} (hc : c < 128) :
    Reads skipUtf8Bom depth [] (c :: r) () := by
  refine Reads.get fun b _ hrest => ?_
  have hmark : ¬ (b.canAccessAtIndex 4 ∧
      (b.content.drop b.offset).take 3 = [0xEF, 0xBB, 0xBF]) := by
    rintro ⟨-, htake⟩
    change b.rest.take 3 = _ at htake
    rw [hrest, List.nil_append, List.take_succ_cons] at htake
    rw [(List.cons.inj htake).1] at hc
    exact absurd hc (by decide)
  rw [decide_eq_false hmark]
  exact Reads.pure ()

/-- At the zero that ends the content, the last byte is given back. -/
theorem whitespace_nul_reads {depth : Nat} : Reads bufferSkipWhitespace depth [] [0] () := by
  intro b _ hrest
  have hlength := congrArg List.length hrest
  rw [ParseBuffer.rest, List.length_drop, List.nil_append, List.length_singleton] at hlength
  have htake : ((b.content.drop b.offset).takeWhile (· ≤ 32)).length = 1 := by
    change (b.rest.takeWhile (· ≤ 32)).length = 1
    rw [hrest]
    rfl
  have haccess : b.canAccessAtIndex 0 = true :=
    decide_eq_true (by change b.offset < b.content.length; omega)
  change Outcome.ok () (if b.canAccessAtIndex 0 then _ else _) = _
  rw [if_pos haccess]
  change Outcome.ok () (if b.offset + _ = _ then _ else _) = _
  rw [htake, if_pos (by omega)]
  rfl

theorem terminator_reads (requireNullTerminated : Bool) (depth : Nat) :
    Reads (when requireNullTerminated terminator) depth [] [0] () := by
  cases requireNullTerminated with
  | false => exact Reads.pure ()
  | true =>
    have hzero : Reads (do
        let b ← get
        if b.isAt 0 then pure () else fail) depth [] [0] () := by
      refine Reads.get fun b _ hrest => ?_
      rw [ParseBuffer.isAt_of_rest hrest, if_pos (decide_eq_true rfl)]
      exact Reads.pure ()
    exact Reads.bind_nil whitespace_nul_reads hzero

theorem document_reads (requireNullTerminated format : Bool) {item : Item D}
    (hback : item.ReadBack strtod sprintfDouble) (hnesting : item.nesting ≤ cjsonNestingLimit)
    (fuel : Nat) (hfuel : 3 * (item.text sprintfDouble format 0).length ≤ fuel + 1) :
    Reads (parseDocument strtod requireNullTerminated (fuel + 1)) 0
      (item.text sprintfDouble format 0) [0] item := by
  obtain ⟨c, tail, htext, ⟨hgt, hlt⟩, -⟩ := Item.first format 0 hback
  have hvalue : Reads (parseValue strtod (fuel + 1)) 0 (item.text sprintfDouble format 0) [0]
      item := Item.reads strtod format item fuel 0 [0] hback hnesting hfuel (endsNumber_cons rfl)
  have hrest : item.text sprintfDouble format 0 ++ [] ++ [0] = c :: (tail ++ [0]) := by
    rw [htext, List.append_nil, List.cons_append]
  have hmark : Reads skipUtf8Bom 0 [] (item.text sprintfDouble format 0 ++ [] ++ [0]) () :=
    hrest ▸ skipUtf8Bom_reads hlt
  have hspace : Reads bufferSkipWhitespace 0 [] (item.text sprintfDouble format 0 ++ [] ++ [0])
      () := hrest ▸ whitespace_reads white_nil hgt
  have hend : Reads (do when requireNullTerminated terminator; pure item) 0 [] [0] item :=
    Reads.map (g := fun _ => item) (terminator_reads _ 0)
  rw [← List.append_nil (item.text sprintfDouble format 0), parseDocument]
  exact Reads.bind_nil hmark (Reads.bind_nil hspace (Reads.bind hvalue hend))

/-- The text of an item as a C string. -/
def Item.printed (sprintfDouble : D → NumberText) (format : Bool) (item : Item D) : Str where
  bytes := item.text sprintfDouble format 0
  nul_free := item.nul_notMem_text sprintfDouble format 0

theorem parseWithOpts_printed (requireNullTerminated format : Bool) {item : Item D}
    (hback : item.ReadBack strtod sprintfDouble) (hnesting : item.nesting ≤ cjsonNestingLimit) :
    parseWithOpts strtod (item.printed sprintfDouble format) requireNullTerminated =
      some (.ok item) := by
  have hreads := document_reads strtod requireNullTerminated format hback hnesting
    (3 * (item.text sprintfDouble format 0).length + 2) (by omega)
  have hrun := hreads { content := item.text sprintfDouble format 0 ++ [0] } rfl rfl
  have hlength : (item.text sprintfDouble format 0 ++ [0]).length =
      (item.text sprintfDouble format 0).length + 1 := List.length_append
  change parseWithLengthOpts strtod (item.text sprintfDouble format 0 ++ [0]) _ = _
  rw [parseWithLengthOpts, if_neg (by omega)]
  have hfuel : 3 * (item.text sprintfDouble format 0 ++ [0]).length =
      3 * (item.text sprintfDouble format 0).length + 2 + 1 := by omega
  rw [hfuel, hrun]

end Value

/-- An allocator that does not fail. -/
def Allocator.unlimited : Allocator where
  allocate n := some (List.replicate n 0)
  reallocate old n := some (old.take n ++ List.replicate (n - old.length) 0)
  length_allocate h := by rw [← Option.some.inj h, List.length_replicate]
  length_reallocate h := by
    rw [← Option.some.inj h, List.length_append, List.length_take, List.length_replicate]
    omega
  prefix_reallocate h := Option.some.inj h ▸ List.prefix_append _ _

/-- Two floating point numbers, 0.5 and -2e+20. -/
def twoNumbers (d : Bool) : NumberText where
  bytes := if d then [45, 50, 101, 43, 50, 48] else [48, 46, 53]
  fits := by revert d; decide
  nul_free := by revert d; decide

/-- The array of -2e+20 and of an object. -/
def numberAndObject : Item Bool :=
  .array (.cons (.number true)
    (.cons (.object (.cons ⟨[34, 10], by decide⟩ (.int (-7)) .nil)) .nil))

end XMonitor.Json
