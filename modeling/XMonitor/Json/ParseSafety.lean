import XMonitor.Json.Parse

/-!
# Parsing any content

On a content that ends with a zero, as every C string does, the parsers end, they never read
behind the content, and what they accept is nested no deeper than the limit. A parser that has
succeeded has gone on in the content, so that the fuel of `cJSON_Parse` is enough.
-/

namespace XMonitor.Json

open Lib Lib.Procedure

/-! ## Nesting -/

section Nesting

variable {D : Type}

mutual

def Item.nesting : Item D → Nat
  | .null | .bool _ | .int _ | .number _ | .string _ => 0
  | .array child => child.nesting + 1
  | .object child => child.nesting + 1

def Elements.nesting : Elements D → Nat
  | .nil => 0
  | .cons item next => max item.nesting next.nesting

def Members.nesting : Members D → Nat
  | .nil => 0
  | .cons _ item next => max item.nesting next.nesting

end

end Nesting

/-! ## Moving on -/

/-- The last byte is a zero. -/
def NulTerminated (content : Bytes) : Prop := ∃ s, content = s ++ [0]

/-- Behind a byte that is not zero there is another one. -/
theorem NulTerminated.succ_lt {content : Bytes} (h : NulTerminated content) {i : Nat} {c : UInt8}
    (hget : content[i]? = some c) (hc : c ≠ 0) : i + 1 < content.length := by
  obtain ⟨s, rfl⟩ := h
  have hlt : i < (s ++ [0]).length := by
    by_contra hge
    rw [List.getElem?_eq_none (Nat.le_of_not_lt hge)] at hget
    exact absurd hget (by simp)
  rw [List.length_append, List.length_singleton] at hlt ⊢
  refine Nat.succ_lt_succ (Nat.lt_of_le_of_ne (Nat.le_of_lt_succ hlt) fun heq => hc ?_)
  subst heq
  rw [List.getElem?_append_right (Nat.le_refl _), Nat.sub_self] at hget
  exact (Option.some.inj hget).symm

/-- The parser has gone on by at least `k` bytes, inside the content. -/
structure Moved (k : Nat) (entry b : ParseBuffer) : Prop where
  content : b.content = entry.content
  depth : b.depth = entry.depth
  le : entry.offset + k ≤ b.offset
  lt : b.offset < entry.content.length

theorem Moved.trans {a b c : ParseBuffer} {k l : Nat} (h₁ : Moved k a b) (h₂ : Moved l b c) :
    Moved (k + l) a c := by
  have hle := h₁.le
  have hle' := h₂.le
  exact ⟨h₂.content.trans h₁.content, h₂.depth.trans h₁.depth, by omega, h₁.content ▸ h₂.lt⟩

theorem Moved.mono {a b : ParseBuffer} {k l : Nat} (h : Moved k a b) (hl : l ≤ k) :
    Moved l a b :=
  ⟨h.content, h.depth, Nat.le_trans (Nat.add_le_add_left hl _) h.le, h.lt⟩

theorem Moved.nulTerminated {a b : ParseBuffer} {k : Nat} (h : Moved k a b)
    (hnul : NulTerminated a.content) : NulTerminated b.content := h.content ▸ hnul

theorem Moved.offset_lt {a b : ParseBuffer} {k : Nat} (h : Moved k a b) :
    b.offset < b.content.length := h.content ▸ h.lt

variable {entry : ParseBuffer} {E : ParseBuffer → Prop}

theorem isAt_iff {b : ParseBuffer} {c : UInt8} :
    b.isAt c = true ↔ b.content[b.offset]? = some c := decide_eq_true_iff

theorem skip_contract {n : Nat} (h : entry.offset + n < entry.content.length) :
    Contract (· = entry) (skip n) (fun _ b => Moved n entry b) E := by
  rintro b rfl
  exact ⟨rfl, rfl, Nat.le_refl _, h⟩

theorem bufferSkipWhitespace_contract (h : entry.offset < entry.content.length) :
    Contract (· = entry) bufferSkipWhitespace (fun _ b => Moved 0 entry b) E := by
  rintro b rfl
  change Moved 0 b (if b.canAccessAtIndex 0 then _ else _)
  have haccess : b.canAccessAtIndex 0 = true := decide_eq_true h
  rw [if_pos haccess]
  have hlen : ((b.content.drop b.offset).takeWhile (· ≤ 32)).length ≤
      b.content.length - b.offset := by
    rw [← List.length_drop]
    exact List.IsPrefix.length_le (List.takeWhile_prefix _)
  generalize ((b.content.drop b.offset).takeWhile (· ≤ 32)).length = n at hlen
  change Moved 0 b (if b.offset + n = b.content.length then _ else _)
  split
  · refine ⟨rfl, rfl, ?_, ?_⟩
    · change b.offset + 0 ≤ b.offset + n - 1
      omega
    · change b.offset + n - 1 < b.content.length
      omega
  · refine ⟨rfl, rfl, Nat.le_add_right _ _, ?_⟩
    change b.offset + n < b.content.length
    omega

/-! ## Numbers -/

theorem digitsLength_le (s : Bytes) (n : Nat) : digitsLength (s.drop n) ≤ s.length - n := by
  rw [← List.length_drop]
  exact List.IsPrefix.length_le (List.takeWhile_prefix _)

theorem lt_length_of_head_any {s : Bytes} {n : Nat} {p : UInt8 → Bool}
    (h : (s.drop n).head?.any p = true) : n < s.length := by
  by_contra hge
  rw [List.drop_eq_nil_of_le (Nat.le_of_not_lt hge)] at h
  exact absurd h (by simp)

theorem signLength_le (s : Bytes) (n : Nat) (h : n ≤ s.length) :
    n + signLength (s.drop n) ≤ s.length := by
  rw [signLength]
  split
  · next hhead => exact lt_length_of_head_any hhead
  · exact h

theorem strtodLength_le (s : Bytes) : strtodLength s ≤ s.length := by
  have hsign := signLength_le s 0 (Nat.zero_le _)
  rw [List.drop_zero, Nat.zero_add] at hsign
  have hwhole := digitsLength_le s (signLength s)
  simp only [strtodLength]
  generalize hpoint : (if (s.drop (signLength s + digitsLength (s.drop (signLength s)))).head?.any
    isPoint = true then 1 else 0) = point
  have hpointle : signLength s + digitsLength (s.drop (signLength s)) + point ≤ s.length := by
    rw [← hpoint]
    split
    · next hhead => exact lt_length_of_head_any hhead
    · omega
  generalize hfraction : (if point = 1 then digitsLength (s.drop (signLength s +
    digitsLength (s.drop (signLength s)) + 1)) else 0) = fraction
  have hfractionle : signLength s + digitsLength (s.drop (signLength s)) + point + fraction ≤
      s.length := by
    rw [← hfraction]
    split
    · next hone =>
      have := digitsLength_le s (signLength s + digitsLength (s.drop (signLength s)) + 1)
      omega
    · omega
  generalize signLength s + digitsLength (s.drop (signLength s)) + point + fraction = mantissa at *
  split
  · exact Nat.zero_le _
  · split
    · next hexp =>
      have hlt := lt_length_of_head_any hexp
      split
      · exact hfractionle
      · have hesign := signLength_le s (mantissa + 1) hlt
        have hdigits := digitsLength_le s (mantissa + (1 + signLength ((s.drop mantissa).drop 1)))
        rw [← List.drop_drop] at hdigits
        rw [← List.drop_drop] at hesign
        omega
    · exact hfractionle

/-! ## Pieces of the parsers -/

/-- The end of a turn of the loops over children. -/
def nextChildren {α : Type} (children : Parse α) (cons : α → α) (nil : α) : Parse α := do
  bufferSkipWhitespace
  let b ← get
  if b.isAt comma then do
    let next ← children
    pure (cons next)
  else pure (cons nil)

/-- The check for the zero at the end. -/
def terminator : Parse Unit := do
  bufferSkipWhitespace
  let b ← get
  if b.isAt 0 then pure () else fail

section Parse

variable {D : Type} (strtod : Bytes → D)

/-- What a value parser leaves. -/
def ValueParsed (entry : ParseBuffer) (item : Item D) (b : ParseBuffer) : Prop :=
  Moved 1 entry b ∧ item.nesting + entry.depth ≤ max entry.depth cjsonNestingLimit

theorem parseNumber_contract (hnul : NulTerminated entry.content) :
    Contract (· = entry) (parseNumber strtod) (ValueParsed entry) (fun _ => True) := by
  refine Contract.get_bind fun b hb => ?_
  subst hb
  generalize htext : ((b.content.drop b.offset).take 63).takeWhile isNumberByte = text
  have hle := strtodLength_le text
  -- The last byte that is converted is a number byte.
  have hskip : strtodLength text ≠ 0 →
      Contract (· = b) (skip (strtodLength text)) (fun _ s => Moved 1 b s) (fun _ => True) := by
    intro hne
    have hlt : strtodLength text - 1 < text.length := by omega
    have hbyte : isNumberByte text[strtodLength text - 1] = true := by
      have hmem := List.getElem_mem hlt
      generalize text[strtodLength text - 1] = c at hmem
      rw [← htext] at hmem
      exact List.mem_takeWhile_imp hmem
    have hget : b.content[b.offset + (strtodLength text - 1)]? =
        some text[strtodLength text - 1] := by
      have hprefix : text <+: b.content.drop b.offset :=
        htext ▸ (List.takeWhile_prefix _).trans (List.take_prefix _ _)
      obtain ⟨t, ht⟩ := hprefix
      rw [← List.getElem?_drop, ← ht, List.getElem?_append_left hlt, List.getElem?_eq_getElem hlt]
    have hzero : text[strtodLength text - 1] ≠ 0 := by
      intro h
      rw [h] at hbyte
      exact absurd hbyte (by decide)
    have hsucc := hnul.succ_lt hget hzero
    rintro s rfl
    exact ⟨rfl, rfl, by change s.offset + 1 ≤ s.offset + _; omega, by
      change s.offset + _ < _; omega⟩
  refine Contract.ite (fun _ => Contract.fail fun _ _ => trivial) fun hne =>
    Contract.ite (fun _ => ?_) fun _ => ?_
  · refine Contract.ite (fun _ => Contract.fail fun _ _ => trivial) fun _ => ?_
    refine Contract.bind (hskip hne) fun _ => Contract.pure _ fun s hs => ⟨hs, ?_⟩
    rw [Item.nesting]
    omega
  · refine Contract.bind (hskip hne) fun _ => Contract.pure _ fun s hs => ⟨hs, ?_⟩
    rw [Item.nesting]
    omega

/-! ## Values -/

/-- What the loops over children leave. -/
def ChildrenParsed {α : Type} (nesting : α → Nat) (entry : ParseBuffer) (children : α)
    (b : ParseBuffer) : Prop :=
  Moved 1 entry b ∧ nesting children + entry.depth ≤ max entry.depth cjsonNestingLimit

/-- `fuel` is enough for what is left of the content, less `k`. -/
def Enough (fuel k : Nat) (entry : ParseBuffer) : Prop :=
  3 * (entry.content.length - entry.offset) ≤ fuel + k

theorem skip_moved {k : Nat} {b : ParseBuffer} (h : Moved k entry b)
    (hlt : b.offset + 1 < b.content.length) :
    Contract (· = b) (skip 1) (fun _ c => Moved (k + 1) entry c) E := by
  rintro c rfl
  exact h.trans ⟨rfl, rfl, Nat.le_refl _, hlt⟩

theorem whitespace_moved {k : Nat} :
    Contract (Moved k entry) bufferSkipWhitespace (fun _ c => Moved k entry c) E :=
  Contract.with_entry fun _ h =>
    (bufferSkipWhitespace_contract h.offset_lt).mono_post fun _ _ hc => h.trans hc

theorem parseString_moved (hnul : NulTerminated entry.content)
    (hlt : entry.offset < entry.content.length) :
    Contract (· = entry) parseString (fun _ b => Moved 2 entry b) (fun _ => True) := by
  refine (parseString_contract hlt).consequence (fun _ h => h) ?_ fun _ _ => trivial
  rintro _ _ ⟨inputEnd, hgt, hget, rfl⟩
  exact ⟨rfl, rfl, Nat.succ_le_succ hgt, hnul.succ_lt hget (by decide)⟩

theorem bracketed_contract {α : Type} {close : UInt8} {empty : Item D} {wrap : α → Item D}
    {children : Parse α} {nesting : α → Nat} (hclose : close ≠ 0) (hempty : empty.nesting ≤ 1)
    (hwrap : ∀ a, (wrap a).nesting = nesting a + 1) (hnul : NulTerminated entry.content)
    (hopen : entry.offset + 1 < entry.content.length)
    (hchildren : ∀ b, Moved 0 { entry with depth := entry.depth + 1 } b →
      b.offset + 1 < b.content.length →
      Contract (· = b) children (ChildrenParsed nesting b) (fun _ => True)) :
    Contract (· = entry) (parseBracketed close empty wrap children) (ValueParsed entry)
      (fun _ => True) := by
  refine Contract.get_bind fun b hb => ?_
  subst hb
  refine Contract.ite (fun _ => Contract.fail fun _ _ => trivial) fun hdepth => ?_
  generalize hnested : { b with depth := b.depth + 1 } = nested at hchildren
  have hcontent : nested.content = b.content := by rw [← hnested]
  have hoffset : nested.offset = b.offset := by rw [← hnested]
  have hdepth' : nested.depth = b.depth + 1 := by rw [← hnested]
  -- the closing bracket
  have hend : ∀ (item : Item D) (c : ParseBuffer) (k : Nat), Moved k nested c →
      item.nesting + b.depth ≤ max b.depth cjsonNestingLimit → c.isAt close = true →
      Contract (· = c) (do nest (· - 1); skip 1; pure item) (ValueParsed b) (fun _ => True) := by
    intro item c k hc hitem hat
    have hlt := (hc.nulTerminated (hcontent ▸ hnul)).succ_lt (isAt_iff.1 hat) hclose
    refine Contract.bind (Q := fun _ d => d = { c with depth := c.depth - 1 })
      (Contract.modify fun d hd => by rw [hd]) fun _ => ?_
    refine Contract.bind
      (Q := fun _ d => d = { c with depth := c.depth - 1, offset := c.offset + 1 })
      (Contract.modify fun d hd => by rw [hd]) fun _ => Contract.pure _ fun d hd => ?_
    subst hd
    have hle := hc.le
    refine ⟨⟨hc.content.trans hcontent, ?_, ?_, ?_⟩, hitem⟩
    · change c.depth - 1 = b.depth
      rw [hc.depth, hdepth', Nat.add_sub_cancel]
    · change b.offset + 1 ≤ c.offset + 1
      omega
    · change c.offset + 1 < b.content.length
      rw [← hcontent, ← hc.content]
      exact hlt
  refine Contract.bind (Q := fun _ c => c = nested)
    (Contract.modify fun c hc => by rw [hc, hnested]) fun _ => ?_
  have hskip : Contract (· = nested) (skip 1) (fun _ c => Moved 1 nested c) (fun _ => True) :=
    skip_contract (by rw [hcontent, hoffset]; exact hopen)
  refine Contract.bind hskip fun _ => Contract.bind whitespace_moved fun _ => ?_
  refine Contract.get_bind fun c hc => Contract.ite (fun hat => ?_) fun _ => ?_
  · exact hend empty c 1 hc (by omega) hat
  refine Contract.ite (fun hno => ?_) fun _ => ?_
  · have haccess : c.canAccessAtIndex 0 = true := decide_eq_true hc.offset_lt
    rw [haccess] at hno
    exact absurd hno (by decide)
  have hle := hc.le
  have hoff := hc.offset_lt
  have hback : Moved 0 nested { c with offset := c.offset - 1 } := by
    refine ⟨hc.content, hc.depth, ?_, ?_⟩
    · change nested.offset + 0 ≤ c.offset - 1
      omega
    · change c.offset - 1 < nested.content.length
      rw [← hc.content]
      omega
  refine Contract.bind (Q := fun _ d => d = { c with offset := c.offset - 1 })
    (Contract.modify fun d hd => by rw [hd]) fun _ => ?_
  have hinner := hchildren _ hback (by change c.offset - 1 + 1 < c.content.length; omega)
  refine Contract.bind hinner fun child => Contract.get_bind fun d hd => ?_
  refine Contract.ite (fun hat => ?_) fun _ => Contract.fail fun _ _ => trivial
  refine hend _ d _ (hback.trans hd.1) ?_ hat
  have hnesting : nesting child + c.depth ≤ max c.depth cjsonNestingLimit := hd.2
  rw [hc.depth, hdepth'] at hnesting
  rw [hwrap]
  omega

/-- The contracts of the five parsers with `fuel` to go. -/
structure Safe (fuel : Nat) : Prop where
  value : ∀ entry : ParseBuffer, NulTerminated entry.content →
    entry.offset < entry.content.length → Enough fuel 0 entry →
    Contract (· = entry) (parseValue strtod fuel) (ValueParsed entry) (fun _ => True)
  array : ∀ entry : ParseBuffer, NulTerminated entry.content →
    entry.offset + 1 < entry.content.length → Enough fuel 1 entry →
    Contract (· = entry) (parseArray strtod fuel) (ValueParsed entry) (fun _ => True)
  elements : ∀ entry : ParseBuffer, NulTerminated entry.content →
    entry.offset + 1 < entry.content.length → Enough fuel 2 entry →
    Contract (· = entry) (parseElements strtod fuel) (ChildrenParsed Elements.nesting entry)
      (fun _ => True)
  object : ∀ entry : ParseBuffer, NulTerminated entry.content →
    entry.offset + 1 < entry.content.length → Enough fuel 1 entry →
    Contract (· = entry) (parseObject strtod fuel) (ValueParsed entry) (fun _ => True)
  members : ∀ entry : ParseBuffer, NulTerminated entry.content →
    entry.offset + 1 < entry.content.length → Enough fuel 2 entry →
    Contract (· = entry) (parseMembers strtod fuel) (ChildrenParsed Members.nesting entry)
      (fun _ => True)

theorem Enough.moved {fuel k l m : Nat} {b : ParseBuffer} (h : Enough (fuel + 1) k entry)
    (hb : Moved l entry b) (hm : k + 1 ≤ m + 3 * l) : Enough fuel m b := by
  have hle := hb.le
  have hlt := hb.lt
  rw [Enough] at h ⊢
  rw [hb.content]
  omega

theorem startsWith_lt (hnul : NulTerminated entry.content) {literal : Bytes} {c : UInt8}
    (h : entry.startsWith literal = true) (hlast : literal.getLast? = some c) (hc : c ≠ 0) :
    entry.offset + literal.length < entry.content.length := by
  have htake : (entry.content.drop entry.offset).take literal.length = literal :=
    (of_decide_eq_true h).2
  have hne : literal ≠ [] := by
    rintro rfl
    exact absurd hlast (by simp)
  have hpos := List.length_pos_iff.2 hne
  have hget : entry.content[entry.offset + (literal.length - 1)]? = some c := by
    rw [← List.getElem?_drop, ← hlast, List.getLast?_eq_getElem?]
    conv_rhs => rw [← htake]
    rw [List.getElem?_take, htake, if_pos (Nat.sub_one_lt_of_lt hpos)]
  have hlt := hnul.succ_lt hget hc
  omega

theorem literal_contract (hnul : NulTerminated entry.content) {literal : Bytes} {c : UInt8}
    {item : Item D} (h : entry.startsWith literal = true) (hlast : literal.getLast? = some c)
    (hc : c ≠ 0) (hpos : 0 < literal.length) (hitem : item.nesting = 0) :
    Contract (· = entry) (do skip literal.length; pure item) (ValueParsed entry)
      (fun _ => True) := by
  refine Contract.bind (skip_contract (startsWith_lt hnul h hlast hc)) fun _ =>
    Contract.pure _ fun s hs => ⟨hs.mono hpos, ?_⟩
  omega

variable {fuel : Nat}

theorem Safe.value_succ (safe : Safe strtod fuel) (hnul : NulTerminated entry.content)
    (hlt : entry.offset < entry.content.length) (hfuel : Enough (fuel + 1) 0 entry) :
    Contract (· = entry) (parseValue strtod (fuel + 1)) (ValueParsed entry) (fun _ => True) := by
  rw [parseValue]
  refine Contract.get_bind fun b hb => ?_
  subst hb
  have henough : Enough fuel 1 b :=
    hfuel.moved (k := 0) (l := 0) ⟨rfl, rfl, Nat.le_refl _, hlt⟩ (Nat.le_refl _)
  refine Contract.ite (fun h => literal_contract hnul h rfl (by decide) (by decide) rfl) fun _ => ?_
  refine Contract.ite (fun h => literal_contract hnul h rfl (by decide) (by decide) rfl) fun _ => ?_
  refine Contract.ite (fun h => literal_contract hnul h rfl (by decide) (by decide) rfl) fun _ => ?_
  refine Contract.ite (fun _ => ?_) fun _ => ?_
  · refine Contract.bind (parseString_moved hnul hlt) fun s => Contract.pure _ fun c hc =>
      ⟨hc.mono (by decide), ?_⟩
    rw [Item.nesting]
    omega
  refine Contract.ite (fun _ => parseNumber_contract strtod hnul) fun _ => ?_
  refine Contract.ite (fun h => ?_) fun _ => Contract.ite (fun h => ?_) fun _ =>
    Contract.fail fun _ _ => trivial
  · exact safe.array b hnul (hnul.succ_lt (isAt_iff.1 h) (by decide)) henough
  · exact safe.object b hnul (hnul.succ_lt (isAt_iff.1 h) (by decide)) henough

/-- A child and, behind a comma, the children that follow it. -/
theorem Safe.next_contract (safe : Safe strtod fuel) {α : Type} {nesting : α → Nat} {nil : α}
    {cons : Item D → α → α} {next : Parse α} {k : Nat} {c : ParseBuffer} (hnil : nesting nil = 0)
    (hcons : ∀ item a, nesting (cons item a) = max item.nesting (nesting a))
    (hnul : NulTerminated c.content) (hc : Moved (k + 1) entry c)
    (hfuel : Enough (fuel + 1) 2 entry)
    (hnext : ∀ b : ParseBuffer, NulTerminated b.content → b.offset + 1 < b.content.length →
      Enough fuel 2 b → Contract (· = b) next (ChildrenParsed nesting b) (fun _ => True)) :
    Contract (· = c) (do
      let item ← parseValue strtod fuel
      nextChildren next (cons item) nil) (ChildrenParsed nesting entry) (fun _ => True) := by
  refine Contract.bind (safe.value c hnul hc.offset_lt (hfuel.moved hc (by omega)))
    fun item => ?_
  refine Contract.with_entry fun d hd => ?_
  have hitem := hd.2
  rw [hc.depth] at hitem
  refine Contract.bind ((bufferSkipWhitespace_contract hd.1.offset_lt).mono_post
    fun _ _ he => hd.1.trans he) fun _ => ?_
  refine Contract.get_bind fun e he => Contract.ite (fun hat => ?_) fun _ => ?_
  · have hnule := he.nulTerminated hnul
    have hce := hc.trans he
    refine Contract.bind (hnext e hnule (hnule.succ_lt (isAt_iff.1 hat) (by decide))
      (hfuel.moved hce (by omega))) fun a => Contract.pure _ fun f hf => ?_
    refine ⟨(hce.trans hf.1).mono (by omega), ?_⟩
    have hnested : nesting a + e.depth ≤ max e.depth cjsonNestingLimit := hf.2
    rw [hce.depth] at hnested
    rw [hcons]
    omega
  · refine Contract.pure _ fun f hf => ?_
    subst hf
    refine ⟨(hc.trans he).mono (by omega), ?_⟩
    rw [hcons, hnil]
    omega

theorem Safe.elements_succ (safe : Safe strtod fuel) (hnul : NulTerminated entry.content)
    (hlt : entry.offset + 1 < entry.content.length) (hfuel : Enough (fuel + 1) 2 entry) :
    Contract (· = entry) (parseElements strtod (fuel + 1)) (ChildrenParsed Elements.nesting entry)
      (fun _ => True) := by
  rw [parseElements]
  refine Contract.bind (skip_contract hlt) fun _ => Contract.bind whitespace_moved fun _ => ?_
  refine Contract.with_entry fun c hc => ?_
  have hnil : (Elements.nil : Elements D).nesting = 0 := rfl
  exact safe.next_contract strtod hnil (fun _ _ => rfl) (hc.nulTerminated hnul) hc hfuel
    safe.elements

theorem Safe.members_succ (safe : Safe strtod fuel) (hnul : NulTerminated entry.content)
    (hlt : entry.offset + 1 < entry.content.length) (hfuel : Enough (fuel + 1) 2 entry) :
    Contract (· = entry) (parseMembers strtod (fuel + 1)) (ChildrenParsed Members.nesting entry)
      (fun _ => True) := by
  rw [parseMembers]
  refine Contract.bind (skip_contract hlt) fun _ => Contract.bind whitespace_moved fun _ => ?_
  refine Contract.with_entry fun b hb => ?_
  refine Contract.bind ((parseString_moved (hb.nulTerminated hnul) hb.offset_lt).mono_post
    fun _ _ hc => hb.trans hc) fun string => ?_
  refine Contract.bind whitespace_moved fun _ => Contract.get_bind fun c hc => ?_
  refine Contract.ite (fun _ => Contract.fail fun _ _ => trivial) fun hcolon => ?_
  have hat : c.isAt colon = true := by
    cases h : c.isAt colon with
    | true => rfl
    | false => exact absurd (by rw [h]; rfl) hcolon
  have hltc := (hc.nulTerminated hnul).succ_lt (isAt_iff.1 hat) (by decide)
  refine Contract.bind (skip_moved hc hltc) fun _ => Contract.bind whitespace_moved fun _ => ?_
  refine Contract.with_entry fun d hd => ?_
  have hnil : (Members.nil : Members D).nesting = 0 := rfl
  exact safe.next_contract strtod hnil (fun _ _ => rfl) (hd.nulTerminated hnul) hd hfuel
    safe.members

theorem safe : ∀ fuel, Safe (D := D) strtod fuel
  | 0 => by
    have hzero : ∀ (k : Nat) (b : ParseBuffer), k < 3 → b.offset < b.content.length →
        ¬ Enough 0 k b := by
      intro k b hk hlt henough
      rw [Enough] at henough
      omega
    refine ⟨fun b _ hlt henough => ?_, fun b _ hlt henough => ?_, fun b _ hlt henough => ?_,
      fun b _ hlt henough => ?_, fun b _ hlt henough => ?_⟩
    · exact absurd henough (hzero 0 b (by decide) hlt)
    · exact absurd henough (hzero 1 b (by decide) (Nat.lt_of_succ_lt hlt))
    · exact absurd henough (hzero 2 b (by decide) (Nat.lt_of_succ_lt hlt))
    · exact absurd henough (hzero 1 b (by decide) (Nat.lt_of_succ_lt hlt))
    · exact absurd henough (hzero 2 b (by decide) (Nat.lt_of_succ_lt hlt))
  | fuel + 1 => by
    have ih := safe fuel
    refine ⟨fun b => ih.value_succ strtod, fun b hnul hlt henough => ?_,
      fun b => ih.elements_succ strtod, fun b hnul hlt henough => ?_,
      fun b => ih.members_succ strtod⟩
    · rw [parseArray]
      refine bracketed_contract (by decide) (Nat.le_refl _) (fun _ => rfl) hnul hlt
        fun c hc hltc => ?_
      have hmoved : Enough (fuel + 1) 1 { b with depth := b.depth + 1 } := henough
      exact ih.elements c (hc.nulTerminated hnul) hltc (hmoved.moved hc (Nat.le_refl _))
    · rw [parseObject]
      refine bracketed_contract (by decide) (Nat.le_refl _) (fun _ => rfl) hnul hlt
        fun c hc hltc => ?_
      have hmoved : Enough (fuel + 1) 1 { b with depth := b.depth + 1 } := henough
      exact ih.members c (hc.nulTerminated hnul) hltc (hmoved.moved hc (Nat.le_refl _))

theorem skipUtf8Bom_contract (hlt : entry.offset < entry.content.length) :
    Contract (· = entry) skipUtf8Bom (fun _ b => Moved 0 entry b) E := by
  refine Contract.get_bind fun b hb => ?_
  subst hb
  refine Contract.when (fun h => ?_) fun _ s hs => ?_
  · have haccess : b.offset + 4 < b.content.length :=
      of_decide_eq_true (of_decide_eq_true h).1
    exact (skip_contract (by omega)).mono_post fun _ _ hc => hc.mono (Nat.zero_le _)
  · subst hs
    exact ⟨rfl, rfl, Nat.le_refl _, hlt⟩

theorem parseDocument_contract (requireNullTerminated : Bool)
    (hnul : NulTerminated entry.content) (hlt : entry.offset < entry.content.length)
    (hdepth : entry.depth = 0) (hfuel : 3 * entry.content.length ≤ fuel) :
    Contract (· = entry) (parseDocument strtod requireNullTerminated fuel)
      (fun item _ => item.nesting ≤ cjsonNestingLimit) (fun _ => True) := by
  refine Contract.bind (skipUtf8Bom_contract hlt) fun _ => Contract.bind whitespace_moved
    fun _ => Contract.with_entry fun b hb => ?_
  have henough : Enough fuel 0 b := by
    rw [Enough, hb.content]
    omega
  refine Contract.bind ((safe strtod fuel).value b (hb.nulTerminated hnul) hb.offset_lt henough)
    fun item => ?_
  -- The check for the zero leaves the item as it is.
  have hrest : Contract (ValueParsed b item) (when requireNullTerminated terminator)
      (fun _ _ => item.nesting ≤ cjsonNestingLimit) (fun _ => True) := by
    have hnesting : ∀ c, ValueParsed b item c → item.nesting ≤ cjsonNestingLimit := by
      intro c hc
      have hitem := hc.2
      rw [hb.depth, hdepth] at hitem
      omega
    refine Contract.when (fun _ => ?_) fun _ => hnesting
    refine Contract.with_entry fun c hc => ?_
    refine Contract.bind (bufferSkipWhitespace_contract hc.1.offset_lt) fun _ => ?_
    refine Contract.get_bind fun d hd => Contract.ite (fun _ => Contract.pure _ fun _ _ => ?_)
      fun _ => Contract.fail fun _ _ => trivial
    exact hnesting c hc
  exact Contract.bind hrest fun _ => Contract.pure _ fun _ hs => hs

/-- Parsing a string ends and never leaves it. What it accepts is nested no deeper than the limit,
and the position that it gives for an error is inside the string. -/
theorem parseWithOpts_safe (value : Str) (requireNullTerminated : Bool) :
    (∃ item : Item D, parseWithOpts strtod value requireNullTerminated = some (.ok item) ∧
      item.nesting ≤ cjsonNestingLimit) ∨
    (∃ position, parseWithOpts strtod value requireNullTerminated = some (.error position) ∧
      position ≤ value.bytes.length) := by
  have hlength : (value.bytes ++ [0]).length = value.bytes.length + 1 := List.length_append
  have hends := parseDocument_contract strtod requireNullTerminated
    (show NulTerminated ({ content := value.bytes ++ [0] } : ParseBuffer).content from
      ⟨value.bytes, rfl⟩) (hlength ▸ Nat.succ_pos _) rfl (Nat.le_refl _) _ rfl
  rw [parseWithOpts, parseWithLengthOpts, if_neg (by omega)]
  split
  · next h =>
    rw [h] at hends
    exact hends.elim
  · next item s h =>
    rw [h] at hends
    exact .inl ⟨item, rfl, hends⟩
  · refine .inr ⟨_, rfl, ?_⟩
    split <;> omega

end Parse

end XMonitor.Json
