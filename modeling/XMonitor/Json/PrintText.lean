import XMonitor.Json.Print

/-!
# What is printed

Every printer has one contract: from a buffer that holds a text, it ends with a buffer that holds
the text of its item behind it, or it fails for lack of room. The contracts of the values, the
elements and the members go by induction on the item.
-/

namespace XMonitor.Json

open Lib Lib.Procedure Procfile

variable {fr : Frame} {text : Bytes} {off k : Nat}

/-- A text with a zero behind it, with the offset at the start of what has been added. -/
theorem Holds.terminated {p : PrintBuffer} {bytes : Bytes}
    (h : Holds fr text.length (text ++ bytes ++ [0]) k p) (hnul : 0 ∉ bytes) :
    Terminated fr (text ++ bytes) p := by
  refine ⟨text.length, ?_, ?_, h.mono (Nat.zero_le k)⟩
  · rw [List.length_append]
    exact Nat.le_add_right _ _
  · rwa [List.drop_left]

theorem length_add_one (text : Bytes) (c : UInt8) : text.length + 1 = (text ++ [c]).length := by
  rw [List.length_append, List.length_singleton]

/-! ## Numbers -/

theorem printNumber_contract {number : Bytes} (hfits : number.length ≤ 25)
    (hroom : text.length + number.length + 2 ≤ fr.room) :
    Contract (Holds fr text.length text k) (printNumber fr.hooks number)
      (fun _ => Terminated fr (text ++ number)) (fun _ => ¬ fr.roomy) := by
  rw [printNumber, if_neg (Nat.not_lt_of_le hfits)]
  refine Contract.bind_eq (ensure_contract (by omega)) ?_
  refine Contract.bind (store_contract (by omega)) fun _ => ?_
  refine Contract.bind (store_at List.length_append.symm (by change 1 < _; omega)) fun _ => ?_
  refine (advance_contract number.length).mono_post fun _ p hp => ?_
  refine ⟨(text ++ number).length, Nat.le_refl _, by simp, ?_⟩
  rw [List.length_append]
  exact hp.mono (Nat.zero_le _)

theorem length_decimalInt (v : Int64) : (decimalInt v.toInt).length ≤ 25 := by
  have hlow := Int64.le_toInt v
  have hhigh := Int64.toInt_lt v
  have hdecimal : ∀ n, n < 10 ^ 20 → (decimal n).length ≤ 20 := by
    intro n hn
    rw [decimal, List.length_map]
    exact (Nat.length_toDigits_le_iff (by decide) (by decide)).mpr hn
  cases hv : v.toInt with
  | ofNat n =>
    refine Nat.le_trans (hdecimal n ?_) (by decide)
    rw [hv, Int.ofNat_eq_natCast] at hhigh
    omega
  | negSucc n =>
    refine Nat.le_trans (Nat.succ_le_succ (hdecimal (n + 1) ?_)) (by decide)
    rw [hv] at hlow
    omega

/-! ## Strings -/

theorem length_escape : ∀ c : UInt8, (escape c).length = 1 + escapeCharacters c :=
  forall_byte (by decide +kernel)

theorem escape_of_plain : ∀ c : UInt8, escapeCharacters c = 0 → escape c = [c] :=
  forall_byte (by decide +kernel)

theorem length_flatMap_escape (s : Bytes) :
    (s.flatMap escape).length = s.length + (s.map escapeCharacters).sum := by
  induction s with
  | nil => rfl
  | cons c s ih =>
    rw [List.flatMap_cons, List.length_append, length_escape, ih, List.map_cons, List.sum_cons,
      List.length_cons]
    omega

/-- A string without special characters is copied as it is. -/
theorem flatMap_escape_of_plain {s : Bytes} (h : (s.map escapeCharacters).sum = 0) :
    s.flatMap escape = s := by
  induction s with
  | nil => rfl
  | cons c s ih =>
    rw [List.map_cons, List.sum_cons] at h
    obtain ⟨hc, hs⟩ := Nat.add_eq_zero_iff.mp h
    rw [List.flatMap_cons, escape_of_plain c hc, ih hs]
    rfl

theorem escape_of_copied : ∀ c : UInt8, c > 31 ∧ c ≠ quotationMark ∧ c ≠ backslash →
    escape c = [c] :=
  forall_byte (by decide +kernel)

theorem storeSequence_contract {E : PrintBuffer → Prop} {c : UInt8}
    (hc : ¬ (c > 31 ∧ c ≠ quotationMark ∧ c ≠ backslash)) (hk : (escape c).length + 1 < k) :
    Contract (Holds fr off (text ++ [backslash]) (k - 1))
      (storeSequence (text.length + 1) c)
      (fun output p => output + 1 = (text ++ escape c).length ∧
        Holds fr off (text ++ escape c) (k - (escape c).length) p) E := by
  have hindex : text.length + 1 = (text ++ [backslash]).length := length_add_one text _
  have hone : ∀ x : UInt8, escape c = [backslash, x] →
      Contract (Holds fr off (text ++ [backslash]) (k - 1))
        (do store (text.length + 1) [x]; pure (text.length + 1))
        (fun output p => output + 1 = (text ++ escape c).length ∧
          Holds fr off (text ++ escape c) (k - (escape c).length) p) E := by
    intro x hx
    rw [hx] at hk ⊢
    change 2 + 1 < k at hk
    refine Contract.bind (store_at hindex (by change 1 < k - 1; omega)) fun _ => ?_
    refine Contract.pure _ fun p hp => ⟨by simp, ?_⟩
    rw [List.append_assoc] at hp
    exact hp.mono (by change k - 2 ≤ k - 1 - 1; omega)
  unfold storeSequence
  refine Contract.ite (fun h => hone _ (by rw [h]; rfl)) fun h₁ =>
    Contract.ite (fun h => hone _ (by rw [h]; rfl)) fun h₂ =>
    Contract.ite (fun h => hone _ (by rw [h]; rfl)) fun h₃ =>
    Contract.ite (fun h => hone _ (by rw [h]; rfl)) fun h₄ =>
    Contract.ite (fun h => hone _ (by rw [h]; rfl)) fun h₅ =>
    Contract.ite (fun h => hone _ (by rw [h]; rfl)) fun h₆ =>
    Contract.ite (fun h => hone _ (by rw [h]; rfl)) fun h₇ => ?_
  have hlow : c < 32 := by
    by_contra hge
    refine hc ⟨?_, h₂, h₁⟩
    rw [gt_iff_lt, UInt8.lt_iff_toNat_lt]
    rw [UInt8.lt_iff_toNat_lt] at hge
    change ¬ c.toNat < 32 at hge
    change 31 < c.toNat
    omega
  have hescape : escape c =
      [backslash, 117, 48, 48, hexDigit (c / 16), hexDigit (c % 16)] := by
    rw [escape, if_neg (by tauto), if_neg h₃, if_neg h₄, if_neg h₅, if_neg h₆, if_neg h₇,
      if_pos hlow]
  rw [hescape] at hk ⊢
  change 6 + 1 < k at hk
  refine Contract.bind (store_at hindex (by change 6 < k - 1; omega)) fun _ => ?_
  refine Contract.pure _ fun p hp => ⟨by simp, ?_⟩
  have hsplit : text ++ [backslash] ++ [117, 48, 48, hexDigit (c / 16), hexDigit (c % 16), 0] =
      text ++ [backslash, 117, 48, 48, hexDigit (c / 16), hexDigit (c % 16)] ++ [0] := by simp
  rw [hsplit] at hp
  exact hp.of_append.mono (by change k - 6 ≤ k - 1 - 6 + 1; omega)

theorem storeEscaped_contract {E : PrintBuffer → Prop} (input : Bytes) :
    ∀ {text : Bytes} {k : Nat}, (input.flatMap escape).length + 1 < k →
      Contract (Holds fr off text k) (storeEscaped text.length input)
        (fun _ => Holds fr off (text ++ input.flatMap escape)
          (k - (input.flatMap escape).length)) E := by
  induction input with
  | nil =>
    intro text k _
    refine Contract.pure _ fun p hp => ?_
    rw [List.flatMap_nil, List.append_nil]
    exact hp
  | cons c input ih =>
    intro text k hk
    rw [List.flatMap_cons, List.length_append] at hk
    have hrest : ∀ {t : Bytes} {i : Nat}, t = text ++ escape c → i + 1 = t.length →
        Contract (Holds fr off t (k - (escape c).length)) (storeEscaped (i + 1) input)
          (fun _ => Holds fr off (text ++ (c :: input).flatMap escape)
            (k - ((c :: input).flatMap escape).length)) E := by
      intro t i ht hi
      rw [hi]
      refine (ih (by omega)).mono_post fun _ p hp => ?_
      rw [ht, List.append_assoc] at hp
      rw [List.flatMap_cons, List.length_append, ← Nat.sub_sub]
      exact hp
    rw [storeEscaped]
    refine Contract.ite (fun hcopy => ?_) fun hspecial => ?_
    · have hescape := escape_of_copied c hcopy
      refine Contract.bind (store_contract (by change 1 < k; omega)) fun _ => ?_
      refine (hrest (t := text ++ [c]) (i := text.length) (by rw [hescape]) (by simp)).mono_pre ?_
      intro s hs
      rw [hescape]
      exact hs
    · refine Contract.bind (store_contract (by change 1 < k; omega)) fun _ => ?_
      have hlen : 0 < (escape c).length := by
        rw [length_escape]
        omega
      refine Contract.bind (storeSequence_contract hspecial (by omega)) fun i => ?_
      intro s hs
      exact hrest rfl hs.1 s hs.2

theorem printStringPtr_contract (s : Str)
    (hroom : text.length + s.text.length + 2 ≤ fr.room) :
    Contract (Holds fr text.length text k) (printStringPtr fr.hooks s)
      (fun _ => Terminated fr (text ++ s.text)) (fun _ => ¬ fr.roomy) := by
  have hlen := length_flatMap_escape s.bytes
  have htext : s.text.length = s.bytes.length + (s.bytes.map escapeCharacters).sum + 2 := by
    rw [Str.text, List.length_cons, List.length_append, hlen]
    rfl
  -- The last two stores, behind the text with its first quotation mark and the string.
  have hend : ∀ {k : Nat}, 2 < k →
      Contract (Holds fr text.length (text ++ [quotationMark] ++ s.bytes.flatMap escape) k)
        (do
          store (text.length + (s.bytes.length + (s.bytes.map escapeCharacters).sum) + 1)
            [quotationMark]
          store (text.length + (s.bytes.length + (s.bytes.map escapeCharacters).sum) + 2) [0])
        (fun _ => Terminated fr (text ++ s.text)) (fun _ => ¬ fr.roomy) := by
    intro k hk
    refine Contract.bind (store_at ?_ (by change 1 < k; omega)) fun _ => ?_
    · simp only [List.length_append, List.length_singleton, hlen]
      omega
    · refine (store_at ?_ (by change 1 < k - 1; omega)).mono_post fun _ p hp => ?_
      · simp only [List.length_append, List.length_singleton, hlen]
        omega
      · have happend : text ++ [quotationMark] ++ s.bytes.flatMap escape ++ [quotationMark] ++ [0] =
            text ++ s.text ++ [0] := by simp [Str.text]
        rw [happend] at hp
        exact hp.terminated s.nul_notMem_text
  unfold printStringPtr
  refine Contract.bind_eq (ensure_contract (by omega)) ?_
  refine Contract.ite (fun hplain => ?_) fun _ => ?_
  · refine Contract.bind (store_contract (by change 1 < _; omega)) fun _ => ?_
    refine Contract.bind (store_at (length_add_one text _)
      (by change s.bytes.length < _ - 1; omega)) fun _ => ?_
    have hcopy := flatMap_escape_of_plain hplain
    refine (hend (k := s.bytes.length + (s.bytes.map escapeCharacters).sum + 3 + 1 - 1 -
      s.bytes.length) (by omega)).mono_pre fun p hp => ?_
    rw [hcopy]
    exact hp
  · refine Contract.bind (store_contract (by change 1 < _; omega)) fun _ => ?_
    have hindex : text.length + 1 = (text ++ [quotationMark]).length := length_add_one text _
    rw [hindex]
    refine Contract.bind (storeEscaped_contract s.bytes (by
      rw [hlen]
      change _ < _ - 1
      omega)) fun _ => ?_
    refine (hend (by
      rw [hlen]
      change 2 < _ - 1 - _
      omega)).mono_pre fun p hp => hp

/-! ## Values -/

theorem setDepth_contract {E : PrintBuffer → Prop} (f : Nat → Nat) :
    Contract (Holds fr off text k) (setDepth f)
      (fun _ => Holds { fr with depth := f fr.depth } off text k) E :=
  Contract.modify fun _ hp => ⟨hp.buffer, hp.offset, hp.format, congrArg f hp.depth, hp.fits⟩

theorem length_space (format : Bool) (ws : Bytes) :
    (space format ws).length = if format then ws.length else 0 := by
  rw [space]
  split <;> rfl

/-- A store that only a formatted print makes. -/
theorem storeSpace_contract {E : PrintBuffer → Prop} {i : Nat} {format : Bool} {ws : Bytes}
    (hi : i = text.length) (h : (space format ws).length < k) :
    Contract (Holds fr off text k) (when format (store i ws))
      (fun _ => Holds fr off (text ++ space format ws) (k - (space format ws).length)) E := by
  refine Contract.when (fun hf => ?_) fun hf p hp => ?_
  · rw [hf] at h ⊢
    exact store_at hi h
  · rw [hf]
    change Holds fr off (text ++ []) k p
    rwa [List.append_nil]

/-- A literal with its zero. -/
theorem storeLiteral_contract {n : Nat} {literal : Bytes} (hn : literal.length + 1 ≤ n)
    (hnul : 0 ∉ literal) (hroom : text.length + n + 1 ≤ fr.room) :
    Contract (Holds fr text.length text k)
      (do let output ← ensure fr.hooks n; store output (literal ++ [0]))
      (fun _ => Terminated fr (text ++ literal)) (fun _ => ¬ fr.roomy) := by
  refine Contract.bind_eq (ensure_contract hroom) ?_
  refine (store_contract ?_).mono_post fun _ p hp => ?_
  · rw [List.length_append]
    change literal.length + 1 < n + 1
    omega
  · rw [← List.append_assoc] at hp
    exact hp.terminated hnul

/-! ## What stands around the items -/

theorem storeComma_contract (hroom : text.length + (space fr.format [32]).length + 3 ≤ fr.room) :
    Contract (Holds fr text.length text k) (storeComma fr.hooks)
      (fun _ => Holds fr (text ++ comma :: space fr.format [32]).length
        (text ++ comma :: space fr.format [32]) 0)
      (fun _ => ¬ fr.roomy) := by
  have hlength : (if fr.format = true then 2 else 1) = 1 + (space fr.format [32]).length := by
    rw [length_space]
    split <;> rfl
  refine Contract.get_keep fun p hp => ?_
  simp only [hp.format]
  rw [hlength]
  refine Contract.bind_eq (ensure_contract (by omega)) ?_
  refine Contract.bind (store_contract (by change 1 < _; omega)) fun _ => ?_
  refine Contract.bind (storeSpace_contract (length_add_one text comma) ?_) fun _ => ?_
  · change _ < 1 + (space fr.format [32]).length + 1 + 1 - 1
    omega
  refine Contract.bind (store_at ?_ ?_) fun _ => ?_
  · simp only [List.length_append, List.length_singleton]
    omega
  · change 1 < 1 + (space fr.format [32]).length + 1 + 1 - 1 - (space fr.format [32]).length
    omega
  refine (advance_contract _).mono_post fun _ p hp => ?_
  have hoff : text.length + (1 + (space fr.format [32]).length) =
      (text ++ comma :: space fr.format [32]).length := by
    simp only [List.length_append, List.length_cons]
    omega
  have happend : text ++ [comma] ++ space fr.format [32] =
      text ++ comma :: space fr.format [32] := by simp
  rw [hoff, happend] at hp
  exact hp.of_append.mono (Nat.zero_le _)

theorem storeIndent_contract
    (hroom : text.length + (space fr.format (tabs fr.depth)).length + 1 ≤ fr.room) :
    Contract (Holds fr text.length text k) (storeIndent fr.hooks)
      (fun _ => Holds fr (text ++ space fr.format (tabs fr.depth)).length
        (text ++ space fr.format (tabs fr.depth)) 0)
      (fun _ => ¬ fr.roomy) := by
  have hlen : (tabs fr.depth).length = fr.depth := List.length_replicate
  refine Contract.get_keep fun p hp => ?_
  simp only [hp.format, hp.depth]
  refine Contract.when (fun hf => ?_) fun hf p hp => ?_
  · rw [hf] at hroom ⊢
    change text.length + (tabs fr.depth).length + 1 ≤ _ at hroom
    change Contract _ _
      (fun _ => Holds fr (text ++ tabs fr.depth).length (text ++ tabs fr.depth) 0) _
    refine Contract.bind_eq (ensure_contract (by omega)) ?_
    refine Contract.bind (store_contract (by omega)) fun _ => ?_
    refine (advance_contract _).mono_post fun _ p hp => ?_
    rw [List.length_append, hlen]
    exact hp.mono (Nat.zero_le _)
  · rw [hf]
    change Holds fr (text ++ []).length (text ++ []) 0 p
    rw [List.append_nil]
    exact hp.mono (Nat.zero_le k)

theorem storeColon_contract (hroom : text.length + (space fr.format [9]).length + 2 ≤ fr.room) :
    Contract (Holds fr text.length text k) (storeColon fr.hooks)
      (fun _ => Holds fr (text ++ colon :: space fr.format [9]).length
        (text ++ colon :: space fr.format [9]) 0)
      (fun _ => ¬ fr.roomy) := by
  have hlength : (if fr.format = true then 2 else 1) = 1 + (space fr.format [9]).length := by
    rw [length_space]
    split <;> rfl
  refine Contract.get_keep fun p hp => ?_
  simp only [hp.format]
  rw [hlength]
  refine Contract.bind_eq (ensure_contract (by omega)) ?_
  refine Contract.bind (store_contract (by change 1 < _; omega)) fun _ => ?_
  refine Contract.bind (storeSpace_contract (length_add_one text colon) ?_) fun _ => ?_
  · change _ < 1 + (space fr.format [9]).length + 1 - 1
    omega
  refine (advance_contract _).mono_post fun _ p hp => ?_
  have hoff : text.length + (1 + (space fr.format [9]).length) =
      (text ++ colon :: space fr.format [9]).length := by
    simp only [List.length_append, List.length_cons]
    omega
  have happend : text ++ [colon] ++ space fr.format [9] = text ++ colon :: space fr.format [9] := by
    simp
  rw [hoff, happend] at hp
  exact hp.mono (Nat.zero_le _)

theorem storeLineEnd_contract {last : Bool} {sep : Bytes}
    (hsep : sep = if last then [] else [comma])
    (hroom : text.length + sep.length + (space fr.format [10]).length + 2 ≤ fr.room) :
    Contract (Holds fr text.length text k) (storeLineEnd fr.hooks last)
      (fun _ => Holds fr (text ++ sep ++ space fr.format [10]).length
        (text ++ sep ++ space fr.format [10]) 0)
      (fun _ => ¬ fr.roomy) := by
  have hspace : (if fr.format = true then 1 else 0) = (space fr.format [10]).length := by
    rw [length_space]
    rfl
  have hcomma : (if last = true then 0 else 1) = sep.length := by
    rw [hsep]
    split <;> rfl
  have hindex : (if last = true then text.length else text.length + 1) = (text ++ sep).length := by
    rw [List.length_append, ← hcomma]
    split <;> rfl
  have hfirst : ∀ {k : Nat}, sep.length < k →
      Contract (Holds fr text.length text k) (when (!last) (store text.length [comma]))
        (fun _ => Holds fr text.length (text ++ sep) (k - sep.length)) (fun _ => ¬ fr.roomy) := by
    intro k hk
    have hsep' : sep = space (!last) [comma] := by
      rw [hsep]
      cases last <;> rfl
    rw [hsep'] at hk ⊢
    exact storeSpace_contract rfl hk
  refine Contract.get_keep fun p hp => ?_
  simp only [hp.format]
  rw [hspace, hcomma]
  refine Contract.bind_eq (ensure_contract (by omega)) ?_
  rw [hindex]
  refine Contract.bind (hfirst (by omega)) fun _ => ?_
  refine Contract.bind (storeSpace_contract rfl (by omega)) fun _ => ?_
  refine Contract.bind (store_at List.length_append.symm (by change 1 < _; omega)) fun _ => ?_
  refine (advance_contract _).mono_post fun _ p hp => ?_
  have hoff : text.length + ((space fr.format [10]).length + sep.length) =
      (text ++ sep ++ space fr.format [10]).length := by
    simp only [List.length_append]
    omega
  rw [hoff] at hp
  exact hp.of_append.mono (Nat.zero_le _)

section Values

variable {D : Type} (sprintfDouble : D → NumberText)

mutual

theorem printValue_contract : ∀ (item : Item D) (fr : Frame) (text : Bytes) (k : Nat),
    text.length + (item.text sprintfDouble fr.format fr.depth).length + 3 ≤ fr.room →
    Contract (Holds fr text.length text k) (printValue fr.hooks sprintfDouble item)
      (fun _ => Terminated fr (text ++ item.text sprintfDouble fr.format fr.depth))
      (fun _ => ¬ fr.roomy)
  | .null, fr, text, k, hroom => by
    rw [printValue, Item.text] at *
    exact storeLiteral_contract (by decide) (by decide) (Nat.le_of_succ_le hroom)
  | .bool b, fr, text, k, hroom => by
    rw [printValue, Item.text] at *
    cases b with
    | true => exact storeLiteral_contract (by decide) (by decide) hroom
    | false => exact storeLiteral_contract (by decide) (by decide) (Nat.le_of_succ_le hroom)
  | .int v, fr, text, k, hroom => by
    rw [printValue, Item.text] at *
    exact printNumber_contract (length_decimalInt v) (Nat.le_of_succ_le hroom)
  | .number d, fr, text, k, hroom => by
    rw [printValue, Item.text] at *
    exact printNumber_contract (sprintfDouble d).fits (Nat.le_of_succ_le hroom)
  | .string s, fr, text, k, hroom => by
    rw [printValue, Item.text] at *
    exact printStringPtr_contract s (Nat.le_of_succ_le hroom)
  | .array child, fr, text, k, hroom => by
    rw [printValue, Item.text] at *
    rw [List.length_cons, List.length_append, List.length_singleton] at hroom
    have hchild := printElements_contract child { fr with depth := fr.depth + 1 }
      (text ++ [leftBracket]) 1 (by
        rw [← length_add_one]
        change _ + (child.text sprintfDouble fr.format (fr.depth + 1)).length + _ ≤ fr.room
        omega)
    refine Contract.bind_eq (ensure_contract (by omega)) ?_
    refine Contract.bind (store_contract (by change 1 < 1 + 1; omega)) fun _ => ?_
    refine Contract.bind (advance_contract 1) fun _ => ?_
    refine Contract.bind (setDepth_contract (· + 1)) fun _ => ?_
    rw [length_add_one text leftBracket]
    refine Contract.bind hchild fun _ => ?_
    refine Contract.bind_eq (ensure_contract (by
      rw [List.length_append, ← length_add_one]
      change _ + (child.text sprintfDouble fr.format (fr.depth + 1)).length + _ + _ ≤ fr.room
      omega)) ?_
    refine Contract.bind (store_contract (by change 1 < 3; omega)) fun _ => ?_
    refine Contract.bind (store_at (length_add_one _ _) (by change 1 < 2; omega)) fun _ => ?_
    refine (setDepth_contract (· - 1)).mono_post fun _ p hp => ?_
    have hterm := Holds.terminated hp (by decide)
    simp only [List.append_assoc, List.singleton_append] at hterm
    exact hterm
  | .object child, fr, text, k, hroom => by
    rw [printValue, Item.text] at *
    simp only [List.length_cons, List.length_append] at hroom
    have hlength : (if fr.format = true then 2 else 1) = 1 + (space fr.format [10]).length := by
      rw [length_space]
      split <;> rfl
    have hfirst : text.length + (1 + (space fr.format [10]).length) =
        (text ++ [leftBrace] ++ space fr.format [10]).length := by
      simp only [List.length_append, List.length_singleton]
      omega
    have hchild := printMembers_contract child { fr with depth := fr.depth + 1 }
      (text ++ [leftBrace] ++ space fr.format [10]) 1 (by
        rw [← hfirst]
        change _ + (child.text sprintfDouble fr.format (fr.depth + 1)).length + _ ≤ fr.room
        omega)
    refine Contract.get_keep fun p hp => ?_
    simp only [hp.format]
    rw [hlength]
    refine Contract.bind_eq (ensure_contract (by omega)) ?_
    refine Contract.bind (store_contract (by change 1 < _; omega)) fun _ => ?_
    refine Contract.bind (setDepth_contract (· + 1)) fun _ => ?_
    refine Contract.bind (storeSpace_contract (length_add_one text leftBrace) ?_) fun _ => ?_
    · change _ < 1 + (space fr.format [10]).length + 1 + 1 - 1
      omega
    refine Contract.bind (advance_contract _) fun _ => ?_
    rw [hfirst]
    refine Contract.bind (hchild.mono_pre fun s hs => hs.mono ?_) fun _ => ?_
    · change 1 ≤ 1 + (space fr.format [10]).length + 1 + 1 - 1 - (space fr.format [10]).length
      omega
    refine Contract.get_keep fun p hp => ?_
    have hformat : p.format = fr.format := hp.format
    have hdepth : p.depth = fr.depth + 1 := hp.depth
    have hindent : (if fr.format = true then fr.depth + 1 - 1 else 0) =
        (space fr.format (tabs fr.depth)).length := by
      rw [length_space, tabs, List.length_replicate]
      rfl
    have htabs : tabs (space fr.format (tabs fr.depth)).length =
        space fr.format (tabs fr.depth) := by
      rw [space]
      split
      · rw [tabs, tabs, List.length_replicate]
      · rfl
    have hneeded : (if fr.format = true then fr.depth + 1 + 1 else 2) =
        (space fr.format (tabs fr.depth)).length + 2 := by
      rw [length_space, tabs, List.length_replicate]
      split <;> rfl
    simp only [hformat, hdepth]
    rw [hindent, hneeded, htabs]
    refine Contract.bind_eq (ensure_contract ?_) ?_
    · rw [List.length_append, ← hfirst]
      change _ + (child.text sprintfDouble fr.format (fr.depth + 1)).length + _ + _ ≤ fr.room
      omega
    refine Contract.bind (store_contract (by omega)) fun _ => ?_
    refine Contract.bind (store_at List.length_append.symm (by change 1 < _; omega)) fun _ => ?_
    refine Contract.bind (store_at ?_ (by change 1 < _ - 1; omega)) fun _ => ?_
    · simp only [List.length_append, List.length_singleton]
    refine (setDepth_contract (· - 1)).mono_post fun _ p hp => ?_
    have hclosing : ∀ t : Bytes, t ++ space fr.format (tabs fr.depth) ++ [rightBrace] ++ [0] =
        t ++ (space fr.format (tabs fr.depth) ++ [rightBrace]) ++ [0] :=
      fun t => by rw [List.append_assoc t]
    have hnul : 0 ∉ space fr.format (tabs fr.depth) ++ [rightBrace] := by
      rw [List.mem_append, not_or]
      exact ⟨nul_notMem_space (nul_notMem_tabs _), by decide⟩
    rw [hclosing] at hp
    have hterm := hp.terminated hnul
    simp only [List.append_assoc, List.singleton_append] at hterm
    exact hterm

theorem printElements_contract : ∀ (child : Elements D) (fr : Frame) (text : Bytes) (k : Nat),
    text.length + (child.text sprintfDouble fr.format fr.depth).length + 3 ≤ fr.room →
    Contract (Holds fr text.length text k) (printElements fr.hooks sprintfDouble child)
      (fun _ => Holds fr (text ++ child.text sprintfDouble fr.format fr.depth).length
        (text ++ child.text sprintfDouble fr.format fr.depth) 0)
      (fun _ => ¬ fr.roomy)
  | .nil, fr, text, k, hroom => by
    rw [printElements, Elements.text, List.append_nil]
    exact Contract.pure _ fun p hp => hp.mono (Nat.zero_le k)
  | .cons item next, fr, text, k, hroom => by
    rw [printElements, Elements.text] at *
    simp only [List.length_append] at hroom
    refine Contract.bind (printValue_contract item fr text k (by omega)) fun _ => ?_
    refine Contract.bind updateOffset_contract fun _ => ?_
    have hnext : ∀ {t : Bytes} {k : Nat},
        t = text ++ item.text sprintfDouble fr.format fr.depth ++ next.separator fr.format →
        Contract (Holds fr t.length t k) (printElements fr.hooks sprintfDouble next)
          (fun _ => Holds fr (text ++ (item.text sprintfDouble fr.format fr.depth ++
            (next.separator fr.format ++ next.text sprintfDouble fr.format fr.depth))).length
            (text ++ (item.text sprintfDouble fr.format fr.depth ++
              (next.separator fr.format ++ next.text sprintfDouble fr.format fr.depth))) 0)
          (fun _ => ¬ fr.roomy) := by
      intro t k ht
      refine (printElements_contract next fr t k ?_).mono_post fun _ p hp => ?_
      · rw [ht]
        simp only [List.length_append]
        omega
      · rw [ht] at hp
        simp only [List.append_assoc] at hp
        exact hp
    refine Contract.bind (Contract.when (fun hmore => ?_) fun hlast p hp => ?_) fun _ =>
      hnext (k := 0) rfl
    · have hsep : next.separator fr.format = comma :: space fr.format [32] := by
        rw [Elements.separator, if_neg (by simpa using hmore)]
      rw [hsep] at hroom ⊢
      rw [List.length_cons] at hroom
      exact storeComma_contract (by rw [List.length_append]; omega)
    · have hsep : next.separator fr.format = [] := by
        rw [Elements.separator, if_pos (by simpa using hlast)]
      rw [hsep, List.append_nil]
      exact hp.mono (Nat.zero_le _)

theorem printMembers_contract : ∀ (child : Members D) (fr : Frame) (text : Bytes) (k : Nat),
    text.length + (child.text sprintfDouble fr.format fr.depth).length + 3 ≤ fr.room →
    Contract (Holds fr text.length text k) (printMembers fr.hooks sprintfDouble child)
      (fun _ => Holds fr (text ++ child.text sprintfDouble fr.format fr.depth).length
        (text ++ child.text sprintfDouble fr.format fr.depth) 0)
      (fun _ => ¬ fr.roomy)
  | .nil, fr, text, k, hroom => by
    rw [printMembers, Members.text, List.append_nil]
    exact Contract.pure _ fun p hp => hp.mono (Nat.zero_le k)
  | .cons string item next, fr, text, k, hroom => by
    rw [printMembers, Members.text] at *
    simp only [List.length_append, List.length_cons] at hroom
    refine Contract.bind (storeIndent_contract (by omega)) fun _ => ?_
    refine Contract.bind (printStringPtr_contract string ?_) fun _ => ?_
    · rw [List.length_append]
      omega
    refine Contract.bind updateOffset_contract fun _ => ?_
    refine Contract.bind (storeColon_contract ?_) fun _ => ?_
    · simp only [List.length_append]
      omega
    refine Contract.bind (printValue_contract item fr _ _ ?_) fun _ => ?_
    · simp only [List.length_append, List.length_cons]
      omega
    refine Contract.bind updateOffset_contract fun _ => ?_
    refine Contract.bind (storeLineEnd_contract rfl ?_) fun _ => ?_
    · change _ + next.separator.length + _ + _ ≤ _
      simp only [List.length_append, List.length_cons]
      omega
    change Contract (Holds fr _ (_ ++ next.separator ++ _) 0) _ _ _
    refine (printMembers_contract next fr _ _ ?_).mono_post fun _ p hp => ?_
    · change (_ ++ next.separator ++ _ : Bytes).length + _ + _ ≤ _
      simp only [List.length_append, List.length_cons]
      omega
    · change Holds fr (_ ++ next.separator ++ _ ++ _ : Bytes).length
        (_ ++ next.separator ++ _ ++ _ : Bytes) 0 p at hp
      simp only [List.append_assoc, List.cons_append] at hp
      exact hp

end

end Values

/-! ## Whole prints -/

/-- An allocator that fails for no size that it is asked for. -/
def Allocator.Generous (hooks : Allocator) : Prop :=
  (hooks.allocate 256).isSome ∧ ∀ old n, n ≤ intMax → (hooks.reallocate old n).isSome

section Whole

variable {D : Type} (hooks : Allocator) (sprintfDouble : D → NumberText) (item : Item D)
  (format : Bool)

/-- A print succeeds with the text of the item, unless the allocator or the length of an `int` is
in the way. -/
theorem print_cases (roomy : Prop)
    (hroomy : roomy →
      hooks.Generous ∧ (item.text sprintfDouble format 0).length + 3 ≤ intMax) :
    print hooks sprintfDouble item format =
        some (some (item.text sprintfDouble format 0 ++ [0])) ∨
      print hooks sprintfDouble item format = some none ∧ ¬ roomy := by
  rw [print]
  cases halloc : hooks.allocate 256 with
  | none =>
    refine .inr ⟨rfl, fun hr => ?_⟩
    have hsome := (hroomy hr).1.1
    rw [halloc] at hsome
    exact absurd hsome (by decide)
  | some buffer =>
    have hcontract := (printValue_contract sprintfDouble item
      ⟨hooks, format, 0, roomy, (item.text sprintfDouble format 0).length + 3⟩ [] 0
      (by simp)).bind fun _ => updateOffset_terminated
    have hends := hcontract { buffer := some buffer, format }
      ⟨⟨buffer, rfl, Nat.zero_le _, fun _ => rfl⟩, rfl, rfl, rfl, fun hr =>
        ⟨(hroomy hr).2, .inr ⟨rfl, (hroomy hr).1.2⟩⟩⟩
    simp only
    generalize (do printValue hooks sprintfDouble item; updateOffset)
      ({ buffer := some buffer, format } : PrintBuffer) = outcome at hends ⊢
    cases outcome with
    | fault => exact hends.elim
    | fail p => exact .inr ⟨rfl, hends⟩
    | ok value p =>
      obtain ⟨⟨junk, hbuffer, -, -⟩, hoff, -, -, -⟩ := hends
      change p.buffer = some (item.text sprintfDouble format 0 ++ [0] ++ junk) at hbuffer
      change p.offset = (item.text sprintfDouble format 0).length at hoff
      simp only [hbuffer, hoff, Option.map_some]
      rw [length_add_one _ 0]
      have hmax : roomy → (item.text sprintfDouble format 0 ++ [0]).length ≤ intMax := by
        intro hr
        have := (hroomy hr).2
        rw [List.length_append, List.length_singleton]
        omega
      generalize item.text sprintfDouble format 0 ++ [0] = printed at hmax
      cases hrealloc : hooks.reallocate (printed ++ junk) printed.length with
      | none =>
        refine .inr ⟨rfl, fun hr => ?_⟩
        have hsome := (hroomy hr).1.2 (printed ++ junk) _ (hmax hr)
        rw [hrealloc] at hsome
        exact absurd hsome (by decide)
      | some bytes =>
        have hlen := hooks.length_reallocate hrealloc
        have hprefix := hooks.prefix_reallocate hrealloc
        rw [List.take_left' rfl] at hprefix
        rw [List.IsPrefix.eq_of_length hprefix hlen.symm]
        exact .inl rfl

end Whole

end XMonitor.Json
