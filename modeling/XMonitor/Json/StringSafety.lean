import XMonitor.Json.ParseString
import Mathlib.Tactic.Ring

/-!
# `parse_string` stays inside its buffers

The first pass counts escape sequences of two bytes. The second pass leaves out at least as many
bytes of any piece of the string as the first pass has counted there, whatever the two passes take
for escape sequences, so that the output fits its allocation.
-/

namespace XMonitor.Json

open Lib Lib.Procedure

/-! ## What the first pass counts -/

/-- The number of escape sequences that the first pass finds in the first `n` bytes. -/
def escapesWithin : Bytes → Nat → Nat
  | c :: d :: rest, n + 2 =>
    if c = backslash then escapesWithin rest n + 1 else escapesWithin (d :: rest) (n + 1)
  | c :: _, 1 => if c = backslash then 1 else 0
  | [c], _ + 2 => if c = backslash then 1 else 0
  | _, _ => 0

theorem escapesWithin_zero (l : Bytes) : escapesWithin l 0 = 0 := by
  match l with
  | [] => rfl
  | [_] => rfl
  | _ :: _ :: _ => rfl

theorem escapesWithin_cons_of_ne {c : UInt8} (h : c ≠ backslash) (rest : Bytes) (n : Nat) :
    escapesWithin (c :: rest) (n + 1) = escapesWithin rest n := by
  match rest, n with
  | [], 0 => exact if_neg h
  | _ :: _, 0 => exact (if_neg h).trans (escapesWithin_zero _).symm
  | [], _ + 1 => exact if_neg h
  | _ :: _, _ + 1 => exact if_neg h

theorem escapesWithin_backslash (d : UInt8) (rest : Bytes) (n : Nat) :
    escapesWithin (backslash :: d :: rest) (n + 2) = escapesWithin rest n + 1 := if_pos rfl

theorem escapesWithin_backslash_one (rest : Bytes) :
    escapesWithin (backslash :: rest) 1 = 1 := by
  cases rest <;> exact if_pos rfl

theorem escapesWithin_backslash_nil (n : Nat) : escapesWithin [backslash] (n + 1) = 1 := by
  cases n <;> exact if_pos rfl

/-- The next byte begins at most one escape sequence, and only as a backslash. -/
theorem escapesWithin_succ : ∀ (l : Bytes) (n : Nat),
    escapesWithin l n ≤ escapesWithin l (n + 1) ∧
      escapesWithin l (n + 1) ≤ escapesWithin l n + 1 ∧
      (l[n]? ≠ some backslash → escapesWithin l (n + 1) = escapesWithin l n)
  | [], n => ⟨Nat.le_refl _, Nat.le_succ _, fun _ => rfl⟩
  | c :: rest, 0 => by
    rw [escapesWithin_zero]
    by_cases hc : c = backslash
    · rw [hc, escapesWithin_backslash_one]
      exact ⟨Nat.zero_le _, Nat.le_refl _, fun h => absurd rfl h⟩
    · rw [escapesWithin_cons_of_ne hc, escapesWithin_zero]
      exact ⟨Nat.le_refl _, Nat.zero_le _, fun _ => rfl⟩
  | c :: rest, n + 1 => by
    by_cases hc : c = backslash
    · subst hc
      match rest, n with
      | [], n =>
        rw [escapesWithin_backslash_nil, escapesWithin_backslash_nil]
        exact ⟨Nat.le_refl _, Nat.le_succ _, fun _ => rfl⟩
      | d :: rest, 0 =>
        rw [escapesWithin_backslash, escapesWithin_backslash_one, escapesWithin_zero]
        exact ⟨Nat.le_refl _, Nat.le_succ _, fun _ => rfl⟩
      | d :: rest, n + 1 =>
        rw [escapesWithin_backslash, escapesWithin_backslash]
        obtain ⟨hmono, hstep, hne⟩ := escapesWithin_succ rest n
        exact ⟨Nat.succ_le_succ hmono, Nat.succ_le_succ hstep,
          fun h => congrArg (· + 1) (hne h)⟩
    · rw [escapesWithin_cons_of_ne hc, escapesWithin_cons_of_ne hc]
      exact escapesWithin_succ rest n

/-- Two bytes begin at most one escape sequence. -/
theorem escapesWithin_add_two : ∀ (l : Bytes) (n : Nat),
    escapesWithin l (n + 2) ≤ escapesWithin l n + 1
  | [], n => Nat.le_succ _
  | c :: rest, 0 => by
    rw [escapesWithin_zero]
    by_cases hc : c = backslash
    · subst hc
      cases rest with
      | nil => rw [escapesWithin_backslash_nil]
      | cons d rest => rw [escapesWithin_backslash, escapesWithin_zero]
    · rw [escapesWithin_cons_of_ne hc, ← escapesWithin_zero rest]
      exact (escapesWithin_succ rest 0).2.1
  | c :: rest, n + 1 => by
    by_cases hc : c = backslash
    · subst hc
      match rest, n with
      | [], n =>
        rw [escapesWithin_backslash_nil, escapesWithin_backslash_nil]
        exact Nat.le_succ _
      | d :: rest, 0 =>
        rw [escapesWithin_backslash, escapesWithin_backslash_one]
        have hstep := (escapesWithin_succ rest 0).2.1
        rw [escapesWithin_zero] at hstep
        exact Nat.succ_le_succ hstep
      | d :: rest, n + 1 =>
        rw [escapesWithin_backslash, escapesWithin_backslash]
        exact Nat.succ_le_succ (escapesWithin_add_two rest n)
    · rw [escapesWithin_cons_of_ne hc, escapesWithin_cons_of_ne hc]
      exact escapesWithin_add_two rest n

theorem escapesWithin_add (l : Bytes) (n k : Nat) :
    escapesWithin l n ≤ escapesWithin l (n + k) ∧
      escapesWithin l (n + k) ≤ escapesWithin l n + k := by
  induction k with
  | zero => exact ⟨Nat.le_refl _, Nat.le_refl _⟩
  | succ k ih =>
    obtain ⟨hmono, hstep, -⟩ := escapesWithin_succ l (n + k)
    exact ⟨Nat.le_trans ih.1 hmono, Nat.le_trans hstep (Nat.succ_le_succ ih.2)⟩

theorem escapesWithin_le (l : Bytes) (n : Nat) : escapesWithin l n ≤ n := by
  have h := (escapesWithin_add l 0 n).2
  rwa [Nat.zero_add, escapesWithin_zero, Nat.zero_add] at h

theorem escapesWithin_add_double (l : Bytes) (n k : Nat) :
    escapesWithin l (n + 2 * k) ≤ escapesWithin l n + k := by
  induction k with
  | zero => exact Nat.le_refl _
  | succ k ih =>
    have hstep := escapesWithin_add_two l (n + 2 * k)
    rw [Nat.mul_succ, ← Nat.add_assoc]
    omega

/-- The first pass ends at a quotation mark, with the number of escape sequences. -/
theorem findEnd_eq_some : ∀ {l : Bytes} {e k inputEnd skipped : Nat},
    findEnd e k l = some (inputEnd, skipped) →
    ∃ n, inputEnd = e + n ∧ l[n]? = some quotationMark ∧ skipped = k + escapesWithin l n
  | [], e, k, inputEnd, skipped, h => absurd h (by simp [findEnd])
  | c :: rest, e, k, inputEnd, skipped, h => by
    unfold findEnd at h
    split at h
    · next hc =>
      obtain ⟨rfl, rfl⟩ := Prod.mk.inj (Option.some.inj h)
      exact ⟨0, rfl, congrArg some hc, by rw [escapesWithin_zero]; rfl⟩
    · split at h
      · next hc =>
        subst hc
        cases rest with
        | nil => exact absurd h (by simp)
        | cons d rest =>
          obtain ⟨n, rfl, hget, rfl⟩ := findEnd_eq_some (l := rest) h
          refine ⟨n + 2, by omega, hget, ?_⟩
          rw [escapesWithin_backslash]
          omega
      · next hc =>
        obtain ⟨n, rfl, hget, rfl⟩ := findEnd_eq_some (l := rest) h
        refine ⟨n + 1, by omega, hget, ?_⟩
        rw [escapesWithin_cons_of_ne hc]

/-! ## UTF-16 literals -/

variable {σ : Type} {P : σ → Prop} {content : Bytes}

theorem load_contract {E : σ → Prop} {i : Nat} (h : i < content.length) :
    Contract P (load content i) (fun c s => c = content[i] ∧ P s) E := by
  intro s hs
  rw [load, List.getElem?_eq_getElem h]
  exact ⟨rfl, hs⟩

theorem hexValue_lt {c : UInt8} {v : Nat} (h : hexValue c = some v) : v < 16 := by
  have hall : ∀ c : UInt8, ∀ v ∈ hexValue c, v < 16 := forall_byte (by decide +kernel)
  exact hall c v h

theorem parseHexDigits_contract {E : σ → Prop} {n : Nat} :
    ∀ {h input : Nat}, input + (n + 1) ≤ content.length →
      Contract P (parseHexDigits content h (n + 1) input)
        (fun r s => r < (h + 16) * 16 ^ n ∧ P s) E := by
  have hpos : ∀ {h n : Nat}, 0 < (h + 16) * 16 ^ n :=
    fun {h n} => Nat.mul_pos (Nat.add_pos_right h (by decide)) (Nat.pow_pos (by decide))
  induction n with
  | zero =>
    intro h input hlen
    rw [parseHexDigits]
    refine Contract.bind_eq (load_contract (by omega)) ?_
    cases hv : hexValue content[input] with
    | none => exact Contract.pure _ fun s hs => ⟨hpos, hs⟩
    | some v =>
      have hlt := hexValue_lt hv
      refine Contract.pure _ fun s hs => ⟨?_, hs⟩
      rw [if_pos rfl]
      omega
  | succ n ih =>
    intro h input hlen
    rw [parseHexDigits]
    refine Contract.bind_eq (load_contract (by omega)) ?_
    cases hv : hexValue content[input] with
    | none => exact Contract.pure _ fun s hs => ⟨hpos, hs⟩
    | some v =>
      have hlt := hexValue_lt hv
      simp only [if_neg (Nat.succ_ne_zero n)]
      refine (ih (by omega)).mono_post fun r s hr => ⟨Nat.lt_of_lt_of_le hr.1 ?_, hr.2⟩
      calc ((h + v) * 16 + 16) * 16 ^ n = (h + v + 1) * 16 ^ (n + 1) := by ring
        _ ≤ (h + 16) * 16 ^ (n + 1) := Nat.mul_le_mul_right _ (by omega)

theorem parseHex4_contract {E : σ → Prop} {input : Nat} (h : input + 4 ≤ content.length) :
    Contract P (parseHex4 content input) (fun r s => r < 0x10000 ∧ P s) E :=
  parseHexDigits_contract h

theorem length_encodeUtf8 {codepoint : Nat} {bytes : Bytes}
    (h : encodeUtf8 codepoint = some bytes) :
    bytes.length ≤ 4 ∧ (codepoint < 0x10000 → bytes.length ≤ 3) := by
  unfold encodeUtf8 at h
  split at h
  · rw [← Option.some.inj h]
    exact ⟨by simp, fun _ => by simp⟩
  · split at h
    · rw [← Option.some.inj h]
      exact ⟨by simp, fun _ => by simp⟩
    · split at h
      · rw [← Option.some.inj h]
        exact ⟨by simp, fun _ => by simp⟩
      · next hge =>
        split at h
        · rw [← Option.some.inj h]
          exact ⟨by simp, fun hlt => absurd hlt hge⟩
        · exact absurd h (by simp)

/-- A literal is six bytes for at most three, or twelve for at most four. -/
def ShortLiteral (inputPointer inputEnd : Nat) (r : Nat × Bytes) : Prop :=
  inputPointer + r.1 ≤ inputEnd ∧
    (r.1 = 6 ∧ r.2.length ≤ 3 ∨ r.1 = 12 ∧ r.2.length ≤ 4)

theorem utf16LiteralToUtf8_contract {inputPointer inputEnd : Nat}
    (hend : inputEnd ≤ content.length) :
    Contract P (utf16LiteralToUtf8 content inputPointer inputEnd)
      (fun r s => ShortLiteral inputPointer inputEnd r ∧ P s) P := by
  unfold utf16LiteralToUtf8
  refine Contract.ite (fun _ => Contract.fail fun s hs => hs) fun hsix => ?_
  refine Contract.bind (parseHex4_contract (by omega)) fun first => ?_
  refine Contract.ite (fun _ => Contract.fail fun s hs => hs.2) fun _ =>
    Contract.ite (fun _ => ?_) fun _ => ?_
  · refine Contract.ite (fun _ => Contract.fail fun s hs => hs.2) fun htwelve => ?_
    refine Contract.bind (load_contract (by omega)) fun c₀ => ?_
    refine Contract.bind (load_contract (by omega)) fun c₁ => ?_
    refine Contract.ite (fun _ => Contract.fail fun s hs => hs.2.2.2) fun _ => ?_
    refine Contract.bind (parseHex4_contract (by omega)) fun second => ?_
    refine Contract.ite (fun _ => Contract.fail fun s hs => hs.2.2.2.2) fun _ => ?_
    generalize 0x10000 + (((first &&& 0x3FF) <<< 10) ||| (second &&& 0x3FF)) = codepoint
    cases henc : encodeUtf8 codepoint with
    | none => exact Contract.fail fun s hs => hs.2.2.2.2
    | some bytes =>
      refine Contract.pure _ fun s hs => ⟨⟨?_, .inr ⟨rfl, (length_encodeUtf8 henc).1⟩⟩,
        hs.2.2.2.2⟩
      change inputPointer + 12 ≤ inputEnd
      omega
  · cases henc : encodeUtf8 first with
    | none => exact Contract.fail fun s hs => hs.2
    | some bytes =>
      intro s hs
      refine ⟨⟨?_, .inl ⟨rfl, (length_encodeUtf8 henc).2 hs.1⟩⟩, hs.2⟩
      change inputPointer + 6 ≤ inputEnd
      omega

/-! ## The second pass -/

/-- The pointers of the second pass in a string between `start` and `inputEnd`. What has been
written is as short as if the escape sequences of the first pass had been left out. -/
structure InString (text : Bytes) (start inputEnd : Nat) (s : StringState) : Prop where
  start_le : start ≤ s.inputPointer
  le_end : s.inputPointer ≤ inputEnd + 1
  output_le : s.output.length + escapesWithin text (s.inputPointer - start) ≤
    s.inputPointer - start

section Decode

variable {start inputEnd size : Nat}

/-- A turn reads `n` bytes and writes some that make up for the escape sequences in them. -/
theorem InString.next {text bytes : Bytes} {s : StringState} (h : InString text start inputEnd s)
    {n : Nat} (hend : s.inputPointer + n ≤ inputEnd + 1)
    (hbytes : bytes.length + escapesWithin text (s.inputPointer - start + n) ≤
      escapesWithin text (s.inputPointer - start) + n) :
    InString text start inputEnd
      { inputPointer := s.inputPointer + n, output := s.output ++ bytes } := by
  have hstart := h.start_le
  have hout := h.output_le
  refine ⟨Nat.le_trans hstart (Nat.le_add_right _ _), hend, ?_⟩
  have hsub : s.inputPointer + n - start = s.inputPointer - start + n := by omega
  change (s.output ++ bytes).length + escapesWithin text (s.inputPointer + n - start) ≤
    s.inputPointer + n - start
  rw [List.length_append, hsub]
  omega

/-- What has been written fits the allocation, with room for a zero. -/
theorem InString.fits {text : Bytes} {s : StringState} (h : InString text start inputEnd s)
    (hstart : start ≤ inputEnd)
    (hsize : size = inputEnd + 1 - start - escapesWithin text (inputEnd - start) + 1) :
    s.output.length + 1 ≤ size := by
  have hle := h.start_le
  have hout := h.output_le
  have hend := h.le_end
  have hcount := escapesWithin_le text (inputEnd - start)
  by_cases hptr : s.inputPointer ≤ inputEnd
  · have hadd := (escapesWithin_add text (s.inputPointer - start) (inputEnd - s.inputPointer)).2
    have hsum : s.inputPointer - start + (inputEnd - s.inputPointer) = inputEnd - start := by omega
    rw [hsum] at hadd
    omega
  · have hadd := (escapesWithin_add text (inputEnd - start) 1).1
    have hsum : inputEnd - start + 1 = s.inputPointer - start := by omega
    rw [hsum] at hadd
    omega

theorem write_contract {E : StringState → Prop} {entry : StringState} {bytes : Bytes}
    (h : entry.output.length + bytes.length ≤ size) :
    Contract (· = entry) (write size bytes)
      (fun _ s => s = { entry with output := entry.output ++ bytes }) E := by
  rintro s rfl
  rw [write, if_pos h]
  rfl

theorem advanceInput_contract {E : StringState → Prop} {entry : StringState} (n : Nat) :
    Contract (· = entry) (advanceInput n)
      (fun _ s => s = { entry with inputPointer := entry.inputPointer + n }) E := by
  rintro s rfl
  rfl

/-- The end that the first pass has found, and the size that comes from it. -/
structure Bounds (content : Bytes) (start inputEnd size : Nat) : Prop where
  start_le : start ≤ inputEnd
  end_lt : inputEnd < content.length
  size_eq : size =
    inputEnd + 1 - start - escapesWithin (content.drop start) (inputEnd - start) + 1

/-- A turn writes and goes on. -/
theorem turn_contract {entry : StringState} {bytes : Bytes} {n : Nat} {Q : StringState → Prop}
    (hb : Bounds content start inputEnd size)
    (h : InString (content.drop start) start inputEnd entry) (hn : 0 < n)
    (hend : entry.inputPointer + n ≤ inputEnd + 1)
    (hbytes : bytes.length +
        escapesWithin (content.drop start) (entry.inputPointer - start + n) ≤
      escapesWithin (content.drop start) (entry.inputPointer - start) + n) :
    Contract (· = entry) (do write size bytes; advanceInput n)
      (fun _ s => entry.inputPointer < s.inputPointer ∧
        InString (content.drop start) start inputEnd s) Q := by
  have hnext := h.next hend hbytes
  have hfits := hnext.fits hb.start_le hb.size_eq
  rw [List.length_append] at hfits
  refine Contract.bind (write_contract (by omega)) fun _ => ?_
  refine (advanceInput_contract n).mono_post fun _ s hs => ?_
  rw [hs]
  exact ⟨Nat.lt_add_of_pos_right hn, hnext⟩

theorem decodeNext_contract (hb : Bounds content start inputEnd size) {entry : StringState}
    (h : InString (content.drop start) start inputEnd entry)
    (hlt : entry.inputPointer < inputEnd) :
    Contract (· = entry) (decodeNext content inputEnd size)
      (fun _ s => entry.inputPointer < s.inputPointer ∧
        InString (content.drop start) start inputEnd s) (fun _ => True) := by
  have hstart := h.start_le
  have hlen := hb.end_lt
  refine Contract.get_bind fun s hs => ?_
  subst hs
  refine Contract.bind_eq (load_contract (by omega)) ?_
  refine Contract.ite (fun hc => ?_) fun hc =>
    Contract.ite (fun _ => Contract.fail fun _ _ => trivial) fun _ => ?_
  · refine turn_contract hb h Nat.one_pos (by omega) ?_
    have hget : (content.drop start)[s.inputPointer - start]? ≠ some backslash := by
      rw [List.getElem?_drop, Nat.add_sub_cancel' hstart, List.getElem?_eq_getElem (by omega)]
      exact fun h => hc (Option.some.inj h)
    rw [(escapesWithin_succ _ _).2.2 hget]
    exact Nat.le_of_eq (Nat.add_comm _ _)
  · refine Contract.bind_eq (load_contract (by omega)) ?_
    cases hsimple : simpleEscape content[s.inputPointer + 1] with
    | some c =>
      refine turn_contract hb h Nat.two_pos (by omega) ?_
      have htwo := escapesWithin_add_two (content.drop start) (s.inputPointer - start)
      change 1 + _ ≤ _
      omega
    | none =>
      refine Contract.ite (fun _ => ?_) fun _ => Contract.fail fun _ _ => trivial
      have hliteral : Contract (· = s) (utf16LiteralToUtf8 content s.inputPointer inputEnd)
          (fun r s' => ShortLiteral s.inputPointer inputEnd r ∧ s' = s) (fun _ => True) :=
        (utf16LiteralToUtf8_contract (Nat.le_of_lt hlen)).consequence (fun _ hs => hs)
          (fun _ _ hs => hs) fun _ _ => trivial
      refine hliteral.bind fun ⟨n, bytes⟩ s' ⟨⟨hend, hshort⟩, hs'⟩ => ?_
      refine turn_contract hb h ?_ (Nat.le_succ_of_le hend) ?_ s' hs'
      · rcases hshort with ⟨hn, -⟩ | ⟨hn, -⟩
        · exact Nat.lt_of_lt_of_eq (by decide) hn.symm
        · exact Nat.lt_of_lt_of_eq (by decide) hn.symm
      · rcases hshort with ⟨hn, hbytes⟩ | ⟨hn, hbytes⟩
        · obtain rfl : n = 6 := hn
          have hadd := escapesWithin_add_double (content.drop start) (s.inputPointer - start) 3
          change escapesWithin _ (_ + 6) ≤ _ at hadd
          change bytes.length ≤ 3 at hbytes
          change bytes.length + escapesWithin _ (_ + 6) ≤ _ + 6
          omega
        · obtain rfl : n = 12 := hn
          have hadd := escapesWithin_add_double (content.drop start) (s.inputPointer - start) 6
          change escapesWithin _ (_ + 12) ≤ _ at hadd
          change bytes.length ≤ 4 at hbytes
          change bytes.length + escapesWithin _ (_ + 12) ≤ _ + 12
          omega

/-- The loop ends, with an output that leaves room for a zero. -/
theorem decodeString_contract (hb : Bounds content start inputEnd size) :
    ∀ (fuel : Nat) {entry : StringState}, inputEnd - entry.inputPointer < fuel →
      InString (content.drop start) start inputEnd entry →
      Contract (· = entry) (decodeString content inputEnd size fuel)
        (fun _ s => InString (content.drop start) start inputEnd s) (fun _ => True)
  | 0, entry, hfuel, h => absurd hfuel (Nat.not_lt_zero _)
  | fuel + 1, entry, hfuel, h => by
    rw [decodeString]
    refine Contract.get_bind fun s hs => ?_
    subst hs
    refine Contract.ite (fun hlt => ?_) fun _ => ?_
    · refine (decodeNext_contract hb h hlt).bind fun _ s' ⟨hprogress, hs'⟩ => ?_
      exact decodeString_contract hb fuel (by omega) hs' s' rfl
    · exact Contract.pure _ fun s' hs' => hs' ▸ h

/-- The zero that ends the output. -/
theorem write_nul_contract (hb : Bounds content start inputEnd size) :
    Contract (InString (content.drop start) start inputEnd) (write size [0]) (fun _ _ => True)
      (fun _ => True) := by
  intro s hs
  have hfits : s.output.length + ([0] : Bytes).length ≤ size := hs.fits hb.start_le hb.size_eq
  rw [write, if_pos hfits]
  exact trivial

end Decode

/-- `parse_string` reads and writes inside its buffers, wherever it starts in any content. It ends
behind a quotation mark. -/
theorem parseString_contract {entry : ParseBuffer} (h : entry.offset < entry.content.length) :
    Contract (· = entry) parseString
      (fun _ b => ∃ inputEnd, entry.offset < inputEnd ∧
        entry.content[inputEnd]? = some quotationMark ∧ b = { entry with offset := inputEnd + 1 })
      (fun b => b.content = entry.content) := by
  rintro b rfl
  rw [parseString, List.getElem?_eq_getElem h]
  simp only
  split
  · exact rfl
  · cases hfind : findEnd (b.offset + 1) 0 (b.content.drop (b.offset + 1)) with
    | none => exact rfl
    | some found =>
      obtain ⟨inputEnd, skippedBytes⟩ := found
      obtain ⟨n, rfl, hquote, hskipped⟩ := findEnd_eq_some hfind
      rw [List.getElem?_drop] at hquote
      have hlt : b.offset + 1 + n < b.content.length := by
        by_contra hge
        rw [List.getElem?_eq_none (Nat.le_of_not_lt hge)] at hquote
        exact absurd hquote (by simp)
      have hcount := escapesWithin_le (b.content.drop (b.offset + 1)) n
      simp only
      generalize hsize : b.offset + 1 + n - b.offset - skippedBytes + 1 = size
      have hb : Bounds b.content (b.offset + 1) (b.offset + 1 + n) size := by
        refine ⟨Nat.le_add_right _ _, hlt, ?_⟩
        rw [Nat.add_sub_cancel_left]
        omega
      have hfirst : InString (b.content.drop (b.offset + 1)) (b.offset + 1) (b.offset + 1 + n)
          { inputPointer := b.offset + 1 } := by
        refine ⟨Nat.le_refl _, Nat.le_succ_of_le hb.start_le, ?_⟩
        change 0 + escapesWithin _ (b.offset + 1 - (b.offset + 1)) ≤ _
        rw [Nat.sub_self, escapesWithin_zero]
      have hrun := (decodeString_contract hb (b.offset + 1 + n - (b.offset + 1) + 1)
        (Nat.lt_succ_self _) hfirst).bind fun _ => write_nul_contract hb
      have hends := hrun { inputPointer := b.offset + 1 } rfl
      generalize (do
        decodeString b.content (b.offset + 1 + n) size (b.offset + 1 + n - (b.offset + 1) + 1)
        write size [0]) ({ inputPointer := b.offset + 1 } : StringState) = outcome at hends ⊢
      cases outcome with
      | fault => exact hends.elim
      | fail s => exact rfl
      | ok value s => exact ⟨b.offset + 1 + n, by omega, hquote, rfl⟩

end XMonitor.Json
