import XMonitor.Utils.Base64

/-!
# What the base 64 functions read

The encoder reads a word where fewer bytes are left, and the characters of an incomplete group
depend on what lies behind the source. The decoder has no entries for the bytes from 123 on.
-/

namespace XMonitor.Base64

section Encoder

variable {src src' : Memory} {srcLen destLen : Int32} {dest : Memory}

/-- Two memories agree on some bytes from a position on. -/
def AgreeOn (src src' : Memory) (index n : Nat) : Prop :=
  ∀ k < n, src (index + k) = src' (index + k)

/-- The characters of a group depend on its three bytes. -/
theorem encodeGroup_congr {index : Nat} (h : AgreeOn src src' index 3) :
    encodeGroup (load32 src index) = encodeGroup (load32 src' index) := by
  have h0 : src index = src' index := h 0 (by decide)
  have h1 : src (index + 1) = src' (index + 1) := h 1 (by decide)
  have h2 : src (index + 2) = src' (index + 2) := h 2 (by decide)
  rw [encodeGroup_load32, encodeGroup_load32]
  simp only [sextet0, sextet1, sextet2, sextet3, h0, h1, h2]

/-- With full groups only, the characters depend on the bytes of the source. -/
theorem encodeFrom_congr {index rest : Nat} (hrest : 0 < rest) (hmod : rest % 3 = 0)
    (h : AgreeOn src src' index rest) :
    encodeFrom src index rest = encodeFrom src' index rest := by
  induction index, rest, hrest using groupInduction with
  | last index rest hrest hle =>
      obtain rfl : rest = 3 := by omega
      rw [encodeFrom_last index hrest hle, encodeFrom_last index hrest hle, encodeLast_three,
        encodeLast_three, encodeGroup_congr h]
  | group index rest ih =>
      have hgroup : AgreeOn src src' index 3 := fun k hk => h k (by omega)
      have hfrom : AgreeOn src src' (index + 3) (rest + 1) := by
        intro k hk
        rw [Nat.add_assoc]
        exact h (3 + k) (by omega)
      rw [encodeFrom_group, encodeFrom_group, encodeGroup_congr hgroup, ih (by omega) hfrom]

/-- Zeros up to some position, and ones behind it. -/
def zerosThenOnes (n : Nat) : Memory := fun i => if i < n then 0 else 255

/-- With an incomplete group, the characters depend on what lies behind the source. -/
theorem encodeFrom_ne {index rest : Nat} (hrest : 0 < rest) (hmod : rest % 3 ≠ 0) :
    encodeFrom (fun _ => 0) index rest ≠ encodeFrom (zerosThenOnes (index + rest)) index rest := by
  induction index, rest, hrest using groupInduction with
  | last index rest hrest hle =>
      intro h
      rw [encodeFrom_last index hrest hle, encodeFrom_last index hrest hle, encodeLast_load32,
        encodeLast_load32] at h
      obtain ⟨-, h1, h2, -⟩ : _ ∧ _ ∧ _ ∧ _ := by simpa only [List.cons.injEq] using h
      have hzero : zerosThenOnes (index + rest) index = 0 := if_pos (by omega)
      obtain rfl | rfl : rest = 1 ∨ rest = 2 := by omega
      · have hone : zerosThenOnes (index + 1) (index + 1) = 255 := if_neg (Nat.lt_irrefl _)
        rw [sextet1, sextet1, hzero, hone] at h1
        exact absurd h1 (by decide)
      · have hzero' : zerosThenOnes (index + 2) (index + 1) = 0 := if_pos (Nat.lt_succ_self _)
        have hone : zerosThenOnes (index + 2) (index + 2) = 255 := if_neg (Nat.lt_irrefl _)
        rw [sextet2, sextet2, hzero', hone] at h2
        exact absurd h2 (by decide)
  | group index rest ih =>
      intro h
      rw [encodeFrom_group, encodeFrom_group] at h
      have hindex : index + (rest + 4) = index + 3 + (rest + 1) := by omega
      rw [hindex] at h
      exact ih (by omega)
        (List.append_inj h ((length_encodeGroup _).trans (length_encodeGroup _).symm)).2

/-- The arguments that the encoder accepts. -/
def EncodeAccepts (srcLen destLen : Int32) : Prop :=
  0 < srcLen.toInt ∧ encodedRoom srcLen.toInt.toNat ≤ destLen.toInt

/-- What the encoder writes and returns depends on the bytes of the source. -/
def EncodeReadsSource (srcLen : Int32) (dest : Memory) (destLen : Int32) : Prop :=
  ∀ src src' : Memory, AgreeOn src src' 0 srcLen.toInt.toNat →
    base64Encode (some src) srcLen (some dest) destLen =
      base64Encode (some src') srcLen (some dest) destLen

theorem base64Encode_of_not_accepts (h : ¬ EncodeAccepts srcLen destLen) :
    base64Encode (some src) srcLen (some dest) destLen =
      base64Encode (some src') srcLen (some dest) destLen := by
  rw [base64Encode, base64Encode]
  by_cases hneg : srcLen.toInt ≤ 0 ∨ destLen.toInt ≤ 0
  · rw [if_pos hneg, if_pos hneg]
  · have hroom : destLen.toInt < encodedRoom srcLen.toInt.toNat := by
      by_contra hle
      exact h ⟨by omega, by omega⟩
    rw [if_neg hneg, if_neg hneg]
    simp only [checkRoom, if_pos hroom]

theorem encode_reads_source_iff (srcLen : Int32) (dest : Memory) (destLen : Int32) :
    EncodeReadsSource srcLen dest destLen ↔
      (EncodeAccepts srcLen destLen → srcLen.toInt % 3 = 0) := by
  constructor
  · rintro h ⟨hpos, hroom⟩
    by_contra hmod
    have hn : srcLen.toInt = srcLen.toInt.toNat := by omega
    have hlt := srcLen.toInt_lt
    have hagree : AgreeOn (fun _ => 0) (zerosThenOnes (0 + srcLen.toInt.toNat)) 0
        srcLen.toInt.toNat := by
      intro k hk
      exact (if_pos (by omega)).symm
    have hsame := h _ _ hagree
    have hpos' : 0 < srcLen.toInt.toNat := by omega
    have hsize : (srcLen.toInt.toNat + 2) / 3 * 4 < 2 ^ 31 := by
      have hdest := destLen.toInt_lt
      rw [encodedRoom] at hroom
      split at hroom <;> omega
    rw [base64Encode_eq hn hpos' hroom, base64Encode_eq hn hpos' hroom,
      ofBytes_inj (by rw [length_encodeFrom _ _ hpos']; exact hsize)
        (by rw [length_encodeFrom _ _ hpos']; exact hsize)] at hsame
    exact encodeFrom_ne hpos' (by omega) hsame
  · intro h src src' hagree
    by_cases haccepts : EncodeAccepts srcLen destLen
    · obtain ⟨hpos, hroom⟩ := haccepts
      have hmod := h ⟨hpos, hroom⟩
      have hn : srcLen.toInt = srcLen.toInt.toNat := by omega
      have hpos' : 0 < srcLen.toInt.toNat := by omega
      rw [base64Encode_eq hn hpos' hroom, base64Encode_eq hn hpos' hroom,
        encodeFrom_congr hpos' (by omega) hagree]
    · exact base64Encode_of_not_accepts haccepts

end Encoder

section Decoder

variable {mem dest : Memory} {srcLen destLen : Int32}

/-- A byte of the words from a position on has no entry in the table. -/
def ReadsBehindTable (mem : Memory) (j n : Nat) : Prop := ∃ k < n, 123 ≤ (mem (j + k)).toNat

theorem decodeTable_eq_none_iff (i : Nat) : base64DecodeTable[i]? = none ↔ 123 ≤ i :=
  List.getElem?_eq_none_iff

/-- Four look-ups fail as soon as one of them does. -/
theorem lookups_eq_none_iff (f : UInt8 → UInt8 → UInt8 → UInt8 → List UInt8) (i0 i1 i2 i3 : Nat) :
    (do
      let t0 ← base64DecodeTable[i0]?
      let t1 ← base64DecodeTable[i1]?
      let t2 ← base64DecodeTable[i2]?
      let t3 ← base64DecodeTable[i3]?
      return f t0 t1 t2 t3) = none ↔ 123 ≤ i0 ∨ 123 ≤ i1 ∨ 123 ≤ i2 ∨ 123 ≤ i3 := by
  rw [← decodeTable_eq_none_iff i0, ← decodeTable_eq_none_iff i1, ← decodeTable_eq_none_iff i2,
    ← decodeTable_eq_none_iff i3]
  cases base64DecodeTable[i0]? <;> cases base64DecodeTable[i1]? <;>
    cases base64DecodeTable[i2]? <;> cases base64DecodeTable[i3]? <;> simp

theorem readsBehindTable_four (j : Nat) : ReadsBehindTable mem j 4 ↔
    123 ≤ (mem j).toNat ∨ 123 ≤ (mem (j + 1)).toNat ∨ 123 ≤ (mem (j + 2)).toNat ∨
      123 ≤ (mem (j + 3)).toNat := by
  constructor
  · rintro ⟨k, hk, h⟩
    match k, hk with
    | 0, _ => exact .inl h
    | 1, _ => exact .inr (.inl h)
    | 2, _ => exact .inr (.inr (.inl h))
    | 3, _ => exact .inr (.inr (.inr h))
  · rintro (h | h | h | h)
    · exact ⟨0, by decide, h⟩
    · exact ⟨1, by decide, h⟩
    · exact ⟨2, by decide, h⟩
    · exact ⟨3, by decide, h⟩

theorem readsBehindTable_add (j m n : Nat) : ReadsBehindTable mem j (m + n) ↔
    ReadsBehindTable mem j m ∨ ReadsBehindTable mem (j + m) n := by
  constructor
  · rintro ⟨k, hk, h⟩
    by_cases hm : k < m
    · exact .inl ⟨k, hm, h⟩
    · have hindex : j + m + (k - m) = j + k := by omega
      exact .inr ⟨k - m, by omega, by rw [hindex]; exact h⟩
  · rintro (⟨k, hk, h⟩ | ⟨k, hk, h⟩)
    · exact ⟨k, by omega, h⟩
    · exact ⟨m + k, by omega, by rw [← Nat.add_assoc]; exact h⟩

theorem decodeGroup_eq_none_iff (j : Nat) :
    decodeGroup (load32 mem j) = none ↔ ReadsBehindTable mem j 4 := by
  rw [readsBehindTable_four, decodeGroup, b0_load32, b1_load32, b2_load32, b3_load32]
  exact lookups_eq_none_iff _ _ _ _ _

theorem decodeLast_eq_none_iff (j : Nat) :
    decodeLast (load32 mem j) = none ↔ ReadsBehindTable mem j 4 := by
  rw [readsBehindTable_four, decodeLast, b0_load32, b1_load32, b2_load32, b3_load32]
  exact lookups_eq_none_iff _ _ _ _ _

/-- The decoder reads the words that its source begins, and each byte must have an entry. -/
theorem decodeFrom_eq_none_iff (j n : Nat) :
    decodeFrom mem j n = none ↔ ReadsBehindTable mem j ((n + 3) / 4 * 4) := by
  induction j, n using decodeFrom.induct with
  | case1 j =>
      constructor
      · intro h
        cases h
      · rintro ⟨k, hk, -⟩
        exact absurd hk (Nat.not_lt_zero k)
  | case2 j n ih =>
      have hsize : (n + 5 + 3) / 4 * 4 = 4 + (n + 1 + 3) / 4 * 4 := by omega
      rw [hsize, readsBehindTable_add, ← ih, ← decodeGroup_eq_none_iff, decodeFrom]
      cases decodeGroup (load32 mem j) <;> cases decodeFrom mem (j + 4) (n + 1) <;> simp
  | case3 n j hzero hmore =>
      have hle : n < 5 := by
        by_contra h
        exact hmore (n - 5) (by show n = n - 5 + 5; omega)
      have hsize : (n + 3) / 4 * 4 = 4 := by
        have hpos : n ≠ 0 := hzero
        omega
      rw [hsize, ← decodeLast_eq_none_iff, decodeFrom]
      · exact hzero
      · exact hmore

/-- The arguments that the decoder accepts. -/
def DecodeAccepts (srcLen destLen : Int32) : Prop :=
  0 < srcLen.toInt ∧ decodedRoom srcLen.toInt.toNat ≤ destLen.toInt

theorem decode_outside_iff (text dest : Memory) (srcLen destLen : Int32) :
    base64Decode (some text) srcLen (some dest) destLen = .outside ↔
      DecodeAccepts srcLen destLen ∧
        ReadsBehindTable text 0 ((srcLen.toInt.toNat + 3) / 4 * 4) := by
  by_cases haccepts : DecodeAccepts srcLen destLen
  · obtain ⟨hpos, hroom⟩ := haccepts
    have hn : srcLen.toInt = srcLen.toInt.toNat := by omega
    have hpos' : 0 < srcLen.toInt.toNat := by omega
    rw [base64Decode_eq hn hpos' hroom, ← decodeFrom_eq_none_iff]
    cases hd : decodeFrom text 0 srcLen.toInt.toNat with
    | none => exact ⟨fun _ => ⟨⟨hpos, hroom⟩, rfl⟩, fun _ => rfl⟩
    | some bytes =>
        constructor
        · intro h
          cases h
        · rintro ⟨-, h⟩
          cases h
  · constructor
    · intro h
      rw [base64Decode] at h
      split at h
      · cases h
      · rename_i hneg
        have hroom : destLen.toInt < decodedRoom srcLen.toInt.toNat := by
          by_contra hle
          exact haccepts ⟨by omega, by omega⟩
        simp only [checkRoom, if_pos hroom] at h
        split at h <;> cases h
    · rintro ⟨h, -⟩
      exact absurd h haccepts

end Decoder

/-- The encoder's output depends on the source it is given exactly for the lengths that it
refuses and the multiples of three. The decoder stays inside its table exactly where it refuses
the call or every byte of the words it reads is below 123. -/
theorem reads_source_and_table_iff (srcLen destLen : Int32) (dest : Memory) :
    (EncodeReadsSource srcLen dest destLen ↔
      (EncodeAccepts srcLen destLen → srcLen.toInt % 3 = 0)) ∧
    ∀ text, base64Decode (some text) srcLen (some dest) destLen ≠ .outside ↔
      (DecodeAccepts srcLen destLen →
        ∀ k < (srcLen.toInt.toNat + 3) / 4 * 4, (text k).toNat < 123) := by
  refine ⟨encode_reads_source_iff srcLen dest destLen, fun text => ?_⟩
  rw [Ne, decode_outside_iff]
  constructor
  · intro h haccepts k hk
    by_contra hlt
    exact h ⟨haccepts, k, hk, by rw [Nat.zero_add]; omega⟩
  · rintro h ⟨haccepts, k, hk, hge⟩
    have hlt := h haccepts k hk
    rw [Nat.zero_add] at hge
    omega

/-- The encoding of one byte depends on what lies behind it, and the byte 200 has no entry in the
table of the decoder. -/
theorem reads_behind_source_and_table :
    ¬ (∀ srcLen destLen dest, EncodeAccepts srcLen destLen →
        EncodeReadsSource srcLen dest destLen) ∧
    ¬ (∀ srcLen destLen text dest,
        base64Decode (some text) srcLen (some dest) destLen ≠ .outside) := by
  constructor
  · intro h
    have haccepts : EncodeAccepts 1 5 := ⟨by decide, by decide⟩
    have hreads := h 1 5 (fun _ => 0) haccepts
    exact absurd ((encode_reads_source_iff 1 _ 5).mp hreads haccepts) (by decide)
  · intro h
    have hbehind : ReadsBehindTable (fun _ => 200) 0 (((4 : Int32).toInt.toNat + 3) / 4 * 4) :=
      ⟨0, by decide, by decide⟩
    have haccepts : DecodeAccepts 4 8 := ⟨by decide, by decide⟩
    exact h 4 8 _ (fun _ => 0) ((decode_outside_iff _ _ 4 8).mpr ⟨haccepts, hbehind⟩)

end XMonitor.Base64
