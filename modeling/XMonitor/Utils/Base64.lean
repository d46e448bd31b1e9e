import XMonitor.Utils.Strings
import Mathlib.Data.Nat.Bitwise
import Mathlib.Data.List.Range

/-!
# Base 64

`base64_encode` and `base64_decode` read their source in words of four bytes. Three bytes are
four characters of six bits each. What is left at the end is a last group, which both functions
treat on its own.

The encoder reads behind the end of its source, and the decoder takes the third byte of the last
group from the first character instead of the third.
-/

namespace XMonitor.Base64

/-- The bytes from a pointer on. -/
abbrev Memory := Nat → UInt8

/-- Some bytes lie at a position of the memory. -/
def Memory.HoldsAt (mem : Memory) (index : Nat) (bytes : List UInt8) : Prop :=
  ∀ k, (h : k < bytes.length) → mem (index + k) = bytes[k]

/-- The memory after bytes have been written to its start. -/
def Memory.write (mem : Memory) (bytes : List UInt8) : Memory := fun i => bytes.getD i (mem i)

/-- The bytes that lie at a position of the memory. -/
def Memory.bytes (mem : Memory) (index n : Nat) : List UInt8 := (List.range' index n).map mem

/-- What a call does: it returns `-1`, it computes a size that its type does not hold, it reads
behind a table, or it writes to the destination and returns how many bytes. -/
inductive Outcome where
  | refused
  | overflow
  | outside
  | wrote (dest : Memory) (destLen : Int32)

/-- `*((uint32_t *)(src + index))` where the first byte of a word is the least significant. -/
def load32 (src : Memory) (index : Nat) : UInt32 :=
  UInt32.ofNat ((src index).toNat + 2 ^ 8 * (src (index + 1)).toNat +
    2 ^ 16 * (src (index + 2)).toNat + 2 ^ 24 * (src (index + 3)).toNat)

-- the bytes of a word are shifted by less than a byte, so the words below do not overflow
def b0 (a : UInt32) : Nat := (a &&& 0xFF).toNat
def b1 (a : UInt32) : Nat := (a >>> 8 &&& 0xFF).toNat
def b2 (a : UInt32) : Nat := (a >>> 16 &&& 0xFF).toNat
def b3 (a : UInt32) : Nat := (a >>> 24 &&& 0xFF).toNat

def base64EncodeTable : List UInt8 :=
  "ABCDEFGHIJKLMNOPQRSTUVWXYZabcdefghijklmnopqrstuvwxyz0123456789+/=".toList.map
    fun c => UInt8.ofNat c.toNat

def base64DecodeTable : List UInt8 :=
  List.replicate 38 255 ++
  [255, 255, 255, 255, 255, 62, 255, 255, 255, 63] ++
  [52, 53, 54, 55, 56, 57, 58, 59, 60, 61] ++
  [255, 255, 255, 0, 255, 255, 255] ++
  [0, 1, 2, 3, 4, 5, 6, 7, 8, 9, 10, 11, 12, 13, 14, 15, 16, 17, 18, 19, 20, 21, 22, 23, 24,
    25, 255, 255, 255, 255, 255, 255] ++
  [26, 27, 28, 29, 30, 31, 32, 33, 34, 35, 36, 37, 38, 39, 40, 41, 42, 43, 44, 45, 46, 47, 48,
    49, 50, 51]

/-- A character of the encoding, or the terminator of the table behind the last. -/
def encodeChar (i : Nat) : UInt8 := base64EncodeTable.getD i 0

/-- The four characters of three bytes. -/
def encodeGroup (num : UInt32) : List UInt8 :=
  [encodeChar ((b0 num >>> 2) &&& 0x3F),
    encodeChar (((b0 num <<< 4) ||| (b1 num >>> 4)) &&& 0x3F),
    encodeChar (((b1 num <<< 2) ||| (b2 num >>> 6)) &&& 0x3F),
    encodeChar (b2 num &&& 0x3F)]

/-- The four characters of the last one, two or three bytes. -/
def encodeLast (num : UInt32) (rest : Nat) : List UInt8 :=
  [encodeChar ((b0 num >>> 2) &&& 0x3F),
    encodeChar (((b0 num <<< 4) ||| (b1 num >>> 4)) &&& 0x3F),
    encodeChar (if 1 < rest then ((b1 num <<< 2) ||| (b2 num >>> 6)) &&& 0x3F else 64),
    encodeChar (if 2 < rest then b2 num &&& 0x3F else 64)]

/-- The characters of the bytes from `index` on, of which `rest` are left. -/
def encodeFrom (src : Memory) : (index rest : Nat) → List UInt8
  | _, 0 => []
  | index, rest + 4 => encodeGroup (load32 src index) ++ encodeFrom src (index + 3) (rest + 1)
  | index, rest => encodeLast (load32 src index) rest

/-- A destination must have room for `size` bytes, a number of type `int32_t`. -/
def checkRoom (size : Nat) (destLen : Int32) (call : Outcome) : Outcome :=
  if 2 ^ 31 ≤ size then .overflow
  else if destLen.toInt < size then .refused
  else call

/-- A destination with what a call has written. -/
def Outcome.ofBytes (dest : Memory) (bytes : List UInt8) : Outcome :=
  .wrote (dest.write bytes) (Int32.ofInt bytes.length)

/-- The room that the encoder asks for. -/
def encodedRoom (n : Nat) : Nat := if n % 3 = 0 then n / 3 * 4 + 1 else (n / 3 + 1) * 4 + 1

/-- The room that the decoder asks for. -/
def decodedRoom (n : Nat) : Nat := n + n / 4 * 3 + 1

/-- `base64_encode`. A null pointer is `none`. -/
def base64Encode (src : Option Memory) (srcLen : Int32) (dest : Option Memory)
    (destLen : Int32) : Outcome :=
  match src, dest with
  | some src, some dest =>
      if srcLen.toInt ≤ 0 ∨ destLen.toInt ≤ 0 then .refused
      else
        let n := srcLen.toInt.toNat
        checkRoom (encodedRoom n) destLen (.ofBytes dest (encodeFrom src 0 n))
  | _, _ => .refused

/-- A value of type `int` stored in a byte. -/
def octet (n : Nat) : UInt8 := UInt8.ofNat (n &&& 0xFF)

/-- The three bytes of four characters. -/
def decodeGroup (num : UInt32) : Option (List UInt8) := do
  let t0 ← base64DecodeTable[b0 num]?
  let t1 ← base64DecodeTable[b1 num]?
  let t2 ← base64DecodeTable[b2 num]?
  let t3 ← base64DecodeTable[b3 num]?
  return [octet ((t0.toNat <<< 2) ||| (t1.toNat >>> 4)),
    octet ((t1.toNat <<< 4) ||| (t2.toNat >>> 2)),
    octet ((t2.toNat <<< 6) ||| t3.toNat)]

/-- The three bytes of the last four characters, the third of which is not read there. -/
def decodeLast (num : UInt32) : Option (List UInt8) := do
  let t0 ← base64DecodeTable[b0 num]?
  let t1 ← base64DecodeTable[b1 num]?
  let t2 ← base64DecodeTable[b2 num]?
  let t3 ← base64DecodeTable[b3 num]?
  return [octet ((t0.toNat <<< 2) ||| (t1.toNat >>> 4)),
    octet ((t1.toNat <<< 4) ||| (t2.toNat >>> 2)),
    octet ((t0.toNat <<< 6) ||| t3.toNat)]

/-- The bytes of the characters from `index` on, of which `rest` are left. -/
def decodeFrom (src : Memory) : (index rest : Nat) → Option (List UInt8)
  | _, 0 => some []
  | index, rest + 5 => do
      let group ← decodeGroup (load32 src index)
      let bytes ← decodeFrom src (index + 4) (rest + 1)
      return group ++ bytes
  | index, _ => decodeLast (load32 src index)

/-- `base64_decode`. A null pointer is `none`. -/
def base64Decode (src : Option Memory) (srcLen : Int32) (dest : Option Memory)
    (destLen : Int32) : Outcome :=
  match src, dest with
  | some src, some dest =>
      if srcLen.toInt ≤ 0 ∨ destLen.toInt ≤ 0 then .refused
      else
        let n := srcLen.toInt.toNat
        checkRoom (decodedRoom n) destLen
          (match decodeFrom src 0 n with
          | some bytes => .ofBytes dest (bytes ++ [0])
          | none => .outside)
  | _, _ => .refused

/-- The decoder applied to what the encoder has written. -/
def roundTrip (src : Memory) (srcLen : Int32) (text : Memory) (textRoom : Int32)
    (dest : Memory) (destLen : Int32) : Outcome :=
  match base64Encode (some src) srcLen (some text) textRoom with
  | .wrote text textLen => base64Decode (some text) textLen (some dest) destLen
  | other => other

section Words

variable (src : Memory) (index : Nat)

theorem toNat_load32 : (load32 src index).toNat =
    (src index).toNat + 2 ^ 8 * (src (index + 1)).toNat + 2 ^ 16 * (src (index + 2)).toNat +
      2 ^ 24 * (src (index + 3)).toNat := by
  have h0 := (src index).toNat_lt
  have h1 := (src (index + 1)).toNat_lt
  have h2 := (src (index + 2)).toNat_lt
  have h3 := (src (index + 3)).toNat_lt
  rw [load32, UInt32.toNat_ofNat_of_lt' (by rw [UInt32.size]; omega)]

/-- A byte of a word, by its place. -/
theorem toNat_shiftRight_and (a k : UInt32) :
    (a >>> k &&& 0xFF).toNat = a.toNat / 2 ^ (k.toNat % 32) % 2 ^ 8 := by
  have hmask : (0xFF : UInt32).toNat = 2 ^ 8 - 1 := rfl
  rw [UInt32.toNat_and, hmask, Nat.and_two_pow_sub_one_eq_mod, UInt32.toNat_shiftRight,
    Nat.shiftRight_eq_div_pow]

@[simp] theorem b0_load32 : b0 (load32 src index) = (src index).toNat := by
  have h := (src index).toNat_lt
  have hb : b0 (load32 src index) = (load32 src index).toNat % 2 ^ 8 := by
    have hmask : (0xFF : UInt32).toNat = 2 ^ 8 - 1 := rfl
    rw [b0, UInt32.toNat_and, hmask, Nat.and_two_pow_sub_one_eq_mod]
  rw [hb, toNat_load32]
  omega

@[simp] theorem b1_load32 : b1 (load32 src index) = (src (index + 1)).toNat := by
  have h := (src index).toNat_lt
  have h1 := (src (index + 1)).toNat_lt
  have hb : b1 (load32 src index) = (load32 src index).toNat / 2 ^ 8 % 2 ^ 8 :=
    toNat_shiftRight_and (load32 src index) 8
  rw [hb, toNat_load32]
  omega

@[simp] theorem b2_load32 : b2 (load32 src index) = (src (index + 2)).toNat := by
  have h := (src index).toNat_lt
  have h1 := (src (index + 1)).toNat_lt
  have h2 := (src (index + 2)).toNat_lt
  have hb : b2 (load32 src index) = (load32 src index).toNat / 2 ^ 16 % 2 ^ 8 :=
    toNat_shiftRight_and (load32 src index) 16
  rw [hb, toNat_load32]
  omega

@[simp] theorem b3_load32 : b3 (load32 src index) = (src (index + 3)).toNat := by
  have h := (src index).toNat_lt
  have h1 := (src (index + 1)).toNat_lt
  have h2 := (src (index + 2)).toNat_lt
  have h3 := (src (index + 3)).toNat_lt
  have hb : b3 (load32 src index) = (load32 src index).toNat / 2 ^ 24 % 2 ^ 8 :=
    toNat_shiftRight_and (load32 src index) 24
  rw [hb, toNat_load32]
  omega

end Words

/-- The low digits of one number joined with the high digits of another. -/
theorem shiftLeft_or_shiftRight (a : Nat) {b j k : Nat} (h : b < 2 ^ (j + k)) :
    a <<< k ||| b >>> j = a * 2 ^ k + b / 2 ^ j := by
  have hb : b / 2 ^ j < 2 ^ k := by
    apply Nat.div_lt_of_lt_mul
    rw [← Nat.pow_add]
    exact h
  rw [Nat.shiftRight_eq_div_pow, ← Nat.shiftLeft_add_eq_or_of_lt hb, Nat.shiftLeft_eq]

theorem and_63 (n : Nat) : n &&& 0x3F = n % 64 := Nat.and_two_pow_sub_one_eq_mod n 6

theorem octet_eq (n : Nat) : octet n = UInt8.ofNat n := by
  have hmask : n &&& 0xFF = n % 2 ^ 8 := Nat.and_two_pow_sub_one_eq_mod n 8
  rw [octet, hmask, UInt8.ofNat_mod_size]

/-- The four parts of six bits of the three bytes at a position. -/
def sextet0 (src : Memory) (index : Nat) : Nat := (src index).toNat / 4
def sextet1 (src : Memory) (index : Nat) : Nat :=
  (src index).toNat % 4 * 16 + (src (index + 1)).toNat / 16
def sextet2 (src : Memory) (index : Nat) : Nat :=
  (src (index + 1)).toNat % 16 * 4 + (src (index + 2)).toNat / 64
def sextet3 (src : Memory) (index : Nat) : Nat := (src (index + 2)).toNat % 64

section Sextets

variable (src : Memory) (index : Nat)

theorem sextet0_lt : sextet0 src index < 64 := by
  have h := (src index).toNat_lt
  rw [sextet0]
  omega

theorem sextet1_lt : sextet1 src index < 64 := by
  have h := (src (index + 1)).toNat_lt
  rw [sextet1]
  omega

theorem sextet2_lt : sextet2 src index < 64 := by
  have h := (src (index + 2)).toNat_lt
  rw [sextet2]
  omega

theorem sextet3_lt : sextet3 src index < 64 := Nat.mod_lt _ (by decide)

theorem and_sextet0 : (src index).toNat >>> 2 &&& 0x3F = sextet0 src index := by
  have h := sextet0_lt src index
  rw [and_63, Nat.shiftRight_eq_div_pow]
  exact Nat.mod_eq_of_lt h

theorem and_sextet1 :
    ((src index).toNat <<< 4 ||| (src (index + 1)).toNat >>> 4) &&& 0x3F = sextet1 src index := by
  have h := (src (index + 1)).toNat_lt
  rw [and_63, shiftLeft_or_shiftRight _ (by exact h), sextet1]
  omega

theorem and_sextet2 :
    ((src (index + 1)).toNat <<< 2 ||| (src (index + 2)).toNat >>> 6) &&& 0x3F =
      sextet2 src index := by
  have h := (src (index + 2)).toNat_lt
  rw [and_63, shiftLeft_or_shiftRight _ (by exact h), sextet2]
  omega

theorem and_sextet3 : (src (index + 2)).toNat &&& 0x3F = sextet3 src index := and_63 _

theorem encodeGroup_load32 : encodeGroup (load32 src index) =
    [encodeChar (sextet0 src index), encodeChar (sextet1 src index),
      encodeChar (sextet2 src index), encodeChar (sextet3 src index)] := by
  rw [encodeGroup, b0_load32, b1_load32, b2_load32, and_sextet0, and_sextet1, and_sextet2,
    and_sextet3]

theorem encodeLast_load32 (rest : Nat) : encodeLast (load32 src index) rest =
    [encodeChar (sextet0 src index), encodeChar (sextet1 src index),
      encodeChar (if 1 < rest then sextet2 src index else 64),
      encodeChar (if 2 < rest then sextet3 src index else 64)] := by
  rw [encodeLast, b0_load32, b1_load32, b2_load32, and_sextet0, and_sextet1, and_sextet2,
    and_sextet3]

/-- Three bytes of which all are there are encoded in the same way at the end. -/
theorem encodeLast_three : encodeLast (load32 src index) 3 = encodeGroup (load32 src index) := by
  rw [encodeLast_load32, encodeGroup_load32]
  rfl

end Sextets

section Encoder

/-- The source is read group by group, and the last group is met at its start. -/
theorem groupInduction {motive : (index rest : Nat) → 0 < rest → Prop}
    (last : ∀ index rest, (h : 0 < rest) → rest ≤ 3 → motive index rest h)
    (group : ∀ index rest, motive (index + 3) (rest + 1) (Nat.succ_pos _) →
      motive index (rest + 4) (Nat.succ_pos _)) :
    ∀ index rest, (h : 0 < rest) → motive index rest h := by
  intro index rest
  induction rest using Nat.strong_induction_on generalizing index with
  | _ rest ih =>
      intro hrest
      by_cases hle : rest ≤ 3
      · exact last index rest hrest hle
      · obtain ⟨k, rfl⟩ : ∃ k, rest = k + 4 := ⟨rest - 4, by omega⟩
        exact group index k (ih (k + 1) (by omega) (index + 3) (Nat.succ_pos _))

variable {src : Memory}

theorem encodeFrom_last (index : Nat) {rest : Nat} (h : 0 < rest) (h' : rest ≤ 3) :
    encodeFrom src index rest = encodeLast (load32 src index) rest := by
  match rest, h, h' with
  | 1, _, _ => rfl
  | 2, _, _ => rfl
  | 3, _, _ => rfl

theorem encodeFrom_group (index rest : Nat) : encodeFrom src index (rest + 4) =
    encodeGroup (load32 src index) ++ encodeFrom src (index + 3) (rest + 1) := rfl

theorem length_encodeGroup (num : UInt32) : (encodeGroup num).length = 4 := rfl

theorem length_encodeLast (num : UInt32) (rest : Nat) : (encodeLast num rest).length = 4 := rfl

theorem length_encodeFrom (src : Memory) (index : Nat) {rest : Nat} (h : 0 < rest) :
    (encodeFrom src index rest).length = (rest + 2) / 3 * 4 := by
  induction index, rest, h using groupInduction with
  | last index rest h h' =>
      rw [encodeFrom_last index h h', length_encodeLast]
      omega
  | group index rest ih =>
      rw [encodeFrom_group, List.length_append, ih, length_encodeGroup]
      omega

end Encoder

section Calls

variable {src dest : Memory} {srcLen destLen : Int32} {n : Nat}

theorem checkRoom_of_le {size : Nat} (h : size ≤ destLen.toInt) (call : Outcome) :
    checkRoom size destLen call = call := by
  have hlt := destLen.toInt_lt
  rw [checkRoom, if_neg (by omega), if_neg (by omega)]

theorem base64Encode_eq (hn : srcLen.toInt = n) (hpos : 0 < n)
    (hroom : encodedRoom n ≤ destLen.toInt) :
    base64Encode (some src) srcLen (some dest) destLen =
      .ofBytes dest (encodeFrom src 0 n) := by
  have hdest : 0 < destLen.toInt := by
    have : 0 < encodedRoom n := by
      rw [encodedRoom]
      split <;> exact Nat.succ_pos _
    omega
  have hnat : srcLen.toInt.toNat = n := by rw [hn, Int.toNat_natCast]
  rw [base64Encode, if_neg (by omega)]
  simp only [hnat]
  exact checkRoom_of_le hroom _

theorem base64Decode_eq (hn : srcLen.toInt = n) (hpos : 0 < n)
    (hroom : decodedRoom n ≤ destLen.toInt) :
    base64Decode (some src) srcLen (some dest) destLen =
      match decodeFrom src 0 n with
      | some bytes => .ofBytes dest (bytes ++ [0])
      | none => .outside := by
  have hdest : 0 < destLen.toInt := by
    have : 0 < decodedRoom n := Nat.succ_pos _
    omega
  have hnat : srcLen.toInt.toNat = n := by rw [hn, Int.toNat_natCast]
  rw [base64Decode, if_neg (by omega)]
  simp only [hnat]
  exact checkRoom_of_le hroom _

theorem toInt_ofInt_of_lt (h : n < 2 ^ 31) : (Int32.ofInt n).toInt = n := by
  apply Int32.toInt_ofInt_of_le
  · omega
  · omega

/-- What a call has written is told by the destination and the number returned. -/
theorem ofBytes_inj {a b : List UInt8} (ha : a.length < 2 ^ 31) (hb : b.length < 2 ^ 31) :
    Outcome.ofBytes dest a = Outcome.ofBytes dest b ↔ a = b := by
  constructor
  · intro h
    obtain ⟨hmem, hret⟩ := Outcome.wrote.inj h
    have hlen : a.length = b.length := by
      have htoInt := congrArg Int32.toInt hret
      rw [toInt_ofInt_of_lt ha, toInt_ofInt_of_lt hb] at htoInt
      exact Int.ofNat.inj htoInt
    apply List.ext_getElem hlen
    intro i hia hib
    have hi := congrFun hmem i
    rw [Memory.write, Memory.write, List.getD_eq_getElem a _ hia,
      List.getD_eq_getElem b _ hib] at hi
    exact hi
  · rintro rfl
    rfl

end Calls

end XMonitor.Base64
