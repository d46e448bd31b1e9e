import XMonitor.Utils.Base64

/-!
# Encoding and decoding

What the decoder makes of the characters of the encoder. A full group gives its three bytes back.
The last group gives three bytes whatever the number of bytes it was made of, and its third byte
begins with two bits of the first byte.
-/

namespace XMonitor.Base64

/-- The bytes that the decoder finds in the last group. -/
def lastBytes (src : Memory) (index rest : Nat) : List UInt8 :=
  let third := if 1 < rest then sextet2 src index else 0
  let fourth := if 2 < rest then sextet3 src index else 0
  [UInt8.ofNat (sextet0 src index * 4 + sextet1 src index / 16),
    UInt8.ofNat (sextet1 src index * 16 + third / 4),
    UInt8.ofNat (sextet0 src index * 64 + fourth)]

/-- The bytes that the decoder finds in what the encoder has written. -/
def recovered (src : Memory) : (index rest : Nat) → List UInt8
  | _, 0 => []
  | index, rest + 4 => src.bytes index 3 ++ recovered src (index + 3) (rest + 1)
  | index, rest => lastBytes src index rest

theorem ofNat_eq_iff {n : Nat} {x : UInt8} : UInt8.ofNat n = x ↔ n % 256 = x.toNat := by
  rw [← UInt8.toNat_inj, UInt8.toNat_ofNat']

section Groups

variable {mem : Memory} {j t0 t1 t2 t3 : Nat}

theorem decodeTable_encodeChar {i : Nat} (h : i < 64) :
    base64DecodeTable[(encodeChar i).toNat]? = some (UInt8.ofNat i) := by
  have hall : ∀ i < 64, base64DecodeTable[(encodeChar i).toNat]? = some (UInt8.ofNat i) := by
    decide +kernel
  exact hall i h

theorem decodeTable_padding : base64DecodeTable[(encodeChar 64).toNat]? = some (UInt8.ofNat 0) :=
  rfl

/-- The values of four characters at a position. -/
structure HasValues (mem : Memory) (j t0 t1 t2 t3 : Nat) : Prop where
  value0 : base64DecodeTable[(mem j).toNat]? = some (UInt8.ofNat t0)
  value1 : base64DecodeTable[(mem (j + 1)).toNat]? = some (UInt8.ofNat t1)
  value2 : base64DecodeTable[(mem (j + 2)).toNat]? = some (UInt8.ofNat t2)
  value3 : base64DecodeTable[(mem (j + 3)).toNat]? = some (UInt8.ofNat t3)
  lt0 : t0 < 64
  lt1 : t1 < 64
  lt2 : t2 < 64
  lt3 : t3 < 64

theorem toNat_ofNat_of_lt {t : Nat} (h : t < 64) : (UInt8.ofNat t).toNat = t := by
  rw [UInt8.toNat_ofNat', Nat.mod_eq_of_lt (by omega)]

theorem octet_join {a b k i : Nat} (h : b < 2 ^ (i + k)) :
    octet (a <<< k ||| b >>> i) = UInt8.ofNat (a * 2 ^ k + b / 2 ^ i) := by
  rw [octet_eq, shiftLeft_or_shiftRight _ h]

theorem decodeGroup_eq (h : HasValues mem j t0 t1 t2 t3) :
    decodeGroup (load32 mem j) =
      some [UInt8.ofNat (t0 * 4 + t1 / 16), UInt8.ofNat (t1 * 16 + t2 / 4),
        UInt8.ofNat (t2 * 64 + t3)] := by
  have hlast : octet (t2 <<< 6 ||| t3) = UInt8.ofNat (t2 * 64 + t3) := by
    have := octet_join (a := t2) (b := t3) (k := 6) (i := 0) h.lt3
    simpa using this
  rw [decodeGroup, b0_load32, b1_load32, b2_load32, b3_load32, h.value0, h.value1, h.value2,
    h.value3]
  show some [octet _, octet _, octet _] = _
  rw [toNat_ofNat_of_lt h.lt0, toNat_ofNat_of_lt h.lt1, toNat_ofNat_of_lt h.lt2,
    toNat_ofNat_of_lt h.lt3, octet_join h.lt1, octet_join h.lt2, hlast]
  rfl

theorem decodeLast_eq (h : HasValues mem j t0 t1 t2 t3) :
    decodeLast (load32 mem j) =
      some [UInt8.ofNat (t0 * 4 + t1 / 16), UInt8.ofNat (t1 * 16 + t2 / 4),
        UInt8.ofNat (t0 * 64 + t3)] := by
  have hlast : octet (t0 <<< 6 ||| t3) = UInt8.ofNat (t0 * 64 + t3) := by
    have := octet_join (a := t0) (b := t3) (k := 6) (i := 0) h.lt3
    simpa using this
  rw [decodeLast, b0_load32, b1_load32, b2_load32, b3_load32, h.value0, h.value1, h.value2,
    h.value3]
  show some [octet _, octet _, octet _] = _
  rw [toNat_ofNat_of_lt h.lt0, toNat_ofNat_of_lt h.lt1, toNat_ofNat_of_lt h.lt2,
    toNat_ofNat_of_lt h.lt3, octet_join h.lt1, octet_join h.lt2, hlast]
  rfl

end Groups

section Parts

variable (src : Memory) (index : Nat)

theorem ofNat_sextet01 :
    UInt8.ofNat (sextet0 src index * 4 + sextet1 src index / 16) = src index := by
  have h := (src index).toNat_lt
  have h1 := (src (index + 1)).toNat_lt
  rw [ofNat_eq_iff, sextet0, sextet1]
  omega

theorem ofNat_sextet12 :
    UInt8.ofNat (sextet1 src index * 16 + sextet2 src index / 4) = src (index + 1) := by
  have h1 := (src (index + 1)).toNat_lt
  have h2 := (src (index + 2)).toNat_lt
  rw [ofNat_eq_iff, sextet1, sextet2]
  omega

theorem ofNat_sextet23 :
    UInt8.ofNat (sextet2 src index * 64 + sextet3 src index) = src (index + 2) := by
  have h2 := (src (index + 2)).toNat_lt
  rw [ofNat_eq_iff, sextet2, sextet3]
  omega

end Parts

section Decoder

variable {src mem : Memory}

/-- A part of what lies at a position. -/
theorem Memory.HoldsAt.append {j : Nat} {a b : List UInt8} (h : mem.HoldsAt j (a ++ b)) :
    mem.HoldsAt j a ∧ mem.HoldsAt (j + a.length) b := by
  constructor
  · intro k hk
    rw [h k (by rw [List.length_append]; omega), List.getElem_append_left hk]
  · intro k hk
    rw [Nat.add_assoc, h (a.length + k) (by rw [List.length_append]; omega),
      List.getElem_append_right (by omega)]
    congr 1
    omega

/-- Four characters at a position, each of which stands for a value. -/
theorem hasValues_of_holdsAt {j i0 i1 i2 i3 t2 t3 : Nat}
    (h : mem.HoldsAt j [encodeChar i0, encodeChar i1, encodeChar i2, encodeChar i3])
    (h0 : i0 < 64) (h1 : i1 < 64) (h2 : t2 < 64) (h3 : t3 < 64)
    (hi2 : base64DecodeTable[(encodeChar i2).toNat]? = some (UInt8.ofNat t2))
    (hi3 : base64DecodeTable[(encodeChar i3).toNat]? = some (UInt8.ofNat t3)) :
    HasValues mem j i0 i1 t2 t3 := by
  have hm0 : mem j = encodeChar i0 := h 0 (by simp)
  have hm1 : mem (j + 1) = encodeChar i1 := h 1 (by simp)
  have hm2 : mem (j + 2) = encodeChar i2 := h 2 (by simp)
  have hm3 : mem (j + 3) = encodeChar i3 := h 3 (by simp)
  constructor
  · rw [hm0]
    exact decodeTable_encodeChar h0
  · rw [hm1]
    exact decodeTable_encodeChar h1
  · rw [hm2]
    exact hi2
  · rw [hm3]
    exact hi3
  · exact h0
  · exact h1
  · exact h2
  · exact h3

/-- A full group is decoded to its bytes. -/
theorem decodeGroup_encodeGroup {index j : Nat}
    (h : mem.HoldsAt j (encodeGroup (load32 src index))) :
    decodeGroup (load32 mem j) = some (src.bytes index 3) := by
  rw [encodeGroup_load32] at h
  have hv := hasValues_of_holdsAt h (sextet0_lt src index) (sextet1_lt src index)
    (sextet2_lt src index) (sextet3_lt src index)
    (decodeTable_encodeChar (sextet2_lt src index)) (decodeTable_encodeChar (sextet3_lt src index))
  rw [decodeGroup_eq hv, ofNat_sextet01, ofNat_sextet12, ofNat_sextet23]
  rfl

theorem decodeLast_encodeLast {index rest j : Nat}
    (h : mem.HoldsAt j (encodeLast (load32 src index) rest)) :
    decodeLast (load32 mem j) = some (lastBytes src index rest) := by
  rw [encodeLast_load32] at h
  have h2 := sextet2_lt src index
  have h3 := sextet3_lt src index
  have hv : HasValues mem j (sextet0 src index) (sextet1 src index)
      (if 1 < rest then sextet2 src index else 0) (if 2 < rest then sextet3 src index else 0) := by
    apply hasValues_of_holdsAt h (sextet0_lt src index) (sextet1_lt src index)
    · split <;> omega
    · split <;> omega
    · split
      · exact decodeTable_encodeChar h2
      · exact decodeTable_padding
    · split
      · exact decodeTable_encodeChar h3
      · exact decodeTable_padding
  exact decodeLast_eq hv

theorem decodeFrom_add_four (j : Nat) {n : Nat} (h : 0 < n) : decodeFrom mem j (n + 4) = do
    let group ← decodeGroup (load32 mem j)
    let bytes ← decodeFrom mem (j + 4) n
    return group ++ bytes := by
  obtain ⟨n, rfl⟩ : ∃ k, n = k + 1 := ⟨n - 1, by omega⟩
  rfl

theorem recovered_last (index : Nat) {rest : Nat} (h : 0 < rest) (h' : rest ≤ 3) :
    recovered src index rest = lastBytes src index rest := by
  match rest, h, h' with
  | 1, _, _ => rfl
  | 2, _, _ => rfl
  | 3, _, _ => rfl

theorem decodeFrom_encodeFrom {index rest : Nat} (hrest : 0 < rest) {j : Nat}
    (h : mem.HoldsAt j (encodeFrom src index rest)) :
    decodeFrom mem j (encodeFrom src index rest).length = some (recovered src index rest) := by
  induction index, rest, hrest using groupInduction generalizing j with
  | last index rest hrest hle =>
      rw [encodeFrom_last index hrest hle] at h ⊢
      have hlast : decodeLast (load32 mem j) = some (lastBytes src index rest) :=
        decodeLast_encodeLast h
      rw [length_encodeLast, recovered_last index hrest hle, ← hlast]
      rfl
  | group index rest ih =>
      rw [encodeFrom_group] at h ⊢
      obtain ⟨hgroup, hfrom⟩ := h.append
      have hpos : 0 < (encodeFrom src (index + 3) (rest + 1)).length := by
        rw [length_encodeFrom src (index + 3) (Nat.succ_pos rest)]
        omega
      have hih : decodeFrom mem (j + 4) (encodeFrom src (index + 3) (rest + 1)).length =
          some (recovered src (index + 3) (rest + 1)) := ih hfrom
      rw [List.length_append, length_encodeGroup, Nat.add_comm, decodeFrom_add_four j hpos,
        decodeGroup_encodeGroup hgroup, hih]
      rfl

end Decoder

section Bytes

variable {src : Memory}

theorem length_bytes (index n : Nat) : (src.bytes index n).length = n := by
  rw [Memory.bytes, List.length_map, List.length_range']

theorem bytes_add (index m n : Nat) :
    src.bytes index (m + n) = src.bytes index m ++ src.bytes (index + m) n := by
  rw [Memory.bytes, Memory.bytes, Memory.bytes, ← List.map_append, List.range'_append_1]

/-- The memory that holds some bytes gives them back. -/
theorem bytes_of_holdsAt {x : List UInt8} (h : src.HoldsAt 0 x) : src.bytes 0 x.length = x := by
  apply List.ext_getElem (length_bytes 0 x.length)
  intro k hk hk'
  have hx := h k hk'
  rw [Nat.zero_add] at hx
  simp only [Memory.bytes, List.getElem_map, List.getElem_range']
  rw [← hx]
  congr 1
  omega

theorem holdsAt_write (bytes : List UInt8) : (src.write bytes).HoldsAt 0 bytes := by
  intro k hk
  rw [Nat.zero_add]
  exact List.getD_eq_getElem bytes _ hk

theorem length_recovered {index rest : Nat} (hrest : 0 < rest) :
    (recovered src index rest).length = (rest + 2) / 3 * 3 := by
  induction index, rest, hrest using groupInduction with
  | last index rest h h' =>
      match rest, h, h' with
      | 1, _, _ => rfl
      | 2, _, _ => rfl
      | 3, _, _ => rfl
  | group index rest ih =>
      show (src.bytes index 3 ++ recovered src (index + 3) (rest + 1)).length = _
      rw [List.length_append, ih, length_bytes]
      omega

/-- The first of the last three bytes begins with the two bits with which the third begins. -/
def LastGroupAgrees (first third : UInt8) : Prop := first.toNat / 4 % 4 = third.toNat / 64

instance (first third : UInt8) : Decidable (LastGroupAgrees first third) :=
  inferInstanceAs (Decidable (_ = _))

/-- Full groups are recovered, apart from the first two bits of the last byte. -/
theorem recovered_eq_bytes_iff {index rest : Nat} (hrest : 0 < rest) (hmod : rest % 3 = 0) :
    recovered src index rest = src.bytes index rest ↔
      LastGroupAgrees (src (index + (rest - 3))) (src (index + (rest - 1))) := by
  induction index, rest, hrest using groupInduction with
  | last index rest h h' =>
      obtain rfl : rest = 3 := by omega
      have hlast : UInt8.ofNat (sextet0 src index * 64 + sextet3 src index) = src (index + 2) ↔
          LastGroupAgrees (src index) (src (index + 2)) := by
        have hx0 := (src index).toNat_lt
        have hx2 := (src (index + 2)).toNat_lt
        rw [ofNat_eq_iff, sextet0, sextet3, LastGroupAgrees]
        omega
      have hrec : recovered src index 3 =
          [src index, src (index + 1),
            UInt8.ofNat (sextet0 src index * 64 + sextet3 src index)] := by
        show [UInt8.ofNat (sextet0 src index * 4 + sextet1 src index / 16),
          UInt8.ofNat (sextet1 src index * 16 + sextet2 src index / 4), _] = _
        rw [ofNat_sextet01, ofNat_sextet12]
        rfl
      rw [hrec, Nat.sub_self, Nat.add_zero]
      show [src index, src (index + 1), _] = [src index, src (index + 1), src (index + 2)] ↔
        LastGroupAgrees (src index) (src (index + 2))
      rw [← hlast, List.cons.injEq, List.cons.injEq, List.cons.injEq]
      simp only [true_and, and_true]
  | group index rest ih =>
      have hbytes : src.bytes index (rest + 4) =
          src.bytes index 3 ++ src.bytes (index + 3) (rest + 1) := by
        rw [← bytes_add index 3 (rest + 1)]
        congr 1
        omega
      have hfirst : index + (rest + 4 - 3) = index + 3 + (rest + 1 - 3) := by omega
      have hthird : index + (rest + 4 - 1) = index + 3 + (rest + 1 - 1) := by omega
      show src.bytes index 3 ++ recovered src (index + 3) (rest + 1) = _ ↔ _
      rw [hbytes, List.append_cancel_left_eq, ih (by omega), hfirst, hthird]

end Bytes

section RoundTrip

variable {x : List UInt8} {src text dest : Memory} {srcLen textRoom destLen : Int32}

/-- The round trip keeps the bytes: what is in the destination, and the length returned. -/
def RoundTrips (x : List UInt8) (src : Memory) (srcLen : Int32) (text : Memory)
    (textRoom : Int32) (dest : Memory) (destLen : Int32) : Prop :=
  roundTrip src srcLen text textRoom dest destLen =
    .wrote (dest.write (x ++ [0])) (Int32.ofInt (x.length + 1))

/-- The number of characters that the encoder writes for some bytes. -/
def encodedLength (x : List UInt8) : Nat := (x.length + 2) / 3 * 4

/-- What is in the destination after a round trip. -/
theorem roundTrip_eq (hx : x ≠ []) (hlen : srcLen.toInt = x.length)
    (htext : encodedRoom x.length ≤ textRoom.toInt)
    (hdest : decodedRoom (encodedLength x) ≤ destLen.toInt) :
    roundTrip src srcLen text textRoom dest destLen =
      .ofBytes dest (recovered src 0 x.length ++ [0]) := by
  have hpos : 0 < x.length := List.length_pos_iff.mpr hx
  have hchars : (encodeFrom src 0 x.length).length = encodedLength x :=
    length_encodeFrom src 0 hpos
  have hposText : 0 < encodedLength x := by
    rw [encodedLength]
    omega
  have hretLt : encodedLength x < 2 ^ 31 := by
    have hlt := destLen.toInt_lt
    have hle : encodedLength x ≤ decodedRoom (encodedLength x) := by
      rw [decodedRoom]
      omega
    omega
  have hret : (Int32.ofInt (encodeFrom src 0 x.length).length).toInt = encodedLength x := by
    rw [hchars, toInt_ofInt_of_lt hretLt]
  rw [roundTrip, base64Encode_eq hlen hpos htext]
  show base64Decode (some (text.write (encodeFrom src 0 x.length)))
    (Int32.ofInt (encodeFrom src 0 x.length).length) (some dest) destLen = _
  rw [base64Decode_eq hret hposText hdest, ← hchars,
    decodeFrom_encodeFrom hpos (holdsAt_write _)]

/-- Decoding what has been encoded gives the bytes back exactly where their number is a multiple
of three and the last of them begins with the two bits that the decoder takes from elsewhere. -/
theorem round_trips_iff (hx : x ≠ []) (hsrc : src.HoldsAt 0 x) (hlen : srcLen.toInt = x.length)
    (htext : encodedRoom x.length ≤ textRoom.toInt)
    (hdest : decodedRoom (encodedLength x) ≤ destLen.toInt) :
    RoundTrips x src srcLen text textRoom dest destLen ↔
      x.length % 3 = 0 ∧
        LastGroupAgrees (x.getD (x.length - 3) 0) (x.getD (x.length - 1) 0) := by
  have hpos : 0 < x.length := List.length_pos_iff.mpr hx
  have hrecLen : (recovered src 0 x.length).length = (x.length + 2) / 3 * 3 :=
    length_recovered hpos
  have hbytes : src.bytes 0 x.length = x := bytes_of_holdsAt hsrc
  have hget : ∀ k < x.length, x.getD k 0 = src k := by
    intro k hk
    have hk' := hsrc k hk
    rw [Nat.zero_add] at hk'
    rw [hk', List.getD_eq_getElem x 0 hk]
  have hsize : (x.length + 2) / 3 * 3 + 1 < 2 ^ 31 := by
    have hlt := destLen.toInt_lt
    rw [decodedRoom, encodedLength] at hdest
    omega
  have hiff : RoundTrips x src srcLen text textRoom dest destLen ↔
      recovered src 0 x.length = x := by
    have hret : Outcome.wrote (dest.write (x ++ [0])) (Int32.ofInt (x.length + 1)) =
        .ofBytes dest (x ++ [0]) := by
      rw [Outcome.ofBytes, List.length_append]
      rfl
    rw [RoundTrips, roundTrip_eq hx hlen htext hdest, hret, ofBytes_inj]
    · rw [List.append_cancel_right_eq]
    · rw [List.length_append, hrecLen]
      exact hsize
    · rw [List.length_append]
      show x.length + 1 < 2 ^ 31
      omega
  rw [hiff]
  constructor
  · intro h
    have hmod : x.length % 3 = 0 := by
      rw [h] at hrecLen
      omega
    have hsame : recovered src 0 x.length = src.bytes 0 x.length := by rw [h, hbytes]
    have hagree := (recovered_eq_bytes_iff hpos hmod).mp hsame
    rw [Nat.zero_add, Nat.zero_add] at hagree
    rw [hget _ (by omega), hget _ (by omega)]
    exact ⟨hmod, hagree⟩
  · rintro ⟨hmod, hagree⟩
    rw [hget _ (by omega), hget _ (by omega)] at hagree
    rw [← hbytes, length_bytes]
    apply (recovered_eq_bytes_iff hpos hmod).mpr
    rw [Nat.zero_add, Nat.zero_add]
    exact hagree

/-- Three bytes that come back. -/
theorem round_trips_iff_three :
    RoundTrips [68, 65, 65] (fun i => [68, 65, 65].getD i 0) 3 (fun _ => 0) 5 (fun _ => 0) 8 :=
  (round_trips_iff (by decide)
    (by
      intro k hk
      rw [Nat.zero_add]
      exact List.getD_eq_getElem _ 0 hk)
    rfl (by decide) (by decide)).mpr (by decide)

/-- One byte comes back as three. -/
theorem one_byte_not_kept : ¬ ∀ (x : List UInt8) (src text dest : Memory)
    (srcLen textRoom destLen : Int32), x ≠ [] → src.HoldsAt 0 x → srcLen.toInt = x.length →
    encodedRoom x.length ≤ textRoom.toInt → decodedRoom (encodedLength x) ≤ destLen.toInt →
    RoundTrips x src srcLen text textRoom dest destLen := by
  intro h
  have hone := h [65] (fun _ => 65) (fun _ => 0) (fun _ => 0) 1 5 8 (by decide)
    (by
      intro k hk
      obtain rfl : k = 0 := Nat.lt_one_iff.mp hk
      rfl)
    rfl (by decide) (by decide)
  have hret := (Outcome.wrote.inj hone).2
  exact absurd hret (by decide)

end RoundTrip

end XMonitor.Base64
