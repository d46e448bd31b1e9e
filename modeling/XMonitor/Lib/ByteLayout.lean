import Mathlib.Data.List.Basic

/-!
# Loads from a packet

A packet is a list of bytes. A load says which bytes it reads, and a load that leaves the packet
has no value, so that a program that has a value on every packet stays inside every packet. A
16-bit load takes the lower byte first, and `swapBytes` turns it into the order of the network.
-/

namespace XMonitor.Lib.ByteLayout

def load8 (data : List UInt8) (off : Nat) : Option UInt8 := data[off]?

def littleEndian16 (low high : UInt8) : UInt16 := low.toUInt16 ||| high.toUInt16 <<< 8

def load16 (data : List UInt8) (off : Nat) : Option UInt16 :=
  match load8 data off, load8 data (off + 1) with
  | some low, some high => some (littleEndian16 low high)
  | _, _ => none

/-- What `htons` computes on a machine that stores the lower byte first. -/
def swapBytes (x : UInt16) : UInt16 := x <<< 8 ||| x >>> 8

/-- The bytes of a number in the order of the network. -/
def bigEndian16 (x : UInt16) : List UInt8 := [(x >>> 8).toUInt8, x.toUInt8]

variable {data front back : List UInt8} {off : Nat}

@[simp] theorem load8_append_right (front back : List UInt8) (off : Nat) :
    load8 (front ++ back) (front.length + off) = load8 back off := by
  rw [load8, List.getElem?_append_right (Nat.le_add_right _ _), Nat.add_sub_cancel_left]
  rfl

theorem load8_append_left (back : List UInt8) (h : off < front.length) :
    load8 (front ++ back) off = load8 front off :=
  List.getElem?_append_left h

@[simp] theorem load16_append_right (front back : List UInt8) (off : Nat) :
    load16 (front ++ back) (front.length + off) = load16 back off := by
  rw [load16, Nat.add_assoc, load8_append_right, load8_append_right]
  rfl

theorem littleEndian16_toNat (low high : UInt8) :
    (littleEndian16 low high).toNat = low.toNat + 256 * high.toNat := by
  have hlow : low.toNat < 2 ^ 8 := low.toNat_lt
  have hhigh := high.toNat_lt
  have hshift : (high.toUInt16 <<< 8).toNat = high.toNat <<< 8 := by
    rw [UInt16.toNat_shiftLeft]
    change high.toNat <<< 8 % 2 ^ 16 = _
    rw [Nat.shiftLeft_eq]
    omega
  rw [littleEndian16, UInt16.toNat_or, hshift, UInt8.toNat_toUInt16, Nat.or_comm,
    ← Nat.shiftLeft_add_eq_or_of_lt hlow, Nat.shiftLeft_eq]
  omega

theorem swapBytes_toNat (x : UInt16) :
    (swapBytes x).toNat = x.toNat % 256 * 256 + x.toNat / 256 := by
  have hx := x.toNat_lt
  have hdiv : x.toNat / 256 < 2 ^ 8 := by omega
  have hleft : (x <<< 8).toNat = (x.toNat % 256) <<< 8 := by
    rw [UInt16.toNat_shiftLeft]
    change x.toNat <<< 8 % 2 ^ 16 = _
    rw [Nat.shiftLeft_eq, Nat.shiftLeft_eq]
    omega
  have hright : (x >>> 8).toNat = x.toNat / 256 := by
    rw [UInt16.toNat_shiftRight]
    change x.toNat >>> 8 = _
    rw [Nat.shiftRight_eq_div_pow]
  rw [swapBytes, UInt16.toNat_or, hleft, hright, ← Nat.shiftLeft_add_eq_or_of_lt hdiv,
    Nat.shiftLeft_eq]

theorem swapBytes_swapBytes (x : UInt16) : swapBytes (swapBytes x) = x := by
  apply UInt16.toNat_inj.mp
  have hx := x.toNat_lt
  rw [swapBytes_toNat, swapBytes_toNat]
  omega

theorem swapBytes_inj {x y : UInt16} : swapBytes x = swapBytes y ↔ x = y := by
  constructor
  · intro h
    rw [← swapBytes_swapBytes x, h, swapBytes_swapBytes]
  · exact congrArg swapBytes

/-- A field in the order of the network is loaded with its bytes swapped. -/
theorem load16_bigEndian16 (x : UInt16) (back : List UInt8) :
    load16 (bigEndian16 x ++ back) 0 = some (swapBytes x) := by
  have hx := x.toNat_lt
  have heq : littleEndian16 (x >>> 8).toUInt8 x.toUInt8 = swapBytes x := by
    apply UInt16.toNat_inj.mp
    have hshift : (x >>> 8).toNat = x.toNat / 256 := by
      rw [UInt16.toNat_shiftRight]
      change x.toNat >>> 8 = _
      rw [Nat.shiftRight_eq_div_pow]
    rw [littleEndian16_toNat, swapBytes_toNat, UInt16.toNat_toUInt8, UInt16.toNat_toUInt8, hshift]
    omega
  exact congrArg some heq

/-- Two bytes are the field of exactly one number. -/
theorem bigEndian16_swapBytes (first second : UInt8) :
    bigEndian16 (swapBytes (littleEndian16 first second)) = [first, second] := by
  have hfirst := first.toNat_lt
  have hsecond := second.toNat_lt
  have hvalue : (swapBytes (littleEndian16 first second)).toNat =
      first.toNat * 256 + second.toNat := by
    rw [swapBytes_toNat, littleEndian16_toNat]
    omega
  have hhigh : (swapBytes (littleEndian16 first second) >>> 8).toUInt8 = first := by
    apply UInt8.toNat_inj.mp
    rw [UInt16.toNat_toUInt8, UInt16.toNat_shiftRight]
    change _ >>> 8 % 2 ^ 8 = _
    rw [hvalue, Nat.shiftRight_eq_div_pow]
    omega
  have hlow : (swapBytes (littleEndian16 first second)).toUInt8 = second := by
    apply UInt8.toNat_inj.mp
    rw [UInt16.toNat_toUInt8, hvalue]
    omega
  rw [bigEndian16, hhigh, hlow]

theorem bigEndian16_append_inj {x y : UInt16} {back back' : List UInt8} :
    bigEndian16 x ++ back = bigEndian16 y ++ back' ↔ x = y ∧ back = back' := by
  constructor
  · intro h
    have hload := congrArg (load16 · 0) h
    simp only [load16_bigEndian16, Option.some.injEq, swapBytes_inj] at hload
    exact ⟨hload, (List.append_inj h rfl).2⟩
  · rintro ⟨rfl, rfl⟩
    rfl

@[simp] theorem length_bigEndian16 (x : UInt16) : (bigEndian16 x).length = 2 := rfl

end XMonitor.Lib.ByteLayout
