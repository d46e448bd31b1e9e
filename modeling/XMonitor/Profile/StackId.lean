import Mathlib.Data.List.AList
import XMonitor.Lib.BitMix
import XMonitor.Profile.Walk

/-!
# The id of an unwound stack

The walk files the stack that it has collected under a hash of its program counters. The
hash is told a length in bytes, while the call passes the number of 32-bit words of the
array: 254 of its 1016 bytes are hashed, which are 63 words and half of the next one.

The memory behind a pointer is the list of its 32-bit words, in little-endian order.
-/

namespace XMonitor.Profile

open BitMix

/-- The constant `m`. -/
def murmurM : BitVec 32 := 0x5bd1e995

def murmurMInv : BitVec 32 := 0xe59b19bd

theorem murmurM_mul : murmurM * murmurMInv = 1 := by decide

/-- A word before it is mixed in. -/
def mixWord (k : BitVec 32) : BitVec 32 := xorShift 24 (k * murmurM) * murmurM

def hashStep (h k : BitVec 32) : BitVec 32 := (h * murmurM) ^^^ mixWord k

/-- The loop of `__murmur_hash2_user_stack_id`, with `i` iterations left: `h`, `data` and
`len` at its end. -/
def hashLoop : Nat → BitVec 32 → List (BitVec 32) → Nat → BitVec 32 × List (BitVec 32) × Nat
  | 0, h, data, len => (h, data, len)
  | i + 1, h, data, len =>
    if len < 4 then (h, data, len)
    else hashLoop i (hashStep h (data.headD 0)) data.tail (len - 4)

/-- `data[i]`, where `data` points to the word. -/
def byteOf (word : BitVec 32) (i : Nat) : BitVec 32 := (word >>> (8 * i)) &&& 0xff

/-- The `switch` over what is left of the length, whose cases fall through. -/
def hashTail (h word : BitVec 32) (len : Nat) : BitVec 32 :=
  let h := if len = 3 then h ^^^ (byteOf word 2 <<< 16) else h
  let h := if len = 3 ∨ len = 2 then h ^^^ (byteOf word 1 <<< 8) else h
  if len = 3 ∨ len = 2 ∨ len = 1 then (h ^^^ byteOf word 0) * murmurM else h

def hashFinish (h : BitVec 32) : BitVec 32 := xorShift 15 (xorShift 13 h * murmurM)

/-- `__murmur_hash2_user_stack_id`, for a length that is not negative. -/
def murmurHash2UserStackId (key : List (BitVec 32)) (len : Nat) : BitVec 32 :=
  let seed : BitVec 32 := 0
  let (h, data, len) := hashLoop 256 (seed ^^^ BitVec.ofNat 32 len) key len
  hashFinish (hashTail h (data.headD 0) len)

/-- A word of `pcLst`. -/
def EhframeUserStack.word (eSt : EhframeUserStack) (w : Nat) : BitVec 32 :=
  ((eSt.pcLst (w / 2)).toBitVec >>> (32 * (w % 2))).setWidth 32

/-- The words of `pcLst`. -/
def EhframeUserStack.words (eSt : EhframeUserStack) : List (BitVec 32) :=
  (List.range (perfMaxStackDepth * 2)).map eSt.word

/-- The `ehframe_user_stack_id` of `xm_walk_user_stacktrace`. -/
def ehframeUserStackId (eSt : EhframeUserStack) : UInt32 :=
  .ofBitVec (murmurHash2UserStackId eSt.words (perfMaxStackDepth * 2))

/-- `xm_profile_ehframe_user_stack_map` after the update with `BPF_ANY`, if it has room. -/
def recordStack (map : AList fun _ : UInt32 => EhframeUserStack) (eSt : EhframeUserStack) :
    AList fun _ : UInt32 => EhframeUserStack :=
  map.insert (ehframeUserStackId eSt) eSt

/-! ## What is hashed -/

theorem hashLoop_done (i : Nat) {len : Nat} (hlen : len < 4) (h : BitVec 32)
    (data : List (BitVec 32)) : hashLoop i h data len = (h, data, len) := by
  cases i with
  | zero => rfl
  | succ i => rw [hashLoop, if_pos hlen]

/-- The loop folds its step over the whole words of the length. -/
theorem hashLoop_eq (n : Nat) {i len : Nat} (hi : n ≤ i) (hlen : len / 4 = n)
    (h : BitVec 32) (data : List (BitVec 32)) (hdata : n ≤ data.length) :
    hashLoop i h data len = ((data.take n).foldl hashStep h, data.drop n, len % 4) := by
  induction n generalizing i len h data with
  | zero =>
      have hlen4 : len < 4 := by omega
      rw [hashLoop_done i hlen4, Nat.mod_eq_of_lt hlen4]
      rfl
  | succ n ih =>
      obtain ⟨i, rfl⟩ : ∃ j, i = j + 1 := ⟨i - 1, by omega⟩
      obtain ⟨k, data, rfl⟩ := List.exists_cons_of_length_pos (by omega : 0 < data.length)
      rw [List.length_cons] at hdata
      have hrest : hashLoop i (hashStep h k) data (len - 4) = _ :=
        ih (by omega) (by omega) (hashStep h k) data (by omega)
      have hmod : (len - 4) % 4 = len % 4 := by omega
      rw [hashLoop, if_neg (by omega), List.headD_cons, List.tail_cons, hrest, hmod]
      rfl

theorem getLsbD_mask (n i : Nat) :
    (BitVec.ofNat 32 (2 ^ n - 1)).getLsbD i = (decide (i < 32) && decide (i < n)) := by
  rw [BitVec.getLsbD_ofNat, Nat.testBit_two_pow_sub_one]

/-- Two bytes are left of the length; together they are the lower half of the word. -/
theorem hashTail_two (h word : BitVec 32) :
    hashTail h word 2 = (h ^^^ (word &&& 0xffff)) * murmurM := by
  have hlow : byteOf word 1 <<< 8 ^^^ byteOf word 0 = word &&& 0xffff := by
    apply BitVec.eq_of_getLsbD_eq
    intro i hi
    have hbyte : (0xff : BitVec 32) = BitVec.ofNat 32 (2 ^ 8 - 1) := rfl
    have hhalf : (0xffff : BitVec 32) = BitVec.ofNat 32 (2 ^ 16 - 1) := rfl
    simp only [byteOf, hbyte, hhalf, BitVec.getLsbD_xor, BitVec.getLsbD_shiftLeft,
      BitVec.getLsbD_and, BitVec.getLsbD_ushiftRight, getLsbD_mask]
    by_cases hlo : i < 8
    · simp [hlo, hi, show i < 16 by omega]
    · have hi8 : 8 + (i - 8) = i := by omega
      by_cases hmid : i < 16
      · simp [hlo, hi, hmid, hi8, show i - 8 < 8 by omega, show i - 8 < 32 by omega]
      · simp [hlo, hi, hmid, show ¬ i - 8 < 8 by omega]
  simp only [hashTail, Nat.reduceEqDiff, if_false, or_true, if_true, or_false,
    BitVec.xor_assoc, hlow]

/-- The words that are hashed as a whole. -/
def EhframeUserStack.wholeWords (eSt : EhframeUserStack) : List (BitVec 32) :=
  (List.range 63).map eSt.word

/-- What is hashed of the word behind them. -/
def EhframeUserStack.halfWord (eSt : EhframeUserStack) : BitVec 32 := eSt.word 63 &&& 0xffff

variable {eSt eSt' : EhframeUserStack}

theorem wholeWords_eq (eSt : EhframeUserStack) : eSt.words.take 63 = eSt.wholeWords := by
  rw [EhframeUserStack.words, ← List.map_take, List.take_range]
  rfl

theorem headD_drop_words (eSt : EhframeUserStack) : (eSt.words.drop 63).headD 0 = eSt.word 63 :=
  rfl

theorem ehframeUserStackId_eq (eSt : EhframeUserStack) :
    ehframeUserStackId eSt =
      .ofBitVec (hashFinish ((eSt.wholeWords.foldl hashStep 254 ^^^ eSt.halfWord) * murmurM)) := by
  have hlength : 63 ≤ eSt.words.length := by
    rw [EhframeUserStack.words, List.length_map, List.length_range]
    decide
  have hloop : hashLoop 256 (0 ^^^ BitVec.ofNat 32 (perfMaxStackDepth * 2)) eSt.words
      (perfMaxStackDepth * 2) = _ :=
    hashLoop_eq 63 (by decide) rfl _ eSt.words hlength
  rw [wholeWords_eq] at hloop
  rw [ehframeUserStackId, murmurHash2UserStackId, hloop]
  change UInt32.ofBitVec (hashFinish (hashTail (eSt.wholeWords.foldl hashStep 254)
    ((eSt.words.drop 63).headD 0) 2)) = _
  rw [headD_drop_words, hashTail_two]
  rfl

/-! ## Each step can be undone -/

theorem hashFinish_injective : Function.Injective hashFinish :=
  (xorShift_injective (by decide)).comp
    ((mul_injective murmurM_mul).comp (xorShift_injective (by decide)))

/-- `mixWord` backwards. -/
def unmixWord (k : BitVec 32) : BitVec 32 := xorShift 24 (k * murmurMInv) * murmurMInv

theorem mixWord_eq_iff {k l : BitVec 32} : mixWord k = l ↔ k = unmixWord l := by
  have hshift : Function.Involutive (xorShift 24 : BitVec 32 → BitVec 32) :=
    xorShift_xorShift (by decide)
  rw [mixWord, mul_eq_iff murmurM_mul, hshift.eq_iff, mul_eq_iff murmurM_mul, unmixWord]

theorem mixWord_injective : Function.Injective mixWord := fun k l h => by
  rw [mixWord_eq_iff.mp h, ← mixWord_eq_iff.mp rfl]

/-- `hashStep` backwards, from the hash behind the word. -/
def unhashStep (h k : BitVec 32) : BitVec 32 := (h ^^^ mixWord k) * murmurMInv

theorem hashStep_eq_iff (h k h' : BitVec 32) : hashStep h k = h' ↔ h = unhashStep h' k := by
  rw [hashStep, xor_eq_iff, mul_eq_iff murmurM_mul, unhashStep]

theorem hashStep_injective_left (k : BitVec 32) : Function.Injective fun h => hashStep h k :=
  fun h h' heq => by
    rw [(hashStep_eq_iff h k _).mp heq]
    exact ((hashStep_eq_iff h' k _).mp rfl).symm

theorem hashStep_injective_right (h : BitVec 32) : Function.Injective (hashStep h) :=
  fun _ _ heq => mixWord_injective ((BitVec.xor_right_inj _).mp heq)

/-! ## Stacks that differ in one word -/

theorem ehframeUserStackId_inj : ehframeUserStackId eSt = ehframeUserStackId eSt' ↔
    eSt.wholeWords.foldl hashStep 254 ^^^ eSt.halfWord =
      eSt'.wholeWords.foldl hashStep 254 ^^^ eSt'.halfWord := by
  rw [ehframeUserStackId_eq, ehframeUserStackId_eq, UInt32.ofBitVec.injEq,
    hashFinish_injective.eq_iff, (mul_injective murmurM_mul).eq_iff]

/-- The stacks differ in the word `w` alone. -/
structure DifferAt (eSt eSt' : EhframeUserStack) (w : Nat) : Prop where
  inArray : w < perfMaxStackDepth * 2
  differs : eSt.word w ≠ eSt'.word w
  others : ∀ v, v < perfMaxStackDepth * 2 → v ≠ w → eSt.word v = eSt'.word v

variable {w : Nat}

theorem DifferAt.wholeWords_eq (h : DifferAt eSt eSt' w) (hw : 63 ≤ w) :
    eSt.wholeWords = eSt'.wholeWords := by
  apply List.map_congr_left
  intro v hv
  rw [List.mem_range] at hv
  exact h.others v (Nat.lt_trans hv (by decide)) (by omega)

theorem DifferAt.halfWord_eq (h : DifferAt eSt eSt' w) (hw : w ≠ 63) :
    eSt.halfWord = eSt'.halfWord := by
  rw [EhframeUserStack.halfWord, EhframeUserStack.halfWord, h.others 63 (by decide) hw.symm]

theorem wholeWords_split (eSt : EhframeUserStack) (hw : w < 63) :
    eSt.wholeWords = (List.range w).map eSt.word ++
      eSt.word w :: (List.range' (w + 1) (62 - w)).map eSt.word := by
  have hrange : List.range 63 = List.range w ++ w :: List.range' (w + 1) (62 - w) := by
    have hbehind : w :: List.range' (w + 1) (62 - w) = List.range' w (63 - w) := by
      rw [← List.range'_succ]
      congr 1
      omega
    have happend := List.range'_append_1 (s := 0) (m := w) (n := 63 - w)
    rw [Nat.zero_add] at happend
    rw [hbehind, List.range_eq_range', List.range_eq_range', happend]
    congr 1
    omega
  rw [EhframeUserStack.wholeWords, hrange, List.map_append, List.map_cons]

theorem DifferAt.foldl_ne (h : DifferAt eSt eSt' w) (hw : w < 63) :
    eSt.wholeWords.foldl hashStep 254 ≠ eSt'.wholeWords.foldl hashStep 254 := by
  have hothers {v : Nat} (hv : v < 63) (hne : v ≠ w) : eSt.word v = eSt'.word v :=
    h.others v (Nat.lt_trans hv (by decide)) hne
  have hbefore : (List.range w).map eSt.word = (List.range w).map eSt'.word :=
    List.map_congr_left fun v hv => by
      rw [List.mem_range] at hv
      exact hothers (by omega) (by omega)
  have hbehind : (List.range' (w + 1) (62 - w)).map eSt.word =
      (List.range' (w + 1) (62 - w)).map eSt'.word :=
    List.map_congr_left fun v hv => by
      rw [List.mem_range'_1] at hv
      exact hothers (by omega) (by omega)
  rw [wholeWords_split eSt hw, wholeWords_split eSt' hw, hbefore, hbehind]
  exact BitMix.foldl_ne hashStep_injective_left hashStep_injective_right h.differs _ _ _

/-- The hash reaches the difference in the word `w`. -/
def ReachedByHash (eSt eSt' : EhframeUserStack) (w : Nat) : Prop :=
  w < 63 ∨ (w = 63 ∧ eSt.halfWord ≠ eSt'.halfWord)

theorem ehframeUserStackId_ne_iff (h : DifferAt eSt eSt' w) :
    ehframeUserStackId eSt ≠ ehframeUserStackId eSt' ↔ ReachedByHash eSt eSt' w := by
  rw [Ne, ehframeUserStackId_inj, ReachedByHash]
  by_cases hw : w < 63
  · rw [h.halfWord_eq (Nat.ne_of_lt hw), BitVec.xor_left_inj]
    exact iff_of_true (h.foldl_ne hw) (.inl hw)
  · rw [h.wholeWords_eq (Nat.le_of_not_lt hw), BitVec.xor_right_inj]
    constructor
    · intro hne
      exact .inr ⟨not_not.mp fun h63 => hne (h.halfWord_eq h63), hne⟩
    · rintro (hlt | ⟨-, hne⟩)
      · exact absurd hlt hw
      · exact hne

theorem lookup_recordStack (map : AList fun _ : UInt32 => EhframeUserStack) (hne : eSt ≠ eSt') :
    (recordStack (recordStack map eSt) eSt').lookup (ehframeUserStackId eSt) = some eSt ↔
      ehframeUserStackId eSt ≠ ehframeUserStackId eSt' := by
  rw [recordStack, recordStack]
  constructor
  · intro hfound heq
    rw [heq, AList.lookup_insert] at hfound
    exact hne (Option.some.inj hfound).symm
  · intro hids
    rw [AList.lookup_insert_ne hids, AList.lookup_insert]

/-- Two stacks that differ in one word have different ids, and both stay in the map,
exactly if the word is hashed. -/
theorem stackId_depends_on_word_iff (map : AList fun _ : UInt32 => EhframeUserStack)
    (h : DifferAt eSt eSt' w) :
    (ehframeUserStackId eSt ≠ ehframeUserStackId eSt' ∧
      (recordStack (recordStack map eSt) eSt').lookup (ehframeUserStackId eSt) = some eSt) ↔
        ReachedByHash eSt eSt' w := by
  have hne : eSt ≠ eSt' := fun heq => h.differs (by rw [heq])
  rw [lookup_recordStack map hne, and_self, ehframeUserStackId_ne_iff h]

/-- The entries behind the frames are zero. -/
def EhframeUserStack.ZeroPadded (eSt : EhframeUserStack) : Prop :=
  ∀ i, eSt.len.toNat ≤ i → eSt.pcLst i = 0

/-- `n` frames of a recursive function and the one that called it. -/
def recursiveStack (n : Nat) (caller : UInt64) : EhframeUserStack :=
  { len := UInt64.ofNat (n + 1)
    pcLst := fun i => if i < n then 0x401136 else if i = n then caller else 0 }

theorem recursiveStack_zeroPadded {n : Nat} (hn : n < perfMaxStackDepth) (caller : UInt64) :
    (recursiveStack n caller).ZeroPadded := by
  intro i hi
  have hlen : (UInt64.ofNat (n + 1)).toNat = n + 1 := UInt64.toNat_ofNat_of_lt' (by
    have hn : n < 127 := hn
    change n + 1 < 18446744073709551616
    omega)
  simp only [recursiveStack, hlen] at hi ⊢
  rw [if_neg (by omega), if_neg (by omega)]

/-- Callers with the same upper half. -/
theorem differAt_recursiveStack {n : Nat} (hn : n < perfMaxStackDepth) {caller caller' : UInt64}
    (hlow : caller.toBitVec.setWidth 32 ≠ caller'.toBitVec.setWidth 32)
    (hhigh : caller.toBitVec >>> 32 = caller'.toBitVec >>> 32) :
    DifferAt (recursiveStack n caller) (recursiveStack n caller') (2 * n) := by
  have hentry (caller : UInt64) : (recursiveStack n caller).pcLst n = caller := by
    simp [recursiveStack]
  have hword : (2 * n) / 2 = n ∧ (2 * n) % 2 = 0 := by omega
  refine ⟨by omega, ?_, fun v _ hv => ?_⟩
  · simpa [EhframeUserStack.word, hword, hentry] using hlow
  · by_cases hvn : v / 2 = n
    · have hodd : v % 2 = 1 := by omega
      simp only [EhframeUserStack.word, hvn, hentry, hodd, Nat.mul_one, hhigh]
    · simp [EhframeUserStack.word, recursiveStack, hvn]

theorem callers_apart :
    DifferAt (recursiveStack 1 0x401200) (recursiveStack 1 0x401300) 2 ∧
      (ehframeUserStackId (recursiveStack 1 0x401200) ≠
          ehframeUserStackId (recursiveStack 1 0x401300) ∧
        (recordStack (recordStack ∅ (recursiveStack 1 0x401200))
          (recursiveStack 1 0x401300)).lookup (ehframeUserStackId (recursiveStack 1 0x401200)) =
            some (recursiveStack 1 0x401200)) := by
  have hdiffer : DifferAt (recursiveStack 1 0x401200) (recursiveStack 1 0x401300) 2 :=
    differAt_recursiveStack (n := 1) (by decide) (by decide) (by decide)
  exact ⟨hdiffer, (stackId_depends_on_word_iff ∅ hdiffer).mpr (.inl (by decide))⟩

/-- Behind 32 frames the hash does not see who called. -/
theorem deep_callers_collide :
    ¬ ∀ eSt eSt' w, eSt.ZeroPadded → eSt'.ZeroPadded → DifferAt eSt eSt' w →
      ehframeUserStackId eSt ≠ ehframeUserStackId eSt' := by
  intro hclaim
  have hdiffer : DifferAt (recursiveStack 32 0x401200) (recursiveStack 32 0x401300) 64 :=
    differAt_recursiveStack (n := 32) (by decide) (by decide) (by decide)
  have hids := hclaim _ _ 64 (recursiveStack_zeroPadded (by decide) _)
    (recursiveStack_zeroPadded (by decide) _) hdiffer
  rcases (ehframeUserStackId_ne_iff hdiffer).mp hids with hlt | ⟨heq, -⟩
  · exact absurd hlt (by decide)
  · exact absurd heq (by decide)

/-! ## Stacks whose id is zero -/

/-- The first word with which the hash of the other words ends in zero: the rounds are run
backwards from the last one. -/
def zeroIdFirstWord (eSt : EhframeUserStack) : BitVec 32 :=
  unmixWord (((List.range' 1 62).map eSt.word).foldr (fun k h => unhashStep h k) eSt.halfWord ^^^
    254 * murmurM)

theorem ehframeUserStackId_eq_zero_iff (eSt : EhframeUserStack) :
    ehframeUserStackId eSt = 0 ↔ eSt.word 0 = zeroIdFirstWord eSt := by
  have hzero : (0 : UInt32) = .ofBitVec (hashFinish (0 * murmurM)) := by decide
  have hhalf : 0 ^^^ eSt.halfWord = eSt.halfWord := BitVec.zero_xor
  rw [ehframeUserStackId_eq, hzero, UInt32.ofBitVec.injEq, hashFinish_injective.eq_iff,
    (mul_injective murmurM_mul).eq_iff, xor_eq_iff, hhalf,
    wholeWords_split eSt (by decide : 0 < 63), List.range_zero, List.map_nil, List.nil_append,
    List.foldl_cons, foldl_eq_iff hashStep_eq_iff, hashStep, BitVec.xor_comm, xor_eq_iff,
    mixWord_eq_iff, zeroIdFirstWord]

end XMonitor.Profile
