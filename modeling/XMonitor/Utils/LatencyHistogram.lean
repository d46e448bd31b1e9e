import Mathlib.Algebra.BigOperators.Fin
import Mathlib.Algebra.Order.BigOperators.Group.Finset
import Mathlib.Data.UInt
import Mathlib.Order.Interval.Finset.Fin
import Mathlib.Tactic.FinCases
import XMonitor.Utils.Durations

/-!
# Histograms of latencies

The programs in the kernel count latencies in twenty slots, by their binary logarithm. The
exporter turns the slots into the buckets of a histogram: a bucket has an upper bound, and
its count takes in the buckets below it.

The last slot also takes the latencies that are too large for any slot, and the counters
have 32 bits. `latencyHistogram_agrees` says what the exporter's counts mean nevertheless. The
sum that the exporter estimates in floating point is not modelled.
-/

namespace XMonitor

/-- The counters of the slots of `struct xm_bio_data` and `struct xm_runqlat_hist`. -/
abbrev LatencySlots := Fin 20 → UInt32

/-- The slot of a latency in microseconds, where the last one takes the longer ones too. -/
def latencySlot (us : UInt64) : Fin 20 := logSlot 19 us

/-- One more latency in a slot. -/
def LatencySlots.add (slots : LatencySlots) (slot : Fin 20) : LatencySlots :=
  Function.update slots slot (slots slot + 1)

/-- The slots after some latencies have been recorded. -/
def recordLatencies (us : List UInt64) : LatencySlots :=
  us.foldl (fun slots u => slots.add (latencySlot u)) fun _ => 0

/-- `__powerOfTwo`, the upper bounds of the buckets. -/
def powerOfTwo : Vector Nat 20 :=
  #v[1, 3, 7, 15, 31, 63, 127, 255, 511, 1023, 2047, 4095, 8191, 16383, 32767, 65535, 131071,
    262143, 524287, 1048575]

/-- A histogram that the exporter sends: the number of samples, and the count of each bucket
by its upper bound. -/
structure Histogram where
  sampleCount : UInt64
  buckets : Nat → Option UInt64

/-- The body of the loop over the slots. -/
def Histogram.addSlot (slots : LatencySlots) (h : Histogram) (i : Fin 20) : Histogram :=
  let sampleCount := h.sampleCount + (slots i).toUInt64
  { sampleCount
    buckets := Function.update h.buckets powerOfTwo[i] (some sampleCount) }

/-- The loop over the slots, which writes into buckets that are there already. -/
def latencyHistogram (latencyBuckets : Nat → Option UInt64) (slots : LatencySlots) : Histogram :=
  (List.finRange 20).foldl (Histogram.addSlot slots) ⟨0, latencyBuckets⟩

/-! ## Slots -/

theorem latencySlot_val (us : UInt64) : (latencySlot us).val = min us.toNat.log2 19 :=
  logSlot_val 19 us

theorem powerOfTwo_eq (i : Fin 20) : powerOfTwo[i] = 2 ^ (i.val + 1) - 1 := by
  fin_cases i <;> rfl

theorem powerOfTwo_strictMono {i j : Fin 20} (h : i < j) : powerOfTwo[i] < powerOfTwo[j] := by
  have hpow : 2 ^ (i.val + 1) < 2 ^ (j.val + 1) :=
    Nat.pow_lt_pow_right (by decide) (Nat.succ_lt_succ h)
  have hpos := Nat.two_pow_pos (i.val + 1)
  rw [powerOfTwo_eq, powerOfTwo_eq]
  omega

/-- Different slots have different buckets. -/
theorem powerOfTwo_ne {i j : Fin 20} (h : i ≠ j) : powerOfTwo[i] ≠ powerOfTwo[j] := by
  obtain hlt | hlt := lt_or_gt_of_ne h
  · exact Nat.ne_of_lt (powerOfTwo_strictMono hlt)
  · exact Nat.ne_of_gt (powerOfTwo_strictMono hlt)

/-- A bucket other than the last holds the latencies up to its upper bound. -/
theorem latencySlot_le_iff {i : Fin 20} (hi : i.val < 19) (us : UInt64) :
    latencySlot us ≤ i ↔ us.toNat ≤ powerOfTwo[i] := by
  have hpos := Nat.two_pow_pos (i.val + 1)
  have hslot : latencySlot us ≤ i ↔ us.toNat.log2 < i.val + 1 := by
    rw [Fin.le_def, latencySlot_val]
    omega
  rw [hslot, powerOfTwo_eq]
  by_cases hzero : us.toNat = 0
  · simp [hzero]
  · rw [Nat.log2_lt hzero]
    omega

theorem recordLatencies_concat (us : List UInt64) (u : UInt64) :
    recordLatencies (us ++ [u]) = (recordLatencies us).add (latencySlot u) := by
  rw [recordLatencies, List.foldl_concat]
  rfl

/-- The number of latencies of a slot. -/
def slotCount (us : List UInt64) (i : Fin 20) : Nat := us.countP (latencySlot · = i)

/-- A counter counts modulo `2 ^ 32`. -/
theorem recordLatencies_toNat (us : List UInt64) (i : Fin 20) :
    (recordLatencies us i).toNat = slotCount us i % 2 ^ 32 := by
  induction us using List.reverseRecOn with
  | nil => rfl
  | append_singleton us u ih =>
      rw [recordLatencies_concat, LatencySlots.add, slotCount, List.countP_append,
        List.countP_singleton]
      by_cases h : latencySlot u = i
      · subst h
        rw [Function.update_self, UInt32.toNat_add, ih, slotCount]
        simp
      · rw [Function.update_of_ne (Ne.symm h), ih, slotCount]
        simp [h]

/-- Every latency is counted in one slot. -/
theorem sum_slotCount (us : List UInt64) (i : Fin 20) :
    ∑ j ∈ Finset.Iic i, slotCount us j = us.countP (latencySlot · ≤ i) := by
  induction us with
  | nil => simp [slotCount]
  | cons u us ih =>
      have hone (j : Fin 20) :
          slotCount (u :: us) j = slotCount us j + if latencySlot u = j then 1 else 0 := by
        simp [slotCount, List.countP_cons]
      simp only [hone]
      rw [Finset.sum_add_distrib, ih, Finset.sum_ite_eq, List.countP_cons]
      simp

/-! ## Buckets -/

/-- The loop over a list of slots in ascending order. -/
theorem foldl_addSlot (slots : LatencySlots) {is : List (Fin 20)} (hsorted : is.Pairwise (· < ·))
    (h : Histogram) :
    let h' := is.foldl (Histogram.addSlot slots) h
    h'.sampleCount = h.sampleCount + (is.map fun j => (slots j).toUInt64).sum ∧
      (∀ i ∈ is, h'.buckets powerOfTwo[i] =
        some (h.sampleCount + ((is.filter (· ≤ i)).map fun j => (slots j).toUInt64).sum)) ∧
      ∀ b, (∀ i ∈ is, b ≠ powerOfTwo[i]) → h'.buckets b = h.buckets b := by
  induction is generalizing h with
  | nil => simp
  | cons x is ih =>
      obtain ⟨hx, hrest⟩ := List.pairwise_cons.mp hsorted
      obtain ⟨hcount, hbuckets, hother⟩ := ih hrest (h.addSlot slots x)
      refine ⟨?_, ?_, ?_⟩
      · rw [List.foldl_cons, hcount, List.map_cons, List.sum_cons, ← UInt64.add_assoc]
        rfl
      · intro i hi
        obtain rfl | hmem := List.mem_cons.mp hi
        · have hfilter : (i :: is).filter (· ≤ i) = [i] := by
            rw [List.filter_cons_of_pos (by simp), List.filter_eq_nil_iff.mpr]
            intro j hj
            simpa using hx j hj
          have hkept := hother powerOfTwo[i] fun j hj => powerOfTwo_ne (hx j hj).ne
          rw [List.foldl_cons, hkept, hfilter]
          simp [Histogram.addSlot]
        · have hle : x ≤ i := (hx i hmem).le
          rw [List.foldl_cons, hbuckets i hmem, List.filter_cons_of_pos (by simpa using hle),
            List.map_cons, List.sum_cons, ← UInt64.add_assoc]
          rfl
      · intro b hb
        rw [List.foldl_cons, hother b fun i hi => hb i (List.mem_cons_of_mem x hi)]
        exact Function.update_of_ne (hb x List.mem_cons_self) _ _

/-- Twenty counters of 32 bits do not overflow 64 bits. -/
theorem toNat_sum_slots (slots : LatencySlots) {is : List (Fin 20)} (hlen : is.length ≤ 20) :
    (is.map fun j => (slots j).toUInt64).sum.toNat = (is.map fun j => (slots j).toNat).sum := by
  have key : ∀ is : List (Fin 20), is.length ≤ 20 →
      (is.map fun j => (slots j).toUInt64).sum.toNat = (is.map fun j => (slots j).toNat).sum ∧
        (is.map fun j => (slots j).toNat).sum ≤ is.length * 2 ^ 32 := by
    intro is
    induction is with
    | nil => simp
    | cons j is ih =>
        intro hlen
        rw [List.length_cons] at hlen
        obtain ⟨hsum, hle⟩ := ih (by omega)
        have hj := (slots j).toNat_lt
        simp only [List.map_cons, List.sum_cons, List.length_cons]
        rw [UInt64.toNat_add, UInt32.toNat_toUInt64, hsum]
        omega
  exact (key is hlen).1

theorem sum_filter_finRange (i : Fin 20) (f : Fin 20 → Nat) :
    (((List.finRange 20).filter (· ≤ i)).map f).sum = ∑ j ∈ Finset.Iic i, f j := by
  rw [← List.sum_toFinset _ ((List.nodup_finRange 20).filter _)]
  apply Finset.sum_congr
  · ext j
    simp
  · intro j _
    rfl

/-- A bucket counts its own slot and the slots below it. -/
theorem latencyHistogram_bucket (latencyBuckets : Nat → Option UInt64) (slots : LatencySlots)
    (i : Fin 20) : ∃ count,
      (latencyHistogram latencyBuckets slots).buckets powerOfTwo[i] = some count ∧
        count.toNat = ∑ j ∈ Finset.Iic i, (slots j).toNat := by
  obtain ⟨-, hbuckets, -⟩ :=
    foldl_addSlot slots (List.pairwise_lt_finRange 20) ⟨0, latencyBuckets⟩
  refine ⟨_, hbuckets i (List.mem_finRange i), ?_⟩
  rw [UInt64.zero_add, toNat_sum_slots, sum_filter_finRange]
  exact (List.length_filter_le _ _).trans (by simp)

theorem latencyHistogram_sampleCount (latencyBuckets : Nat → Option UInt64)
    (slots : LatencySlots) :
    (latencyHistogram latencyBuckets slots).sampleCount.toNat = ∑ j, (slots j).toNat := by
  obtain ⟨hcount, -, -⟩ :=
    foldl_addSlot slots (List.pairwise_lt_finRange 20) ⟨0, latencyBuckets⟩
  rw [latencyHistogram, hcount, UInt64.zero_add, toNat_sum_slots _ (by simp),
    ← List.ofFn_eq_map, List.sum_ofFn]

/-- Nothing is left of earlier counts. -/
theorem latencyHistogram_congr {latencyBuckets latencyBuckets' : Nat → Option UInt64}
    (h : ∀ b, (∀ i : Fin 20, b ≠ powerOfTwo[i]) → latencyBuckets b = latencyBuckets' b)
    (slots : LatencySlots) :
    latencyHistogram latencyBuckets slots = latencyHistogram latencyBuckets' slots := by
  obtain ⟨hcount, hbuckets, hother⟩ :=
    foldl_addSlot slots (List.pairwise_lt_finRange 20) ⟨0, latencyBuckets⟩
  obtain ⟨hcount', hbuckets', hother'⟩ :=
    foldl_addSlot slots (List.pairwise_lt_finRange 20) ⟨0, latencyBuckets'⟩
  rw [latencyHistogram, latencyHistogram, Histogram.mk.injEq]
  refine ⟨hcount.trans hcount'.symm, funext fun b => ?_⟩
  by_cases hb : ∃ i : Fin 20, b = powerOfTwo[i]
  · obtain ⟨i, rfl⟩ := hb
    exact (hbuckets i (List.mem_finRange i)).trans (hbuckets' i (List.mem_finRange i)).symm
  · have hb' : ∀ i ∈ List.finRange 20, b ≠ powerOfTwo[i] := fun i _ heq => hb ⟨i, heq⟩
    rw [hother b hb', hother' b hb']
    exact h b fun i heq => hb ⟨i, heq⟩

/-! ## Agreement -/

/-- No counter of a slot has wrapped around. -/
def SlotsFit (us : List UInt64) : Prop := ∀ i, slotCount us i < 2 ^ 32

instance (us : List UInt64) : Decidable (SlotsFit us) :=
  decidable_of_iff ((List.finRange 20).all (fun i => slotCount us i < 2 ^ 32) = true)
    (by simp [SlotsFit])

theorem SlotsFit.recordLatencies {us : List UInt64} (h : SlotsFit us) (i : Fin 20) :
    (recordLatencies us i).toNat = slotCount us i := by
  rw [recordLatencies_toNat, Nat.mod_eq_of_lt (h i)]

/-- Every bucket holds the latencies up to its upper bound, and the samples are all
latencies. -/
structure Histogram.Exact (h : Histogram) (us : List UInt64) : Prop where
  bucket : ∀ b count, h.buckets b = some count →
    count.toNat = us.countP fun u => u.toNat ≤ b
  mono : ∀ b b' count count', b ≤ b' → h.buckets b = some count → h.buckets b' = some count' →
    count ≤ count'
  sampleCount : h.sampleCount.toNat = us.length

/-- What the histogram says of the latencies. The last bucket also holds those above its
upper bound. -/
structure Histogram.Describes (h : Histogram) (us : List UInt64) : Prop where
  /-- The buckets are those of the table. -/
  bounds : ∀ b, (h.buckets b).isSome = true ↔ ∃ i : Fin 20, b = powerOfTwo[i]
  mono : ∀ b b' count count', b ≤ b' → h.buckets b = some count → h.buckets b' = some count' →
    count ≤ count'
  bucket : SlotsFit us → ∀ b count, b < 1048575 → h.buckets b = some count →
    count.toNat = us.countP fun u => u.toNat ≤ b
  last : SlotsFit us → ∀ count, h.buckets 1048575 = some count → count.toNat = us.length
  sampleCount : SlotsFit us → h.sampleCount.toNat = us.length

/-- The buckets of the table, in a map that has no others. -/
def OnTable (latencyBuckets : Nat → Option UInt64) : Prop :=
  ∀ b, (latencyBuckets b).isSome = true → ∃ i : Fin 20, b = powerOfTwo[i]

theorem SlotsFit.sum_recordLatencies {us : List UInt64} (h : SlotsFit us) (i : Fin 20) :
    ∑ j ∈ Finset.Iic i, (XMonitor.recordLatencies us j).toNat =
      us.countP (latencySlot · ≤ i) := by
  rw [← sum_slotCount]
  exact Finset.sum_congr rfl fun j _ => h.recordLatencies j

theorem countP_latencySlot_last (us : List UInt64) :
    us.countP (latencySlot · ≤ Fin.last 19) = us.length := by
  rw [List.countP_eq_length]
  intro u _
  simpa using Fin.le_last (latencySlot u)

theorem isSome_bucket_iff {latencyBuckets : Nat → Option UInt64} (htable : OnTable latencyBuckets)
    (slots : LatencySlots) (b : Nat) :
    ((latencyHistogram latencyBuckets slots).buckets b).isSome = true ↔
      ∃ i : Fin 20, b = powerOfTwo[i] := by
  obtain ⟨-, -, hother⟩ :=
    foldl_addSlot slots (List.pairwise_lt_finRange 20) ⟨0, latencyBuckets⟩
  constructor
  · intro hsome
    by_contra hb
    have hkept := hother b fun i _ heq => hb ⟨i, heq⟩
    rw [latencyHistogram, hkept] at hsome
    exact hb (htable b hsome)
  · rintro ⟨i, rfl⟩
    obtain ⟨count, hcount, -⟩ := latencyHistogram_bucket latencyBuckets slots i
    rw [hcount]
    rfl

/-- A count is that of a bucket of the table. -/
theorem exists_of_bucket {latencyBuckets : Nat → Option UInt64} (htable : OnTable latencyBuckets)
    {slots : LatencySlots} {b : Nat} {count : UInt64}
    (hcount : (latencyHistogram latencyBuckets slots).buckets b = some count) :
    ∃ i : Fin 20, b = powerOfTwo[i] ∧
      count.toNat = ∑ j ∈ Finset.Iic i, (slots j).toNat := by
  obtain ⟨i, rfl⟩ := (isSome_bucket_iff htable slots b).mp (by rw [hcount]; rfl)
  obtain ⟨count', hcount', hsum⟩ := latencyHistogram_bucket latencyBuckets slots i
  rw [hcount] at hcount'
  obtain rfl := Option.some.inj hcount'
  exact ⟨i, rfl, hsum⟩

/-- The counts grow with the bounds, also where a counter has wrapped around. -/
theorem latencyHistogram_mono {latencyBuckets : Nat → Option UInt64}
    (htable : OnTable latencyBuckets) {slots : LatencySlots} {b b' : Nat} {count count' : UInt64}
    (hle : b ≤ b') (hcount : (latencyHistogram latencyBuckets slots).buckets b = some count)
    (hcount' : (latencyHistogram latencyBuckets slots).buckets b' = some count') :
    count ≤ count' := by
  obtain ⟨i, rfl, hsum⟩ := exists_of_bucket htable hcount
  obtain ⟨j, rfl, hsum'⟩ := exists_of_bucket htable hcount'
  have hij : i ≤ j := by
    apply le_of_not_gt
    intro hlt
    have := powerOfTwo_strictMono hlt
    omega
  rw [UInt64.le_iff_toNat_le, hsum, hsum']
  exact Finset.sum_le_sum_of_subset (Finset.Iic_subset_Iic.mpr hij)

theorem latencyHistogram_describes {latencyBuckets : Nat → Option UInt64}
    (htable : OnTable latencyBuckets) (us : List UInt64) :
    (latencyHistogram latencyBuckets (recordLatencies us)).Describes us := by
  refine ⟨isSome_bucket_iff htable _, fun _ _ _ _ => latencyHistogram_mono htable, ?_, ?_, ?_⟩
  · intro hfit b count hb hcount
    obtain ⟨i, rfl, hsum⟩ := exists_of_bucket htable hcount
    have hi : i.val < 19 := by
      apply Nat.lt_of_not_le
      intro hle
      obtain rfl : i = Fin.last 19 := Fin.ext (by rw [Fin.val_last]; omega)
      exact absurd hb (by decide)
    rw [hsum, hfit.sum_recordLatencies]
    simp only [latencySlot_le_iff hi]
  · intro hfit count hcount
    obtain ⟨i, hi, hsum⟩ := exists_of_bucket htable hcount
    obtain rfl : i = Fin.last 19 := by
      by_contra hne
      exact powerOfTwo_ne hne hi.symm
    rw [hsum, hfit.sum_recordLatencies, countP_latencySlot_last]
  · intro hfit
    have huniv : Finset.Iic (Fin.last 19) = Finset.univ := by
      ext j
      simpa using Fin.le_last j
    rw [latencyHistogram_sampleCount, ← huniv, hfit.sum_recordLatencies, countP_latencySlot_last]

/-- The counts are exact as long as no latency is above the last bucket. -/
theorem Histogram.Describes.exact_iff {h : Histogram} {us : List UInt64} (hd : h.Describes us)
    (hfit : SlotsFit us) : h.Exact us ↔ ∀ u ∈ us, u.toNat ≤ 1048575 := by
  obtain ⟨count, hcount⟩ := Option.isSome_iff_exists.mp
    ((hd.bounds 1048575).mpr ⟨Fin.last 19, rfl⟩)
  have hlast := hd.last hfit count hcount
  constructor
  · intro hexact
    have hle := hexact.bucket _ _ hcount
    rw [hlast, eq_comm, List.countP_eq_length] at hle
    simpa using hle
  · intro hsmall
    refine ⟨?_, hd.mono, hd.sampleCount hfit⟩
    intro b count' hcount'
    by_cases hb : b < 1048575
    · exact hd.bucket hfit b count' hb hcount'
    · obtain ⟨i, rfl⟩ := (hd.bounds b).mp (by rw [hcount']; rfl)
      have hi : i = Fin.last 19 := by
        by_contra hne
        exact hb (powerOfTwo_strictMono (Fin.lt_last_iff_ne_last.mpr hne))
      subst hi
      have heq : count' = count := Option.some.inj (hcount'.symm.trans hcount)
      rw [heq, hlast, eq_comm, List.countP_eq_length]
      intro u hu
      exact decide_eq_true (hsmall u hu)

end XMonitor
