import XMonitor.Bio.Export
import XMonitor.Bio.Percent

/-!
# What is exported for a device

`bioProgram.Update` goes through the entries of `xm_bio_info_map` in an order that is not
specified, and sends for each of them the counts, two percentages and two histograms. The number
of samples starts from zero for each histogram. The sum of the samples is set to zero once, before
the first.
-/

namespace XMonitor.Bio

open XMonitor Sched Lib

def float64 (x : ℚ) : ℚ := roundTo 53 x

/-- `sampleSum += float64(slot) * bucket`. -/
def addSample (slots : LatencySlots) (sampleSum : ℚ) (i : Fin 20) : ℚ :=
  float64 (sampleSum + float64 ((slots i).toNat * powerOfTwo.get i))

/-- The sum after the loop over the slots. -/
def sumSamples (sampleSum : ℚ) (slots : LatencySlots) : ℚ :=
  (List.finRange 20).foldl (addSample slots) sampleSum

/-- What is sent for an entry. The labels of the metrics come from the key. -/
structure DeviceMetrics extends DeviceHistograms where
  completedCount : Nat
  sequentialRatio : Option UInt32
  randomizedRatio : Option UInt32
  kBytes : Nat
  errorCount : Nat
  inQueueSum : ℚ
  latencySum : ℚ

/-- The loop of `bioProgram.Update` over the entries. -/
def sendMetrics (latencyBuckets : Nat → Option UInt64) (sampleSum : ℚ) :
    List (XmBioKey × XmBioData) → List DeviceMetrics
  | [] => []
  | (key, data) :: entries =>
      let total := data.sequentialCount + data.randomCount
      let inQueue := latencyHistogram latencyBuckets data.reqInQueueLatencySlots
      let inQueueSum := sumSamples sampleSum data.reqInQueueLatencySlots
      let latency := latencyHistogram inQueue.buckets data.reqLatencySlots
      let latencySum := sumSamples inQueueSum data.reqLatencySlots
      { key
        completedCount := doubleOfUInt64 total
        sequentialRatio := ratio data.sequentialCount total
        randomizedRatio := ratio data.randomCount total
        kBytes := doubleOfUInt64 (data.bytes >>> 10)
        errorCount := doubleOfUInt64 data.reqErrCount
        inQueue, inQueueSum, latency, latencySum } ::
          sendMetrics latency.buckets latencySum entries

def updateMetrics (entries : List (XmBioKey × XmBioData)) : List DeviceMetrics :=
  sendMetrics noBuckets 0 entries

/-- The histograms among the metrics. -/
theorem sendMetrics_histograms (latencyBuckets : Nat → Option UInt64) (sampleSum : ℚ)
    (entries : List (XmBioKey × XmBioData)) :
    (sendMetrics latencyBuckets sampleSum entries).map DeviceMetrics.toDeviceHistograms =
      sendHistograms latencyBuckets entries := by
  induction entries generalizing latencyBuckets sampleSum with
  | nil => rfl
  | cons entry entries ih => exact congrArg (_ :: ·) (ih _ _)

/-! ## Sums -/

/-- Each sample counted with the upper bound of its bucket. -/
def slotSum (slots : LatencySlots) (is : List (Fin 20)) : ℕ :=
  (is.map fun i => (slots i).toNat * powerOfTwo.get i).sum

def ownSum (slots : LatencySlots) : ℕ := slotSum slots (List.finRange 20)

theorem slotSum_le (slots : LatencySlots) (is : List (Fin 20)) :
    slotSum slots is ≤ (2 ^ 32 - 1) * (is.map fun i => powerOfTwo.get i).sum := by
  induction is with
  | nil => exact Nat.zero_le _
  | cons i is ih =>
      have hslot : (slots i).toNat ≤ 2 ^ 32 - 1 := Nat.le_pred_of_lt (slots i).toNat_lt
      have hterm := Nat.mul_le_mul_right (powerOfTwo.get i) hslot
      rw [slotSum, List.map_cons, List.sum_cons, List.map_cons, List.sum_cons, Nat.mul_add]
      exact Nat.add_le_add hterm ih

theorem get_powerOfTwo (i : Fin 20) : powerOfTwo.get i = 2 ^ (i.val + 1) - 1 := powerOfTwo_eq i

theorem sum_powerOfTwo : ((List.finRange 20).map fun i : Fin 20 => powerOfTwo.get i).sum =
    2097130 := by
  simp only [get_powerOfTwo]
  rfl

theorem ownSum_lt (slots : LatencySlots) : ownSum slots + 1 < 2 ^ 53 := by
  have h := slotSum_le slots (List.finRange 20)
  rw [sum_powerOfTwo] at h
  calc ownSum slots + 1 ≤ (2 ^ 32 - 1) * 2097130 + 1 := Nat.add_le_add_right h 1
    _ < 2 ^ 53 := by norm_num

/-- A `float64` holds what a histogram sums up to, from a small number on. -/
theorem foldl_addSample_natCast (slots : LatencySlots) (is : List (Fin 20)) {n : ℕ}
    (h : n + slotSum slots is ≤ 2 ^ 53) :
    is.foldl (addSample slots) (n : ℚ) = ((n + slotSum slots is : ℕ) : ℚ) := by
  induction is generalizing n with
  | nil => rfl
  | cons i is ih =>
      have hsum : slotSum slots (i :: is) =
          (slots i).toNat * powerOfTwo.get i + slotSum slots is := by
        rw [slotSum, List.map_cons, List.sum_cons]
        rfl
      have hterm : float64 ((slots i).toNat * powerOfTwo.get i : ℚ) =
          (((slots i).toNat * powerOfTwo.get i : ℕ) : ℚ) := by
        rw [← Nat.cast_mul]
        exact roundTo_natCast (by decide) (by omega)
      have hstep : addSample slots n i = ((n + (slots i).toNat * powerOfTwo.get i : ℕ) : ℚ) := by
        rw [addSample, hterm, ← Nat.cast_add]
        exact roundTo_natCast (by decide) (by omega)
      rw [List.foldl_cons, hstep, ih (by omega), hsum, Nat.add_assoc]

theorem addSample_mono (slots : LatencySlots) (i : Fin 20) {a b : ℚ} (ha : 0 ≤ a) (h : a ≤ b) :
    0 ≤ addSample slots a i ∧ addSample slots a i ≤ addSample slots b i := by
  have hterm : (0 : ℚ) ≤ float64 ((slots i).toNat * powerOfTwo.get i) :=
    roundTo_nonneg (by decide) (by positivity)
  constructor
  · exact roundTo_nonneg (by decide) (add_nonneg ha hterm)
  · exact roundTo_mono (by decide) (add_nonneg ha hterm) (by linarith)

theorem foldl_addSample_mono (slots : LatencySlots) (is : List (Fin 20)) {a b : ℚ} (ha : 0 ≤ a)
    (h : a ≤ b) : is.foldl (addSample slots) a ≤ is.foldl (addSample slots) b := by
  induction is generalizing a b with
  | nil => exact h
  | cons i is ih =>
      obtain ⟨hnonneg, hle⟩ := addSample_mono slots i ha h
      exact ih hnonneg hle

theorem sumSamples_zero (slots : LatencySlots) : sumSamples 0 slots = ownSum slots := by
  have h := foldl_addSample_natCast slots (List.finRange 20) (n := 0)
    (by rw [Nat.zero_add]; exact (Nat.lt_of_succ_lt (ownSum_lt slots)).le)
  rw [Nat.cast_zero, Nat.zero_add] at h
  exact h

/-- What earlier histograms have left is not lost. -/
theorem lt_sumSamples (slots : LatencySlots) {sampleSum : ℚ} (h : 1 ≤ sampleSum) :
    (ownSum slots : ℚ) + 1 ≤ sumSamples sampleSum slots := by
  have hone := foldl_addSample_natCast slots (List.finRange 20) (n := 1)
    (by rw [Nat.add_comm]; exact (ownSum_lt slots).le)
  have hmono := foldl_addSample_mono slots (List.finRange 20) (by norm_num : (0 : ℚ) ≤ 1) h
  rw [Nat.cast_one] at hone
  rw [hone, Nat.cast_add, Nat.cast_one] at hmono
  rw [ownSum, add_comm]
  exact hmono

theorem ownSum_eq_zero_iff (slots : LatencySlots) : ownSum slots = 0 ↔ ∀ i, slots i = 0 := by
  rw [ownSum, slotSum, List.sum_eq_zero_iff]
  constructor
  · intro h i
    have hterm := h _ (List.mem_map_of_mem (List.mem_finRange i))
    have hpos : powerOfTwo.get i ≠ 0 := by
      rw [get_powerOfTwo]
      have := Nat.one_lt_two_pow (Nat.succ_ne_zero i.val)
      omega
    exact UInt32.toNat.inj ((Nat.mul_eq_zero.mp hterm).resolve_right hpos)
  · intro h n hn
    obtain ⟨i, -, rfl⟩ := List.mem_map.mp hn
    rw [h i]
    exact Nat.zero_mul _

/-- The sums of histograms of which each goes on with the sum of the one before. -/
def sums : ℚ → List LatencySlots → List ℚ
  | _, [] => []
  | sampleSum, slots :: rest =>
      let sampleSum := sumSamples sampleSum slots
      sampleSum :: sums sampleSum rest

/-- A sum is right exactly if nothing is left of the histograms before it. -/
theorem sumSamples_eq_iff {sampleSum : ℚ} (h : sampleSum = 0 ∨ 1 ≤ sampleSum)
    (slots : LatencySlots) : sumSamples sampleSum slots = ownSum slots ↔ sampleSum = 0 := by
  constructor
  · intro heq
    obtain h | h := h
    · exact h
    · have hlt := lt_sumSamples slots h
      rw [heq] at hlt
      linarith
  · rintro rfl
    exact sumSamples_zero slots

theorem one_le_sumSamples {sampleSum : ℚ} (h : sampleSum = 0 ∨ 1 ≤ sampleSum)
    (slots : LatencySlots) : sumSamples sampleSum slots = 0 ∨ 1 ≤ sumSamples sampleSum slots := by
  have hown : (0 : ℚ) ≤ ownSum slots := Nat.cast_nonneg _
  obtain rfl | h := h
  · rw [sumSamples_zero]
    obtain hzero | hpos := Nat.eq_zero_or_pos (ownSum slots)
    · exact .inl (by rw [hzero, Nat.cast_zero])
    · exact .inr (by exact_mod_cast hpos)
  · exact .inr (by have := lt_sumSamples slots h; linarith)

theorem sumSamples_eq_zero_iff {sampleSum : ℚ} (h : sampleSum = 0 ∨ 1 ≤ sampleSum)
    (slots : LatencySlots) :
    sumSamples sampleSum slots = 0 ↔ sampleSum = 0 ∧ ∀ i, slots i = 0 := by
  constructor
  · intro hzero
    have hsum : sampleSum = 0 := by
      obtain h | h := h
      · exact h
      · have hlt := lt_sumSamples slots h
        have hown : (0 : ℚ) ≤ ownSum slots := Nat.cast_nonneg _
        linarith
    rw [hsum, sumSamples_zero] at hzero
    exact ⟨hsum, (ownSum_eq_zero_iff slots).mp (by exact_mod_cast hzero)⟩
  · rintro ⟨rfl, hslots⟩
    rw [sumSamples_zero, (ownSum_eq_zero_iff slots).mpr hslots, Nat.cast_zero]

/-- All histograms have their own sums exactly if all but the last are empty. -/
theorem sums_own_iff {sampleSum : ℚ} (h : sampleSum = 0 ∨ 1 ≤ sampleSum)
    (histograms : List LatencySlots) :
    List.Forall₂ (fun slots sum => sum = (ownSum slots : ℚ)) histograms
        (sums sampleSum histograms) ↔
      histograms = [] ∨ sampleSum = 0 ∧ ∀ slots ∈ histograms.dropLast, ∀ i, slots i = 0 := by
  induction histograms generalizing sampleSum with
  | nil => exact iff_of_true .nil (.inl rfl)
  | cons slots rest ih =>
      rw [sums, List.forall₂_cons, sumSamples_eq_iff h, ih (one_le_sumSamples h slots),
        sumSamples_eq_zero_iff h]
      cases rest with
      | nil => simp
      | cons slots' rest =>
          rw [List.dropLast_cons_cons, List.forall_mem_cons]
          simp only [reduceCtorEq, false_or]
          tauto

/-- The histograms of a round in the order in which they are sent. -/
def slotsOf (entries : List (XmBioKey × XmBioData)) : List LatencySlots :=
  entries.flatMap fun entry => [entry.2.reqInQueueLatencySlots, entry.2.reqLatencySlots]

/-- The histograms of an entry have their own sums. -/
def SumsOwn (entry : XmBioKey × XmBioData) (sent : DeviceMetrics) : Prop :=
  sent.inQueueSum = ownSum entry.2.reqInQueueLatencySlots ∧
    sent.latencySum = ownSum entry.2.reqLatencySlots

theorem sendMetrics_sums (latencyBuckets : Nat → Option UInt64) (sampleSum : ℚ)
    (entries : List (XmBioKey × XmBioData)) :
    List.Forall₂ SumsOwn entries (sendMetrics latencyBuckets sampleSum entries) ↔
      List.Forall₂ (fun slots sum => sum = (ownSum slots : ℚ)) (slotsOf entries)
        (sums sampleSum (slotsOf entries)) := by
  induction entries generalizing latencyBuckets sampleSum with
  | nil => exact iff_of_true .nil .nil
  | cons entry entries ih =>
      show _ ↔ List.Forall₂ _ (_ :: _ :: slotsOf entries) (_ :: _ :: sums _ (slotsOf entries))
      rw [sendMetrics, List.forall₂_cons, ih, List.forall₂_cons, List.forall₂_cons, ← and_assoc]
      exact Iff.rfl

/-! ## Entries -/

/-- The percentages of an entry are floors of the exact ones, with a total that is not zero. -/
def RatiosExact (entry : XmBioKey × XmBioData) (sent : DeviceMetrics) : Prop :=
  let sequential := entry.2.sequentialCount.toNat
  let random := entry.2.randomCount.toNat
  entry.2.sequentialCount + entry.2.randomCount ≠ 0 ∧
    sent.sequentialRatio = some (UInt32.ofNat (100 * sequential / (sequential + random))) ∧
    sent.randomizedRatio = some (UInt32.ofNat (100 * random / (sequential + random)))

/-- There have been requests, their number fits the word in which it is computed, and neither
percentage is moved by rounding. -/
def Counted (data : XmBioData) : Prop :=
  let sequential := data.sequentialCount.toNat
  let random := data.randomCount.toNat
  0 < sequential + random ∧ sequential + random < 2 ^ 64 ∧
    RatioKept sequential (sequential + random) ∧ RatioKept random (sequential + random)

/-- A total that does not fit is less than each of the counts. -/
theorem ratio_wrapped {count other : UInt64} (h : 2 ^ 64 ≤ count.toNat + other.toNat)
    (hne : count + other ≠ 0) :
    ratio count (count + other) ≠
      some (UInt32.ofNat (100 * count.toNat / (count.toNat + other.toNat))) := by
  have hcount := count.toNat_lt
  have hother := other.toNat_lt
  have htotal : (count + other).toNat = count.toNat + other.toNat - 2 ^ 64 := by
    rw [UInt64.toNat_add]
    omega
  have hpos : 0 < (count + other).toNat := by
    apply Nat.pos_of_ne_zero
    exact fun hzero => hne (UInt64.toNat.inj hzero)
  have hlt : 100 * count.toNat / (count.toNat + other.toNat) < 100 := by
    rw [Nat.div_lt_iff_lt_mul (by omega)]
    omega
  intro heq
  rw [ratio_eq_iff hne hlt.le] at heq
  have hlarge : 100 ≤ ⌊percent count.toNat (count + other).toNat⌋₊ := by
    rw [Nat.le_floor_iff (percent_nonneg _ _)]
    exact hundred_le_percent hpos (by omega)
  omega

theorem toNat_add_of_fits {a b : UInt64} (h : a.toNat + b.toNat < 2 ^ 64) :
    (a + b).toNat = a.toNat + b.toNat := by
  rw [UInt64.toNat_add, Nat.mod_eq_of_lt h]

theorem total_ne_zero_iff {a b : UInt64} (h : a.toNat + b.toNat < 2 ^ 64) :
    a + b ≠ 0 ↔ 0 < a.toNat + b.toNat := by
  rw [← toNat_add_of_fits h, Nat.pos_iff_ne_zero]
  apply not_congr
  exact UInt64.toNat_inj.symm

/-- One of the two percentages, with the total as a number. -/
theorem ratio_kept_iff {count total : UInt64} {n : ℕ} (htotal : total.toNat = n)
    (hcount : count.toNat ≤ n) (hne : total ≠ 0) :
    ratio count total = some (UInt32.ofNat (100 * count.toNat / n)) ↔
      RatioKept count.toNat n := by
  subst htotal
  apply ratio_exact_iff hne
  exact UInt64.le_iff_toNat_le.mpr hcount

theorem ratiosExact_iff (entry : XmBioKey × XmBioData) {sent : DeviceMetrics}
    (hsequential : sent.sequentialRatio =
      ratio entry.2.sequentialCount (entry.2.sequentialCount + entry.2.randomCount))
    (hrandom : sent.randomizedRatio =
      ratio entry.2.randomCount (entry.2.sequentialCount + entry.2.randomCount)) :
    RatiosExact entry sent ↔ Counted entry.2 := by
  obtain ⟨key, data⟩ := entry
  rw [RatiosExact, Counted]
  show (_ ∧ _ ∧ _) ↔ (_ ∧ _ ∧ _ ∧ _)
  rw [hsequential, hrandom]
  by_cases hfits : data.sequentialCount.toNat + data.randomCount.toNat < 2 ^ 64
  · have htotal := toNat_add_of_fits hfits
    rw [← total_ne_zero_iff hfits]
    apply and_congr_right
    intro hne
    rw [ratio_kept_iff htotal (Nat.le_add_right _ _) hne,
      ratio_kept_iff htotal (Nat.le_add_left _ _) hne, and_iff_right hfits]
  · apply iff_of_false
    · rintro ⟨hne, hs, -⟩
      exact ratio_wrapped (not_lt.mp hfits) hne hs
    · rintro ⟨-, h, -⟩
      exact hfits h

theorem sendMetrics_ratios (latencyBuckets : Nat → Option UInt64) (sampleSum : ℚ)
    (entries : List (XmBioKey × XmBioData)) :
    List.Forall₂ RatiosExact entries (sendMetrics latencyBuckets sampleSum entries) ↔
      ∀ entry ∈ entries, Counted entry.2 := by
  induction entries generalizing latencyBuckets sampleSum with
  | nil => exact iff_of_true .nil fun _ h => absurd h List.not_mem_nil
  | cons entry entries ih =>
      rw [sendMetrics, List.forall₂_cons, ih, List.forall_mem_cons]
      exact and_congr_left fun _ => ratiosExact_iff entry rfl rfl

/-- What is sent for the entries describes them. -/
def MetricsExact (entries : List (XmBioKey × XmBioData)) : Prop :=
  List.Forall₂ SumsOwn entries (updateMetrics entries) ∧
    List.Forall₂ RatiosExact entries (updateMetrics entries)

/-- The sums are right exactly if all histograms but the last are empty, and the percentages
exactly for entries with requests that are counted without rounding a percentage away. -/
theorem metrics_exact_iff (entries : List (XmBioKey × XmBioData)) :
    MetricsExact entries ↔
      (∀ slots ∈ (slotsOf entries).dropLast, ∀ i, slots i = 0) ∧
        ∀ entry ∈ entries, Counted entry.2 := by
  rw [MetricsExact, updateMetrics, sendMetrics_sums, sendMetrics_ratios, sums_own_iff (.inl rfl)]
  refine and_congr_left fun _ => ⟨fun h => ?_, fun h => .inr ⟨rfl, h⟩⟩
  obtain hnil | ⟨-, h⟩ := h
  · rw [hnil]
    exact fun _ hmem => absurd hmem List.not_mem_nil
  · exact h

/-- An entry that was set to zero has a zero total. -/
theorem not_counted_zeroBioInfo : ¬ Counted zeroBioInfo := fun h => absurd h.1 (lt_irrefl _)

/-- A device with one request of the first slot in each histogram, 53 of 100 at random. -/
def busyEntry : XmBioKey × XmBioData :=
  (⟨8, 0, 0⟩, { zeroBioInfo with
    reqInQueueLatencySlots := fun i => if i = 0 then 1 else 0
    reqLatencySlots := fun i => if i = 0 then 1 else 0
    sequentialCount := 47
    randomCount := 53 })

/-- The sum of its first histogram gets into the second, a device without requests has no
percentages, and 53 of 100 are not sent as 53 percent. -/
theorem metrics_not_exact :
    (¬ ∀ entries, List.Forall₂ SumsOwn entries (updateMetrics entries)) ∧
      (¬ ∀ entries, List.Forall₂ RatiosExact entries (updateMetrics entries)) ∧
      ratio 0 0 = none ∧ ratio 53 100 = some 52 := by
  refine ⟨fun h => ?_, fun h => ?_, ?_, ?_⟩
  · have hsums := (sums_own_iff (.inl rfl) _).mp ((sendMetrics_sums _ _ _).mp (h [busyEntry]))
    obtain hnil | ⟨-, hzero⟩ := hsums
    · cases hnil
    · exact absurd (hzero _ List.mem_cons_self 0) (by decide)
  · exact not_counted_zeroBioInfo
      ((sendMetrics_ratios _ _ _).mp (h [(⟨8, 0, 0⟩, zeroBioInfo)]) _ List.mem_cons_self)
  · exact if_pos (.inl rfl)
  · decide +kernel

end XMonitor.Bio
