import Mathlib.Algebra.Order.Ring.Nat
import Mathlib.Data.List.Basic

/-!
# Heartbeats

`heartbeat_next` sleeps until the monotonic clock is in the next tick, and returns the time since
the heartbeat before on the realtime clock, which may be set while a program runs. A heartbeat is
modelled with the readings of both clocks that a call takes, in their order.
-/

namespace XMonitor.Clocks

/-- `struct heartbeat`, also as a reading of both clocks, in microseconds. -/
structure Heartbeat where
  monotonic : UInt64
  realtime : UInt64
deriving DecidableEq

/-- `heartbeat_init` -/
def heartbeatInit : Heartbeat := ⟨0, 0⟩

/-- What a call of `heartbeat_next` does: the readings it takes, the last of them, which it keeps,
and the time it returns. -/
structure Beat where
  readings : List Heartbeat
  now : Heartbeat
  dt : UInt64

/-- The readings up to the first one that is not before `next`, and those behind it. -/
def sleepUntil (next : UInt64) :
    List Heartbeat → Option (List Heartbeat × Heartbeat × List Heartbeat)
  | [] => none
  | now :: rest =>
      if now.monotonic < next then (sleepUntil next rest).map fun r => (now :: r.1, r.2)
      else some ([now], now, rest)

/-- `heartbeat_next`, with the readings that the clocks give from now on. The call has not
returned when they end. -/
def heartbeatNext (tick : UInt64) (hb : Heartbeat) : List Heartbeat → Option (Beat × List Heartbeat)
  | [] => none
  | first :: rest =>
      let nextMonotonic := first.monotonic - first.monotonic % tick + tick
      (sleepUntil nextMonotonic (first :: rest)).map fun r =>
        let now := r.2.1
        let dtRealtime := if hb.realtime ≠ 0 then now.realtime - hb.realtime else 0
        (⟨r.1, now, dtRealtime⟩, r.2.2)

/-- Some calls on one heartbeat, as far as there are readings for them. -/
def heartbeats (tick : UInt64) : Nat → Heartbeat → List Heartbeat → List Beat
  | 0, _, _ => []
  | calls + 1, hb, readings =>
      match heartbeatNext tick hb readings with
      | none => []
      | some (beat, rest) => beat :: heartbeats tick calls beat.now rest

/-- How far the realtime clock is set forwards in total, from one reading on: what it gains more
than the monotonic clock from each reading to the next. -/
def forwardSteps : Heartbeat → List Heartbeat → Nat
  | _, [] => 0
  | a, b :: rest =>
      (b.realtime.toNat + a.monotonic.toNat) - (a.realtime.toNat + b.monotonic.toNat) +
        forwardSteps b rest

/-- A heartbeat comes in another tick than the one before, and its time is the difference of the
realtime clock, with no more than has elapsed and has been added to that clock. -/
structure Successive (tick : UInt64) (hb : Heartbeat) (beat : Beat) : Prop where
  window : hb.monotonic / tick ≠ beat.now.monotonic / tick
  bounded : beat.dt.toNat ≤
    beat.now.monotonic.toNat - hb.monotonic.toNat + forwardSteps hb beat.readings
  exact : hb.realtime ≠ 0 →
    (beat.dt.toNat : Int) = beat.now.realtime.toNat - hb.realtime.toNat

/-- The monotonic clock does not go back. -/
def Monotonic (readings : List Heartbeat) : Prop :=
  readings.Pairwise fun a b => a.monotonic ≤ b.monotonic

instance (readings : List Heartbeat) : Decidable (Monotonic readings) :=
  inferInstanceAs (Decidable (List.Pairwise _ _))

variable {tick next : UInt64} {hb now : Heartbeat} {readings taken rest : List Heartbeat}
variable {beat : Beat}

theorem sleepUntil_spec (h : sleepUntil next readings = some (taken, now, rest)) :
    readings = taken ++ rest ∧ taken.getLast? = some now ∧ next ≤ now.monotonic := by
  induction readings generalizing taken with
  | nil => cases h
  | cons first readings ih =>
      rw [sleepUntil] at h
      split at h
      · obtain ⟨⟨more, last⟩, hmore, heq⟩ := Option.map_eq_some_iff.mp h
        obtain ⟨rfl, rfl⟩ := Prod.mk.inj heq
        obtain ⟨hreadings, hlast, hnext⟩ := ih hmore
        refine ⟨congrArg (first :: ·) hreadings, ?_, hnext⟩
        rw [List.getLast?_cons, hlast]
        rfl
      · rename_i hnot
        cases h
        exact ⟨rfl, rfl, UInt64.not_lt.mp hnot⟩

/-- What the realtime clock gains is what has elapsed, and the steps. -/
theorem realtime_le_forwardSteps (taken : List Heartbeat) (hb : Heartbeat)
    (hlast : (hb :: taken).getLast? = some now) :
    now.realtime.toNat + hb.monotonic.toNat ≤
      hb.realtime.toNat + now.monotonic.toNat + forwardSteps hb taken := by
  induction taken generalizing hb with
  | nil =>
      obtain rfl : hb = now := Option.some.inj hlast
      exact Nat.le_add_right _ _
  | cons first taken ih =>
      rw [List.getLast?_cons_cons] at hlast
      have hrest := ih first hlast
      rw [forwardSteps]
      omega

/-- The start of the next tick is behind the first reading. -/
theorem div_lt_div_of_next_le {m : UInt64} (htick : 0 < tick)
    (hroom : m.toNat + tick.toNat < 2 ^ 64) (hnext : m - m % tick + tick ≤ now.monotonic) :
    m.toNat / tick.toNat < now.monotonic.toNat / tick.toNat := by
  have hpos : 0 < tick.toNat := htick
  have hmod : (m % tick).toNat ≤ m.toNat := by
    rw [UInt64.toNat_mod]
    exact Nat.mod_le _ _
  have hsub : (m - m % tick).toNat = m.toNat - m.toNat % tick.toNat := by
    rw [UInt64.toNat_sub_of_le _ _ (UInt64.le_iff_toNat_le.mpr hmod), UInt64.toNat_mod]
  have hadd : (m - m % tick + tick).toNat = m.toNat - m.toNat % tick.toNat + tick.toNat := by
    rw [UInt64.toNat_add, hsub]
    exact Nat.mod_eq_of_lt (by omega)
  have hle : m.toNat - m.toNat % tick.toNat + tick.toNat ≤ now.monotonic.toNat := by
    rw [← hadd]
    exact UInt64.le_iff_toNat_le.mp hnext
  have hmul := Nat.div_add_mod m.toNat tick.toNat
  have hstart : (m.toNat / tick.toNat + 1) * tick.toNat ≤ now.monotonic.toNat := by
    rw [Nat.add_mul, Nat.one_mul, Nat.mul_comm]
    omega
  exact (Nat.le_div_iff_mul_le hpos).mpr hstart

/-- What one call does. -/
theorem heartbeatNext_spec (htick : 0 < tick) (hmono : Monotonic (hb :: readings))
    (hroom : ∀ reading ∈ readings, reading.monotonic.toNat + tick.toNat < 2 ^ 64)
    (h : heartbeatNext tick hb readings = some (beat, rest)) :
    readings = beat.readings ++ rest ∧ beat.readings.getLast? = some beat.now ∧
      hb.monotonic / tick ≠ beat.now.monotonic / tick ∧
      beat.dt = if hb.realtime ≠ 0 then beat.now.realtime - hb.realtime else 0 := by
  cases readings with
  | nil => cases h
  | cons first readings =>
      obtain ⟨⟨taken, now, behind⟩, hsleep, heq⟩ := Option.map_eq_some_iff.mp h
      obtain ⟨rfl, rfl⟩ := Prod.mk.inj heq
      obtain ⟨hreadings, hlast, hnext⟩ := sleepUntil_spec hsleep
      refine ⟨hreadings, hlast, fun hsame => ?_, rfl⟩
      have hfirst : hb.monotonic ≤ first.monotonic :=
        (List.pairwise_cons.mp hmono).1 first List.mem_cons_self
      have hlt := div_lt_div_of_next_le htick (hroom first List.mem_cons_self) hnext
      have hle : hb.monotonic.toNat / tick.toNat ≤ first.monotonic.toNat / tick.toNat :=
        Nat.div_le_div_right (UInt64.le_iff_toNat_le.mp hfirst)
      have hwindow : hb.monotonic / tick = now.monotonic / tick := hsame
      have hdiv := congrArg UInt64.toNat hwindow
      rw [UInt64.toNat_div, UInt64.toNat_div] at hdiv
      omega

/-- A heartbeat is right exactly if the realtime clock is not behind the last one. -/
theorem successive_iff (htick : 0 < tick) (hmono : Monotonic (hb :: readings))
    (hroom : ∀ reading ∈ readings, reading.monotonic.toNat + tick.toNat < 2 ^ 64)
    (h : heartbeatNext tick hb readings = some (beat, rest)) :
    Successive tick hb beat ↔ hb.realtime ≤ beat.now.realtime := by
  obtain ⟨hreadings, hlast, hwindow, hdt⟩ := heartbeatNext_spec htick hmono hroom h
  constructor
  · rintro ⟨-, -, hexact⟩
    by_cases hzero : hb.realtime = 0
    · rw [hzero]
      exact UInt64.zero_le
    · have hdiff := hexact hzero
      rw [UInt64.le_iff_toNat_le]
      omega
  · intro hle
    have hdiff : hb.realtime ≠ 0 → beat.dt.toNat = beat.now.realtime.toNat - hb.realtime.toNat := by
      intro hzero
      rw [hdt, if_pos hzero, UInt64.toNat_sub_of_le _ _ hle]
    have hleNat := UInt64.le_iff_toNat_le.mp hle
    have hend : (hb :: beat.readings).getLast? = some beat.now := by
      rw [List.getLast?_cons, hlast]
      rfl
    have hsteps := realtime_le_forwardSteps beat.readings hb hend
    refine ⟨hwindow, ?_, fun hzero => ?_⟩
    · by_cases hzero : hb.realtime = 0
      · rw [hdt, if_neg (not_not_intro hzero)]
        exact Nat.zero_le _
      · rw [hdiff hzero]
        omega
    · rw [hdiff hzero]
      omega

theorem monotonic_rest (htick : 0 < tick) (hmono : Monotonic (hb :: readings))
    (hroom : ∀ reading ∈ readings, reading.monotonic.toNat + tick.toNat < 2 ^ 64)
    (h : heartbeatNext tick hb readings = some (beat, rest)) : Monotonic (beat.now :: rest) := by
  obtain ⟨hreadings, hlast, -, -⟩ := heartbeatNext_spec htick hmono hroom h
  obtain ⟨before, hbefore⟩ := List.getLast?_eq_some_iff.mp hlast
  rw [hreadings, hbefore, List.append_assoc] at hmono
  exact hmono.sublist ((List.sublist_append_right before _).cons _)

/-- Every heartbeat after another one is right exactly if the realtime clock is never behind the
heartbeat before. -/
theorem isChain_cons_iff (htick : 0 < tick) (calls : Nat) (last : Beat)
    (hmono : Monotonic (last.now :: readings))
    (hroom : ∀ reading ∈ readings, reading.monotonic.toNat + tick.toNat < 2 ^ 64) :
    (last :: heartbeats tick calls last.now readings).IsChain
        (fun b b' => Successive tick b.now b') ↔
      (last :: heartbeats tick calls last.now readings).IsChain
        fun b b' => b.now.realtime ≤ b'.now.realtime := by
  induction calls generalizing last readings with
  | zero => exact iff_of_true (.singleton _) (.singleton _)
  | succ calls ih =>
      rw [heartbeats]
      cases hnext : heartbeatNext tick last.now readings with
      | none => exact iff_of_true (.singleton _) (.singleton _)
      | some result =>
          obtain ⟨beat, rest⟩ := result
          have hreadings := (heartbeatNext_spec htick hmono hroom hnext).1
          have hrest := monotonic_rest htick hmono hroom hnext
          have hmore : ∀ reading ∈ rest, reading.monotonic.toNat + tick.toNat < 2 ^ 64 := by
            intro reading hreading
            apply hroom
            rw [hreadings]
            exact List.mem_append_right _ hreading
          rw [List.isChain_cons_cons, List.isChain_cons_cons,
            successive_iff htick hmono hroom hnext]
          exact and_congr_right fun _ => ih beat hrest hmore

/-- In every run, each heartbeat comes in another tick than the one before and reports a time that
has elapsed, exactly if the realtime clock is never behind the heartbeat before. -/
theorem successive_heartbeats_iff (htick : 0 < tick) (hmono : Monotonic readings)
    (hroom : ∀ reading ∈ readings, reading.monotonic.toNat + tick.toNat < 2 ^ 64) (calls : Nat) :
    (heartbeats tick calls heartbeatInit readings).IsChain
        (fun b b' => Successive tick b.now b') ↔
      (heartbeats tick calls heartbeatInit readings).IsChain
        fun b b' => b.now.realtime ≤ b'.now.realtime := by
  have hinit : Monotonic (heartbeatInit :: readings) :=
    List.pairwise_cons.mpr ⟨fun _ _ => UInt64.zero_le, hmono⟩
  cases calls with
  | zero => exact iff_of_true .nil .nil
  | succ calls =>
      rw [heartbeats]
      cases hnext : heartbeatNext tick heartbeatInit readings with
      | none => exact iff_of_true .nil .nil
      | some result =>
          obtain ⟨beat, rest⟩ := result
          have hreadings := (heartbeatNext_spec htick hinit hroom hnext).1
          have hmore := monotonic_rest htick hinit hroom hnext
          refine isChain_cons_iff htick calls beat hmore fun reading hreading => ?_
          apply hroom
          rw [hreadings]
          exact List.mem_append_right _ hreading

/-- The clocks of three calls, with a realtime clock that is set forwards. -/
def setForwards : List Heartbeat :=
  [⟨5, 100⟩, ⟨10, 105⟩, ⟨12, 107⟩, ⟨20, 130⟩, ⟨21, 131⟩, ⟨31, 141⟩]

theorem setForwards_successive :
    (heartbeats 10 3 heartbeatInit setForwards).IsChain fun b b' => Successive 10 b.now b' :=
  (successive_heartbeats_iff (by decide) (by decide) (by decide) 3).mpr (by decide)

/-- A realtime clock that is set back between two calls. -/
def setBack : List Heartbeat := [⟨10, 100⟩, ⟨20, 90⟩, ⟨25, 95⟩, ⟨30, 60⟩]

/-- The second call returns almost `2 ^ 64`. -/
theorem set_back_wraps : ¬ ∀ tick readings calls, 0 < tick → Monotonic readings →
    (∀ reading ∈ readings, reading.monotonic.toNat + tick.toNat < 2 ^ 64) →
    (heartbeats tick calls heartbeatInit readings).IsChain
      fun b b' => Successive tick b.now b' := by
  intro h
  have hchain := h 10 setBack 2 (by decide) (by decide) (by decide)
  have hbeats : heartbeats 10 2 heartbeatInit setBack =
      [⟨[⟨10, 100⟩, ⟨20, 90⟩], ⟨20, 90⟩, 0⟩, ⟨[⟨25, 95⟩, ⟨30, 60⟩], ⟨30, 60⟩, 60 - 90⟩] := rfl
  rw [hbeats, List.isChain_cons_cons] at hchain
  have hexact := hchain.1.exact (by decide)
  exact absurd hexact (by decide)

end XMonitor.Clocks
