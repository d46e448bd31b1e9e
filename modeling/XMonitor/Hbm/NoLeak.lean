import XMonitor.Hbm.Machine

/-!
# The budget under concurrency

A packet that is dropped takes its delay back some time after it has advanced the
budget. In between other packets may advance the budget too, or clip it to the clock.
Clipping only raises the budget, so what is taken back is never more than what was
added, as long as no 64-bit number overflows.

The last part shows that nothing overflows while the clock is below `2 ^ 62` and there
are at most `2 ^ 13` processors.
-/

namespace XMonitor.Hbm

open EventRun Machine

variable {Cpu : Type} [DecidableEq Cpu] {s s' : Machine Cpu} {e : Event Cpu}

/-- Nothing overflows when a processor enters the critical section. -/
def Machine.NoOverflow (s : Machine Cpu) : Event Cpu → Prop
  | .arrive _ _ => True
  | .advance cpu => ∀ p, s.phase cpu = .ready p → Fits s.hei p.nowNs p.skbLen

/-- The delay that a processor is going to take back. -/
def backlog : Phase → Nat
  | .entered p a => if Drops p a then a.delayNs.toNat else 0
  | _ => 0

/-- The delay of a packet that is kept for good. -/
def keptOf (p : Packet) (a : Admission) : Nat := if Drops p a then 0 else a.delayNs.toNat

theorem kept_enter (s : Machine Cpu) (cpu : Cpu) (p : Packet) :
    (s.enter cpu p).kept =
      s.kept + keptOf p (criticalSection s.hei p.nowNs p.skbLen).2 := by
  rw [enter, keptOf]
  split
  · exact (Nat.add_zero _).symm
  · rfl

theorem keptOf_add_backlog (p : Packet) (a : Admission) :
    keptOf p a + backlog (.entered p a) = a.delayNs.toNat := by
  rw [keptOf, backlog]
  split
  · exact Nat.zero_add _
  · exact Nat.add_zero _

variable [Fintype Cpu]

/-- The budget covers what has been kept and what is going to be taken back. -/
def Covered (base : Nat) (s : Machine Cpu) : Prop :=
  base + s.kept + Pool.total backlog s.phase ≤ s.hei.lastTime.toNat

/-- A step that neither takes a delay back nor has one to take back. -/
theorem Covered.goto {base : Nat} (h : Covered base s) {cpu : Cpu} {phase : Phase}
    (hphase : s'.phase = Function.update s.phase cpu phase) (hkept : s'.kept = s.kept)
    (hlast : s.hei.lastTime.toNat ≤ s'.hei.lastTime.toNat) (hbefore : backlog (s.phase cpu) = 0)
    (hafter : backlog phase = 0) : Covered base s' := by
  have hupdate := Pool.total_update backlog s.phase cpu phase
  rw [Covered] at h ⊢
  rw [hphase, hkept]
  omega

theorem Covered.transition {base : Nat} (h : Covered base s) (hfit : s.NoOverflow e)
    (hstep : Transition s e s') : Covered base s' := by
  cases hstep with
  | stutter => exact h
  | arrive cpu p hphase =>
      exact h.goto rfl rfl (Nat.le_refl _) (by rw [hphase]; rfl) rfl
  | test cpu p hphase =>
      exact h.goto rfl rfl (Nat.le_refl _) (by rw [hphase]; rfl) rfl
  | lock cpu p branch hphase =>
      exact h.goto rfl rfl (lastTime_lockedInit _ _) (by rw [hphase]; rfl) rfl
  | enter cpu p hphase =>
      have hfits := hfit p hphase
      have hupdate := Pool.total_update backlog s.phase cpu
        (.entered p (criticalSection s.hei p.nowNs p.skbLen).2)
      have hidle : backlog (s.phase cpu) = 0 := by
        rw [hphase]
        rfl
      have hsplit := keptOf_add_backlog p (criticalSection s.hei p.nowNs p.skbLen).2
      have hsend := toNat_sendTime hfits
      have hlast := lastTime_criticalSection hfits
      rw [Covered, kept_enter]
      change _ + Pool.total backlog (Function.update s.phase cpu _) ≤
        (criticalSection s.hei p.nowNs p.skbLen).1.lastTime.toNat
      rw [Covered] at h
      omega
  | decide cpu p a hphase =>
      have hupdate := Pool.total_update backlog s.phase cpu (.decided p a)
      have hpart := Pool.le_total backlog s.phase cpu
      rw [hphase] at hupdate hpart
      change _ + backlog (.entered p a) = _ + 0 at hupdate
      change _ + Pool.total backlog (Function.update s.phase cpu _) ≤
        (if Drops p a then _ else _ : HbmEdtInfo).lastTime.toNat
      rw [Covered] at h
      cases hdrop : Drops p a with
      | true =>
          rw [backlog, hdrop, if_pos rfl] at hupdate hpart
          rw [if_pos rfl, lastTime_rollBack (by omega)]
          change base + s.kept + _ ≤ _
          omega
      | false =>
          rw [backlog, hdrop] at hupdate
          change base + s.kept + _ ≤ s.hei.lastTime.toNat
          change _ + 0 = _ at hupdate
          omega
  | call cpu p a hphase =>
      exact h.goto rfl rfl (Nat.le_refl _) (by rw [hphase]; rfl) rfl
  | add cpu add rest hphase =>
      exact h.goto rfl rfl (Nat.le_refl _) (by rw [hphase]; rfl) rfl
  | leave cpu hphase =>
      exact h.goto rfl rfl (Nat.le_refl _) (by rw [hphase]; rfl) rfl

/-- The machine before any packet. -/
def Machine.start (hei : HbmEdtInfo) (counters : Counters) : Machine Cpu :=
  { hei := hei, counters := counters }

omit [DecidableEq Cpu] in
theorem covered_start (hei : HbmEdtInfo) (counters : Counters) :
    Covered hei.lastTime.toNat (Machine.start hei counters : Machine Cpu) := by
  have hnone : Pool.total backlog (Machine.start hei counters : Machine Cpu).phase = 0 :=
    Pool.total_eq_zero fun _ => rfl
  rw [Covered, hnone]
  exact Nat.le_refl _

/-- No dropped packet is between its two steps. -/
def Settles (s : Machine Cpu) : Prop :=
  ∀ cpu p a, s.phase cpu = .entered p a → Drops p a = false

omit [DecidableEq Cpu] in
theorem Covered.kept_le {base : Nat} (h : Covered base s) (hsettled : Settles s) :
    base + s.kept ≤ s.hei.lastTime.toNat := by
  have hnone : Pool.total backlog s.phase = 0 := by
    apply Pool.total_eq_zero
    intro cpu
    cases hphase : s.phase cpu with
    | entered p a => exact if_neg (by simp [hsettled cpu p a hphase])
    | _ => rfl
  rw [Covered, hnone] at h
  exact h

theorem Covered.foldl {base : Nat} (h : Covered base s) {es : List (Event Cpu)}
    (hfit : AllSteps step Machine.NoOverflow s es) : Covered base (es.foldl step s) := by
  have keep : ∀ (s : Machine Cpu) (e : Event Cpu), Covered base s → s.NoOverflow e →
      Covered base (s.step e) := fun s e h hfit => h.transition hfit (step_transition s e)
  exact foldl_invariant keep h hfit (List.prefix_refl es)

/-- Whenever no dropped packet is between its two steps, the budget is at least its
initial value and the delays of all packets that were kept. -/
theorem kept_le_lastTime (hei : HbmEdtInfo) (counters : Counters) (es : List (Event Cpu))
    (hfit : AllSteps step Machine.NoOverflow (Machine.start hei counters : Machine Cpu) es)
    (hsettled : Settles (es.foldl step (Machine.start hei counters : Machine Cpu))) :
    hei.lastTime.toNat + (es.foldl step (Machine.start hei counters : Machine Cpu)).kept ≤
      (es.foldl step (Machine.start hei counters : Machine Cpu)).hei.lastTime.toNat :=
  ((covered_start hei counters).foldl hfit).kept_le hsettled

theorem kept_le_lastTime_datagram :
    9920 ≤ ((handle (datagram 1000000)).foldl step
      (Machine.start ⟨0, 0, 0⟩ fun _ => 0)).hei.lastTime.toNat := by
  have hfits : ∀ p, ((handle (datagram 1000000)).take 3 |>.foldl step
      (Machine.start ⟨0, 0, 0⟩ fun _ => 0)).phase () = .ready p →
        Fits ⟨700000, 100, 80⟩ p.nowNs p.skbLen := by
    intro p h
    cases h
    decide
  have hkept := kept_le_lastTime ⟨0, 0, 0⟩ (fun _ => 0) (handle (datagram 1000000))
    ⟨trivial, (fun _ h => nomatch h), (fun _ h => nomatch h), hfits, (fun _ h => nomatch h),
      trivial⟩
    (fun _ _ _ h => nomatch h)
  exact hkept

/-- Right after the start of the clock the budget starts below zero. The delay of the
first packet takes it over zero, and the delay is lost. -/
theorem kept_le_lastTime_early :
    ¬∀ (hei : HbmEdtInfo) (counters : Counters) (es : List (Event Unit)),
      Settles (es.foldl step (Machine.start hei counters)) →
      hei.lastTime.toNat + (es.foldl step (Machine.start hei counters)).kept ≤
        (es.foldl step (Machine.start hei counters)).hei.lastTime.toNat := by
  intro h
  let slow : Packet := { datagram 0 with
    hes := some { customRateMbps := 1, stats := true, noLoopback := true } }
  have hkept := h ⟨0, 0, 0⟩ (fun _ => 0) (handle slow) (fun _ _ _ h => nomatch h)
  exact absurd hkept (by decide)

/-! ## When nothing overflows -/

def maxDelayNs : Nat := 2 ^ 46

/-- The packet with which a processor has not yet entered the critical section. -/
def Phase.waiting : Phase → Option Packet
  | .arrived p => some p
  | .locking p _ => some p
  | .ready p => some p
  | _ => none

/-- The clock has passed the burst and is far from its end. -/
def Packet.InTime (p : Packet) : Prop := burstSizeNs ≤ p.nowNs.toNat ∧ p.nowNs.toNat < 2 ^ 62

def ArrivesInTime (_ : Machine Cpu) : Event Cpu → Prop
  | .arrive _ p => p.InTime
  | .advance _ => True

structure Bounded (s : Machine Cpu) : Prop where
  price : s.hei.nsPerByte.toNat ≤ 8000
  inTime : ∀ cpu p, (s.phase cpu).waiting = some p → p.InTime
  backlog_le : ∀ cpu, backlog (s.phase cpu) ≤ maxDelayNs
  lastTime_le : s.hei.lastTime.toNat ≤
    2 ^ 62 + dropThreshNs + maxDelayNs + Pool.total backlog s.phase

theorem delay_le (p : Packet) {hei : HbmEdtInfo} (h : hei.nsPerByte.toNat ≤ 8000) :
    p.skbLen.toNat * hei.nsPerByte.toNat ≤ maxDelayNs := by
  have hlen := p.skb.len.toNat_lt
  have hsegs := toNat_segs p
  have hbytes : p.skbLen.toNat ≤ 2 ^ 33 := by
    rw [toNat_skbLen, Packet.wireBytes]
    omega
  calc p.skbLen.toNat * hei.nsPerByte.toNat ≤ 2 ^ 33 * 8000 := Nat.mul_le_mul hbytes h
    _ ≤ maxDelayNs := by decide

omit [DecidableEq Cpu] in
theorem Bounded.noOverflow (h : Bounded s) (hcard : Fintype.card Cpu ≤ 2 ^ 13)
    (e : Event Cpu) : s.NoOverflow e := by
  cases e with
  | arrive => trivial
  | advance cpu =>
      intro p hphase
      obtain ⟨hburst, hclock⟩ := h.inTime cpu p (by rw [hphase]; rfl)
      have hdelay := delay_le p h.price
      have htotal := Pool.total_le h.backlog_le
      have hcpus : Fintype.card Cpu * maxDelayNs ≤ 2 ^ 13 * maxDelayNs :=
        Nat.mul_le_mul_right _ hcard
      have hlast := h.lastTime_le
      have hmax : maxDelayNs = 2 ^ 46 := rfl
      have hdrop : dropThreshNs = 800000 := rfl
      refine ⟨?_, ?_, ?_⟩ <;> omega

theorem nsPerByte_lockedInit {hei : HbmEdtInfo} (h : hei.nsPerByte.toNat ≤ 8000)
    (nowNs : UInt64) (rateMbps : UInt32) (branch : InitBranch) :
    (lockedInit hei nowNs rateMbps branch).nsPerByte.toNat ≤ 8000 := by
  cases branch with
  | init =>
      rw [lockedInit]
      split
      · change (nsPerByteOf (if (if rateMbps ≠ 0 then rateMbps else 100) ≠ 0 then
          (if rateMbps ≠ 0 then rateMbps else 100) else 1)).toNat ≤ 8000
        refine (nsPerByteOf_spec ?_).2.1
        split
        · assumption
        · decide
      · exact h
  | update =>
      rw [lockedInit]
      split
      case isTrue hnew => exact (nsPerByteOf_spec hnew.1).2.1
      case isFalse => exact h
  | skip => exact h

/-- One processor goes on, and the budget changes with it. -/
theorem Bounded.goto (h : Bounded s) {cpu : Cpu} {phase : Phase}
    (hphase : s'.phase = Function.update s.phase cpu phase)
    (hprice : s'.hei.nsPerByte.toNat ≤ 8000) (hwait : ∀ p, phase.waiting = some p → p.InTime)
    (hback : backlog phase ≤ maxDelayNs)
    (hlast : s'.hei.lastTime.toNat + backlog (s.phase cpu) ≤
      2 ^ 62 + dropThreshNs + maxDelayNs + Pool.total backlog s.phase + backlog phase) :
    Bounded s' := by
  refine ⟨hprice, fun cpu' p hp => ?_, fun cpu' => ?_, ?_⟩
  · rw [hphase] at hp
    by_cases heq : cpu' = cpu
    · subst heq
      rw [Function.update_self] at hp
      exact hwait p hp
    · rw [Function.update_of_ne heq] at hp
      exact h.inTime cpu' p hp
  · rw [hphase]
    by_cases heq : cpu' = cpu
    · subst heq
      rw [Function.update_self]
      exact hback
    · rw [Function.update_of_ne heq]
      exact h.backlog_le cpu'
  · have hupdate := Pool.total_update backlog s.phase cpu phase
    rw [hphase]
    omega

theorem Bounded.transition (h : Bounded s) {base : Nat} (hcovered : Covered base s)
    (hfit : s.NoOverflow e) (htime : ArrivesInTime s e) (hstep : Transition s e s') :
    Bounded s' := by
  have hlast := h.lastTime_le
  have hnone : ∀ p, (none : Option Packet) = some p → p.InTime := fun _ h => by cases h
  cases hstep with
  | stutter => exact h
  | arrive cpu p hphase =>
      refine h.goto rfl h.price (fun q hq => ?_) (Nat.zero_le _) ?_
      · cases hq
        exact htime
      · rw [hphase]
        exact hlast
  | test cpu p hphase =>
      refine h.goto rfl h.price (fun q hq => ?_) (Nat.zero_le _) ?_
      · exact h.inTime cpu q (by rw [hphase]; exact hq)
      · rw [hphase]
        exact hlast
  | lock cpu p branch hphase =>
      have hp := h.inTime cpu p (by rw [hphase]; rfl)
      refine h.goto rfl (nsPerByte_lockedInit h.price _ _ _) (fun q hq => ?_) (Nat.zero_le _) ?_
      · cases hq
        exact hp
      · have hset : (lockedInit s.hei p.nowNs p.customRateMbps branch).lastTime.toNat ≤
            max s.hei.lastTime.toNat p.nowNs.toNat := lastTime_lockedInit_le hp.1 _ _
        have hclock := hp.2
        rw [hphase]
        change (lockedInit s.hei p.nowNs p.customRateMbps branch).lastTime.toNat + 0 ≤ _
        omega
  | enter cpu p hphase =>
      have hp := h.inTime cpu p (by rw [hphase]; rfl)
      have hfits := hfit p hphase
      have hdelay := delay_le p h.price
      have hdelayNs := toNat_delayNs hfits
      have hsend := toNat_sendTime hfits
      have hsum := lastTime_criticalSection hfits
      have hsplit := keptOf_add_backlog p (criticalSection s.hei p.nowNs p.skbLen).2
      refine h.goto rfl h.price hnone (by omega) ?_
      rw [hphase]
      change (criticalSection s.hei p.nowNs p.skbLen).1.lastTime.toNat + 0 ≤ _
      have hclock := hp.2
      cases hdrop : Drops p (criticalSection s.hei p.nowNs p.skbLen).2 with
      | true =>
          rw [keptOf, hdrop, if_pos rfl] at hsplit
          omega
      | false =>
          have hdelta := delta_criticalSection hfits
          have hnear := delta_le_of_kept hdrop
          omega
  | decide cpu p a hphase =>
      have hpart := Pool.le_total backlog s.phase cpu
      rw [hphase] at hpart
      refine h.goto rfl ?_ hnone (Nat.zero_le _) ?_
      · change (if _ then _ else _ : HbmEdtInfo).nsPerByte.toNat ≤ 8000
        split
        · exact h.price
        · exact h.price
      · rw [hphase]
        change (if Drops p a then _ else _ : HbmEdtInfo).lastTime.toNat + _ ≤ _
        rw [Covered] at hcovered
        cases hdrop : Drops p a with
        | true =>
            rw [backlog, hdrop, if_pos rfl] at hpart
            rw [if_pos rfl, lastTime_rollBack (by omega), backlog, hdrop, if_pos rfl]
            omega
        | false =>
            rw [backlog, hdrop]
            exact hlast
  | call cpu p a hphase =>
      refine h.goto rfl h.price hnone (Nat.zero_le _) ?_
      rw [hphase]
      exact hlast
  | add cpu add rest hphase =>
      refine h.goto rfl h.price hnone (Nat.zero_le _) ?_
      rw [hphase]
      exact hlast
  | leave cpu hphase =>
      refine h.goto rfl h.price hnone (Nat.zero_le _) ?_
      rw [hphase]
      exact hlast

theorem allSteps_noOverflow {base : Nat} (hcard : Fintype.card Cpu ≤ 2 ^ 13)
    {es : List (Event Cpu)} (hcovered : Covered base s) (hbounded : Bounded s)
    (htime : AllSteps step ArrivesInTime s es) :
    AllSteps step Machine.NoOverflow s es := by
  induction es generalizing s with
  | nil => trivial
  | cons e es ih =>
      have hfit := hbounded.noOverflow hcard e
      have hstep := step_transition s e
      exact ⟨hfit, ih (hcovered.transition hfit hstep)
        (hbounded.transition hcovered hfit htime.1 hstep) htime.2⟩

/-- With a clock in its range and few processors the budget of a cgroup never leaks. -/
theorem kept_le_of_inTime (hcard : Fintype.card Cpu ≤ 2 ^ 13) (counters : Counters)
    (es : List (Event Cpu))
    (htime : AllSteps step ArrivesInTime (Machine.start ⟨0, 0, 0⟩ counters : Machine Cpu) es)
    (hsettled : Settles (es.foldl step (Machine.start ⟨0, 0, 0⟩ counters : Machine Cpu))) :
    (es.foldl step (Machine.start ⟨0, 0, 0⟩ counters : Machine Cpu)).kept ≤
      (es.foldl step (Machine.start ⟨0, 0, 0⟩ counters : Machine Cpu)).hei.lastTime.toNat := by
  have hbounded : Bounded (Machine.start ⟨0, 0, 0⟩ counters : Machine Cpu) :=
    ⟨Nat.zero_le _, (fun _ _ h => nomatch h), fun _ => Nat.zero_le _, Nat.zero_le _⟩
  have hcovered : Covered 0 (Machine.start ⟨0, 0, 0⟩ counters : Machine Cpu) :=
    covered_start ⟨0, 0, 0⟩ counters
  have hfit := allSteps_noOverflow hcard hcovered hbounded htime
  have hkept := (hcovered.foldl hfit).kept_le hsettled
  omega

end XMonitor.Hbm
