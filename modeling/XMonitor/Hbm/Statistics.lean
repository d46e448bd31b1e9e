import Mathlib.Algebra.Order.BigOperators.Group.List
import Mathlib.Data.UInt
import XMonitor.Hbm.Machine

/-!
# The statistics of the limiter

Every call of `__xm_hbm_edt_update_stats` adds to the counters of the cgroup, one atomic
addition after another, and the calls of several processors interleave. Between calls
the counters are the sums of what the calls add, and what one call adds is consistent:
a packet is counted under one return value, no packet is both dropped and marked, and a
packet that gets the congestion bit is marked.

The counters have 64 bits. The relations are stated for the sums, and for the counters
as long as the numbers of packets and bytes have not wrapped.
-/

namespace XMonitor.Hbm

open EventRun Machine

/-! ## One call -/

/-- What some additions add to a counter. -/
def amount (c : Counter) (adds : List (Counter × UInt64)) : Nat :=
  (adds.map fun add => if add.1 = c then add.2.toNat else 0).sum

@[simp] theorem amount_nil (c : Counter) : amount c [] = 0 := rfl

@[simp] theorem amount_cons (c : Counter) (add : Counter × UInt64)
    (adds : List (Counter × UInt64)) :
    amount c (add :: adds) = (if add.1 = c then add.2.toNat else 0) + amount c adds := by
  rw [amount, List.map_cons, List.sum_cons]
  rfl

@[simp] theorem amount_append (c : Counter) (adds adds' : List (Counter × UInt64)) :
    amount c (adds ++ adds') = amount c adds + amount c adds' := by
  rw [amount, List.map_append, List.sum_append]
  rfl

@[simp] theorem amount_ite (c : Counter) (b : Prop) [Decidable b]
    (adds adds' : List (Counter × UInt64)) :
    amount c (if b then adds else adds') = if b then amount c adds else amount c adds' :=
  apply_ite (amount c) b adds adds'

/-- The relations between the counters. -/
structure Consistent (t : Counter → Nat) : Prop where
  pkts_total : t .pktsTotal =
    t (.returnValCount 0) + t (.returnValCount 1) + t (.returnValCount 2) +
      t (.returnValCount 3)
  pkts_dropped : t .pktsDropped = t (.returnValCount 0) + t (.returnValCount 2)
  pkts_marked : t .pktsMarked + t .pktsDropped ≤ t .pktsTotal
  pkts_ecn_ce : t .pktsEcnCe ≤ t .pktsMarked
  bytes : t .bytesDropped + t .bytesMarked ≤ t .bytesTotal
  sum_cwnd_cnt : t .sumCwndCnt ≤ t .pktsTotal

theorem Consistent.zero : Consistent fun _ => 0 :=
  ⟨rfl, rfl, Nat.le_refl 0, Nat.le_refl 0, Nat.le_refl 0, Nat.le_refl 0⟩

theorem Consistent.add {t t' : Counter → Nat} (h : Consistent t) (h' : Consistent t') :
    Consistent fun c => t c + t' c := by
  obtain ⟨h1, h2, h3, h4, h5, h6⟩ := h
  obtain ⟨h1', h2', h3', h4', h5', h6'⟩ := h'
  constructor <;> omega

/-- Every counter that is related to another is at most the number of packets or of bytes. So
the relations pass on to counters of 64 bits as long as these two have not wrapped. -/
theorem Consistent.of_toNat {t : Counter → Nat} {counters : Counters} (h : Consistent t)
    (heq : ∀ c, counters c = .ofNat (t c)) (hp : t .pktsTotal < 2 ^ 64)
    (hb : t .bytesTotal < 2 ^ 64) : Consistent fun c => (counters c).toNat := by
  obtain ⟨hpkts, hdropped, hmarked, hecn, hbytes, hcwnd⟩ := h
  have hexact : ∀ c, t c < 2 ^ 64 → (counters c).toNat = t c :=
    fun c hc => by rw [heq, UInt64.toNat_ofNat_of_lt' hc]
  have hpktsTotal := hexact _ hp
  have hbytesTotal := hexact _ hb
  have hret0 := hexact (.returnValCount 0) (by omega)
  have hret1 := hexact (.returnValCount 1) (by omega)
  have hret2 := hexact (.returnValCount 2) (by omega)
  have hret3 := hexact (.returnValCount 3) (by omega)
  have hpktsDropped := hexact .pktsDropped (by omega)
  have hpktsMarked := hexact .pktsMarked (by omega)
  have hpktsEcnCe := hexact .pktsEcnCe (by omega)
  have hbytesDropped := hexact .bytesDropped (by omega)
  have hbytesMarked := hexact .bytesMarked (by omega)
  have hsumCwndCnt := hexact .sumCwndCnt (by omega)
  constructor <;> omega

/-- Which flags can be set together. -/
theorem verdict_flags (p : Packet) (delta : Int) :
    ((p.verdict delta).dropFlag = true → (p.verdict delta).congestionFlag = false) ∧
      ((p.verdict delta).ecnCeFlag = true → (p.verdict delta).congestionFlag = true) := by
  have hthreshold : ((p.thresholdVerdict delta).dropFlag = true →
      (p.thresholdVerdict delta).congestionFlag = false) ∧
      (p.thresholdVerdict delta).ecnCeFlag = false := by
    rw [Packet.thresholdVerdict]
    split
    · exact ⟨fun _ => rfl, rfl⟩
    · split
      · split
        · exact ⟨fun h => absurd h Bool.false_ne_true, rfl⟩
        · exact ⟨fun _ => rfl, rfl⟩
      · exact ⟨fun _ => rfl, rfl⟩
  obtain ⟨hdrop, hecn⟩ := hthreshold
  rw [Packet.verdict, Packet.markVerdict]
  split
  case isTrue hcongestion =>
    have hkept : (p.thresholdVerdict delta).dropFlag ≠ true := by
      intro h
      rw [hdrop h] at hcongestion
      cases hcongestion
    split
    · exact ⟨fun h => absurd h hkept, fun _ => hcongestion⟩
    · split
      · split
        · exact ⟨fun h => absurd h hkept, fun _ => hcongestion⟩
        · exact ⟨fun h => absurd h hkept, fun _ => hcongestion⟩
      · split
        · exact ⟨fun _ => rfl, fun h => absurd (hecn.symm.trans h) (by decide)⟩
        · exact ⟨fun h => absurd h hkept, fun _ => hcongestion⟩
  case isFalse hcongestion =>
    exact ⟨fun _ => Bool.eq_false_iff.mpr hcongestion,
      fun h => absurd (hecn.symm.trans h) (by decide)⟩

/-- A packet is counted under one return value, and it tells whether it is dropped. -/
theorem ret_values (v : Verdict) :
    Fin.ofNat 4 v.ret =
      if v.dropFlag then if v.cwrFlag then 2 else 0 else if v.cwrFlag then 3 else 1 := by
  obtain ⟨drop, cwr, congestion, ecnCe⟩ := v
  cases drop <;> cases cwr <;> decide +revert

section Amounts

variable (skbLen : UInt32) (v : Verdict) (tcpGsoFlag : Bool) (hsi : HbmSkbInfo)

theorem amount_pktsTotal : amount .pktsTotal (updateStats skbLen v tcpGsoFlag hsi) = 1 := by
  simp [updateStats]

theorem amount_bytesTotal :
    amount .bytesTotal (updateStats skbLen v tcpGsoFlag hsi) = skbLen.toNat := by
  simp [updateStats]

theorem amount_marked :
    amount .pktsMarked (updateStats skbLen v tcpGsoFlag hsi) = v.congestionFlag.toNat ∧
      amount .bytesMarked (updateStats skbLen v tcpGsoFlag hsi) =
        v.congestionFlag.toNat * skbLen.toNat := by
  cases h : v.congestionFlag <;> simp [updateStats, h]

theorem amount_dropped :
    amount .pktsDropped (updateStats skbLen v tcpGsoFlag hsi) = v.dropFlag.toNat ∧
      amount .bytesDropped (updateStats skbLen v tcpGsoFlag hsi) =
        v.dropFlag.toNat * skbLen.toNat := by
  cases h : v.dropFlag <;> simp [updateStats, h]

theorem amount_pktsEcnCe :
    amount .pktsEcnCe (updateStats skbLen v tcpGsoFlag hsi) = v.ecnCeFlag.toNat := by
  cases h : v.ecnCeFlag <;> simp [updateStats, h]

theorem amount_sumCwndCnt :
    amount .sumCwndCnt (updateStats skbLen v tcpGsoFlag hsi) ≤ 1 := by
  by_cases h : 0 < hsi.cwnd <;> simp [updateStats, h]

theorem amount_returnValCount (ret : Fin 4) :
    amount (.returnValCount ret) (updateStats skbLen v tcpGsoFlag hsi) =
      if Fin.ofNat 4 v.ret = ret then 1 else 0 := by
  simp [updateStats]

/-- What one call adds is consistent, if the flags are. -/
theorem consistent_updateStats (hdrop : v.dropFlag = true → v.congestionFlag = false)
    (hecn : v.ecnCeFlag = true → v.congestionFlag = true) :
    Consistent fun c => amount c (updateStats skbLen v tcpGsoFlag hsi) := by
  have hret := ret_values v
  obtain ⟨hpktsMarked, hbytesMarked⟩ := amount_marked skbLen v tcpGsoFlag hsi
  obtain ⟨hpktsDropped, hbytesDropped⟩ := amount_dropped skbLen v tcpGsoFlag hsi
  constructor
  · rw [amount_pktsTotal, amount_returnValCount, amount_returnValCount, amount_returnValCount,
      amount_returnValCount, hret]
    cases v.dropFlag <;> cases v.cwrFlag <;> rfl
  · rw [hpktsDropped, amount_returnValCount, amount_returnValCount, hret]
    cases v.dropFlag <;> cases v.cwrFlag <;> rfl
  · rw [hpktsMarked, hpktsDropped, amount_pktsTotal]
    cases h : v.dropFlag with
    | true =>
        rw [hdrop h]
        decide
    | false => exact Bool.toNat_le v.congestionFlag
  · rw [hpktsMarked, amount_pktsEcnCe]
    cases h : v.ecnCeFlag with
    | true =>
        rw [hecn h]
    | false => exact Nat.zero_le _
  · rw [hbytesMarked, hbytesDropped, amount_bytesTotal]
    cases h : v.dropFlag with
    | true =>
        rw [hdrop h]
        change 1 * skbLen.toNat + 0 * skbLen.toNat ≤ skbLen.toNat
        omega
    | false =>
        have hle := Nat.mul_le_mul_right skbLen.toNat (Bool.toNat_le v.congestionFlag)
        change 0 * skbLen.toNat + _ ≤ _
        omega
  · rw [amount_pktsTotal]
    exact amount_sumCwndCnt skbLen v tcpGsoFlag hsi

end Amounts

theorem consistent_updates (p : Packet) (delta : Int) :
    Consistent fun c => amount c (p.updates delta) := by
  obtain ⟨hdrop, hecn⟩ := verdict_flags p delta
  rw [Packet.updates]
  split
  · exact consistent_updateStats _ _ _ _ hdrop hecn
  · exact Consistent.zero

/-! ## All calls -/

/-- What some calls add to a counter. -/
def tally (calls : List (List (Counter × UInt64))) (c : Counter) : Nat :=
  (calls.map (amount c)).sum

theorem tally_append (calls : List (List (Counter × UInt64))) (call : List (Counter × UInt64))
    (c : Counter) : tally (calls ++ [call]) c = tally calls c + amount c call := by
  rw [tally, List.map_append, List.sum_append]
  rfl

theorem consistent_tally {calls : List (List (Counter × UInt64))}
    (h : ∀ call ∈ calls, Consistent fun c => amount c call) : Consistent (tally calls) := by
  induction calls with
  | nil => exact Consistent.zero
  | cons call calls ih =>
      obtain ⟨hcall, hcalls⟩ := List.forall_mem_cons.mp h
      exact hcall.add (ih hcalls)

/-- What a processor has still to add in its call. -/
def pending (c : Counter) : Phase → Nat
  | .updating rest => amount c rest
  | _ => 0

variable {Cpu : Type} [DecidableEq Cpu] [Fintype Cpu] {s s' : Machine Cpu} {e : Event Cpu}

/-- The counters are the sums of the calls, except for what is pending. -/
structure Counted (s : Machine Cpu) : Prop where
  calls : ∀ call ∈ s.calls, Consistent fun c => amount c call
  added : ∃ t : Counter → Nat, (∀ c, s.counters c = .ofNat (t c)) ∧
    ∀ c, t c + Pool.total (pending c) s.phase = tally s.calls c

/-- A step that does not touch the statistics. -/
theorem Counted.goto (h : Counted s) {cpu : Cpu} {phase : Phase}
    (hphase : s'.phase = Function.update s.phase cpu phase) (hcalls : s'.calls = s.calls)
    (hcounters : s'.counters = s.counters)
    (hsame : ∀ c, pending c phase = pending c (s.phase cpu)) :
    Counted s' := by
  obtain ⟨t, ht, hsum⟩ := h.added
  refine ⟨by rw [hcalls]; exact h.calls, t, by rw [hcounters]; exact ht, fun c => ?_⟩
  have hupdate := Pool.total_update (pending c) s.phase cpu phase
  rw [hphase, hcalls, ← hsum c]
  have := hsame c
  omega

theorem Counted.transition (h : Counted s) (hstep : Transition s e s') : Counted s' := by
  cases hstep with
  | stutter => exact h
  | arrive cpu p hphase => exact h.goto rfl rfl rfl fun c => by rw [hphase]; rfl
  | test cpu p hphase => exact h.goto rfl rfl rfl fun c => by rw [hphase]; rfl
  | lock cpu p branch hphase => exact h.goto rfl rfl rfl fun c => by rw [hphase]; rfl
  | enter cpu p hphase => exact h.goto rfl rfl rfl fun c => by rw [hphase]; rfl
  | decide cpu p a hphase => exact h.goto rfl rfl rfl fun c => by rw [hphase]; rfl
  | call cpu p a hphase =>
      obtain ⟨t, ht, hsum⟩ := h.added
      refine ⟨fun call hcall => ?_, t, ht, fun c => ?_⟩
      · obtain hold | hnew := List.mem_append.mp hcall
        · exact h.calls call hold
        · obtain rfl := List.mem_singleton.mp hnew
          exact consistent_updates p a.delta
      · have hupdate := Pool.total_update (pending c) s.phase cpu
          (.updating (p.updates a.delta))
        rw [hphase] at hupdate
        change _ + 0 = _ + amount c (p.updates a.delta) at hupdate
        change t c + Pool.total (pending c) (Function.update s.phase cpu _) =
          tally (s.calls ++ [p.updates a.delta]) c
        rw [tally_append, ← hsum c]
        omega
  | add cpu add rest hphase =>
      obtain ⟨t, ht, hsum⟩ := h.added
      refine ⟨h.calls, fun c => t c + if add.1 = c then add.2.toNat else 0, fun c => ?_,
        fun c => ?_⟩
      · change (if c = add.1 then s.counters c + add.2 else s.counters c) =
          .ofNat (t c + if add.1 = c then add.2.toNat else 0)
        by_cases hc : c = add.1
        · rw [if_pos hc, if_pos hc.symm, ht, UInt64.ofNat_add, UInt64.ofNat_toNat]
        · rw [if_neg hc, if_neg (Ne.symm hc), ht, Nat.add_zero]
      · have hupdate := Pool.total_update (pending c) s.phase cpu (.updating rest)
        rw [hphase] at hupdate
        change _ + amount c (add :: rest) = _ + amount c rest at hupdate
        rw [amount_cons] at hupdate
        change (t c + if add.1 = c then add.2.toNat else 0) +
          Pool.total (pending c) (Function.update s.phase cpu _) = tally s.calls c
        rw [← hsum c]
        omega
  | leave cpu hphase => exact h.goto rfl rfl rfl fun c => by rw [hphase]; rfl

/-- No call of `__xm_hbm_edt_update_stats` is in progress. -/
def Quiet (s : Machine Cpu) : Prop := ∀ cpu rest, s.phase cpu ≠ .updating rest

/-- The machine of a cgroup whose statistics are all zero. -/
def Machine.fresh (hei : HbmEdtInfo) : Machine Cpu := { hei := hei, counters := fun _ => 0 }

theorem counted_foldl (hei : HbmEdtInfo) (es : List (Event Cpu)) :
    Counted (es.foldl step (Machine.fresh hei : Machine Cpu)) := by
  have keep : ∀ (s : Machine Cpu) (e : Event Cpu), Counted s → Counted (s.step e) :=
    fun s e h => h.transition (step_transition s e)
  have hstart : Counted (Machine.fresh hei : Machine Cpu) := by
    refine ⟨(fun _ h => nomatch h), fun _ => 0, fun _ => rfl, fun c => ?_⟩
    have hnone : Pool.total (pending c) (Machine.fresh hei : Machine Cpu).phase = 0 :=
      Pool.total_eq_zero fun _ => rfl
    exact (Nat.zero_add _).trans hnone
  exact foldl_preserves keep hstart es

omit [DecidableEq Cpu] in
theorem Counted.counters_eq (h : Counted s) (hquiet : Quiet s) (c : Counter) :
    s.counters c = .ofNat (tally s.calls c) := by
  obtain ⟨t, ht, hsum⟩ := h.added
  have hnone : Pool.total (pending c) s.phase = 0 := by
    apply Pool.total_eq_zero
    intro cpu
    cases hphase : s.phase cpu with
    | updating rest => exact absurd hphase (hquiet cpu rest)
    | _ => rfl
  rw [ht, ← hsum c, hnone, Nat.add_zero]

/-- Whenever no call is in progress, the relations hold: the two equations in the
arithmetic of the counters, and all of them as long as the counted packets and bytes are
fewer than `2 ^ 64`. -/
theorem statistics_consistent (hei : HbmEdtInfo) (es : List (Event Cpu))
    (hquiet : Quiet (es.foldl step (Machine.fresh hei : Machine Cpu))) :
    let s := es.foldl step (Machine.fresh hei : Machine Cpu)
    (s.counters .pktsTotal = s.counters (.returnValCount 0) + s.counters (.returnValCount 1) +
        s.counters (.returnValCount 2) + s.counters (.returnValCount 3) ∧
      s.counters .pktsDropped =
        s.counters (.returnValCount 0) + s.counters (.returnValCount 2)) ∧
    (tally s.calls .pktsTotal < 2 ^ 64 → tally s.calls .bytesTotal < 2 ^ 64 →
      Consistent fun c => (s.counters c).toNat) := by
  intro s
  have hcounted : Counted s := counted_foldl hei es
  have heq := hcounted.counters_eq hquiet
  have hconsistent := consistent_tally hcounted.calls
  refine ⟨⟨?_, ?_⟩, fun hp hb => ?_⟩
  · rw [heq, heq, heq, heq, heq, hconsistent.pkts_total, UInt64.ofNat_add, UInt64.ofNat_add,
      UInt64.ofNat_add]
  · rw [heq, heq, heq, hconsistent.pkts_dropped, UInt64.ofNat_add]
  · exact hconsistent.of_toNat heq hp hb

theorem statistics_consistent_datagram :
    Consistent fun c => (((handle (datagram 1000000)).foldl step
      (Machine.fresh ⟨0, 0, 0⟩)).counters c).toNat :=
  (statistics_consistent ⟨0, 0, 0⟩ (handle (datagram 1000000)) fun cpu rest h => by
    cases cpu
    cases h).2 (by decide) (by decide)

/-! ## Wrapping -/

/-- A datagram of `2 ^ 31` bytes on the wire in a cgroup with 1 Mbps. -/
def hugeDatagram : Packet :=
  { datagram 1000000 with
    skb := { (datagram 1000000).skb with len := 2 ^ 31 - 24 }
    hes := some { customRateMbps := 1, stats := true, noLoopback := true } }

/-- The first one is kept, and all that follow are dropped. -/
def backlogged : HbmEdtInfo := ⟨700000 + 2 ^ 31 * 8000, 1, 8000⟩

theorem afterPacket_huge (counters : Counters) :
    (afterPacket ⟨backlogged, counters⟩ hugeDatagram).hei = backlogged := by
  have hsame : (afterPacket ⟨backlogged, counters⟩ hugeDatagram).hei =
      (afterPacket ⟨backlogged, fun _ => 0⟩ hugeDatagram).hei := rfl
  rw [hsame]
  decide

theorem eq_of_hei {st : Cgroup} {hei : HbmEdtInfo} (h : st.hei = hei) :
    st = ⟨hei, st.counters⟩ := by
  rw [← h]

theorem callsOf_huge (counters : Counters) (n : Nat) :
    callsOf ⟨backlogged, counters⟩ (List.replicate n hugeDatagram) =
      List.replicate n (hugeDatagram.updates
        (hugeDatagram.admission ⟨backlogged, fun _ => 0⟩).delta) := by
  induction n generalizing counters with
  | zero => rfl
  | succ n ih =>
      have hstate : afterPacket ⟨backlogged, counters⟩ hugeDatagram =
          ⟨backlogged, (afterPacket ⟨backlogged, counters⟩ hugeDatagram).counters⟩ :=
        eq_of_hei (afterPacket_huge counters)
      rw [List.replicate_succ, List.replicate_succ, callsOf, hstate, ih]
      rfl

theorem tally_replicate (call : List (Counter × UInt64)) (n : Nat) (c : Counter) :
    tally (List.replicate n call) c = n * amount c call := by
  rw [tally, List.map_replicate, List.sum_replicate, smul_eq_mul]

/-- After `2 ^ 33` of these datagrams the number of bytes has wrapped to zero, and the
number of dropped bytes has not. -/
theorem statistics_wrap :
    ¬∀ (hei : HbmEdtInfo) (es : List (Event Unit)),
      Quiet (es.foldl step (Machine.fresh hei : Machine Unit)) →
        Consistent fun c =>
          ((es.foldl step (Machine.fresh hei : Machine Unit)).counters c).toNat := by
  intro h
  have hrun : ∀ n : Nat, ∃ es : List (Event Unit),
      Quiet (es.foldl step (Machine.fresh ⟨0, 0, 0⟩ : Machine Unit)) ∧
      ∀ c, tally (es.foldl step (Machine.fresh ⟨0, 0, 0⟩ : Machine Unit)).calls c =
        amount c (hugeDatagram.updates (hugeDatagram.admission freshCgroup).delta) +
          n * amount c (hugeDatagram.updates
            (hugeDatagram.admission ⟨backlogged, fun _ => 0⟩).delta) := by
    intro n
    have hlimited : ∀ p ∈ List.replicate (n + 1) hugeDatagram, p.exempt = false := by
      intro p hp
      rw [List.eq_of_mem_replicate hp]
      rfl
    obtain ⟨es, kept, hes⟩ :=
      exists_foldl_sequence (Machine.fresh ⟨0, 0, 0⟩ : Machine Unit) () rfl hlimited
    have hfirst : afterPacket freshCgroup hugeDatagram =
        ⟨backlogged, (afterPacket freshCgroup hugeDatagram).counters⟩ :=
      eq_of_hei (by decide)
    refine ⟨es, ?_, fun c => ?_⟩
    · rw [hes]
      exact fun _ _ h => nomatch h
    · rw [hes]
      change tally ([] ++ callsOf freshCgroup (List.replicate (n + 1) hugeDatagram)) c = _
      rw [List.nil_append, List.replicate_succ, callsOf, hfirst, callsOf_huge, tally,
        List.map_cons, List.sum_cons]
      exact congrArg _ (tally_replicate _ n c)
  obtain ⟨es, hquiet, htally⟩ := hrun (2 ^ 33 - 1)
  have hbytes := (h ⟨0, 0, 0⟩ es hquiet).bytes
  have heq := (counted_foldl ⟨0, 0, 0⟩ es).counters_eq hquiet
  have htotal : amount .bytesTotal (hugeDatagram.updates
      (hugeDatagram.admission freshCgroup).delta) = 2 ^ 31 ∧
      amount .bytesTotal (hugeDatagram.updates
        (hugeDatagram.admission ⟨backlogged, fun _ => 0⟩).delta) = 2 ^ 31 := by decide
  have hdropped : amount .bytesDropped (hugeDatagram.updates
      (hugeDatagram.admission freshCgroup).delta) = 0 ∧
      amount .bytesDropped (hugeDatagram.updates
        (hugeDatagram.admission ⟨backlogged, fun _ => 0⟩).delta) = 2 ^ 31 := by decide
  rw [heq, heq, heq, htally, htally, htally, htotal.1, htotal.2, hdropped.1, hdropped.2] at hbytes
  have hwrapped := Nat.le_trans (Nat.le_add_right _ _) hbytes
  exact absurd hwrapped (by decide)

end XMonitor.Hbm
