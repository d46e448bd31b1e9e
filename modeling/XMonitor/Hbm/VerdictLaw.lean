import XMonitor.Hbm.Rate

/-!
# What a verdict tells the sender

The value returned for a packet says whether it is dropped and, with the value 2, that the
sender has to shrink its congestion window. Two protections are written down in the program:
a flag of the cgroup against the second one, and an exemption of small packets of other
protocols than TCP from being dropped early. The flag is never read, and the test for small
packets stands behind one that only TCP packets reach.
-/

namespace XMonitor.Hbm

/-- The flag `no_cn` of the cgroup of a packet. -/
def Packet.noCn (p : Packet) : Bool := (p.hes.map HbmEdtConfig.noCn).getD false

/-- The law of the verdict for a packet. -/
structure VerdictLaw (st : Cgroup) (p : Packet) : Prop where
  tcp : (xmHbmEdtOut st p).2.ret &&& cwr ≠ 0 → p.hsi.isTcp = true
  noCn : p.noCn = true → (xmHbmEdtOut st p).2.ret &&& cwr = 0
  drop : (xmHbmEdtOut st p).2.ret &&& keepPkt = 0 →
    ∃ a, (xmHbmEdtOut st p).2.admission = some a ∧
      (dropThreshNs < a.delta ∨ p.isLargePkt = true ∧ markThreshNs < a.delta)

/-- The packet is dropped whatever its protocol. -/
def Packet.InDropZone (p : Packet) (delta : Int) : Prop :=
  dropThreshNs < delta ∨ largePktDropThreshNs < delta ∧ p.isLargePkt = true

/-- The sender is told to shrink its window: a TCP packet is dropped that does not support
marks, or it should be marked, cannot be, and the random number is small enough. -/
def Packet.SignalsCongestion (p : Packet) (delta : Int) : Prop :=
  p.hsi.isTcp = true ∧
    (p.InDropZone delta ∧ p.hsi.ecn = 0 ∨
      ¬p.InDropZone delta ∧ markThreshNs < delta ∧ p.ecnSetCe = false ∧
        ((markThreshNs + p.randLen.toNat % markRegionSizeNs : Nat) : Int) ≤ delta)

/-- A small packet of another protocol that is ahead of the clock, but not too far. -/
def Packet.SmallAndEarly (p : Packet) (delta : Int) : Prop :=
  p.hsi.isTcp = false ∧ p.isLargePkt = false ∧ markThreshNs < delta ∧ delta ≤ dropThreshNs

section Verdict

variable {p : Packet} {delta : Int}

/-- Above the thresholds the handling of congestion changes nothing. -/
theorem verdict_of_inDropZone (h : p.InDropZone delta) :
    p.verdict delta = { dropFlag := true, cwrFlag := p.hsi.isTcp && p.hsi.ecn == 0 } := by
  have hthreshold : p.thresholdVerdict delta =
      { dropFlag := true, cwrFlag := p.hsi.isTcp && p.hsi.ecn == 0 } := if_pos h
  rw [Packet.verdict, hthreshold]
  rfl

theorem thresholdVerdict_below (hzone : ¬p.InDropZone delta) :
    p.thresholdVerdict delta =
      if markThreshNs < delta then
        if p.hsi.isTcp then { congestionFlag := true } else { dropFlag := true }
      else {} := if_neg hzone

/-- Between the thresholds a packet of another protocol is dropped, large or not. -/
theorem verdict_of_other (hzone : ¬p.InDropZone delta) (hmark : markThreshNs < delta)
    (htcp : p.hsi.isTcp = false) : p.verdict delta = { dropFlag := true } := by
  have hthreshold : p.thresholdVerdict delta = { dropFlag := true } := by
    rw [thresholdVerdict_below hzone, if_pos hmark, htcp]
    rfl
  rw [Packet.verdict, hthreshold]
  rfl

/-- Between the thresholds a TCP packet is marked or else may signal congestion. -/
theorem verdict_of_tcp (hzone : ¬p.InDropZone delta) (hmark : markThreshNs < delta)
    (htcp : p.hsi.isTcp = true) :
    p.verdict delta =
      if p.ecnSetCe then { congestionFlag := true, ecnCeFlag := true }
      else if ((markThreshNs + p.randLen.toNat % markRegionSizeNs : Nat) : Int) ≤ delta then
        { congestionFlag := true, cwrFlag := true }
      else { congestionFlag := true } := by
  have hthreshold : p.thresholdVerdict delta = { congestionFlag := true } := by
    rw [thresholdVerdict_below hzone, if_pos hmark, htcp]
    rfl
  rw [Packet.verdict, hthreshold, Packet.markVerdict, htcp]
  rfl

theorem verdict_of_le (hzone : ¬p.InDropZone delta) (hmark : ¬markThreshNs < delta) :
    p.verdict delta = {} := by
  have hthreshold : p.thresholdVerdict delta = {} := by
    rw [thresholdVerdict_below hzone, if_neg hmark]
  rw [Packet.verdict, hthreshold]
  rfl

theorem cwrFlag_iff : (p.verdict delta).cwrFlag = true ↔ p.SignalsCongestion delta := by
  by_cases hzone : p.InDropZone delta
  · simp [verdict_of_inDropZone hzone, Packet.SignalsCongestion, hzone]
  by_cases hmark : markThreshNs < delta
  · cases htcp : p.hsi.isTcp with
    | false => simp [verdict_of_other hzone hmark htcp, Packet.SignalsCongestion, htcp]
    | true =>
        rw [verdict_of_tcp hzone hmark htcp]
        cases hset : p.ecnSetCe with
        | true => simp [Packet.SignalsCongestion, hzone, hset]
        | false =>
            by_cases hrand :
                ((markThreshNs + p.randLen.toNat % markRegionSizeNs : Nat) : Int) ≤ delta
            · rw [if_neg Bool.false_ne_true, if_pos hrand]
              exact iff_of_true rfl ⟨htcp, .inr ⟨hzone, hmark, hset, hrand⟩⟩
            · rw [if_neg Bool.false_ne_true, if_neg hrand]
              refine iff_of_false Bool.false_ne_true fun hsignals => ?_
              obtain ⟨-, ⟨hin, -⟩ | ⟨-, -, -, hle⟩⟩ := hsignals
              · exact hzone hin
              · exact hrand hle
  · simp [verdict_of_le hzone hmark, Packet.SignalsCongestion, hzone, hmark]

theorem dropFlag_iff :
    (p.verdict delta).dropFlag = true ↔
      p.InDropZone delta ∨ markThreshNs < delta ∧ p.hsi.isTcp = false := by
  by_cases hzone : p.InDropZone delta
  · simp [verdict_of_inDropZone hzone, hzone]
  by_cases hmark : markThreshNs < delta
  · cases htcp : p.hsi.isTcp with
    | false => simp [verdict_of_other hzone hmark htcp, hmark]
    | true =>
        rw [verdict_of_tcp hzone hmark htcp]
        simp only [hzone, false_or, Bool.true_eq_false, and_false, iff_false]
        split
        · exact Bool.false_ne_true
        · split <;> exact Bool.false_ne_true
  · simp [verdict_of_le hzone hmark, hzone, hmark]

/-- A dropped packet obeys the law unless it is a small one of another protocol. -/
theorem drop_allowed_iff :
    ((p.verdict delta).dropFlag = true →
        dropThreshNs < delta ∨ p.isLargePkt = true ∧ markThreshNs < delta) ↔
      ¬p.SmallAndEarly delta := by
  have hlarge : (markThreshNs : Int) ≤ largePktDropThreshNs := by decide
  have hhard : (markThreshNs : Int) ≤ dropThreshNs := by decide
  rw [dropFlag_iff, Packet.InDropZone, Packet.SmallAndEarly]
  cases p.isLargePkt <;> cases p.hsi.isTcp <;> simp <;> omega

end Verdict

theorem ret_and_cwr (v : Verdict) : v.ret &&& cwr = 0 ↔ v.cwrFlag = false := by
  obtain ⟨drop, cwr, congestion, ecnCe⟩ := v
  cases drop <;> cases cwr <;> decide +revert

theorem ret_and_keep (v : Verdict) : v.ret &&& keepPkt = 0 ↔ v.dropFlag = true := by
  obtain ⟨drop, cwr, congestion, ecnCe⟩ := v
  cases drop <;> cases cwr <;> decide +revert

/-- The flag has no effect on any packet. -/
theorem xmHbmEdtOut_noCn (st : Cgroup) (p : Packet) (noCn : Bool) :
    xmHbmEdtOut st { p with hes := p.hes.map fun hes => { hes with noCn } } =
      xmHbmEdtOut st p := by
  obtain ⟨skb, hes, storage, nowNs, ecnSetCe, randLen⟩ := p
  cases hes with
  | none => rfl
  | some hes => rfl

/-- The law holds for a packet exactly if the flag does not matter for it and it is no small
packet of another protocol between the thresholds. -/
theorem verdict_law_iff (st : Cgroup) (p : Packet) :
    VerdictLaw st p ↔
      (p.exempt = false →
        (p.noCn = true → ¬p.SignalsCongestion (p.admission st).delta) ∧
          ¬p.SmallAndEarly (p.admission st).delta) := by
  cases hexempt : p.exempt with
  | true =>
      have hret : (xmHbmEdtOut st p).2.ret = keepPkt := by rw [xmHbmEdtOut_exempt hexempt]
      refine iff_of_true ⟨fun h => ?_, fun _ => ?_, fun h => ?_⟩ fun h => absurd h (by decide)
      · rw [hret] at h
        exact absurd rfl h
      · rw [hret]
        rfl
      · rw [hret] at h
        exact absurd h (by decide)
  | false =>
      have hret : (xmHbmEdtOut st p).2.ret = (p.verdict (p.admission st).delta).ret := by
        rw [xmHbmEdtOut_limited hexempt]
      have hadmission : (xmHbmEdtOut st p).2.admission = some (p.admission st) := by
        rw [xmHbmEdtOut_limited hexempt]
      rw [← drop_allowed_iff, ← cwrFlag_iff, Bool.not_eq_true, forall_prop_of_true rfl]
      constructor
      · rintro ⟨-, hnoCn, hdrop⟩
        refine ⟨fun h => ?_, fun h => ?_⟩
        · exact (ret_and_cwr _).mp (hret ▸ hnoCn h)
        · obtain ⟨a, ha, hallowed⟩ := hdrop (hret ▸ (ret_and_keep _).mpr h)
          obtain rfl := Option.some.inj (hadmission.symm.trans ha)
          exact hallowed
      · rintro ⟨hnoCn, hdrop⟩
        refine ⟨fun h => ?_, fun h => ?_, fun h => ?_⟩
        · rw [hret, Ne, ret_and_cwr, Bool.not_eq_false] at h
          exact (cwrFlag_iff.mp h).1
        · rw [hret, ret_and_cwr]
          exact hnoCn h
        · rw [hret, ret_and_keep] at h
          exact ⟨_, hadmission, hdrop h⟩

/-- A cgroup that owes 200 microseconds. -/
def busyCgroup : Cgroup := { hei := ⟨1200000, 100, 80⟩, counters := fun _ => 0 }

/-- A small datagram. -/
def smallDatagram : Packet :=
  { datagram 1000000 with skb := { (datagram 1000000).skb with len := 60 } }

/-- It is dropped, although the debt is far from the threshold at which all are dropped. -/
theorem small_datagram_dropped : ¬∀ st p, VerdictLaw st p := by
  intro hclaim
  obtain ⟨a, ha, hallowed⟩ := (hclaim busyCgroup smallDatagram).drop (by decide)
  have hdelta : (xmHbmEdtOut busyCgroup smallDatagram).2.admission.map Admission.delta =
      some 200000 := by decide
  rw [ha, Option.map_some, Option.some.injEq] at hdelta
  rw [hdelta] at hallowed
  exact absurd hallowed (by decide)

end XMonitor.Hbm
