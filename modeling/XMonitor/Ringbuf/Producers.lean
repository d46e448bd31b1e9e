import XMonitor.Ringbuf.Cells

/-!
# The steps of the producers

Most steps of a producer change only its own words and leave the claims as they are. The steps
that change a word of all threads are the compare and exchange and the two stores that save the
end and unlock `next` after it; the last one, `ringbuf_produce`, gives a claim up.
-/

namespace XMonitor.Rbuf

open MessageQueue

variable {n : Nat} {β : Type*} {e e' : Env n}

/-- The worker's part of the invariant survives a step of another thread that leaves it the
values it has loaded and, while it holds the lock, the words that the lock protects. -/
theorem ProducerOk.mono {la : Nat} {w : Worker} {pc : Pc} (h : ProducerOk e la w pc)
    (hspace : e'.space = e.space) (hloaded : ∀ seen, e.Loaded la seen → e'.Loaded la seen)
    (hfits : ∀ seen len target, e.Loaded la seen → 0 < len →
      (seen = e.next → la = e.wraps → e.Fits len target) →
      seen = e'.next → la = e'.wraps → e'.Fits len target)
    (hlock : pc.Locks → e'.cut = e.cut ∧ e'.endOff = e.endOff ∧ e'.next = e.next) :
    ProducerOk e' la w pc := by
  cases pc with
  | unregistered => exact h
  | registering => exact h
  | idle => exact h
  | acquire len =>
      obtain ⟨h₁, h₂, h₃, h₄⟩ := h
      exact ⟨h₁, h₂, h₃, by rwa [hspace]⟩
  | storeSeen len seen =>
      obtain ⟨h₁, h₂, h₃, h₄⟩ := h
      exact ⟨h₁, h₂, by rwa [hspace], hloaded seen h₄⟩
  | readWritten len seen =>
      obtain ⟨h₁, h₂, h₃, h₄⟩ := h
      exact ⟨h₁, h₂, by rwa [hspace], hloaded seen h₄⟩
  | cas len seen target =>
      obtain ⟨h₁, h₂, h₃, h₄, h₅⟩ := h
      exact ⟨h₁, h₂, by rwa [hspace], hloaded seen h₄, hfits seen len target h₄ h₃.1 h₅⟩
  | giveUp => exact h
  | clearSeen len seen target =>
      obtain ⟨h₁, h₂, h₃, h₄⟩ := h
      refine ⟨h₁, h₂, by rwa [hspace], fun hl => ?_⟩
      obtain ⟨hcut, hend, hnext⟩ := hlock hl
      rw [hcut, hend, hnext]
      exact h₄ hl
  | saveEnd len seen target =>
      obtain ⟨h₁, h₂, h₃, h₄⟩ := h
      obtain ⟨hcut, hend, hnext⟩ := hlock trivial
      refine ⟨h₁, h₂, by rwa [hspace], ?_⟩
      rwa [hcut, hend, hnext]
  | unlock len target =>
      obtain ⟨h₁, h₂, h₃⟩ := h
      obtain ⟨hcut, hend, hnext⟩ := hlock trivial
      refine ⟨h₁, by rwa [hspace], ?_⟩
      rwa [hcut, hend, hnext]
  | holding off len => exact h

theorem locked_mark (hs : e.Shape) {o : Nat} (ho : o < e.space) : Locked (pack true 0 o) := by
  have hspace := hs.space_lt
  rw [locked_pack (by omega) (by omega)]

/-! ### Steps that change the words of one worker -/

/-- A step of one producer that changes only what belongs to the producer. -/
structure OwnStep (t t' : Traced n β) (i : Fin n) (w : Worker) (pc : Pc) : Prop where
  rbuf : t'.conf.rbuf = { t.conf.rbuf with workers := Function.update t.conf.rbuf.workers i w }
  mem : t'.conf.mem = t.conf.mem
  pcs : t'.conf.pcs = Function.update t.conf.pcs i pc
  consumer : t'.conf.consumer = t.conf.consumer
  granted : t'.conf.granted = t.conf.granted
  wraps : t'.wraps = t.wraps
  loadedAt : ∀ j, j ≠ i → t'.loadedAt j = t.loadedAt j

namespace OwnStep

variable {t t' : Traced n β} {i : Fin n} {w : Worker} {pc : Pc}

theorem env (h : OwnStep t t' i w pc) (v : View n) : t'.env v = t.env v := by
  simp only [Traced.env, h.rbuf, h.wraps]

theorem workers (h : OwnStep t t' i w pc) :
    t'.conf.rbuf.workers = Function.update t.conf.rbuf.workers i w := by
  rw [h.rbuf]

theorem claim_self (h : OwnStep t t' i w pc) : t'.conf.claim i = claimOf w pc := by
  simp only [Config.claim, h.workers, h.pcs, Function.update_self]

theorem claim_other (h : OwnStep t t' i w pc) {j : Fin n} (hj : j ≠ i) :
    t'.conf.claim j = t.conf.claim j := by
  simp only [Config.claim, h.workers, h.pcs, Function.update_of_ne hj]

theorem claim_eq (h : OwnStep t t' i w pc) (hclaim : claimOf w pc = t.conf.claim i) :
    t'.conf.claim = t.conf.claim := by
  funext j
  by_cases hj : j = i
  · subst hj
    rw [h.claim_self, hclaim]
  · exact h.claim_other hj

/-- The invariant is kept if the producer keeps its claim and its lock. -/
theorem inv (h : OwnStep t t' i w pc) {v : View n} {q : Queue (Fin n) β} (hinv : Inv t v q)
    (hclaim : claimOf w pc = t.conf.claim i) (hlocks : pc.Locks ↔ (t.conf.pcs i).Locks)
    (hok : ProducerOk (t.env v) (t'.loadedAt i) w pc)
    (hreg : pc = .unregistered → w.seenOff = rbufOffMax) : Inv t' v q := by
  have henv := h.env v
  have hclaims := h.claim_eq hclaim
  refine ⟨?_, ?_, fun j => ?_, fun j => ?_, ?_, ?_, ?_, ?_, ?_, ?_⟩
  · rw [henv]
    exact hinv.shape
  · rw [h.consumer, henv]
    exact hinv.ends
  · rw [henv]
    by_cases hj : j = i
    · subst hj
      rwa [h.workers, h.pcs, Function.update_self, Function.update_self]
    · rw [h.workers, h.pcs, Function.update_of_ne hj, Function.update_of_ne hj, h.loadedAt j hj]
      exact hinv.producers j
  · rw [h.pcs]
    by_cases hj : j = i
    · subst hj
      rw [Function.update_self, hlocks]
      exact hinv.locks j
    · rw [Function.update_of_ne hj]
      exact hinv.locks j
  · rw [hclaims, henv]
    exact hinv.holds
  · rw [hclaims, henv, h.mem]
    exact hinv.cells
  · rw [h.rbuf]
    exact hinv.cutStart
  · rw [hclaims, henv, h.consumer, h.granted]
    exact hinv.consumer
  · rw [h.consumer, h.granted]
    exact hinv.granted
  · intro w' nx j ready hread hpc
    rw [h.consumer] at hread
    rw [h.pcs] at hpc
    rw [h.workers]
    by_cases hj : j = i
    · subst hj
      rw [Function.update_self] at hpc ⊢
      exact hreg hpc
    · rw [Function.update_of_ne hj] at hpc ⊢
      exact hinv.rereads w' nx j ready hread hpc

end OwnStep

/-- The configuration in which a producer has changed its own words. -/
def Config.own (c : Config n β) (i : Fin n) (w : Worker) (pc : Pc) : Config n β :=
  { c with
    rbuf := { c.rbuf with workers := Function.update c.rbuf.workers i w }
    pcs := Function.update c.pcs i pc }

theorem Config.goto_eq (c : Config n β) (i : Fin n) (pc : Pc) :
    c.goto i pc = c.own i (c.rbuf.workers i) pc := by
  simp [Config.goto, Config.own]

theorem Traced.step_conf {t t' : Traced n β} {a : Action n β} (h : t.step a = some t') :
    ∃ c, t.conf.step a = some c ∧
      t' = { conf := c
             wraps := if t.wrapsAround a then t.wraps + 1 else t.wraps
             loadedAt := fun i => if t.loads i a then t.wraps else t.loadedAt i } := by
  obtain ⟨c, hc, rfl⟩ := Option.map_eq_some_iff.mp h
  exact ⟨c, hc, rfl⟩

theorem Traced.step_own {t t' : Traced n β} {a : Action n β} {i : Fin n} {w : Worker} {pc : Pc}
    (h : t.step a = some t') (hc : t.conf.step a = some (t.conf.own i w pc))
    (hwraps : t.wrapsAround a = false) (hloads : ∀ j, j ≠ i → t.loads j a = false) :
    OwnStep t t' i w pc := by
  obtain ⟨c, hc', rfl⟩ := Traced.step_conf h
  obtain rfl := Option.some.inj (hc.symm.trans hc')
  refine ⟨rfl, rfl, rfl, rfl, rfl, ?_, fun j hj => ?_⟩
  · simp [hwraps]
  · simp [hloads j hj]

section Steps

variable {t t' : Traced n β} {v : View n} {q : Queue (Fin n) β} {i : Fin n}

/-- A producer that has nothing claimed has nothing claimed at its next place either. -/
theorem inv_register (hinv : Inv t v q) (h : t.step (.register i) = some t') : Inv t' v q := by
  obtain ⟨c, hc, _⟩ := Traced.step_conf h
  obtain ⟨hpc, hc⟩ := Option.ite_none_right_eq_some.mp hc
  have hstep : t.conf.step (.register i) = some (t.conf.own i
      { t.conf.rbuf.workers i with seenOff := rbufOffMax } .registering) := if_pos hpc
  refine (Traced.step_own h hstep rfl fun j _ => rfl).inv hinv ?_ ?_ rfl (by simp)
  · simp [Config.claim, claimOf, hpc]
  · simp [Pc.Locks, hpc]

theorem inv_unregister (hinv : Inv t v q) (h : t.step (.unregister i) = some t') :
    Inv t' v q := by
  obtain ⟨c, hc, _⟩ := Traced.step_conf h
  obtain ⟨hpc, hc⟩ := Option.ite_none_right_eq_some.mp hc
  have hstep : t.conf.step (.unregister i) = some (t.conf.own i
      { t.conf.rbuf.workers i with registered := false } .unregistered) := if_pos hpc
  have hok := hinv.producers i
  rw [hpc] at hok
  refine (Traced.step_own h hstep rfl fun j _ => rfl).inv hinv ?_ ?_ rfl fun _ => hok.2
  · simp [Config.claim, claimOf, hpc]
  · simp [Pc.Locks, hpc]

theorem inv_acquire {len : Nat} (hinv : Inv t v q) (h : t.step (.acquire i len) = some t') :
    Inv t' v q := by
  obtain ⟨c, hc, _⟩ := Traced.step_conf h
  obtain ⟨hpc, hc⟩ := Option.ite_none_right_eq_some.mp hc
  have hstep : t.conf.step (.acquire i len) = some (t.conf.own i
      (t.conf.rbuf.workers i) (.acquire len)) := by
    rw [← Config.goto_eq]
    exact if_pos hpc
  have hok := hinv.producers i
  rw [hpc.1] at hok
  refine (Traced.step_own h hstep rfl fun j _ => rfl).inv hinv ?_ ?_
    ⟨hok.1, .inl hok.2, hpc.2⟩ (by simp)
  · simp [Config.claim, claimOf, hpc.1]
  · simp [Pc.Locks, hpc.1]

theorem inv_spurious (hinv : Inv t v q) (h : t.step (.spurious i) = some t') : Inv t' v q := by
  obtain ⟨c, hc, _⟩ := Traced.step_conf h
  cases hpc : t.conf.pcs i with
  | cas len seen target =>
      have hstep : t.conf.step (.spurious i) = some (t.conf.own i
          (t.conf.rbuf.workers i) (.acquire len)) := by
        rw [← Config.goto_eq, Config.step, hpc]
      have hok := hinv.producers i
      rw [hpc] at hok
      obtain ⟨h₁, h₂, h₃, h₄, _⟩ := hok
      refine (Traced.step_own h hstep rfl fun j _ => rfl).inv hinv ?_ ?_
        ⟨h₁, .inr ?_, h₃⟩ (by simp)
      · simp [Config.claim, claimOf, hpc]
      · simp [Pc.Locks, hpc]
      · rw [h₂]
        exact locked_mark hinv.shape (h₄.off_lt hinv.shape)
  | _ => simp [Config.step, hpc] at hc

theorem inv_registering (hinv : Inv t v q) (hpc : t.conf.pcs i = .registering)
    (h : t.step (.step i) = some t') : Inv t' v q := by
  have hstep : t.conf.step (.step i) = some (t.conf.own i
      { t.conf.rbuf.workers i with registered := true } .idle) := by
    rw [Config.step, Config.producerStep, hpc]
    rfl
  have hok := hinv.producers i
  rw [hpc] at hok
  refine (Traced.step_own h hstep ?_ fun j _ => ?_).inv hinv ?_ ?_ ⟨rfl, hok⟩ (by simp)
  · simp [Traced.wrapsAround, hpc]
  · simp [Traced.loads, hpc]
  · simp [Config.claim, claimOf, hpc]
  · simp [Pc.Locks, hpc]

/-- `next` is loaded once it is not locked. -/
theorem inv_load {len : Nat} (hinv : Inv t v q) (hpc : t.conf.pcs i = .acquire len)
    (h : t.step (.step i) = some t') : Inv t' v q := by
  have hok := hinv.producers i
  rw [hpc] at hok
  obtain ⟨h₁, h₂, h₃⟩ := hok
  have hwraps : t.wrapsAround (.step i) = false := by simp [Traced.wrapsAround, hpc]
  have hloads : ∀ j, j ≠ i → t.loads j (.step i) = false := by
    intro j hj
    simp [Traced.loads, hpc, Ne.symm hj]
  have hself : t.loads i (.step i) = true := by simp [Traced.loads, hpc]
  have hla : t'.loadedAt i = t.wraps := by
    obtain ⟨c, _, rfl⟩ := Traced.step_conf h
    simp [hself]
  by_cases hlocked : Locked t.conf.rbuf.next
  · have hstep : t.conf.step (.step i) = some (t.conf.own i (t.conf.rbuf.workers i)
        (.acquire len)) := by
      have hsame : t.conf.own i (t.conf.rbuf.workers i) (.acquire len) = t.conf := by
        simp [Config.own, ← hpc]
      rw [Config.step, Config.producerStep, hpc, hsame]
      exact if_pos hlocked
    refine (Traced.step_own h hstep hwraps hloads).inv hinv ?_ ?_ ⟨h₁, h₂, h₃⟩
      (by simp)
    · simp [Config.claim, claimOf, hpc]
    · simp [Pc.Locks, hpc]
  · have hstep : t.conf.step (.step i) = some (t.conf.own i (t.conf.rbuf.workers i)
        (.storeSeen len t.conf.rbuf.next)) := by
      rw [← Config.goto_eq, Config.step, Config.producerStep, hpc]
      exact if_neg hlocked
    refine (Traced.step_own h hstep hwraps hloads).inv hinv ?_ ?_ ⟨h₁, h₂, h₃, ?_⟩
      (by simp)
    · simp [Config.claim, claimOf, hpc]
    · simp [Pc.Locks, hpc]
    · rw [hla]
      exact hinv.shape.loaded hlocked

theorem loadedAt_of_step {a : Action n β} (h : t.step a = some t')
    (hloads : t.loads i a = false) : t'.loadedAt i = t.loadedAt i := by
  obtain ⟨c, _, rfl⟩ := Traced.step_conf h
  simp [hloads]

theorem inv_storeSeen {len seen : Nat} (hinv : Inv t v q)
    (hpc : t.conf.pcs i = .storeSeen len seen) (h : t.step (.step i) = some t') :
    Inv t' v q := by
  have hok := hinv.producers i
  rw [hpc] at hok
  obtain ⟨h₁, _, h₃, h₄⟩ := hok
  have hloads : ∀ j, t.loads j (.step i) = false := fun j => by simp [Traced.loads, hpc]
  have hstep : t.conf.step (.step i) = some (t.conf.own i
      { t.conf.rbuf.workers i with seenOff := seen &&& rbufOffMask ||| wrapLockBit }
      (.readWritten len seen)) := by
    rw [Config.step, Config.producerStep, hpc]
    rfl
  have hoff := h₄.off_lt hinv.shape
  have hspace := hinv.shape.space_lt
  refine (Traced.step_own h hstep ?_ fun j _ => hloads j).inv hinv ?_ ?_
    ⟨h₁, or_lock (by omega), h₃, ?_⟩ (by simp)
  · simp [Traced.wrapsAround, hpc]
  · simp [Config.claim, claimOf, hpc]
  · simp [Pc.Locks, hpc]
  · rw [loadedAt_of_step h (hloads i)]
    exact h₄

/-- The new value of `next` is computed, or the producer finds that it must wait. -/
theorem inv_readWritten {len seen : Nat} (hinv : Inv t v q)
    (hpc : t.conf.pcs i = .readWritten len seen) (h : t.step (.step i) = some t') :
    Inv t' v q := by
  have hok := hinv.producers i
  rw [hpc] at hok
  obtain ⟨h₁, h₂, h₃, h₄⟩ := hok
  have hwraps : t.wrapsAround (.step i) = false := by simp [Traced.wrapsAround, hpc]
  have hloads : ∀ j, t.loads j (.step i) = false := fun j => by simp [Traced.loads, hpc]
  cases ht : acquireTarget t.conf.rbuf.space len seen t.conf.rbuf.written with
  | none =>
      have hstep : t.conf.step (.step i) = some (t.conf.own i (t.conf.rbuf.workers i)
          .giveUp) := by
        rw [← Config.goto_eq, Config.step, Config.producerStep, hpc]
        simp only [ht]
      refine (Traced.step_own h hstep hwraps fun j _ => hloads j).inv hinv ?_ ?_
        ⟨h₁, ?_⟩ (by simp)
      · simp [Config.claim, claimOf, hpc]
      · simp [Pc.Locks, hpc]
      · rw [h₂]
        exact locked_mark hinv.shape (h₄.off_lt hinv.shape)
  | some target =>
      have hstep : t.conf.step (.step i) = some (t.conf.own i (t.conf.rbuf.workers i)
          (.cas len seen target)) := by
        rw [← Config.goto_eq, Config.step, Config.producerStep, hpc]
        simp only [ht]
      refine (Traced.step_own h hstep hwraps fun j _ => hloads j).inv hinv ?_ ?_
        ⟨h₁, h₂, h₃, ?_, ?_⟩ (by simp)
      · simp [Config.claim, claimOf, hpc]
      · simp [Pc.Locks, hpc]
      · rw [loadedAt_of_step h (hloads i)]
        exact h₄
      · rintro rfl -
        exact hinv.shape.fits h₃.1 h₃.2 ht

/-- `next` has changed since the producer has loaded it. -/
theorem inv_casFails {len seen target : Nat} (hinv : Inv t v q)
    (hpc : t.conf.pcs i = .cas len seen target) (hne : t.conf.rbuf.next ≠ seen)
    (h : t.step (.step i) = some t') : Inv t' v q := by
  have hok := hinv.producers i
  rw [hpc] at hok
  obtain ⟨h₁, h₂, h₃, h₄, _⟩ := hok
  have hstep : t.conf.step (.step i) = some (t.conf.own i (t.conf.rbuf.workers i)
      (.acquire len)) := by
    rw [← Config.goto_eq, Config.step, Config.producerStep, hpc]
    exact if_neg hne
  refine (Traced.step_own h hstep ?_ fun j _ => ?_).inv hinv ?_ ?_
    ⟨h₁, .inr ?_, h₃⟩ (by simp)
  · simp [Traced.wrapsAround, hpc, hne]
  · simp [Traced.loads, hpc]
  · simp [Config.claim, claimOf, hpc]
  · simp [Pc.Locks, hpc]
  · rw [h₂]
    exact locked_mark hinv.shape (h₄.off_lt hinv.shape)

theorem inv_giveUp (hinv : Inv t v q) (hpc : t.conf.pcs i = .giveUp)
    (h : t.step (.step i) = some t') : Inv t' v q := by
  have hok := hinv.producers i
  rw [hpc] at hok
  have hstep : t.conf.step (.step i) = some (t.conf.own i
      { t.conf.rbuf.workers i with seenOff := rbufOffMax } .idle) := by
    rw [Config.step, Config.producerStep, hpc]
    rfl
  refine (Traced.step_own h hstep ?_ fun j _ => ?_).inv hinv ?_ ?_ ⟨hok.1, rfl⟩
    (by simp)
  · simp [Traced.wrapsAround, hpc]
  · simp [Traced.loads, hpc]
  · simp [Config.claim, claimOf, hpc]
  · simp [Pc.Locks, hpc]

/-- The offset that the consumer sees becomes stable. -/
theorem inv_clearSeen {len seen target : Nat} (hinv : Inv t v q)
    (hpc : t.conf.pcs i = .clearSeen len seen target) (h : t.step (.step i) = some t') :
    Inv t' v q := by
  have hok := hinv.producers i
  rw [hpc] at hok
  obtain ⟨h₁, h₂, h₃, h₄⟩ := hok
  have hspace := hinv.shape.space_lt
  have hclear : clearLock (t.conf.rbuf.workers i).seenOff = seen &&& rbufOffMask := by
    have hoff := h₃.1
    rw [h₂, clearLock_pack (by omega) (by omega), pack_false]
    omega
  have hwraps : t.wrapsAround (.step i) = false := by simp [Traced.wrapsAround, hpc]
  have hloads : ∀ j, t.loads j (.step i) = false := fun j => by simp [Traced.loads, hpc]
  by_cases hlocked : Locked target
  · have hstep : t.conf.step (.step i) = some (t.conf.own i
        { t.conf.rbuf.workers i with seenOff := seen &&& rbufOffMask }
        (.saveEnd len seen target)) := by
      rw [Config.step, Config.producerStep, hpc]
      simp only [hclear, if_pos hlocked]
      rfl
    refine (Traced.step_own h hstep hwraps fun j _ => hloads j).inv hinv ?_ ?_
      ⟨h₁, rfl, h₃, h₄ hlocked⟩ (by simp)
    · simp [Config.claim, claimOf, hpc, hlocked]
    · simp [Pc.Locks, hpc, hlocked]
  · have hstep : t.conf.step (.step i) = some (t.conf.own i
        { t.conf.rbuf.workers i with seenOff := seen &&& rbufOffMask }
        (.holding (seen &&& rbufOffMask) len)) := by
      rw [Config.step, Config.producerStep, hpc]
      simp only [hclear, if_neg hlocked]
      rfl
    refine (Traced.step_own h hstep hwraps fun j _ => hloads j).inv hinv ?_ ?_ h₁
      (by simp)
    · simp [Config.claim, claimOf, hpc, hlocked]
    · simp [Pc.Locks, hpc, hlocked]

/-! ### Steps that change the words of all threads -/

/-- If nothing has kept the word, the compare and exchange of a producer that is not too late
finds that it has loaded the current values. -/
theorem current_of_cas (hinv : Inv t v q) {seen : Nat} (hl : (t.env v).Loaded (t.loadedAt i) seen)
    (hnext : t.conf.rbuf.next = seen) (hfresh : t.wraps < t.loadedAt i + 0x80000000) :
    v.lock = none ∧ t.loadedAt i = t.wraps := by
  obtain ⟨o, ho, hseen, hle, _⟩ := hl
  have hspace := hinv.shape.space_lt
  have hoff := hinv.shape.off_lt
  have hword := hinv.shape.next_eq
  change t.conf.rbuf.next = _ at hword
  rw [hnext, hseen] at hword
  obtain ⟨hlock, hmod, _⟩ := pack_inj (Nat.mod_lt _ (by omega)) (by omega)
    (Nat.mod_lt _ (by omega)) (by omega) hword
  have hnone : v.lock.isSome = false := hlock.symm
  change t.loadedAt i ≤ t.wraps at hle
  change t.loadedAt i % 0x80000000 = t.wraps % 0x80000000 at hmod
  exact ⟨by simpa using hnone, by omega⟩

/-- A successful compare and exchange reserves the bytes of a new claim. -/
theorem inv_reserve [DecidableEq β] {len seen target : Nat} (hinv : Inv t v q)
    (hpc : t.conf.pcs i = .cas len seen target) (hnext : t.conf.rbuf.next = seen)
    (hfresh : t.wraps < t.loadedAt i + 0x80000000) (h : t.step (.step i) = some t') :
    ∃ v' q', q.apply (.reserve i len) = some q' ∧ Inv t' v' q' := by
  have hok := hinv.producers i
  rw [hpc] at hok
  obtain ⟨h₁, h₂, h₃, h₄, h₅⟩ := hok
  obtain ⟨hlock, hla⟩ := current_of_cas hinv h₄ hnext hfresh
  obtain ⟨e', hres⟩ := (h₅ hnext.symm hla).reserves i
  have hs := hinv.shape
  have hseenOff : seen &&& rbufOffMask = v.off := by
    rw [← hnext]
    exact hs.next_off
  obtain ⟨c, hc, rfl⟩ := Traced.step_conf h
  have hc' : t.conf.step (.step i) =
      some ((t.conf.setNext target).goto i (.clearSeen len seen target)) := by
    rw [Config.step, Config.producerStep, hpc]
    exact if_pos hnext
  obtain rfl := Option.some.inj (hc'.symm.trans hc)
  have hclaimOld : t.conf.claim i = none := by simp [Config.claim, claimOf, hpc]
  have hclaims : ((t.conf.setNext target).goto i (.clearSeen len seen target)).claim =
      Function.update t.conf.claim i (some ((t.env v).newClaim len target)) := by
    funext j
    by_cases hj : j = i
    · subst hj
      simp [Config.claim, Config.goto, Config.setNext, claimOf, Env.newClaim, hseenOff,
        Traced.env]
    · simp [Config.claim, Config.goto, Config.setNext, hj]
  have hwraps : (if t.wrapsAround (.step i) then t.wraps + 1 else t.wraps) = e'.wraps := by
    rw [hres.wraps_eq hs]
    simp [Traced.wrapsAround, hpc, hnext, Traced.env]
  have henv : ∀ la, Traced.env ⟨(t.conf.setNext target).goto i (.clearSeen len seen target),
      if t.wrapsAround (.step i) then t.wraps + 1 else t.wraps, la⟩ e'.toView = e' := by
    obtain ⟨hsp, hwr, hen, hnx⟩ := hres.same
    intro la
    rw [hwraps]
    cases e'
    simp only [Traced.env] at hsp hwr hen hnx ⊢
    subst hsp hwr hen hnx
    rfl
  have hlive := hres.live_eq hs hlock
  have hpos : 0 < ((t.env v).newClaim len target).len := h₃.1
  have hlen := hinv.cells.length_eq
  have hfree := unreserved_of_claims hinv.cells hclaimOld
  refine ⟨e'.toView, { q with cells := q.cells ++ message (List.replicate len (.pending i)) },
    if_pos ⟨h₃.1, hfree⟩, ?_⟩
  constructor
  · rw [henv]
    exact hres.shape hs hlock
  · intro x hx hl hcons
    rw [henv]
    exact hres.endSaved hs (fun y hy => hinv.ends y hy hlock hcons) hl hx
  · intro j
    rw [henv]
    by_cases hj : j = i
    · subst hj
      simp only [Config.goto, Config.setNext, Function.update_self]
      have hoff := hs.off_lt
      refine ⟨h₁, h₂, ⟨?_, ?_⟩, fun hl => ?_⟩
      · rw [hres.same.1]
        exact h₄.off_lt hs
      · rw [hres.same.1]
        exact hres.target_le hs
      · obtain ⟨hcut, hend⟩ := hres.locked_cut hs hlock hl
        exact ⟨by rw [hcut, hseenOff]; rfl, hend, hres.same.2.2.2.symm⟩
    · have hloads : t.loads j (.step i) = false := by simp [Traced.loads, hpc]
      simp only [Config.goto, Config.setNext, Function.update_of_ne hj, hloads]
      refine (hinv.producers j).mono hres.same.1 (fun w hw => (hres.loaded h₃.1 hw).1) ?_ ?_
      · intro w len' target' hw _ _ heq hwr
        exact absurd hwr ((hres.loaded h₃.1 hw).2 heq)
      · intro hl
        rw [hinv.locks j, hlock] at hl
        cases hl
  · intro j
    by_cases hj : j = i
    · subst hj
      simp only [Config.goto, Function.update_self]
      exact hres.locked_iff hs hlock
    · simp only [Config.goto, Config.setNext, Function.update_of_ne hj]
      rw [hinv.locks j, hlock]
      exact ⟨fun hl => absurd hl (by simp), fun hl => absurd (hres.lock_eq hlock hl) hj⟩
  · rw [hclaims, henv]
    intro j cl hcl
    by_cases hj : j = i
    · subst hj
      rw [Function.update_self] at hcl
      obtain rfl := Option.some.inj hcl
      exact hres.holds_new hs hlock h₃.1
    · rw [Function.update_of_ne hj] at hcl
      exact hres.holds_old hs (hinv.holds j cl hcl)
  · rw [hclaims, henv, hlive]
    exact cells_reserve hs hinv.cells hinv.holds hclaimOld hpos fun x hx =>
      hres.free hs hlock hx
  · exact fun x hx => cutStart_reserve hs hres hlock hinv.cutStart hlen hx
  · rw [hclaims, henv]
    exact hinv.consumer.reserve hres hs hlock hlen _
  · exact hinv.granted
  · intro w nx j ready hread hpcj
    by_cases hj : j = i
    · subst hj
      simp [Config.goto] at hpcj
    · simp only [Config.goto, Config.setNext, Function.update_of_ne hj] at hpcj ⊢
      exact hinv.rereads w nx j ready hread hpcj

/-- The words of two states reserve the same bytes. -/
structure SameBytes (e e' : Env n) : Prop where
  space : e'.space = e.space
  written : e'.written = e.written
  off : e'.off = e.off
  cut : e'.cut = e.cut
  lock : e.lock = none → e'.lock = none ∧ e'.endOff = e.endOff

namespace SameBytes

variable {e e' : Env n} {claims : Fin n → Option Claim} {cells : List (Cell (Fin n) β)}

theorem hi (h : SameBytes e e') : e'.hi = e.hi := by
  rw [Env.hi, Env.hi, h.cut, h.off]

theorem live (h : SameBytes e e') : e'.live = e.live := by
  rw [Env.live, Env.live, h.cut, h.off, h.written]

theorem holds (h : SameBytes e e') {cl : Claim} (hcl : e.Holds cl) : e'.Holds cl := by
  refine ⟨hcl.pos, ?_⟩
  rw [h.written, h.hi, h.cut, h.off, h.space]
  exact hcl.place

theorem scan (h : SameBytes e e') {nx ready upto : Nat}
    (hscan : Scan e claims cells nx ready upto) : Scan e' claims cells nx ready upto := by
  obtain ⟨h₁, h₂, h₃, h₄, h₅, h₆⟩ := hscan
  constructor
  · rwa [h.written]
  · rwa [h.written, h.hi]
  · rw [h.written, h.cut]
    exact fun hnx => ⟨(h₃ hnx).1, (h.lock (h₃ hnx).2).1⟩
  · rwa [h.written]
  · rwa [h.written, h.hi]
  · rwa [h.written]

theorem consumerOk (h : SameBytes e e') {granted : Nat} {pc : ConsumerPc n}
    (hc : ConsumerOk e claims cells granted pc) : ConsumerOk e' claims cells granted pc := by
  cases pc with
  | idle => rwa [ConsumerOk, h.written, h.hi]
  | loadNext written => exact hc.trans h.written.symm
  | scan written nx k ready => exact ⟨hc.1.trans h.written.symm, h.scan hc.2⟩
  | readSeen written nx k ready => exact ⟨hc.1.trans h.written.symm, h.scan hc.2⟩
  | decide written nx ready => exact ⟨hc.1.trans h.written.symm, h.scan hc.2⟩
  | clearEnd =>
      obtain ⟨h₁, h₂, h₃⟩ := hc
      rw [ConsumerOk, h.written, h.cut]
      exact ⟨h₁, (h.lock h₂).1, h₃⟩
  | resetWritten =>
      obtain ⟨h₁, h₂, h₃, h₄⟩ := hc
      obtain ⟨h₅, h₆⟩ := h.lock h₂
      rw [ConsumerOk, h.written, h.cut]
      exact ⟨h₁, h₅, h₆.trans h₃, h₄⟩

end SameBytes

/-- A step of the producer that has locked `next`, which reserves nothing. -/
theorem inv_locker (pc : Pc) {c : Config n β} {v' : View n} (hinv : Inv t v q)
    (hlock : v.lock = some i) (hshape : (Traced.env ⟨c, t.wraps, t.loadedAt⟩ v').Shape)
    (hsame : SameBytes (t.env v) (Traced.env ⟨c, t.wraps, t.loadedAt⟩ v'))
    (hpcs : c.pcs = Function.update t.conf.pcs i pc)
    (hworkers : c.rbuf.workers = t.conf.rbuf.workers) (hmem : c.mem = t.conf.mem)
    (hcons : c.consumer = t.conf.consumer) (hgranted : c.granted = t.conf.granted)
    (hclaim : claimOf (t.conf.rbuf.workers i) pc = t.conf.claim i)
    (hends : ∀ x, v'.cut = some x → v'.lock = none → t.conf.consumer ≠ .resetWritten →
      (Traced.env ⟨c, t.wraps, t.loadedAt⟩ v').EndSaved x)
    (hok : ProducerOk (Traced.env ⟨c, t.wraps, t.loadedAt⟩ v') (t.loadedAt i)
      (t.conf.rbuf.workers i) pc)
    (hpcLock : pc.Locks ↔ v'.lock = some i) (hother : ∀ j, j ≠ i → v'.lock ≠ some j)
    (hreg : pc ≠ .unregistered) :
    Inv ⟨c, t.wraps, t.loadedAt⟩ v' q := by
  have hunlocked : ∀ j, j ≠ i → ¬ (t.conf.pcs j).Locks := by
    intro j hj hl
    have hji := (hinv.locks j).mp hl
    rw [hlock] at hji
    exact hj (Option.some.inj hji).symm
  have hclaims : c.claim = t.conf.claim := by
    funext j
    by_cases hj : j = i
    · subst hj
      rw [Config.claim, hpcs, hworkers, Function.update_self, hclaim]
    · rw [Config.claim, Config.claim, hpcs, hworkers, Function.update_of_ne hj]
  refine ⟨hshape, by rwa [hcons], fun j => ?_, fun j => ?_, fun j cl hcl => ?_, ?_, ?_, ?_, ?_, ?_⟩
  · simp only [hpcs, hworkers]
    by_cases hj : j = i
    · subst hj
      rwa [Function.update_self]
    · rw [Function.update_of_ne hj]
      refine (hinv.producers j).mono hsame.space (fun seen hl => ?_) (fun seen len tg hl _ _ => ?_)
        fun hl => absurd hl (hunlocked j hj)
      · obtain ⟨o, h₁, h₂, h₃, h₄⟩ := hl
        refine ⟨o, by rwa [hsame.space], h₂, h₃, fun hla => ?_⟩
        have hnone := (h₄ hla).1
        exact absurd (hlock.symm.trans hnone) (by simp)
      · obtain ⟨o, _, _, _, h₄⟩ := hl
        intro _ hla
        have hnone := (h₄ hla).1
        exact absurd (hlock.symm.trans hnone) (by simp)
  · simp only [hpcs]
    by_cases hj : j = i
    · subst hj
      rwa [Function.update_self]
    · rw [Function.update_of_ne hj]
      exact iff_of_false (hunlocked j hj) (hother j hj)
  · simp only [hclaims] at hcl
    exact hsame.holds (hinv.holds j cl hcl)
  · simp only [hclaims, hmem]
    rw [hsame.live]
    exact hinv.cells
  · have hcut : v'.cut = v.cut := hsame.cut
    have hwr : c.rbuf.written = t.conf.rbuf.written := hsame.written
    rw [hcut]
    simp only [hwr]
    exact hinv.cutStart
  · simp only [hclaims, hcons, hgranted]
    exact hsame.consumerOk hinv.consumer
  · simp only [hcons, hgranted]
    exact hinv.granted
  · intro w nx j ready hread hpcj
    simp only [hcons] at hread
    simp only [hpcs] at hpcj
    simp only [hworkers]
    by_cases hj : j = i
    · subst hj
      rw [Function.update_self] at hpcj
      exact absurd hpcj hreg
    · rw [Function.update_of_ne hj] at hpcj
      exact hinv.rereads w nx j ready hread hpcj

/-- The place where the end is cut off is saved. -/
theorem inv_saveEnd {len seen target : Nat} (hinv : Inv t v q)
    (hpc : t.conf.pcs i = .saveEnd len seen target) (h : t.step (.step i) = some t') :
    Inv t' v q := by
  have hok := hinv.producers i
  rw [hpc] at hok
  obtain ⟨h₁, h₂, h₃, h₄, h₅, h₆⟩ := hok
  have hlock : v.lock = some i := (hinv.locks i).mp (by rw [hpc]; trivial)
  obtain ⟨c, hc, rfl⟩ := Traced.step_conf h
  have hc' : t.conf.step (.step i) =
      some ((t.conf.setEnd (seen &&& rbufOffMask)).goto i (.unlock len target)) := by
    rw [Config.step, Config.producerStep, hpc]
  obtain rfl := Option.some.inj (hc'.symm.trans hc)
  have hloads : ∀ j, t.loads j (.step i) = false := fun j => by simp [Traced.loads, hpc]
  have hwraps : t.wrapsAround (.step i) = false := by simp [Traced.wrapsAround, hpc]
  simp only [hloads, hwraps]
  refine inv_locker (i := i) (.unlock len target) hinv hlock ?_
    ⟨rfl, rfl, rfl, rfl, fun hnone => ?_⟩ rfl rfl rfl rfl rfl ?_ ?_ ?_ ?_ ?_ ?_
  · refine ⟨hinv.shape.space_lt, hinv.shape.next_eq, fun hcut => ?_, hinv.shape.wrapped⟩
    exact absurd (h₄.symm.trans hcut) (by simp)
  · exact absurd (hlock.symm.trans hnone) (by simp)
  · simp [Config.claim, claimOf, hpc]
  · intro x _ hnone
    exact absurd (hlock.symm.trans hnone) (by simp)
  · exact ⟨h₁, ⟨by rw [h₂]; exact h₃.1, h₃.2⟩, by rw [h₂]; exact h₄, h₂.symm, h₆⟩
  · exact iff_of_true trivial hlock
  · intro j hj hl
    exact hj (Option.some.inj (hl.symm.trans hlock))
  · simp

/-- The word is unlocked when the end has been saved. -/
theorem inv_unlock {len target : Nat} (hinv : Inv t v q)
    (hpc : t.conf.pcs i = .unlock len target) (h : t.step (.step i) = some t') :
    ∃ v', Inv t' v' q := by
  have hok := hinv.producers i
  rw [hpc] at hok
  obtain ⟨h₁, h₂, h₃, h₄, h₅⟩ := hok
  have hlock : v.lock = some i := (hinv.locks i).mp (by rw [hpc]; trivial)
  obtain ⟨c, hc, rfl⟩ := Traced.step_conf h
  have hc' : t.conf.step (.step i) =
      some ((t.conf.setNext (clearLock target)).goto i (.holding 0 len)) := by
    rw [Config.step, Config.producerStep, hpc]
  obtain rfl := Option.some.inj (hc'.symm.trans hc)
  have hloads : ∀ j, t.loads j (.step i) = false := fun j => by simp [Traced.loads, hpc]
  have hwraps : t.wrapsAround (.step i) = false := by simp [Traced.wrapsAround, hpc]
  simp only [hloads, hwraps]
  refine ⟨{ v with lock := none }, ?_⟩
  refine inv_locker (i := i) (.holding 0 len) hinv hlock ?_
    ⟨rfl, rfl, rfl, rfl, fun hnone => ?_⟩ rfl rfl rfl rfl rfl ?_ ?_ h₁ ?_ ?_ ?_
  · refine ⟨hinv.shape.space_lt, ?_, fun hcut => ?_, hinv.shape.wrapped⟩
    · have hoff := hinv.shape.off_lt
      have hspace := hinv.shape.space_lt
      change clearLock target = _
      rw [h₅, hinv.shape.next_eq, clearLock_pack (Nat.mod_lt _ (by omega)) (by omega)]
      rfl
    · exact absurd (h₃.symm.trans hcut) (by simp)
  · exact absurd (hlock.symm.trans hnone) (by simp)
  · simp [Config.claim, claimOf, hpc]
  · intro x hx _ _
    obtain rfl := Option.some.inj (h₃.symm.trans hx)
    exact .inr ⟨h₂.1, h₄⟩
  · exact iff_of_false (fun hl => hl) (by simp)
  · simp
  · simp

/-- The consumer is not disturbed when a claim is given up. -/
theorem ConsumerOk.giveUp {claims claims' : Fin n → Option Claim}
    {cells cells' : List (Cell (Fin n) β)} (hsub : ∀ j cl, claims' j = some cl → claims j = some cl)
    (hstart : ∀ k, StartsAt cells k → StartsAt cells' k) {granted : Nat} {pc : ConsumerPc n}
    (hc : ConsumerOk e claims cells granted pc) : ConsumerOk e claims' cells' granted pc := by
  have hscan : ∀ nx ready upto, Scan e claims cells nx ready upto →
      Scan e claims' cells' nx ready upto := by
    rintro nx ready upto ⟨h₁, h₂, h₃, h₄, h₅, h₆⟩
    exact ⟨h₁, fun hnx => (h₂ hnx).imp_right (hstart _), h₃, h₄,
      h₅.imp_right fun h => h.imp_right (hstart _), fun j hj cl hcl => h₆ j hj cl (hsub j cl hcl)⟩
  cases pc with
  | idle => exact ⟨hc.1, fun j cl hcl => hc.2 j cl (hsub j cl hcl)⟩
  | loadNext written => exact hc
  | scan written nx k ready => exact ⟨hc.1, hscan _ _ _ hc.2⟩
  | readSeen written nx k ready => exact ⟨hc.1, hscan _ _ _ hc.2⟩
  | decide written nx ready => exact ⟨hc.1, hscan _ _ _ hc.2⟩
  | clearEnd => exact ⟨hc.1, hc.2.1, fun j cl hcl => hc.2.2 j cl (hsub j cl hcl)⟩
  | resetWritten =>
      exact ⟨hc.1, hc.2.1, hc.2.2.1, fun j cl hcl => hc.2.2.2 j cl (hsub j cl hcl)⟩

/-- A producer gives up its claim and fills it. -/
theorem inv_produce [DecidableEq β] {off len : Nat} (hinv : Inv t v q)
    (hpc : t.conf.pcs i = .holding off len) (h : t.step (.produce i) = some t') :
    ∃ q', q.apply (.produce i (t.conf.bytes off len)) = some q' ∧ Inv t' v q' := by
  have hok := hinv.producers i
  rw [hpc] at hok
  have hstep : t.conf.step (.produce i) = some (t.conf.own i
      { t.conf.rbuf.workers i with seenOff := rbufOffMax } .idle) := by
    rw [Config.step, hpc]
    rfl
  have hown := Traced.step_own h hstep rfl fun j _ => rfl
  have henv := hown.env v
  have hclaim : t.conf.claim i = some ⟨off, len, (t.conf.rbuf.workers i).seenOff⟩ := by
    simp [Config.claim, claimOf, hpc]
  have hclaims : t'.conf.claim = Function.update t.conf.claim i none := by
    funext j
    by_cases hj : j = i
    · subst hj
      rw [hown.claim_self, Function.update_self]
      rfl
    · rw [hown.claim_other hj, Function.update_of_ne hj]
  have hsub : ∀ j cl, t'.conf.claim j = some cl → t.conf.claim j = some cl := by
    intro j cl hcl
    rw [hclaims] at hcl
    by_cases hj : j = i
    · subst hj
      simp at hcl
    · rwa [Function.update_of_ne hj] at hcl
  obtain ⟨hcells, hcount⟩ := cells_produce hinv.shape hinv.cells hclaim (hinv.holds i _ hclaim)
  have hstart : ∀ k, StartsAt q.cells k → StartsAt (fill i (t.conf.bytes off len) q.cells) k :=
    fun k hk => startsAt_fill hk _
  refine ⟨{ q with cells := fill i (t.conf.bytes off len) q.cells }, if_pos hcount, ?_⟩
  constructor
  · rw [henv]
    exact hinv.shape
  · rw [henv, hown.consumer]
    exact hinv.ends
  · intro j
    rw [henv, hown.workers, hown.pcs]
    by_cases hj : j = i
    · subst hj
      rw [Function.update_self, Function.update_self]
      exact ⟨hok, rfl⟩
    · rw [Function.update_of_ne hj, Function.update_of_ne hj, hown.loadedAt j hj]
      exact hinv.producers j
  · intro j
    rw [hown.pcs]
    by_cases hj : j = i
    · subst hj
      have hnone := hinv.locks j
      rw [hpc] at hnone
      rwa [Function.update_self]
    · rw [Function.update_of_ne hj]
      exact hinv.locks j
  · rw [henv]
    exact fun j cl hcl => hinv.holds j cl (hsub j cl hcl)
  · rw [henv, hclaims, hown.mem]
    exact hcells
  · intro x hx
    rw [hown.rbuf]
    exact hstart _ (hinv.cutStart x hx)
  · rw [henv, hown.consumer, hown.granted]
    exact hinv.consumer.giveUp hsub hstart
  · rw [hown.consumer, hown.granted]
    exact hinv.granted
  · intro w nx j ready hread hpcj
    rw [hown.consumer] at hread
    rw [hown.pcs] at hpcj
    rw [hown.workers]
    by_cases hj : j = i
    · subst hj
      rw [Function.update_self] at hpcj
      cases hpcj
    · rw [Function.update_of_ne hj] at hpcj ⊢
      exact hinv.rereads w nx j ready hread hpcj

/-- A producer writes into its claim. -/
theorem inv_write {k : Nat} {b : β} (hinv : Inv t v q) (h : t.step (.write i k b) = some t') :
    Inv t' v q := by
  obtain ⟨c, hc, rfl⟩ := Traced.step_conf h
  cases hpc : t.conf.pcs i with
  | holding off len =>
      rw [Config.step, hpc] at hc
      obtain ⟨hk, hc⟩ := Option.ite_none_right_eq_some.mp hc
      obtain rfl := Option.some.inj hc
      have hclaim : t.conf.claim i = some ⟨off, len, (t.conf.rbuf.workers i).seenOff⟩ := by
        simp [Config.claim, claimOf, hpc]
      have hhas : Claim.Has ⟨off, len, (t.conf.rbuf.workers i).seenOff⟩ (off + k) :=
        ⟨Nat.le_add_right _ _, Nat.add_lt_add_left hk _⟩
      have hcells := cells_write hinv.cells hclaim hhas b
      exact ⟨hinv.shape, hinv.ends, hinv.producers, hinv.locks, hinv.holds, hcells,
        hinv.cutStart, hinv.consumer, hinv.granted, hinv.rereads⟩
  | _ => simp [Config.step, hpc] at hc

/-- A step of a producer inside of the functions of the ring buffer. -/
theorem inv_step [DecidableEq β] (hinv : Inv t v q) (hfresh : t.Fresh (.step i))
    (h : t.step (.step i) = some t') :
    ∃ v' q', q.apply (t.conf.event (.step i)) = some q' ∧ Inv t' v' q' := by
  cases hpc : t.conf.pcs i with
  | unregistered =>
      obtain ⟨c, hc, _⟩ := Traced.step_conf h
      simp [Config.step, Config.producerStep, hpc] at hc
  | idle =>
      obtain ⟨c, hc, _⟩ := Traced.step_conf h
      simp [Config.step, Config.producerStep, hpc] at hc
  | holding off len =>
      obtain ⟨c, hc, _⟩ := Traced.step_conf h
      simp [Config.step, Config.producerStep, hpc] at hc
  | registering =>
      exact ⟨v, q, by simp [Config.event, hpc, Queue.apply], inv_registering hinv hpc h⟩
  | acquire len => exact ⟨v, q, by simp [Config.event, hpc, Queue.apply], inv_load hinv hpc h⟩
  | storeSeen len seen =>
      exact ⟨v, q, by simp [Config.event, hpc, Queue.apply], inv_storeSeen hinv hpc h⟩
  | readWritten len seen =>
      exact ⟨v, q, by simp [Config.event, hpc, Queue.apply], inv_readWritten hinv hpc h⟩
  | cas len seen target =>
      by_cases hnext : t.conf.rbuf.next = seen
      · have hf : t.wraps < t.loadedAt i + 0x80000000 := by simpa [Traced.Fresh, hpc] using hfresh
        obtain ⟨v', q', hq, hinv'⟩ := inv_reserve hinv hpc hnext hf h
        exact ⟨v', q', by simpa [Config.event, hpc, hnext] using hq, hinv'⟩
      · exact ⟨v, q, by simp [Config.event, hpc, hnext, Queue.apply],
          inv_casFails hinv hpc hnext h⟩
  | giveUp => exact ⟨v, q, by simp [Config.event, hpc, Queue.apply], inv_giveUp hinv hpc h⟩
  | clearSeen len seen target =>
      exact ⟨v, q, by simp [Config.event, hpc, Queue.apply], inv_clearSeen hinv hpc h⟩
  | saveEnd len seen target =>
      exact ⟨v, q, by simp [Config.event, hpc, Queue.apply], inv_saveEnd hinv hpc h⟩
  | unlock len target =>
      obtain ⟨v', hinv'⟩ := inv_unlock hinv hpc h
      exact ⟨v', q, by simp [Config.event, hpc, Queue.apply], hinv'⟩

end Steps

end XMonitor.Rbuf
