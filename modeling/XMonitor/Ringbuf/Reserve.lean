import XMonitor.Ringbuf.Invariant

/-!
# How a producer reserves bytes

The new value of `next` comes from values that the producer has loaded before. If `next` has not
changed since, only the consumer has moved, which makes more bytes free. The value then reserves
bytes behind all others, in one of three ways: it advances the offset, it uses the buffer exactly
up to its end, or it cuts off the end of the buffer and locks the word until the place is saved.
-/

namespace XMonitor.Rbuf

open MessageQueue

variable {n : Nat} {β : Type*}

namespace Env

variable {e : Env n}

theorem Shape.off_lt (h : e.Shape) : e.off < e.space := by
  cases hcut : e.cut with
  | none => exact (h.whole hcut).2.1
  | some x =>
      obtain ⟨h₁, h₂, h₃⟩ := h.wrapped x hcut
      omega

theorem Shape.next_off (h : e.Shape) : e.next &&& rbufOffMask = e.off := by
  have hoff := h.off_lt
  have hspace := h.space_lt
  rw [h.next_eq, pack_and_offMask (by omega)]

theorem Shape.locked_next (h : e.Shape) : Locked e.next ↔ e.lock.isSome = true := by
  have hoff := h.off_lt
  have hspace := h.space_lt
  rw [h.next_eq, locked_pack (Nat.mod_lt _ (by omega)) (by omega)]

theorem Shape.loaded (h : e.Shape) (hlock : ¬ Locked e.next) : e.Loaded e.wraps e.next := by
  rw [h.locked_next] at hlock
  have hnone : e.lock = none := by simpa using hlock
  refine ⟨e.off, h.off_lt, ?_, Nat.le_refl _, fun _ => ⟨hnone, Nat.le_refl _⟩⟩
  rw [h.next_eq, hnone]
  rfl

theorem Loaded.off_lt {la seen : Nat} (hs : e.Shape) (h : e.Loaded la seen) :
    seen &&& rbufOffMask < e.space := by
  obtain ⟨o, ho, rfl, _⟩ := h
  have hspace := hs.space_lt
  rwa [pack_and_offMask (by omega)]

/-- What `ringbuf_acquire` computes from an unchanged `next` fits into the free bytes. -/
theorem Shape.fits (h : e.Shape) {len target : Nat} (hpos : 0 < len) (hlen : len ≤ e.space)
    (ht : acquireTarget e.space len e.next e.written = some target) :
    e.Fits len target := by
  have hoff := h.off_lt
  have hspace := h.space_lt
  have hmod : e.wraps % 0x80000000 < 0x80000000 := Nat.mod_lt _ (by omega)
  have hcounter : e.next &&& wrapCounter = e.wraps % 0x80000000 * 0x100000000 := by
    rw [h.next_eq, pack_and_counter hmod (by omega)]
  have hincr : wrapIncr (e.next &&& wrapCounter) =
      (e.wraps + 1) % 0x80000000 * 0x100000000 := by
    rw [hcounter, wrapIncr_counter hmod, Nat.mod_add_mod]
  rw [acquireTarget, hincr, hcounter, h.next_off] at ht
  by_cases hwait : e.off < e.written ∧ e.off + len ≥ e.written
  · rw [if_pos hwait] at ht
    cases ht
  rw [if_neg hwait] at ht
  by_cases hwrap : e.off + len ≥ e.space
  · rw [if_pos hwrap] at ht
    have hcut : e.cut = none := by
      cases hcut : e.cut with
      | none => rfl
      | some x =>
          obtain ⟨h₁, h₂, h₃⟩ := h.wrapped x hcut
          omega
    by_cases hexceed : e.off + len > e.space
    · simp only [hexceed, if_true] at ht
      rw [lock_or_and_offMask (by omega)] at ht
      by_cases hfull : len ≥ e.written
      · rw [if_pos hfull] at ht
        cases ht
      · rw [if_neg hfull, lock_or_counter (Nat.mod_lt _ (by omega)) (by omega)] at ht
        exact .exceed (Option.some.inj ht).symm hexceed hcut (by omega)
    · simp only [hexceed, if_false] at ht
      rw [Nat.zero_and] at ht
      by_cases hfull : 0 ≥ e.written
      · rw [if_pos hfull] at ht
        cases ht
      · rw [if_neg hfull, or_counter (by omega)] at ht
        exact .exactly (Option.some.inj ht).symm (by omega) hcut (by omega)
  · rw [if_neg hwrap, or_counter (by omega)] at ht
    refine .advance (Option.some.inj ht).symm (by omega) fun x hcut => ?_
    obtain ⟨h₁, h₂, h₃⟩ := h.wrapped x hcut
    omega

/-- The step that reserves bytes with the new value of `next`. -/
inductive Reserves (e : Env n) (i : Fin n) (len target : Nat) : Env n → Prop where
  | advance (htarget : target = pack false (e.wraps % 0x80000000) (e.off + len))
      (hspace : e.off + len < e.space) (hcut : ∀ x, e.cut = some x → e.off + len < e.written) :
      Reserves e i len target { e with off := e.off + len, next := target }
  | exactly (htarget : target = pack false ((e.wraps + 1) % 0x80000000) 0)
      (hspace : e.off + len = e.space) (hcut : e.cut = none) (hlen : 0 < e.written) :
      Reserves e i len target
        { e with off := 0, cut := some e.space, next := target, wraps := e.wraps + 1 }
  | exceed (htarget : target = pack true ((e.wraps + 1) % 0x80000000) len)
      (hspace : e.space < e.off + len) (hcut : e.cut = none) (hlen : len < e.written) :
      Reserves e i len target
        { e with
          off := len, cut := some e.off, lock := some i, next := target, wraps := e.wraps + 1 }

theorem Fits.reserves {len target : Nat} (h : e.Fits len target) (i : Fin n) :
    ∃ e', Reserves e i len target e' := by
  cases h with
  | advance htarget hspace hcut => exact ⟨_, .advance htarget hspace hcut⟩
  | exactly htarget hspace hcut hlen => exact ⟨_, .exactly htarget hspace hcut hlen⟩
  | exceed htarget hspace hcut hlen => exact ⟨_, .exceed htarget hspace hcut hlen⟩

namespace Reserves

variable {e' : Env n} {i : Fin n} {len target : Nat}

theorem same (h : Reserves e i len target e') :
    e'.space = e.space ∧ e'.written = e.written ∧ e'.endOff = e.endOff ∧ e'.next = target := by
  cases h <;> exact ⟨rfl, rfl, rfl, rfl⟩

theorem locked_iff (h : Reserves e i len target e') (hs : e.Shape) (hlock : e.lock = none) :
    Locked target ↔ e'.lock = some i := by
  have hoff := hs.off_lt
  have hspace := hs.space_lt
  cases h with
  | advance htarget hspace' hcut =>
      rw [htarget, locked_pack (Nat.mod_lt _ (by omega)) (by omega), hlock]
      simp
  | exactly htarget hspace' hcut hlen =>
      rw [htarget, locked_pack (Nat.mod_lt _ (by omega)) (by omega), hlock]
      simp
  | exceed htarget hspace' hcut hlen =>
      have hwritten := (hs.whole hcut).1
      rw [htarget, locked_pack (Nat.mod_lt _ (by omega)) (by omega)]
      simp

theorem lock_eq (h : Reserves e i len target e') (hlock : e.lock = none) {j : Fin n}
    (hj : e'.lock = some j) : j = i := by
  cases h with
  | advance => exact absurd (hlock.symm.trans hj) (by simp)
  | exactly => exact absurd (hlock.symm.trans hj) (by simp)
  | exceed => exact (Option.some.inj hj).symm

theorem shape (h : Reserves e i len target e') (hs : e.Shape) (hlock : e.lock = none) :
    e'.Shape := by
  have hoff := hs.off_lt
  cases h with
  | advance htarget hspace hcut =>
      refine ⟨hs.space_lt, ?_, fun hnone => ?_, fun x hx => ?_⟩
      · simpa [hlock] using htarget
      · obtain ⟨h₁, _, h₃⟩ := hs.whole hnone
        exact ⟨Nat.le_add_right_of_le h₁, hspace, h₃⟩
      · exact ⟨hcut x hx, (hs.wrapped x hx).2⟩
  | exactly htarget hspace hcut hlen =>
      refine ⟨hs.space_lt, ?_, fun hnone => absurd hnone (by simp), fun x hx => ?_⟩
      · simpa [hlock] using htarget
      · obtain rfl := Option.some.inj hx
        exact ⟨hlen, Nat.le_trans (hs.whole hcut).1 (Nat.le_of_lt hoff), Nat.le_refl _⟩
  | exceed htarget hspace hcut hlen =>
      refine ⟨hs.space_lt, htarget, fun hnone => absurd hnone (by simp), fun x hx => ?_⟩
      obtain rfl := Option.some.inj hx
      exact ⟨hlen, (hs.whole hcut).1, Nat.le_of_lt hoff⟩

theorem hi_le (h : Reserves e i len target e') (hs : e.Shape) : e.hi ≤ e'.hi := by
  have hoff := hs.off_lt
  cases h with
  | advance htarget hspace hcut =>
      cases hc : e.cut <;> simp [hi, hc]
  | exactly htarget hspace hcut hlen => simpa [hi, hcut] using Nat.le_of_lt hoff
  | exceed htarget hspace hcut hlen => simp [hi, hcut]

/-- Once the producers have wrapped around, they do not do so again. -/
theorem wrapped (h : Reserves e i len target e') (hcut : e.cut.isSome) :
    e'.cut = e.cut ∧ e'.lock = e.lock := by
  cases h with
  | advance => exact ⟨rfl, rfl⟩
  | exactly htarget hspace hnone => simp [hnone] at hcut
  | exceed htarget hspace hnone => simp [hnone] at hcut

theorem target_le (h : Reserves e i len target e') (hs : e.Shape) :
    target &&& rbufOffMask ≤ e.space := by
  have hspace := hs.space_lt
  cases h with
  | advance htarget hspace' hcut =>
      rw [htarget, pack_and_offMask (by omega)]
      exact Nat.le_of_lt hspace'
  | exactly htarget hspace' hcut hlen =>
      rw [htarget, pack_and_offMask (by omega)]
      exact Nat.zero_le _
  | exceed htarget hspace' hcut hlen =>
      obtain ⟨h₁, h₂, _⟩ := hs.whole hcut
      rw [htarget, pack_and_offMask (by omega)]
      omega

end Reserves

/-- The claim of the producer that reserves the bytes. -/
def newClaim (e : Env n) (len target : Nat) : Claim :=
  ⟨if Locked target then 0 else e.off, len, e.off⟩

namespace Reserves

variable {e' : Env n} {i : Fin n} {len target : Nat}

/-- The bytes are reserved behind all others. -/
theorem live_eq (h : Reserves e i len target e') (hs : e.Shape) (hlock : e.lock = none) :
    e'.live = e.live ++ List.range' (e.newClaim len target).off len := by
  have hlocked := h.locked_iff hs hlock
  cases h with
  | advance htarget hspace hcut =>
      have hnot : ¬ Locked target := by simp [hlocked, hlock]
      simp only [newClaim, if_neg hnot]
      cases hc : e.cut with
      | none =>
          obtain ⟨h₁, _, _⟩ := hs.whole hc
          simp only [live, hc]
          rw [show e.off + len - e.written = (e.off - e.written) + len by omega,
            ← List.range'_append_1, Nat.add_sub_cancel' h₁]
      | some x =>
          simp only [live, hc]
          rw [List.append_assoc, ← List.range'_append_1, Nat.zero_add]
  | exactly htarget hspace hcut hlen =>
      have hnot : ¬ Locked target := by simp [hlocked, hlock]
      obtain ⟨h₁, _, _⟩ := hs.whole hcut
      simp only [newClaim, if_neg hnot, live, hcut]
      rw [show e.space - e.written = (e.off - e.written) + len by omega,
        ← List.range'_append_1, Nat.add_sub_cancel' h₁]
      exact List.append_nil _
  | exceed htarget hspace hcut hlen =>
      have hyes : Locked target := by simp [hlocked]
      simp only [newClaim, if_pos hyes, live, hcut]

/-- A claim is behind all others, or below `written`. -/
theorem newClaim_off (h : Reserves e i len target e') (hs : e.Shape) (hlock : e.lock = none) :
    (e.newClaim len target).off < e.written ∨ e.hi ≤ (e.newClaim len target).off := by
  have hlocked := h.locked_iff hs hlock
  cases h with
  | advance htarget hspace hcut =>
      have hnot : ¬ Locked target := by simp [hlocked, hlock]
      simp only [newClaim, if_neg hnot]
      cases hc : e.cut with
      | none => exact .inr (by simp [hi, hc])
      | some x => exact .inl (hs.wrapped x hc).1
  | exactly htarget hspace hcut hlen =>
      have hnot : ¬ Locked target := by simp [hlocked, hlock]
      simp only [newClaim, if_neg hnot]
      exact .inr (by simp [hi, hcut])
  | exceed htarget hspace hcut hlen =>
      have hyes : Locked target := by simp [hlocked]
      simp only [newClaim, if_pos hyes]
      exact .inl (Nat.zero_lt_of_lt hlen)

theorem holds_new (h : Reserves e i len target e') (hs : e.Shape) (hlock : e.lock = none)
    (hpos : 0 < len) : e'.Holds (e.newClaim len target) := by
  have hlocked := h.locked_iff hs hlock
  refine ⟨hpos, ?_⟩
  cases h with
  | advance htarget hspace hcut =>
      have hnot : ¬ Locked target := by simp [hlocked, hlock]
      simp only [newClaim, if_neg hnot]
      cases hc : e.cut with
      | none => exact .inl ⟨trivial, (hs.whole hc).1, by simp [hi]⟩
      | some x => exact .inr ⟨x, rfl, Nat.le_refl _, .inl trivial⟩
  | exactly htarget hspace hcut hlen =>
      have hnot : ¬ Locked target := by simp [hlocked, hlock]
      simp only [newClaim, if_neg hnot]
      exact .inl ⟨trivial, (hs.whole hcut).1, Nat.le_of_eq hspace⟩
  | exceed htarget hspace hcut hlen =>
      have hyes : Locked target := by simp [hlocked]
      simp only [newClaim, if_pos hyes]
      exact .inr ⟨e.off, rfl, by simp, .inr ⟨trivial, rfl, hs.off_lt⟩⟩

theorem holds_old (h : Reserves e i len target e') (hs : e.Shape) {cl : Claim}
    (hcl : e.Holds cl) : e'.Holds cl := by
  obtain ⟨hsp, hwr, _, _⟩ := h.same
  have hhi := h.hi_le hs
  refine ⟨hcl.pos, ?_⟩
  rcases hcl.place with ⟨hmark, hlow, hup⟩ | ⟨x, hx, hup, hmark⟩
  · exact .inl ⟨hmark, by rwa [hwr], Nat.le_trans hup hhi⟩
  · obtain ⟨hcut, _⟩ := h.wrapped (by rw [hx]; rfl)
    have hoff : e.off ≤ e'.off := by
      cases h with
      | advance => exact Nat.le_add_right _ _
      | exactly htarget hspace hnone => rw [hx] at hnone; cases hnone
      | exceed htarget hspace hnone => rw [hx] at hnone; cases hnone
    exact .inr ⟨x, hcut.trans hx, Nat.le_trans hup hoff, by rwa [hsp]⟩

end Reserves

theorem mem_live (hs : e.Shape) {x : Nat} :
    x ∈ e.live ↔ e.written ≤ x ∧ x < e.hi ∨ e.cut.isSome ∧ x < e.off := by
  cases hc : e.cut with
  | none =>
      have h₁ := (hs.whole hc).1
      simp [live, hc, hi, List.mem_range'_1, Nat.add_sub_cancel' h₁]
  | some y =>
      have h₁ := (hs.wrapped y hc).2.1
      simp [live, hc, hi, List.mem_range'_1, Nat.add_sub_cancel' h₁]

/-- The reserved bytes were free. -/
theorem Reserves.free {e' : Env n} {i : Fin n} {len target : Nat}
    (h : Reserves e i len target e') (hs : e.Shape) (hlock : e.lock = none) {x : Nat}
    (hx : x ∈ e.live) : ¬ (e.newClaim len target).Has x := by
  have hlocked := h.locked_iff hs hlock
  rw [mem_live hs] at hx
  cases h with
  | advance htarget hspace hcut =>
      have hnot : ¬ Locked target := by simp [hlocked, hlock]
      simp only [newClaim, if_neg hnot, Claim.Has]
      cases hc : e.cut with
      | none => simp [hi, hc] at hx; omega
      | some y =>
          have h₁ := hcut y hc
          simp [hi, hc] at hx
          omega
  | exactly htarget hspace hcut hlen =>
      have hnot : ¬ Locked target := by simp [hlocked, hlock]
      simp only [newClaim, if_neg hnot, Claim.Has]
      simp [hi, hcut] at hx
      omega
  | exceed htarget hspace hcut hlen =>
      have hyes : Locked target := by simp [hlocked]
      simp only [newClaim, if_pos hyes, Claim.Has]
      simp [hi, hcut] at hx
      omega

namespace Reserves

variable {e' : Env n} {i : Fin n} {len target : Nat}

/-- The counter in the word changes when the producer wraps around. -/
theorem wraps_eq (h : Reserves e i len target e') (hs : e.Shape) :
    e'.wraps = if target &&& wrapCounter ≠ e.next &&& wrapCounter then e.wraps + 1
      else e.wraps := by
  have hoff := hs.off_lt
  have hspace := hs.space_lt
  have hcounter : e.next &&& wrapCounter = e.wraps % 0x80000000 * 0x100000000 := by
    rw [hs.next_eq, pack_and_counter (Nat.mod_lt _ (by omega)) (by omega)]
  rw [hcounter]
  cases h with
  | advance htarget hspace' hcut =>
      rw [htarget, pack_and_counter (Nat.mod_lt _ (by omega)) (by omega), if_neg (by simp)]
  | exactly htarget hspace' hcut hlen =>
      rw [htarget, pack_and_counter (Nat.mod_lt _ (by omega)) (by omega), if_pos (by omega)]
  | exceed htarget hspace' hcut hlen =>
      have hwritten := (hs.whole hcut).1
      rw [htarget, pack_and_counter (Nat.mod_lt _ (by omega)) (by omega), if_pos (by omega)]

theorem endSaved (h : Reserves e i len target e') (hs : e.Shape)
    (hends : ∀ x, e.cut = some x → e.EndSaved x) (hlock : e'.lock = none) {x : Nat}
    (hx : e'.cut = some x) : e'.EndSaved x := by
  cases h with
  | advance => exact hends x hx
  | exactly htarget hspace hcut hlen =>
      obtain rfl := Option.some.inj hx
      exact .inl ⟨rfl, (hs.whole hcut).2.2⟩
  | exceed => cases hlock

/-- A producer that locks the word cuts off the end of the buffer. -/
theorem locked_cut (h : Reserves e i len target e') (hs : e.Shape) (hlock : e.lock = none)
    (htarget : Locked target) : e'.cut = some e.off ∧ e'.endOff = rbufOffMax := by
  have hlocked := (h.locked_iff hs hlock).mp htarget
  cases h with
  | advance => rw [hlock] at hlocked; cases hlocked
  | exactly => exact absurd (hlock.symm.trans hlocked) (by simp)
  | exceed htarget hspace hcut hlen => exact ⟨rfl, (hs.whole hcut).2.2⟩

/-- What the other producers have loaded is out of date now. -/
theorem loaded (h : Reserves e i len target e') (hpos : 0 < len) {la seen : Nat}
    (hl : e.Loaded la seen) :
    e'.Loaded la seen ∧ (seen = e'.next → la ≠ e'.wraps) := by
  obtain ⟨o, ho, hseen, hle, hcur⟩ := hl
  cases h with
  | advance htarget hspace hcut =>
      refine ⟨⟨o, ho, hseen, hle, fun hla => ?_⟩, fun hnext hla => ?_⟩
      · obtain ⟨h₁, h₂⟩ := hcur hla
        exact ⟨h₁, Nat.le_add_right_of_le h₂⟩
      · have hoff := (hcur hla).2
        change la = e.wraps at hla
        change seen = target at hnext
        rw [hseen, htarget, hla, pack_false, pack_false] at hnext
        omega
  | exactly htarget hspace hcut hlen =>
      have hne : la ≠ e.wraps + 1 := by omega
      exact ⟨⟨o, ho, hseen, Nat.le_succ_of_le hle, fun hla => absurd hla hne⟩, fun _ => hne⟩
  | exceed htarget hspace hcut hlen =>
      have hne : la ≠ e.wraps + 1 := by omega
      exact ⟨⟨o, ho, hseen, Nat.le_succ_of_le hle, fun hla => absurd hla hne⟩, fun _ => hne⟩

end Reserves

theorem length_live (e : Env n) : e.hi - e.written ≤ e.live.length := by
  cases hc : e.cut <;> simp [hi, live, hc]

end Env

end XMonitor.Rbuf
