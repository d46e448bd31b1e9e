import XMonitor.Ringbuf.Delivery

/-!
# Nothing is left behind

While the producers rest, the consumer needs no luck: a call of `ringbuf_consume` returns after
a bounded number of its own steps. If it returns no bytes, all messages have been delivered.
-/

namespace XMonitor.Rbuf

open MessageQueue

variable {n : Nat} {β : Type*}

/-- No worker is inside of a function of the ring buffer or holds a range. -/
def Config.Quiet (c : Config n β) : Prop :=
  ∀ i, c.pcs i = .idle ∨ c.pcs i = .unregistered

/-- Some steps of the consumer, at most `m`, lead to a state. -/
def ReachesIn (m : Nat) (t t' : Traced n β) : Prop :=
  ∃ k, k ≤ m ∧ t.run (List.replicate k .consumerStep) = some t'

theorem Traced.run_append {t : Traced n β} (as bs : List (Action n β)) :
    t.run (as ++ bs) = (t.run as).bind fun t' => t'.run bs := by
  induction as generalizing t with
  | nil => rfl
  | cons a as ih =>
      rw [List.cons_append, Traced.run, Traced.run]
      cases t.step a with
      | none => rfl
      | some t' => exact ih

namespace ReachesIn

variable {t t' t'' : Traced n β} {m m' : Nat}

theorem refl (t : Traced n β) : ReachesIn 0 t t := ⟨0, Nat.le_refl _, rfl⟩

theorem trans (h : ReachesIn m t t') (h' : ReachesIn m' t' t'') : ReachesIn (m + m') t t'' := by
  obtain ⟨k, hk, hrun⟩ := h
  obtain ⟨k', hk', hrun'⟩ := h'
  refine ⟨k + k', Nat.add_le_add hk hk', ?_⟩
  rw [← List.replicate_append_replicate, Traced.run_append, hrun]
  exact hrun'

theorem mono (h : ReachesIn m t t') (hm : m ≤ m') : ReachesIn m' t t' :=
  ⟨h.choose, Nat.le_trans h.choose_spec.1 hm, h.choose_spec.2⟩

theorem single {c : Config n β} (h : t.conf.consumerStep = some c) :
    ReachesIn 1 t ⟨c, t.wraps, t.loadedAt⟩ := by
  refine ⟨1, Nat.le_refl _, ?_⟩
  have hstep : t.step .consumerStep = some ⟨c, t.wraps, t.loadedAt⟩ := by
    rw [Traced.step, Config.step, h]
    simp [Traced.wrapsAround, Traced.loads]
  rw [List.replicate_one, Traced.run, hstep]
  rfl

end ReachesIn

/-- The state in which only the consumer has moved. -/
def Traced.consumerAt (t : Traced n β) (pc : ConsumerPc n) : Traced n β :=
  { t with conf := t.conf.consumerAt pc }

section Quiet

variable {t : Traced n β} {v : View n} {q : Queue (Fin n) β}

/-- A worker at rest has no offset that the consumer must not pass. -/
theorem seen_of_quiet (hinv : Inv t v q) (hquiet : t.conf.Quiet) {i : Fin n}
    (hreg : (t.conf.rbuf.workers i).registered = true) :
    (t.conf.rbuf.workers i).seenOff = rbufOffMax := by
  have hok := hinv.producers i
  rcases hquiet i with hpc | hpc
  · rw [hpc] at hok
    exact hok.2
  · rw [hpc] at hok
    exact absurd (hok.symm.trans hreg) (by simp)

theorem unlocked_of_quiet (hinv : Inv t v q) (hquiet : t.conf.Quiet) : v.lock = none := by
  cases hl : v.lock with
  | none => rfl
  | some i =>
      have hlocks := (hinv.locks i).mpr hl
      rcases hquiet i with hpc | hpc <;> rw [hpc] at hlocks <;> exact absurd hlocks id

/-- The scan finds no worker that is still writing. -/
theorem scan_quiet (hinv : Inv t v q) (hquiet : t.conf.Quiet) {w nx : Nat} (d : Nat) :
    ∀ k, k + d = n → ReachesIn (2 * d + 1) (t.consumerAt (.scan w nx k rbufOffMax))
      (t.consumerAt (.decide w nx rbufOffMax)) := by
  induction d with
  | zero =>
      intro k hk
      have hnot : ¬ k < n := by omega
      refine ReachesIn.single ?_
      simp [Traced.consumerAt, Config.consumerAt, Config.consumerStep, hnot]
  | succ d ih =>
      intro k hk
      have hlt : k < n := by omega
      have hrest := ih (k + 1) (by omega)
      cases hreg : (t.conf.rbuf.workers ⟨k, hlt⟩).registered with
      | false =>
          have hstep : ReachesIn 1 (t.consumerAt (.scan w nx k rbufOffMax))
              (t.consumerAt (.scan w nx (k + 1) rbufOffMax)) := by
            refine ReachesIn.single ?_
            simp [Traced.consumerAt, Config.consumerAt, Config.consumerStep, hlt, hreg]
          exact (hstep.trans hrest).mono (by omega)
      | true =>
          have hseen := seen_of_quiet hinv hquiet hreg
          have hmerge : mergeSeen w rbufOffMax rbufOffMax = rbufOffMax := by
            simp [mergeSeen]
          have hstep₁ : ReachesIn 1 (t.consumerAt (.scan w nx k rbufOffMax))
              (t.consumerAt (.readSeen w nx ⟨k, hlt⟩ rbufOffMax)) := by
            refine ReachesIn.single ?_
            simp [Traced.consumerAt, Config.consumerAt, Config.consumerStep, hlt, hreg]
          have hstep₂ : ReachesIn 1 (t.consumerAt (.readSeen w nx ⟨k, hlt⟩ rbufOffMax))
              (t.consumerAt (.scan w nx (k + 1) rbufOffMax)) := by
            refine ReachesIn.single ?_
            simp [Traced.consumerAt, Config.consumerAt, Config.consumerStep, hseen,
              not_locked_max, hmerge]
          exact (hstep₁.trans (hstep₂.trans hrest)).mono (by omega)

/-- The call ends with bytes for the consumer, or there are none. -/
def Returns (t : Traced n β) (cells : List (Cell (Fin n) β)) (m : Nat) : Prop :=
  ∃ t', ReachesIn m t t' ∧ t'.conf.consumer = .idle ∧ (t'.conf.granted = 0 → cells = [])

theorem Returns.after {t t' : Traced n β} {cells : List (Cell (Fin n) β)} {m m' : Nat}
    (h : ReachesIn m t t') (hr : Returns t' cells m') : Returns t cells (m + m') := by
  obtain ⟨t₂, hreach, hrest⟩ := hr
  exact ⟨t₂, h.trans hreach, hrest⟩

theorem load_quiet (hinv : Inv t v q) (hquiet : t.conf.Quiet) {w : Nat}
    (hpc : t.conf.consumer = .loadNext w) :
    Returns t q.cells 1 ∨
      w ≠ v.off ∧ ReachesIn (2 * n + 2) t (t.consumerAt (.decide w v.off rbufOffMax)) := by
  have hs := hinv.shape
  have hok := hinv.consumer
  rw [hpc] at hok
  have hoff : t.conf.rbuf.next &&& rbufOffMask = v.off := hs.next_off
  have hlock := unlocked_of_quiet hinv hquiet
  have hunlocked : ¬ Locked t.conf.rbuf.next := by
    have hiff : Locked t.conf.rbuf.next ↔ v.lock.isSome = true := hs.locked_next
    simp [hiff, hlock]
  by_cases hw : w = v.off
  · refine .inl ⟨_, ReachesIn.single (c := { t.conf with consumer := .idle, granted := 0 }) ?_,
      rfl, fun _ => ?_⟩
    · simp [Config.consumerStep, hpc, hunlocked, hoff, hw]
    · have hwr : (t.env v).written = (t.env v).off := hok.symm.trans hw
      apply List.eq_nil_of_length_eq_zero
      rw [← hinv.cells.length_eq]
      cases hc : (t.env v).cut with
      | none => simp [Env.live, hc, hwr]
      | some x => exact absurd (hs.wrapped x hc).1 (by omega)
  · refine .inr ⟨hw, ?_⟩
    have hstep : ReachesIn 1 t (t.consumerAt (.scan w v.off 0 rbufOffMax)) := by
      refine ReachesIn.single ?_
      simp [Config.consumerStep, hpc, hunlocked, hoff, hw]
    exact (hstep.trans (scan_quiet hinv hquiet n 0 (by omega))).mono (by omega)

theorem decide_regular {w nx : Nat} (hlt : w < nx) (hmax : nx ≤ rbufOffMax)
    (cells : List (Cell (Fin n) β)) :
    Returns (t.consumerAt (.decide w nx rbufOffMax)) cells 1 := by
  have hready : t.conf.rbuf.readyOff w nx rbufOffMax = some nx := by
    rw [Ringbuf.readyOff, if_neg (by omega), Nat.min_eq_right hmax]
  refine ⟨_, ReachesIn.single (c := { t.conf with consumer := .idle, granted := nx - w }) ?_, rfl,
    fun hzero => ?_⟩
  · simp [Traced.consumerAt, Config.consumerAt, Config.consumerStep, hready]
  · change nx - w = 0 at hzero
    omega

/-- The consumer reads what is left before the end, or wraps around. -/
theorem decide_wrapped (hinv : Inv t v q) (hquiet : t.conf.Quiet)
    (hne : t.conf.consumer ≠ .resetWritten) (hlt : v.off < t.conf.rbuf.written) :
    Returns (t.consumerAt (.decide t.conf.rbuf.written v.off rbufOffMax)) q.cells 1 ∨
      ∃ t', ReachesIn 3 (t.consumerAt (.decide t.conf.rbuf.written v.off rbufOffMax)) t' ∧
        t'.conf.consumer = .loadNext 0 ∧ t'.conf.rbuf.written = 0 := by
  have hs := hinv.shape
  have hmax : t.conf.rbuf.space < rbufOffMax := space_lt_max hs
  obtain ⟨x, hx⟩ : ∃ x, v.cut = some x := by
    cases hc : v.cut with
    | none =>
        have hle : t.conf.rbuf.written ≤ v.off := (hs.whole hc).1
        omega
    | some x => exact ⟨x, rfl⟩
  obtain ⟨_, hw, hxs⟩ := hs.wrapped x hx
  change t.conf.rbuf.written ≤ x at hw
  change x ≤ t.conf.rbuf.space at hxs
  have hmin : min t.conf.rbuf.space t.conf.rbuf.endOff = x := by
    rcases hinv.ends x hx (unlocked_of_quiet hinv hquiet) hne with ⟨h₁, h₂⟩ | ⟨h₁, h₂⟩
    · change x = t.conf.rbuf.space at h₁
      change t.conf.rbuf.endOff = rbufOffMax at h₂
      omega
    · change x < t.conf.rbuf.space at h₁
      change t.conf.rbuf.endOff = x at h₂
      omega
  by_cases hreset : t.conf.rbuf.written = x
  · have hready : t.conf.rbuf.readyOff t.conf.rbuf.written v.off rbufOffMax = none := by
      rw [Ringbuf.readyOff, if_pos hlt, hmin]
      exact if_pos ⟨rfl, hreset⟩
    refine .inr ?_
    by_cases hend : t.conf.rbuf.endOff = rbufOffMax
    · have h₁ : ReachesIn 1 (t.consumerAt (.decide t.conf.rbuf.written v.off rbufOffMax))
          (t.consumerAt .resetWritten) := by
        refine ReachesIn.single ?_
        simp [Traced.consumerAt, Config.consumerAt, Config.consumerStep, hready, hend]
      have h₂ : ReachesIn 1 (t.consumerAt .resetWritten) _ := ReachesIn.single rfl
      exact ⟨_, (h₁.trans h₂).mono (by omega), rfl, rfl⟩
    · have h₁ : ReachesIn 1 (t.consumerAt (.decide t.conf.rbuf.written v.off rbufOffMax))
          (t.consumerAt .clearEnd) := by
        refine ReachesIn.single ?_
        simp [Traced.consumerAt, Config.consumerAt, Config.consumerStep, hready, hend]
      have h₂ : ReachesIn 1 (t.consumerAt .clearEnd) _ := ReachesIn.single rfl
      exact ⟨_, h₁.trans (h₂.trans (ReachesIn.single rfl)), rfl, rfl⟩
  · have hready : t.conf.rbuf.readyOff t.conf.rbuf.written v.off rbufOffMax = some x := by
      rw [Ringbuf.readyOff, if_pos hlt, hmin, if_neg fun hboth => hreset hboth.2,
        Nat.min_eq_right (by omega)]
    refine .inl ⟨_, ReachesIn.single
      (c := { t.conf with consumer := .idle, granted := x - t.conf.rbuf.written }) ?_, rfl,
      fun hzero => ?_⟩
    · simp [Traced.consumerAt, Config.consumerAt, Config.consumerStep, hready]
    · change x - t.conf.rbuf.written = 0 at hzero
      omega

/-- The consumer does not move the producers. -/
theorem consumerStep_pcs {c c' : Config n β} (h : c.consumerStep = some c') : c'.pcs = c.pcs := by
  rw [Config.consumerStep] at h
  split at h
  · split at h
    · cases h; rfl
    · split at h <;> (cases h; rfl)
  · split at h
    · split at h <;> (cases h; rfl)
    · cases h; rfl
  · dsimp only at h
    split at h <;> (cases h; rfl)
  · split at h
    · cases h; rfl
    · split at h <;> (cases h; rfl)
  · cases h; rfl
  · cases h; rfl
  · cases h

variable [DecidableEq β]

omit [DecidableEq β] in
theorem event_consumerStep (c : Config n β) :
    c.event .consumerStep = .silent ∨ c.event .consumerStep = .empty ∨
      ∃ bytes, c.event .consumerStep = .grant bytes := by
  rw [Config.event]
  split
  · split
    · exact .inr (.inl rfl)
    · exact .inl rfl
  · split
    · exact .inr (.inr ⟨_, rfl⟩)
    · exact .inl rfl
  · exact .inl rfl

/-- Steps inside of `ringbuf_consume` leave the messages and the producers as they are. -/
theorem ReachesIn.inv {t' : Traced n β} {m : Nat} (h : ReachesIn m t t') (hinv : Inv t v q) :
    ∃ v' q', Inv t' v' q' ∧ q'.cells = q.cells ∧ t'.conf.pcs = t.conf.pcs := by
  obtain ⟨k, hk, hrun⟩ := h
  clear hk
  induction k generalizing t v q with
  | zero =>
      obtain rfl := Option.some.inj hrun
      exact ⟨v, q, hinv, rfl, rfl⟩
  | succ k ih =>
      rw [List.replicate_succ] at hrun
      obtain ⟨t₁, h₁, hrest⟩ := Option.bind_eq_some_iff.mp hrun
      obtain ⟨v₁, q₁, hq₁, hinv₁⟩ := inv_next hinv (a := .consumerStep) trivial h₁
      obtain ⟨v', q', hinv', hcells, hpcs⟩ := ih hinv₁ hrest
      obtain ⟨c, hc, rfl⟩ := Traced.step_conf h₁
      refine ⟨v', q', hinv', hcells.trans ?_, hpcs.trans (consumerStep_pcs hc)⟩
      rcases event_consumerStep t.conf with hev | hev | ⟨bytes, hev⟩
      · rw [hev] at hq₁
        rw [← Option.some.inj hq₁]
      · rw [hev] at hq₁
        obtain ⟨_, hq₁⟩ := Option.ite_none_right_eq_some.mp hq₁
        rw [← Option.some.inj hq₁]
      · rw [hev] at hq₁
        obtain ⟨_, hq₁⟩ := Option.ite_none_right_eq_some.mp hq₁
        rw [← Option.some.inj hq₁]

/-- A call of `ringbuf_consume` returns while the producers rest. -/
theorem returns_of_quiet (hinv : Inv t v q) (hquiet : t.conf.Quiet) {w : Nat}
    (hpc : t.conf.consumer = .loadNext w) : Returns t q.cells (4 * n + 8) := by
  have hok := hinv.consumer
  rw [hpc] at hok
  obtain rfl : w = t.conf.rbuf.written := hok
  have hmax : t.conf.rbuf.space < rbufOffMax := space_lt_max hinv.shape
  have hoff : v.off < t.conf.rbuf.space := hinv.shape.off_lt
  have hmono : ∀ {m : Nat}, m ≤ 4 * n + 8 → Returns t q.cells m → Returns t q.cells (4 * n + 8) :=
    fun hm ⟨t', hreach, hrest⟩ => ⟨t', hreach.mono hm, hrest⟩
  rcases load_quiet hinv hquiet hpc with hret | ⟨hne, hscan⟩
  · exact hmono (by omega) hret
  rcases Nat.lt_or_gt_of_ne hne with hlt | hlt
  · exact hmono (by omega) (Returns.after hscan (decide_regular hlt (by omega) q.cells))
  rcases decide_wrapped hinv hquiet (by simp [hpc]) hlt with hret | ⟨t₂, hreach, hpc₂, hzero⟩
  · exact hmono (by omega) (Returns.after hscan hret)
  -- The consumer has wrapped around, and what is left begins at zero.
  have hthere := hscan.trans hreach
  obtain ⟨v₂, q₂, hinv₂, hcells, hpcs⟩ := hthere.inv hinv
  have hquiet₂ : t₂.conf.Quiet := fun i => by
    rw [hpcs]
    exact hquiet i
  have hmax₂ : t₂.conf.rbuf.space < rbufOffMax := space_lt_max hinv₂.shape
  have hoff₂ : v₂.off < t₂.conf.rbuf.space := hinv₂.shape.off_lt
  rw [← hcells] at hmono ⊢
  rcases load_quiet hinv₂ hquiet₂ hpc₂ with hret | ⟨hne₂, hscan₂⟩
  · exact hmono (by omega) (Returns.after hthere hret)
  · have hdecide := decide_regular (t := t₂) (Nat.pos_of_ne_zero (Ne.symm hne₂))
      (by omega) q₂.cells
    exact hmono (by omega) (Returns.after hthere (Returns.after hscan₂ hdecide))

end Quiet

/-- After any run, `ringbuf_consume` returns within `4 n + 8` steps of the consumer if no
producer moves meanwhile. If it returns no bytes, all that has been produced is delivered. -/
theorem ringbuf_drains [DecidableEq β] {length : Nat} {rbuf : Ringbuf n} {mem : Nat → β}
    {as : List (Action n β)} {t : Traced n β} (hsetup : ringbufSetup n length = some rbuf)
    (hpos : 0 < length) (hfresh : (Traced.init rbuf mem).FreshRun as)
    (hrun : (Traced.init rbuf mem).run as = some t) (hidle : t.conf.consumer = .idle)
    (hquiet : t.conf.Quiet) :
    ∃ k t', k ≤ 4 * n + 8 ∧ t.run (.consume :: List.replicate k .consumerStep) = some t' ∧
      t'.conf.consumer = .idle ∧
      (t'.conf.granted = 0 → (delivered ((Traced.init rbuf mem).events as)).map Slot.ready =
        stream (logOf ((Traced.init rbuf mem).events as))) := by
  obtain ⟨v, q, hq, hinv⟩ := inv_run (inv_init hpos hsetup mem) hfresh hrun
  have hstep : t.step .consume =
      some ⟨{ t.conf with consumer := .loadNext t.conf.rbuf.written, granted := 0 }, t.wraps,
        t.loadedAt⟩ := by
    simp [Traced.step, Config.step, hidle, Traced.wrapsAround, Traced.loads]
  have hinv₁ := inv_consume hinv hstep
  obtain ⟨t', ⟨k, hk, hreach⟩, hdone, hempty⟩ := returns_of_quiet hinv₁ hquiet rfl
  refine ⟨k, t', hk, ?_, hdone, fun hzero => ?_⟩
  · rw [Traced.run, hstep]
    exact hreach
  · have hall := delivered_prefix hq
    rw [hempty hzero] at hall
    rw [← hall]
    exact (List.append_nil _).symm

theorem ringbuf_drains_wrapRun :
    let t := ((Traced.init sixBytes fun _ => 0).run wrapRun).get (by decide +kernel)
    ∃ k t', k ≤ 4 * 2 + 8 ∧ t.run (.consume :: List.replicate k .consumerStep) = some t' ∧
      t'.conf.consumer = .idle ∧
      (t'.conf.granted = 0 →
        (delivered ((Traced.init sixBytes fun _ => 0).events wrapRun)).map Slot.ready =
          stream (logOf ((Traced.init sixBytes fun _ => 0).events wrapRun))) :=
  ringbuf_drains sixBytes_setup (by decide) (by decide +kernel) (Option.some_get _).symm
    (by decide +kernel) (by unfold Config.Quiet; decide +kernel)

end XMonitor.Rbuf
