import XMonitor.Ringbuf.Consumer

/-!
# What the ring buffer delivers

In every run in which no compare and exchange comes too late, the ring buffer is the queue: its
steps are events that the queue accepts. So the consumer reads the messages in the order in
which they have been reserved, and no producer writes into the bytes of another one or into
those that the consumer reads.
-/

namespace XMonitor.Rbuf

open MessageQueue

variable {n : Nat} {β : Type*}

theorem ringbufSetup_eq {length : Nat} {rbuf : Ringbuf n}
    (h : ringbufSetup n length = some rbuf) :
    length < rbufOffMask ∧ rbuf = { space := length } := by
  rw [ringbufSetup] at h
  split at h
  · cases h
  · exact ⟨by omega, (Option.some.inj h).symm⟩

/-- A new ring buffer is the empty queue. -/
theorem inv_init {length : Nat} (hpos : 0 < length) {rbuf : Ringbuf n}
    (h : ringbufSetup n length = some rbuf) (mem : Nat → β) :
    Inv (Traced.init rbuf mem) {} {} := by
  obtain ⟨hlength, rfl⟩ := ringbufSetup_eq h
  constructor
  · refine ⟨hlength, ?_, fun _ => ⟨Nat.le_refl _, hpos, rfl⟩,
      fun x hx => absurd hx (by simp [Traced.env])⟩
    change 0 = pack false (0 % 0x80000000) 0
    simp [pack]
  · intro x hx
    cases hx
  · exact fun i => rfl
  · exact fun i => iff_of_false id (by simp)
  · intro i cl hcl
    cases hcl
  · exact .nil
  · intro x hx
    cases hx
  · exact ⟨Nat.le_refl _,
      fun i cl hcl => absurd hcl (by simp [Traced.init, Config.claim, claimOf])⟩
  · exact fun _ => rfl
  · simp [Traced.init]

variable [DecidableEq β]

/-- Every step is an event that the queue accepts. -/
theorem inv_next {t t' : Traced n β} {v : View n} {q : Queue (Fin n) β} (hinv : Inv t v q)
    {a : Action n β} (hfresh : t.Fresh a) (h : t.step a = some t') :
    ∃ v' q', q.apply (t.conf.event a) = some q' ∧ Inv t' v' q' := by
  cases a with
  | register i => exact ⟨v, q, rfl, inv_register hinv h⟩
  | unregister i => exact ⟨v, q, rfl, inv_unregister hinv h⟩
  | acquire i len => exact ⟨v, q, rfl, inv_acquire hinv h⟩
  | write i k b => exact ⟨v, q, rfl, inv_write hinv h⟩
  | produce i =>
      obtain ⟨c, hc, _⟩ := Traced.step_conf h
      cases hpc : t.conf.pcs i with
      | holding off len =>
          obtain ⟨q', hq, hinv'⟩ := inv_produce hinv hpc h
          exact ⟨v, q', by simpa [Config.event, hpc] using hq, hinv'⟩
      | _ => simp [Config.step, hpc] at hc
  | step i => exact inv_step hinv hfresh h
  | spurious i => exact ⟨v, q, rfl, inv_spurious hinv h⟩
  | consume => exact ⟨v, q, rfl, inv_consume hinv h⟩
  | consumerStep => exact inv_consumerStep hinv h
  | release k => exact inv_release hinv h

theorem inv_run {t t' : Traced n β} {v : View n} {q : Queue (Fin n) β} (hinv : Inv t v q)
    {as : List (Action n β)} (hfresh : t.FreshRun as) (h : t.run as = some t') :
    ∃ v' q', q.run (t.events as) = some q' ∧ Inv t' v' q' := by
  induction as generalizing t v q with
  | nil =>
      obtain rfl := Option.some.inj h
      exact ⟨v, q, rfl, hinv⟩
  | cons a as ih =>
      obtain ⟨t₁, h₁, hrest⟩ := Option.bind_eq_some_iff.mp h
      obtain ⟨hf, hfrest⟩ := hfresh
      rw [h₁] at hfrest
      obtain ⟨v₁, q₁, hq₁, hinv₁⟩ := inv_next hinv hf h₁
      obtain ⟨v', q', hq', hinv'⟩ := ih hinv₁ hfrest hrest
      refine ⟨v', q', ?_, hinv'⟩
      rw [Traced.events, h₁, Queue.run, hq₁]
      exact hq'

section Reached

variable {t t' : Traced n β} {v : View n} {q : Queue (Fin n) β}

omit [DecidableEq β] in
theorem written_le_endOff (hinv : Inv t v q) (hidle : t.conf.consumer = .idle) :
    t.conf.rbuf.written ≤ t.conf.rbuf.endOff := by
  have hs := hinv.shape
  have hmax : t.conf.rbuf.space < rbufOffMax := space_lt_max hs
  cases hc : v.cut with
  | none =>
      have hend : t.conf.rbuf.endOff = rbufOffMax := (hs.whole hc).2.2
      have hoff : v.off < t.conf.rbuf.space := hs.off_lt
      have hw : t.conf.rbuf.written ≤ v.off := (hs.whole hc).1
      omega
  | some x =>
      obtain ⟨_, hw, hx⟩ := hs.wrapped x hc
      change t.conf.rbuf.written ≤ x at hw
      change x ≤ t.conf.rbuf.space at hx
      cases hl : v.lock with
      | none =>
          rcases hinv.ends x hc hl (by simp [hidle]) with ⟨_, hend⟩ | ⟨_, hend⟩
          · change t.conf.rbuf.endOff = rbufOffMax at hend
            omega
          · change t.conf.rbuf.endOff = x at hend
            omega
      | some i =>
          have hlocks := (hinv.locks i).mpr hl
          have hok := hinv.producers i
          cases hpc : t.conf.pcs i with
          | clearSeen len seen target =>
              rw [hpc] at hok hlocks
              have hend : t.conf.rbuf.endOff = rbufOffMax := (hok.2.2.2 hlocks).2.1
              omega
          | saveEnd len seen target =>
              rw [hpc] at hok
              have hend : t.conf.rbuf.endOff = rbufOffMax := hok.2.2.2.2.1
              omega
          | unlock len target =>
              rw [hpc] at hok
              obtain ⟨_, _, hcut, hend, _⟩ := hok
              obtain rfl := Option.some.inj (hc.symm.trans hcut)
              change t.conf.rbuf.endOff = _ at hend
              omega
          | _ => rw [hpc] at hlocks; exact absurd hlocks id

omit [DecidableEq β] in
/-- The conditions of the source's `ASSERT`s hold. -/
theorem inv_asserts (hinv : Inv t v q) {a : Action n β} (h : t.step a = some t') :
    t.conf.Asserts a := by
  have hs := hinv.shape
  have hhi : (t.env v).hi ≤ t.conf.rbuf.space := hs.hi_le_space
  have hnext : t.conf.rbuf.next &&& rbufOffMask < t.conf.rbuf.space := by
    have hoff : t.conf.rbuf.next &&& rbufOffMask = v.off := hs.next_off
    rw [hoff]
    exact hs.off_lt
  obtain ⟨c, hc, _⟩ := Traced.step_conf h
  cases a with
  | acquire i len =>
      obtain ⟨⟨hpc, hlen⟩, _⟩ := Option.ite_none_right_eq_some.mp hc
      have hok := hinv.producers i
      rw [hpc] at hok
      exact ⟨hlen.1, hlen.2, hok.2⟩
  | step i =>
      have hok := hinv.producers i
      rw [Config.Asserts]
      cases hpc : t.conf.pcs i with
      | acquire len => exact fun _ => hnext
      | clearSeen len seen target =>
          rw [hpc] at hok
          exact fun _ => hok.2.2.1.2
      | saveEnd len seen target =>
          rw [hpc] at hok
          obtain ⟨_, _, _, hcut, hend, _⟩ := hok
          exact ⟨(hs.wrapped _ hcut).2.1, hend⟩
      | unlock len target =>
          rw [hpc] at hok
          exact hok.2.1.2
      | _ => trivial
  | produce i =>
      cases hpc : t.conf.pcs i with
      | holding off len =>
          have hok := hinv.producers i
          rw [hpc] at hok
          have hclaim : t.conf.claim i = some ⟨off, len, (t.conf.rbuf.workers i).seenOff⟩ := by
            simp [Config.claim, claimOf, hpc]
          have hmark := (hinv.holds i _ hclaim).mark_le hs
          have hmax := space_lt_max hs
          exact ⟨hok, Nat.ne_of_lt (Nat.lt_of_le_of_lt hmark hmax)⟩
      | _ => simp [Config.step, hpc] at hc
  | consumerStep =>
      have hok := hinv.consumer
      rw [Config.Asserts]
      cases hpc : t.conf.consumer with
      | loadNext written => exact fun _ => hnext
      | readSeen written nx i ready =>
          rw [hpc] at hok
          obtain ⟨rfl, hscan⟩ := hok
          intro _
          have hlow := hscan.low
          change mergeSeen (t.env v).written _ _ ≥ (t.env v).written
          rw [mergeSeen]
          split <;> omega
      | decide written nx ready =>
          rw [hpc] at hok
          obtain ⟨rfl, hscan⟩ := hok
          have hdecide := hscan.decide hs hinv.holds
            (fun x hx hl => hinv.ends x hx hl (by simp [hpc])) hinv.cutStart t.conf.rbuf rfl rfl
          intro r hr
          simp only [hr] at hdecide
          have hlow := hscan.low
          refine ⟨fun hnx => by omega, hdecide.low, ?_⟩
          have hhigh := hdecide.high
          omega
      | _ => trivial
  | release k =>
      obtain ⟨⟨hidle, hk⟩, _⟩ := Option.ite_none_right_eq_some.mp hc
      have hok := hinv.consumer
      rw [hidle] at hok
      have hfits : t.conf.rbuf.written + t.conf.granted ≤ (t.env v).hi := hok.1
      exact ⟨by omega, written_le_endOff hinv hidle, by omega⟩
  | _ => trivial

end Reached

section Whole

omit [DecidableEq β] in
theorem release_of_event {c : Config n β} {a : Action n β} {bytes : List β}
    (h : c.event a = .release bytes) :
    ∃ k, a = .release k ∧ bytes = c.bytes c.rbuf.written k := by
  cases a with
  | release k => exact ⟨k, rfl, by cases h; rfl⟩
  | produce i =>
      rw [Config.event] at h
      split at h <;> cases h
  | step i =>
      rw [Config.event] at h
      split at h
      · split at h <;> cases h
      · cases h
  | consumerStep =>
      rw [Config.event] at h
      split at h
      · split at h <;> cases h
      · split at h <;> cases h
      · cases h
  | _ => cases h

/-- What the consumer releases is all that the queue has granted. -/
theorem releasesAll_of_whole {t : Traced n β} {v : View n} {q : Queue (Fin n) β}
    (hinv : Inv t v q) {as : List (Action n β)} (hfresh : t.FreshRun as)
    (hwhole : t.WholeReleases as) {t' : Traced n β} (hrun : t.run as = some t') :
    ReleasesAll q (t.events as) := by
  induction as generalizing t v q with
  | nil => trivial
  | cons a as ih =>
      obtain ⟨t₁, h₁, hrest⟩ := Option.bind_eq_some_iff.mp hrun
      obtain ⟨hf, hfrest⟩ := hfresh
      obtain ⟨hall, hwrest⟩ := hwhole
      rw [h₁] at hfrest hwrest
      obtain ⟨v₁, q₁, hq₁, hinv₁⟩ := inv_next hinv hf h₁
      rw [Traced.events, h₁]
      refine ⟨fun bytes hev => ?_, fun q' hq' => ?_⟩
      · obtain ⟨k, rfl, rfl⟩ := release_of_event hev
        obtain ⟨c, hc, _⟩ := Traced.step_conf h₁
        obtain ⟨⟨hidle, _⟩, _⟩ := Option.ite_none_right_eq_some.mp hc
        rw [hinv.granted hidle, ← hall k rfl, Config.bytes, List.length_map, List.length_range']
      · obtain rfl := Option.some.inj (hq₁.symm.trans hq')
        exact ih hinv₁ hfrest hwrest hrest

end Whole

/-! ### A run that wraps around -/

/-- Two producers reserve and write a message each. -/
def firstMessages : List (Action 2 Nat) :=
  [.register 0, .step 0, .register 1, .step 1] ++
  .acquire 0 3 :: List.replicate 5 (.step 0) ++
  .acquire 1 2 :: List.replicate 5 (.step 1) ++
  [.write 0 0 10, .write 0 1 11, .write 0 2 12, .write 1 0 20, .write 1 1 21]

/-- The messages are produced in the other order, and a third one does not fit at the end. -/
def wrapRun : List (Action 2 Nat) :=
  firstMessages ++ [.produce 1, .produce 0] ++
  .consume :: List.replicate 7 .consumerStep ++ .release 5 ::
  .acquire 0 2 :: List.replicate 7 (.step 0) ++ [.write 0 0 30, .write 0 1 31] ++
  .consume :: List.replicate 7 .consumerStep ++ .release 0 :: .produce 0 ::
  .consume :: List.replicate 16 .consumerStep ++ [.release 2]

def sixBytes : Ringbuf 2 := { space := 6 }

theorem sixBytes_setup : ringbufSetup 2 6 = some sixBytes := by
  rw [ringbufSetup, if_neg (by decide)]
  rfl

section Runs

variable {length : Nat} {rbuf : Ringbuf n} {mem : Nat → β} {as : List (Action n β)}
  {t : Traced n β}

/-- The ring buffer refines the queue: it reserves, produces, grants and releases bytes only
where the queue does. -/
theorem ringbuf_refines (hsetup : ringbufSetup n length = some rbuf) (hpos : 0 < length)
    (hfresh : (Traced.init rbuf mem).FreshRun as) (hrun : (Traced.init rbuf mem).run as = some t) :
    ∃ q : Queue (Fin n) β, Queue.run ⟨[], 0⟩ ((Traced.init rbuf mem).events as) = some q := by
  obtain ⟨v, q, hq, _⟩ := inv_run (inv_init hpos hsetup mem) hfresh hrun
  exact ⟨q, hq⟩

theorem ringbuf_refines_wrapRun :
    ∃ q : Queue (Fin 2) Nat,
      Queue.run ⟨[], 0⟩ ((Traced.init sixBytes fun _ => 0).events wrapRun) = some q :=
  ringbuf_refines sixBytes_setup (by decide) (by decide +kernel)
    (Option.some_get (by decide +kernel :
      ((Traced.init sixBytes fun _ => 0).run wrapRun).isSome)).symm

/-- The bytes that the consumer has read and released are those of the messages, in the order
in which the messages have been reserved. -/
theorem ringbuf_fifo (hsetup : ringbufSetup n length = some rbuf) (hpos : 0 < length)
    (hfresh : (Traced.init rbuf mem).FreshRun as) (hrun : (Traced.init rbuf mem).run as = some t) :
    (delivered ((Traced.init rbuf mem).events as)).map Slot.ready <+:
      stream (logOf ((Traced.init rbuf mem).events as)) := by
  obtain ⟨v, q, hq, _⟩ := inv_run (inv_init hpos hsetup mem) hfresh hrun
  rw [← delivered_prefix hq]
  exact List.prefix_append _ _

theorem ringbuf_fifo_wrapRun :
    delivered ((Traced.init sixBytes fun _ => 0).events wrapRun) =
        [10, 11, 12, 20, 21, 30, 31] ∧
      (delivered ((Traced.init sixBytes fun _ => 0).events wrapRun)).map Slot.ready <+:
        stream (logOf ((Traced.init sixBytes fun _ => 0).events wrapRun)) :=
  ⟨by decide +kernel,
    ringbuf_fifo sixBytes_setup (by decide) (by decide +kernel)
      (Option.some_get (by decide +kernel :
        ((Traced.init sixBytes fun _ => 0).run wrapRun).isSome)).symm⟩

/-- A consumer that always releases all that it got reads whole messages. -/
theorem ringbuf_whole_messages (hsetup : ringbufSetup n length = some rbuf) (hpos : 0 < length)
    (hfresh : (Traced.init rbuf mem).FreshRun as) (hwhole : (Traced.init rbuf mem).WholeReleases as)
    (hrun : (Traced.init rbuf mem).run as = some t) :
    ∃ past rest, logOf ((Traced.init rbuf mem).events as) = past ++ rest ∧
      (delivered ((Traced.init rbuf mem).events as)).map Slot.ready = stream past := by
  have hinit := inv_init hpos hsetup mem
  obtain ⟨v, q, hq, _⟩ := inv_run hinit hfresh hrun
  exact delivered_whole (releasesAll_of_whole hinit hfresh hwhole hrun) hq

theorem wrapRun_whole : (Traced.init sixBytes fun _ => 0).WholeReleases wrapRun := by
  decide +kernel

theorem ringbuf_whole_messages_wrapRun :
    ∃ past rest, logOf ((Traced.init sixBytes fun _ => 0).events wrapRun) = past ++ rest ∧
      (delivered ((Traced.init sixBytes fun _ => 0).events wrapRun)).map Slot.ready =
        stream past :=
  ringbuf_whole_messages sixBytes_setup (by decide) (by decide +kernel) wrapRun_whole
    (Option.some_get (by decide +kernel :
      ((Traced.init sixBytes fun _ => 0).run wrapRun).isSome)).symm

omit [DecidableEq β] in
theorem range_disjoint {a l b m : Nat} (hl : 0 < l) (hm : 0 < m)
    (h : ∀ x, a ≤ x → x < a + l → b ≤ x → x < b + m → False) : a + l ≤ b ∨ b + m ≤ a := by
  by_contra hne
  rcases Nat.le_total a b with hab | hab
  · exact h b hab (by omega) (Nat.le_refl _) (by omega)
  · exact h a (Nat.le_refl _) (by omega) hab (by omega)

/-- The range of a producer lies in the buffer, apart from those of the other producers and from
the bytes that the consumer may read. -/
theorem ringbuf_exclusive (hsetup : ringbufSetup n length = some rbuf) (hpos : 0 < length)
    (hfresh : (Traced.init rbuf mem).FreshRun as) (hrun : (Traced.init rbuf mem).run as = some t)
    {i : Fin n} {off len : Nat} (hi : t.conf.pcs i = .holding off len) :
    off + len ≤ t.conf.rbuf.space ∧
      (∀ j off' len', j ≠ i → t.conf.pcs j = .holding off' len' →
        off + len ≤ off' ∨ off' + len' ≤ off) ∧
      (t.conf.consumer = .idle →
        t.conf.rbuf.written + t.conf.granted ≤ off ∨ off + len ≤ t.conf.rbuf.written) := by
  obtain ⟨v, q, _, hinv⟩ := inv_run (inv_init hpos hsetup mem) hfresh hrun
  have hs := hinv.shape
  have hclaim : ∀ j off' len', t.conf.pcs j = .holding off' len' →
      t.conf.claim j = some ⟨off', len', (t.conf.rbuf.workers j).seenOff⟩ := by
    intro j off' len' hj
    simp [Config.claim, claimOf, hj]
  have hholds := hinv.holds i _ (hclaim i off len hi)
  have hspace : (t.env v).hi ≤ t.conf.rbuf.space := hs.hi_le_space
  have hoff : v.off < t.conf.rbuf.space := hs.off_lt
  refine ⟨?_, fun j off' len' hji hj => ?_, fun hidle => ?_⟩
  · rcases hholds.place with ⟨_, _, hup⟩ | ⟨x, _, hup, _⟩
    · exact Nat.le_trans hup hspace
    · exact Nat.le_trans hup (Nat.le_of_lt hoff)
  · have hholds' := hinv.holds j _ (hclaim j off' len' hj)
    refine range_disjoint hholds.pos hholds'.pos fun x h₁ h₂ h₃ h₄ => hji ?_
    exact claims_disjoint hs hinv.cells hinv.holds (hclaim j off' len' hj) (hclaim i off len hi)
      ⟨h₃, h₄⟩ ⟨h₁, h₂⟩
  · have hok := hinv.consumer
    rw [hidle] at hok
    rcases hholds.place with ⟨_, hlow, _⟩ | ⟨x, hx, hup, _⟩
    · exact .inl (hok.2 i _ (hclaim i off len hi) hlow)
    · exact .inr (Nat.le_trans hup (Nat.le_of_lt (hs.wrapped x hx).1))

theorem ringbuf_exclusive_first :
    let t := ((Traced.init sixBytes fun _ => 0).run firstMessages).get (by decide +kernel)
    0 + 3 ≤ t.conf.rbuf.space ∧
      (∀ j off' len', j ≠ 0 → t.conf.pcs j = .holding off' len' →
        0 + 3 ≤ off' ∨ off' + len' ≤ 0) ∧
      (t.conf.consumer = .idle →
        t.conf.rbuf.written + t.conf.granted ≤ 0 ∨ 0 + 3 ≤ t.conf.rbuf.written) :=
  ringbuf_exclusive sixBytes_setup (by decide) (by decide +kernel) (Option.some_get _).symm
    (by decide +kernel)

/-- The conditions of the source's `ASSERT`s hold in every step. -/
theorem ringbuf_asserts (hsetup : ringbufSetup n length = some rbuf) (hpos : 0 < length)
    (hfresh : (Traced.init rbuf mem).FreshRun as) (hrun : (Traced.init rbuf mem).run as = some t)
    {a : Action n β} {t' : Traced n β} (hstep : t.step a = some t') : t.conf.Asserts a := by
  obtain ⟨v, q, _, hinv⟩ := inv_run (inv_init hpos hsetup mem) hfresh hrun
  exact inv_asserts hinv hstep

theorem ringbuf_asserts_first :
    (((Traced.init sixBytes fun _ => 0).run firstMessages).get (by decide +kernel)).conf.Asserts
      (.produce 0) :=
  ringbuf_asserts sixBytes_setup (by decide) (by decide +kernel) (Option.some_get _).symm
    (Option.some_get (by decide +kernel :
      ((((Traced.init sixBytes fun _ => 0).run firstMessages).get _).step
        (.produce 0)).isSome)).symm

end Runs

end XMonitor.Rbuf
