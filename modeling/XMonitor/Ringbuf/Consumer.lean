import XMonitor.Ringbuf.Producers

/-!
# The steps of the consumer

While the consumer scans the workers, `written` stays where it is. A claim that appears behind
the consumer's back lies behind the offset that the consumer has loaded, or below `written`. So
the smallest offset that has been seen bounds the bytes that can be read.
-/

namespace XMonitor.Rbuf

open MessageQueue

variable {n : Nat} {β : Type*} {e e' : Env n}

section Scanning

variable {claims : Fin n → Option Claim} {cells : List (Cell (Fin n) β)} {nx ready upto : Nat}

theorem Env.Shape.hi_le_space (hs : e.Shape) : e.hi ≤ e.space := by
  cases hc : e.cut with
  | none => simpa [Env.hi, hc] using Nat.le_of_lt (hs.whole hc).2.1
  | some x => simpa [Env.hi, hc] using (hs.wrapped x hc).2.2

theorem Env.Holds.mark_le (hs : e.Shape) {cl : Claim} (h : e.Holds cl) : cl.mark ≤ e.space := by
  have hhi := hs.hi_le_space
  have hoff := hs.off_lt
  rcases h.place with ⟨hmark, _, hup⟩ | ⟨x, hx, hup, hmark | ⟨_, hmark, hlt⟩⟩
  · omega
  · omega
  · omega

theorem space_lt_max (hs : e.Shape) : e.space < rbufOffMax := by
  have h := hs.space_lt
  rw [rbufOffMax_eq]
  omega

/-- The end of the range that the consumer gets. -/
structure Grant (e : Env n) (claims : Fin n → Option Claim) (cells : List (Cell (Fin n) β))
    (r : Nat) : Prop where
  low : e.written ≤ r
  high : r ≤ e.hi
  unclaimed : ∀ j cl, claims j = some cl → e.written ≤ cl.off → r ≤ cl.off
  start : StartsAt cells (r - e.written)

/-- Once all workers have been scanned, either the bytes up to the smallest offset can be read,
or all bytes before the wrap around have been. -/
theorem Scan.decide (hs : e.Shape) (h : Scan e claims cells nx ready n)
    (hholds : ∀ j cl, claims j = some cl → e.Holds cl)
    (hends : ∀ x, e.cut = some x → e.lock = none → e.EndSaved x)
    (hcut : ∀ x, e.cut = some x → StartsAt cells (x - e.written)) (rbuf : Ringbuf n)
    (hspace : rbuf.space = e.space) (hend : rbuf.endOff = e.endOff) :
    match rbuf.readyOff e.written nx ready with
    | some r => Grant e claims cells r
    | none => e.cut = some e.written ∧ e.lock = none ∧
        ∀ j cl, claims j = some cl → cl.mark < e.written := by
  have hmax := space_lt_max hs
  have hhi := hs.hi_le_space
  have htail : ∀ j cl, claims j = some cl → e.written ≤ cl.off → cl.mark = cl.off := by
    intro j cl hcl hlow
    rcases (hholds j cl hcl).place with ⟨hmark, _⟩ | ⟨x, hx, hup, _⟩
    · exact hmark
    · have := (hs.wrapped x hx).1
      omega
  rw [Ringbuf.readyOff]
  by_cases hnx : nx < e.written
  · obtain ⟨hsome, hlock⟩ := h.behind hnx
    obtain ⟨x, hx⟩ := Option.isSome_iff_exists.mp hsome
    obtain ⟨hw₁, hw₂, hw₃⟩ := hs.wrapped x hx
    have hhix : e.hi = x := by simp [Env.hi, hx]
    have hmin : min rbuf.space rbuf.endOff = x := by
      rw [hspace, hend]
      rcases hends x hx hlock with ⟨h₁, h₂⟩ | ⟨h₁, h₂⟩ <;> omega
    have hscanned : ∀ j cl, claims j = some cl → e.written ≤ cl.mark → ready ≤ cl.mark := by
      intro j cl hcl hlow
      rcases h.scanned j j.isLt cl hcl hlow with h₁ | ⟨h₁, _⟩
      · exact h₁
      · omega
    rw [if_pos hnx, hmin]
    by_cases hreset : ready = rbufOffMax ∧ e.written = x
    · simp only [hreset, and_self, if_true]
      obtain ⟨hready, rfl⟩ := hreset
      refine ⟨hx, hlock, fun j cl hcl => ?_⟩
      have hle := (hholds j cl hcl).mark_le hs
      by_contra hlow
      have := hscanned j cl hcl (by omega)
      omega
    · simp only [if_neg hreset]
      refine ⟨Nat.le_min.mpr ⟨h.low, hw₂⟩, by omega, fun j cl hcl hlow => ?_, ?_⟩
      · have hmark := htail j cl hcl hlow
        have := hscanned j cl hcl (by omega)
        omega
      · rcases h.start with hready | ⟨h₁, h₂⟩
        · have : min ready x = x := by omega
          rw [this]
          exact hcut x hx
        · have : min ready x = ready := by omega
          rwa [this]
  · have hlt : e.written < nx := by have := h.ne; omega
    obtain ⟨hup, hstart⟩ := h.ahead hlt
    simp only [if_neg hnx]
    refine ⟨Nat.le_min.mpr ⟨h.low, Nat.le_of_lt hlt⟩, by omega, fun j cl hcl hlow => ?_, ?_⟩
    · have hmark := htail j cl hcl hlow
      rcases h.scanned j j.isLt cl hcl (by omega) with h₁ | ⟨_, h₁⟩ <;> omega
    · rcases Nat.le_total ready nx with hle | hle
      · rw [Nat.min_eq_left hle]
        rcases h.start with hready | ⟨_, h₂⟩
        · omega
        · exact h₂
      · rw [Nat.min_eq_right hle]
        exact hstart

/-- The offset that a producer shows is the start of a message. -/
theorem start_of_claim (hs : e.Shape) {mem : Nat → β}
    (hcells : List.Forall₂ (CellOk claims mem) e.live cells)
    (hcut : ∀ x, e.cut = some x → StartsAt cells (x - e.written)) {i : Fin n} {cl : Claim}
    (hcl : claims i = some cl) (hholds : e.Holds cl) (hlow : e.written ≤ cl.mark) :
    cl.mark ≤ e.hi ∧ StartsAt cells (cl.mark - e.written) := by
  have hpos := hholds.pos
  rcases hholds.place with ⟨hmark, hw, hup⟩ | ⟨x, hx, hup, hmark | ⟨_, hmark, _⟩⟩
  · refine ⟨by omega, fun c hc => ?_⟩
    have hget : e.live[cl.mark - e.written]? = some cl.mark := by
      cases hc : e.cut with
      | none =>
          rw [Env.hi, hc, Option.getD_none] at hup
          rw [Env.live, hc, List.getElem?_range' (by omega)]
          congr 1
          omega
      | some x =>
          rw [Env.hi, hc, Option.getD_some] at hup
          rw [Env.live, hc, List.getElem?_append_left (by rw [List.length_range']; omega),
            List.getElem?_range' (by omega)]
          congr 1
          omega
    obtain ⟨h₁, h₂⟩ := List.getElem?_eq_some_iff.mp hget
    obtain ⟨h₃, h₄⟩ := List.getElem?_eq_some_iff.mp hc
    have hcell := (List.forall₂_iff_get.mp hcells).2 _ h₁ h₃
    rw [List.get_eq_getElem, List.get_eq_getElem, h₂, h₄] at hcell
    exact hcell.first i cl hcl hmark.symm
  · have := (hs.wrapped x hx).1
    omega
  · have hhi : e.hi = x := by simp [Env.hi, hx]
    rw [hmark]
    exact ⟨Nat.le_of_eq hhi.symm, hcut x hx⟩

theorem Scan.begin (hs : e.Shape) (hlock : e.lock = none) (hne : e.written ≠ e.off)
    (hlen : e.live.length = cells.length) : Scan e claims cells e.off rbufOffMax 0 := by
  have hmax := space_lt_max hs
  have hhi := hs.hi_le_space
  refine ⟨hne, fun hlt => ?_, fun hlt => ?_, ?_, .inl rfl,
    fun j hj => absurd hj (Nat.not_lt_zero _)⟩
  · cases hc : e.cut with
    | none =>
        refine ⟨by simp [Env.hi, hc], startsAt_of_length_le ?_⟩
        rw [← hlen, Env.live, hc, List.length_range']
    | some x =>
        have := (hs.wrapped x hc).1
        omega
  · cases hc : e.cut with
    | none =>
        have := (hs.whole hc).1
        omega
    | some x => exact ⟨rfl, hlock⟩
  · cases hc : e.cut with
    | none =>
        have h₁ := hs.whole hc
        omega
    | some x =>
        have h₁ := hs.wrapped x hc
        omega

theorem Scan.skip (h : Scan e claims cells nx ready upto) (hi : upto < n)
    (hnone : claims ⟨upto, hi⟩ = none) : Scan e claims cells nx ready (upto + 1) := by
  refine ⟨h.ne, h.ahead, h.behind, h.low, h.start, fun j hj cl hcl => ?_⟩
  rcases Nat.lt_succ_iff_lt_or_eq.mp hj with hlt | heq
  · exact h.scanned j hlt cl hcl
  · obtain rfl : j = ⟨upto, hi⟩ := Fin.ext heq
    rw [hnone] at hcl
    cases hcl

theorem Scan.see (hs : e.Shape) (h : Scan e claims cells nx ready upto) (hi : upto < n)
    {seenOff : Nat} (hnone : claims ⟨upto, hi⟩ = none → seenOff = rbufOffMax)
    (hsome : ∀ cl, claims ⟨upto, hi⟩ = some cl → cl.mark = seenOff ∧
      (e.written ≤ cl.mark → cl.mark ≤ e.hi ∧ StartsAt cells (cl.mark - e.written))) :
    Scan e claims cells nx (mergeSeen e.written seenOff ready) (upto + 1) := by
  have hmax := space_lt_max hs
  have hhi := hs.hi_le_space
  have hready : ready ≤ rbufOffMax := by
    rcases h.start with hr | ⟨hr, _⟩ <;> omega
  have hle : mergeSeen e.written seenOff ready ≤ ready := by
    rw [mergeSeen]
    split <;> omega
  have hlow := h.low
  refine ⟨h.ne, h.ahead, h.behind, ?_, ?_, fun j hj cl hcl hmark => ?_⟩
  · rw [mergeSeen]
    split <;> omega
  · cases hc : claims ⟨upto, hi⟩ with
    | none =>
        have hsame : mergeSeen e.written seenOff ready = ready := by
          rw [mergeSeen, hnone hc]
          split <;> omega
        rw [hsame]
        exact h.start
    | some cl =>
        obtain ⟨rfl, hstart⟩ := hsome cl hc
        rw [mergeSeen]
        split
        · rcases Nat.le_total cl.mark ready with hmin | hmin
          · rw [Nat.min_eq_left hmin]
            exact .inr (hstart ‹_›)
          · rw [Nat.min_eq_right hmin]
            exact h.start
        · exact h.start
  · rcases Nat.lt_succ_iff_lt_or_eq.mp hj with hlt | heq
    · exact (h.scanned j hlt cl hcl hmark).imp_left (Nat.le_trans hle)
    · obtain rfl : j = ⟨upto, hi⟩ := Fin.ext heq
      obtain ⟨rfl, _⟩ := hsome cl hcl
      rw [mergeSeen, if_pos hmark]
      exact .inl (Nat.min_le_left _ _)

end Scanning

section Steps

variable {t t' : Traced n β} {v : View n} {q : Queue (Fin n) β}

/-- A producer that is not registered has no claim. -/
theorem claim_none (hinv : Inv t v q) {i : Fin n}
    (hreg : (t.conf.rbuf.workers i).registered = false) : t.conf.claim i = none := by
  have hok := hinv.producers i
  cases hpc : t.conf.pcs i with
  | clearSeen len seen target =>
      rw [hpc] at hok
      exact absurd (hreg.symm.trans hok.1) (by simp)
  | saveEnd len seen target =>
      rw [hpc] at hok
      exact absurd (hreg.symm.trans hok.1) (by simp)
  | unlock len target =>
      rw [hpc] at hok
      exact absurd (hreg.symm.trans hok.1) (by simp)
  | holding off len =>
      rw [hpc] at hok
      exact absurd (hreg.symm.trans hok) (by simp)
  | _ => simp [Config.claim, claimOf, hpc]

/-- A stable offset of a worker is that of its claim, or clear. -/
theorem stable_seen (hinv : Inv t v q) {i : Fin n}
    (hstable : ¬ Locked (t.conf.rbuf.workers i).seenOff)
    (hreg : t.conf.pcs i = .unregistered → (t.conf.rbuf.workers i).seenOff = rbufOffMax) :
    (t.conf.claim i = none → (t.conf.rbuf.workers i).seenOff = rbufOffMax) ∧
      ∀ cl, t.conf.claim i = some cl → cl.mark = (t.conf.rbuf.workers i).seenOff := by
  have hok := hinv.producers i
  have hs := hinv.shape
  cases hpc : t.conf.pcs i with
  | unregistered => exact ⟨fun _ => hreg hpc, by simp [Config.claim, claimOf, hpc]⟩
  | registering =>
      rw [hpc] at hok
      exact ⟨fun _ => hok, by simp [Config.claim, claimOf, hpc]⟩
  | idle =>
      rw [hpc] at hok
      exact ⟨fun _ => hok.2, by simp [Config.claim, claimOf, hpc]⟩
  | acquire len =>
      rw [hpc] at hok
      exact ⟨fun _ => hok.2.1.resolve_right hstable, by simp [Config.claim, claimOf, hpc]⟩
  | storeSeen len seen =>
      rw [hpc] at hok
      exact ⟨fun _ => hok.2.1.resolve_right hstable, by simp [Config.claim, claimOf, hpc]⟩
  | readWritten len seen =>
      rw [hpc] at hok
      obtain ⟨_, h₂, _, h₄⟩ := hok
      rw [h₂] at hstable
      exact absurd (locked_mark hs (h₄.off_lt hs)) hstable
  | cas len seen target =>
      rw [hpc] at hok
      obtain ⟨_, h₂, _, h₄, _⟩ := hok
      rw [h₂] at hstable
      exact absurd (locked_mark hs (h₄.off_lt hs)) hstable
  | giveUp =>
      rw [hpc] at hok
      exact absurd hok.2 hstable
  | clearSeen len seen target =>
      rw [hpc] at hok
      obtain ⟨_, h₂, h₃, _⟩ := hok
      rw [h₂] at hstable
      exact absurd (locked_mark hs h₃.1) hstable
  | saveEnd len seen target => simp [Config.claim, claimOf, hpc]
  | unlock len target => simp [Config.claim, claimOf, hpc]
  | holding off len => simp [Config.claim, claimOf, hpc]

/-- A step that only moves the consumer to another place. -/
theorem inv_consumerAt (hinv : Inv t v q) {pc : ConsumerPc n} {granted granted' : Nat}
    (hold : t.conf.consumer ≠ .resetWritten)
    (hok : ConsumerOk (t.env v) t.conf.claim q.cells granted pc)
    (hgranted : pc = .idle → granted' = granted)
    (hreads : ∀ w nx i ready, pc = .readSeen w nx i ready →
      t.conf.pcs i = .unregistered → (t.conf.rbuf.workers i).seenOff = rbufOffMax) :
    Inv ⟨{ t.conf with consumer := pc, granted := granted }, t.wraps, t.loadedAt⟩ v
      { q with granted := granted' } :=
  ⟨hinv.shape, fun x hx hl _ => hinv.ends x hx hl hold, hinv.producers, hinv.locks, hinv.holds,
    hinv.cells, hinv.cutStart, hok, hgranted, hreads⟩

theorem Traced.step_consumer {a : Action n β} {c : Config n β} (h : t.step a = some t')
    (hc : t.conf.step a = some c) (hwraps : t.wrapsAround a = false)
    (hloads : ∀ j, t.loads j a = false) : t' = ⟨c, t.wraps, t.loadedAt⟩ := by
  obtain ⟨c', hc', rfl⟩ := Traced.step_conf h
  obtain rfl := Option.some.inj (hc.symm.trans hc')
  simp [hwraps, hloads]

theorem inv_consume (hinv : Inv t v q) (h : t.step .consume = some t') : Inv t' v q := by
  obtain ⟨c, hc, _⟩ := Traced.step_conf h
  obtain ⟨hidle, hc'⟩ := Option.ite_none_right_eq_some.mp hc
  obtain rfl := Traced.step_consumer h hc rfl fun j => rfl
  obtain rfl := Option.some.inj hc'
  exact inv_consumerAt hinv (by simp [hidle]) rfl (by simp)
    (by simp)

/-- The consumer loads `next` once it is not locked. -/
theorem inv_loadNext [DecidableEq β] {written : Nat} (hinv : Inv t v q)
    (hpc : t.conf.consumer = .loadNext written) (h : t.step .consumerStep = some t') :
    ∃ q', q.apply (t.conf.event .consumerStep) = some q' ∧ Inv t' v q' := by
  obtain ⟨c, hc, _⟩ := Traced.step_conf h
  obtain rfl := Traced.step_consumer h hc rfl fun j => rfl
  rw [Config.step, Config.consumerStep, hpc] at hc
  have hok := hinv.consumer
  rw [hpc] at hok
  have hs := hinv.shape
  have hoff : t.conf.rbuf.next &&& rbufOffMask = v.off := hs.next_off
  have hlen := hinv.cells.length_eq
  by_cases hlocked : Locked t.conf.rbuf.next
  · simp only [if_pos hlocked] at hc
    obtain rfl := Option.some.inj hc
    exact ⟨q, by simp [Config.event, hpc, hlocked, Queue.apply], hinv⟩
  have hnone : v.lock = none := by
    have := mt hs.locked_next.mpr hlocked
    simpa [Traced.env] using this
  simp only [if_neg hlocked] at hc
  by_cases hempty : written = t.conf.rbuf.next &&& rbufOffMask
  · rw [if_pos hempty] at hc
    obtain rfl := Option.some.inj hc
    have hwr : t.conf.rbuf.written = v.off := hok.symm.trans (hempty.trans hoff)
    have hcut : v.cut = none := by
      cases hcut : v.cut with
      | none => rfl
      | some x => exact absurd (hs.wrapped x hcut).1 (by simp [Traced.env, hwr])
    have hcells : q.cells = [] := by
      apply List.eq_nil_of_length_eq_zero
      rw [← hlen]
      simp [Env.live, Traced.env, hcut, hwr]
    have hev : t.conf.event .consumerStep = .empty := by
      simp only [Config.event, hpc]
      exact if_pos ⟨hlocked, hempty⟩
    refine ⟨{ q with granted := 0 }, ?_, inv_consumerAt hinv (by simp [hpc]) ⟨?_, ?_⟩
      (fun _ => rfl) (by simp)⟩
    · rw [hev]
      exact if_pos hcells
    · simp [Env.hi, Traced.env, hcut, hwr]
    · exact fun j cl _ hlow => hlow
  · rw [if_neg hempty] at hc
    obtain rfl := Option.some.inj hc
    have hev : t.conf.event .consumerStep = .silent := by
      simp only [Config.event, hpc]
      exact if_neg fun hboth => hempty hboth.2
    refine ⟨q, by rw [hev]; rfl, inv_consumerAt hinv (by simp [hpc]) ⟨hok, ?_⟩
      (by simp) (by simp)⟩
    rw [hoff]
    refine Scan.begin hs hnone ?_ hlen
    intro heq
    exact hempty (hok.trans (heq.trans hoff.symm))

/-- The consumer looks at one worker after the other. -/
theorem inv_scan {written nx k ready : Nat} (hinv : Inv t v q)
    (hpc : t.conf.consumer = .scan written nx k ready) (h : t.step .consumerStep = some t') :
    Inv t' v q := by
  obtain ⟨c, hc, _⟩ := Traced.step_conf h
  obtain rfl := Traced.step_consumer h hc rfl fun j => rfl
  rw [Config.step, Config.consumerStep, hpc] at hc
  have hok := hinv.consumer
  rw [hpc] at hok
  obtain ⟨hw, hscan⟩ := hok
  by_cases hk : k < n
  · simp only [dif_pos hk] at hc
    cases hreg : (t.conf.rbuf.workers ⟨k, hk⟩).registered with
    | true =>
        rw [hreg, if_pos rfl] at hc
        obtain rfl := Option.some.inj hc
        refine inv_consumerAt hinv (by simp [hpc]) ⟨hw, hscan⟩ (by simp) ?_
        intro w nx' i r hp hun
        have hunreg := hinv.producers i
        rw [hun] at hunreg
        obtain rfl : (⟨k, hk⟩ : Fin n) = i := by cases hp; rfl
        exact absurd (hunreg.symm.trans hreg) (by simp)
    | false =>
        rw [hreg, if_neg (by simp)] at hc
        obtain rfl := Option.some.inj hc
        exact inv_consumerAt hinv (by simp [hpc])
          ⟨hw, hscan.skip hk (claim_none hinv hreg)⟩ (by simp)
          (by simp)
  · simp only [dif_neg hk] at hc
    obtain rfl := Option.some.inj hc
    refine inv_consumerAt hinv (by simp [hpc]) ⟨hw, ?_⟩ (by simp)
      (by simp)
    exact { hscan with scanned := fun j _ => hscan.scanned j (by omega) }

theorem inv_readSeen {written nx ready : Nat} {k : Fin n} (hinv : Inv t v q)
    (hpc : t.conf.consumer = .readSeen written nx k ready)
    (h : t.step .consumerStep = some t') : Inv t' v q := by
  obtain ⟨c, hc, _⟩ := Traced.step_conf h
  obtain rfl := Traced.step_consumer h hc rfl fun j => rfl
  rw [Config.step, Config.consumerStep, hpc] at hc
  have hok := hinv.consumer
  rw [hpc] at hok
  obtain ⟨rfl, hscan⟩ := hok
  by_cases hlocked : Locked (t.conf.rbuf.workers k).seenOff
  · simp only [if_pos hlocked] at hc
    obtain rfl := Option.some.inj hc
    exact hinv
  · simp only [if_neg hlocked] at hc
    obtain rfl := Option.some.inj hc
    obtain ⟨hnone, hsome⟩ := stable_seen hinv hlocked (hinv.rereads _ _ _ _ hpc)
    refine inv_consumerAt hinv (by simp [hpc]) ⟨rfl, ?_⟩ (by simp)
      (by simp)
    refine hscan.see hinv.shape k.isLt hnone fun cl hcl => ⟨hsome cl hcl, fun hlow => ?_⟩
    exact start_of_claim hinv.shape hinv.cells hinv.cutStart hcl (hinv.holds k cl hcl) hlow

/-- The consumer gets a range, or wraps around. -/
theorem inv_decide [DecidableEq β] {written nx ready : Nat} (hinv : Inv t v q)
    (hpc : t.conf.consumer = .decide written nx ready) (h : t.step .consumerStep = some t') :
    ∃ q', q.apply (t.conf.event .consumerStep) = some q' ∧ Inv t' v q' := by
  obtain ⟨c, hc, _⟩ := Traced.step_conf h
  obtain rfl := Traced.step_consumer h hc rfl fun j => rfl
  rw [Config.step, Config.consumerStep, hpc] at hc
  have hok := hinv.consumer
  rw [hpc] at hok
  obtain ⟨rfl, hscan⟩ := hok
  have hdecide := hscan.decide hinv.shape hinv.holds
    (fun x hx hl => hinv.ends x hx hl (by simp [hpc])) hinv.cutStart t.conf.rbuf rfl rfl
  cases hr : t.conf.rbuf.readyOff (t.env v).written nx ready with
  | some r =>
      simp only [hr] at hc hdecide
      obtain rfl := Option.some.inj hc
      have hlow := hdecide.low
      have hsum : (t.env v).written + (r - (t.env v).written) = r := by omega
      have hunclaimed : ∀ j cl, t.conf.claim j = some cl → (t.env v).written ≤ cl.off →
          (t.env v).written + (r - (t.env v).written) ≤ cl.off := by
        rw [hsum]
        exact hdecide.unclaimed
      have hreads := reads_of_unclaimed hinv.shape hinv.cells hinv.holds
        (by rw [hsum]; exact hdecide.high) hunclaimed
      have hev : t.conf.event .consumerStep = .grant (t.conf.bytes (t.env v).written
          (r - (t.env v).written)) := by
        simp only [Config.event, hpc, hr]
      have hlength : (t.conf.bytes (t.env v).written (r - (t.env v).written)).length =
          r - (t.env v).written := by
        rw [Config.bytes, List.length_map, List.length_range']
      refine ⟨{ q with granted := r - (t.env v).written }, ?_,
        inv_consumerAt hinv (by simp [hpc]) ⟨by rw [hsum]; exact hdecide.high, hunclaimed⟩
          (fun _ => rfl) (by simp)⟩
      rw [hev, Queue.apply, hlength]
      exact if_pos ⟨hreads, hdecide.start⟩
  | none =>
      simp only [hr] at hc hdecide
      obtain ⟨h₁, h₂, h₃⟩ := hdecide
      have hev : t.conf.event .consumerStep = .silent := by
        simp only [Config.event, hpc, hr]
      by_cases hend : t.conf.rbuf.endOff ≠ rbufOffMax
      · rw [if_pos hend] at hc
        obtain rfl := Option.some.inj hc
        exact ⟨q, by rw [hev]; rfl, inv_consumerAt hinv (by simp [hpc]) ⟨h₁, h₂, h₃⟩
          (by simp) (by simp)⟩
      · rw [if_neg hend] at hc
        obtain rfl := Option.some.inj hc
        exact ⟨q, by rw [hev]; rfl, inv_consumerAt hinv (by simp [hpc])
          ⟨h₁, h₂, not_not.mp hend, h₃⟩ (by simp)
          (by simp)⟩

/-- `end` is cleared before the consumer wraps around. -/
theorem inv_clearEnd (hinv : Inv t v q) (hpc : t.conf.consumer = .clearEnd)
    (h : t.step .consumerStep = some t') : Inv t' v q := by
  obtain ⟨c, hc, _⟩ := Traced.step_conf h
  obtain rfl := Traced.step_consumer h hc rfl fun j => rfl
  rw [Config.step, Config.consumerStep, hpc] at hc
  obtain rfl := Option.some.inj hc
  have hok := hinv.consumer
  rw [hpc] at hok
  obtain ⟨hcut, hlock, hmarks⟩ := hok
  constructor
  · refine ⟨hinv.shape.space_lt, hinv.shape.next_eq, fun hnone => ?_, hinv.shape.wrapped⟩
    exact absurd (hcut.symm.trans hnone) (by simp)
  · exact fun x _ _ hne => absurd rfl hne
  · refine fun j => (hinv.producers j).mono rfl (fun w hw => hw) (fun w l tg _ _ hf hn hl => ?_)
      fun hl => ?_
    · cases hf hn hl with
      | advance h₁ h₂ h₃ => exact .advance h₁ h₂ h₃
      | exactly h₁ h₂ h₃ h₄ => exact .exactly h₁ h₂ h₃ h₄
      | exceed h₁ h₂ h₃ h₄ => exact .exceed h₁ h₂ h₃ h₄
    · have := (hinv.locks j).mp hl
      exact absurd (hlock.symm.trans this) (by simp)
  · exact hinv.locks
  · exact fun j cl hcl => ⟨(hinv.holds j cl hcl).pos, (hinv.holds j cl hcl).place⟩
  · exact hinv.cells
  · exact hinv.cutStart
  · exact ⟨hcut, hlock, rfl, hmarks⟩
  · simp [Config.consumerAt]
  · simp [Config.consumerAt]

/-- The consumer wraps around. What is left are the bytes from the start up to `next`. -/
theorem inv_unwrap {x : Nat} {c : Config n β} {q' : Queue (Fin n) β} (hinv : Inv t v q)
    (hcut : v.cut = some x) (hlock : v.lock = none) (hend : t.conf.rbuf.endOff = rbufOffMax)
    (hheads : ∀ j cl, t.conf.claim j = some cl → cl.mark = cl.off ∧ cl.off + cl.len ≤ v.off)
    (hrbuf : c.rbuf = { t.conf.rbuf with written := 0 }) (hmem : c.mem = t.conf.mem)
    (hpcs : c.pcs = t.conf.pcs)
    (hcells : List.Forall₂ (CellOk t.conf.claim t.conf.mem) (List.range' 0 v.off) q'.cells)
    (hok : ConsumerOk (Traced.env ⟨c, t.wraps, t.loadedAt⟩ { v with cut := none }) t.conf.claim
      q'.cells c.granted c.consumer)
    (hgranted : c.consumer = .idle → q'.granted = c.granted)
    (hreads : ∀ w nx i ready, c.consumer ≠ .readSeen w nx i ready) :
    Inv ⟨c, t.wraps, t.loadedAt⟩ { v with cut := none } q' := by
  have hs := hinv.shape
  have hclaims : c.claim = t.conf.claim := by
    funext j
    rw [Config.claim, Config.claim, hrbuf, hpcs]
  have henv : Traced.env ⟨c, t.wraps, t.loadedAt⟩ { v with cut := none } =
      { t.env v with cut := none, written := 0 } := by
    simp only [Traced.env, hrbuf]
  rw [henv] at hok
  constructor
  · rw [henv]
    refine ⟨hs.space_lt, hs.next_eq, fun _ => ⟨Nat.zero_le _, hs.off_lt, hend⟩, fun y hy => ?_⟩
    cases hy
  · intro y hy
    cases hy
  · intro j
    rw [henv]
    simp only [hrbuf, hpcs]
    refine (hinv.producers j).mono rfl (fun w hw => hw) (fun w l tg _ _ hf hn hl => ?_)
      fun hl => ?_
    · cases hf hn hl with
      | advance h₁ h₂ h₃ => exact .advance h₁ h₂ fun y hy => absurd hy (by simp)
      | exactly h₁ h₂ h₃ h₄ => exact absurd (hcut.symm.trans h₃) (by simp)
      | exceed h₁ h₂ h₃ h₄ => exact absurd (hcut.symm.trans h₃) (by simp)
    · have := (hinv.locks j).mp hl
      exact absurd (hlock.symm.trans this) (by simp)
  · intro j
    simp only [hpcs]
    exact hinv.locks j
  · intro j cl hcl
    simp only [hclaims] at hcl
    rw [henv]
    obtain ⟨h₁, h₂⟩ := hheads j cl hcl
    exact ⟨(hinv.holds j cl hcl).pos, .inl ⟨h₁, Nat.zero_le _, h₂⟩⟩
  · rw [henv]
    simp only [hclaims, hmem]
    exact hcells
  · intro y hy
    cases hy
  · rw [henv]
    simp only [hclaims]
    exact hok
  · exact hgranted
  · exact fun w nx i ready hp => absurd hp (hreads w nx i ready)

theorem inv_resetWritten (hinv : Inv t v q) (hpc : t.conf.consumer = .resetWritten)
    (h : t.step .consumerStep = some t') : ∃ v', Inv t' v' q := by
  obtain ⟨c, hc, _⟩ := Traced.step_conf h
  obtain rfl := Traced.step_consumer h hc rfl fun j => rfl
  rw [Config.step, Config.consumerStep, hpc] at hc
  obtain rfl := Option.some.inj hc
  have hok := hinv.consumer
  rw [hpc] at hok
  obtain ⟨hcut, hlock, hend, hmarks⟩ := hok
  have hhi : (t.env v).hi = (t.env v).written := by simp [Env.hi, hcut]
  refine ⟨_, inv_unwrap hinv hcut hlock hend (fun j cl hcl => ?_) rfl rfl rfl ?_ rfl
    (by simp [Config.consumerAt]) (by simp [Config.consumerAt])⟩
  · have hholds := hinv.holds j cl hcl
    have hpos := hholds.pos
    have hmark := hmarks j cl hcl
    rcases hholds.place with ⟨_, hlow, hup⟩ | ⟨x, hx, hup, hm | ⟨_, hm, _⟩⟩
    · omega
    · exact ⟨hm, hup⟩
    · obtain rfl := Option.some.inj (hcut.symm.trans hx)
      omega
  · have hcells := hinv.cells
    have hlive : (t.env v).live = List.range' 0 v.off := by
      rw [Env.live, hcut]
      simp [Traced.env]
    rwa [hlive] at hcells

/-- A producer that has locked the word has cut off the end of the buffer. -/
theorem cut_of_lock (hinv : Inv t v q) {i : Fin n} (hlock : v.lock = some i) :
    ∃ x, v.cut = some x ∧ x < t.conf.rbuf.space := by
  have hl := (hinv.locks i).mpr hlock
  have hok := hinv.producers i
  cases hpc : t.conf.pcs i with
  | clearSeen len seen target =>
      rw [hpc] at hl hok
      exact ⟨_, (hok.2.2.2 hl).1, hok.2.2.1.1⟩
  | saveEnd len seen target =>
      rw [hpc] at hok
      exact ⟨_, hok.2.2.2.1, hok.2.2.1.1⟩
  | unlock len target =>
      rw [hpc] at hok
      exact ⟨_, hok.2.2.1, hok.2.1.1⟩
  | _ => rw [hpc] at hl; exact absurd hl id

theorem Env.drop_live {k : Nat} (hk : e.written + k ≤ e.hi) :
    e.live.drop k = { e with written := e.written + k }.live := by
  cases hc : e.cut with
  | none =>
      simp only [Env.live, hc, List.drop_range', Nat.mul_one]
      congr 1
      omega
  | some x =>
      rw [Env.hi, hc, Option.getD_some] at hk
      simp only [Env.live, hc]
      rw [List.drop_append_of_le_length (by rw [List.length_range']; omega), List.drop_range']
      congr 2 <;> omega

/-- All bytes up to the end of the buffer are released. -/
theorem inv_releaseAll {k : Nat} (hinv : Inv t v q) (hidle : t.conf.consumer = .idle)
    (hk : k ≤ t.conf.granted) (hreset : t.conf.rbuf.written + k = t.conf.rbuf.space) :
    Inv ⟨{ (t.conf.setWritten 0) with granted := t.conf.granted - k }, t.wraps, t.loadedAt⟩
      { v with cut := none } ⟨q.cells.drop k, q.granted - k⟩ := by
  have hok := hinv.consumer
  rw [hidle] at hok
  obtain ⟨hfits, hfree⟩ := hok
  change t.conf.rbuf.written + t.conf.granted ≤ _ at hfits
  have hs := hinv.shape
  have hspace : (t.env v).hi ≤ t.conf.rbuf.space := hs.hi_le_space
  have hoff := hs.off_lt
  have hhi : (t.env v).hi = t.conf.rbuf.space := by omega
  obtain rfl : k = t.conf.granted := by omega
  have hcut : v.cut = some t.conf.rbuf.space := by
    cases hc : v.cut with
    | none =>
        rw [Env.hi, show (t.env v).cut = none from hc, Option.getD_none] at hhi
        exact absurd hhi (Nat.ne_of_lt hoff)
    | some x =>
        rw [Env.hi, show (t.env v).cut = some x from hc, Option.getD_some] at hhi
        rw [hhi]
  have hlock : v.lock = none := by
    cases hl : v.lock with
    | none => rfl
    | some i =>
        obtain ⟨x, hx, hlt⟩ := cut_of_lock hinv hl
        obtain rfl := Option.some.inj (hcut.symm.trans hx)
        exact absurd hlt (Nat.lt_irrefl _)
  have hend : t.conf.rbuf.endOff = rbufOffMax := by
    rcases hinv.ends _ hcut hlock (by simp [hidle]) with ⟨_, h₂⟩ | ⟨h₁, _⟩
    · exact h₂
    · exact absurd h₁ (Nat.lt_irrefl _)
  have hlive : (t.env v).live.drop t.conf.granted = List.range' 0 v.off := by
    rw [Env.drop_live hfits, Env.live]
    simp [Traced.env, hcut, hreset]
  refine inv_unwrap hinv hcut hlock hend (fun j cl hcl => ?_) rfl rfl rfl ?_ ?_
    (fun _ => by rw [hinv.granted hidle]) (fun w nx i ready hp => ?_)
  · have hholds := hinv.holds j cl hcl
    have hpos := hholds.pos
    have hlow := hfree j cl hcl
    rcases hholds.place with ⟨_, hw, hup⟩ | ⟨x, hx, hup, hm | ⟨_, _, hlt⟩⟩
    · have := hlow hw
      change t.conf.rbuf.written + t.conf.granted ≤ _ at this
      omega
    · exact ⟨hm, hup⟩
    · obtain rfl := Option.some.inj (hcut.symm.trans hx)
      exact absurd hlt (Nat.lt_irrefl _)
  · have hdrop := List.forall₂_drop t.conf.granted hinv.cells
    rwa [hlive] at hdrop
  · simp only [Config.setWritten, hidle, Nat.sub_self]
    exact ⟨Nat.zero_le _, fun j cl _ _ => Nat.zero_le _⟩
  · exact absurd hp (by simp [Config.setWritten, hidle])

/-- Bytes before the end of the buffer are released. -/
theorem inv_releasePart {k : Nat} (hinv : Inv t v q) (hidle : t.conf.consumer = .idle)
    (hk : k ≤ t.conf.granted) :
    Inv ⟨{ (t.conf.setWritten (t.conf.rbuf.written + k)) with granted := t.conf.granted - k },
      t.wraps, t.loadedAt⟩ v ⟨q.cells.drop k, q.granted - k⟩ := by
  have hok := hinv.consumer
  rw [hidle] at hok
  obtain ⟨hfits, hfree⟩ := hok
  change t.conf.rbuf.written + t.conf.granted ≤ _ at hfits
  have hs := hinv.shape
  have hle : (t.env v).written + k ≤ (t.env v).hi :=
    Nat.le_trans (Nat.add_le_add_left hk _) hfits
  constructor
  · refine ⟨hs.space_lt, hs.next_eq, fun hnone => ?_, fun x hx => ?_⟩
    · have h₁ := hs.whole hnone
      rw [Env.hi, show (t.env v).cut = none from hnone, Option.getD_none] at hle
      exact ⟨hle, h₁.2⟩
    · have h₁ := hs.wrapped x hx
      rw [Env.hi, show (t.env v).cut = some x from hx, Option.getD_some] at hle
      exact ⟨Nat.lt_of_lt_of_le h₁.1 (Nat.le_add_right _ _), hle, h₁.2.2⟩
  · exact fun x hx hl _ => hinv.ends x hx hl (by simp [hidle])
  · refine fun j => (hinv.producers j).mono rfl (fun w hw => hw)
      (fun w l tg _ _ hf hn hl => ?_) fun hl => ⟨rfl, rfl, rfl⟩
    cases hf hn hl with
    | advance h₁ h₂ h₃ =>
        exact .advance h₁ h₂ fun y hy => Nat.lt_of_lt_of_le (h₃ y hy) (Nat.le_add_right _ _)
    | exactly h₁ h₂ h₃ h₄ => exact .exactly h₁ h₂ h₃ (Nat.add_pos_left h₄ _)
    | exceed h₁ h₂ h₃ h₄ =>
        exact .exceed h₁ h₂ h₃ (Nat.lt_of_lt_of_le h₄ (Nat.le_add_right _ _))
  · exact hinv.locks
  · intro j cl hcl
    have hholds := hinv.holds j cl hcl
    refine ⟨hholds.pos, hholds.place.imp_left fun hfront => ⟨hfront.1, ?_, hfront.2.2⟩⟩
    exact Nat.le_trans (Nat.add_le_add_left hk _) (hfree j cl hcl hfront.2.1)
  · have hdrop := List.forall₂_drop k hinv.cells
    rw [Env.drop_live hle] at hdrop
    exact hdrop
  · intro x hx c hc
    have h₁ := (hs.wrapped x hx).2.1
    rw [Env.hi, show (t.env v).cut = some x from hx, Option.getD_some] at hle
    refine hinv.cutStart x hx c ?_
    rw [List.getElem?_drop] at hc
    rw [← hc]
    congr 1
    change _ ≤ x at h₁
    change t.conf.rbuf.written + k ≤ x at hle
    change _ = k + (x - (t.conf.rbuf.written + k))
    omega
  · simp only [Config.setWritten, hidle]
    refine ⟨?_, fun j cl hcl hlow => ?_⟩
    · change t.conf.rbuf.written + k + (t.conf.granted - k) ≤ (t.env v).hi
      omega
    · change t.conf.rbuf.written + k ≤ cl.off at hlow
      change t.conf.rbuf.written + k + (t.conf.granted - k) ≤ cl.off
      have := hfree j cl hcl (Nat.le_trans (Nat.le_add_right _ _) hlow)
      change t.conf.rbuf.written + t.conf.granted ≤ _ at this
      omega
  · exact fun _ => by rw [hinv.granted hidle]
  · exact fun w nx i ready hp => absurd hp (by simp [Config.setWritten, hidle])

/-- The consumer releases bytes that it has been granted. -/
theorem inv_release [DecidableEq β] {k : Nat} (hinv : Inv t v q)
    (h : t.step (.release k) = some t') :
    ∃ v' q', q.apply (t.conf.event (.release k)) = some q' ∧ Inv t' v' q' := by
  obtain ⟨c, hc, _⟩ := Traced.step_conf h
  obtain rfl := Traced.step_consumer h hc rfl fun j => rfl
  obtain ⟨⟨hidle, hk⟩, hc⟩ := Option.ite_none_right_eq_some.mp hc
  obtain rfl := Option.some.inj hc
  have hok := hinv.consumer
  rw [hidle] at hok
  obtain ⟨hfits, hfree⟩ := hok
  have hreads : Reads q.cells (t.conf.bytes t.conf.rbuf.written k) :=
    reads_of_unclaimed hinv.shape hinv.cells hinv.holds
      (Nat.le_trans (Nat.add_le_add_left hk _) hfits)
      fun j cl hcl hlow => Nat.le_trans (Nat.add_le_add_left hk _) (hfree j cl hcl hlow)
  have hlength : (t.conf.bytes t.conf.rbuf.written k).length = k := by
    rw [Config.bytes, List.length_map, List.length_range']
  have hguard : q.apply (t.conf.event (.release k)) =
      some ⟨q.cells.drop k, q.granted - k⟩ := by
    rw [Config.event, Queue.apply, hlength, hinv.granted hidle]
    exact if_pos ⟨hk, hreads⟩
  by_cases hreset : t.conf.rbuf.written + k = t.conf.rbuf.space
  · simp only [if_pos hreset]
    exact ⟨_, _, hguard, inv_releaseAll hinv hidle hk hreset⟩
  · simp only [if_neg hreset]
    exact ⟨_, _, hguard, inv_releasePart hinv hidle hk⟩

/-- A step of the consumer inside of `ringbuf_consume`. -/
theorem inv_consumerStep [DecidableEq β] (hinv : Inv t v q)
    (h : t.step .consumerStep = some t') :
    ∃ v' q', q.apply (t.conf.event .consumerStep) = some q' ∧ Inv t' v' q' := by
  cases hpc : t.conf.consumer with
  | idle =>
      obtain ⟨c, hc, _⟩ := Traced.step_conf h
      simp [Config.step, Config.consumerStep, hpc] at hc
  | loadNext written => exact ⟨v, inv_loadNext hinv hpc h⟩
  | scan written nx k ready =>
      exact ⟨v, q, by simp [Config.event, hpc, Queue.apply], inv_scan hinv hpc h⟩
  | readSeen written nx k ready =>
      exact ⟨v, q, by simp [Config.event, hpc, Queue.apply], inv_readSeen hinv hpc h⟩
  | decide written nx ready => exact ⟨v, inv_decide hinv hpc h⟩
  | clearEnd => exact ⟨v, q, by simp [Config.event, hpc, Queue.apply], inv_clearEnd hinv hpc h⟩
  | resetWritten =>
      obtain ⟨v', hinv'⟩ := inv_resetWritten hinv hpc h
      exact ⟨v', q, by simp [Config.event, hpc, Queue.apply], hinv'⟩

end Steps

end XMonitor.Rbuf
