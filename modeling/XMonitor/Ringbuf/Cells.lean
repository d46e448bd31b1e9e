import XMonitor.Ringbuf.Reserve

/-!
# The reserved bytes and the queue

The cells of the queue stand for the addresses of the reserved bytes. A reservation adds its
addresses and their cells at the back, a producer fills the cells of its claim, and the consumer
takes cells at the front which no producer claims.
-/

namespace XMonitor.Rbuf

open MessageQueue

variable {n : Nat} {β : Type*} {e : Env n}

theorem Env.Holds.mem_live (hs : e.Shape) {cl : Claim} (h : e.Holds cl) {x : Nat}
    (hx : cl.Has x) : x ∈ e.live := by
  rw [Env.mem_live hs]
  obtain ⟨h₁, h₂⟩ := hx
  rcases h.place with ⟨_, hlow, hup⟩ | ⟨y, hy, hup, _⟩
  · exact .inl ⟨by omega, by omega⟩
  · exact .inr ⟨by rw [hy]; rfl, by omega⟩

theorem Claim.has_off {cl : Claim} (h : 0 < cl.len) : cl.Has cl.off :=
  ⟨Nat.le_refl _, Nat.lt_add_of_pos_right h⟩

theorem filter_range'_disjoint {cl : Claim} {s m : Nat}
    (h : cl.off + cl.len ≤ s ∨ s + m ≤ cl.off) : (List.range' s m).filter cl.Has = [] := by
  rw [List.filter_eq_nil_iff]
  intro x hx hhas
  have hx' := List.mem_range'_1.mp hx
  have hhas' : cl.Has x := by simpa using hhas
  obtain ⟨h₁, h₂⟩ := hhas'
  omega

theorem filter_range'_inside {cl : Claim} {s m : Nat} (hlow : s ≤ cl.off)
    (hup : cl.off + cl.len ≤ s + m) :
    (List.range' s m).filter cl.Has = List.range' cl.off cl.len := by
  have hsplit : List.range' s m = List.range' s (cl.off - s) ++ (List.range' cl.off cl.len ++
      List.range' (cl.off + cl.len) (s + m - (cl.off + cl.len))) := by
    rw [List.range'_append_1]
    calc List.range' s m = List.range' s (cl.off - s + (s + m - cl.off)) := by
          congr 1
          omega
      _ = List.range' s (cl.off - s) ++ List.range' (s + (cl.off - s)) (s + m - cl.off) :=
          List.range'_append_1.symm
      _ = _ := by
          rw [Nat.add_sub_cancel' hlow]
          congr 2
          omega
  have hfront : (List.range' s (cl.off - s)).filter cl.Has = [] :=
    filter_range'_disjoint (by omega)
  have hback : (List.range' (cl.off + cl.len) (s + m - (cl.off + cl.len))).filter cl.Has = [] :=
    filter_range'_disjoint (by omega)
  rw [hsplit, List.filter_append, List.filter_append, hfront, hback, List.nil_append,
    List.append_nil, List.filter_eq_self]
  intro x hx
  have hx' := List.mem_range'_1.mp hx
  have hhas : cl.Has x := ⟨by omega, by omega⟩
  simpa using hhas

/-- The addresses of a claim are one range of the reserved addresses. -/
theorem Env.Holds.filter_live (hs : e.Shape) {cl : Claim} (h : e.Holds cl) :
    e.live.filter cl.Has = List.range' cl.off cl.len := by
  have hpos := h.pos
  cases hc : e.cut with
  | none =>
      have h₁ := (hs.whole hc).1
      rcases h.place with ⟨_, hlow, hup⟩ | ⟨y, hy, _⟩
      · simp only [Env.hi, hc, Option.getD_none] at hup
        simp only [Env.live, hc]
        exact filter_range'_inside hlow (by omega)
      · rw [hc] at hy
        cases hy
  | some y =>
      obtain ⟨h₁, h₂, _⟩ := hs.wrapped y hc
      simp only [Env.live, hc, List.filter_append]
      rcases h.place with ⟨_, hlow, hup⟩ | ⟨_, _, hup, _⟩
      · simp only [Env.hi, hc, Option.getD_some] at hup
        rw [filter_range'_inside hlow (by omega), filter_range'_disjoint (by omega),
          List.append_nil]
      · rw [filter_range'_disjoint (by omega), filter_range'_inside (by omega) (by omega),
          List.nil_append]

theorem forall₂_replicate {R : Nat → Cell (Fin n) β → Prop} {d : Cell (Fin n) β} (m : Nat) :
    ∀ b, (∀ x, b ≤ x → x < b + m → R x d) →
      List.Forall₂ R (List.range' b m) (List.replicate m d) := by
  induction m with
  | zero => exact fun b _ => .nil
  | succ m ih =>
      intro b hall
      exact .cons (hall b (Nat.le_refl _) (by omega))
        (ih (b + 1) fun x h₁ h₂ => hall x (by omega) (by omega))

theorem forall₂_message {R : Nat → Cell (Fin n) β → Prop} {a len : Nat} {s : Slot (Fin n) β}
    (h : ∀ x, a ≤ x → x < a + len → ∀ first, (x = a → first = true) → R x ⟨first, s⟩) :
    List.Forall₂ R (List.range' a len) (message (List.replicate len s)) := by
  cases len with
  | zero => exact .nil
  | succ len =>
      rw [List.replicate_succ, message, List.map_replicate]
      refine .cons (h a (Nat.le_refl _) (by omega) true fun _ => rfl) ?_
      exact forall₂_replicate len (a + 1) fun x h₁ h₂ =>
        h x (by omega) (by omega) false fun hx => by omega

section Claims

variable {claims : Fin n → Option Claim} {mem : Nat → β} {cells : List (Cell (Fin n) β)}
  {i : Fin n} {cl : Claim}

/-- The bytes of a new claim are appended to the queue. -/
theorem cells_reserve (hs : e.Shape) (h : List.Forall₂ (CellOk claims mem) e.live cells)
    (hholds : ∀ j cl', claims j = some cl' → e.Holds cl')
    (hi : claims i = none) (hpos : 0 < cl.len) (hfree : ∀ x ∈ e.live, ¬ cl.Has x) :
    List.Forall₂ (CellOk (Function.update claims i (some cl)) mem)
      (e.live ++ List.range' cl.off cl.len)
      (cells ++ message (List.replicate cl.len (.pending i))) := by
  have hother : ∀ x, cl.Has x → ∀ j cl', claims j = some cl' → ¬ cl'.Has x :=
    fun x hx j cl' hj hx' => hfree x ((hholds j cl' hj).mem_live hs hx') hx
  refine List.rel_append ?_ ?_
  · refine List.Forall₂.imp ?_ ((List.forall₂_and_left e.live cells).mpr ⟨hfree, h⟩)
    rintro x c ⟨hnot, hc⟩
    refine ⟨fun j => ?_, hc.ready, fun j cl' hj hx => ?_⟩
    · rw [hc.pending j]
      by_cases hji : j = i
      · subst hji
        simp [hi, hnot]
      · rw [Function.update_of_ne hji]
    · by_cases hji : j = i
      · subst hji
        rw [Function.update_self] at hj
        obtain rfl := Option.some.inj hj
        exact absurd (hx ▸ Claim.has_off hpos) hnot
      · rw [Function.update_of_ne hji] at hj
        exact hc.first j cl' hj hx
  · refine forall₂_message fun x h₁ h₂ first hfirst => ?_
    have hhas : cl.Has x := ⟨h₁, h₂⟩
    refine ⟨fun j => ?_, by simp, fun j cl' hj hx => ?_⟩
    · by_cases hji : j = i
      · subst hji
        simp [hhas]
      · rw [Function.update_of_ne hji]
        constructor
        · intro hslot
          exact absurd (Slot.pending.inj hslot).symm hji
        · rintro ⟨cl', hj, hx⟩
          exact absurd hx (hother x hhas j cl' hj)
    · by_cases hji : j = i
      · subst hji
        rw [Function.update_self] at hj
        obtain rfl := Option.some.inj hj
        exact hfirst hx.symm
      · rw [Function.update_of_ne hji] at hj
        have hpos := (hholds j cl' hj).pos
        exact absurd (hx ▸ Claim.has_off hpos) (hother x hhas j cl' hj)

/-- A producer fills the cells of its claim with the bytes it has written. -/
theorem cells_produce (hs : e.Shape) (h : List.Forall₂ (CellOk claims mem) e.live cells)
    (hi : claims i = some cl) (hcl : e.Holds cl) :
    List.Forall₂ (CellOk (Function.update claims i none) mem) e.live
        (fill i ((List.range' cl.off cl.len).map mem) cells) ∧
      ((List.range' cl.off cl.len).map mem).length = pendingCount i cells := by
  rw [← hcl.filter_live hs]
  have hiff : ∀ x c, CellOk claims mem x c → (c.slot = .pending i ↔ cl.Has x) := by
    intro x c hc
    rw [hc.pending i, hi]
    simp
  refine forall₂_fill hiff (fun x c hc hx => ?_) (fun x c hc hx => ?_) h
  · have hslot := (hiff x c hc).mpr hx
    refine ⟨fun j => ?_, fun b hb => (Slot.ready.inj hb).symm, fun j cl' hj hx' => ?_⟩
    · by_cases hji : j = i
      · subst hji
        simp
      · rw [Function.update_of_ne hji, ← hc.pending j, hslot]
        simp [Ne.symm hji]
    · by_cases hji : j = i
      · subst hji
        simp at hj
      · rw [Function.update_of_ne hji] at hj
        exact hc.first j cl' hj hx'
  · refine ⟨fun j => ?_, hc.ready, fun j cl' hj hx' => ?_⟩
    · by_cases hji : j = i
      · subst hji
        rw [hiff x c hc]
        simp [hx]
      · rw [Function.update_of_ne hji]
        exact hc.pending j
    · by_cases hji : j = i
      · subst hji
        simp at hj
      · rw [Function.update_of_ne hji] at hj
        exact hc.first j cl' hj hx'

/-- A producer writes into its claim. The bytes that can be read do not change. -/
theorem cells_write (h : List.Forall₂ (CellOk claims mem) e.live cells)
    (hi : claims i = some cl) {a : Nat} (ha : cl.Has a) (v : β) :
    List.Forall₂ (CellOk claims (Function.update mem a v)) e.live cells := by
  refine h.imp fun x c hc => ⟨hc.pending, fun b hb => ?_, hc.first⟩
  have hne : x ≠ a := by
    rintro rfl
    have hslot := (hc.pending i).mpr ⟨cl, hi, ha⟩
    rw [hb] at hslot
    cases hslot
  rw [Function.update_of_ne hne]
  exact hc.ready b hb

/-- Two producers never claim the same byte. -/
theorem claims_disjoint (hs : e.Shape) (h : List.Forall₂ (CellOk claims mem) e.live cells)
    (hholds : ∀ j cl', claims j = some cl' → e.Holds cl') {j : Fin n} {cl' : Claim}
    (hi : claims i = some cl) (hj : claims j = some cl') {x : Nat} (hx : cl.Has x)
    (hx' : cl'.Has x) : i = j := by
  obtain ⟨k, hk, hkx⟩ := List.getElem_of_mem ((hholds i cl hi).mem_live hs hx)
  obtain ⟨hlen, hall⟩ := List.forall₂_iff_get.mp h
  have hcell := hall k hk (hlen ▸ hk)
  rw [List.get_eq_getElem, hkx] at hcell
  have hpi := (hcell.pending i).mpr ⟨cl, hi, hx⟩
  have hpj := (hcell.pending j).mpr ⟨cl', hj, hx'⟩
  exact Slot.pending.inj (hpi.symm.trans hpj)

/-- The bytes up to a place that no claim begins before can be read. -/
theorem reads_of_unclaimed (hs : e.Shape) (h : List.Forall₂ (CellOk claims mem) e.live cells)
    (hholds : ∀ j cl', claims j = some cl' → e.Holds cl') {k : Nat} (hk : e.written + k ≤ e.hi)
    (hfree : ∀ j cl', claims j = some cl' → e.written ≤ cl'.off → e.written + k ≤ cl'.off) :
    Reads cells ((List.range' e.written k).map mem) := by
  have hlive : e.live.take k = List.range' e.written k := by
    cases hc : e.cut with
    | none =>
        simp only [Env.hi, hc, Option.getD_none] at hk
        simp only [Env.live, hc]
        exact List.take_range'_of_length_ge (by omega)
    | some y =>
        simp only [Env.hi, hc, Option.getD_some] at hk
        simp only [Env.live, hc]
        rw [List.take_append_of_le_length (by rw [List.length_range']; omega)]
        exact List.take_range'_of_length_ge (by omega)
  have htake := List.forall₂_take k h
  rw [hlive] at htake
  have hready : List.Forall₂ (fun x c => Slot.ready (mem x) = c.slot) (List.range' e.written k)
      (cells.take k) := by
    refine List.Forall₂.imp ?_ ((List.forall₂_and_left _ _).mpr
      ⟨fun x hx => hx, htake⟩)
    rintro x c ⟨hx, hc⟩
    obtain ⟨h₁, h₂⟩ := List.mem_range'_1.mp hx
    cases hslot : c.slot with
    | ready b => rw [hc.ready b hslot]
    | pending j =>
        obtain ⟨cl', hj, hlow, hup⟩ := (hc.pending j).mp hslot
        have hplace := (hholds j cl' hj).place
        have hbound := hfree j cl' hj
        rcases hplace with ⟨_, hw, _⟩ | ⟨y, hy, hoff, _⟩
        · have := hbound hw
          omega
        · have := (hs.wrapped y hy).1
          omega
  have heq : List.Forall₂ Eq ((List.range' e.written k).map (Slot.ready ∘ mem))
      ((cells.take k).map Cell.slot) :=
    List.forall₂_map_left_iff.mpr (List.forall₂_map_right_iff.mpr hready)
  rw [List.forall₂_eq_eq_eq] at heq
  rw [Reads, List.length_map, List.length_range', List.map_map, heq]

theorem unreserved_of_claims (h : List.Forall₂ (CellOk claims mem) e.live cells)
    (hi : claims i = none) : Unreserved i cells := by
  intro c hc
  obtain ⟨k, hk, rfl⟩ := List.getElem_of_mem hc
  obtain ⟨hlen, hall⟩ := List.forall₂_iff_get.mp h
  have hcell := hall k (hlen ▸ hk) hk
  intro hslot
  obtain ⟨cl', hj, _⟩ := (hcell.pending i).mp hslot
  rw [hi] at hj
  cases hj

end Claims

theorem startsAt_of_length_le {cells : List (Cell (Fin n) β)} {k : Nat}
    (h : cells.length ≤ k) : StartsAt cells k := by
  intro c hc
  rw [List.getElem?_eq_none h] at hc
  cases hc

/-- The reserved bytes below `next` begin with a message after a wrap around. -/
theorem cutStart_reserve {e' : Env n} {i : Fin n} {len target : Nat} (hs : e.Shape)
    (h : e.Reserves i len target e') (hlock : e.lock = none) {cells : List (Cell (Fin n) β)}
    (hstart : ∀ x, e.cut = some x → StartsAt cells (x - e.written))
    (hlen : e.live.length = cells.length) {x : Nat} (hx : e'.cut = some x) :
    StartsAt (cells ++ message (List.replicate len (.pending i))) (x - e.written) := by
  have hlive := h.live_eq hs hlock
  cases h with
  | advance htarget hspace hcut =>
      have hx' : e.cut = some x := hx
      have hle := e.length_live
      rw [Env.hi, hx', Option.getD_some] at hle
      exact startsAt_append (hstart x hx') (by omega) _
  | exactly htarget hspace hcut hlen' =>
      obtain rfl := Option.some.inj hx
      have hoff := (hs.whole hcut).1
      apply startsAt_of_length_le
      rw [List.length_append, message_length, List.length_replicate, ← hlen, Env.live, hcut,
        List.length_range']
      omega
  | exceed htarget hspace hcut hlen' =>
      obtain rfl := Option.some.inj hx
      have hcells : cells.length = e.off - e.written := by
        rw [← hlen, Env.live, hcut, List.length_range']
      exact startsAt_append (startsAt_of_length_le (Nat.le_of_eq hcells)) (by omega) _

/-- A reservation does not disturb the consumer. -/
theorem Scan.reserve {e' : Env n} {i : Fin n} {len target : Nat}
    (h : e.Reserves i len target e') (hs : e.Shape) {claims : Fin n → Option Claim}
    {cells : List (Cell (Fin n) β)} (hlen : e.live.length = cells.length) {nx ready upto : Nat}
    (hscan : Scan e claims cells nx ready upto) (slots : List (Slot (Fin n) β)) :
    Scan e' (Function.update claims i (some (e.newClaim len target))) (cells ++ message slots)
      nx ready upto := by
  obtain ⟨_, hwr, _, _⟩ := h.same
  have hhi := h.hi_le hs
  have hlive := e.length_live
  refine ⟨by rw [hwr]; exact hscan.ne, fun hnx => ?_, fun hnx => ?_, by rw [hwr]; exact hscan.low,
    ?_, fun j hj cl hcl hmark => ?_⟩
  · rw [hwr] at hnx ⊢
    obtain ⟨h₁, h₂⟩ := hscan.ahead hnx
    exact ⟨Nat.le_trans h₁ hhi, startsAt_append h₂ (by omega) slots⟩
  · rw [hwr] at hnx
    obtain ⟨h₁, h₂⟩ := hscan.behind hnx
    obtain ⟨h₃, h₄⟩ := h.wrapped h₁
    exact ⟨by rwa [h₃], by rwa [h₄]⟩
  · rw [hwr]
    refine hscan.start.imp id fun ⟨h₁, h₂⟩ => ?_
    exact ⟨Nat.le_trans h₁ hhi, startsAt_append h₂ (by omega) slots⟩
  · rw [hwr] at hmark ⊢
    by_cases hji : j = i
    · subst hji
      rw [Function.update_self] at hcl
      obtain rfl := Option.some.inj hcl
      change e.written ≤ e.off at hmark
      change ready ≤ e.off ∨ e.written < nx ∧ nx ≤ e.off
      have hcut : e.cut = none := by
        cases hc : e.cut with
        | none => rfl
        | some x =>
            have := (hs.wrapped x hc).1
            omega
      rcases Nat.lt_or_gt_of_ne hscan.ne with hnx | hnx
      · have h₁ := (hscan.ahead hnx).1
        rw [Env.hi, hcut] at h₁
        exact .inr ⟨hnx, h₁⟩
      · have h₁ := (hscan.behind hnx).1
        rw [hcut] at h₁
        cases h₁
    · rw [Function.update_of_ne hji] at hcl
      exact hscan.scanned j hj cl hcl hmark

theorem ConsumerOk.reserve {e' : Env n} {i : Fin n} {len target : Nat}
    (h : e.Reserves i len target e') (hs : e.Shape) (hlock : e.lock = none)
    {claims : Fin n → Option Claim} {cells : List (Cell (Fin n) β)}
    (hlen : e.live.length = cells.length) {granted : Nat} {pc : ConsumerPc n}
    (hc : ConsumerOk e claims cells granted pc) (slots : List (Slot (Fin n) β)) :
    ConsumerOk e' (Function.update claims i (some (e.newClaim len target)))
      (cells ++ message slots) granted pc := by
  obtain ⟨_, hwr, hend, _⟩ := h.same
  have hmarks : e.cut = some e.written → (∀ j cl, claims j = some cl → cl.mark < e.written) →
      ∀ j cl, Function.update claims i (some (e.newClaim len target)) j = some cl →
        cl.mark < e.written := by
    intro hcut hall j cl hcl
    by_cases hji : j = i
    · subst hji
      rw [Function.update_self] at hcl
      obtain rfl := Option.some.inj hcl
      exact (hs.wrapped _ hcut).1
    · rw [Function.update_of_ne hji] at hcl
      exact hall j cl hcl
  cases pc with
  | idle =>
      obtain ⟨h₁, h₂⟩ := hc
      refine ⟨by rw [hwr]; exact Nat.le_trans h₁ (h.hi_le hs), fun j cl hcl hlow => ?_⟩
      rw [hwr] at hlow ⊢
      by_cases hji : j = i
      · subst hji
        rw [Function.update_self] at hcl
        obtain rfl := Option.some.inj hcl
        rcases h.newClaim_off hs hlock with hbelow | habove
        · omega
        · exact Nat.le_trans h₁ habove
      · rw [Function.update_of_ne hji] at hcl
        exact h₂ j cl hcl hlow
  | loadNext written => exact hc.trans hwr.symm
  | scan written nx k ready => exact ⟨hc.1.trans hwr.symm, hc.2.reserve h hs hlen slots⟩
  | readSeen written nx k ready => exact ⟨hc.1.trans hwr.symm, hc.2.reserve h hs hlen slots⟩
  | decide written nx ready => exact ⟨hc.1.trans hwr.symm, hc.2.reserve h hs hlen slots⟩
  | clearEnd =>
      obtain ⟨h₁, h₂, h₃⟩ := hc
      obtain ⟨h₄, h₅⟩ := h.wrapped (by rw [h₁]; rfl)
      rw [ConsumerOk, hwr]
      exact ⟨h₄.trans h₁, h₅.trans h₂, hmarks h₁ h₃⟩
  | resetWritten =>
      obtain ⟨h₁, h₂, h₃, h₆⟩ := hc
      obtain ⟨h₄, h₅⟩ := h.wrapped (by rw [h₁]; rfl)
      rw [ConsumerOk, hwr]
      exact ⟨h₄.trans h₁, h₅.trans h₂, hend.trans h₃, hmarks h₁ h₆⟩

end XMonitor.Rbuf
