import Mathlib.Algebra.GroupWithZero.Nat
import Mathlib.Logic.Basic

/-!
# Depth-limited search for the last hit on unsigned indices

The loop below looks for the greatest index of a window at which a predicate
holds, provided the predicate holds on an initial segment of the indices. Its
indices are 64-bit words, so the step `right = mid - 1` wraps when `mid` is `0`;
the following iteration then leaves the window through the bound check. A number
of iterations that is too small for the window makes the loop return early with
whatever it has found so far.

`loop_eq_last` and `loop_of_no_hit` give the result for a window that the number
of iterations can halve away, which is one of fewer than `2 ^ fuel` indices.
-/

namespace BoundedSearch

/-- `mid = left + (right - left) / 2`. -/
def middle (left right : UInt64) : UInt64 := left + (right - left) / 2

/-- At most `fuel` halvings of `[left, right]`. `none` is the exit of the bound
check; the sentinel for "nothing found" is the `result` the caller starts with. -/
def loop (hit : UInt64 → Bool) (limit : UInt64) :
    Nat → UInt64 → UInt64 → UInt64 → Option UInt64
  | 0, _, _, result => some result
  | fuel + 1, left, right, result =>
    if left > right then some result
    else if middle left right ≥ limit then none
    else if hit (middle left right) then
      loop hit limit fuel (middle left right + 1) right (middle left right)
    else loop hit limit fuel left (middle left right - 1) result

theorem middle_toNat {left right : UInt64} (h : left ≤ right) :
    (middle left right).toNat = left.toNat + (right.toNat - left.toNat) / 2 := by
  have hle : left.toNat ≤ right.toNat := h
  have hr := right.toNat_lt
  rw [middle, UInt64.toNat_add, UInt64.toNat_div, UInt64.toNat_sub_of_le _ _ h]
  change (left.toNat + (right.toNat - left.toNat) / 2) % 2 ^ 64 = _
  exact Nat.mod_eq_of_lt (by omega)

theorem le_middle {left right : UInt64} (h : left ≤ right) : left ≤ middle left right := by
  rw [UInt64.le_iff_toNat_le, middle_toNat h]
  exact Nat.le_add_right _ _

theorem middle_le {left right : UInt64} (h : left ≤ right) : middle left right ≤ right := by
  have hle : left.toNat ≤ right.toNat := h
  rw [UInt64.le_iff_toNat_le, middle_toNat h]
  omega

theorem toNat_succ_of_lt {k limit : UInt64} (h : k < limit) : (k + 1).toNat = k.toNat + 1 := by
  have hlt : k.toNat < limit.toNat := h
  have := limit.toNat_lt
  rw [UInt64.toNat_add]
  exact Nat.mod_eq_of_lt (by simp only [UInt64.reduceToNat]; omega)

theorem toNat_pred_of_pos {k : UInt64} (h : 0 < k.toNat) : (k - 1).toNat = k.toNat - 1 :=
  UInt64.toNat_sub_of_le _ _ (UInt64.le_iff_toNat_le.mpr h)

section

variable {hit : UInt64 → Bool} {limit left right : UInt64}

/-! ## One halving -/

theorem loop_of_hit (fuel : Nat) (result : UInt64) (h : left ≤ right) (hlimit : right < limit)
    (hhit : hit (middle left right) = true) :
    loop hit limit (fuel + 1) left right result =
      loop hit limit fuel (middle left right + 1) right (middle left right) := by
  have hexit : ¬ left > right := UInt64.not_lt.mpr h
  have hin : ¬ middle left right ≥ limit :=
    UInt64.not_le.mpr (UInt64.lt_of_le_of_lt (middle_le h) hlimit)
  simp only [loop, hexit, hin, hhit, if_true, if_false]

theorem loop_of_miss (fuel : Nat) (result : UInt64) (h : left ≤ right) (hlimit : right < limit)
    (hmiss : hit (middle left right) = false) :
    loop hit limit (fuel + 1) left right result =
      loop hit limit fuel left (middle left right - 1) result := by
  have hexit : ¬ left > right := UInt64.not_lt.mpr h
  have hin : ¬ middle left right ≥ limit :=
    UInt64.not_le.mpr (UInt64.lt_of_le_of_lt (middle_le h) hlimit)
  simp only [loop, hexit, hin, hmiss, if_false, Bool.false_eq_true]

/-- The window `[0, 0 - 1]` is left through the bound check. -/
theorem loop_wrapped (fuel : Nat) (result : UInt64) (hlow : limit.toNat ≤ 2 ^ 63 - 1) :
    loop hit limit (fuel + 1) 0 (0 - 1) result = none := by
  have hbig : middle 0 (0 - 1) ≥ limit := by
    rw [ge_iff_le, UInt64.le_iff_toNat_le]
    exact hlow
  have hopen : ¬ (0 : UInt64) > 0 - 1 := by decide
  simp only [loop, hopen, hbig, if_true, if_false]

/-! ## The whole search -/

/-- Without a hit in the window the loop keeps its result. Only a window that
starts at index `0` can be left through the bound check instead: there the last
`mid - 1` wraps to the greatest word. -/
theorem loop_of_no_hit (fuel : Nat) (left right result : UInt64)
    (hwindow : left.toNat ≤ right.toNat + 1) (hlimit : right < limit)
    (hlow : limit.toNat ≤ 2 ^ 63 - 1)
    (hmiss : ∀ k, left ≤ k → k ≤ right → hit k = false) :
    loop hit limit fuel left right result = some result ∨
      left = 0 ∧ loop hit limit fuel left right result = none := by
  induction fuel generalizing right with
  | zero => exact .inl rfl
  | succ fuel ih =>
      by_cases hexit : left > right
      · exact .inl (by simp [loop, hexit])
      have hle : left ≤ right := UInt64.not_lt.mp hexit
      have hleft : left.toNat ≤ (middle left right).toNat := le_middle hle
      rw [loop_of_miss fuel result hle hlimit (hmiss _ (le_middle hle) (middle_le hle))]
      by_cases hzero : middle left right = 0
      · -- `right` becomes the greatest word, whose middle is above every limit
        have hleft0 : left = 0 := by
          rw [hzero] at hleft
          exact UInt64.toNat_inj.mp (Nat.le_zero.mp hleft)
        rw [hzero, hleft0]
        cases fuel with
        | zero => exact .inl rfl
        | succ fuel => exact .inr ⟨rfl, loop_wrapped fuel result hlow⟩
      · have hpos : 0 < (middle left right).toNat := by
          rw [Nat.pos_iff_ne_zero]
          exact fun h => hzero (UInt64.toNat_inj.mp h)
        have hpred := toNat_pred_of_pos hpos
        have hpredRight : middle left right - 1 ≤ right := by
          have hright : (middle left right).toNat ≤ right.toNat := middle_le hle
          rw [UInt64.le_iff_toNat_le]
          omega
        apply ih
        · omega
        · exact UInt64.lt_of_le_of_lt hpredRight hlimit
        · intro k hk hk'
          exact hmiss k hk (UInt64.le_trans hk' hpredRight)

/-- Behind the last hit the loop keeps the index it has. -/
theorem loop_behind_last (fuel : Nat) (right last : UInt64) (hright : last ≤ right)
    (hlimit : right < limit) (hlow : limit.toNat ≤ 2 ^ 63 - 1)
    (hlast : ∀ k, last ≤ k → k ≤ right → hit k = true → k ≤ last) :
    loop hit limit fuel (last + 1) right last = some last := by
  have hsucc := toNat_succ_of_lt (UInt64.lt_of_le_of_lt hright hlimit)
  have hrightNat : last.toNat ≤ right.toNat := hright
  have hmiss : ∀ k, last + 1 ≤ k → k ≤ right → hit k = false := by
    intro k hk hk'
    have hkNat : (last + 1).toNat ≤ k.toNat := hk
    cases hh : hit k with
    | false => rfl
    | true =>
        have hle : k.toNat ≤ last.toNat :=
          hlast k (UInt64.le_iff_toNat_le.mpr (by omega)) hk' hh
        omega
  rcases loop_of_no_hit fuel (last + 1) right last (by omega) hlimit hlow hmiss with
    hkeep | ⟨hzero, -⟩
  · exact hkeep
  · rw [hzero] at hsucc
    simp at hsucc

/-- A window with fewer than `2 ^ fuel` indices is searched completely: the loop
returns its last hit. -/
theorem loop_eq_last (fuel : Nat) (left right result last : UInt64)
    (hlimit : right < limit) (hlow : limit.toNat ≤ 2 ^ 63 - 1)
    (hfuel : right.toNat + 1 - left.toNat < 2 ^ fuel)
    (hinitial : ∀ i j, left ≤ i → i ≤ j → j ≤ right → hit j = true → hit i = true)
    (hleft : left ≤ last) (hright : last ≤ right) (hhit : hit last = true)
    (hlast : ∀ k, left ≤ k → k ≤ right → hit k = true → k ≤ last) :
    loop hit limit fuel left right result = some last := by
  have hl₁ : left.toNat ≤ last.toNat := hleft
  have hl₂ : last.toNat ≤ right.toNat := hright
  induction fuel generalizing left right result with
  | zero => omega
  | succ fuel ih =>
      have hle : left ≤ right := UInt64.le_trans hleft hright
      have hm := middle_toNat hle
      rw [Nat.pow_succ] at hfuel
      cases hmid : hit (middle left right) with
      | true =>
          have hmidLast := hlast _ (le_middle hle) (middle_le hle) hmid
          have hsucc := toNat_succ_of_lt (UInt64.lt_of_le_of_lt (middle_le hle) hlimit)
          rw [loop_of_hit fuel result hle hlimit hmid]
          by_cases heq : middle left right = last
          · rw [heq]
            exact loop_behind_last fuel right last hright hlimit hlow
              fun k hk => hlast k (UInt64.le_trans hleft hk)
          · have hne : (middle left right).toNat ≠ last.toNat :=
              fun h => heq (UInt64.toNat_inj.mp h)
            have hle' : (middle left right).toNat ≤ last.toNat := hmidLast
            have hnext : middle left right + 1 ≤ last := by
              rw [UInt64.le_iff_toNat_le]
              omega
            have hbehind {k : UInt64} (hk : middle left right + 1 ≤ k) : left ≤ k := by
              have hkNat : (middle left right + 1).toNat ≤ k.toNat := hk
              rw [UInt64.le_iff_toNat_le]
              omega
            apply ih
            · exact hlimit
            · omega
            · exact fun i j hi => hinitial i j (hbehind hi)
            · exact hnext
            · exact hright
            · exact fun k hk => hlast k (hbehind hk)
            · exact hnext
            · exact hl₂
      | false =>
          have hlt : last.toNat < (middle left right).toNat := by
            refine Nat.lt_of_not_le fun hge => ?_
            have := hinitial (middle left right) last (le_middle hle)
              (UInt64.le_iff_toNat_le.mpr hge) hright hhit
            simp [hmid] at this
          have hpred := toNat_pred_of_pos (Nat.zero_lt_of_lt hlt)
          have hpredRight : middle left right - 1 ≤ right := by
            rw [UInt64.le_iff_toNat_le]
            omega
          have hlastPred : last ≤ middle left right - 1 := by
            rw [UInt64.le_iff_toNat_le]
            omega
          rw [loop_of_miss fuel result hle hlimit hmid]
          apply ih
          · exact UInt64.lt_of_le_of_lt hpredRight hlimit
          · omega
          · exact fun i j hi hij hj => hinitial i j hi hij (UInt64.le_trans hj hpredRight)
          · exact hleft
          · exact hlastPred
          · exact fun k hk hk' => hlast k hk (UInt64.le_trans hk' hpredRight)
          · exact hl₁
          · exact hlastPred

/-! ## A search that is cut off -/

/-- What the loop returns is the result it starts with or a hit in its window. The window
may be the one that is left behind a miss at index `0`. -/
theorem eq_or_hit_of_loop {fuel : Nat} {result x : UInt64}
    (hwindow : right < limit ∨ left = 0 ∧ right = 0 - 1) (hlow : limit.toNat ≤ 2 ^ 63 - 1)
    (h : loop hit limit fuel left right result = some x) :
    x = result ∨ right < limit ∧ left ≤ x ∧ x ≤ right ∧ hit x = true := by
  induction fuel generalizing left right result with
  | zero => exact .inl (Option.some.inj h).symm
  | succ fuel ih =>
      obtain hlimit | ⟨rfl, rfl⟩ := hwindow
      · by_cases hexit : left > right
        · exact .inl (by simpa [loop, hexit] using h.symm)
        have hle : left ≤ right := UInt64.not_lt.mp hexit
        cases hmid : hit (middle left right) with
        | true =>
            rw [loop_of_hit fuel result hle hlimit hmid] at h
            have hsucc := toNat_succ_of_lt (UInt64.lt_of_le_of_lt (middle_le hle) hlimit)
            obtain rfl | ⟨-, hx, hx', hhit⟩ := ih (.inl hlimit) h
            · exact .inr ⟨hlimit, le_middle hle, middle_le hle, hmid⟩
            · have hmidLe : left.toNat ≤ (middle left right).toNat := le_middle hle
              have hxNat : (middle left right + 1).toNat ≤ x.toNat := hx
              exact .inr ⟨hlimit, UInt64.le_iff_toNat_le.mpr (by omega), hx', hhit⟩
        | false =>
            rw [loop_of_miss fuel result hle hlimit hmid] at h
            by_cases hzero : middle left right = 0
            · have hleft : left = 0 := by
                have hmidLe := le_middle hle
                rw [hzero] at hmidLe
                exact UInt64.toNat_inj.mp (Nat.le_zero.mp hmidLe)
              obtain rfl | ⟨hlt, -⟩ := ih (.inr ⟨hleft, by rw [hzero]⟩) h
              · exact .inl rfl
              · have hltNat : (middle left right - 1).toNat < limit.toNat := hlt
                rw [hzero] at hltNat
                change 2 ^ 64 - 1 < _ at hltNat
                omega
            · have hpos : 0 < (middle left right).toNat := by
                rw [Nat.pos_iff_ne_zero]
                exact fun h => hzero (UInt64.toNat_inj.mp h)
              have hpred := toNat_pred_of_pos hpos
              have hmidLe : (middle left right).toNat ≤ right.toNat := middle_le hle
              have hpredRight : middle left right - 1 ≤ right := by
                rw [UInt64.le_iff_toNat_le]
                omega
              obtain rfl | ⟨-, hx, hx', hhit⟩ :=
                ih (.inl (UInt64.lt_of_le_of_lt hpredRight hlimit)) h
              · exact .inl rfl
              · exact .inr ⟨hlimit, hx, UInt64.le_trans hx' hpredRight, hhit⟩
      · rw [loop_wrapped fuel result hlow] at h
        cases h

/-- Only a window that starts at index `0` can be left through the bound check. -/
theorem loop_ne_none {fuel : Nat} {result : UInt64} (hleft : 0 < left.toNat)
    (hlimit : right < limit) : loop hit limit fuel left right result ≠ none := by
  induction fuel generalizing left right result with
  | zero => exact nofun
  | succ fuel ih =>
      by_cases hexit : left > right
      · simp [loop, hexit]
      have hle : left ≤ right := UInt64.not_lt.mp hexit
      have hmidLe : left.toNat ≤ (middle left right).toNat := le_middle hle
      cases hmid : hit (middle left right) with
      | true =>
          have hsucc := toNat_succ_of_lt (UInt64.lt_of_le_of_lt (middle_le hle) hlimit)
          rw [loop_of_hit fuel result hle hlimit hmid]
          exact ih (by omega) hlimit
      | false =>
          have hpred := toNat_pred_of_pos (Nat.lt_of_lt_of_le hleft hmidLe)
          have hmidRight : (middle left right).toNat ≤ right.toNat := middle_le hle
          rw [loop_of_miss fuel result hle hlimit hmid]
          apply ih hleft
          apply UInt64.lt_of_le_of_lt _ hlimit
          rw [UInt64.le_iff_toNat_le]
          omega

/-- A miss leaves only the indices below it. -/
theorem eq_or_lt_of_miss {fuel : Nat} {mid result x : UInt64} (hmid : left ≤ mid)
    (hlimit : mid < limit) (hlow : limit.toNat ≤ 2 ^ 63 - 1)
    (h : loop hit limit fuel left (mid - 1) result = some x) : x = result ∨ x < mid := by
  by_cases hzero : mid = 0
  · subst hzero
    have hleft : left = 0 := UInt64.toNat_inj.mp (Nat.le_zero.mp hmid)
    obtain rfl | ⟨hlt, -⟩ := eq_or_hit_of_loop (.inr ⟨hleft, rfl⟩) hlow h
    · exact .inl rfl
    · have hltNat : 2 ^ 64 - 1 < limit.toNat := hlt
      omega
  · have hpos : 0 < mid.toNat := by
      rw [Nat.pos_iff_ne_zero]
      exact fun h => hzero (UInt64.toNat_inj.mp h)
    have hpred := toNat_pred_of_pos hpos
    have hlt : mid - 1 < mid := by
      rw [UInt64.lt_iff_toNat_lt]
      omega
    obtain rfl | ⟨-, -, hx, -⟩ :=
      eq_or_hit_of_loop (.inl (UInt64.lt_trans hlt hlimit)) hlow h
    · exact .inl rfl
    · exact .inr (UInt64.lt_of_le_of_lt hx hlt)

end

/-- The indices at which a bisection of `[l, r]` for `g` looks, at most `fuel` of them and
none behind `g`. -/
def towards (g : Nat) : Nat → Nat → Nat → List Nat
  | 0, _, _ => []
  | fuel + 1, l, r =>
    let mid := l + (r - l) / 2
    mid ::
      if mid = g then []
      else if mid < g then towards g fuel (mid + 1) r
      else towards g fuel l (mid - 1)

/-- The bisection arrives at `g`, and does not lose it to a miss on the way. -/
def Arrives (hit : Nat → Prop) (g fuel l r : Nat) : Prop :=
  g ∈ towards g fuel l r ∧ ∀ m ∈ towards g fuel l r, m < g → hit m

section

variable {hit : Nat → Prop} {g fuel l r : Nat}

theorem arrives_of_eq (h : l + (r - l) / 2 = g) : Arrives hit g (fuel + 1) l r := by
  rw [Arrives, towards]
  simp only [h, if_true, List.mem_singleton, true_and]
  rintro m rfl hlt
  exact absurd hlt (Nat.lt_irrefl _)

theorem arrives_of_lt (h : l + (r - l) / 2 < g) : Arrives hit g (fuel + 1) l r ↔
    hit (l + (r - l) / 2) ∧ Arrives hit g fuel (l + (r - l) / 2 + 1) r := by
  rw [Arrives, towards]
  simp only [Nat.ne_of_lt h, h, if_true, if_false, List.mem_cons, Nat.ne_of_gt h, false_or,
    forall_eq_or_imp, true_implies, Arrives]
  exact and_left_comm

theorem arrives_of_gt (h : g < l + (r - l) / 2) : Arrives hit g (fuel + 1) l r ↔
    Arrives hit g fuel l (l + (r - l) / 2 - 1) := by
  rw [Arrives, towards]
  simp only [Nat.ne_of_gt h, Nat.lt_asymm h, if_false, List.mem_cons, Nat.ne_of_lt h, false_or,
    forall_eq_or_imp, false_implies, true_and, Arrives]

/-- A window of fewer than `2 ^ fuel` indices is halved away. -/
theorem arrives_of_lt_two_pow (hfuel : r + 1 - l < 2 ^ fuel) (hlg : l ≤ g) (hgr : g ≤ r)
    (hhit : ∀ m, l ≤ m → m < g → hit m) : Arrives hit g fuel l r := by
  induction fuel generalizing l r with
  | zero => omega
  | succ fuel ih =>
      rw [Nat.pow_succ] at hfuel
      obtain hlt | heq | hgt := Nat.lt_trichotomy (l + (r - l) / 2) g
      · rw [arrives_of_lt hlt]
        exact ⟨hhit _ (Nat.le_add_right _ _) hlt,
          ih (by omega) (by omega) hgr fun m hm => hhit m (by omega)⟩
      · exact arrives_of_eq heq
      · rw [arrives_of_gt hgt]
        exact ih (by omega) hlg (by omega) hhit

end

section

-- A window of words that starts at an index `p`.
variable {p l r k : Nat} {left right : UInt64}

theorem le_of_offsets (hleft : left.toNat = p + l) (hright : right.toNat = p + r) (hlr : l ≤ r) :
    left ≤ right := by
  rw [UInt64.le_iff_toNat_le, hleft, hright]
  exact Nat.add_le_add_left hlr p

theorem middle_toNat_of_offsets (hleft : left.toNat = p + l) (hright : right.toNat = p + r)
    (hlr : l ≤ r) : (middle left right).toNat = p + (l + (r - l) / 2) := by
  rw [middle_toNat (le_of_offsets hleft hright hlr)]
  omega

theorem toNat_ofNat_of_offset (hright : right.toNat = p + r) (hk : k ≤ r) :
    (UInt64.ofNat (p + k)).toNat = p + k := by
  have hlt := right.toNat_lt
  apply UInt64.toNat_ofNat_of_lt'
  change _ < 18446744073709551616
  omega

end

/-- The loop finds the last hit of its window exactly if the bisection arrives there. The
window starts at the index `p + l`. -/
theorem loop_eq_last_iff (hit : Nat → Bool) {limit : UInt64} {p g : Nat}
    (hlow : limit.toNat ≤ 2 ^ 63 - 1) (hhit : hit (p + g) = true)
    (fuel : Nat) {l r : Nat} {left right result : UInt64} (hleft : left.toNat = p + l)
    (hright : right.toNat = p + r) (hlimit : right < limit) (hlg : l ≤ g) (hgr : g ≤ r)
    (hresult : result ≠ .ofNat (p + g))
    (hlast : ∀ k, l ≤ k → k ≤ r → hit (p + k) = true → k ≤ g) :
    loop (fun mid => hit mid.toNat) limit fuel left right result = some (.ofNat (p + g)) ↔
      Arrives (fun k => hit (p + k) = true) g fuel l r := by
  induction fuel generalizing l r left right result with
  | zero => exact iff_of_false (fun h => hresult (Option.some.inj h)) (fun h => nomatch h.1)
  | succ fuel ih =>
      have hle : left ≤ right := le_of_offsets hleft hright (by omega)
      have hmidLimit := UInt64.lt_of_le_of_lt (middle_le hle) hlimit
      have hmidNat := middle_toNat_of_offsets hleft hright (by omega)
      have hmid : middle left right = .ofNat (p + (l + (r - l) / 2)) := by
        rw [← hmidNat, UInt64.ofNat_toNat]
      have hlimitNat : right.toNat < limit.toNat := hlimit
      have hword {k : Nat} (hk : k ≤ r) := toNat_ofNat_of_offset hright hk
      have hne {k : Nat} (hk : k ≤ r) (hkg : k ≠ g) : UInt64.ofNat (p + k) ≠ .ofNat (p + g) := by
        intro heq
        have hnat := congrArg UInt64.toNat heq
        rw [hword hk, hword hgr] at hnat
        omega
      obtain hlt | heq | hgt := Nat.lt_trichotomy (l + (r - l) / 2) g
      · rw [arrives_of_lt hlt, ← hmidNat]
        cases hmidHit : hit (middle left right).toNat with
        | true =>
            have hsucc : (middle left right + 1).toNat = p + (l + (r - l) / 2 + 1) := by
              rw [toNat_succ_of_lt hmidLimit, hmidNat]
              omega
            rw [loop_of_hit fuel result hle hlimit hmidHit, ih hsucc hright hlimit
              (by omega) hgr (by rw [hmid]; exact hne (by omega) (Nat.ne_of_lt hlt))
              fun k hk => hlast k (by omega)]
            exact (and_iff_right rfl).symm
        | false =>
            rw [loop_of_miss fuel result hle hlimit hmidHit]
            refine iff_of_false (fun hfound => ?_) (fun h => nomatch h.1)
            obtain heq | hbelow := eq_or_lt_of_miss (le_middle hle) hmidLimit hlow hfound
            · exact hresult heq.symm
            · have hbelowNat : (UInt64.ofNat (p + g)).toNat < (middle left right).toNat := hbelow
              rw [hword hgr] at hbelowNat
              omega
      · rw [heq] at hmid
        have hmidHit : hit (middle left right).toNat = true := by
          rw [hmidNat, heq]
          exact hhit
        rw [loop_of_hit fuel result hle hlimit hmidHit, hmid]
        refine iff_of_true (loop_behind_last fuel right _ ?_ hlimit hlow ?_) (arrives_of_eq heq)
        · rw [UInt64.le_iff_toNat_le, hword hgr]
          omega
        · intro k hk hk' hkhit
          have hkNat : (UInt64.ofNat (p + g)).toNat ≤ k.toNat := hk
          have hkNat' : k.toNat ≤ right.toNat := hk'
          rw [hword hgr] at hkNat
          have hback : p + (k.toNat - p) = k.toNat := by omega
          have hkg := hlast (k.toNat - p) (by omega) (by omega) (by rw [hback]; exact hkhit)
          rw [UInt64.le_iff_toNat_le, hword hgr]
          omega
      · have hmidHit : hit (middle left right).toNat = false := by
          rw [hmidNat, ← Bool.not_eq_true]
          exact fun h => Nat.not_le.mpr hgt (hlast _ (by omega) (by omega) h)
        have hpred : (middle left right - 1).toNat = (middle left right).toNat - 1 :=
          toNat_pred_of_pos (by omega)
        rw [arrives_of_gt hgt, loop_of_miss fuel result hle hlimit hmidHit]
        apply ih hleft
        · omega
        · rw [UInt64.lt_iff_toNat_lt]
          omega
        · exact hlg
        · omega
        · exact hresult
        · exact fun k hk hk' => hlast k hk (by omega)

/-- The loop finds anything exactly if there is a hit among the indices at which a bisection
for the start of the window looks. -/
theorem exists_loop_eq_iff (hit : Nat → Bool) {limit : UInt64} {p l : Nat}
    (hlow : limit.toNat ≤ 2 ^ 63 - 1) (fuel : Nat) {r : Nat} {left right result : UInt64}
    (hleft : left.toNat = p + l) (hright : right.toNat = p + r) (hlimit : right < limit)
    (hlr : l ≤ r) (hresult : ∀ k, l ≤ k → k ≤ r → result ≠ .ofNat (p + k)) :
    (∃ k, l ≤ k ∧ k ≤ r ∧
      loop (fun mid => hit mid.toNat) limit fuel left right result = some (.ofNat (p + k))) ↔
      ∃ m ∈ towards l fuel l r, hit (p + m) = true := by
  induction fuel generalizing r right with
  | zero =>
      refine iff_of_false ?_ (fun ⟨_, h, _⟩ => nomatch h)
      rintro ⟨k, hk, hk', hfound⟩
      exact hresult k hk hk' (Option.some.inj hfound)
  | succ fuel ih =>
      have hle : left ≤ right := le_of_offsets hleft hright (by omega)
      have hmidLimit := UInt64.lt_of_le_of_lt (middle_le hle) hlimit
      have hmidNat := middle_toNat_of_offsets hleft hright (by omega)
      have hword {k : Nat} (hk : k ≤ r) := toNat_ofNat_of_offset hright hk
      rw [towards]
      cases hmidHit : hit (middle left right).toNat with
      | true =>
          refine iff_of_true ?_ ⟨_, List.mem_cons_self, by rw [← hmidNat]; exact hmidHit⟩
          have hsucc := toNat_succ_of_lt hmidLimit
          rw [loop_of_hit fuel result hle hlimit hmidHit]
          cases hfound : loop (fun mid => hit mid.toNat) limit fuel (middle left right + 1) right
              (middle left right) with
          | none => exact absurd hfound (loop_ne_none (by omega) hlimit)
          | some x =>
              have hx : (middle left right).toNat ≤ x.toNat ∧ x.toNat ≤ right.toNat := by
                obtain rfl | ⟨-, hx, hx', -⟩ := eq_or_hit_of_loop (.inl hlimit) hlow hfound
                · exact ⟨Nat.le_refl _, middle_le hle⟩
                · rw [UInt64.le_iff_toNat_le] at hx hx'
                  omega
              have hback : p + (x.toNat - p) = x.toNat := by omega
              refine ⟨x.toNat - p, by omega, by omega, ?_⟩
              rw [hback, UInt64.ofNat_toNat]
      | false =>
          have hmiss : ¬ hit (p + (l + (r - l) / 2)) = true := by
            rw [← hmidNat, hmidHit]
            exact nofun
          rw [loop_of_miss fuel result hle hlimit hmidHit]
          by_cases hmid : l + (r - l) / 2 = l
          · rw [if_pos hmid]
            refine iff_of_false ?_ ?_
            · rintro ⟨k, hk, hk', hfound⟩
              obtain heq | hlt := eq_or_lt_of_miss (le_middle hle) hmidLimit hlow hfound
              · exact hresult k hk hk' heq.symm
              · have hltNat : (UInt64.ofNat (p + k)).toNat < (middle left right).toNat := hlt
                rw [hword hk'] at hltNat
                omega
            · rintro ⟨m, hm, hhit⟩
              rw [List.mem_singleton.mp hm] at hhit
              exact hmiss hhit
          · have hpred : (middle left right - 1).toNat = p + (l + (r - l) / 2 - 1) := by
              rw [toNat_pred_of_pos (by omega)]
              omega
            have hpredLimit : middle left right - 1 < limit := by
              have hmidLt : (middle left right).toNat < limit.toNat := hmidLimit
              rw [UInt64.lt_iff_toNat_lt]
              omega
            have hbelow := ih hpred hpredLimit (by omega) fun k hk hk' => hresult k hk (by omega)
            rw [if_neg hmid, if_neg (by omega)]
            constructor
            · rintro ⟨k, hk, hk', hfound⟩
              obtain heq | hlt := eq_or_lt_of_miss (le_middle hle) hmidLimit hlow hfound
              · exact absurd heq.symm (hresult k hk hk')
              · have hltNat : (UInt64.ofNat (p + k)).toNat < (middle left right).toNat := hlt
                rw [hword hk'] at hltNat
                obtain ⟨m, hm, hhit⟩ := hbelow.mp ⟨k, hk, by omega, hfound⟩
                exact ⟨m, List.mem_cons_of_mem _ hm, hhit⟩
            · intro hfinds
              obtain ⟨m, hm, hhit⟩ := hfinds
              obtain rfl | hm := List.mem_cons.mp hm
              · exact absurd hhit hmiss
              · obtain ⟨k, hk, hk', hfound⟩ := hbelow.mpr ⟨m, hm, hhit⟩
                exact ⟨k, hk, by omega, hfound⟩

end BoundedSearch
