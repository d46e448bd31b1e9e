import XMonitor.Lib.Chan

/-!
# Loops that drain a channel

A channel may be closed while it holds values, and these can still be received. When they are gone,
a receive from a closed channel succeeds at once and brings no value. A loop whose `select` has a
default leaves through it, which is taken only when no receive is possible. So such a loop ends
exactly if the channel is open in the round that finds it empty (`exists_drain_iff`).
-/

/-- A channel that can be closed. -/
structure ClosableChan (α : Type*) (cap : Nat) where
  chan : Chan α cap
  closed : Bool := false

/-- What a `select` with one receive and a default does. -/
inductive Selected (α : Type*) where
  | value (a : α)
  | closed
  | default

namespace ClosableChan

variable {α σ : Type*} {cap : Nat}

def queue (c : ClosableChan α cap) : List α := c.chan.queue

def safeClose (c : ClosableChan α cap) : ClosableChan α cap := { c with closed := true }

def select (c : ClosableChan α cap) : Selected α × ClosableChan α cap :=
  match c.chan.recv with
  | some (a, chan) => (.value a, { c with chan := chan })
  | none => (if c.closed then .closed else .default, c)

/-- At most `fuel` rounds of a loop that receives until the default is taken, with the values
that it has taken. The channel is closed in front of the rounds for which `stop` holds. -/
def drain (body : σ → α → σ) (stop : Nat → Bool) :
    Nat → Nat → ClosableChan α cap → List α → σ → Option (List α × σ)
  | 0, _, _, _, _ => none
  | fuel + 1, round, c, taken, s =>
      let c := if stop round then c.safeClose else c
      match c.select with
      | (.value a, c) => drain body stop fuel (round + 1) c (taken ++ [a]) (body s a)
      | (.closed, c) => drain body stop fuel (round + 1) c taken s
      | (.default, _) => some (taken, s)

/-- The channel is open in the round in which a loop finds it empty. -/
def OpenAtEnd (stop : Nat → Bool) (round : Nat) (c : ClosableChan α cap) : Prop :=
  c.closed = false ∧ ∀ k ≤ c.queue.length, stop (round + k) = false

variable {body : σ → α → σ} {stop : Nat → Bool} {c : ClosableChan α cap} {s : σ}
variable {round fuel : Nat} {taken : List α}

theorem select_of_nil (h : c.queue = []) :
    c.select = (if c.closed then .closed else .default, c) := by
  rw [select, Chan.recv_of_queue h]

theorem exists_select_of_cons {a : α} {as : List α} (h : c.queue = a :: as) :
    ∃ c', c.select = (.value a, c') ∧ c'.queue = as ∧ c'.closed = c.closed := by
  obtain ⟨chan, hrecv, hqueue⟩ := Chan.exists_recv h
  refine ⟨{ c with chan := chan }, ?_, hqueue, rfl⟩
  rw [select, hrecv]

/-- A closed channel is never left. -/
theorem drain_of_closed (hclosed : c.closed = true) (round fuel : Nat) (taken : List α) (s : σ) :
    drain body stop fuel round c taken s = none := by
  induction fuel generalizing c round taken s with
  | zero => rfl
  | succ fuel ih =>
      have hclose : (if stop round then c.safeClose else c) = c := by
        split
        · rw [safeClose, ← hclosed]
        · rfl
      rw [drain, hclose]
      cases hqueue : c.queue with
      | nil =>
          rw [select_of_nil hqueue, if_pos hclosed]
          exact ih hclosed _ _ _
      | cons a as =>
          obtain ⟨c', hselect, -, hkeep⟩ := exists_select_of_cons hqueue
          rw [hselect]
          exact ih (hkeep.trans hclosed) _ _ _

theorem drain_of_stop (hstop : stop round = true) (fuel : Nat) (c : ClosableChan α cap)
    (taken : List α) (s : σ) : drain body stop fuel round c taken s = none := by
  have hclosed : drain body stop fuel round c taken s =
      drain body stop fuel round c.safeClose taken s := by
    cases fuel with
    | zero => rfl
    | succ fuel =>
        rw [drain, drain, if_pos hstop, if_pos hstop]
        rfl
  exact hclosed.trans (drain_of_closed rfl round fuel taken s)

theorem drain_of_nil (hopen : c.closed = false) (hstop : stop round = false)
    (hqueue : c.queue = []) (fuel : Nat) (taken : List α) (s : σ) :
    drain body stop (fuel + 1) round c taken s = some (taken, s) := by
  rw [drain, hstop, if_neg Bool.false_ne_true, select_of_nil hqueue, hopen]
  rfl

theorem exists_drain_of_cons (body : σ → α → σ) {a : α} {as : List α}
    (hstop : stop round = false) (hqueue : c.queue = a :: as) :
    ∃ c' : ClosableChan α cap, c'.queue = as ∧ c'.closed = c.closed ∧ ∀ fuel taken (s : σ),
      drain body stop (fuel + 1) round c taken s =
        drain body stop fuel (round + 1) c' (taken ++ [a]) (body s a) := by
  obtain ⟨c', hselect, hrest, hkeep⟩ := exists_select_of_cons hqueue
  refine ⟨c', hrest, hkeep, fun fuel taken s => ?_⟩
  rw [drain, hstop, if_neg Bool.false_ne_true, hselect]

theorem openAtEnd_of_cons {a : α} {as : List α} {c' : ClosableChan α cap}
    (hstop : stop round = false) (hqueue : c.queue = a :: as) (hrest : c'.queue = as)
    (hkeep : c'.closed = c.closed) :
    OpenAtEnd stop round c ↔ OpenAtEnd stop (round + 1) c' := by
  rw [OpenAtEnd, OpenAtEnd, hqueue, hrest, hkeep, List.length_cons]
  refine and_congr_right fun _ => ?_
  constructor
  · intro h k hk
    have hnext := h (k + 1) (Nat.succ_le_succ hk)
    rwa [Nat.add_comm k, ← Nat.add_assoc] at hnext
  · intro h k hk
    cases k with
    | zero => exact hstop
    | succ k =>
        have hnext := h k (Nat.le_of_succ_le_succ hk)
        rwa [Nat.add_assoc, Nat.add_comm 1] at hnext

/-- The loop ends exactly if the channel is open at its end, and has then taken all values once,
in their order. -/
theorem exists_drain_iff (body : σ → α → σ) (stop : Nat → Bool) (round : Nat)
    (c : ClosableChan α cap) (taken : List α) (s : σ) (final : List α × σ) :
    (∃ fuel, drain body stop fuel round c taken s = some final) ↔
      OpenAtEnd stop round c ∧ (taken ++ c.queue, c.queue.foldl body s) = final := by
  induction hqueue : c.queue generalizing c round taken s with
  | nil =>
      by_cases hopen : OpenAtEnd stop round c
      · have hstop : stop round = false := hopen.2 0 (Nat.zero_le _)
        rw [and_iff_right hopen, List.append_nil]
        constructor
        · rintro ⟨fuel, h⟩
          cases fuel with
          | zero => cases h
          | succ fuel =>
              rw [drain_of_nil hopen.1 hstop hqueue] at h
              exact Option.some.inj h
        · rintro rfl
          exact ⟨1, drain_of_nil hopen.1 hstop hqueue 0 taken s⟩
      · refine iff_of_false ?_ fun h => hopen h.1
        rintro ⟨fuel, h⟩
        cases hclosed : c.closed with
        | true =>
            rw [drain_of_closed hclosed] at h
            cases h
        | false =>
            cases hstop : stop round with
            | true =>
                rw [drain_of_stop hstop] at h
                cases h
            | false =>
                refine hopen ⟨hclosed, fun k hk => ?_⟩
                rw [hqueue] at hk
                rwa [Nat.le_zero.mp hk]
  | cons a as ih =>
      cases hstop : stop round with
      | true =>
          refine iff_of_false ?_ fun h => ?_
          · rintro ⟨fuel, h⟩
            rw [drain_of_stop hstop] at h
            cases h
          · have hopen : stop round = false := h.1.2 0 (Nat.zero_le _)
            rw [hstop] at hopen
            cases hopen
      | false =>
          obtain ⟨c', hrest, hkeep, hround⟩ := exists_drain_of_cons body hstop hqueue
          have hnext := ih (round + 1) c' (taken ++ [a]) (body s a) hrest
          rw [openAtEnd_of_cons hstop hqueue hrest hkeep, List.foldl_cons, ← List.singleton_append,
            ← List.append_assoc, ← hnext]
          constructor
          · rintro ⟨fuel, h⟩
            cases fuel with
            | zero => cases h
            | succ fuel =>
                rw [hround] at h
                exact ⟨fuel, h⟩
          · rintro ⟨fuel, h⟩
            refine ⟨fuel + 1, ?_⟩
            rw [hround]
            exact h

end ClosableChan
