import Mathlib.Data.List.Basic

/-!
# Bounded channels

A channel holds at most `cap` values, which come out in the order in which they went in.
Neither a send nor a receive waits: a send to a full channel fails, and so does a receive
from an empty one.
-/

structure Chan (α : Type*) (cap : Nat) where
  queue : List α
  length_le : queue.length ≤ cap

namespace Chan

variable {α : Type*} {cap : Nat}

def empty : Chan α cap where
  queue := []
  length_le := Nat.zero_le cap

def HasRoom (c : Chan α cap) : Prop := c.queue.length < cap

instance (c : Chan α cap) : Decidable c.HasRoom := inferInstanceAs (Decidable (_ < _))

def send (c : Chan α cap) (a : α) : Option (Chan α cap) :=
  if h : c.HasRoom then
    some
      { queue := c.queue ++ [a]
        length_le := by
          rw [List.length_append]
          exact h }
  else none

/-- A send whose result is ignored. -/
def offer (c : Chan α cap) (a : α) : Chan α cap := (c.send a).getD c

def recv (c : Chan α cap) : Option (α × Chan α cap) :=
  match c with
  | ⟨[], _⟩ => none
  | ⟨a :: queue, h⟩ => some (a, ⟨queue, Nat.le_of_succ_le h⟩)

@[simp] theorem queue_empty : (empty : Chan α cap).queue = [] := rfl

variable {c c' : Chan α cap} {a : α}

theorem queue_of_send (h : c.send a = some c') : c'.queue = c.queue ++ [a] := by
  rw [send] at h
  split at h
  · cases h
    rfl
  · cases h

theorem exists_send (h : c.HasRoom) (a : α) : ∃ c', c.send a = some c' :=
  ⟨_, dif_pos h⟩

theorem queue_offer (c : Chan α cap) (a : α) :
    (c.offer a).queue = if c.HasRoom then c.queue ++ [a] else c.queue := by
  rw [offer, send]
  split
  · rfl
  · rfl

theorem queue_of_recv (h : c.recv = some (a, c')) : c.queue = a :: c'.queue := by
  obtain ⟨queue, hlen⟩ := c
  cases queue with
  | nil => cases h
  | cons b queue =>
      cases h
      rfl

theorem recv_of_queue (h : c.queue = []) : c.recv = none := by
  obtain ⟨queue, hlen⟩ := c
  cases h
  rfl

theorem exists_recv {as : List α} (h : c.queue = a :: as) :
    ∃ c', c.recv = some (a, c') ∧ c'.queue = as := by
  obtain ⟨queue, hlen⟩ := c
  cases h
  exact ⟨_, rfl, rfl⟩

end Chan
