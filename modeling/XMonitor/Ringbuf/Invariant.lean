import Mathlib.Data.List.Forall2
import XMonitor.Ringbuf.Machine

/-!
# The invariant of the ring buffer

The bytes from `written` up to `next` are reserved. They are one range of the buffer, or two of
them once the producers have wrapped around: from `written` up to the end that the last
producer has cut off, and from the start up to `next`. The producers never reach `written` from
below, so the two cases differ in the order of `next` and `written`.

A producer that has won its compare and exchange claims a part of the reserved bytes. The
offset it has stored for the consumer is where its part begins. Only the producer that has
wrapped around shows the consumer the place where it has cut off the end instead, and the
consumer does not wrap around itself before this producer is done.
-/

namespace XMonitor.Rbuf

open MessageQueue

variable {n : Nat} {β : Type*}

/-- What the word `next` stands for: its offset, the end of the reserved bytes before the wrap
around if there are any, and the producer that has locked the word. -/
structure View (n : Nat) where
  off : Nat := 0
  cut : Option Nat := none
  lock : Option (Fin n) := none

/-- The words that the threads share, except for those of the workers. -/
structure Env (n : Nat) extends View n where
  space : Nat
  written : Nat
  endOff : Nat
  next : Nat
  wraps : Nat

def Traced.env (t : Traced n β) (v : View n) : Env n where
  toView := v
  space := t.conf.rbuf.space
  written := t.conf.rbuf.written
  endOff := t.conf.rbuf.endOff
  next := t.conf.rbuf.next
  wraps := t.wraps

namespace Env

/-- The end of the reserved range that begins at `written`. -/
def hi (e : Env n) : Nat := e.cut.getD e.off

/-- The addresses of the reserved bytes, in the order in which they have been reserved. -/
def live (e : Env n) : List Nat :=
  match e.cut with
  | none => List.range' e.written (e.off - e.written)
  | some x => List.range' e.written (x - e.written) ++ List.range' 0 e.off

/-- The producers do not reach `written` from below. -/
structure Shape (e : Env n) : Prop where
  space_lt : e.space < 0xffffffff
  next_eq : e.next = pack e.lock.isSome (e.wraps % 0x80000000) e.off
  whole : e.cut = none → e.written ≤ e.off ∧ e.off < e.space ∧ e.endOff = rbufOffMax
  wrapped : ∀ x, e.cut = some x → e.off < e.written ∧ e.written ≤ x ∧ x ≤ e.space

/-- `end` has been saved, or the reserved bytes reach the end of the buffer. -/
def EndSaved (e : Env n) (x : Nat) : Prop :=
  x = e.space ∧ e.endOff = rbufOffMax ∨ x < e.space ∧ e.endOff = x

/-- A word that a producer has loaded when the producers had wrapped around `loadedAt` times. -/
def Loaded (e : Env n) (loadedAt seen : Nat) : Prop :=
  ∃ o, o < e.space ∧ seen = pack false (loadedAt % 0x80000000) o ∧ loadedAt ≤ e.wraps ∧
    (loadedAt = e.wraps → e.lock = none ∧ o ≤ e.off)

/-- The new value of `next` reserves `len` bytes that are free. -/
inductive Fits (e : Env n) (len target : Nat) : Prop where
  | advance (htarget : target = pack false (e.wraps % 0x80000000) (e.off + len))
      (hspace : e.off + len < e.space) (hcut : ∀ x, e.cut = some x → e.off + len < e.written)
  | exactly (htarget : target = pack false ((e.wraps + 1) % 0x80000000) 0)
      (hspace : e.off + len = e.space) (hcut : e.cut = none) (hlen : 0 < e.written)
  | exceed (htarget : target = pack true ((e.wraps + 1) % 0x80000000) len)
      (hspace : e.space < e.off + len) (hcut : e.cut = none) (hlen : len < e.written)

end Env

/-- A range of reserved bytes that a producer may write, and the offset the consumer sees. -/
structure Claim where
  off : Nat
  len : Nat
  mark : Nat
deriving DecidableEq

/-- The bytes of the claim. -/
def Claim.Has (cl : Claim) (x : Nat) : Prop := cl.off ≤ x ∧ x < cl.off + cl.len

instance (cl : Claim) (x : Nat) : Decidable (cl.Has x) := inferInstanceAs (Decidable (_ ∧ _))

/-- The claim of a producer, from its compare and exchange on until `ringbuf_produce`. -/
def claimOf (w : Worker) : Pc → Option Claim
  | .clearSeen len seen target =>
      some ⟨if Locked target then 0 else seen &&& rbufOffMask, len, seen &&& rbufOffMask⟩
  | .saveEnd len _ _ | .unlock len _ => some ⟨0, len, w.seenOff⟩
  | .holding off len => some ⟨off, len, w.seenOff⟩
  | _ => none

def Config.claim (c : Config n β) (i : Fin n) : Option Claim :=
  claimOf (c.rbuf.workers i) (c.pcs i)

/-- The producer has locked the word `next`. -/
def Pc.Locks : Pc → Prop
  | .clearSeen _ _ target => Locked target
  | .saveEnd _ _ _ | .unlock _ _ => True
  | _ => False

/-- Where the claim lies among the reserved bytes. -/
structure Env.Holds (e : Env n) (cl : Claim) : Prop where
  pos : 0 < cl.len
  place : cl.mark = cl.off ∧ e.written ≤ cl.off ∧ cl.off + cl.len ≤ e.hi ∨
    ∃ x, e.cut = some x ∧ cl.off + cl.len ≤ e.off ∧
      (cl.mark = cl.off ∨ cl.off = 0 ∧ cl.mark = x ∧ x < e.space)

/-- What holds of a worker at each place of its code. -/
def ProducerOk (e : Env n) (loadedAt : Nat) (w : Worker) : Pc → Prop
  | .unregistered => w.registered = false
  | .registering => w.seenOff = rbufOffMax
  | .idle => w.registered = true ∧ w.seenOff = rbufOffMax
  | .acquire len =>
      w.registered = true ∧ (w.seenOff = rbufOffMax ∨ Locked w.seenOff) ∧
        0 < len ∧ len ≤ e.space
  | .storeSeen len seen =>
      w.registered = true ∧ (w.seenOff = rbufOffMax ∨ Locked w.seenOff) ∧
        (0 < len ∧ len ≤ e.space) ∧ e.Loaded loadedAt seen
  | .readWritten len seen =>
      w.registered = true ∧ w.seenOff = pack true 0 (seen &&& rbufOffMask) ∧
        (0 < len ∧ len ≤ e.space) ∧ e.Loaded loadedAt seen
  | .cas len seen target =>
      w.registered = true ∧ w.seenOff = pack true 0 (seen &&& rbufOffMask) ∧
        (0 < len ∧ len ≤ e.space) ∧ e.Loaded loadedAt seen ∧
        (seen = e.next → loadedAt = e.wraps → e.Fits len target)
  | .giveUp => w.registered = true ∧ Locked w.seenOff
  | .clearSeen _ seen target =>
      w.registered = true ∧ w.seenOff = pack true 0 (seen &&& rbufOffMask) ∧
        (seen &&& rbufOffMask < e.space ∧ target &&& rbufOffMask ≤ e.space) ∧
        (Locked target →
          e.cut = some (seen &&& rbufOffMask) ∧ e.endOff = rbufOffMax ∧ target = e.next)
  | .saveEnd _ seen target =>
      w.registered = true ∧ w.seenOff = seen &&& rbufOffMask ∧
        (seen &&& rbufOffMask < e.space ∧ target &&& rbufOffMask ≤ e.space) ∧
        e.cut = some (seen &&& rbufOffMask) ∧ e.endOff = rbufOffMax ∧ target = e.next
  | .unlock _ target =>
      w.registered = true ∧ (w.seenOff < e.space ∧ target &&& rbufOffMask ≤ e.space) ∧
        e.cut = some w.seenOff ∧ e.endOff = w.seenOff ∧ target = e.next
  | .holding _ _ => w.registered = true

/-- The byte at an address, in the queue: it waits for the producer that claims the address, or
it is the one in the buffer. -/
structure CellOk (claims : Fin n → Option Claim) (mem : Nat → β) (x : Nat)
    (cell : Cell (Fin n) β) : Prop where
  pending : ∀ i, cell.slot = .pending i ↔ ∃ cl, claims i = some cl ∧ cl.Has x
  ready : ∀ b, cell.slot = .ready b → b = mem x
  first : ∀ i cl, claims i = some cl → cl.off = x → cell.first = true

/-- What the consumer knows while it scans the workers. It has loaded `nx` from `next`, and
`ready` is the smallest offset that it has seen so far. -/
structure Scan (e : Env n) (claims : Fin n → Option Claim) (cells : List (Cell (Fin n) β))
    (nx ready upto : Nat) : Prop where
  ne : e.written ≠ nx
  ahead : e.written < nx → nx ≤ e.hi ∧ StartsAt cells (nx - e.written)
  behind : nx < e.written → e.cut.isSome ∧ e.lock = none
  low : e.written ≤ ready
  start : ready = rbufOffMax ∨ ready ≤ e.hi ∧ StartsAt cells (ready - e.written)
  scanned : ∀ j : Fin n, j < upto → ∀ cl, claims j = some cl → e.written ≤ cl.mark →
    ready ≤ cl.mark ∨ e.written < nx ∧ nx ≤ cl.mark

/-- What holds of the consumer at each place of its code. -/
def ConsumerOk (e : Env n) (claims : Fin n → Option Claim) (cells : List (Cell (Fin n) β))
    (granted : Nat) : ConsumerPc n → Prop
  | .idle => e.written + granted ≤ e.hi ∧
      ∀ i cl, claims i = some cl → e.written ≤ cl.off → e.written + granted ≤ cl.off
  | .loadNext written => written = e.written
  | .scan written nx i ready => written = e.written ∧ Scan e claims cells nx ready i
  | .readSeen written nx i ready => written = e.written ∧ Scan e claims cells nx ready i
  | .decide written nx ready => written = e.written ∧ Scan e claims cells nx ready n
  | .clearEnd => e.cut = some e.written ∧ e.lock = none ∧
      ∀ i cl, claims i = some cl → cl.mark < e.written
  | .resetWritten => e.cut = some e.written ∧ e.lock = none ∧ e.endOff = rbufOffMax ∧
      ∀ i cl, claims i = some cl → cl.mark < e.written

/-- The invariant. The queue is what the reserved bytes stand for. -/
structure Inv (t : Traced n β) (v : View n) (q : Queue (Fin n) β) : Prop where
  shape : (t.env v).Shape
  ends : ∀ x, v.cut = some x → v.lock = none → t.conf.consumer ≠ .resetWritten →
    (t.env v).EndSaved x
  producers : ∀ i, ProducerOk (t.env v) (t.loadedAt i) (t.conf.rbuf.workers i) (t.conf.pcs i)
  locks : ∀ i, (t.conf.pcs i).Locks ↔ v.lock = some i
  holds : ∀ i cl, t.conf.claim i = some cl → (t.env v).Holds cl
  cells : List.Forall₂ (CellOk t.conf.claim t.conf.mem) (t.env v).live q.cells
  cutStart : ∀ x, v.cut = some x → StartsAt q.cells (x - t.conf.rbuf.written)
  consumer : ConsumerOk (t.env v) t.conf.claim q.cells t.conf.granted t.conf.consumer
  granted : t.conf.consumer = .idle → q.granted = t.conf.granted
  rereads : ∀ w nx i ready, t.conf.consumer = .readSeen w nx i ready →
    t.conf.pcs i = .unregistered → (t.conf.rbuf.workers i).seenOff = rbufOffMax

end XMonitor.Rbuf
