import Mathlib.Logic.Function.Basic
import XMonitor.Lib.MessageQueue
import XMonitor.Ringbuf.Offset

/-!
# The ring buffer of several producers and one consumer

A step of the machine is one access of a thread to the memory that the threads share. The
accesses take effect one after the other, in any order. A thread is where its program counter
says, and the loads that spin on a locked word leave everything as it is.

A worker registers, and then acquires, writes and produces ranges of the buffer. The consumer
asks for a range, reads it and releases as much of it as it likes.
-/

namespace XMonitor.Rbuf

variable {n : Nat} {β : Type*}

/-- `struct ringbuf_worker`. -/
structure Worker where
  seenOff : Nat := 0
  registered : Bool := false

/-- `struct ringbuf`. -/
structure Ringbuf (n : Nat) where
  space : Nat
  next : Nat := 0
  endOff : Nat := rbufOffMax
  written : Nat := 0
  workers : Fin n → Worker := fun _ => {}

/-- `ringbuf_setup`. -/
def ringbufSetup (n length : Nat) : Option (Ringbuf n) :=
  if length ≥ rbufOffMask then none else some { space := length }

/-- Where a producer is, with its local variables. -/
inductive Pc where
  | unregistered
  /-- In `ringbuf_register`, before the store that publishes the worker. -/
  | registering
  | idle
  /-- In `ringbuf_acquire`, at the head of the loop. -/
  | acquire (len : Nat)
  | storeSeen (len seen : Nat)
  | readWritten (len seen : Nat)
  | cas (len seen target : Nat)
  /-- Before the store that precedes `return -1`. -/
  | giveUp
  /-- The range is acquired. -/
  | clearSeen (len seen target : Nat)
  | saveEnd (len seen target : Nat)
  | unlock (len target : Nat)
  /-- After `ringbuf_acquire` has returned the offset. -/
  | holding (off len : Nat)
deriving DecidableEq

/-- Where the consumer is, with its local variables. -/
inductive ConsumerPc (n : Nat) where
  | idle
  | loadNext (written : Nat)
  /-- At the head of the loop over the workers. -/
  | scan (written next i ready : Nat)
  | readSeen (written next : Nat) (i : Fin n) (ready : Nat)
  | decide (written next ready : Nat)
  | clearEnd
  | resetWritten
deriving DecidableEq

/-- The ring buffer, the bytes it manages, and the threads. The consumer may release what is
left of the bytes that `ringbuf_consume` has returned. -/
structure Config (n : Nat) (β : Type*) where
  rbuf : Ringbuf n
  mem : Nat → β
  pcs : Fin n → Pc := fun _ => .unregistered
  consumer : ConsumerPc n := .idle
  granted : Nat := 0

/-- What a thread does next. `step` and `consumerStep` are the next access inside of a function
of the ring buffer; a weak compare and exchange may also fail without a reason. -/
inductive Action (n : Nat) (β : Type*) where
  | register (i : Fin n)
  | unregister (i : Fin n)
  | acquire (i : Fin n) (len : Nat)
  | write (i : Fin n) (k : Nat) (v : β)
  | produce (i : Fin n)
  | step (i : Fin n)
  | spurious (i : Fin n)
  | consume
  | consumerStep
  | release (nbytes : Nat)

/-- The new value of `next` that `ringbuf_acquire` computes from what it has read, unless the
producer must wait. -/
def acquireTarget (space len seen written : Nat) : Option Nat :=
  let next := seen &&& rbufOffMask
  let target := next + len
  if next < written ∧ target ≥ written then none
  else if target ≥ space then
    let target := if target > space then wrapLockBit ||| len else 0
    if target &&& rbufOffMask ≥ written then none
    else some (target ||| wrapIncr (seen &&& wrapCounter))
  else some (target ||| (seen &&& wrapCounter))

/-- The smallest offset seen so far that is not behind `written`. -/
def mergeSeen (written seenOff ready : Nat) : Nat :=
  if seenOff ≥ written then min seenOff ready else ready

/-- The end of the range that `ringbuf_consume` returns, or nothing where it wraps around and
starts again. -/
def Ringbuf.readyOff (rbuf : Ringbuf n) (written next ready : Nat) : Option Nat :=
  if next < written then
    let endOff := min rbuf.space rbuf.endOff
    if ready = rbufOffMax ∧ written = endOff then none else some (min ready endOff)
  else some (min ready next)

def Ringbuf.setSeen (rbuf : Ringbuf n) (i : Fin n) (seenOff : Nat) : Ringbuf n :=
  { rbuf with workers :=
      Function.update rbuf.workers i { rbuf.workers i with seenOff := seenOff } }

def Ringbuf.setRegistered (rbuf : Ringbuf n) (i : Fin n) (registered : Bool) : Ringbuf n :=
  { rbuf with workers :=
      Function.update rbuf.workers i { rbuf.workers i with registered := registered } }

namespace Config

variable (c : Config n β)

def goto (i : Fin n) (pc : Pc) : Config n β := { c with pcs := Function.update c.pcs i pc }

def consumerAt (pc : ConsumerPc n) : Config n β := { c with consumer := pc }

def setSeen (i : Fin n) (seenOff : Nat) : Config n β :=
  { c with rbuf := c.rbuf.setSeen i seenOff }

def setRegistered (i : Fin n) (registered : Bool) : Config n β :=
  { c with rbuf := c.rbuf.setRegistered i registered }

def setNext (next : Nat) : Config n β := { c with rbuf := { c.rbuf with next := next } }

def setEnd (endOff : Nat) : Config n β := { c with rbuf := { c.rbuf with endOff := endOff } }

def setWritten (written : Nat) : Config n β :=
  { c with rbuf := { c.rbuf with written := written } }

/-- `len` bytes of the buffer. -/
def bytes (off len : Nat) : List β := (List.range' off len).map c.mem

/-- The next access of a worker inside of `ringbuf_register` or `ringbuf_acquire`. -/
def producerStep (i : Fin n) : Option (Config n β) :=
  match c.pcs i with
  | .registering => some ((c.setRegistered i true).goto i .idle)
  | .acquire len =>
      if Locked c.rbuf.next then some c else some (c.goto i (.storeSeen len c.rbuf.next))
  | .storeSeen len seen =>
      some ((c.setSeen i (seen &&& rbufOffMask ||| wrapLockBit)).goto i (.readWritten len seen))
  | .readWritten len seen =>
      match acquireTarget c.rbuf.space len seen c.rbuf.written with
      | none => some (c.goto i .giveUp)
      | some target => some (c.goto i (.cas len seen target))
  | .cas len seen target =>
      if c.rbuf.next = seen then some ((c.setNext target).goto i (.clearSeen len seen target))
      else some (c.goto i (.acquire len))
  | .giveUp => some ((c.setSeen i rbufOffMax).goto i .idle)
  | .clearSeen len seen target =>
      let c := c.setSeen i (clearLock (c.rbuf.workers i).seenOff)
      if Locked target then some (c.goto i (.saveEnd len seen target))
      else some (c.goto i (.holding (seen &&& rbufOffMask) len))
  | .saveEnd len seen target =>
      some ((c.setEnd (seen &&& rbufOffMask)).goto i (.unlock len target))
  | .unlock len target => some ((c.setNext (clearLock target)).goto i (.holding 0 len))
  | .unregistered | .idle | .holding _ _ => none

/-- The next access of the consumer inside of `ringbuf_consume`. -/
def consumerStep : Option (Config n β) :=
  match c.consumer with
  | .loadNext written =>
      if Locked c.rbuf.next then some c
      else if written = c.rbuf.next &&& rbufOffMask then
        some { c with consumer := .idle, granted := 0 }
      else some (c.consumerAt (.scan written (c.rbuf.next &&& rbufOffMask) 0 rbufOffMax))
  | .scan written next i ready =>
      if h : i < n then
        if (c.rbuf.workers ⟨i, h⟩).registered then
          some (c.consumerAt (.readSeen written next ⟨i, h⟩ ready))
        else some (c.consumerAt (.scan written next (i + 1) ready))
      else some (c.consumerAt (.decide written next ready))
  | .readSeen written next i ready =>
      let seenOff := (c.rbuf.workers i).seenOff
      if Locked seenOff then some c
      else some (c.consumerAt (.scan written next (i + 1) (mergeSeen written seenOff ready)))
  | .decide written next ready =>
      match c.rbuf.readyOff written next ready with
      | some ready => some { c with consumer := .idle, granted := ready - written }
      | none =>
          if c.rbuf.endOff ≠ rbufOffMax then some (c.consumerAt .clearEnd)
          else some (c.consumerAt .resetWritten)
  | .clearEnd => some ((c.setEnd rbufOffMax).consumerAt .resetWritten)
  | .resetWritten => some ((c.setWritten 0).consumerAt (.loadNext 0))
  | .idle => none

/-- A step of the machine, where its thread can take it. A worker acquires a length that is
positive and at most that of the buffer and writes into the range it holds. -/
def step : Action n β → Option (Config n β)
  | .register i =>
      if c.pcs i = .unregistered then some ((c.setSeen i rbufOffMax).goto i .registering)
      else none
  | .unregister i =>
      if c.pcs i = .idle then some ((c.setRegistered i false).goto i .unregistered) else none
  | .acquire i len =>
      if c.pcs i = .idle ∧ 0 < len ∧ len ≤ c.rbuf.space then some (c.goto i (.acquire len))
      else none
  | .write i k v =>
      match c.pcs i with
      | .holding off len =>
          if k < len then some { c with mem := Function.update c.mem (off + k) v } else none
      | _ => none
  | .produce i =>
      match c.pcs i with
      | .holding _ _ => some ((c.setSeen i rbufOffMax).goto i .idle)
      | _ => none
  | .step i => c.producerStep i
  | .spurious i =>
      match c.pcs i with
      | .cas len _ _ => some (c.goto i (.acquire len))
      | _ => none
  | .consume =>
      if c.consumer = .idle then
        some { c with consumer := .loadNext c.rbuf.written, granted := 0 }
      else none
  | .consumerStep => c.consumerStep
  | .release nbytes =>
      if c.consumer = .idle ∧ nbytes ≤ c.granted then
        let nwritten := c.rbuf.written + nbytes
        some { (c.setWritten (if nwritten = c.rbuf.space then 0 else nwritten)) with
          granted := c.granted - nbytes }
      else none

/-- The conditions of the `ASSERT`s that a step evaluates. -/
def Asserts : Action n β → Prop
  | .acquire i len =>
      0 < len ∧ len ≤ c.rbuf.space ∧ (c.rbuf.workers i).seenOff = rbufOffMax
  | .step i =>
      match c.pcs i with
      | .acquire _ => ¬ Locked c.rbuf.next → c.rbuf.next &&& rbufOffMask < c.rbuf.space
      | .clearSeen _ _ target => ¬ Locked target → target &&& rbufOffMask ≤ c.rbuf.space
      | .saveEnd _ seen _ =>
          c.rbuf.written ≤ seen &&& rbufOffMask ∧ c.rbuf.endOff = rbufOffMax
      | .unlock _ target => target &&& rbufOffMask ≤ c.rbuf.space
      | _ => True
  | .produce i => (c.rbuf.workers i).registered ∧ (c.rbuf.workers i).seenOff ≠ rbufOffMax
  | .consumerStep =>
      match c.consumer with
      | .loadNext _ => ¬ Locked c.rbuf.next → c.rbuf.next &&& rbufOffMask < c.rbuf.space
      | .readSeen written _ i ready =>
          ¬ Locked (c.rbuf.workers i).seenOff →
            mergeSeen written (c.rbuf.workers i).seenOff ready ≥ written
      | .decide written next ready =>
          ∀ readyOff, c.rbuf.readyOff written next ready = some readyOff →
            (next < written → ready > next) ∧ readyOff ≥ written ∧
              readyOff - written ≤ c.rbuf.space
      | _ => True
  | .release nbytes =>
      c.rbuf.written ≤ c.rbuf.space ∧ c.rbuf.written ≤ c.rbuf.endOff ∧
        c.rbuf.written + nbytes ≤ c.rbuf.space
  | _ => True

/-- What a step does to the messages in the buffer. -/
def event : Action n β → MessageQueue.Event (Fin n) β
  | .produce i =>
      match c.pcs i with
      | .holding off len => .produce i (c.bytes off len)
      | _ => .silent
  | .step i =>
      match c.pcs i with
      | .cas len seen _ => if c.rbuf.next = seen then .reserve i len else .silent
      | _ => .silent
  | .consumerStep =>
      match c.consumer with
      | .loadNext written =>
          if ¬ Locked c.rbuf.next ∧ written = c.rbuf.next &&& rbufOffMask then .empty
          else .silent
      | .decide written next ready =>
          match c.rbuf.readyOff written next ready with
          | some ready => .grant (c.bytes written (ready - written))
          | none => .silent
      | _ => .silent
  | .release nbytes => .release (c.bytes c.rbuf.written nbytes)
  | _ => .silent

end Config

/-- A configuration, with how often the producers have wrapped around and how often they had
when each of them has last loaded `next`. -/
structure Traced (n : Nat) (β : Type*) where
  conf : Config n β
  wraps : Nat := 0
  loadedAt : Fin n → Nat := fun _ => 0

namespace Traced

variable (t : Traced n β)

/-- The step advances the wrap counter. -/
def wrapsAround : Action n β → Bool
  | .step i =>
      match t.conf.pcs i with
      | .cas _ seen target =>
          decide (t.conf.rbuf.next = seen ∧ target &&& wrapCounter ≠ seen &&& wrapCounter)
      | _ => false
  | _ => false

/-- The step loads `next` for a producer. -/
def loads (i : Fin n) : Action n β → Bool
  | .step j =>
      match t.conf.pcs j with
      | .acquire _ => decide (j = i)
      | _ => false
  | _ => false

def step (a : Action n β) : Option (Traced n β) :=
  (t.conf.step a).map fun c =>
    { conf := c
      wraps := if t.wrapsAround a then t.wraps + 1 else t.wraps
      loadedAt := fun i => if t.loads i a then t.wraps else t.loadedAt i }

/-- The compare and exchange of a producer comes before the wrap counter, which has 31 bits,
has gone once around since the producer has loaded `next`. -/
def Fresh : Action n β → Prop
  | .step i =>
      match t.conf.pcs i with
      | .cas _ _ _ => t.wraps < t.loadedAt i + 0x80000000
      | _ => True
  | _ => True

/-- The state after a run, all of whose steps can be taken. -/
def run : Traced n β → List (Action n β) → Option (Traced n β)
  | t, [] => some t
  | t, a :: as => (t.step a).bind fun t' => t'.run as

instance (a : Action n β) : Decidable (t.Fresh a) := by
  unfold Fresh
  split
  · split <;> infer_instance
  · infer_instance

/-- Every step of the run is fresh. -/
def FreshRun : Traced n β → List (Action n β) → Prop
  | _, [] => True
  | t, a :: as => t.Fresh a ∧ ((t.step a).elim True fun t' => t'.FreshRun as)

instance decidableFreshRun :
    (t : Traced n β) → (as : List (Action n β)) → Decidable (t.FreshRun as)
  | _, [] => .isTrue trivial
  | t, a :: as =>
      have : Decidable ((t.step a).elim True fun t' => t'.FreshRun as) :=
        match t.step a with
        | none => .isTrue trivial
        | some t' => decidableFreshRun t' as
      inferInstanceAs (Decidable (_ ∧ _))

/-- The consumer releases all that it has been granted. -/
def WholeReleases : Traced n β → List (Action n β) → Prop
  | _, [] => True
  | t, a :: as => (∀ k, a = .release k → k = t.conf.granted) ∧
      ((t.step a).elim True fun t' => t'.WholeReleases as)

instance decidableWholeReleases :
    (t : Traced n β) → (as : List (Action n β)) → Decidable (t.WholeReleases as)
  | _, [] => .isTrue trivial
  | t, a :: as =>
      have : Decidable ((t.step a).elim True fun t' => t'.WholeReleases as) :=
        match t.step a with
        | none => .isTrue trivial
        | some t' => decidableWholeReleases t' as
      have : Decidable (∀ k, a = .release k → k = t.conf.granted) :=
        match a with
        | .release k =>
            decidable_of_iff (k = t.conf.granted)
              ⟨fun h _ ha => by cases ha; exact h, fun h => h k rfl⟩
        | .register _ | .unregister _ | .acquire _ _ | .write _ _ _ | .produce _ | .step _
        | .spurious _ | .consume | .consumerStep => .isTrue (by simp)
      inferInstanceAs (Decidable (_ ∧ _))

/-- The events of a run. -/
def events : Traced n β → List (Action n β) → List (MessageQueue.Event (Fin n) β)
  | _, [] => []
  | t, a :: as => t.conf.event a :: ((t.step a).elim [] fun t' => t'.events as)

end Traced

/-- A new ring buffer over bytes of any value. -/
def Traced.init (rbuf : Ringbuf n) (mem : Nat → β) : Traced n β := { conf := { rbuf, mem } }

end XMonitor.Rbuf
