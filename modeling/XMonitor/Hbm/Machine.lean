import XMonitor.Hbm.Rate
import XMonitor.Lib.Pool

/-!
# The limiter on several processors

Each processor handles one packet at a time. It reads the clock, tests whether the rate
has to be set, sets it under the lock, runs the critical section, rolls back the delay of
a packet that it drops, and adds to the statistics. Each of these is one atomic step, and
each addition to a counter is one, so that the steps of the processors interleave in any
order.

The fields `kept` and `calls` are history: the delays of the packets that were kept, and
the additions of every call of `__xm_hbm_edt_update_stats`.
-/

namespace XMonitor.Hbm

open EventRun

/-- What a processor does next. -/
inductive Phase where
  | idle
  | arrived (p : Packet)
  | locking (p : Packet) (branch : InitBranch)
  | ready (p : Packet)
  | entered (p : Packet) (a : Admission)
  | decided (p : Packet) (a : Admission)
  | updating (rest : List (Counter × UInt64))

/-- A packet arrives at a processor, or a processor runs its next step. -/
inductive Event (Cpu : Type) where
  | arrive (cpu : Cpu) (p : Packet)
  | advance (cpu : Cpu)

structure Machine (Cpu : Type) where
  hei : HbmEdtInfo
  counters : Counters
  phase : Cpu → Phase := fun _ => .idle
  kept : Nat := 0
  calls : List (List (Counter × UInt64)) := []

/-- The verdict for a packet drops it. -/
def Drops (p : Packet) (a : Admission) : Bool := (p.verdict a.delta).dropFlag

namespace Machine

variable {Cpu : Type} [DecidableEq Cpu]

def goto (s : Machine Cpu) (cpu : Cpu) (phase : Phase) : Machine Cpu :=
  { s with phase := Function.update s.phase cpu phase }

/-- The critical section for a packet. -/
def enter (s : Machine Cpu) (cpu : Cpu) (p : Packet) : Machine Cpu :=
  let entered := criticalSection s.hei p.nowNs p.skbLen
  { s.goto cpu (.entered p entered.2) with
    hei := entered.1
    kept := if Drops p entered.2 then s.kept else s.kept + entered.2.delayNs.toNat }

def decide (s : Machine Cpu) (cpu : Cpu) (p : Packet) (a : Admission) : Machine Cpu :=
  { s.goto cpu (.decided p a) with
    hei := if Drops p a then rollBack s.hei a.delayNs else s.hei }

def advance (s : Machine Cpu) (cpu : Cpu) : Machine Cpu :=
  match s.phase cpu with
  | .idle => s
  | .arrived p => s.goto cpu (.locking p (initBranch s.hei p.customRateMbps))
  | .locking p branch =>
      { s.goto cpu (.ready p) with hei := lockedInit s.hei p.nowNs p.customRateMbps branch }
  | .ready p => s.enter cpu p
  | .entered p a => s.decide cpu p a
  | .decided p a =>
      { s.goto cpu (.updating (p.updates a.delta)) with
        calls := s.calls ++ [p.updates a.delta] }
  | .updating [] => s.goto cpu .idle
  | .updating (add :: rest) =>
      { s.goto cpu (.updating rest) with counters := addTo s.counters add }

def step (s : Machine Cpu) : Event Cpu → Machine Cpu
  | .arrive cpu p =>
      match s.phase cpu with
      | .idle => if p.exempt then s else s.goto cpu (.arrived p)
      | _ => s
  | .advance cpu => s.advance cpu

end Machine

open Machine

variable {Cpu : Type} [DecidableEq Cpu]

/-- What a step can do. -/
inductive Transition (s : Machine Cpu) : Event Cpu → Machine Cpu → Prop
  | stutter (e : Event Cpu) : Transition s e s
  | arrive (cpu : Cpu) (p : Packet) : s.phase cpu = .idle → p.exempt = false →
      Transition s (.arrive cpu p) (s.goto cpu (.arrived p))
  | test (cpu : Cpu) (p : Packet) : s.phase cpu = .arrived p →
      Transition s (.advance cpu) (s.goto cpu (.locking p (initBranch s.hei p.customRateMbps)))
  | lock (cpu : Cpu) (p : Packet) (branch : InitBranch) : s.phase cpu = .locking p branch →
      Transition s (.advance cpu)
        { s.goto cpu (.ready p) with hei := lockedInit s.hei p.nowNs p.customRateMbps branch }
  | enter (cpu : Cpu) (p : Packet) : s.phase cpu = .ready p →
      Transition s (.advance cpu) (s.enter cpu p)
  | decide (cpu : Cpu) (p : Packet) (a : Admission) : s.phase cpu = .entered p a →
      Transition s (.advance cpu) (s.decide cpu p a)
  | call (cpu : Cpu) (p : Packet) (a : Admission) : s.phase cpu = .decided p a →
      Transition s (.advance cpu)
        { s.goto cpu (.updating (p.updates a.delta)) with
          calls := s.calls ++ [p.updates a.delta] }
  | add (cpu : Cpu) (add : Counter × UInt64) (rest : List (Counter × UInt64)) :
      s.phase cpu = .updating (add :: rest) →
      Transition s (.advance cpu)
        { s.goto cpu (.updating rest) with counters := addTo s.counters add }
  | leave (cpu : Cpu) : s.phase cpu = .updating [] →
      Transition s (.advance cpu) (s.goto cpu .idle)

theorem step_transition (s : Machine Cpu) (e : Event Cpu) : Transition s e (s.step e) := by
  cases e with
  | arrive cpu p =>
      rw [step]
      split
      case h_1 hidle =>
        split
        case isTrue => exact .stutter _
        case isFalse h => exact .arrive cpu p hidle (Bool.eq_false_iff.mpr h)
      case h_2 => exact .stutter _
  | advance cpu =>
      rw [step, advance]
      split
      case h_1 => exact .stutter _
      case h_2 p h => exact .test cpu p h
      case h_3 p branch h => exact .lock cpu p branch h
      case h_4 p h => exact .enter cpu p h
      case h_5 p a h => exact .decide cpu p a h
      case h_6 p a h => exact .call cpu p a h
      case h_7 h => exact .leave cpu h
      case h_8 add rest h => exact .add cpu add rest h

/-! ## A packet alone -/

theorem foldl_updating (s : Machine Cpu) (cpu : Cpu) (adds : List (Counter × UInt64)) :
    (List.replicate (adds.length + 1) (.advance cpu)).foldl step (s.goto cpu (.updating adds)) =
      { s.goto cpu .idle with counters := adds.foldl addTo s.counters } := by
  induction adds generalizing s with
  | nil => simp [step, advance, goto]
  | cons add adds ih =>
      have hstep : step (s.goto cpu (.updating (add :: adds))) (.advance cpu) =
          ({ s with counters := addTo s.counters add } : Machine Cpu).goto cpu
            (.updating adds) := by
        simp [step, advance, goto]
      rw [List.length_cons, List.replicate_succ, List.foldl_cons, hstep, ih]
      rfl

/-- A processor that is not interrupted does what the program does. -/
theorem foldl_advance_alone (s : Machine Cpu) (cpu : Cpu) {p : Packet}
    (hidle : s.phase cpu = .idle) (h : p.exempt = false) :
    ∃ n kept, (Event.arrive cpu p :: List.replicate n (.advance cpu)).foldl step s =
      { hei := (afterPacket ⟨s.hei, s.counters⟩ p).hei
        counters := (afterPacket ⟨s.hei, s.counters⟩ p).counters
        phase := s.phase
        kept := kept
        calls := s.calls ++ [p.updates (p.admission ⟨s.hei, s.counters⟩).delta] } := by
  let st : Cgroup := ⟨s.hei, s.counters⟩
  let adds := p.updates (p.admission st).delta
  have hdecided : ∃ kept,
      (Event.arrive cpu p :: List.replicate 5 (.advance cpu)).foldl step s =
        ({ hei := (afterPacket st p).hei
           counters := s.counters
           phase := s.phase
           kept := kept
           calls := s.calls ++ [adds] } : Machine Cpu).goto cpu (.updating adds) := by
    rw [afterPacket, xmHbmEdtOut_limited h]
    simp [List.replicate, step, hidle, h, advance, goto, enter, Machine.decide, Drops, adds, st,
      Packet.admission, Packet.info, hbmInitOrUpdate]
    rfl
  obtain ⟨kept, hdecided⟩ := hdecided
  have hphase : Function.update s.phase cpu .idle = s.phase := by
    rw [← hidle, Function.update_eq_self]
  refine ⟨5 + (adds.length + 1), kept, ?_⟩
  rw [List.replicate_add, ← List.cons_append, List.foldl_append, hdecided, foldl_updating, goto,
    hphase, afterPacket, xmHbmEdtOut_limited h]

/-- The calls of `__xm_hbm_edt_update_stats` for some packets, one after another. -/
def callsOf (st : Cgroup) : List Packet → List (List (Counter × UInt64))
  | [] => []
  | p :: ps => p.updates (p.admission st).delta :: callsOf (afterPacket st p) ps

/-- Every sequence of packets can be handled by one processor, as the program handles it. -/
theorem exists_foldl_sequence (s : Machine Cpu) (cpu : Cpu) {ps : List Packet}
    (hidle : s.phase cpu = .idle) (h : ∀ p ∈ ps, p.exempt = false) :
    ∃ (es : List (Event Cpu)) (kept : Nat), es.foldl step s =
      { hei := (ps.foldl afterPacket ⟨s.hei, s.counters⟩).hei
        counters := (ps.foldl afterPacket ⟨s.hei, s.counters⟩).counters
        phase := s.phase
        kept := kept
        calls := s.calls ++ callsOf ⟨s.hei, s.counters⟩ ps } := by
  induction ps generalizing s with
  | nil => exact ⟨[], s.kept, by rw [callsOf, List.append_nil]; rfl⟩
  | cons p ps ih =>
      obtain ⟨hp, hps⟩ := List.forall_mem_cons.mp h
      obtain ⟨n, kept, hfirst⟩ := foldl_advance_alone s cpu hidle hp
      obtain ⟨es, kept', hrest⟩ := ih
        ((Event.arrive cpu p :: List.replicate n (.advance cpu)).foldl step s)
        (by rw [hfirst]; exact hidle) hps
      refine ⟨(Event.arrive cpu p :: List.replicate n (.advance cpu)) ++ es, kept', ?_⟩
      rw [List.foldl_append, hrest, hfirst, callsOf, List.append_assoc]
      rfl

/-- The steps of one processor from the arrival of a packet to its decision. -/
def handle (p : Packet) : List (Event Unit) :=
  [.arrive () p, .advance (), .advance (), .advance (), .advance ()]

end XMonitor.Hbm
