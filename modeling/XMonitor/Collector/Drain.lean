import XMonitor.Collector.SampleCount

/-!
# Draining the sample counts

`collectProfiles` reads `xm_profile_sample_count_map` with an iterator, resolves and
submits what it has read, and then deletes the keys that it has read. The programs in
the kernel go on counting meanwhile. `drainStep` interleaves the map operations of the
rounds with theirs.

An increment between the read of a key and its deletion is in no round, and an
increment through a value that a processor has looked up before the deletion reaches
memory that belongs to no key. `drain_balanced` says that nothing else is lost.
-/

namespace XMonitor.Collector

/-- Where `collectProfiles` is. `collected` are the keys and counts that the iterator has
returned; of these, `deleted` are deleted and `left` are not. -/
inductive Round where
  | waiting
  | iterating (collected : List (XmProfileSample × BitVec 32))
  | deleting (deleted left : List (XmProfileSample × BitVec 32))

/-- The kernel, the running round, and what the completed rounds have read. -/
structure DrainState where
  kernel : SampleState := {}
  round : Round := .waiting
  completed : List (XmProfileSample × BitVec 32) := []

inductive DrainEvent where
  /-- A processor does something. -/
  | kernel (e : SampleEvent)
  /-- `profileSampleMap.Iterate()` -/
  | iterate
  /-- `it.Next` returns a key and its value. -/
  | next (ps : XmProfileSample)
  /-- `it.Next` returns false, and `it.Err` an error or none. -/
  | done (err : Bool)
  /-- `profileSampleMap.Delete` of the next key, with an error or none. -/
  | delete (err : Bool)
  /-- `collectProfiles` returns. -/
  | ret

def DrainState.lookup (s : DrainState) (ps : XmProfileSample) : Option (BitVec 32) :=
  (s.kernel.map.lookup ps).map s.kernel.count

def drainStep (s : DrainState) : DrainEvent → DrainState
  | .kernel e => { s with kernel := sampleStep s.kernel e }
  | .iterate =>
      match s.round with
      | .waiting => { s with round := .iterating [] }
      | _ => s
  | .next ps =>
      match s.round, s.lookup ps with
      | .iterating collected, some v => { s with round := .iterating (collected ++ [(ps, v)]) }
      | _, _ => s
  | .done err =>
      match s.round with
      | .iterating collected => { s with round := if err then .waiting else .deleting [] collected }
      | _ => s
  | .delete err =>
      match s.round with
      | .deleting deleted ((ps, v) :: left) =>
          -- an error is logged, and the loop goes on with the next key
          { s with
            kernel := if err then s.kernel else { s.kernel with map := s.kernel.map.delete ps }
            round := .deleting (deleted ++ [(ps, v)]) left }
      | _ => s
  | .ret =>
      match s.round with
      | .deleting deleted [] => { s with round := .waiting, completed := s.completed ++ deleted }
      | _ => s

def drainRun (events : List DrainEvent) : DrainState :=
  events.foldl drainStep {}

/-! ## The balance -/

/-- The increments that counts stand for. A count starts with that of `__init_psd`. -/
def countedIn (entries : List (XmProfileSample × BitVec 32)) : Nat :=
  (entries.map fun entry => CounterMap.gained initPsdCount entry.2).sum

/-- What a round that is deleting has deleted so far: this is no longer in the map, and
the round is not complete. -/
def Round.deleted : Round → List (XmProfileSample × BitVec 32)
  | .waiting => []
  | .iterating _ => []
  | .deleting deleted _ => deleted

/-- Every increment is in a round or in the map, and in one of these only. -/
def Balanced (s : DrainState) : Prop :=
  s.kernel.increments =
    countedIn s.completed + countedIn s.round.deleted + CounterMap.stored initPsdCount s.kernel

/-- Nothing comes between the read of a key and its deletion: a key is deleted with the
count that was read, and a processor increments a count that is still in the map and
does not wrap around. -/
def Undisturbed (s : DrainState) : DrainEvent → Prop
  | .kernel e => CounterMap.Lands s.kernel e
  | .delete err => ∀ deleted ps v left, s.round = .deleting deleted ((ps, v) :: left) →
    err = false ∧ s.lookup ps = some v
  | _ => True

structure DrainState.Invariant (s : DrainState) : Prop where
  linked : CounterMap.Linked initPsdCount s.kernel
  balanced : Balanced s

theorem countedIn_append (xs ys : List (XmProfileSample × BitVec 32)) :
    countedIn (xs ++ ys) = countedIn xs + countedIn ys := by
  simp [countedIn]

/-- A deletion moves a count from the map to the round. -/
theorem DrainState.Invariant.delete {s : DrainState} (h : s.Invariant)
    {deleted left : List (XmProfileSample × BitVec 32)} {ps : XmProfileSample} {v : BitVec 32}
    (hround : s.round = .deleting deleted ((ps, v) :: left)) (hread : s.lookup ps = some v) :
    (drainStep s (.delete false)).Invariant := by
  obtain ⟨cell, hcell, hv⟩ := Option.map_eq_some_iff.mp hread
  have hstep : drainStep s (.delete false) =
      { s with
        kernel := { s.kernel with map := s.kernel.map.delete ps }
        round := .deleting (deleted ++ [(ps, v)]) left } := by
    simp only [drainStep, hround]
    rfl
  rw [hstep]
  constructor
  · have lookup {k : XmProfileSample} {c : Nat} (hk : (s.kernel.map.delete ps).lookup k = some c) :
        s.kernel.map.lookup k = some c := by
      rw [BpfHash.lookup_delete] at hk
      split at hk
      · cases hk
      · exact hk
    exact ⟨fun k k' c hk hk' => h.linked.injective k k' c (lookup hk) (lookup hk'),
      fun k c hk => h.linked.init_le k c (lookup hk)⟩
  · have hbalanced := h.balanced
    have htotal := BpfHash.total_delete
      (f := fun _ cell => CounterMap.gained initPsdCount (s.kernel.count cell)) hcell
    have hone : countedIn [(ps, v)] = CounterMap.gained initPsdCount (s.kernel.count cell) := by
      simp [countedIn, hv]
    rw [Balanced, hround] at hbalanced
    simp only [Balanced, Round.deleted, countedIn_append, hone, CounterMap.stored] at hbalanced ⊢
    omega

/-- A step that only concerns the round. -/
theorem DrainState.Invariant.moveRound {s : DrainState} (h : s.Invariant) (round : Round)
    (completed : List (XmProfileSample × BitVec 32))
    (hsame : countedIn completed + countedIn round.deleted =
      countedIn s.completed + countedIn s.round.deleted) :
    ({ s with round, completed } : DrainState).Invariant := by
  refine ⟨h.linked, ?_⟩
  change s.kernel.increments = countedIn completed + countedIn round.deleted + _
  rw [hsame]
  exact h.balanced

theorem DrainState.Invariant.step {s : DrainState} (h : s.Invariant) (e : DrainEvent)
    (hcalm : Undisturbed s e) : (drainStep s e).Invariant := by
  cases e with
  | kernel e =>
      obtain ⟨hlinked, hkept⟩ :=
        h.linked.transition hcalm (CounterMap.step_transition initPsdCount s.kernel e)
      refine ⟨hlinked, ?_⟩
      have hbalanced := h.balanced
      simp only [Balanced, drainStep, sampleStep] at hbalanced ⊢
      omega
  | iterate =>
      rw [drainStep]
      split
      · rename_i hround
        exact h.moveRound _ _ (by rw [hround]; rfl)
      · exact h
  | next ps =>
      rw [drainStep]
      split
      · rename_i hround _
        exact h.moveRound _ _ (by rw [hround]; rfl)
      · exact h
  | done err =>
      rw [drainStep]
      split
      · rename_i hround
        refine h.moveRound _ _ ?_
        rw [hround]
        cases err <;> rfl
      · exact h
  | delete err =>
      cases hround : s.round with
      | deleting deleted todo =>
          cases todo with
          | cons entry left =>
              obtain ⟨rfl, hread⟩ := hcalm deleted entry.1 entry.2 left hround
              exact h.delete hround hread
          | nil =>
              rw [drainStep, hround]
              exact h
      | waiting | iterating _ =>
          rw [drainStep, hround]
          exact h
  | ret =>
      rw [drainStep]
      split
      · rename_i deleted hround
        refine h.moveRound _ _ ?_
        rw [hround, countedIn_append]
        rfl
      · exact h

theorem DrainState.invariant_initial : ({} : DrainState).Invariant where
  linked := CounterMap.Linked.initial
  balanced := rfl

/-- In a run whose rounds are not disturbed, no increment is lost or read twice. -/
theorem drain_balanced (events : List DrainEvent)
    (hcalm : EventRun.AllSteps drainStep Undisturbed {} events) {past : List DrainEvent}
    (hpast : past <+: events) : Balanced (drainRun past) := by
  have hinv : (past.foldl drainStep {}).Invariant :=
    EventRun.foldl_invariant (fun _ e hs he => hs.step e he) DrainState.invariant_initial hcalm
      hpast
  exact hinv.balanced

/-- A round that drains one sample, with `between` happening before its deletion. -/
def drainWith (between : List SampleEvent) : List DrainEvent :=
  (oneSample 0 0 (bareSample 7)).map .kernel ++ [.iterate, .next (bareSample 7), .done false] ++
    between.map .kernel ++ [.delete false, .ret]

theorem calm_drain_balanced : Balanced (drainRun (drainWith [])) := by
  refine drain_balanced (drainWith []) ?_ (List.prefix_refl _)
  refine ⟨trivial, ?_, ?_, ?_, ?_, trivial, trivial, trivial, ?_, trivial, trivial⟩
  · rintro k cell ⟨⟩
  · rintro k cell ⟨⟩
  · rintro k cell ⟨⟩
  · rintro k cell ⟨⟩
    decide
  · rintro deleted ps v left ⟨⟩
    decide

/-- Two more events of the sample while the round resolves its stacks. -/
def twoSamples : List SampleEvent :=
  [.arrive 0 (bareSample 7), .advance 0 0, .advance 0 0,
    .arrive 0 (bareSample 7), .advance 0 0, .advance 0 0]

/-- The round is over, it has read one increment (or a count of two) and the map is
empty, but there were three increments. -/
theorem samples_lost :
    (drainRun (drainWith twoSamples)).round = .waiting ∧
      (drainRun (drainWith twoSamples)).completed = [(bareSample 7, 2)] ∧
      (drainRun (drainWith twoSamples)).kernel.map.keys = ∅ ∧
      ¬ Balanced (drainRun (drainWith twoSamples)) := by
  refine ⟨rfl, rfl, rfl, fun h => ?_⟩
  have hthree : 3 = 1 := h
  cases hthree

end XMonitor.Collector
