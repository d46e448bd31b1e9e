import Mathlib.Algebra.GroupWithZero.Nat
import XMonitor.Lib.ElementCounters
import XMonitor.Lib.EventRun

/-!
# The page cache statistics

Five probes of `xm_cachestat` count the calls of kernel functions by the instruction pointer.
Every interval the exporter iterates over `xm_page_cache_ops_count`, computes hits and misses
from the counts that it has read, and then sets the counts of these functions to zero. The
probes go on counting meanwhile.

A count that grows between its read and its reset is lost to both, as is an addition to an
element that the reset has replaced. `cacheStat_exact` says that nothing else is lost.
-/

namespace XMonitor.Gather

/-- The kernel functions that the exporter asks for. -/
inductive PageCacheOp
  | addToPageCacheLru
  | markPageAccessed
  | folioAccountDirtied
  | accountPageDirtied
  | markBufferDirty
deriving DecidableEq

/-- The processors and `xm_page_cache_ops_count`, whose elements are single counters. -/
abbrev OpsCount := ElementCounters.State Nat UInt64 Unit 64 4

/-- The steps of `__xm_bpf_map_increment` by one. -/
abbrev OpsEvent := ElementCounters.Event Nat UInt64 Unit

/-- `hits` and `misses` of the program. The ratio is computed in floating point and is not
modelled. -/
structure PageCacheStat where
  hits : UInt64
  misses : UInt64

/-- The accesses are hits, but for the misses. -/
def pageCacheHits (total misses : Int) : PageCacheStat :=
  let hits := total - misses
  if hits < 0 then ⟨0, UInt64.ofInt total⟩ else ⟨UInt64.ofInt hits, UInt64.ofInt misses⟩

def pageCacheStat (counts : PageCacheOp → BitVec 64) : PageCacheStat :=
  let total := (counts .markPageAccessed - counts .markBufferDirty).toInt
  let misses :=
    (counts .addToPageCacheLru - counts .accountPageDirtied - counts .folioAccountDirtied).toInt
  pageCacheHits (if total < 0 then 0 else total) (if misses < 0 then 0 else misses)

theorem pageCacheHits_add (total misses : Int) :
    (pageCacheHits total misses).hits + (pageCacheHits total misses).misses =
      UInt64.ofInt total := by
  rw [pageCacheHits]
  split_ifs
  · exact UInt64.zero_add _
  · rw [← UInt64.ofInt_add, Int.sub_add_cancel]

/-- Hits and misses add up to the accesses, whatever counts have been read. -/
theorem pageCacheStat_add (counts : PageCacheOp → BitVec 64) :
    ((pageCacheStat counts).hits + (pageCacheStat counts).misses).toNat =
      (counts .markPageAccessed - counts .markBufferDirty).toInt.toNat := by
  have hlt := BitVec.two_mul_toInt_lt (x := counts .markPageAccessed - counts .markBufferDirty)
  rw [pageCacheStat, pageCacheHits_add, UInt64.ofInt, UInt64.toNat_ofNat']
  split_ifs with hnegative
  · rw [Int.toNat_of_nonpos (Int.le_of_lt hnegative)]
    rfl
  · omega

/-- Where the gather routine is: between two rounds, iterating over the map, or resetting the
counts. Of the instruction pointers that it has kept, it is done with `done`. -/
inductive CacheStatRound
  | waiting
  | iterating
  | cleanup (done todo : List UInt64)

/-- The variables of the gather routine, and as history the counts that each completed round has
taken. An iteration that fails leaves `counts` and `ipSlice` as they are. -/
structure CacheStatState where
  kernel : OpsCount := {}
  counts : PageCacheOp → BitVec 64 := fun _ => 0
  ipSlice : List UInt64 := []
  stat : PageCacheStat := ⟨0, 0⟩
  round : CacheStatRound := .waiting
  rounds : List (UInt64 → Nat) := []

inductive CacheStatEvent
  /-- A processor does something. -/
  | kernel (e : OpsEvent)
  /-- `XmPageCacheOpsCount.Iterate()` -/
  | iterate
  /-- `entries.Next` returns a key and its value. -/
  | next (ip : UInt64)
  /-- `entries.Next` returns false, and `entries.Err` an error or none. -/
  | done (err : Bool)
  /-- `XmPageCacheOpsCount.Update` of the next key, with an error or none. -/
  | update (err : Bool) (fresh : Nat)
  /-- The round is complete. -/
  | finish

section

-- `FindKsym`: the function of an instruction pointer, if it is one of the five.
variable (findKsym : UInt64 → Option PageCacheOp)

/-- The count that the variables hold for an instruction pointer. -/
def CacheStatState.countOf (s : CacheStatState) (ip : UInt64) : BitVec 64 :=
  (findKsym ip).elim 0 s.counts

/-- The counts that the round takes. -/
def CacheStatState.roundTaken (s : CacheStatState) (ip : UInt64) : Nat :=
  if ip ∈ s.ipSlice then (s.countOf findKsym ip).toNat else 0

/-- A step of `cacheStatEventProcessor`, or of a processor. -/
def cacheStatStep (s : CacheStatState) : CacheStatEvent → CacheStatState
  | .kernel e => { s with kernel := s.kernel.step e }
  | .iterate =>
      match s.round with
      | .waiting => { s with round := .iterating }
      | _ => s
  | .next ip =>
      match s.round, s.kernel.read ip, findKsym ip with
      | .iterating, some count, some op =>
          { s with
            counts := Function.update s.counts op (count ())
            ipSlice := s.ipSlice ++ [ip] }
      | _, _, _ => s
  | .done err =>
      match s.round with
      | .iterating =>
          if err then { s with round := .waiting }
          else { s with stat := pageCacheStat s.counts, round := .cleanup [] s.ipSlice }
      | _ => s
  | .update err fresh =>
      match s.round with
      | .cleanup done (ip :: todo) =>
          -- an error is logged, and the loop goes on with the next key
          { s with
            kernel := if err then s.kernel else s.kernel.reset ip fresh
            round := .cleanup (done ++ [ip]) todo }
      | _ => s
  | .finish =>
      match s.round with
      | .cleanup _ [] =>
          { s with
            counts := fun _ => 0
            ipSlice := []
            round := .waiting
            rounds := s.rounds ++ [s.roundTaken findKsym] }
      | _ => s

/-! ## The balance -/

/-- Nothing comes between the read of a count and its reset: the reset finds the count that the
round takes, or zero if the round has reset it before, and a processor adds to an element that
is still in the map and does not wrap around. -/
def CacheStatState.Undisturbed (s : CacheStatState) : CacheStatEvent → Prop
  | .kernel e => ElementCounters.Lands s.kernel e
  | .update err _ => ∀ done ip todo, s.round = .cleanup done (ip :: todo) →
      err = false ∧
        s.kernel.read ip = some fun _ => if ip ∈ done then 0 else s.countOf findKsym ip
  | _ => True

/-- What the running round has already taken out of the map. -/
def CacheStatState.resetSoFar (s : CacheStatState) (ip : UInt64) : Nat :=
  match s.round with
  | .cleanup done _ => if ip ∈ done then (s.countOf findKsym ip).toNat else 0
  | _ => 0

/-- The counts that the completed rounds have taken. -/
def CacheStatState.roundsTaken (s : CacheStatState) (ip : UInt64) : Nat :=
  (s.rounds.map (· ip)).sum

/-- What all rounds have taken out of the map. -/
def CacheStatState.taken (s : CacheStatState) (ip : UInt64) (_ : Unit) : Nat :=
  s.roundsTaken ip + s.resetSoFar findKsym ip

/-- What the kernel has added for each key was taken by a completed round or is in the map. -/
def CacheStatState.Exact (s : CacheStatState) : Prop :=
  ∀ ip, s.kernel.added ip () = s.roundsTaken ip + s.kernel.stored ip ()

structure CacheStatState.Invariant (s : CacheStatState) : Prop where
  balanced : ElementCounters.Balanced s.kernel (s.taken findKsym)
  slice : ∀ done todo, s.round = .cleanup done todo → s.ipSlice = done ++ todo

variable {findKsym} {s : CacheStatState}

/-- A step that takes nothing out of the map. -/
theorem CacheStatState.Invariant.congr {s' : CacheStatState} (h : s.Invariant findKsym)
    (hkernel : s'.kernel = s.kernel) (htaken : s'.taken findKsym = s.taken findKsym)
    (hslice : ∀ done todo, s'.round = .cleanup done todo → s'.ipSlice = done ++ todo) :
    s'.Invariant findKsym := by
  refine ⟨?_, hslice⟩
  rw [hkernel, htaken]
  exact h.balanced

theorem CacheStatState.taken_of_resetSoFar {s' : CacheStatState} (hrounds : s'.rounds = s.rounds)
    (hreset : ∀ ip, s'.resetSoFar findKsym ip = s.resetSoFar findKsym ip) :
    s'.taken findKsym = s.taken findKsym := by
  funext ip slot
  rw [CacheStatState.taken, CacheStatState.taken, CacheStatState.roundsTaken,
    CacheStatState.roundsTaken, hrounds, hreset]

/-- The reset of a key moves its count from the map to the round. -/
theorem CacheStatState.Invariant.update (h : s.Invariant findKsym) {done todo : List UInt64}
    {ip : UInt64} (hround : s.round = .cleanup done (ip :: todo))
    (hread : s.kernel.read ip =
      some fun _ => if ip ∈ done then 0 else s.countOf findKsym ip) (fresh : Nat) :
    (cacheStatStep findKsym s (.update false fresh)).Invariant findKsym := by
  have hstep : cacheStatStep findKsym s (.update false fresh) =
      { s with
        kernel := s.kernel.reset ip fresh
        round := .cleanup (done ++ [ip]) todo } := by
    simp only [cacheStatStep, hround]
    rfl
  have htaken : CacheStatState.taken findKsym
      { s with
        kernel := s.kernel.reset ip fresh
        round := .cleanup (done ++ [ip]) todo } =
      ElementCounters.credit (s.taken findKsym) ip
        (fun _ : Unit => if ip ∈ done then 0 else s.countOf findKsym ip) := by
    funext k slot
    rw [ElementCounters.credit]
    by_cases hk : k = ip
    · subst hk
      rw [Function.update_self]
      simp only [CacheStatState.taken, CacheStatState.resetSoFar, hround, List.mem_append,
        List.mem_singleton, or_true, if_true]
      change _ + (s.countOf findKsym k).toNat = _
      by_cases hdone : k ∈ done
      · rw [if_pos hdone, if_pos hdone]
        rfl
      · rw [if_neg hdone, if_neg hdone, Nat.add_zero]
        rfl
    · rw [Function.update_of_ne hk]
      simp only [CacheStatState.taken, CacheStatState.resetSoFar, hround, List.mem_append,
        List.mem_singleton, hk, or_false]
      rfl
  rw [hstep]
  refine ⟨?_, fun done' todo' hround' => ?_⟩
  · rw [htaken]
    exact h.balanced.reset hread fresh
  · obtain ⟨rfl, rfl⟩ := CacheStatRound.cleanup.inj hround'
    change s.ipSlice = _
    rw [h.slice done (ip :: todo) hround, List.append_assoc, List.singleton_append]

/-- The completed round has taken what it has reset. -/
theorem CacheStatState.Invariant.finish (h : s.Invariant findKsym) {done : List UInt64}
    (hround : s.round = .cleanup done []) :
    (cacheStatStep findKsym s .finish).Invariant findKsym := by
  have hstep : cacheStatStep findKsym s .finish =
      { s with
        counts := fun _ => 0
        ipSlice := []
        round := .waiting
        rounds := s.rounds ++ [s.roundTaken findKsym] } := by
    simp only [cacheStatStep, hround]
  rw [hstep]
  refine h.congr rfl ?_ fun done todo hround' => by cases hround'
  funext ip slot
  have hslice : s.ipSlice = done := by
    rw [h.slice done [] hround, List.append_nil]
  simp only [CacheStatState.taken, CacheStatState.roundsTaken, CacheStatState.resetSoFar,
    CacheStatState.roundTaken, hround, hslice, List.map_append, List.sum_append, List.map_cons,
    List.map_nil, List.sum_cons, List.sum_nil, Nat.add_zero]

theorem CacheStatState.Invariant.step (h : s.Invariant findKsym) {e : CacheStatEvent}
    (hcalm : s.Undisturbed findKsym e) : (cacheStatStep findKsym s e).Invariant findKsym := by
  cases e with
  | kernel e => exact ⟨h.balanced.step hcalm, h.slice⟩
  | iterate =>
      rw [cacheStatStep]
      split
      · rename_i hround
        refine h.congr rfl (CacheStatState.taken_of_resetSoFar rfl fun ip => ?_) fun _ _ => by
          rintro ⟨⟩
        rw [CacheStatState.resetSoFar, CacheStatState.resetSoFar, hround]
      · exact h
  | next ip =>
      rw [cacheStatStep]
      split
      · rename_i count op hround _ _
        refine h.congr rfl (CacheStatState.taken_of_resetSoFar rfl fun ip => ?_)
          fun done todo hr => ?_
        · simp only [CacheStatState.resetSoFar, hround]
        · rw [hround] at hr
          cases hr
      · exact h
  | done err =>
      rw [cacheStatStep]
      split
      · rename_i hround
        cases err with
        | true =>
            refine h.congr rfl (CacheStatState.taken_of_resetSoFar rfl fun ip => ?_) fun _ _ => by
              rintro ⟨⟩
            simp only [CacheStatState.resetSoFar, hround, if_true]
        | false =>
            refine h.congr rfl (CacheStatState.taken_of_resetSoFar rfl fun ip => ?_)
              fun done todo hr => ?_
            · simp only [CacheStatState.resetSoFar, hround, Bool.false_eq_true, if_false,
                List.not_mem_nil]
            · obtain ⟨rfl, rfl⟩ := CacheStatRound.cleanup.inj hr
              rfl
      · exact h
  | update err fresh =>
      cases hround : s.round with
      | cleanup done todo =>
          cases todo with
          | cons ip todo =>
              obtain ⟨rfl, hread⟩ := hcalm done ip todo hround
              exact h.update hround hread fresh
          | nil =>
              rw [cacheStatStep, hround]
              exact h
      | waiting | iterating =>
          rw [cacheStatStep, hround]
          exact h
  | finish =>
      cases hround : s.round with
      | cleanup done todo =>
          cases todo with
          | nil => exact h.finish hround
          | cons ip todo =>
              rw [cacheStatStep, hround]
              exact h
      | waiting | iterating =>
          rw [cacheStatStep, hround]
          exact h

theorem CacheStatState.invariant_initial : ({} : CacheStatState).Invariant findKsym where
  balanced := ElementCounters.balanced_initial
  slice := by
    intro done todo hround
    cases hround

/-- Between two rounds of a run whose rounds are not disturbed, no addition is lost. -/
theorem cacheStat_exact {events : List CacheStatEvent}
    (hcalm : EventRun.AllSteps (cacheStatStep findKsym)
      (fun s e => s.Undisturbed findKsym e) {} events)
    {past : List CacheStatEvent} (hpast : past <+: events)
    (hround : (past.foldl (cacheStatStep findKsym) {}).round = .waiting) :
    (past.foldl (cacheStatStep findKsym) {}).Exact := by
  have hinv : (past.foldl (cacheStatStep findKsym) {}).Invariant findKsym :=
    EventRun.foldl_invariant (I := fun s => s.Invariant findKsym)
      (fun _ _ hs he => hs.step he) CacheStatState.invariant_initial hcalm hpast
  intro ip
  have hadded := hinv.balanced.added ip ()
  rw [CacheStatState.taken, CacheStatState.resetSoFar, hround] at hadded
  exact hadded

end

end XMonitor.Gather
