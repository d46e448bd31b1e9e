import Mathlib.Logic.Function.Basic
import XMonitor.Lib.BpfHash
import XMonitor.Lib.EventRun

/-!
# Counters in a hash map

Several processors count events by key in one map. A processor looks its key up,
inserts a fresh counter if there is none, looks the key up again and adds one to the
counter that it has found. Each of these operations is atomic, and the operations of
different processors interleave in any order.

A lookup returns a cell, which stays valid memory when its key is deleted. An addition
may therefore reach a cell that belongs to no key, or to another one. The fields
`handled` and `increments` are history: they count the events that processors have
finished and the additions that they have made.
-/

namespace CounterMap

/-- The next operation of a processor. -/
inductive Phase (κ : Type*) where
  | idle
  | lookup (k : κ)
  | insert (k : κ)
  | relookup (k : κ)
  | add (k : κ) (cell : Nat)

/-- An event arrives at a processor, or a processor runs its next operation. A counter
that this operation inserts is put into the cell `fresh`. -/
inductive Event (ι κ : Type*) where
  | arrive (cpu : ι) (k : κ)
  | advance (cpu : ι) (fresh : Nat)

structure State (ι κ : Type*) [DecidableEq κ] (w cap : Nat) where
  map : BpfHash κ Nat cap := .empty
  count : Nat → BitVec w := fun _ => 0
  phase : ι → Phase κ := fun _ => .idle
  handled : κ → Nat := fun _ => 0
  increments : Nat := 0

variable {ι κ : Type*} [DecidableEq ι] [DecidableEq κ] {w cap : Nat}

namespace State

def goto (s : State ι κ w cap) (cpu : ι) (p : Phase κ) : State ι κ w cap :=
  { s with phase := Function.update s.phase cpu p }

/-- The processor is done with its event. -/
def leave (s : State ι κ w cap) (cpu : ι) (k : κ) : State ι κ w cap :=
  { s.goto cpu .idle with handled := Function.update s.handled k (s.handled k + 1) }

/-- A fresh counter has been put into a cell. -/
def insert (s : State ι κ w cap) (m : BpfHash κ Nat cap) (cell : Nat) (init : BitVec w) :
    State ι κ w cap :=
  { s with map := m, count := Function.update s.count cell init }

def bump (s : State ι κ w cap) (cell : Nat) : State ι κ w cap :=
  { s with
    count := Function.update s.count cell (s.count cell + 1)
    increments := s.increments + 1 }

def Unlinked (s : State ι κ w cap) (cell : Nat) : Prop :=
  ∀ k ∈ s.map.keys, s.map.lookup k ≠ some cell

instance (s : State ι κ w cap) (cell : Nat) : Decidable (s.Unlinked cell) :=
  inferInstanceAs (Decidable (∀ k ∈ s.map.keys, s.map.lookup k ≠ some cell))

omit [DecidableEq ι] in
theorem Unlinked.ne {s : State ι κ w cap} {cell : Nat} (h : s.Unlinked cell) {k : κ} {c : Nat}
    (hk : s.map.lookup k = some c) : c ≠ cell := by
  rintro rfl
  exact h k (BpfHash.mem_keys_of_lookup hk) hk

/-- The next operation of a processor. An insertion never overwrites, and it fails if
the map is full. -/
def advance (init : BitVec w) (s : State ι κ w cap) (cpu : ι) (fresh : Nat) :
    State ι κ w cap :=
  match s.phase cpu with
  | .idle => s
  | .lookup k =>
      match s.map.lookup k with
      | some cell => s.goto cpu (.add k cell)
      | none => s.goto cpu (.insert k)
  | .insert k =>
      if k ∈ s.map.keys then s.goto cpu (.relookup k)
      else if s.Unlinked fresh then
        match s.map.update k fresh with
        | some m => (s.insert m fresh init).goto cpu (.relookup k)
        | none => s.leave cpu k
      else s
  | .relookup k =>
      match s.map.lookup k with
      | some cell => s.goto cpu (.add k cell)
      | none => s.leave cpu k
  | .add k cell => (s.bump cell).leave cpu k

def step (init : BitVec w) (s : State ι κ w cap) : Event ι κ → State ι κ w cap
  | .arrive cpu k =>
      match s.phase cpu with
      | .idle => s.goto cpu (.lookup k)
      | _ => s
  | .advance cpu fresh => s.advance init cpu fresh

end State

open State

/-! ## Transitions -/

/-- What a step can do. -/
inductive Transition (init : BitVec w) (s : State ι κ w cap) : Event ι κ → State ι κ w cap → Prop
  | stutter (e : Event ι κ) : (∀ cpu k, e = .arrive cpu k → s.phase cpu ≠ .idle) →
      Transition init s e s
  | arrive (cpu : ι) (k : κ) : s.phase cpu = .idle →
      Transition init s (.arrive cpu k) (s.goto cpu (.lookup k))
  | missing (cpu : ι) (k : κ) (fresh : Nat) : s.phase cpu = .lookup k →
      Transition init s (.advance cpu fresh) (s.goto cpu (.insert k))
  | exists (cpu : ι) (k : κ) (fresh : Nat) : s.phase cpu = .insert k → k ∈ s.map.keys →
      Transition init s (.advance cpu fresh) (s.goto cpu (.relookup k))
  | found (cpu : ι) (k : κ) (fresh cell : Nat) : s.phase cpu ≠ .idle →
      s.map.lookup k = some cell →
      Transition init s (.advance cpu fresh) (s.goto cpu (.add k cell))
  | insert (cpu : ι) (k : κ) (fresh : Nat) (m : BpfHash κ Nat cap) : s.phase cpu = .insert k →
      k ∉ s.map.keys → s.Unlinked fresh → s.map.update k fresh = some m →
      Transition init s (.advance cpu fresh) ((s.insert m fresh init).goto cpu (.relookup k))
  | full (cpu : ι) (k : κ) (fresh : Nat) : s.phase cpu = .insert k → k ∉ s.map.keys →
      s.map.update k fresh = none → Transition init s (.advance cpu fresh) (s.leave cpu k)
  | gone (cpu : ι) (k : κ) (fresh : Nat) : s.phase cpu = .relookup k → k ∉ s.map.keys →
      Transition init s (.advance cpu fresh) (s.leave cpu k)
  | add (cpu : ι) (k : κ) (fresh cell : Nat) : s.phase cpu = .add k cell →
      Transition init s (.advance cpu fresh) ((s.bump cell).leave cpu k)

/-- The run of a list of events. -/
def run (init : BitVec w) (events : List (Event ι κ)) : State ι κ w cap :=
  events.foldl (State.step init) {}

theorem step_transition (init : BitVec w) (s : State ι κ w cap) (e : Event ι κ) :
    Transition init s e (s.step init e) := by
  cases e with
  | arrive cpu k =>
      rw [State.step]
      split
      · exact .arrive cpu k ‹_›
      · rename_i hbusy
        refine .stutter _ ?_
        rintro cpu' k' heq
        cases heq
        exact hbusy
  | advance cpu fresh =>
      have skip : Transition init s (.advance cpu fresh) s := .stutter _ (by rintro _ _ ⟨⟩)
      rw [State.step, State.advance]
      split
      · exact skip
      · rename_i k hphase
        split
        · exact .found cpu k fresh _ (by rw [hphase]; rintro ⟨⟩) ‹_›
        · exact .missing cpu k fresh hphase
      · rename_i k hphase
        split
        · exact .exists cpu k fresh hphase ‹_›
        · rename_i hmem
          split
          · split
            · exact .insert cpu k fresh _ hphase hmem ‹_› ‹_›
            · exact .full cpu k fresh hphase hmem ‹_›
          · exact skip
      · rename_i k hphase
        split
        · exact .found cpu k fresh _ (by rw [hphase]; rintro ⟨⟩) ‹_›
        · exact .gone cpu k fresh hphase (BpfHash.lookup_eq_none_iff.mp ‹_›)
      · exact .add cpu _ fresh _ ‹_›

/-! ## Without deletions -/

/-- No insertion meets a full map. -/
def HasRoom (s : State ι κ w cap) : Event ι κ → Prop
  | .arrive _ _ => True
  | .advance cpu _ => ∀ k, s.phase cpu = .insert k → k ∉ s.map.keys → s.map.keys.card < cap

/-- Every counter has been incremented once for each event that is done. -/
structure Exact (init : BitVec w) (s : State ι κ w cap) : Prop where
  injective : ∀ k k' cell, s.map.lookup k = some cell → s.map.lookup k' = some cell → k = k'
  relookup : ∀ cpu k, s.phase cpu = .relookup k → k ∈ s.map.keys
  add : ∀ cpu k cell, s.phase cpu = .add k cell → s.map.lookup k = some cell
  count : ∀ k cell, s.map.lookup k = some cell →
    s.count cell = init + BitVec.ofNat w (s.handled k)
  absent : ∀ k, k ∉ s.map.keys → s.handled k = 0

section

variable {init : BitVec w} {s s' : State ι κ w cap} {e : Event ι κ}

omit [DecidableEq ι] in
theorem Exact.initial : Exact init ({} : State ι κ w cap) where
  injective := by simp
  relookup := by simp
  add := by simp
  count := by simp
  absent := by simp

/-- A phase that only relies on what is in the map. -/
theorem Exact.goto (h : Exact init s) (cpu : ι) (p : Phase κ)
    (hrelookup : ∀ k, p = .relookup k → k ∈ s.map.keys)
    (hadd : ∀ k cell, p = .add k cell → s.map.lookup k = some cell) :
    Exact init (s.goto cpu p) where
  injective := h.injective
  relookup cpu' k hphase := by
    by_cases hcpu : cpu' = cpu
    · subst hcpu
      exact hrelookup k (by simpa [State.goto] using hphase)
    · exact h.relookup cpu' k (by simpa [State.goto, hcpu] using hphase)
  add cpu' k cell hphase := by
    by_cases hcpu : cpu' = cpu
    · subst hcpu
      exact hadd k cell (by simpa [State.goto] using hphase)
    · exact h.add cpu' k cell (by simpa [State.goto, hcpu] using hphase)
  count := h.count
  absent := h.absent

omit [DecidableEq ι] in
theorem injective_insert
    (h : ∀ k k' cell, s.map.lookup k = some cell → s.map.lookup k' = some cell → k = k')
    {k : κ} {fresh : Nat} {m : BpfHash κ Nat cap} (hfresh : s.Unlinked fresh)
    (hupdate : s.map.update k fresh = some m) (k₁ k₂ : κ) (cell : Nat)
    (h₁ : m.lookup k₁ = some cell) (h₂ : m.lookup k₂ = some cell) : k₁ = k₂ := by
  rw [BpfHash.lookup_of_update hupdate] at h₁ h₂
  split at h₁ <;> split at h₂
  · rename_i heq₁ heq₂
    rw [heq₁, heq₂]
  · cases h₁
    exact absurd rfl (hfresh.ne h₂)
  · cases h₂
    exact absurd rfl (hfresh.ne h₁)
  · exact h k₁ k₂ cell h₁ h₂

omit [DecidableEq ι] in
theorem Exact.insert (h : Exact init s) {k : κ} {fresh : Nat} {m : BpfHash κ Nat cap}
    (hk : k ∉ s.map.keys) (hfresh : s.Unlinked fresh) (hupdate : s.map.update k fresh = some m) :
    Exact init (s.insert m fresh init) where
  injective := injective_insert h.injective hfresh hupdate
  relookup cpu k' hphase := by
    simp only [State.insert, BpfHash.keys_of_update hupdate]
    exact Finset.mem_insert_of_mem (h.relookup cpu k' hphase)
  add cpu k' cell hphase := by
    have hcell := h.add cpu k' cell hphase
    have hne : k' ≠ k := fun heq => hk (heq ▸ BpfHash.mem_keys_of_lookup hcell)
    simpa [State.insert, BpfHash.lookup_of_update hupdate, hne] using hcell
  count k' cell hcell := by
    simp only [State.insert, BpfHash.lookup_of_update hupdate] at hcell ⊢
    split at hcell
    · rename_i heq
      cases hcell
      rw [Function.update_self, heq, h.absent k hk]
      simp
    · rw [Function.update_of_ne (hfresh.ne hcell)]
      exact h.count k' cell hcell
  absent k' hk' := by
    simp only [State.insert, BpfHash.keys_of_update hupdate, Finset.mem_insert, not_or] at hk'
    exact h.absent k' hk'.2

theorem Exact.bump (h : Exact init s) {cpu : ι} {k : κ} {cell : Nat}
    (hphase : s.phase cpu = .add k cell) : Exact init ((s.bump cell).leave cpu k) := by
  have hcell := h.add cpu k cell hphase
  have hgoto := h.goto cpu .idle (by simp) (by simp)
  refine ⟨h.injective, hgoto.relookup, hgoto.add, ?_, ?_⟩
  · intro k' c hk'
    by_cases hkk : k' = k
    · subst hkk
      obtain rfl : cell = c := Option.some.inj (hcell.symm.trans hk')
      simp only [State.leave, State.bump, State.goto, Function.update_self,
        h.count k' cell hcell, BitVec.ofNat_add, BitVec.add_assoc]
      rfl
    · have hne : c ≠ cell := fun heq => hkk (h.injective k' k cell (heq ▸ hk') hcell)
      simp only [State.leave, State.bump, State.goto, Function.update_of_ne hne,
        Function.update_of_ne hkk]
      exact h.count k' c hk'
  · intro k' hk'
    have hne : k' ≠ k := by
      rintro rfl
      exact hk' (BpfHash.mem_keys_of_lookup hcell)
    simp only [State.leave, Function.update_of_ne hne]
    exact h.absent k' hk'

theorem Exact.transition (h : Exact init s) (hroom : HasRoom s e)
    (hstep : Transition init s e s') : Exact init s' := by
  cases hstep with
  | stutter _ _ => exact h
  | arrive cpu k _ | missing cpu k fresh _ => exact h.goto cpu _ (by simp) (by simp)
  | «exists» cpu k fresh _ hmem =>
      refine h.goto cpu _ ?_ (by simp)
      rintro _ ⟨⟩
      exact hmem
  | found cpu k fresh cell _ hlookup =>
      refine h.goto cpu _ (by simp) ?_
      rintro _ _ ⟨⟩
      exact hlookup
  | insert cpu k fresh m _ hk hfresh hupdate =>
      refine (h.insert hk hfresh hupdate).goto cpu _ ?_ (by simp)
      rintro _ ⟨⟩
      simp only [State.insert, BpfHash.keys_of_update hupdate]
      exact Finset.mem_insert_self _ _
  | full cpu k fresh hphase hk hnone =>
      obtain ⟨m, hm⟩ := BpfHash.exists_update_of_card (hroom k hphase hk) k fresh
      rw [hm] at hnone
      cases hnone
  | gone cpu k fresh hphase hk => exact absurd (h.relookup cpu k hphase) hk
  | add cpu k fresh cell hphase => exact h.bump hphase

/-- In a run without deletions whose insertions all find room, a counter shows its
initial value plus the number of events that are done. -/
theorem exact_run {events : List (Event ι κ)}
    (hroom : EventRun.AllSteps (State.step init) HasRoom ({} : State ι κ w cap) events) :
    Exact init (run init events : State ι κ w cap) :=
  EventRun.foldl_invariant (fun s e hs he => hs.transition he (step_transition init s e))
    Exact.initial hroom (List.prefix_refl events)

/-- Once an event has arrived, it is on some processor or it is done. -/
def Arrived (s : State ι κ w cap) : Prop :=
  (∃ k, 0 < s.handled k) ∨ ∃ cpu, s.phase cpu ≠ .idle

theorem arrived_leave (s : State ι κ w cap) (cpu : ι) (k : κ) : Arrived (s.leave cpu k) :=
  .inl ⟨k, by simp [State.leave]⟩

theorem arrived_goto (s : State ι κ w cap) (cpu : ι) {p : Phase κ} (hp : p ≠ .idle) :
    Arrived (s.goto cpu p) :=
  .inr ⟨cpu, by simpa [State.goto] using hp⟩

theorem Arrived.transition (h : Arrived s) (hstep : Transition init s e s') : Arrived s' := by
  cases hstep with
  | stutter _ _ => exact h
  | arrive cpu | missing cpu | «exists» cpu | found cpu | insert cpu =>
      exact arrived_goto _ cpu (by rintro ⟨⟩)
  | full cpu k | gone cpu k | add cpu k => exact arrived_leave _ cpu k

theorem arrived_of_arrive {cpu : ι} {k : κ} (hstep : Transition init s (.arrive cpu k) s') :
    Arrived s' := by
  cases hstep with
  | stutter _ hbusy => exact .inr ⟨cpu, hbusy cpu k rfl⟩
  | arrive _ _ _ => exact arrived_goto s cpu (by rintro ⟨⟩)

/-- Idle processors stay idle until an event arrives. -/
theorem foldl_eq_self {events : List (Event ι κ)} (hidle : ∀ cpu, s.phase cpu = .idle)
    (hnone : ∀ cpu k, Event.arrive cpu k ∉ events) : events.foldl (State.step init) s = s := by
  induction events with
  | nil => rfl
  | cons e events ih =>
      have hstep : s.step init e = s := by
        cases e with
        | arrive cpu k => exact absurd List.mem_cons_self (hnone cpu k)
        | advance cpu fresh => rw [State.step, State.advance, hidle cpu]
      rw [List.foldl_cons, hstep]
      exact ih fun cpu k hmem => hnone cpu k (List.mem_cons_of_mem e hmem)

/-- When every processor is idle again, some event is done if and only if one has
arrived. -/
theorem exists_handled_iff {events : List (Event ι κ)}
    (hidle : ∀ cpu, (run init events : State ι κ w cap).phase cpu = .idle) :
    (∃ k, 0 < (run init events : State ι κ w cap).handled k) ↔
      ∃ cpu k, Event.arrive cpu k ∈ events := by
  constructor
  · rintro ⟨k, hk⟩
    by_contra hnone
    push Not at hnone
    rw [run, foldl_eq_self (fun _ => rfl) hnone] at hk
    exact absurd hk (Nat.lt_irrefl 0)
  · rintro ⟨cpu, k, hmem⟩
    obtain ⟨before, after, rfl⟩ := List.append_of_mem hmem
    have harrived : Arrived (run init (before ++ .arrive cpu k :: after) : State ι κ w cap) := by
      rw [run, List.foldl_append, List.foldl_cons]
      exact EventRun.foldl_preserves (fun s e hs => hs.transition (step_transition init s e))
        (arrived_of_arrive (step_transition init _ _)) after
    obtain hdone | ⟨cpu', hbusy⟩ := harrived
    · exact hdone
    · exact absurd (hidle cpu') hbusy

/-! ## With deletions -/

/-- What counters have gained since they were inserted. -/
def gained (init v : BitVec w) : Nat :=
  v.toNat - init.toNat

/-- What all counters in the map have gained. -/
def stored (init : BitVec w) (s : State ι κ w cap) : Nat :=
  s.map.total fun _ cell => gained init (s.count cell)

/-- No two keys share a cell, and no counter has wrapped around. -/
structure Linked (init : BitVec w) (s : State ι κ w cap) : Prop where
  injective : ∀ k k' cell, s.map.lookup k = some cell → s.map.lookup k' = some cell → k = k'
  init_le : ∀ k cell, s.map.lookup k = some cell → init.toNat ≤ (s.count cell).toNat

/-- An addition reaches the counter of its key, and the counter can hold it. -/
def Lands (s : State ι κ w cap) : Event ι κ → Prop
  | .arrive _ _ => True
  | .advance cpu _ => ∀ k cell, s.phase cpu = .add k cell →
    s.map.lookup k = some cell ∧ (s.count cell).toNat + 1 < 2 ^ w

omit [DecidableEq ι] in
theorem Linked.initial : Linked init ({} : State ι κ w cap) where
  injective := by simp
  init_le := by simp

omit [DecidableEq ι] in
theorem Linked.insert (h : Linked init s) {k : κ} {fresh : Nat} {m : BpfHash κ Nat cap}
    (hfresh : s.Unlinked fresh) (hupdate : s.map.update k fresh = some m) :
    Linked init (s.insert m fresh init) where
  injective := injective_insert h.injective hfresh hupdate
  init_le k' cell hcell := by
    simp only [State.insert, BpfHash.lookup_of_update hupdate] at hcell ⊢
    split at hcell
    · cases hcell
      rw [Function.update_self]
    · rw [Function.update_of_ne (hfresh.ne hcell)]
      exact h.init_le k' cell hcell

omit [DecidableEq ι] in
theorem stored_insert {k : κ} {fresh : Nat} {m : BpfHash κ Nat cap} (hk : k ∉ s.map.keys)
    (hfresh : s.Unlinked fresh) (hupdate : s.map.update k fresh = some m) :
    stored init (s.insert m fresh init) = stored init s := by
  have hnew : gained init (Function.update s.count fresh init fresh) = 0 := by
    simp [gained]
  simp only [stored, State.insert]
  rw [BpfHash.total_of_update hupdate hk, hnew, Nat.zero_add]
  apply BpfHash.total_congr
  intro k' cell hcell
  rw [Function.update_of_ne (hfresh.ne hcell)]

theorem toNat_add_one {v : BitVec w} (h : v.toNat + 1 < 2 ^ w) : (v + 1).toNat = v.toNat + 1 := by
  have hone : (1 : BitVec w).toNat = 1 :=
    (BitVec.toNat_ofNat 1 w).trans (Nat.mod_eq_of_lt (Nat.lt_of_le_of_lt (Nat.le_add_left 1 _) h))
  rw [BitVec.toNat_add, hone, Nat.mod_eq_of_lt h]

omit [DecidableEq ι] in
theorem Linked.bump (h : Linked init s) {k : κ} {cell : Nat} (hcell : s.map.lookup k = some cell)
    (hfits : (s.count cell).toNat + 1 < 2 ^ w) : Linked init (s.bump cell) where
  injective := h.injective
  init_le k' c hc := by
    simp only [State.bump]
    by_cases hcc : c = cell
    · rw [hcc, Function.update_self, toNat_add_one hfits]
      exact Nat.le_succ_of_le (h.init_le k cell hcell)
    · rw [Function.update_of_ne hcc]
      exact h.init_le k' c hc

omit [DecidableEq ι] in
theorem Linked.stored_bump (h : Linked init s) {k : κ} {cell : Nat}
    (hcell : s.map.lookup k = some cell) (hfits : (s.count cell).toNat + 1 < 2 ^ w) :
    stored init (s.bump cell) = stored init s + 1 := by
  have hle := h.init_le k cell hcell
  apply BpfHash.total_add_one hcell
  · simp only [State.bump, Function.update_self, gained, toNat_add_one hfits]
    omega
  · intro k' c hne hc
    have hcc : c ≠ cell := fun heq => hne (h.injective k' k cell (heq ▸ hc) hcell)
    simp only [State.bump, Function.update_of_ne hcc]

/-- A step of a processor keeps additions and counters in balance. -/
theorem Linked.transition (h : Linked init s) (hlands : Lands s e)
    (hstep : Transition init s e s') :
    Linked init s' ∧ s'.increments + stored init s = s.increments + stored init s' := by
  cases hstep with
  | stutter _ _ => exact ⟨h, rfl⟩
  | arrive cpu | missing cpu | «exists» cpu | found cpu | full cpu | gone cpu =>
      exact ⟨⟨h.injective, h.init_le⟩, rfl⟩
  | insert cpu k fresh m _ hk hfresh hupdate =>
      have hinsert := h.insert hfresh hupdate
      refine ⟨⟨hinsert.injective, hinsert.init_le⟩, ?_⟩
      have hstored : stored init (s.insert m fresh init) = stored init s :=
        stored_insert hk hfresh hupdate
      exact congrArg (s.increments + ·) hstored.symm
  | add cpu k fresh cell hphase =>
      obtain ⟨hcell, hfits⟩ := hlands k cell hphase
      have hbump := h.bump hcell hfits
      refine ⟨⟨hbump.injective, hbump.init_le⟩, ?_⟩
      have hstored : stored init ((s.bump cell).leave cpu k) = stored init s + 1 :=
        h.stored_bump hcell hfits
      have hincrements : ((s.bump cell).leave cpu k).increments = s.increments + 1 := rfl
      omega

end

end CounterMap
