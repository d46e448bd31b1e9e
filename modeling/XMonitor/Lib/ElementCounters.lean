import Mathlib.Logic.Function.Basic
import XMonitor.Lib.BpfHash

/-!
# Counters in the elements of a hash map

Every element of a map holds some counters. Processors look up the element of a key, or insert
one with all counters zero, and then add one to a counter of the element that they have got.
Others read an element, delete it or reset it, and all these operations interleave.

A processor keeps the pointer to its element when the element is removed, so that its addition
may reach memory that belongs to no key, or to another one. The field `added` is history: it
counts the additions for each key and counter. `Balanced` accounts for them.
-/

namespace ElementCounters

/-- What a processor adds to: a counter of an element, which it has got for a key. -/
structure Held (κ σ : Type*) where
  key : κ
  cell : Nat
  slot : σ

structure State (ι κ σ : Type*) [DecidableEq κ] (w cap : Nat) where
  map : BpfHash κ Nat cap := .empty
  count : Nat → σ → BitVec w := fun _ _ => 0
  held : ι → Option (Held κ σ) := fun _ => none
  added : κ → σ → Nat := fun _ _ => 0

/-- The two steps of a processor for an event. An element that the first one inserts is put at
`fresh`. -/
inductive Event (ι κ σ : Type*) where
  | lookupOrInit (cpu : ι) (k : κ) (slot : σ) (fresh : Nat)
  | add (cpu : ι)

variable {ι κ σ : Type*} [DecidableEq ι] [DecidableEq κ] [DecidableEq σ] {w cap : Nat}

namespace State

def Unlinked (s : State ι κ σ w cap) (cell : Nat) : Prop :=
  ∀ k ∈ s.map.keys, s.map.lookup k ≠ some cell

instance (s : State ι κ σ w cap) (cell : Nat) : Decidable (s.Unlinked cell) :=
  inferInstanceAs (Decidable (∀ k ∈ s.map.keys, s.map.lookup k ≠ some cell))

def hold (s : State ι κ σ w cap) (cpu : ι) (held : Option (Held κ σ)) : State ι κ σ w cap :=
  { s with held := Function.update s.held cpu held }

/-- The map after an element has been put at an address, with all counters zero. -/
def put (s : State ι κ σ w cap) (m : BpfHash κ Nat cap) (cell : Nat) : State ι κ σ w cap :=
  { s with map := m, count := Function.update s.count cell fun _ => 0 }

def lookupOrInit (s : State ι κ σ w cap) (cpu : ι) (k : κ) (slot : σ) (fresh : Nat) :
    State ι κ σ w cap :=
  match s.map.lookup k with
  | some cell => s.hold cpu (some ⟨k, cell, slot⟩)
  | none =>
      if s.Unlinked fresh then
        match s.map.update k fresh with
        | some m => (s.put m fresh).hold cpu (some ⟨k, fresh, slot⟩)
        | none => s
      else s

/-- `__sync_fetch_and_add` of one. -/
def add (s : State ι κ σ w cap) (h : Held κ σ) : State ι κ σ w cap :=
  { s with
    count := Function.update s.count h.cell
      (Function.update (s.count h.cell) h.slot (s.count h.cell h.slot + 1))
    added := Function.update s.added h.key
      (Function.update (s.added h.key) h.slot (s.added h.key h.slot + 1)) }

/-- A processor that has an element adds to it before it looks up another one. -/
def step (s : State ι κ σ w cap) : Event ι κ σ → State ι κ σ w cap
  | .lookupOrInit cpu k slot fresh =>
      match s.held cpu with
      | none => s.lookupOrInit cpu k slot fresh
      | some _ => s
  | .add cpu =>
      match s.held cpu with
      | none => s
      | some h => (s.add h).hold cpu none

/-- The counters of a key. -/
def read (s : State ι κ σ w cap) (k : κ) : Option (σ → BitVec w) := (s.map.lookup k).map s.count

def delete (s : State ι κ σ w cap) (k : κ) : State ι κ σ w cap :=
  { s with map := s.map.delete k }

/-- The counters of a key that is there are set to zero, in a new element at `fresh` if nothing
is there, and in the old one otherwise. -/
def reset (s : State ι κ σ w cap) (k : κ) (fresh : Nat) : State ι κ σ w cap :=
  match s.map.lookup k with
  | none => s
  | some cell =>
      let target := if s.Unlinked fresh then fresh else cell
      s.put (s.map.put k target) target

/-- What a counter of a key shows, and zero if the key is not there. -/
def stored (s : State ι κ σ w cap) (k : κ) (slot : σ) : Nat :=
  (s.map.lookup k).elim 0 fun cell => (s.count cell slot).toNat

end State

/-! ## The balance -/

/-- The additions that somebody has taken away are those that are not in the map. No two keys
share an element. -/
structure Balanced (s : State ι κ σ w cap) (taken : κ → σ → Nat) : Prop where
  injective : ∀ k k' cell, s.map.lookup k = some cell → s.map.lookup k' = some cell → k = k'
  added : ∀ k slot, s.added k slot = taken k slot + s.stored k slot

/-- An addition reaches a counter of its key that can hold it. -/
def Lands (s : State ι κ σ w cap) : Event ι κ σ → Prop
  | .lookupOrInit _ _ _ _ => True
  | .add cpu => ∀ h ∈ s.held cpu,
      s.map.lookup h.key = some h.cell ∧ (s.count h.cell h.slot).toNat + 1 < 2 ^ w

instance (s : State ι κ σ w cap) (e : Event ι κ σ) : Decidable (Lands s e) :=
  match e with
  | .lookupOrInit _ _ _ _ => .isTrue trivial
  | .add cpu => inferInstanceAs (Decidable (∀ h ∈ s.held cpu, _ ∧ _))

/-- The counters of a key are taken away. -/
def credit (taken : κ → σ → Nat) (k : κ) (v : σ → BitVec w) : κ → σ → Nat :=
  Function.update taken k fun slot => taken k slot + (v slot).toNat

variable {s : State ι κ σ w cap} {taken : κ → σ → Nat} {k : κ} {cell : Nat}

omit [DecidableEq ι] [DecidableEq σ] in
theorem balanced_initial : Balanced ({} : State ι κ σ w cap) fun _ _ => 0 where
  injective := by
    intro k k' cell hk
    cases hk
  added := fun _ _ => rfl

omit [DecidableEq ι] [DecidableEq σ] in
/-- Nobody else has an element that is put at an unlinked address, or at that of its key. -/
theorem Balanced.ne_of_lookup (h : Balanced s taken)
    (hcell : s.Unlinked cell ∨ s.map.lookup k = some cell) {k' : κ} (hne : k' ≠ k) {c : Nat}
    (hc : s.map.lookup k' = some c) : c ≠ cell := by
  rintro rfl
  obtain hcell | hcell := hcell
  · exact hcell k' (BpfHash.mem_keys_of_lookup hc) hc
  · exact hne (h.injective k' k c hc hcell)

omit [DecidableEq ι] [DecidableEq σ] in
/-- The counters of the key are zero afterwards, and those of the others are as before. -/
theorem Balanced.put (h : Balanced s taken)
    (hcell : s.Unlinked cell ∨ s.map.lookup k = some cell) {m : BpfHash κ Nat cap}
    (hm : ∀ k', m.lookup k' = if k' = k then some cell else s.map.lookup k') :
    Balanced (s.put m cell)
      (Function.update taken k fun slot => taken k slot + s.stored k slot) where
  injective := by
    intro k₁ k₂ c h₁ h₂
    change m.lookup k₁ = some c at h₁
    change m.lookup k₂ = some c at h₂
    rw [hm] at h₁ h₂
    by_cases hk₁ : k₁ = k
    · by_cases hk₂ : k₂ = k
      · rw [hk₁, hk₂]
      · rw [if_pos hk₁] at h₁
        rw [if_neg hk₂] at h₂
        exact absurd (Option.some.inj h₁).symm (h.ne_of_lookup hcell hk₂ h₂)
    · rw [if_neg hk₁] at h₁
      by_cases hk₂ : k₂ = k
      · rw [if_pos hk₂] at h₂
        exact absurd (Option.some.inj h₂).symm (h.ne_of_lookup hcell hk₁ h₁)
      · rw [if_neg hk₂] at h₂
        exact h.injective k₁ k₂ c h₁ h₂
  added := by
    intro k' slot
    change s.added k' slot = _ + (m.lookup k').elim 0 _
    rw [h.added, hm]
    by_cases hk : k' = k
    · subst hk
      rw [if_pos rfl, Function.update_self, Option.elim_some]
      change _ = _ + (Function.update s.count cell (fun _ => 0) cell slot).toNat
      rw [Function.update_self]
      exact (Nat.add_zero _).symm
    · rw [if_neg hk, Function.update_of_ne hk]
      congr 1
      rw [State.stored]
      cases hlookup : s.map.lookup k' with
      | none => rfl
      | some c =>
          change _ = (Function.update s.count cell (fun _ => 0) c slot).toNat
          rw [Function.update_of_ne (h.ne_of_lookup hcell hk hlookup)]
          rfl

omit [DecidableEq σ] in
theorem Balanced.lookupOrInit (h : Balanced s taken) (cpu : ι) (k : κ) (slot : σ) (fresh : Nat) :
    Balanced (s.lookupOrInit cpu k slot fresh) taken := by
  rw [State.lookupOrInit]
  cases hlookup : s.map.lookup k with
  | some cell => exact ⟨h.injective, h.added⟩
  | none =>
      dsimp only
      by_cases hfresh : s.Unlinked fresh
      · rw [if_pos hfresh]
        cases hupdate : s.map.update k fresh with
        | none => exact h
        | some m =>
            have hput := h.put (.inl hfresh) (BpfHash.lookup_of_update hupdate)
            have hsame :
                (Function.update taken k fun slot => taken k slot + s.stored k slot) = taken := by
              rw [Function.update_eq_self_iff]
              funext slot
              rw [State.stored, hlookup]
              rfl
            rw [hsame] at hput
            exact ⟨hput.injective, hput.added⟩
      · rw [if_neg hfresh]
        exact h

omit [DecidableEq ι] in
theorem Balanced.add (h : Balanced s taken) {held : Held κ σ}
    (hlookup : s.map.lookup held.key = some held.cell)
    (hfits : (s.count held.cell held.slot).toNat + 1 < 2 ^ w) : Balanced (s.add held) taken where
  injective := h.injective
  added := by
    intro k slot
    have hadded := h.added k slot
    change Function.update s.added held.key _ k slot = taken k slot + (s.map.lookup k).elim 0
      fun c => (Function.update s.count held.cell _ c slot).toNat
    rw [State.stored] at hadded
    have hlt : 1 < 2 ^ w := Nat.lt_of_le_of_lt (Nat.le_add_left 1 _) hfits
    have hone : (1 : BitVec w).toNat = 1 := (BitVec.toNat_ofNat 1 w).trans (Nat.mod_eq_of_lt hlt)
    have hsucc := BitVec.toNat_add_of_lt (y := 1) (hone.symm ▸ hfits)
    rw [hone] at hsucc
    by_cases hk : k = held.key
    · subst hk
      rw [hlookup, Option.elim_some] at hadded ⊢
      rw [Function.update_self, Function.update_self]
      by_cases hslot : slot = held.slot
      · subst hslot
        rw [Function.update_self, Function.update_self, hsucc, hadded, Nat.add_assoc]
      · rw [Function.update_of_ne hslot, Function.update_of_ne hslot, hadded]
    · rw [Function.update_of_ne hk, hadded]
      congr 1
      cases hc : s.map.lookup k with
      | none => rfl
      | some c =>
          have hne := h.ne_of_lookup (.inr hlookup) hk hc
          rw [Option.elim_some, Option.elim_some, Function.update_of_ne hne]

/-- A step of a processor. -/
theorem Balanced.step (h : Balanced s taken) {e : Event ι κ σ} (hlands : Lands s e) :
    Balanced (s.step e) taken := by
  cases e with
  | lookupOrInit cpu k slot fresh =>
      rw [State.step]
      cases s.held cpu with
      | none => exact h.lookupOrInit cpu k slot fresh
      | some held => exact h
  | add cpu =>
      rw [State.step]
      cases hheld : s.held cpu with
      | none => exact h
      | some held =>
          obtain ⟨hlookup, hfits⟩ := hlands held hheld
          have hadd := h.add hlookup hfits
          exact ⟨hadd.injective, hadd.added⟩

omit [DecidableEq ι] [DecidableEq σ] in
theorem stored_of_read {v : σ → BitVec w} (hread : s.read k = some v) (slot : σ) :
    s.stored k slot = (v slot).toNat := by
  obtain ⟨cell, hcell, rfl⟩ := Option.map_eq_some_iff.mp hread
  rw [State.stored, hcell]
  rfl

omit [DecidableEq ι] [DecidableEq σ] in
/-- A deletion takes away what is in the map. -/
theorem Balanced.delete (h : Balanced s taken) {v : σ → BitVec w} (hread : s.read k = some v) :
    Balanced (s.delete k) (credit taken k v) where
  injective := by
    intro k₁ k₂ c h₁ h₂
    change (s.map.delete k).lookup k₁ = some c at h₁
    change (s.map.delete k).lookup k₂ = some c at h₂
    rw [BpfHash.lookup_delete] at h₁ h₂
    split_ifs at h₁ h₂
    exact h.injective k₁ k₂ c h₁ h₂
  added := by
    intro k' slot
    change s.added k' slot = _ + ((s.map.delete k).lookup k').elim 0 _
    rw [h.added, BpfHash.lookup_delete, credit]
    by_cases hk : k' = k
    · subst hk
      rw [if_pos rfl, Function.update_self, stored_of_read hread]
      rfl
    · rw [if_neg hk, Function.update_of_ne hk]
      rfl

omit [DecidableEq ι] [DecidableEq σ] in
/-- A reset takes away what is in the map. -/
theorem Balanced.reset (h : Balanced s taken) {v : σ → BitVec w} (hread : s.read k = some v)
    (fresh : Nat) : Balanced (s.reset k fresh) (credit taken k v) := by
  obtain ⟨cell, hcell, rfl⟩ := Option.map_eq_some_iff.mp hread
  have htarget : s.Unlinked (if s.Unlinked fresh then fresh else cell) ∨
      s.map.lookup k = some (if s.Unlinked fresh then fresh else cell) := by
    by_cases hfresh : s.Unlinked fresh
    · rw [if_pos hfresh]
      exact .inl hfresh
    · rw [if_neg hfresh]
      exact .inr hcell
  have hput := h.put htarget
    (BpfHash.lookup_put_of_hasRoom (.inl (BpfHash.mem_keys_of_lookup hcell)) _)
  have hcredit : (Function.update taken k fun slot => taken k slot + s.stored k slot) =
      credit taken k (s.count cell) := by
    rw [credit]
    congr 1
    funext slot
    rw [stored_of_read hread]
  rw [hcredit] at hput
  rw [State.reset, hcell]
  exact hput

end ElementCounters
