import XMonitor.Collector.UnwindTables
import XMonitor.Profile.Search

/-!
# The module of an address

The exporter writes the modules of a process into the slots of an array, and the kernel
program scans the array for the module of an address. The exporter refuses a process as soon
as its counter reaches the number of the slots, so that the last slot is never used. The
kernel program takes the end address of a module for an address of the module, though the
module behind it may begin there.
-/

namespace XMonitor

/-- The address lies in the range of the module, which does not contain its end. -/
def ProcMapsModule.Contains (m : ProcMapsModule) (pc : UInt64) : Prop :=
  m.startAddr ≤ pc ∧ pc < m.endAddr

namespace Collector

/-- No address is in the ranges of two modules. -/
def DisjointRanges (modules : List ProcModule) : Prop :=
  (modules.map ProcModule.entry).Pairwise fun m m' => ∀ pc, ¬(m.Contains pc ∧ m'.Contains pc)

/-- The list is accepted, and the scan for the address finds the module that contains it, or
nothing if there is none. -/
def Mapped (modules : List ProcModule) (pc : UInt64) : Prop :=
  ∃ procMaps, createPidMaps (some modules) = some (procMaps, modules) ∧
    ∀ m, Profile.findModuleInMaps procMaps pc = some m ↔
      m ∈ modules.map ProcModule.entry ∧ m.Contains pc

/-- The module that contains the address stands in front of every module that ends there. -/
def ContainsFirst (entries : List ProcMapsModule) (pc : UInt64) : Prop :=
  ∀ (i : Nat) (m : ProcMapsModule), entries[i]? = some m → m.startAddr ≤ pc → m.endAddr = pc →
    ∃ (j : Nat) (m' : ProcMapsModule), j < i ∧ entries[j]? = some m' ∧ m'.Contains pc

/-! ## What is written and what is found -/

/-- Maps with the entries in the first slots. -/
def slots (entries : List ProcMapsModule) : PidMaps where
  modules i := entries.getD i {}
  moduleCount := entries.length

theorem slots_concat (entries : List ProcMapsModule) (m : ProcMapsModule) :
    slots (entries ++ [m]) =
      { modules := Function.update (slots entries).modules entries.length m
        moduleCount := entries.length + 1 } := by
  have hmodules : (slots (entries ++ [m])).modules =
      Function.update (slots entries).modules entries.length m := by
    funext i
    change (entries ++ [m]).getD i {} = _
    by_cases hi : i = entries.length
    · subst hi
      rw [Function.update_self, List.getD_append_right _ _ _ _ (Nat.le_refl _), Nat.sub_self]
      rfl
    · rw [Function.update_of_ne hi]
      change _ = entries.getD i {}
      obtain hlt | hgt := Nat.lt_or_gt_of_ne hi
      · exact List.getD_append _ _ _ _ hlt
      · rw [List.getD_eq_default _ _ (Nat.le_of_lt hgt), List.getD_eq_default]
        rw [List.length_append]
        exact hgt
  have hcount : (slots (entries ++ [m])).moduleCount = entries.length + 1 := List.length_append
  rw [← hmodules, ← hcount]

theorem fillPidMaps_slots (modules : List ProcModule) (entries : List ProcMapsModule)
    (h : entries.length < maxPerProcessAssocModuleCount) :
    fillPidMaps modules (slots entries) =
      if entries.length + modules.length < maxPerProcessAssocModuleCount then
        some (slots (entries ++ modules.map ProcModule.entry))
      else none := by
  induction modules generalizing entries with
  | nil =>
      rw [List.length_nil, Nat.add_zero, if_pos h, List.map_nil, List.append_nil]
      rfl
  | cons m modules ih =>
      rw [fillPidMaps]
      dsimp only
      change (if entries.length + 1 ≥ _ then none else fillPidMaps modules
        { modules := Function.update (slots entries).modules entries.length m.entry
          moduleCount := entries.length + 1 }) = _
      rw [← slots_concat]
      by_cases hroom : entries.length + 1 < maxPerProcessAssocModuleCount
      · have hlength : (entries ++ [m.entry]).length = entries.length + 1 := List.length_append
        rw [if_neg (Nat.not_le.mpr hroom), ih _ (hlength ▸ hroom), hlength, List.append_assoc,
          List.length_cons, Nat.add_assoc, Nat.add_comm 1]
        rfl
      · rw [if_pos (Nat.not_lt.mp hroom), if_neg]
        rw [List.length_cons]
        omega

/-- A list is accepted if it leaves a slot free. -/
theorem createPidMaps_some (modules : List ProcModule) :
    createPidMaps (some modules) =
      if modules.length < maxPerProcessAssocModuleCount then
        some (slots (modules.map ProcModule.entry), modules)
      else none := by
  have hfill := fillPidMaps_slots modules [] (by decide)
  rw [List.length_nil, Nat.zero_add, List.nil_append] at hfill
  change (fillPidMaps modules (slots [])).bind (fun procMaps => some (procMaps, modules)) = _
  rw [hfill]
  split
  · rfl
  · rfl

/-- What the scan takes for an address of the module. -/
def Reaches (pc : UInt64) (m : ProcMapsModule) : Bool :=
  decide (m.startAddr ≤ pc) && decide (pc ≤ m.endAddr)

theorem reaches_iff {pc : UInt64} {m : ProcMapsModule} :
    Reaches pc m = true ↔ m.Contains pc ∨ m.startAddr ≤ pc ∧ m.endAddr = pc := by
  have hle : pc ≤ m.endAddr ↔ pc < m.endAddr ∨ m.endAddr = pc := by
    rw [UInt64.le_iff_lt_or_eq, eq_comm (b := pc)]
  rw [Reaches, Bool.and_eq_true, decide_eq_true_eq, decide_eq_true_eq, hle, and_or_left]
  rfl

/-- A slot that has not been written matches no address but zero. -/
theorem reaches_unused {pc : UInt64} (hpc : 0 < pc) : Reaches pc {} = false := by
  rw [Reaches, Bool.and_eq_false_iff]
  exact .inr (decide_eq_false (UInt64.not_le.mpr hpc))

/-- The scan sees the entries only. -/
theorem findModuleInMaps_slots {entries : List ProcMapsModule} {pc : UInt64} (hpc : 0 < pc)
    (h : entries.length ≤ perProcessAssocModuleCount) :
    Profile.findModuleInMaps (slots entries) pc = entries.find? (Reaches pc) := by
  have hslots : (List.range perProcessAssocModuleCount).map (slots entries).modules =
      entries ++ List.replicate (perProcessAssocModuleCount - entries.length)
        ({} : ProcMapsModule) := by
    refine List.ext_getElem ?_ fun i hi hi' => ?_
    · rw [List.length_map, List.length_range, List.length_append, List.length_replicate]
      omega
    · rw [List.getElem_map, List.getElem_range]
      change entries.getD i {} = _
      by_cases hlt : i < entries.length
      · rw [List.getElem_append_left hlt, List.getD_eq_getElem _ _ hlt]
      · rw [List.getElem_append_right (Nat.not_lt.mp hlt), List.getElem_replicate,
          List.getD_eq_default _ _ (Nat.not_lt.mp hlt)]
  have hunused : (List.replicate (perProcessAssocModuleCount - entries.length)
      ({} : ProcMapsModule)).find? (Reaches pc) = none := by
    rw [List.find?_eq_none]
    intro m hm
    rw [List.eq_of_mem_replicate hm, reaches_unused hpc]
    exact Bool.false_ne_true
  change ((List.range perProcessAssocModuleCount).map (slots entries).modules).find?
    (Reaches pc) = _
  rw [hslots, List.find?_append, hunused, Option.or_none]

/-! ## The module that is found -/

section

variable {entries : List ProcMapsModule} {pc : UInt64}

/-- If every match is a module that contains the address, no module that ends there stands
in front of it. -/
theorem containsFirst_of_find (h : ∀ m, entries.find? (Reaches pc) = some m → m.Contains pc) :
    ContainsFirst entries pc := by
  intro i m hm hstart hend
  have hreaches : Reaches pc m = true := reaches_iff.mpr (.inr ⟨hstart, hend⟩)
  cases hfind : entries.find? (Reaches pc) with
  | none => exact absurd hreaches (List.find?_eq_none.mp hfind m (List.mem_of_getElem? hm))
  | some m' =>
      obtain ⟨-, j, hj, rfl, hfirst⟩ := List.find?_eq_some_iff_getElem.mp hfind
      have hcontains := h _ hfind
      obtain ⟨hi, rfl⟩ := List.getElem?_eq_some_iff.mp hm
      obtain hlt | rfl | hgt := Nat.lt_trichotomy j i
      · exact ⟨j, _, hlt, List.getElem?_eq_getElem hj, hcontains⟩
      · exact absurd hcontains.2 (UInt64.not_lt.mpr (UInt64.le_of_eq hend))
      · have hmiss := hfirst i hgt
        rw [hreaches] at hmiss
        cases hmiss

theorem ContainsFirst.contains (h : ContainsFirst entries pc) {m : ProcMapsModule}
    (hfind : entries.find? (Reaches pc) = some m) : m.Contains pc := by
  obtain ⟨hreaches, i, hi, rfl, hfirst⟩ := List.find?_eq_some_iff_getElem.mp hfind
  obtain hcontains | ⟨hstart, hend⟩ := reaches_iff.mp hreaches
  · exact hcontains
  · obtain ⟨j, m', hj, hm', hcontains⟩ := h i _ (List.getElem?_eq_getElem hi) hstart hend
    obtain ⟨_, rfl⟩ := List.getElem?_eq_some_iff.mp hm'
    have hmiss := hfirst j hj
    rw [reaches_iff.mpr (.inl hcontains)] at hmiss
    cases hmiss

/-- Only one of disjoint ranges contains an address. -/
theorem eq_of_contains
    (hdisjoint : entries.Pairwise fun m m' => ∀ pc, ¬(m.Contains pc ∧ m'.Contains pc))
    {m m' : ProcMapsModule} (hm : m ∈ entries) (hm' : m' ∈ entries) (h : m.Contains pc)
    (h' : m'.Contains pc) : m = m' := by
  by_contra hne
  have hsymm : Std.Symm fun m m' : ProcMapsModule =>
    ∀ pc, ¬(m.Contains pc ∧ m'.Contains pc) := ⟨fun _ _ h pc hpc => h pc hpc.symm⟩
  exact hdisjoint.forall hm hm' hne pc ⟨h, h'⟩

theorem ContainsFirst.find_iff (h : ContainsFirst entries pc)
    (hdisjoint : entries.Pairwise fun m m' => ∀ pc, ¬(m.Contains pc ∧ m'.Contains pc))
    (m : ProcMapsModule) :
    entries.find? (Reaches pc) = some m ↔ m ∈ entries ∧ m.Contains pc := by
  constructor
  · exact fun hfind => ⟨List.mem_of_find?_eq_some hfind, h.contains hfind⟩
  · rintro ⟨hm, hcontains⟩
    cases hfind : entries.find? (Reaches pc) with
    | none =>
        exact absurd (reaches_iff.mpr (.inl hcontains)) (List.find?_eq_none.mp hfind m hm)
    | some m' =>
        rw [eq_of_contains hdisjoint (List.mem_of_find?_eq_some hfind) hm (h.contains hfind)
          hcontains]

end

/-- The scan finds the module of an address exactly if the list leaves a slot free and no
module that ends at the address stands in front of the module that contains it. -/
theorem mapped_iff {modules : List ProcModule} (hdisjoint : DisjointRanges modules)
    (hlength : modules.length ≤ perProcessAssocModuleCount) {pc : UInt64} (hpc : 0 < pc) :
    Mapped modules pc ↔
      modules.length < perProcessAssocModuleCount ∧
        ContainsFirst (modules.map ProcModule.entry) pc := by
  have hentries : (modules.map ProcModule.entry).length ≤ perProcessAssocModuleCount :=
    (List.length_map ProcModule.entry).symm ▸ hlength
  have hcreate := createPidMaps_some modules
  constructor
  · rintro ⟨procMaps, haccepted, hfind⟩
    rw [haccepted] at hcreate
    split at hcreate
    · rename_i hroom
      obtain ⟨rfl, -⟩ := Prod.mk.inj (Option.some.inj hcreate)
      refine ⟨hroom, containsFirst_of_find fun m hm => ?_⟩
      rw [← findModuleInMaps_slots hpc hentries] at hm
      exact ((hfind m).mp hm).2
    · cases hcreate
  · rintro ⟨hroom, hfirst⟩
    refine ⟨_, hcreate.trans (if_pos hroom), fun m => ?_⟩
    rw [findModuleInMaps_slots hpc hentries]
    exact hfirst.find_iff hdisjoint m

/-- Two modules, of which the second begins where the first one ends. -/
def adjacentModules : List ProcModule :=
  [{ entry := { startAddr := 0x1000, endAddr := 0x2000, buildIdHash := 1, type := .so } },
    { entry := { startAddr := 0x2000, endAddr := 0x3000, buildIdHash := 2, type := .so } }]

theorem disjointRanges_adjacentModules : DisjointRanges adjacentModules := by
  refine List.pairwise_pair.mpr fun pc ⟨h, h'⟩ => ?_
  exact absurd (UInt64.lt_of_lt_of_le h.2 h'.1) (UInt64.lt_irrefl pc)

/-- Inside of the second module the scan is right. -/
theorem mapped_inside : Mapped adjacentModules 0x2800 := by
  refine (mapped_iff disjointRanges_adjacentModules (by decide) (by decide)).mpr
    ⟨by decide, fun i m hm hstart hend => ?_⟩
  have hmem := List.mem_of_getElem? hm
  simp only [adjacentModules, List.map_cons, List.map_nil, List.mem_cons, List.not_mem_nil,
    or_false] at hmem
  obtain rfl | rfl := hmem
  · exact absurd hend (by decide)
  · exact absurd hend (by decide)

/-- Where the second module begins, the first one is found. -/
theorem begin_not_mapped : ¬ ∀ modules, DisjointRanges modules →
    modules.length ≤ perProcessAssocModuleCount → ∀ pc, 0 < pc → Mapped modules pc := by
  intro hclaim
  obtain ⟨procMaps, hcreate, hfind⟩ := hclaim adjacentModules disjointRanges_adjacentModules
    (by decide) 0x2000 (by decide)
  obtain rfl : slots (adjacentModules.map ProcModule.entry) = procMaps :=
    (Prod.mk.inj (Option.some.inj ((createPidMaps_some adjacentModules).symm.trans hcreate))).1
  have hfirst : Profile.findModuleInMaps (slots (adjacentModules.map ProcModule.entry)) 0x2000 =
      some (adjacentModules.map ProcModule.entry)[0] := rfl
  obtain ⟨-, -, hlt⟩ := (hfind _).mp hfirst
  exact absurd hlt (by decide)

end Collector

end XMonitor
