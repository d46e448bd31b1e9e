import Mathlib.Data.List.Nodup
import XMonitor.Utils.Strings

/-!
# The adaptive re-sortable list

The list has an entry for every keyword that the program expects in a source, with the
destination of its value, and for every other keyword that the source was seen to have.
It is kept in the order of the source, so that a keyword is normally found at once, at
the pointer `next_keyword`. A keyword that stands elsewhere is moved in front of the
pointer. The caller stops reading when all wanted keywords have been found.

A destination is a value of a type parameter. The call of the processor, which stores the
value at the destination, is returned to the caller as the pair of both.
-/

namespace XMonitor

variable {δ : Type*}

/-- The flag that an entry has from its creation. -/
inductive ArlKind
  | expected | dynamic
deriving DecidableEq

/-- `ARL_ENTRY`, known by an address. -/
structure ArlEntry (δ : Type*) where
  address : Nat
  name : CString
  dst : Option δ
  found : Bool
  kind : ArlKind

/-- `ARL_BASE`, without the statistics that nothing reads. -/
structure ArlBase (δ : Type*) where
  iteration : Nat
  found : Nat
  expected : Nat
  wanted : Nat
  rechecks : Nat
  added : Nat
  entries : List (ArlEntry δ)
  nextKeyword : Option Nat
  nextAddress : Nat

def arlCreate (rechecks : Nat) : ArlBase δ where
  iteration := 0
  found := 0
  expected := 0
  wanted := 0
  rechecks := rechecks
  added := 0
  entries := []
  nextKeyword := none
  nextAddress := 0

/-- `arl_expect`, which puts the entry at the head. -/
def arlExpect (base : ArlBase δ) (keyword : CString) (dst : Option δ) : ArlBase δ :=
  { base with
    entries := ⟨base.nextAddress, keyword, dst, false, .expected⟩ :: base.entries
    nextKeyword := if base.entries = [] then some base.nextAddress else base.nextKeyword
    expected := base.expected + 1
    wanted := base.expected + 1
    nextAddress := base.nextAddress + 1 }

/-! ## Beginning an iteration -/

/-- The loop of `arl_begin`: clear the flags of what was found and remove the dynamic
entries that were not, except one that is alone in the list. -/
def arlSweep (first : Bool) : List (ArlEntry δ) → List (ArlEntry δ)
  | [] => []
  | e :: es =>
      if e.found then { e with found := false } :: arlSweep false es
      else if e.kind = .dynamic ∧ ¬(first = true ∧ es = []) then arlSweep first es
      else e :: arlSweep false es

/-- What `arl_begin` does every `rechecks` iterations, and after new keywords. -/
def arlRecheck (base : ArlBase δ) : ArlBase δ :=
  { base with
    added := 0
    wanted :=
      if base.iteration % base.rechecks = 0 then base.expected
      else base.entries.countP fun e => e.found && decide (e.kind = .expected)
    entries := arlSweep true base.entries }

def reallyNotExisting : CString := "a-really-not-existing-source-keyword".toList

def arlBegin (base : ArlBase δ) : ArlBase δ :=
  let base :=
    if 0 < base.iteration ∧ (base.added ≠ 0 ∨ base.iteration % base.rechecks = 0) then
      arlRecheck base
    else base
  let base := if base.entries = [] then arlExpect base reallyNotExisting none else base
  { base with
    iteration := base.iteration + 1
    nextKeyword := base.entries.head?.map ArlEntry.address
    found := 0 }

/-- The list after the first part of `arl_begin`. -/
def ArlBase.rechecked (base : ArlBase δ) : ArlBase δ :=
  if 0 < base.iteration ∧ (base.added ≠ 0 ∨ base.iteration % base.rechecks = 0) then
    arlRecheck base
  else base

/-- The list after the second part, which is not empty. -/
def ArlBase.nonempty (base : ArlBase δ) : ArlBase δ :=
  if base.entries = [] then arlExpect base reallyNotExisting none else base

theorem arlBegin_eq (base : ArlBase δ) :
    arlBegin base =
      { base.rechecked.nonempty with
        iteration := base.rechecked.nonempty.iteration + 1
        nextKeyword := base.rechecked.nonempty.entries.head?.map ArlEntry.address
        found := 0 } := rfl

/-! ## Checking a keyword -/

/-- The pointer to the entry after the one with the address, none at the end. -/
def arlNext (address : Nat) : List (ArlEntry δ) → Option Nat
  | [] => none
  | e :: es => if e.address = address then es.head?.map ArlEntry.address else arlNext address es

/-- Link an entry in front of the one that a pointer points to. -/
def arlLink (e : ArlEntry δ) (pointer : Option Nat) : List (ArlEntry δ) → List (ArlEntry δ)
  | [] => [e]
  | m :: ms => if some m.address = pointer then e :: m :: ms else m :: arlLink e pointer ms

/-- What `arl_check` returns: the list, the call of the processor, and whether all wanted
keywords have been found. -/
structure ArlResult (δ : Type*) where
  base : ArlBase δ
  call : Option (δ × CString)
  stop : Bool

/-- `arl_find_or_create_and_relink`. It leaves `next_keyword` where it was: the entry is
linked in front of it. -/
def arlFindOrCreateAndRelink (base : ArlBase δ) (keyword value : CString) : ArlResult δ :=
  match base.entries.find? fun e => e.name = keyword with
  | some e =>
      let found := if e.dst.isSome then base.found + 1 else base.found
      { base :=
          { base with
            found
            entries := arlLink { e with found := true } base.nextKeyword
              (base.entries.eraseP fun e => e.name = keyword) }
        call := e.dst.map fun dst => (dst, value)
        stop := found = base.wanted }
  | none =>
      { base :=
          { base with
            added := base.added + 1
            entries := arlLink ⟨base.nextAddress, keyword, none, true, .dynamic⟩
              base.nextKeyword base.entries
            nextAddress := base.nextAddress + 1 }
        call := none
        stop := base.found = base.wanted }

/-- The fast path of `arl_check`, for the entry at `next_keyword`. -/
def arlHit (base : ArlBase δ) (e : ArlEntry δ) (value : CString) : ArlResult δ :=
  let found := if e.dst.isSome then base.found + 1 else base.found
  { base :=
      { base with
        found
        entries := base.entries.map fun m =>
          if m.address = e.address then { m with found := true } else m
        nextKeyword :=
          (arlNext e.address base.entries).or (base.entries.head?.map ArlEntry.address) }
    call := e.dst.map fun dst => (dst, value)
    stop := found = base.wanted }

/-- `arl_check`. After `arl_begin` the pointer is not null. -/
def arlCheck (base : ArlBase δ) (keyword value : CString) : ArlResult δ :=
  match base.entries.find? fun e => some e.address = base.nextKeyword with
  | some e =>
      if e.name = keyword then arlHit base e value
      else arlFindOrCreateAndRelink base keyword value
  | none => arlFindOrCreateAndRelink base keyword value

/-- The result for a keyword that has an entry elsewhere. -/
def arlRelinked (base : ArlBase δ) (e : ArlEntry δ) (value : CString) : ArlResult δ :=
  let found := if e.dst.isSome then base.found + 1 else base.found
  { base :=
      { base with
        found
        entries := arlLink { e with found := true } base.nextKeyword
          (base.entries.eraseP fun m => m.name = e.name) }
    call := e.dst.map fun dst => (dst, value)
    stop := found = base.wanted }

/-- The result for a keyword that has none. -/
def arlAdded (base : ArlBase δ) (keyword : CString) : ArlResult δ where
  base :=
    { base with
      added := base.added + 1
      entries := arlLink ⟨base.nextAddress, keyword, none, true, .dynamic⟩
        base.nextKeyword base.entries
      nextAddress := base.nextAddress + 1 }
  call := none
  stop := base.found = base.wanted

theorem arlFindOrCreateAndRelink_cases (base : ArlBase δ) (keyword value : CString) :
    (∃ e ∈ base.entries, e.name = keyword ∧
      arlFindOrCreateAndRelink base keyword value = arlRelinked base e value) ∨
    (∀ e ∈ base.entries, e.name ≠ keyword) ∧
      arlFindOrCreateAndRelink base keyword value = arlAdded base keyword := by
  rw [arlFindOrCreateAndRelink]
  split
  · rename_i e hfind
    have hname : e.name = keyword := by simpa using List.find?_some hfind
    subst hname
    exact .inl ⟨e, List.mem_of_find?_eq_some hfind, rfl, rfl⟩
  · rename_i hfind
    exact .inr ⟨fun e he => by simpa using List.find?_eq_none.mp hfind e he, rfl⟩

/-- The three ways of `arl_check`. -/
theorem arlCheck_cases (base : ArlBase δ) (keyword value : CString) :
    (∃ e ∈ base.entries, e.name = keyword ∧
      arlCheck base keyword value = arlHit base e value) ∨
    (∃ e ∈ base.entries, e.name = keyword ∧
      arlCheck base keyword value = arlRelinked base e value) ∨
    (∀ e ∈ base.entries, e.name ≠ keyword) ∧
      arlCheck base keyword value = arlAdded base keyword := by
  rw [arlCheck]
  split
  · rename_i e hfind
    split
    · rename_i hname
      exact .inl ⟨e, List.mem_of_find?_eq_some hfind, hname, rfl⟩
    · exact .inr (arlFindOrCreateAndRelink_cases base keyword value)
  · exact .inr (arlFindOrCreateAndRelink_cases base keyword value)

/-- The loop of the collectors over the lines of a file, with the calls of the processor. -/
def arlScan (base : ArlBase δ) : ProcFile → ArlBase δ × List (δ × CString)
  | [] => (base, [])
  | line :: lines =>
      if line.length < 2 then arlScan base lines
      else
        let result := arlCheck base (lineword line 0) (lineword line 1)
        if result.stop then (result.base, result.call.toList)
        else
          let (base, calls) := arlScan result.base lines
          (base, result.call.toList ++ calls)

/-! ## Expected keywords stay in the list -/

/-- The list has no keyword twice, and an entry for every expected keyword. -/
structure ArlBase.Expects (base : ArlBase δ) (keywords : List (CString × δ)) : Prop where
  nodup : (base.entries.map ArlEntry.name).Nodup
  entry : ∀ keyword dst, (keyword, dst) ∈ keywords →
    ∃ e ∈ base.entries, e.name = keyword ∧ e.dst = some dst ∧ e.kind = .expected

variable {base : ArlBase δ} {keywords : List (CString × δ)} {keyword value : CString} {dst : δ}

theorem arlCreate_expects (rechecks : Nat) : (arlCreate rechecks : ArlBase δ).Expects [] where
  nodup := List.nodup_nil
  entry := fun _ _ h => absurd h List.not_mem_nil

theorem ArlBase.Expects.arlExpect (h : base.Expects keywords)
    (hnew : keyword ∉ base.entries.map ArlEntry.name) :
    (arlExpect base keyword (some dst)).Expects ((keyword, dst) :: keywords) where
  nodup := List.nodup_cons.mpr ⟨hnew, h.nodup⟩
  entry := by
    intro keyword' dst' hmem
    obtain heq | hmem := List.mem_cons.mp hmem
    · obtain ⟨rfl, rfl⟩ := Prod.mk.inj heq
      exact ⟨_, List.mem_cons_self, rfl, rfl, rfl⟩
    · obtain ⟨e, he, hview⟩ := h.entry keyword' dst' hmem
      exact ⟨e, List.mem_cons_of_mem _ he, hview⟩

theorem ArlBase.Expects.mono {keywords' : List (CString × δ)} (h : base.Expects keywords)
    (hsub : keywords' ⊆ keywords) : base.Expects keywords' where
  nodup := h.nodup
  entry := fun keyword dst hmem => h.entry keyword dst (hsub hmem)

/-- Different keywords can be expected one after the other. -/
theorem ArlBase.Expects.foldl_arlExpect {more : List (CString × δ)} (h : base.Expects keywords)
    (hmore : (more.map Prod.fst).Nodup)
    (hnew : ∀ keyword ∈ more.map Prod.fst, keyword ∉ base.entries.map ArlEntry.name) :
    (more.foldl (fun base keyword => XMonitor.arlExpect base keyword.1 (some keyword.2))
      base).Expects (more ++ keywords) := by
  induction more generalizing base keywords with
  | nil => exact h
  | cons keyword more ih =>
      obtain ⟨hfirst, hrest⟩ := List.forall_mem_cons.mp hnew
      obtain ⟨hother, hmore⟩ := List.nodup_cons.mp hmore
      have hbase : (XMonitor.arlExpect base keyword.1 (some keyword.2)).Expects
          (keyword :: keywords) := h.arlExpect hfirst
      refine (ih hbase hmore fun name hname => ?_).mono ?_
      · show name ∉ keyword.1 :: base.entries.map ArlEntry.name
        rw [List.mem_cons, not_or]
        refine ⟨?_, hrest name hname⟩
        rintro rfl
        exact hother hname
      · intro x hx
        rw [List.cons_append, List.mem_cons] at hx
        rw [List.mem_append, List.mem_cons]
        obtain rfl | hx := hx
        · exact .inr (.inl rfl)
        · exact (List.mem_append.mp hx).imp_right .inr

theorem arlSweep_names (first : Bool) (entries : List (ArlEntry δ)) :
    ((arlSweep first entries).map ArlEntry.name).Sublist (entries.map ArlEntry.name) := by
  induction entries generalizing first with
  | nil => exact List.Sublist.slnil
  | cons e es ih =>
      rw [arlSweep]
      split
      · exact (ih false).cons_cons e.name
      · split
        · exact (ih first).cons e.name
        · exact (ih false).cons_cons e.name

theorem mem_arlSweep {first : Bool} {entries : List (ArlEntry δ)} {e : ArlEntry δ}
    (he : e ∈ entries) (hkind : e.kind = .expected) :
    { e with found := false } ∈ arlSweep first entries := by
  induction entries generalizing first with
  | nil => exact absurd he List.not_mem_nil
  | cons m ms ih =>
      rw [arlSweep]
      obtain rfl | he := List.mem_cons.mp he
      · split
        · exact List.mem_cons_self
        · rename_i hfound
          rw [if_neg (by simp [hkind])]
          have hsame : { e with found := false } = e := by
            rw [Bool.not_eq_true] at hfound
            rw [← hfound]
          rw [hsame]
          exact List.mem_cons_self
      · split
        · exact List.mem_cons_of_mem _ (ih he)
        · split
          · exact ih he
          · exact List.mem_cons_of_mem _ (ih he)

/-- The keywords of a list are different. -/
def ArlBase.Distinct (base : ArlBase δ) : Prop := (base.entries.map ArlEntry.name).Nodup

/-- What an operation keeps of a list. -/
structure ArlBase.Keeps (base base' : ArlBase δ) : Prop where
  distinct : base'.Distinct
  kept : ∀ e ∈ base.entries, e.kind = .expected →
    ∃ e' ∈ base'.entries, e'.name = e.name ∧ e'.dst = e.dst ∧ e'.kind = e.kind

/-- What keeps the expected entries keeps the expected keywords. -/
theorem ArlBase.Expects.of_keeps (h : base.Expects keywords) {base' : ArlBase δ}
    (hkeeps : base.Keeps base') : base'.Expects keywords where
  nodup := hkeeps.distinct
  entry := by
    intro keyword dst hmem
    obtain ⟨e, he, hname, hdst, hkind⟩ := h.entry keyword dst hmem
    obtain ⟨e', he', hname', hdst', hkind'⟩ := hkeeps.kept e he hkind
    exact ⟨e', he', hname'.trans hname, hdst'.trans hdst, hkind'.trans hkind⟩

theorem ArlBase.Distinct.keeps_arlRecheck (h : base.Distinct) : base.Keeps (arlRecheck base) where
  distinct := h.sublist (arlSweep_names true base.entries)
  kept := fun _ he hkind => ⟨_, mem_arlSweep he hkind, rfl, rfl, rfl⟩

theorem ArlBase.Distinct.keeps_rechecked (h : base.Distinct) : base.Keeps base.rechecked := by
  rw [ArlBase.rechecked]
  split
  · exact h.keeps_arlRecheck
  · exact ⟨h, fun e he _ => ⟨e, he, rfl, rfl, rfl⟩⟩

theorem ArlBase.Distinct.keeps_arlBegin (h : base.Distinct) : base.Keeps (arlBegin base) := by
  obtain ⟨hdistinct, hkept⟩ := h.keeps_rechecked
  rw [arlBegin_eq, ArlBase.nonempty]
  by_cases hempty : base.rechecked.entries = []
  · simp only [if_pos hempty]
    refine ⟨?_, fun e he hkind => ?_⟩
    · show ((_ :: base.rechecked.entries).map ArlEntry.name).Nodup
      rw [hempty]
      exact List.nodup_singleton _
    · obtain ⟨e', he', -⟩ := hkept e he hkind
      rw [hempty] at he'
      exact absurd he' List.not_mem_nil
  · simp only [if_neg hempty]
    exact ⟨hdistinct, hkept⟩

theorem ArlBase.Expects.arlBegin (h : base.Expects keywords) :
    (arlBegin base).Expects keywords :=
  h.of_keeps (ArlBase.Distinct.keeps_arlBegin h.nodup)

theorem arlLink_perm (e : ArlEntry δ) (pointer : Option Nat) (entries : List (ArlEntry δ)) :
    (arlLink e pointer entries).Perm (e :: entries) := by
  induction entries with
  | nil => exact List.Perm.refl _
  | cons m ms ih =>
      rw [arlLink]
      split
      · exact List.Perm.refl _
      · exact (ih.cons m).trans (List.Perm.swap e m ms)

/-- An entry with an expected keyword has its destination. -/
theorem ArlBase.Expects.dst_eq (h : base.Expects keywords) (hmem : (keyword, dst) ∈ keywords)
    {e : ArlEntry δ} (he : e ∈ base.entries) (hname : e.name = keyword) :
    e.dst = some dst := by
  obtain ⟨e', he', hname', hdst, -⟩ := h.entry keyword dst hmem
  rw [List.inj_on_of_nodup_map h.nodup he he' (hname.trans hname'.symm)]
  exact hdst

/-- The processor is called for a keyword that is expected. -/
theorem ArlBase.Expects.call_arlCheck (h : base.Expects keywords)
    (hmem : (keyword, dst) ∈ keywords) (value : CString) :
    (arlCheck base keyword value).call = some (dst, value) := by
  obtain ⟨e, he, hname, hcheck⟩ | ⟨e, he, hname, hcheck⟩ | ⟨hnone, -⟩ :=
    arlCheck_cases base keyword value
  · rw [hcheck]
    show e.dst.map _ = _
    rw [h.dst_eq hmem he hname]
    rfl
  · rw [hcheck]
    show e.dst.map _ = _
    rw [h.dst_eq hmem he hname]
    rfl
  · obtain ⟨e, he, hname, -⟩ := h.entry keyword dst hmem
    exact absurd hname (hnone e he)

theorem ArlBase.Distinct.keeps_arlRelinked (h : base.Distinct) {e : ArlEntry δ}
    (he : e ∈ base.entries) (value : CString) : base.Keeps (arlRelinked base e value).base := by
  obtain ⟨e', before, behind, -, hname, hsplit, herase⟩ :=
    List.exists_of_eraseP (p := fun m => m.name = e.name) he (decide_eq_true rfl)
  have hmem' : e' ∈ base.entries := hsplit ▸ List.mem_append_right _ List.mem_cons_self
  have hsame : e' = e := List.inj_on_of_nodup_map h hmem' he (of_decide_eq_true hname)
  have hlink := arlLink_perm { e with found := true } base.nextKeyword (before ++ behind)
  have hold : base.entries.Perm (e :: (before ++ behind)) := by
    rw [hsplit, hsame]
    exact List.perm_middle
  have hnames : (arlLink { e with found := true } base.nextKeyword
      (before ++ behind)).map ArlEntry.name |>.Perm (base.entries.map ArlEntry.name) :=
    (hlink.map ArlEntry.name).trans (hold.map ArlEntry.name).symm
  simp only [arlRelinked, herase]
  refine ⟨hnames.nodup_iff.mpr h, fun m hm _ => ?_⟩
  obtain rfl | hm := List.mem_cons.mp (hold.mem_iff.mp hm)
  · exact ⟨_, hlink.mem_iff.mpr List.mem_cons_self, rfl, rfl, rfl⟩
  · exact ⟨m, hlink.mem_iff.mpr (List.mem_cons_of_mem _ hm), rfl, rfl, rfl⟩

theorem ArlBase.Distinct.keeps_arlAdded (h : base.Distinct)
    (hnone : ∀ e ∈ base.entries, e.name ≠ keyword) :
    base.Keeps (arlAdded base keyword).base := by
  have hnew : keyword ∉ base.entries.map ArlEntry.name := by
    intro hmem
    obtain ⟨e, he, hname⟩ := List.mem_map.mp hmem
    exact hnone e he hname
  have hlink := arlLink_perm ⟨base.nextAddress, keyword, none, true, .dynamic⟩
    base.nextKeyword base.entries
  refine ⟨?_, fun m hm _ => ?_⟩
  · exact (hlink.map ArlEntry.name).nodup_iff.mpr (List.nodup_cons.mpr ⟨hnew, h⟩)
  · exact ⟨m, hlink.mem_iff.mpr (List.mem_cons_of_mem _ hm), rfl, rfl, rfl⟩

theorem ArlBase.Distinct.keeps_arlHit (h : base.Distinct) (e : ArlEntry δ) (value : CString) :
    base.Keeps (arlHit base e value).base := by
  have hnames : (base.entries.map fun m =>
      if m.address = e.address then { m with found := true } else m).map ArlEntry.name =
      base.entries.map ArlEntry.name := by
    rw [List.map_map]
    refine List.map_congr_left fun m _ => ?_
    rw [Function.comp_apply]
    split <;> rfl
  refine ⟨?_, fun m hm _ => ⟨_, List.mem_map_of_mem hm, ?_⟩⟩
  · show ((base.entries.map _).map ArlEntry.name).Nodup
    rw [hnames]
    exact h
  · split
    · exact ⟨rfl, rfl, rfl⟩
    · exact ⟨rfl, rfl, rfl⟩

theorem ArlBase.Distinct.keeps_arlCheck (h : base.Distinct) (keyword value : CString) :
    base.Keeps (arlCheck base keyword value).base := by
  obtain ⟨e, -, -, hcheck⟩ | ⟨e, he, -, hcheck⟩ | ⟨hnone, hcheck⟩ :=
    arlCheck_cases base keyword value
  · rw [hcheck]
    exact h.keeps_arlHit e value
  · rw [hcheck]
    exact h.keeps_arlRelinked he value
  · rw [hcheck]
    exact h.keeps_arlAdded hnone

theorem ArlBase.Expects.arlCheck (h : base.Expects keywords) (keyword value : CString) :
    (arlCheck base keyword value).base.Expects keywords :=
  h.of_keeps (ArlBase.Distinct.keeps_arlCheck h.nodup keyword value)

theorem ArlBase.Expects.arlScan (h : base.Expects keywords) (lines : ProcFile) :
    (arlScan base lines).1.Expects keywords := by
  induction lines generalizing base with
  | nil => exact h
  | cons line lines ih =>
      rw [XMonitor.arlScan]
      split
      · exact ih h
      · have hchecked := h.arlCheck (lineword line 0) (lineword line 1)
        dsimp only
        split
        · exact hchecked
        · exact ih hchecked

/-! ## Processors that store a value -/

section

variable [DecidableEq δ] {α : Type*} {calls : List (δ × CString)}

/-- The calls make two states agree on what they store. -/
theorem foldl_update_congr (parse : CString → α) {dsts dsts' : δ → α}
    (h : dsts dst = dsts' dst ∨ dst ∈ calls.map Prod.fst) :
    calls.foldl (fun dsts call => Function.update dsts call.1 (parse call.2)) dsts dst =
      calls.foldl (fun dsts call => Function.update dsts call.1 (parse call.2)) dsts' dst := by
  induction calls generalizing dsts dsts' with
  | nil => exact h.resolve_right List.not_mem_nil
  | cons call calls ih =>
      apply ih
      dsimp only
      by_cases heq : dst = call.1
      · subst heq
        exact .inl (by rw [Function.update_self, Function.update_self])
      · rw [Function.update_of_ne heq, Function.update_of_ne heq]
        rw [List.map_cons, List.mem_cons] at h
        exact h.imp_right fun hmem => hmem.resolve_left heq

/-- What no call is for stays. -/
theorem foldl_update_of_notMem (parse : CString → α) (h : dst ∉ calls.map Prod.fst)
    (dsts : δ → α) :
    calls.foldl (fun dsts call => Function.update dsts call.1 (parse call.2)) dsts dst =
      dsts dst := by
  induction calls generalizing dsts with
  | nil => rfl
  | cons call calls ih =>
      rw [List.map_cons, List.mem_cons, not_or] at h
      rw [List.foldl_cons, ih h.2, Function.update_of_ne h.1]

/-- What all calls for a destination agree on is stored there. -/
theorem foldl_update_of_mem (parse : CString → α) (h : (dst, value) ∈ calls)
    (hsame : ∀ value', (dst, value') ∈ calls → value' = value) (dsts : δ → α) :
    calls.foldl (fun dsts call => Function.update dsts call.1 (parse call.2)) dsts dst =
      parse value := by
  induction calls generalizing dsts with
  | nil => exact absurd h List.not_mem_nil
  | cons call calls ih =>
      rw [List.foldl_cons]
      by_cases hlater : (dst, value) ∈ calls
      · exact ih hlater (fun value' hmem => hsame value' (List.mem_cons_of_mem _ hmem)) _
      · obtain rfl := (List.mem_cons.mp h).resolve_right hlater
        rw [foldl_update_of_notMem parse, Function.update_self]
        intro hmem
        obtain ⟨⟨dst', value'⟩, hcall, rfl⟩ := List.mem_map.mp hmem
        rw [hsame value' (List.mem_cons_of_mem _ hcall)] at hcall
        exact hlater hcall

end

end XMonitor
