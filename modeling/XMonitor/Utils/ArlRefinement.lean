import XMonitor.Utils.ArlEarlyStop
import XMonitor.Utils.ArlSimulation

/-!
# The re-sortable list as a dictionary

To its callers the list is a dictionary from the expected keywords to their processors and
destinations. `arl_expect` adds to it, `arl_check` looks a keyword up, and no other call
changes it.

The list refines the dictionary as long as `arl_expect` is not called with the keyword of an
entry that is in the list. The list does not look for the keyword, and a second entry with
the name of a dynamic one would be found by some checks and missed by others.
-/

namespace XMonitor

open IntrusiveList

variable {δ π : Type}

/-- A call of a caller. -/
inductive ArlOp (δ π : Type)
  | expect (keyword : CString) (processor : Option π) (dst : Option δ)
  | begin
  | check (keyword value : CString)

/-- What a call leaves in memory, and which processor it calls. -/
def ArlHeap.step (h : ArlHeap δ π) : ArlOp δ π → Option (ArlHeap δ π × Option (ArlCall δ π))
  | .expect keyword processor dst => do
      let h ← h.expectCustom keyword processor dst
      some (h, none)
  | .begin => do
      let h ← h.begin
      some (h, none)
  | .check keyword value => do
      let (h, call, _) ← h.check keyword value
      some (h, call)

/-- A history of calls. -/
def ArlHeap.run :
    ArlHeap δ π → List (ArlOp δ π) → Option (ArlHeap δ π × List (Option (ArlCall δ π)))
  | h, [] => some (h, [])
  | h, op :: ops => do
      let (h, call) ← h.step op
      let (h, calls) ← h.run ops
      some (h, call :: calls)

/-! ## The dictionary -/

/-- The expected keywords, with what is called for them. -/
abbrev ArlDict (δ π : Type) := CString → Option (Option (π × δ))

/-- What a call does to the dictionary. -/
def ArlDict.step (default : π) (dict : ArlDict δ π) : ArlOp δ π → ArlDict δ π
  | .expect keyword processor dst =>
      Function.update dict keyword (some (dst.map fun dst => (processor.getD default, dst)))
  | .begin => dict
  | .check _ _ => dict

/-- The processor that is called with the value of a keyword. -/
def ArlDict.call (dict : ArlDict δ π) : ArlOp δ π → Option (ArlCall δ π)
  | .expect _ _ _ => none
  | .begin => none
  | .check keyword value =>
      (dict keyword).join.map fun target => arlCallOf keyword (target, value)

/-- The processors that are called in a history. -/
def ArlDict.calls (default : π) : ArlDict δ π → List (ArlOp δ π) → List (Option (ArlCall δ π))
  | _, [] => []
  | dict, op :: ops => dict.call op :: calls default (dict.step default op) ops

/-! ## Histories -/

/-- The keywords that are expected in a history. -/
def expectedKeywords (ops : List (ArlOp δ π)) : List CString :=
  ops.filterMap fun
    | .expect keyword _ _ => some keyword
    | _ => none

/-- An iteration is begun before a keyword is checked. -/
def BeginsFirst : List (ArlOp δ π) → Prop
  | [] => True
  | .expect _ _ _ :: ops => BeginsFirst ops
  | .begin :: _ => True
  | .check _ _ :: _ => False

/-- A keyword is new to the list when it is expected. -/
def ArlHeap.NewTo (h : ArlHeap δ π) : ArlOp δ π → Prop
  | .expect keyword _ _ => ∀ a c, h.cells a = some c → c.data.name ≠ keyword
  | _ => True

/-- Every keyword of a history is new to the list when it is expected. -/
def ArlHeap.AllNew : ArlHeap δ π → List (ArlOp δ π) → Prop
  | _, [] => True
  | h, op :: ops => h.NewTo op ∧ ∀ h' call, h.step op = some (h', call) → h'.AllNew ops

/-! ## One call -/

/-- The list has the entries of a dictionary, and no other entry has a destination. -/
structure ArlBase.Holds (base : ArlBase (π × δ)) (dict : ArlDict δ π) : Prop where
  distinct : base.Distinct
  entry : ∀ keyword target, dict keyword = some target →
    ∃ e ∈ base.entries, e.name = keyword ∧ e.dst = target ∧ e.kind = .expected
  only : ∀ e ∈ base.entries, ∀ target, e.dst = some target → dict e.name = some (some target)

variable {base : ArlBase (π × δ)} {dict : ArlDict δ π}

theorem ArlBase.Holds.of_keeps (h : base.Holds dict) {base' : ArlBase (π × δ)}
    (hkeeps : base.Keeps base')
    (honly : ∀ e' ∈ base'.entries, e'.dst = none ∨
      ∃ e ∈ base.entries, e'.name = e.name ∧ e'.dst = e.dst) : base'.Holds dict where
  distinct := hkeeps.distinct
  entry := by
    intro keyword target hdict
    obtain ⟨e, he, hname, hdst, hkind⟩ := h.entry keyword target hdict
    obtain ⟨e', he', hname', hdst', hkind'⟩ := hkeeps.kept e he hkind
    exact ⟨e', he', hname'.trans hname, hdst'.trans hdst, hkind'.trans hkind⟩
  only := by
    intro e' he' target htarget
    obtain hnone | ⟨e, he, hname, hdst⟩ := honly e' he'
    · rw [hnone] at htarget
      cases htarget
    · rw [hname]
      exact h.only e he target (hdst ▸ htarget)

theorem ArlBase.Holds.arlExpect (h : base.Holds dict) {keyword : CString}
    (hnew : keyword ∉ base.entries.map ArlEntry.name) (target : Option (π × δ)) :
    (arlExpect base keyword target).Holds (Function.update dict keyword (some target)) where
  distinct := List.nodup_cons.mpr ⟨hnew, h.distinct⟩
  entry := by
    intro keyword' target' hdict
    by_cases heq : keyword' = keyword
    · subst heq
      rw [Function.update_self] at hdict
      obtain rfl := Option.some.inj hdict
      exact ⟨_, List.mem_cons_self, rfl, rfl, rfl⟩
    · rw [Function.update_of_ne heq] at hdict
      obtain ⟨e, he, hview⟩ := h.entry keyword' target' hdict
      exact ⟨e, List.mem_cons_of_mem _ he, hview⟩
  only := by
    intro e he target' htarget
    obtain rfl | hold := List.mem_cons.mp he
    · change target = some target' at htarget
      rw [Function.update_self, htarget]
    · have hne : e.name ≠ keyword := fun heq => hnew (heq ▸ List.mem_map_of_mem hold)
      rw [Function.update_of_ne hne]
      exact h.only e hold target' htarget

theorem ArlBase.Holds.arlBegin (h : base.Holds dict) : (arlBegin base).Holds dict :=
  h.of_keeps h.distinct.keeps_arlBegin fun _ => exists_of_mem_arlBegin

theorem ArlBase.Holds.arlCheck (h : base.Holds dict) (keyword value : CString) :
    (arlCheck base keyword value).base.Holds dict :=
  h.of_keeps (h.distinct.keeps_arlCheck keyword value) fun _ => exists_of_mem_arlCheck

/-- The processor that is called is the one of the dictionary. -/
theorem ArlBase.Holds.call_arlCheck (h : base.Holds dict) (keyword value : CString) :
    (XMonitor.arlCheck base keyword value).call =
      (dict keyword).join.map fun target => (target, value) := by
  cases htarget : (dict keyword).join with
  | some target =>
      have hexpects : base.Expects [(keyword, target)] := by
        refine ⟨h.distinct, fun keyword' target' hmem => ?_⟩
        obtain ⟨rfl, rfl⟩ := Prod.mk.inj (List.mem_singleton.mp hmem)
        exact h.entry _ _ (Option.join_eq_some_iff.mp htarget)
      exact hexpects.call_arlCheck List.mem_cons_self value
  | none =>
      refine call_arlCheck_eq_none (fun e he hname => ?_) value
      cases hdst : e.dst with
      | none => rfl
      | some target =>
          rw [← hname, h.only e he target hdst] at htarget
          cases htarget

theorem arlBegin_entries_ne_nil (base : ArlBase (π × δ)) : (arlBegin base).entries ≠ [] := by
  rw [arlBegin_eq]
  change base.rechecked.nonempty.entries ≠ []
  rw [ArlBase.nonempty]
  split
  · exact List.cons_ne_nil _ _
  · assumption

theorem arlCheck_entries_ne_nil (hne : base.entries ≠ []) (keyword value : CString) :
    (arlCheck base keyword value).base.entries ≠ [] := by
  have linked (e : ArlEntry (π × δ)) (pointer : Option Nat) (entries : List (ArlEntry (π × δ))) :
      arlLink e pointer entries ≠ [] :=
    List.ne_nil_of_mem ((arlLink_perm e pointer entries).mem_iff.mpr List.mem_cons_self)
  obtain ⟨_, -, -, hcheck⟩ | ⟨_, -, -, hcheck⟩ | ⟨-, hcheck⟩ :=
    arlCheck_cases base keyword value
  · rw [hcheck]
    exact List.map_eq_nil_iff.not.mpr hne
  · rw [hcheck]
    exact linked _ _ _
  · rw [hcheck]
    exact linked _ _ _

/-- The list in memory is well formed and has the entries of a dictionary. -/
structure ArlHeap.Represents (h : ArlHeap δ π) (default : π) (dict : ArlDict δ π)
    (xs : List (Nat × ArlData δ π)) : Prop where
  stores : h.Stores xs
  points : h.Points xs
  processor : h.processor = default
  holds : (h.toBase xs).Holds dict

variable {h : ArlHeap δ π} {default : π} {xs : List (Nat × ArlData δ π)}

theorem ArlHeap.Stores.notMem_names (hs : h.Stores xs) {keyword : CString}
    {processor : Option π} {dst : Option δ} (hnew : h.NewTo (.expect keyword processor dst)) :
    keyword ∉ (h.toBase xs).entries.map ArlEntry.name := by
  intro hmem
  obtain ⟨e, he, hname⟩ := List.mem_map.mp hmem
  obtain ⟨x, hx, rfl⟩ := List.mem_map.mp he
  obtain ⟨before, behind, rfl⟩ := List.append_of_mem hx
  exact hnew x.1 _ hs.isList.segment.cell hname

/-- A call returns and does to the dictionary what it does to the list. -/
theorem ArlHeap.Represents.step (hr : h.Represents default dict xs) {op : ArlOp δ π}
    (hnew : h.NewTo op) (hne : xs = [] → BeginsFirst [op]) :
    ∃ h' xs', h.step op = some (h', dict.call op) ∧
      h'.Represents default (dict.step default op) xs' ∧ xs' ≠ [] := by
  obtain ⟨hs, hp, rfl, hholds⟩ := hr
  cases op with
  | expect keyword processor dst =>
      obtain ⟨h', xs', hexpect, hs', hp', hprocessor, hbase⟩ :=
        hs.expectCustom hp keyword processor dst
      refine ⟨h', xs', ?_, ⟨hs', hp', hprocessor, ?_⟩, ?_⟩
      · rw [ArlHeap.step, hexpect]
        rfl
      · rw [hbase]
        exact hholds.arlExpect (hs.notMem_names hnew) _
      · rintro rfl
        exact absurd (congrArg ArlBase.entries hbase) (List.cons_ne_nil _ _).symm
  | begin =>
      obtain ⟨h', xs', hbegin, hs', hp', hprocessor, hbase⟩ := hs.begin
      refine ⟨h', xs', ?_, ⟨hs', hp', hprocessor, ?_⟩, ?_⟩
      · rw [ArlHeap.step, hbegin]
        rfl
      · rw [hbase]
        exact hholds.arlBegin
      · rintro rfl
        exact arlBegin_entries_ne_nil _ (congrArg ArlBase.entries hbase).symm
  | check keyword value =>
      have hxs : xs ≠ [] := hne
      obtain ⟨h', xs', hcheck, hs', hp', hprocessor, hbase⟩ := hs.check hp hxs keyword value
      refine ⟨h', xs', ?_, ⟨hs', hp', hprocessor, ?_⟩, ?_⟩
      · rw [ArlHeap.step, hcheck, hholds.call_arlCheck, Option.map_map]
        rfl
      · rw [hbase]
        exact hholds.arlCheck keyword value
      · rintro rfl
        exact arlCheck_entries_ne_nil (List.map_eq_nil_iff.not.mpr hxs) keyword value
          (congrArg ArlBase.entries hbase).symm

/-! ## Histories of calls -/

/-- The dictionary after a history. -/
def ArlDict.run (default : π) (dict : ArlDict δ π) (ops : List (ArlOp δ π)) : ArlDict δ π :=
  ops.foldl (ArlDict.step default) dict

theorem ArlHeap.Represents.run (hr : h.Represents default dict xs) {ops : List (ArlOp δ π)}
    (hnew : h.AllNew ops) (hne : xs = [] → BeginsFirst ops) :
    ∃ h' xs', h.run ops = some (h', dict.calls default ops) ∧
      h'.Represents default (dict.run default ops) xs' := by
  induction ops generalizing h dict xs with
  | nil => exact ⟨h, xs, rfl, hr⟩
  | cons op ops ih =>
      obtain ⟨hop, hops⟩ := hnew
      have hfirst : xs = [] → BeginsFirst [op] := by
        intro hxs
        have hbegins := hne hxs
        cases op with
        | expect => exact trivial
        | begin => exact trivial
        | check => exact hbegins
      obtain ⟨h₁, xs₁, hstep, hr₁, hne₁⟩ := hr.step hop hfirst
      obtain ⟨h₂, xs₂, hrun, hr₂⟩ := ih hr₁ (hops h₁ _ hstep) fun hxs => absurd hxs hne₁
      refine ⟨h₂, xs₂, ?_, hr₂⟩
      rw [ArlHeap.run, hstep]
      change (h₁.run ops).bind _ = _
      rw [hrun]
      rfl

theorem create_represents (callbackStr2ull : π) (processor : Option π) (rechecks : Nat) :
    (ArlHeap.create callbackStr2ull processor rechecks : ArlHeap δ π).Represents
      (processor.getD callbackStr2ull) (fun _ => none) [] where
  stores := create_stores callbackStr2ull processor rechecks
  points hne := absurd rfl hne
  processor := rfl
  holds :=
    { distinct := List.nodup_nil
      entry := fun _ _ hdict => absurd hdict.symm (Option.some_ne_none _)
      only := fun _ he => absurd he List.not_mem_nil }

/-- The entries form a doubly linked list without a keyword twice, the pointer to the next
keyword points to one of them, and every expected keyword has its entry. -/
structure ArlHeap.Consistent (h : ArlHeap δ π) (dict : ArlDict δ π)
    (xs : List (Nat × ArlData δ π)) : Prop where
  isList : IsList h.cells h.head xs
  names : (xs.map fun x => x.2.name).Nodup
  next : xs ≠ [] → ∃ n ∈ addresses xs, h.nextKeyword = some n
  expected : ∀ keyword target, dict keyword = some target →
    ∃ x ∈ xs, x.2.name = keyword ∧ (toEntry x).dst = target ∧ x.2.kind = .expected
  length : h.allocated = h.fred + xs.length

theorem ArlHeap.Represents.consistent (hr : h.Represents default dict xs) :
    h.Consistent dict xs where
  isList := hr.stores.isList
  names := by
    have hdistinct := hr.holds.distinct
    rw [ArlBase.Distinct, ArlHeap.toBase, List.map_map] at hdistinct
    exact hdistinct
  next := hr.points
  expected := by
    intro keyword target hdict
    obtain ⟨e, he, hview⟩ := hr.holds.entry keyword target hdict
    obtain ⟨x, hx, rfl⟩ := List.mem_map.mp he
    exact ⟨x, hx, hview⟩
  length := hr.stores.count

theorem BeginsFirst.of_prefix {ops past : List (ArlOp δ π)} (hops : BeginsFirst ops)
    (hpast : past <+: ops) : BeginsFirst past := by
  induction past generalizing ops with
  | nil => trivial
  | cons op past ih =>
      obtain ⟨rest, rfl⟩ := hpast
      cases op with
      | expect =>
          have hrest : BeginsFirst (past ++ rest) := hops
          exact ih hrest (List.prefix_append past rest)
      | begin => trivial
      | check => exact hops

theorem ArlHeap.AllNew.of_prefix {ops past : List (ArlOp δ π)} (hops : h.AllNew ops)
    (hpast : past <+: ops) : h.AllNew past := by
  induction past generalizing h ops with
  | nil => trivial
  | cons op past ih =>
      obtain ⟨rest, rfl⟩ := hpast
      obtain ⟨hop, hrest⟩ := hops
      exact ⟨hop, fun h' call hstep => ih (hrest h' call hstep) (List.prefix_append past rest)⟩

/-! ## Keywords that are expected first -/

/-- Nothing is expected in a history. -/
theorem ArlHeap.allNew_of_expectedKeywords (h : ArlHeap δ π) {ops : List (ArlOp δ π)}
    (hops : expectedKeywords ops = []) : h.AllNew ops := by
  induction ops generalizing h with
  | nil => trivial
  | cons op ops ih =>
      cases op with
      | expect => exact absurd hops (List.cons_ne_nil _ _)
      | begin => exact ⟨trivial, fun h' _ _ => ih h' hops⟩
      | check => exact ⟨trivial, fun h' _ _ => ih h' hops⟩

/-- The program expects different keywords before it begins the first iteration. -/
theorem ArlHeap.Stores.allNew (hs : h.Stores xs) (hp : h.Points xs)
    (keywords : List (CString × Option π × Option δ)) (hdistinct : (keywords.map Prod.fst).Nodup)
    (hother : ∀ x ∈ xs, x.2.name ∉ keywords.map Prod.fst) {rest : List (ArlOp δ π)}
    (hrest : expectedKeywords rest = []) :
    h.AllNew (keywords.map (fun k => .expect k.1 k.2.1 k.2.2) ++ rest) := by
  induction keywords generalizing h xs with
  | nil => exact h.allNew_of_expectedKeywords hrest
  | cons k keywords ih =>
      obtain ⟨hk, hdistinct⟩ := List.nodup_cons.mp hdistinct
      refine ⟨fun a c hcell hname => ?_, fun h₁ call hstep => ?_⟩
      · by_cases ha : a ∈ addresses xs
        · obtain ⟨x, hx, rfl⟩ := List.mem_map.mp ha
          obtain ⟨before, behind, rfl⟩ := List.append_of_mem hx
          obtain rfl := Option.some.inj (hcell.symm.trans hs.isList.segment.cell)
          exact hother x hx (hname ▸ List.mem_cons_self)
        · rw [hs.live a ha] at hcell
          cases hcell
      · obtain ⟨h', xs', hexpect, hs', hp', -, hbase⟩ := hs.expectCustom hp k.1 k.2.1 k.2.2
        rw [ArlHeap.step, hexpect] at hstep
        obtain ⟨rfl, -⟩ := Prod.mk.inj (Option.some.inj hstep)
        refine ih hs' hp' hdistinct fun x hx hmem => ?_
        have hentry : toEntry x ∈ (h'.toBase xs').entries := List.mem_map_of_mem hx
        rw [hbase] at hentry
        obtain heq | hold := List.mem_cons.mp hentry
        · have hname : x.2.name = k.1 := congrArg ArlEntry.name heq
          exact hk (hname ▸ hmem)
        · obtain ⟨y, hy, heq⟩ := List.mem_map.mp hold
          have hname : y.2.name = x.2.name := congrArg ArlEntry.name heq
          exact hother y hy (hname ▸ List.mem_cons_of_mem _ hmem)

/-! ## The refinement -/

/-- At every time in a history the calls have returned, the processors have been called that
the dictionary says, and the list is consistent. -/
theorem list_refines_dictionary (callbackStr2ull : π) (processor : Option π) (rechecks : Nat)
    (ops : List (ArlOp δ π)) (hbegins : BeginsFirst ops)
    (hnew : (ArlHeap.create callbackStr2ull processor rechecks).AllNew ops)
    (past : List (ArlOp δ π)) (hpast : past <+: ops) :
    ∃ h xs,
      (ArlHeap.create callbackStr2ull processor rechecks).run past = some (h,
        ArlDict.calls (processor.getD callbackStr2ull) (fun _ => none) past) ∧
      h.Consistent (ArlDict.run (processor.getD callbackStr2ull) (fun _ => none) past) xs := by
  obtain ⟨h, xs, hrun, hr⟩ := (create_represents callbackStr2ull processor rechecks).run
    (hnew.of_prefix hpast) fun _ => hbegins.of_prefix hpast
  exact ⟨h, xs, hrun, hr.consistent⟩

/-- A keyword is checked first and expected later. -/
def lateExpect : List (ArlOp Unit Unit) :=
  [.expect ['a'] none none, .begin, .check ['x'] ['1'], .expect ['x'] none (some ()),
    .check ['a'] ['2'], .check ['x'] ['3'], .check ['x'] ['4']]

/-- The last check finds the entry that the first one created. -/
theorem lateExpect_not_called :
    (expectedKeywords lateExpect).Nodup ∧ BeginsFirst lateExpect ∧
      ((ArlHeap.create () none 60).run lateExpect).map Prod.snd ≠
        some (ArlDict.calls () (fun _ => none) lateExpect) :=
  ⟨by decide, trivial, by decide⟩

/-- A source whose keywords come in another order than they were expected. -/
def earlyExpect : List (ArlOp Unit Unit) :=
  [(['a'], none, some ()), (['b'], none, none)].map (fun k => .expect k.1 k.2.1 k.2.2) ++
    [.begin, .check ['x'] ['1'], .check ['b'] ['2'], .check ['a'] ['3'], .begin,
      .check ['a'] ['4'], .check ['x'] ['5']]

theorem earlyExpect_called :
    ∃ h xs, (ArlHeap.create () none 60).run earlyExpect = some (h,
        [none, none, none, none, none, some ⟨(), ['a'], simpleHash ['a'], ['3'], ()⟩, none,
          some ⟨(), ['a'], simpleHash ['a'], ['4'], ()⟩, none]) ∧
      h.Consistent (ArlDict.run () (fun _ => none) earlyExpect) xs :=
  list_refines_dictionary () none 60 earlyExpect trivial
    ((create_stores () none 60).allNew (fun hne => absurd rfl hne)
      [(['a'], none, some ()), (['b'], none, none)] (by decide)
      (fun _ hx => absurd hx List.not_mem_nil) rfl)
    earlyExpect (List.prefix_refl _)

end XMonitor
