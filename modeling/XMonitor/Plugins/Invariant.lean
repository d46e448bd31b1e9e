import Mathlib.Data.List.Perm.Subperm
import XMonitor.Plugins.PluginsD

/-!
# Entries and workers

`State.Inv` says that every entry belongs to a worker, that a worker that has not ended has its
entry, and that the flag `is_working` of an entry says whether its worker has ended, but for the
entry that the scanner is about to set it for. Every step keeps it as long as no worker runs its
cleanup before the scanner has set the flag.

The invariant does not say which entries are in the list at `external_plugins_root`. When the
scanner takes out the first entry of the list it forgets the others.
-/

namespace XMonitor.PluginsD

open SinglyLinked

/-! ## The invariant -/

/-- The entry whose worker has been created, while `is_working` is not set. -/
def Scanner.pending : Scanner → Option Nat
  | .idle => none
  | .created ep => some ep
  | .linked ep => some ep

/-- The flag says whether the worker has ended, and the worker of the pending entry has not. -/
def State.FlagRight (s : State) (a : Nat) (ep : ExternalPlugin) (phase : Phase) : Prop :=
  if s.scanner.pending = some a then phase ≠ .ended else (ep.isWorking = true ↔ phase ≠ .ended)

/-- What holds in every state of a run. The list at `external_plugins_root` is that of the
entries at some addresses. -/
structure State.Inv (s : State) (as : List Nat) : Prop where
  list : IsList s.cells s.externalPluginsRoot as
  entry : ∀ a ep, data s.cells a = some ep →
    ∃ w, s.workers[ep.threadId]? = some w ∧ w.ep = a ∧ s.FlagRight a ep w.phase
  live : ∀ t w, s.workers[t]? = some w → w.phase ≠ .ended →
    ∃ ep, data s.cells w.ep = some ep ∧ ep.threadId = t
  pending : ∀ a, s.scanner.pending = some a → ∃ ep, data s.cells a = some ep
  created : ∀ a, s.scanner = .created a → a ∉ as ∧ SinglyLinked.link s.cells a = some none

variable {s : State} {as : List Nat}

theorem inv_init : State.init.Inv [] where
  list := IsList.nil _
  entry := by
    intro a ep h
    exact absurd h.symm (Option.some_ne_none ep)
  live := by
    intro t w h
    exact absurd h.symm (Option.some_ne_none w)
  pending := by
    intro a h
    exact absurd h.symm (Option.some_ne_none a)
  created := by
    intro a h
    cases h

theorem State.Inv.entry_idle (h : s.Inv as) (hidle : s.scanner = .idle) {a : Nat}
    {ep : ExternalPlugin} (hep : data s.cells a = some ep) :
    ∃ w, s.workers[ep.threadId]? = some w ∧ w.ep = a ∧
      (ep.isWorking = true ↔ w.phase ≠ .ended) := by
  obtain ⟨w, hw, ha, hflag⟩ := h.entry a ep hep
  refine ⟨w, hw, ha, ?_⟩
  rw [State.FlagRight, hidle] at hflag
  exact hflag

/-- The entry of a worker that has not ended is marked as working. -/
theorem State.Inv.ep_ne (h : s.Inv as) (hidle : s.scanner = .idle) {a : Nat}
    {ep : ExternalPlugin} (hep : data s.cells a = some ep) (hoff : ep.isWorking = false) {t : Nat}
    {w : Worker} (hw : s.workers[t]? = some w) (hlive : w.phase ≠ .ended) : w.ep ≠ a := by
  rintro rfl
  obtain ⟨e, he, ht⟩ := h.live t w hw hlive
  obtain ⟨w', hw', -, hflag⟩ := h.entry_idle hidle hep
  obtain rfl := Option.some.inj (hep.symm.trans he)
  obtain rfl := Option.some.inj (hw.symm.trans (ht ▸ hw'))
  exact absurd (hoff.symm.trans (hflag.mpr hlive)) Bool.false_ne_true

/-- The search for an entry has enough steps. -/
theorem State.Inv.length_le (h : s.Inv as) : as.length ≤ s.workers.length := by
  have hsub : as ⊆ s.workers.map Worker.ep := by
    intro a ha
    obtain ⟨ep, hep⟩ := h.list.segment.exists_data ha
    obtain ⟨w, hw, rfl, -⟩ := h.entry a ep hep
    exact List.mem_map_of_mem (List.mem_of_getElem? hw)
  have hle := (List.subperm_of_subset h.list.nodup hsub).length_le
  rwa [List.length_map] at hle

/-- An entry is in the list at `external_plugins_root`. -/
def State.Listed (s : State) (a : Nat) : Prop :=
  ∃ as, IsList s.cells s.externalPluginsRoot as ∧ a ∈ as

theorem State.Inv.listed_iff (h : s.Inv as) {a : Nat} : s.Listed a ↔ a ∈ as := by
  constructor
  · rintro ⟨as', hlist, ha⟩
    rwa [h.list.unique hlist]
  · exact fun ha => ⟨as, h.list, ha⟩

/-! ## The steps of a worker -/

/-- A step keeps the name and the thread of the entry. It resets `is_working` when the worker
ends, and keeps it otherwise. -/
theorem externalPluginThreadWorker_spec {phase : Phase} (hlive : phase ≠ .ended)
    (ep : ExternalPlugin) (e : WorkerEvent) :
    ∃ phase' ep', externalPluginThreadWorker phase ep e = (phase', ep') ∧
      ep'.threadId = ep.threadId ∧ ep'.fileName = ep.fileName ∧
      (phase' = .ended ∧ ep'.isWorking = false ∧ phase = .leaving ∧ e = .cleanup ∨
        phase' ≠ .ended ∧ ep'.isWorking = ep.isWorking) := by
  cases e with
  | popen child =>
      by_cases hphase : phase = .starting
      · by_cases hexit : ep.exitFlag = true
        · exact ⟨.leaving, ep, (if_pos hphase).trans (if_pos hexit), rfl, rfl,
            .inr ⟨by decide, rfl⟩⟩
        · cases child with
          | none =>
              exact ⟨.leaving, ep, (if_pos hphase).trans (if_neg hexit), rfl, rfl,
                .inr ⟨by decide, rfl⟩⟩
          | some pid =>
              exact ⟨.reading, { ep with childPid := pid }, (if_pos hphase).trans (if_neg hexit),
                rfl, rfl, .inr ⟨by decide, rfl⟩⟩
      · exact ⟨phase, ep, if_neg hphase, rfl, rfl, .inr ⟨hlive, rfl⟩⟩
  | childExit =>
      by_cases hphase : phase = .reading
      · exact ⟨.closed, { ep with childPid := 0 }, if_pos hphase, rfl, rfl, .inr ⟨by decide, rfl⟩⟩
      · exact ⟨phase, ep, if_neg hphase, rfl, rfl, .inr ⟨hlive, rfl⟩⟩
  | readEnable enable =>
      by_cases hphase : phase = .closed
      · refine ⟨if enable then .starting else .leaving, { ep with enabled := enable },
          if_pos hphase, rfl, rfl, .inr ⟨?_, rfl⟩⟩
        cases enable <;> decide
      · exact ⟨phase, ep, if_neg hphase, rfl, rfl, .inr ⟨hlive, rfl⟩⟩
  | cleanup =>
      by_cases hphase : phase = .leaving
      · exact ⟨.ended, externalPluginThreadCleanup ep, if_pos hphase, rfl, rfl,
          .inl ⟨rfl, rfl, hphase, rfl⟩⟩
      · exact ⟨phase, ep, if_neg hphase, rfl, rfl, .inr ⟨hlive, rfl⟩⟩

/-- A worker changes its entry and its phase. -/
theorem State.Inv.setWorker (h : s.Inv as) {t : Nat} {w : Worker}
    (hw : s.workers[t]? = some w) {ep ep' : ExternalPlugin} (hep : data s.cells w.ep = some ep)
    (ht : ep.threadId = t) {phase : Phase} (hid : ep'.threadId = ep.threadId)
    (hflag : s.FlagRight w.ep ep' phase) :
    ∃ cells, setData s.cells w.ep ep' = some cells ∧
      data cells = Function.update (data s.cells) w.ep (some ep') ∧
      State.Inv { s with cells, workers := s.workers.set t { w with phase } } as := by
  obtain ⟨cells, hset, hlink, hdata⟩ := setData_eq hep ep'
  have hlt : t < s.workers.length := (List.getElem?_eq_some_iff.mp hw).1
  refine ⟨cells, hset, hdata, h.list.congr fun a _ => by rw [hlink], ?_, ?_, ?_, ?_⟩
  · intro a e he
    rw [hdata] at he
    by_cases ha : a = w.ep
    · subst ha
      rw [Function.update_self] at he
      obtain rfl := Option.some.inj he
      refine ⟨{ w with phase }, ?_, rfl, hflag⟩
      rw [hid, ht]
      exact List.getElem?_set_self hlt
    · rw [Function.update_of_ne ha] at he
      obtain ⟨w', hw', hw'a, hflag'⟩ := h.entry a e he
      refine ⟨w', ?_, hw'a, hflag'⟩
      have hne : t ≠ e.threadId := by
        rintro rfl
        obtain rfl : w = w' := Option.some.inj (hw.symm.trans hw')
        exact ha hw'a.symm
      exact (List.getElem?_set_ne hne).trans hw'
  · intro t' w' hw' hlive'
    change (s.workers.set t { w with phase })[t']? = some w' at hw'
    change ∃ e, data cells w'.ep = some e ∧ e.threadId = t'
    rw [hdata]
    by_cases htt : t = t'
    · subst htt
      rw [List.getElem?_set_self hlt] at hw'
      obtain rfl := Option.some.inj hw'
      exact ⟨ep', Function.update_self _ _ _, hid.trans ht⟩
    · rw [List.getElem?_set_ne htt] at hw'
      obtain ⟨e, he, het⟩ := h.live t' w' hw' hlive'
      refine ⟨e, ?_, het⟩
      have hne : w'.ep ≠ w.ep := by
        intro heq
        rw [heq, hep] at he
        obtain rfl := Option.some.inj he
        exact htt (ht.symm.trans het)
      exact (Function.update_of_ne hne _ _).trans he
  · intro a ha
    change ∃ e, data cells a = some e
    rw [hdata]
    by_cases haw : a = w.ep
    · exact ⟨ep', by rw [haw, Function.update_self]⟩
    · rw [Function.update_of_ne haw]
      exact h.pending a ha
  · intro a ha
    change a ∉ as ∧ SinglyLinked.link cells a = some none
    rw [hlink]
    exact h.created a ha

/-- No worker runs its cleanup while the scanner has not yet set `is_working` for its entry. -/
def State.InTime (s : State) : Event → Prop
  | .worker t .cleanup =>
      ∀ w ∈ s.workers[t]?, w.phase = .leaving → s.scanner.pending ≠ some w.ep
  | _ => True

/-- What a step of a worker leaves as it is. No worker comes to life. -/
structure State.Keeps (s s' : State) : Prop where
  root : s'.externalPluginsRoot = s.externalPluginsRoot
  scanner : s'.scanner = s.scanner
  fileName : ∀ a, (data s'.cells a).map ExternalPlugin.fileName =
    (data s.cells a).map ExternalPlugin.fileName
  live : ∀ (t : Nat) w', s'.workers[t]? = some w' → w'.phase ≠ .ended →
    ∃ w, s.workers[t]? = some w ∧ w.ep = w'.ep ∧ w.phase ≠ .ended

theorem State.Keeps.refl (s : State) : s.Keeps s where
  root := rfl
  scanner := rfl
  fileName := fun _ => rfl
  live := fun _ w hw hlive => ⟨w, hw, rfl, hlive⟩

theorem State.keeps_setWorker {t : Nat} {w : Worker} (hw : s.workers[t]? = some w)
    (hlive : w.phase ≠ .ended) {ep ep' : ExternalPlugin} (hep : data s.cells w.ep = some ep)
    (hname : ep'.fileName = ep.fileName) {cells : Memory ExternalPlugin}
    (hdata : data cells = Function.update (data s.cells) w.ep (some ep')) (phase : Phase) :
    s.Keeps { s with cells, workers := s.workers.set t { w with phase } } where
  root := rfl
  scanner := rfl
  fileName := by
    intro a
    change (data cells a).map _ = _
    rw [hdata]
    by_cases ha : a = w.ep
    · rw [ha, Function.update_self, hep, Option.map_some, Option.map_some, hname]
    · rw [Function.update_of_ne ha]
  live := by
    intro t' w' hw' hlive'
    change (s.workers.set t { w with phase })[t']? = some w' at hw'
    by_cases htt : t = t'
    · subst htt
      rw [List.getElem?_set_self (List.getElem?_eq_some_iff.mp hw).1] at hw'
      obtain rfl := Option.some.inj hw'
      exact ⟨w, hw, rfl, hlive⟩
    · rw [List.getElem?_set_ne htt] at hw'
      exact ⟨w', hw', rfl, hlive'⟩

/-- Every step of a worker. -/
theorem State.Inv.work (h : s.Inv as) {t : Nat} {e : WorkerEvent}
    (htime : s.InTime (.worker t e)) : ∃ s', s.work t e = some s' ∧ s'.Inv as ∧ s.Keeps s' := by
  rw [State.work]
  cases hw : s.workers[t]? with
  | none => exact ⟨s, rfl, h, .refl s⟩
  | some w =>
      by_cases hended : w.phase = .ended
      · exact ⟨s, if_pos hended, h, .refl s⟩
      · obtain ⟨ep, hep, ht⟩ := h.live t w hw hended
        obtain ⟨phase, ep', hstep, hid, hname, hflag⟩ :=
          externalPluginThreadWorker_spec hended ep e
        obtain ⟨w', hw', -, hright⟩ := h.entry w.ep ep hep
        obtain rfl : w = w' := Option.some.inj (hw.symm.trans (ht ▸ hw'))
        have hright' : s.FlagRight w.ep ep' phase := by
          rw [State.FlagRight] at hright ⊢
          obtain ⟨rfl, hoff, hleaving, rfl⟩ | ⟨hphase, hsame⟩ := hflag
          · rw [if_neg (htime w hw hleaving), hoff]
            simp
          · rw [hsame]
            split_ifs at hright ⊢ with hpending
            · exact hphase
            · exact hright.trans ⟨fun _ => hphase, fun _ => hended⟩
        obtain ⟨cells, hset, hdata, hinv⟩ := h.setWorker hw hep ht hid hright'
        obtain ⟨c, hc, rfl⟩ := exists_cell hep
        refine ⟨_, ?_, hinv, State.keeps_setWorker hw hended hep hname hdata phase⟩
        dsimp only
        rw [if_neg hended, hc, Option.bind_some, hstep]
        dsimp only
        rw [hset, Option.map_some]

/-! ## The search for an entry -/

/-- The entry of a worker that has ended is freed. -/
theorem State.Inv.free (h : s.Inv as) (hidle : s.scanner = .idle) {a : Nat} {ep : ExternalPlugin}
    (hep : data s.cells a = some ep) (hoff : ep.isWorking = false)
    {cells : Memory ExternalPlugin} (hdata : data cells = Function.update (data s.cells) a none)
    {root : Option Nat} {as' : List Nat} (hlist : IsList cells root as') :
    State.Inv { s with cells, externalPluginsRoot := root } as' where
  list := hlist
  entry := by
    intro b e he
    change data cells b = some e at he
    rw [hdata] at he
    have hne : b ≠ a := by
      rintro rfl
      rw [Function.update_self] at he
      cases he
    rw [Function.update_of_ne hne] at he
    exact h.entry b e he
  live := by
    intro t w hw hlive
    change ∃ e, data cells w.ep = some e ∧ e.threadId = t
    rw [hdata, Function.update_of_ne (h.ep_ne hidle hep hoff hw hlive)]
    exact h.live t w hw hlive
  pending := by
    intro b hb
    change s.scanner.pending = some b at hb
    rw [hidle] at hb
    cases hb
  created := by
    intro b hb
    change s.scanner = .created b at hb
    rw [hidle] at hb
    cases hb

/-- The entries in the list after the one behind some others is taken out. If there is no
other in front of it the scanner forgets the whole list. -/
def remaining : List Nat → List Nat → List Nat
  | [], _ => []
  | before, behind => before ++ behind

/-- No entry of the file is in the list. -/
def State.NoEntry (s : State) (as : List Nat) (dName : CString) : Prop :=
  ∀ a ∈ as, ∀ ep, data s.cells a = some ep → ep.fileName ≠ dName

/-- The first entry of the file is that of a worker that has ended, and it is taken out. -/
structure State.TakesOut (s s' : State) (dName : CString) (before : List Nat) (a : Nat)
    (behind : List Nat) : Prop where
  found : ∃ ep, data s.cells a = some ep ∧ ep.fileName = dName ∧ ep.isWorking = false
  before : s.NoEntry before dName
  data : data s'.cells = Function.update (data s.cells) a none
  workers : s'.workers = s.workers
  scanner : s'.scanner = s.scanner

theorem State.lookup_found {dName : CString} {prevEp : Option Nat} {a : Nat}
    {c : Cell ExternalPlugin}
    (hfind : find s.cells (fun ep => ep.fileName == dName) s.workers.length s.externalPluginsRoot
      s.externalPluginsRoot = some (prevEp, some a)) (hc : s.cells a = some c) :
    s.lookup dName =
      if c.data.isWorking then some .running
      else if prevEp ≠ some a then
        prevEp.bind fun prev =>
          (setNext s.cells prev c.next).map fun cells =>
            .notRunning { s with cells := Function.update cells a none }
      else
        some (.notRunning
          { s with
            cells := Function.update s.cells a none
            externalPluginsRoot := none }) := by
  rw [State.lookup, hfind, Option.bind_some]
  dsimp only
  rw [hc, Option.bind_some]

/-- What the search for the entry of a file leads to. -/
theorem State.Inv.lookup (h : s.Inv as) (hidle : s.scanner = .idle) (dName : CString) :
    (s.lookup dName = some .running ∧
      ∃ a ∈ as, ∃ ep, data s.cells a = some ep ∧ ep.fileName = dName ∧ ep.isWorking = true) ∨
    (s.lookup dName = some (.notRunning s) ∧ s.NoEntry as dName) ∨
    ∃ s' before a behind, s.lookup dName = some (.notRunning s') ∧
      as = before ++ a :: behind ∧ s.TakesOut s' dName before a behind ∧
      s'.Inv (remaining before behind) := by
  obtain ⟨prev, hfind, hnone⟩ | ⟨before, a, behind, ep, rfl, hep, htest, hbefore, hfind⟩ :=
    h.list.find (fun ep => ep.fileName == dName) h.length_le
  · refine .inr (.inl ⟨?_, fun a ha ep hep => ne_of_beq_false (hnone a ha ep hep)⟩)
    rw [State.lookup, hfind, Option.bind_some]
  · have hname : ep.fileName = dName := eq_of_beq htest
    have hno : s.NoEntry before dName := fun b hb e he => ne_of_beq_false (hbefore b hb e he)
    obtain ⟨c, hc, rfl⟩ := exists_cell hep
    have hlookup := State.lookup_found hfind hc
    cases hworking : c.data.isWorking with
    | true =>
        rw [if_pos hworking] at hlookup
        exact .inl ⟨hlookup, a, List.mem_append_right _ List.mem_cons_self, c.data, hep, hname,
          hworking⟩
    | false =>
        rw [if_neg (Bool.eq_false_iff.mp hworking)] at hlookup
        refine .inr (.inr ?_)
        obtain rfl | ⟨before, b, rfl⟩ := List.eq_nil_or_concat' before
        · obtain ⟨hroot, -⟩ := h.list.segment
          rw [hroot, List.getLast?_nil, Option.none_or, if_neg (not_not.mpr rfl)] at hlookup
          have hdata : data (Function.update s.cells a none) =
              Function.update (data s.cells) a none := data_update s.cells a none
          exact ⟨_, [], a, behind, hlookup, rfl, ⟨⟨c.data, hep, hname, hworking⟩, hno, hdata, rfl,
            rfl⟩, h.free hidle hep hworking hdata (IsList.nil _)⟩
        · -- The entry in front of the first one of the file is the one that was passed last.
          rw [List.getLast?_append, List.getLast?_singleton, Option.some_or, Option.some_or]
            at hlookup
          have hlist := h.list
          rw [← List.append_cons] at hlist
          obtain ⟨hne, cells, hset, hdata, hfree⟩ := hlist.remove hc
          rw [if_pos (fun heq => hne (Option.some.inj heq)), Option.bind_some, hset,
            Option.map_some] at hlookup
          have hdata' : data (Function.update cells a none) =
              Function.update (data s.cells) a none := by
            rw [data_update, hdata]
            rfl
          have hremaining : remaining (before ++ [b]) behind = before ++ b :: behind := by
            rw [remaining, ← List.append_cons]
            exact fun heq => List.append_ne_nil_of_right_ne_nil _ (List.cons_ne_nil b []) heq
          refine ⟨_, before ++ [b], a, behind, hlookup, rfl, ⟨⟨c.data, hep, hname, hworking⟩, hno,
            hdata', rfl, rfl⟩, ?_⟩
          rw [hremaining]
          exact h.free hidle hep hworking hdata' hfree

/-! ## The steps of the scanner -/

theorem data_none {cells : Memory ExternalPlugin} {a : Nat} (h : cells a = none) :
    data cells a = none := by
  rw [data, h]
  rfl

/-- A thread is an old one or the new one. -/
theorem getElem?_concat {workers : List Worker} {new w : Worker} {t : Nat}
    (h : (workers ++ [new])[t]? = some w) :
    workers[t]? = some w ∨ t = workers.length ∧ w = new := by
  obtain hlt | hge := Nat.lt_or_ge t workers.length
  · rw [List.getElem?_append_left hlt] at h
    exact .inl h
  · have hlt := (List.getElem?_eq_some_iff.mp h).1
    rw [List.length_append, List.length_singleton] at hlt
    obtain rfl : t = workers.length := by omega
    rw [List.getElem?_concat_length] at h
    exact .inr ⟨rfl, (Option.some.inj h).symm⟩

theorem State.create_eq {entry : DirEntry} (hok : (entry.accessible && entry.created) = true) :
    s.create entry =
      { s with
        cells := Function.update s.cells entry.fresh
          (some { next := none, data := newExternalPlugin entry s.workers.length })
        workers := s.workers ++ [{ ep := entry.fresh, phase := .starting }]
        scanner := .created entry.fresh } :=
  if_pos hok

theorem State.data_create {entry : DirEntry} (hok : (entry.accessible && entry.created) = true) :
    data (s.create entry).cells =
      Function.update (data s.cells) entry.fresh
        (some (newExternalPlugin entry s.workers.length)) := by
  rw [State.create_eq hok]
  exact data_update _ _ _

/-- A new entry and its worker. -/
theorem State.Inv.create (h : s.Inv as) (hidle : s.scanner = .idle) {entry : DirEntry}
    (hfresh : s.cells entry.fresh = none) : (s.create entry).Inv as := by
  cases hok : entry.accessible && entry.created with
  | false =>
      rw [State.create, if_neg (Bool.eq_false_iff.mp hok)]
      exact h
  | true =>
      have hdata := State.data_create (s := s) hok
      rw [State.create_eq hok] at hdata ⊢
      have hnot : entry.fresh ∉ as := by
        intro hmem
        obtain ⟨ep, hep⟩ := h.list.segment.exists_data hmem
        rw [data_none hfresh] at hep
        cases hep
      refine ⟨h.list.congr fun a ha => ?_, fun a e he => ?_, fun t w hw hlive => ?_,
        fun a ha => ?_, fun a ha => ?_⟩
      · rw [link_update]
        refine Function.update_of_ne ?_ _ _
        rintro rfl
        exact hnot ha
      · rw [hdata] at he
        by_cases ha : a = entry.fresh
        · subst ha
          rw [Function.update_self] at he
          obtain rfl := Option.some.inj he
          refine ⟨{ ep := entry.fresh, phase := .starting }, List.getElem?_concat_length, rfl, ?_⟩
          rw [State.FlagRight, Scanner.pending, if_pos rfl]
          exact Phase.noConfusion
        · rw [Function.update_of_ne ha] at he
          obtain ⟨w, hw, hwa, hflag⟩ := h.entry_idle hidle he
          refine ⟨w, ?_, hwa, ?_⟩
          · exact (List.getElem?_append_left (List.getElem?_eq_some_iff.mp hw).1).trans hw
          · rw [State.FlagRight, Scanner.pending, if_neg fun heq => ha (Option.some.inj heq).symm]
            exact hflag
      · rw [hdata]
        obtain hw | ⟨rfl, rfl⟩ := getElem?_concat hw
        · obtain ⟨ep, hep, ht⟩ := h.live t w hw hlive
          refine ⟨ep, ?_, ht⟩
          rw [Function.update_of_ne]
          · exact hep
          · intro heq
            rw [heq, data_none hfresh] at hep
            cases hep
        · exact ⟨_, Function.update_self _ _ _, rfl⟩
      · obtain rfl : entry.fresh = a := Option.some.inj ha
        rw [hdata]
        exact ⟨_, Function.update_self _ _ _⟩
      · obtain rfl : entry.fresh = a := Scanner.created.inj ha
        refine ⟨hnot, ?_⟩
        rw [link_update]
        exact Function.update_self _ _ _

theorem State.scan_eq {entry : DirEntry} (hidle : s.scanner = .idle)
    (hplugin : isPlugin entry.dName = true) (henabled : entry.enabled = true) :
    s.scan entry =
      (s.lookup entry.dName).map fun
        | .running => s
        | .notRunning s => s.create entry :=
  if_pos ⟨hidle, hplugin, henabled⟩

/-- The scanner reads an entry of the directory. -/
theorem State.Inv.scan (h : s.Inv as) {entry : DirEntry} (hallows : s.Allows (.scan entry)) :
    ∃ s' as', s.scan entry = some s' ∧ s'.Inv as' := by
  by_cases hstart : s.scanner = .idle ∧ isPlugin entry.dName ∧ entry.enabled
  · obtain ⟨hidle, hplugin, henabled⟩ := hstart
    rw [State.scan_eq hidle hplugin henabled]
    obtain ⟨hlookup, -⟩ | ⟨hlookup, -⟩ | ⟨s', before, a, behind, hlookup, -, htaken, hinv⟩ :=
      h.lookup hidle entry.dName
    · exact ⟨s, as, by rw [hlookup]; rfl, h⟩
    · exact ⟨s.create entry, as, by rw [hlookup]; rfl, h.create hidle (hallows _ hlookup)⟩
    · exact ⟨s'.create entry, _, by rw [hlookup]; rfl,
        hinv.create (htaken.scanner.trans hidle) (hallows _ hlookup)⟩
  · exact ⟨s, as, if_neg hstart, h⟩

/-- The scanner links the new entry. -/
theorem State.Inv.link (h : s.Inv as) {a : Nat} (hcreated : s.scanner = .created a) :
    ∃ s', s.link = some s' ∧ s'.Inv (a :: as) ∧ s'.scanner = .linked a ∧
      s'.workers = s.workers ∧ data s'.cells = data s.cells := by
  obtain ⟨hnot, hnull⟩ := h.created a hcreated
  obtain ⟨ep, hep⟩ := h.pending a (by rw [hcreated]; rfl)
  have hsame : s.scanner.pending = (Scanner.linked a).pending := by
    rw [hcreated]
    rfl
  have hkept : ∀ cells, data cells = data s.cells → IsList cells (some a) (a :: as) →
      State.Inv { s with cells, externalPluginsRoot := some a, scanner := .linked a }
        (a :: as) := by
    intro cells hdata hlist
    refine ⟨hlist, fun b e he => ?_, fun t w hw hlive => ?_, fun b hb => ?_, fun b hb => ?_⟩
    · rw [hdata] at he
      obtain ⟨w, hw, hwb, hflag⟩ := h.entry b e he
      refine ⟨w, hw, hwb, ?_⟩
      rw [State.FlagRight, hsame] at hflag
      exact hflag
    · rw [hdata]
      exact h.live t w hw hlive
    · rw [hdata]
      exact h.pending b (hsame.trans hb)
    · cases hb
  rw [State.link, hcreated]
  cases hroot : s.externalPluginsRoot with
  | none =>
      refine ⟨_, rfl, hkept s.cells rfl ?_, rfl, rfl, rfl⟩
      refine h.list.cons ?_ hnot
      rw [hroot]
      exact hnull
  | some root =>
      obtain ⟨cells, hset, hlink, hdata⟩ := setNext_eq hep (some root)
      refine ⟨_, by dsimp only; rw [hset, Option.map_some], hkept cells hdata ?_, rfl, rfl, hdata⟩
      have hlist := h.list
      rw [hroot] at hlist
      refine (hlist.congr fun b hb => ?_).cons ?_ hnot
      · rw [hlink]
        refine Function.update_of_ne ?_ _ _
        rintro rfl
        exact hnot hb
      · rw [hlink, Function.update_self]

/-- The scanner sets `is_working`, and is between the files again. -/
theorem State.Inv.setWorking (h : s.Inv as) {a : Nat} (hlinked : s.scanner = .linked a) :
    ∃ s' ep, data s.cells a = some ep ∧ s.setWorking = some s' ∧ s'.Inv as ∧
      s'.scanner = .idle ∧ s'.workers = s.workers ∧
      data s'.cells = Function.update (data s.cells) a (some { ep with isWorking := true }) := by
  have hpending : s.scanner.pending = some a := by
    rw [hlinked]
    rfl
  obtain ⟨ep, hep⟩ := h.pending a hpending
  obtain ⟨cells, hset, hlink, hdata⟩ := setData_eq hep { ep with isWorking := true }
  obtain ⟨c, hc, rfl⟩ := exists_cell hep
  have hinv : State.Inv { s with cells, scanner := .idle } as := by
    refine ⟨h.list.congr fun b _ => by rw [hlink], fun b e he => ?_, fun t w hw hlive => ?_,
      fun b hb => ?_, fun b hb => ?_⟩
    · rw [hdata] at he
      by_cases hb : b = a
      · subst hb
        rw [Function.update_self] at he
        obtain rfl := Option.some.inj he
        obtain ⟨w, hw, hwb, hflag⟩ := h.entry b c.data hep
        rw [State.FlagRight, if_pos hpending] at hflag
        exact ⟨w, hw, hwb, fun _ => hflag, fun _ => rfl⟩
      · rw [Function.update_of_ne hb] at he
        obtain ⟨w, hw, hwb, hflag⟩ := h.entry b e he
        refine ⟨w, hw, hwb, ?_⟩
        rw [State.FlagRight, hpending, if_neg fun heq => hb (Option.some.inj heq).symm] at hflag
        exact hflag
    · obtain ⟨e, he, ht⟩ := h.live t w hw hlive
      rw [hdata]
      by_cases hwa : w.ep = a
      · rw [hwa, hep] at he
        obtain rfl := Option.some.inj he
        rw [hwa, Function.update_self]
        exact ⟨_, rfl, ht⟩
      · rw [Function.update_of_ne hwa]
        exact ⟨e, he, ht⟩
    · cases hb
    · cases hb
  refine ⟨_, c.data, hep, ?_, hinv, rfl, rfl, hdata⟩
  rw [State.setWorking, hlinked]
  dsimp only
  rw [hc, Option.bind_some, hset, Option.map_some]

/-- Every step. -/
theorem State.Inv.next (h : s.Inv as) {e : Event} (hallows : s.Allows e) (htime : s.InTime e) :
    ∃ s' as', s.next e = some s' ∧ s'.Inv as' := by
  cases e with
  | scan entry => exact h.scan hallows
  | link =>
      cases hscanner : s.scanner with
      | created a =>
          obtain ⟨s', hs', hinv, -⟩ := h.link hscanner
          exact ⟨s', a :: as, hs', hinv⟩
      | idle => exact ⟨s, as, by rw [State.next, State.link, hscanner], h⟩
      | linked a => exact ⟨s, as, by rw [State.next, State.link, hscanner], h⟩
  | setWorking =>
      cases hscanner : s.scanner with
      | linked a =>
          obtain ⟨s', -, -, hs', hinv, -⟩ := h.setWorking hscanner
          exact ⟨s', as, hs', hinv⟩
      | idle => exact ⟨s, as, by rw [State.next, State.setWorking, hscanner], h⟩
      | created a => exact ⟨s, as, by rw [State.next, State.setWorking, hscanner], h⟩
  | worker t e =>
      obtain ⟨s', hs', hinv, -⟩ := h.work htime
      exact ⟨s', as, hs', hinv⟩

end XMonitor.PluginsD
