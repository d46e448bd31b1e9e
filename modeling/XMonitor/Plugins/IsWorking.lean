import XMonitor.Lib.EventRun
import XMonitor.Plugins.Invariant

/-!
# What `is_working` says about a worker

The scanner sets `is_working` after it has created the worker, and the worker resets it in its
cleanup. The flag tells the truth between the files as long as no worker runs its cleanup before
the scanner has set it: then a plugin whose worker has ended is started again by the next scan.

A worker that ends between `pthread_create` and the assignment of the scanner leaves an entry
that is taken for a running plugin from then on.
-/

namespace XMonitor.PluginsD

open SinglyLinked (data)

variable {s : State} {as : List Nat}

/-- In every step of a run a worker runs its cleanup in time. -/
def CleansInTime (s : Option State) (e : Event) : Prop := ∀ t ∈ s, t.InTime e

instance (s : State) (e : Event) : Decidable (s.InTime e) :=
  match e with
  | .worker t .cleanup =>
      inferInstanceAs (Decidable (∀ w ∈ s.workers[t]?, w.phase = .leaving → _))
  | .worker _ (.popen _) => .isTrue trivial
  | .worker _ .childExit => .isTrue trivial
  | .worker _ (.readEnable _) => .isTrue trivial
  | .scan _ => .isTrue trivial
  | .link => .isTrue trivial
  | .setWorking => .isTrue trivial

instance (s : Option State) (e : Event) : Decidable (CleansInTime s e) :=
  inferInstanceAs (Decidable (∀ t ∈ s, t.InTime e))

/-- The flag of every entry says whether its worker has run its cleanup. -/
def State.Truthful (s : State) : Prop :=
  ∀ a ep, data s.cells a = some ep →
    ∃ w, s.workers[ep.threadId]? = some w ∧ (ep.isWorking = true ↔ w.phase ≠ .ended)

/-- The scan of a file starts a worker if the workers of its entries have ended. -/
def State.Restarts (s : State) : Prop :=
  ∀ entry : DirEntry, isPlugin entry.dName → entry.enabled → entry.accessible → entry.created →
    s.Allows (.scan entry) →
    (∀ a ep w, s.Listed a → data s.cells a = some ep → ep.fileName = entry.dName →
      s.workers[ep.threadId]? = some w → w.phase = .ended) →
    ∃ s', s.scan entry = some s' ∧ s'.scanner = .created entry.fresh ∧
      s'.workers = s.workers ++ [{ ep := entry.fresh, phase := .starting }] ∧
      data s'.cells entry.fresh = some (newExternalPlugin entry s.workers.length)

theorem State.Inv.truthful (h : s.Inv as) (hidle : s.scanner = .idle) : s.Truthful := by
  intro a ep hep
  obtain ⟨w, hw, -, hflag⟩ := h.entry_idle hidle hep
  exact ⟨w, hw, hflag⟩

theorem State.Inv.restarts (h : s.Inv as) (hidle : s.scanner = .idle) : s.Restarts := by
  intro entry hplugin henabled haccessible hcreated hallows hended
  have hok : (entry.accessible && entry.created) = true := by rw [haccessible, hcreated]; rfl
  have hstarts : ∀ s', s'.workers = s.workers → s.lookup entry.dName = some (.notRunning s') →
      ∃ s'', s.scan entry = some s'' ∧ s''.scanner = .created entry.fresh ∧
        s''.workers = s.workers ++ [{ ep := entry.fresh, phase := .starting }] ∧
        data s''.cells entry.fresh = some (newExternalPlugin entry s.workers.length) := by
    intro s' hworkers hlookup
    refine ⟨s'.create entry, ?_, ?_, ?_, ?_⟩
    · rw [State.scan_eq hidle hplugin henabled, hlookup]
      rfl
    · rw [State.create_eq hok]
    · rw [State.create_eq hok, hworkers]
    · rw [State.data_create hok, Function.update_self, hworkers]
  obtain ⟨-, a, ha, ep, hep, hname, hon⟩ | ⟨hlookup, -⟩ | ⟨s', _, _, _, hlookup, -, htaken, -⟩ :=
    h.lookup hidle entry.dName
  · obtain ⟨w, hw, -, hflag⟩ := h.entry_idle hidle hep
    exact absurd (hended a ep w (h.listed_iff.mpr ha) hep hname hw) (hflag.mp hon)
  · exact hstarts s rfl hlookup
  · exact hstarts s' htaken.workers hlookup

/-- In every state of a run whose workers run their cleanup in time, in which the scanner is
between the files, `is_working` tells the truth, and a plugin whose worker has ended is started
again. -/
theorem is_working_truthful (es past : List Event)
    (hes : EventRun.AllSteps step (fun s e => Allowed s e ∧ CleansInTime s e) (some .init) es)
    (hpast : past <+: es) :
    ∃ s, past.foldl step (some .init) = some s ∧
      (s.scanner = .idle → s.Truthful ∧ s.Restarts) := by
  have hkeep : ∀ (s : Option State) e, (∃ t, s = some t ∧ ∃ as, t.Inv as) →
      Allowed s e ∧ CleansInTime s e → ∃ t, step s e = some t ∧ ∃ as, t.Inv as := by
    rintro - e ⟨s, rfl, as, hinv⟩ ⟨hallowed, htime⟩
    obtain ⟨s', as', hs', hinv'⟩ := hinv.next (hallowed s rfl) (htime s rfl)
    exact ⟨s', hs', as', hinv'⟩
  obtain ⟨s, hs, as, hinv⟩ := EventRun.foldl_invariant
    (I := fun s : Option State => ∃ t, s = some t ∧ ∃ as, t.Inv as) hkeep
    ⟨.init, rfl, [], inv_init⟩ hes hpast
  exact ⟨s, hs, fun hidle => ⟨hinv.truthful hidle, hinv.restarts hidle⟩⟩

/-- The plugin ends in time and is started again. -/
theorem is_working_truthful_restart :
    ∃ s, [Event.scan (enabledFile 'a' 1), .link, .setWorking, .worker 0 (.popen none),
        .worker 0 .cleanup].foldl step (some .init) = some s ∧
      (s.scanner = .idle → s.Truthful ∧ s.Restarts) :=
  is_working_truthful
    [.scan (enabledFile 'a' 1), .link, .setWorking, .worker 0 (.popen none), .worker 0 .cleanup,
      .scan (enabledFile 'a' 1)]
    _ (by decide) ⟨[_], rfl⟩

/-- The plugin does not start, and its worker ends before the scanner sets `is_working`. The
file then counts as running for ever. -/
theorem is_working_left_behind :
    EventRun.AllSteps step Allowed (some .init)
        [.scan (enabledFile 'a' 1), .worker 0 (.popen none), .worker 0 .cleanup, .link,
          .setWorking] ∧
      ∃ s, [Event.scan (enabledFile 'a' 1), .worker 0 (.popen none), .worker 0 .cleanup, .link,
          .setWorking].foldl step (some .init) = some s ∧
        s.scanner = .idle ∧ ¬s.Truthful ∧ ¬s.Restarts := by
  refine ⟨by decide, _, rfl, rfl, fun htruthful => ?_, fun hrestarts => ?_⟩
  · obtain ⟨w, hw, hflag⟩ := htruthful 1 _ rfl
    obtain rfl := Option.some.inj hw
    exact hflag.mp rfl rfl
  · obtain ⟨s', hs', hcreated, -⟩ := hrestarts (enabledFile 'a' 2) rfl rfl rfl rfl (by decide)
      fun a ep w _ _ _ hw => by
        rw [List.mem_singleton.mp (List.mem_of_getElem? hw)]
    obtain rfl := Option.some.inj hs'
    cases hcreated

end XMonitor.PluginsD
