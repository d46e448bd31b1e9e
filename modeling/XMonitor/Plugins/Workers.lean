import XMonitor.Lib.EventRun
import XMonitor.Plugins.Invariant

/-!
# Every worker has its entry in the list

`pluginsd_routine_stop` ends the workers whose entries are in the list at
`external_plugins_root`. `State.Whole` says that these are all workers that have not ended. It
holds in every state of a run as long as the scanner takes out the first entry of the list only
if there is no other: otherwise it sets the root to `NULL` and forgets the rest.

In the runs here the scanner deals with a file in one step. Then no worker ends before
`is_working` is set for it.
-/

namespace XMonitor.PluginsD

open SinglyLinked (IsList data setData_eq exists_cell link_update data_update)

/-! ## Passes -/

/-- The scanner deals with an entry of the directory, or a worker takes a step. -/
inductive Pass
  | file (entry : DirEntry)
  | worker (t : Nat) (e : WorkerEvent)

def Pass.events : Pass → List Event
  | .file entry => [.scan entry, .link, .setWorking]
  | .worker t e => [.worker t e]

def passStep (s : Option State) (p : Pass) : Option State := p.events.foldl step s

/-- `calloc` returns memory that is not in use. -/
def State.Permits (s : State) : Pass → Prop
  | .file entry => s.Allows (.scan entry)
  | .worker _ _ => True

def Permitted (s : Option State) (p : Pass) : Prop := ∀ t ∈ s, t.Permits p

/-- If the first entry of the list is that of the file and its worker has ended, there is no
other. -/
def State.HeadAlone (s : State) : Pass → Prop
  | .file entry =>
      isPlugin entry.dName → entry.enabled → ∀ a ∈ s.externalPluginsRoot, ∀ c ∈ s.cells a,
        c.data.fileName = entry.dName → c.data.isWorking = false → c.next = none
  | .worker _ _ => True

/-- The entries of the other files stay in the list. -/
def State.KeepsOthers (s : State) : Pass → Prop
  | .file entry =>
      ∀ s', passStep (some s) (.file entry) = some s' →
        ∀ a ep, s.Listed a → data s.cells a = some ep → ep.fileName ≠ entry.dName →
          s'.Listed a ∧ data s'.cells a = some ep
  | .worker _ _ => True

/-- No entry is forgotten in any step of a run. -/
def KeepsOthers (s : Option State) (p : Pass) : Prop := ∀ t ∈ s, t.KeepsOthers p

def HeadAlone (s : Option State) (p : Pass) : Prop := ∀ t ∈ s, t.HeadAlone p

instance (s : State) (p : Pass) : Decidable (s.Permits p) :=
  match p with
  | .file entry => inferInstanceAs (Decidable (s.Allows (.scan entry)))
  | .worker _ _ => .isTrue trivial

instance (s : State) (p : Pass) : Decidable (s.HeadAlone p) :=
  match p with
  | .file entry =>
      inferInstanceAs (Decidable (isPlugin entry.dName → entry.enabled →
        ∀ a ∈ s.externalPluginsRoot, ∀ c ∈ s.cells a,
          c.data.fileName = entry.dName → c.data.isWorking = false → c.next = none))
  | .worker _ _ => .isTrue trivial

instance (s : Option State) (p : Pass) : Decidable (Permitted s p) :=
  inferInstanceAs (Decidable (∀ t ∈ s, t.Permits p))

instance (s : Option State) (p : Pass) : Decidable (HeadAlone s p) :=
  inferInstanceAs (Decidable (∀ t ∈ s, t.HeadAlone p))

variable {s s' : State} {as : List Nat}

/-! ## The invariant -/

/-- Between the files, the entries of the list have different names, and no worker that has not
ended is without one. -/
structure State.Whole (s : State) (as : List Nat) : Prop where
  inv : s.Inv as
  idle : s.scanner = .idle
  names : ∀ a ∈ as, ∀ b ∈ as, ∀ x y, data s.cells a = some x → data s.cells b = some y →
    x.fileName = y.fileName → a = b
  listed : ∀ (t : Nat) w, s.workers[t]? = some w → w.phase ≠ .ended → w.ep ∈ as

theorem whole_init : State.init.Whole [] where
  inv := inv_init
  idle := rfl
  names := fun _ ha => absurd ha List.not_mem_nil
  listed := fun _ w hw => absurd hw.symm (Option.some_ne_none w)

/-- The steps of a worker. -/
theorem State.Whole.work (h : s.Whole as) (t : Nat) (e : WorkerEvent) :
    ∃ s', s.work t e = some s' ∧ s'.Whole as := by
  have htime : s.InTime (.worker t e) := by
    have hpending : ∀ a, s.scanner.pending ≠ some a := by
      rw [h.idle]
      exact fun a => Option.some_ne_none a ∘ Eq.symm
    cases e with
    | cleanup => exact fun w _ _ => hpending w.ep
    | popen child => trivial
    | childExit => trivial
    | readEnable enable => trivial
  obtain ⟨s', hs', hinv, hkeeps⟩ := h.inv.work htime
  have hname : ∀ a x, data s'.cells a = some x →
      ∃ y, data s.cells a = some y ∧ y.fileName = x.fileName := by
    intro a x hx
    have hsame := hkeeps.fileName a
    rw [hx, Option.map_some] at hsame
    exact Option.map_eq_some_iff.mp hsame.symm
  refine ⟨s', hs', hinv, hkeeps.scanner.trans h.idle, fun a ha b hb x y hx hy hxy => ?_,
    fun t w hw hlive => ?_⟩
  · obtain ⟨x', hx', hxx⟩ := hname a x hx
    obtain ⟨y', hy', hyy⟩ := hname b y hy
    exact h.names a ha b hb x' y' hx' hy' (hxx.trans (hxy.trans hyy.symm))
  · obtain ⟨w', hw', hep, hlive'⟩ := hkeeps.live t w hw hlive
    rw [← hep]
    exact h.listed t w' hw' hlive'

/-- An entry is taken out, and all others stay. -/
theorem State.Whole.takeOut {dName : CString} {before behind : List Nat} {a : Nat}
    (h : s.Whole (before ++ a :: behind)) (htaken : s.TakesOut s' dName before a behind)
    (hinv : s'.Inv (before ++ behind)) :
    s'.Whole (before ++ behind) ∧ s'.NoEntry (before ++ behind) dName := by
  obtain ⟨ep, hep, hname, hoff⟩ := htaken.found
  have hmem : ∀ b ∈ before ++ behind, b ∈ before ++ a :: behind ∧ b ≠ a := by
    intro b hb
    have hnodup := List.nodup_middle.mp h.inv.list.nodup
    refine ⟨List.mem_append.mpr ((List.mem_append.mp hb).imp_right (List.mem_cons_of_mem a)), ?_⟩
    rintro rfl
    exact (List.nodup_cons.mp hnodup).1 hb
  have hdata : ∀ b ≠ a, data s'.cells b = data s.cells b := by
    intro b hb
    rw [htaken.data, Function.update_of_ne hb]
  refine ⟨⟨hinv, htaken.scanner.trans h.idle, fun b hb c hc x y hx hy => ?_,
    fun t w hw hlive => ?_⟩, fun b hb x hx hxname => ?_⟩
  · obtain ⟨hb', hba⟩ := hmem b hb
    obtain ⟨hc', hca⟩ := hmem c hc
    rw [hdata b hba] at hx
    rw [hdata c hca] at hy
    exact h.names b hb' c hc' x y hx hy
  · rw [htaken.workers] at hw
    have hwa := h.inv.ep_ne h.idle hep hoff hw hlive
    obtain hin | hin := List.mem_append.mp (h.listed t w hw hlive)
    · exact List.mem_append_left behind hin
    · exact List.mem_append_right before ((List.mem_cons.mp hin).resolve_left hwa)
  · obtain ⟨hb', hba⟩ := hmem b hb
    rw [hdata b hba] at hx
    exact hba (h.names b hb' a (List.mem_append_right before List.mem_cons_self) x ep hx hep
      (hxname.trans hname.symm))

/-- Nothing is left to do if no worker has been created. -/
theorem foldl_idle (hidle : s.scanner = .idle) :
    [Event.link, .setWorking].foldl step (some s) = some s := by
  change (s.link).bind (fun s => s.setWorking) = some s
  rw [State.link, hidle]
  change s.setWorking = some s
  rw [State.setWorking, hidle]

/-- What is left to do for a file that is not running. -/
def State.start (s : State) (entry : DirEntry) : Option State :=
  [Event.link, .setWorking].foldl step (some (s.create entry))

/-- The new entry is the first one of the list. Nothing has happened if its creation failed. -/
theorem State.Inv.start (h : s.Inv as) (hidle : s.scanner = .idle) {entry : DirEntry}
    (hfresh : s.cells entry.fresh = none) :
    s.start entry = some s ∨
      ∃ s', s.start entry = some s' ∧ s'.Inv (entry.fresh :: as) ∧ s'.scanner = .idle ∧
        s'.workers = s.workers ++ [{ ep := entry.fresh, phase := .starting }] ∧
        data s'.cells = Function.update (data s.cells) entry.fresh
          (some { newExternalPlugin entry s.workers.length with isWorking := true }) := by
  have hinv := h.create hidle hfresh
  cases hok : entry.accessible && entry.created with
  | false =>
      have hsame : s.create entry = s := if_neg (Bool.eq_false_iff.mp hok)
      refine .inl ?_
      rw [State.start, hsame]
      exact foldl_idle hidle
  | true =>
      have hdata := State.data_create (s := s) hok
      have hscanner : (s.create entry).scanner = .created entry.fresh := by
        rw [State.create_eq hok]
      have hworkers : (s.create entry).workers =
          s.workers ++ [{ ep := entry.fresh, phase := .starting }] := by
        rw [State.create_eq hok]
      obtain ⟨s₁, hs₁, hinv₁, hscanner₁, hworkers₁, hdata₁⟩ := hinv.link hscanner
      obtain ⟨s₂, ep, hep, hs₂, hinv₂, hidle₂, hworkers₂, hdata₂⟩ := hinv₁.setWorking hscanner₁
      rw [hdata₁, hdata, Function.update_self] at hep
      obtain rfl := Option.some.inj hep
      refine .inr ⟨s₂, ?_, hinv₂, hidle₂, hworkers₂.trans (hworkers₁.trans hworkers), ?_⟩
      · change ((s.create entry).link).bind (fun s => s.setWorking) = some s₂
        rw [hs₁]
        exact hs₂
      · rw [hdata₂, hdata₁, hdata, Function.update_idem]

/-- A worker is started for a file without an entry. -/
theorem State.Whole.start (h : s.Whole as) {entry : DirEntry}
    (hnone : s.NoEntry as entry.dName) (hfresh : s.cells entry.fresh = none) :
    ∃ s' as', s.start entry = some s' ∧ s'.Whole as' ∧ as ⊆ as' ∧
      ∀ a ∈ as, data s'.cells a = data s.cells a := by
  obtain hstart | ⟨s', hstart, hinv, hidle, hworkers, hdata⟩ := h.inv.start h.idle hfresh
  · exact ⟨s, as, hstart, h, List.Subset.refl as, fun _ _ => rfl⟩
  · have hold : ∀ a ∈ as, data s'.cells a = data s.cells a := by
      intro a ha
      rw [hdata, Function.update_of_ne]
      rintro rfl
      exact (List.nodup_cons.mp hinv.list.nodup).1 ha
    have hname : ∀ x, data s'.cells entry.fresh = some x → x.fileName = entry.dName := by
      intro x hx
      rw [hdata, Function.update_self] at hx
      obtain rfl := Option.some.inj hx
      exact fileName_newExternalPlugin entry s.workers.length
    refine ⟨s', entry.fresh :: as, hstart, ⟨hinv, hidle, ?_, ?_⟩, List.subset_cons_self _ as, hold⟩
    · intro a ha b hb x y hx hy hxy
      obtain rfl | ha := List.mem_cons.mp ha
      · obtain rfl | hb := List.mem_cons.mp hb
        · rfl
        · rw [hold b hb] at hy
          exact absurd (hxy.symm.trans (hname x hx)) (hnone b hb y hy)
      · rw [hold a ha] at hx
        obtain rfl | hb := List.mem_cons.mp hb
        · exact absurd (hxy.trans (hname y hy)) (hnone a ha x hx)
        · rw [hold b hb] at hy
          exact h.names a ha b hb x y hx hy hxy
    · intro t w hw hlive
      rw [hworkers] at hw
      obtain hw | ⟨-, rfl⟩ := getElem?_concat hw
      · exact List.mem_cons_of_mem _ (h.listed t w hw hlive)
      · exact List.mem_cons_self

/-! ## The steps -/

theorem passStep_file {entry : DirEntry} {s₁ : State} (hscan : s.scan entry = some s₁) :
    passStep (some s) (.file entry) = [Event.link, .setWorking].foldl step (some s₁) := by
  rw [passStep, Pass.events, List.foldl_cons]
  congr 1

/-- An entry that is taken out in front of the list is the only one. -/
theorem eq_nil_of_headAlone (h : s.Whole as) {entry : DirEntry}
    (halone : s.HeadAlone (.file entry)) (hplugin : isPlugin entry.dName = true)
    (henabled : entry.enabled = true) {a : Nat} {behind : List Nat} (has : as = a :: behind)
    (htaken : s.TakesOut s' entry.dName [] a behind) : behind = [] := by
  subst has
  obtain ⟨ep, hep, hname, hoff⟩ := htaken.found
  obtain ⟨c, hc, rfl⟩ := exists_cell hep
  have hroot := h.inv.list.segment.1
  have hlist := h.inv.list
  rw [hroot] at hlist
  obtain ⟨rest, hrest, hbehind⟩ := hlist.exists_cons hc
  rw [halone hplugin henabled a hroot c hc hname hoff] at hbehind
  rw [(List.cons.inj hrest).2]
  exact hbehind.unique (IsList.nil _)

/-- The scanner deals with a file. The entries of the other files stay in the list. -/
theorem State.Whole.file (h : s.Whole as) {entry : DirEntry}
    (hallows : s.Allows (.scan entry)) (halone : s.HeadAlone (.file entry)) :
    ∃ s' as', passStep (some s) (.file entry) = some s' ∧ s'.Whole as' ∧
      ∀ a ∈ as, ∀ ep, data s.cells a = some ep → ep.fileName ≠ entry.dName →
        a ∈ as' ∧ data s'.cells a = some ep := by
  have hstay : passStep (some s) (.file entry) = some s →
      ∃ s' as', passStep (some s) (.file entry) = some s' ∧ s'.Whole as' ∧
        ∀ a ∈ as, ∀ ep, data s.cells a = some ep → ep.fileName ≠ entry.dName →
          a ∈ as' ∧ data s'.cells a = some ep :=
    fun hs => ⟨s, as, hs, h, fun a ha ep hep _ => ⟨ha, hep⟩⟩
  by_cases hstart : s.scanner = .idle ∧ isPlugin entry.dName ∧ entry.enabled
  · obtain ⟨-, hplugin, henabled⟩ := hstart
    have hscan := State.scan_eq h.idle hplugin henabled
    obtain ⟨hlookup, -⟩ | ⟨hlookup, hnone⟩ | ⟨s₁, before, a, behind, hlookup, has, htaken, hinv⟩ :=
      h.inv.lookup h.idle entry.dName
    · rw [hlookup] at hscan
      exact hstay ((passStep_file hscan).trans (foldl_idle h.idle))
    · rw [hlookup] at hscan
      obtain ⟨s', as', hs', hwhole, hsub, hdata⟩ := h.start hnone (hallows _ hlookup)
      refine ⟨s', as', (passStep_file hscan).trans hs', hwhole, fun b hb ep hep _ => ?_⟩
      exact ⟨hsub hb, (hdata b hb).trans hep⟩
    · rw [hlookup] at hscan
      have hremaining : remaining before behind = before ++ behind := by
        cases before with
        | nil =>
            rw [eq_nil_of_headAlone h halone hplugin henabled has htaken]
            rfl
        | cons b before => rfl
      rw [hremaining] at hinv
      subst has
      obtain ⟨hwhole₁, hnone⟩ := h.takeOut htaken hinv
      obtain ⟨s', as', hs', hwhole, hsub, hdata⟩ := hwhole₁.start hnone (hallows _ hlookup)
      refine ⟨s', as', (passStep_file hscan).trans hs', hwhole, fun b hb ep hep hne => ?_⟩
      obtain ⟨e, he, hname, -⟩ := htaken.found
      have hba : b ≠ a := by
        rintro rfl
        obtain rfl := Option.some.inj (hep.symm.trans he)
        exact hne hname
      have hb' : b ∈ before ++ behind := by
        obtain hin | hin := List.mem_append.mp hb
        · exact List.mem_append_left behind hin
        · exact List.mem_append_right before ((List.mem_cons.mp hin).resolve_left hba)
      refine ⟨hsub hb', (hdata b hb').trans ?_⟩
      rw [htaken.data, Function.update_of_ne hba]
      exact hep
  · exact hstay ((passStep_file (if_neg hstart)).trans (foldl_idle h.idle))

/-- All entries behind the first one are forgotten when that is taken out. -/
theorem State.Whole.forgets {a : Nat} {behind : List Nat} (h : s.Whole (a :: behind))
    {entry : DirEntry} (hallows : s.Allows (.scan entry)) (hplugin : isPlugin entry.dName = true)
    (henabled : entry.enabled = true) {ep : ExternalPlugin} (hep : data s.cells a = some ep)
    (hname : ep.fileName = entry.dName) (hoff : ep.isWorking = false) :
    ∃ s', passStep (some s) (.file entry) = some s' ∧ ∀ b ∈ behind, ¬s'.Listed b := by
  have hscan := State.scan_eq h.idle hplugin henabled
  obtain ⟨-, b, hb, eb, heb, hnameb, hon⟩ | ⟨-, hnone⟩ |
    ⟨s₁, before, b, rest, hlookup, has, htaken, hinv⟩ := h.inv.lookup h.idle entry.dName
  · obtain rfl := h.names b hb a List.mem_cons_self eb ep heb hep (hnameb.trans hname.symm)
    obtain rfl := Option.some.inj (hep.symm.trans heb)
    exact absurd (hoff.symm.trans hon) Bool.false_ne_true
  · exact absurd hname (hnone a List.mem_cons_self ep hep)
  · cases before with
    | cons c before =>
        obtain ⟨rfl, -⟩ := List.cons.inj has
        exact absurd hname (htaken.before a List.mem_cons_self ep hep)
    | nil =>
        obtain ⟨rfl, rfl⟩ := List.cons.inj has
        rw [hlookup] at hscan
        have hfresh : s₁.cells entry.fresh = none := hallows _ hlookup
        obtain hstart | ⟨s', hstart, hinv', -⟩ :=
          State.Inv.start hinv (htaken.scanner.trans h.idle) hfresh
        · refine ⟨s₁, (passStep_file hscan).trans hstart, fun b hb hlisted => ?_⟩
          exact absurd (hinv.listed_iff.mp hlisted) List.not_mem_nil
        · refine ⟨s', (passStep_file hscan).trans hstart, fun b hb hlisted => ?_⟩
          obtain rfl := List.mem_singleton.mp (hinv'.listed_iff.mp hlisted)
          obtain ⟨eb, heb⟩ := h.inv.list.segment.exists_data (List.mem_cons_of_mem a hb)
          have hne : entry.fresh ≠ a := by
            rintro heq
            exact (List.nodup_cons.mp h.inv.list.nodup).1 (heq ▸ hb)
          have hkept : data s₁.cells entry.fresh = some eb := by
            rw [htaken.data, Function.update_of_ne hne]
            exact heb
          rw [data_none hfresh] at hkept
          cases hkept

/-- The entries of the other files stay exactly if the first entry is not taken out of a longer
list. -/
theorem State.Whole.keepsOthers_iff (h : s.Whole as) {p : Pass} (hpermits : s.Permits p) :
    s.KeepsOthers p ↔ s.HeadAlone p := by
  cases p with
  | worker t e => exact Iff.rfl
  | file entry =>
      constructor
      · intro hkeeps hplugin henabled a hroot c hc hname hoff
        have hdata : data s.cells a = some c.data := by
          rw [data, hc]
          rfl
        have hlist := h.inv.list
        rw [hroot] at hlist
        obtain ⟨behind, rfl, hbehind⟩ := hlist.exists_cons hc
        obtain ⟨s', hs', hforgotten⟩ := h.forgets hpermits hplugin henabled hdata hname hoff
        cases behind with
        | nil => exact hbehind.segment
        | cons b rest =>
            -- The entry behind the first one is that of another file.
            have hb : b ∈ a :: b :: rest := List.mem_cons_of_mem a List.mem_cons_self
            obtain ⟨ep, hep⟩ := h.inv.list.segment.exists_data hb
            have hne : ep.fileName ≠ entry.dName := by
              intro heq
              obtain rfl := h.names b hb a List.mem_cons_self ep c.data hep hdata
                (heq.trans hname.symm)
              exact (List.nodup_cons.mp h.inv.list.nodup).1 List.mem_cons_self
            have hkept := hkeeps s' hs' b ep (h.inv.listed_iff.mpr hb) hep hne
            exact absurd hkept.1 (hforgotten b List.mem_cons_self)
      · intro halone s' hs' a ep hlisted hep hne
        obtain ⟨s₁, as₁, hs₁, hwhole, hothers⟩ := h.file hpermits halone
        obtain rfl := Option.some.inj (hs₁.symm.trans hs')
        obtain ⟨hmem, hdata⟩ := hothers a (h.inv.listed_iff.mp hlisted) ep hep hne
        exact ⟨hwhole.inv.listed_iff.mpr hmem, hdata⟩

theorem State.Whole.passStep (h : s.Whole as) {p : Pass} (hpermits : s.Permits p)
    (halone : s.HeadAlone p) : ∃ s' as', passStep (some s) p = some s' ∧ s'.Whole as' := by
  cases p with
  | file entry =>
      obtain ⟨s', as', hs', hwhole, -⟩ := h.file hpermits halone
      exact ⟨s', as', hs', hwhole⟩
  | worker t e =>
      obtain ⟨s', hs', hwhole⟩ := h.work t e
      exact ⟨s', as, hs', hwhole⟩

/-! ## The end -/

/-- The thread has ended when it is joined. -/
theorem State.cancelAndJoin_eq {t : Nat} {w : Worker} (hw : s.workers[t]? = some w)
    {ep : ExternalPlugin} (hep : data s.cells w.ep = some ep) :
    ∃ s' ep', s.cancelAndJoin t = some s' ∧ SinglyLinked.link s'.cells = SinglyLinked.link s.cells ∧
      data s'.cells = Function.update (data s.cells) w.ep (some ep') ∧
      s'.workers = s.workers.set t { w with phase := .ended } := by
  rw [State.cancelAndJoin, hw, Option.bind_some]
  by_cases hended : w.phase = .ended
  · refine ⟨s, ep, if_pos hended, rfl, ?_, ?_⟩
    · rw [← hep, Function.update_eq_self]
    · obtain ⟨hlt, rfl⟩ := List.getElem?_eq_some_iff.mp hw
      rw [← hended]
      exact (List.set_getElem_self hlt).symm
  · rw [if_neg hended]
    obtain ⟨cells, hset, hlink, hdata⟩ := setData_eq hep (externalPluginThreadCleanup ep)
    obtain ⟨c, hc, rfl⟩ := exists_cell hep
    refine ⟨{ s with cells, workers := s.workers.set t { w with phase := .ended } }, _, ?_, hlink,
      hdata, rfl⟩
    rw [hc, Option.bind_some, hset, Option.map_some]

/-- What holds in the loop of `pluginsd_routine_stop`: the entries that are left are those of
workers, and no worker without one of them has not ended. -/
structure State.Stopping (s : State) (p : Option Nat) (as : List Nat) : Prop where
  list : IsList s.cells p as
  entry : ∀ a ∈ as, ∃ ep w, data s.cells a = some ep ∧ s.workers[ep.threadId]? = some w ∧ w.ep = a
  live : ∀ (t : Nat) w, s.workers[t]? = some w → w.phase ≠ .ended →
    w.ep ∈ as ∧ ∃ ep, data s.cells w.ep = some ep ∧ ep.threadId = t

theorem State.Whole.stopping (h : s.Whole as) : s.Stopping s.externalPluginsRoot as where
  list := h.inv.list
  entry := by
    intro a ha
    obtain ⟨ep, hep⟩ := h.inv.list.segment.exists_data ha
    obtain ⟨w, hw, hwa, -⟩ := h.inv.entry a ep hep
    exact ⟨ep, w, hep, hw, hwa⟩
  live := fun t w hw hlive => ⟨h.listed t w hw hlive, h.inv.live t w hw hlive⟩

/-- The first worker is joined and its entry is freed. -/
theorem State.Stopping.join {p : Option Nat} {a : Nat} (h : s.Stopping p (a :: as)) :
    p = some a ∧ ∃ (s' : State) (r : Option Nat), s'.Stopping r as ∧
      ∀ n, s.stopLoop (n + 1) (some a) = s'.stopLoop n r := by
  obtain ⟨rfl, r, hr, hrest⟩ := h.list.segment
  obtain ⟨hnot, hnodup⟩ := List.nodup_cons.mp h.list.nodup
  obtain ⟨ep, w, hep, hw, rfl⟩ := h.entry a List.mem_cons_self
  obtain ⟨cells₁, hset, hlink₁, hdata₁⟩ := setData_eq hep { ep with exitFlag := true }
  have hep₁ : data cells₁ w.ep = some { ep with exitFlag := true } := by
    rw [hdata₁, Function.update_self]
  obtain ⟨s₂, ep₂, hjoin, hlink₂, hdata₂, hworkers⟩ :=
    State.cancelAndJoin_eq (s := { s with cells := cells₁ }) hw hep₁
  have hlink : SinglyLinked.link s₂.cells = SinglyLinked.link s.cells := hlink₂.trans hlink₁
  have hother : ∀ b ∈ as, b ≠ w.ep := by
    rintro b hb rfl
    exact hnot hb
  have hdata : ∀ b ∈ as, data (Function.update s₂.cells w.ep none) b = data s.cells b := by
    intro b hb
    have hne := hother b hb
    rw [data_update, Function.update_of_ne hne, hdata₂, Function.update_of_ne hne]
    change data cells₁ b = _
    rw [hdata₁, Function.update_of_ne hne]
  refine ⟨rfl, { s₂ with cells := Function.update s₂.cells w.ep none }, r,
    ⟨⟨hrest.congr fun b hb => ?_, hnodup⟩, fun b hb => ?_, fun t v hv hlive => ?_⟩, fun n => ?_⟩
  · rw [link_update, Function.update_of_ne (hother b hb), hlink]
  · obtain ⟨e, v, he, hv, rfl⟩ := h.entry b (List.mem_cons_of_mem _ hb)
    refine ⟨e, v, (hdata v.ep hb).trans he, ?_, rfl⟩
    change s₂.workers[e.threadId]? = some v
    rw [hworkers, List.getElem?_set_ne, hv]
    intro heq
    rw [← heq] at hv
    obtain rfl := Option.some.inj (hw.symm.trans hv)
    exact hnot hb
  · change s₂.workers[t]? = some v at hv
    rw [hworkers] at hv
    have htt : ep.threadId ≠ t := by
      rintro rfl
      rw [List.getElem?_set_self (List.getElem?_eq_some_iff.mp hw).1] at hv
      obtain rfl := Option.some.inj hv
      exact hlive rfl
    rw [List.getElem?_set_ne htt] at hv
    obtain ⟨hmem, e, he, ht⟩ := h.live t v hv hlive
    have hne : v.ep ≠ w.ep := by
      intro heq
      rw [heq, hep] at he
      obtain rfl := Option.some.inj he
      exact htt ht
    have hmem' := (List.mem_cons.mp hmem).resolve_left hne
    exact ⟨hmem', e, (hdata v.ep hmem').trans he, ht⟩
  · obtain ⟨c, hc, rfl⟩ := exists_cell hep
    obtain ⟨c₂, hc₂, hnext⟩ : ∃ c₂, s₂.cells w.ep = some c₂ ∧ c₂.next = r := by
      refine Option.map_eq_some_iff.mp ?_
      rw [← hr, ← hlink]
      rfl
    rw [State.stopLoop, hc, Option.bind_some, hset, Option.bind_some, hjoin, Option.bind_some,
      hc₂, Option.bind_some, hnext]

/-- The loop ends all workers. -/
theorem State.Stopping.stopLoop {p : Option Nat} (h : s.Stopping p as) {n : Nat}
    (hn : as.length ≤ n) :
    ∃ s', s.stopLoop n p = some s' ∧ ∀ w ∈ s'.workers, w.phase = .ended := by
  induction as generalizing s p n with
  | nil =>
      obtain rfl : p = none := h.list.segment
      refine ⟨s, by cases n <;> rfl, fun w hw => ?_⟩
      obtain ⟨t, ht⟩ := List.getElem?_of_mem hw
      by_contra hlive
      exact absurd (h.live t w ht hlive).1 List.not_mem_nil
  | cons a as ih =>
      obtain ⟨rfl, s₁, r, hstopping, hloop⟩ := h.join
      cases n with
      | zero => exact absurd hn (Nat.not_succ_le_zero _)
      | succ n =>
          obtain ⟨s', hs', hended⟩ := ih hstopping (Nat.le_of_succ_le_succ hn)
          exact ⟨s', (hloop n).trans hs', hended⟩

/-! ## Runs -/

/-- The list at `external_plugins_root` is acyclic, with one entry for every worker that has not
ended and at most one for a file, and `pluginsd_routine_stop` ends all workers. -/
def State.Complete (s : State) : Prop :=
  (∃ as, IsList s.cells s.externalPluginsRoot as) ∧
  (∀ (t : Nat) w, s.workers[t]? = some w → w.phase ≠ .ended →
    ∃! a, s.Listed a ∧ ∃ ep, data s.cells a = some ep ∧ ep.threadId = t) ∧
  (∀ a b x y, s.Listed a → s.Listed b → data s.cells a = some x → data s.cells b = some y →
    x.fileName = y.fileName → a = b) ∧
  ∃ s', pluginsdRoutineStop s = some s' ∧ ∀ w ∈ s'.workers, w.phase = .ended

theorem State.Whole.complete (h : s.Whole as) : s.Complete := by
  refine ⟨⟨as, h.inv.list⟩, fun t w hw hlive => ?_, fun a b x y ha hb => ?_,
    h.stopping.stopLoop h.inv.length_le⟩
  · obtain ⟨ep, hep, ht⟩ := h.inv.live t w hw hlive
    refine ⟨w.ep, ⟨h.inv.listed_iff.mpr (h.listed t w hw hlive), ep, hep, ht⟩, ?_⟩
    rintro a ⟨-, e, he, rfl⟩
    obtain ⟨w', hw', rfl, -⟩ := h.inv.entry a e he
    obtain rfl := Option.some.inj (hw.symm.trans hw')
    rfl
  · exact h.names a (h.inv.listed_iff.mp ha) b (h.inv.listed_iff.mp hb) x y

/-- A run keeps the entries of the other files exactly if the scanner never takes out the first
entry of a longer list, and then every state of the run is complete. -/
theorem no_worker_forgotten (passes : List Pass) :
    (EventRun.AllSteps passStep (fun s p => Permitted s p ∧ KeepsOthers s p) (some .init) passes ↔
      EventRun.AllSteps passStep (fun s p => Permitted s p ∧ HeadAlone s p) (some .init) passes) ∧
    (EventRun.AllSteps passStep (fun s p => Permitted s p ∧ HeadAlone s p) (some .init) passes →
      ∀ past, past <+: passes →
        ∃ s, past.foldl passStep (some .init) = some s ∧ s.Complete) := by
  have hinit : ∃ t, some State.init = some t ∧ ∃ as, t.Whole as := ⟨.init, rfl, [], whole_init⟩
  have hiff : ∀ (s : Option State) p, (∃ t, s = some t ∧ ∃ as, t.Whole as) →
      (Permitted s p ∧ KeepsOthers s p ↔ Permitted s p ∧ HeadAlone s p) := by
    rintro - p ⟨s, rfl, as, hwhole⟩
    refine and_congr_right fun hpermitted => ?_
    have hsame := hwhole.keepsOthers_iff (hpermitted s rfl)
    constructor
    · intro hkeeps t ht
      obtain rfl := Option.some.inj ht
      exact hsame.mp (hkeeps s rfl)
    · intro halone t ht
      obtain rfl := Option.some.inj ht
      exact hsame.mpr (halone s rfl)
  have hkeep : ∀ (s : Option State) p, (∃ t, s = some t ∧ ∃ as, t.Whole as) →
      Permitted s p ∧ HeadAlone s p → ∃ t, passStep s p = some t ∧ ∃ as, t.Whole as := by
    rintro - p ⟨s, rfl, as, hwhole⟩ ⟨hpermitted, halone⟩
    obtain ⟨s', as', hs', hwhole'⟩ := hwhole.passStep (hpermitted s rfl) (halone s rfl)
    exact ⟨s', hs', as', hwhole'⟩
  constructor
  · exact EventRun.allSteps_congr
      (fun s p hs hp => hkeep s p hs ((hiff s p hs).mp hp)) hiff hinit passes
  · intro hpasses past hpast
    obtain ⟨s, hs, as, hwhole⟩ := EventRun.foldl_invariant
      (I := fun s : Option State => ∃ t, s = some t ∧ ∃ as, t.Whole as) hkeep hinit hpasses hpast
    exact ⟨s, hs, hwhole.complete⟩

/-- The entry behind the first one is taken out, and the worker of the first one stays. -/
theorem no_worker_forgotten_behind :
    ∃ s, [Pass.file (enabledFile 'a' 1), .file (enabledFile 'b' 2), .worker 0 (.popen none),
        .worker 0 .cleanup, .file (enabledFile 'a' 1)].foldl passStep (some .init) = some s ∧
      s.Complete :=
  (no_worker_forgotten
    [.file (enabledFile 'a' 1), .file (enabledFile 'b' 2), .worker 0 (.popen none),
      .worker 0 .cleanup, .file (enabledFile 'a' 1)]).2 (by decide) _ (List.prefix_refl _)

/-- The first entry is taken out, and the worker of the other one is forgotten. -/
theorem worker_forgotten_at_head :
    EventRun.AllSteps passStep Permitted (some .init)
        [.file (enabledFile 'a' 1), .file (enabledFile 'b' 2), .worker 1 (.popen none),
          .worker 1 .cleanup, .file (enabledFile 'b' 2)] ∧
      ∃ s, [Pass.file (enabledFile 'a' 1), .file (enabledFile 'b' 2), .worker 1 (.popen none),
          .worker 1 .cleanup, .file (enabledFile 'b' 2)].foldl passStep (some .init) = some s ∧
        s.workers[0]? = some { ep := 1, phase := .starting } ∧ ¬s.Complete := by
  refine ⟨by decide, _, rfl, rfl, ?_⟩
  rintro ⟨-, -, -, s', hs', hended⟩
  obtain rfl := Option.some.inj hs'
  exact Phase.noConfusion (hended { ep := 1, phase := .starting } List.mem_cons_self)

end XMonitor.PluginsD
