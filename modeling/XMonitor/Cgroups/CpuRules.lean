import XMonitor.Cgroups.CpuMetrics

/-!
# Rules for the parts of a collection

A collection is a sequence of parts, and a part can return. What is to be known about a part is
where it returns, what it leaves alone, and what holds behind it if something holds in front of
it. Each of these has a rule for a sequence of two parts.
-/

namespace XMonitor.Cgroups

open Procfile

theorem addedTo_append (metric : CpuMetric) (outputs outputs' : List CpuOutput) :
    addedTo metric (outputs ++ outputs') = addedTo metric outputs + addedTo metric outputs' := by
  rw [addedTo, List.map_append, List.sum_append]
  rfl

/-- A file in front of `cpu.stat` ends a collection. -/
def CpuFiles.endsFirst (files : CpuFiles) : CgType → Bool
  | .v1 => false
  | .v2 =>
      match files.unifiedCpuMax with
      | .failed | .read [] => true
      | .noName | .read (_ :: _) => false

namespace CpuCollect

variable {p q : CpuCollect} {obj : CpuObj} {part : CpuPart}

/-- Two parts are one of them, or both. -/
theorem andThen_cases (h : p.andThen q obj = some part) :
    ∃ first, p obj = some first ∧ (part = first ∨ ∃ second, q first.obj = some second ∧
      part = { second with outputs := first.outputs ++ second.outputs }) := by
  obtain ⟨first, hfirst, hrest⟩ := Option.bind_eq_some_iff.mp h
  refine ⟨first, hfirst, ?_⟩
  split at hrest
  · exact .inl (Option.some.inj hrest).symm
  · obtain ⟨second, hsecond, hpart⟩ := Option.bind_eq_some_iff.mp hrest
    exact .inr ⟨second, hsecond, (Option.some.inj hpart).symm⟩

/-- Behind a part that has not returned comes the other one. -/
theorem andThen_of_some {first : CpuPart} (h : p obj = some first) :
    p.andThen q obj =
      if first.returned then some first
      else (q first.obj).map fun second =>
        { second with outputs := first.outputs ++ second.outputs } := by
  rw [andThen, h]
  change (if first.returned then some first else (q first.obj).bind fun second => some _) = _
  rw [Option.map_eq_bind]
  rfl

theorem exists_andThen {first : CpuPart} (h : p obj = some first)
    (hq : first.returned = false → ∃ second, q first.obj = some second) :
    ∃ part, p.andThen q obj = some part := by
  rw [andThen_of_some h]
  split
  case isTrue => exact ⟨first, rfl⟩
  case isFalse hreturned =>
    obtain ⟨second, hsecond⟩ := hq (Bool.eq_false_iff.mpr hreturned)
    exact ⟨_, Option.map_eq_some_iff.mpr ⟨second, hsecond, rfl⟩⟩

/-- A part that gets through, and returns unless some condition holds. -/
def Continues (p : CpuCollect) (P : Prop) : Prop :=
  ∀ obj, ∃ part, p obj = some part ∧ (part.returned = false ↔ P)

theorem Continues.andThen {P Q : Prop} (hp : p.Continues P) (hq : q.Continues Q) :
    (p.andThen q).Continues (P ∧ Q) := by
  intro obj
  obtain ⟨first, hfirst, hP⟩ := hp obj
  obtain ⟨second, hsecond, hQ⟩ := hq first.obj
  rw [andThen_of_some hfirst]
  split
  case isTrue hreturned =>
    have hnot : ¬P := fun h => Bool.false_ne_true ((hP.mpr h).symm.trans hreturned)
    refine ⟨first, rfl, ?_⟩
    rw [hP]
    exact iff_of_false hnot fun h => hnot h.1
  case isFalse hreturned =>
    refine ⟨_, Option.map_eq_some_iff.mpr ⟨second, hsecond, rfl⟩, ?_⟩
    exact hQ.trans (and_iff_right (hP.mp (Bool.eq_false_iff.mpr hreturned))).symm

theorem continues_withLines {file : LinesSource (List UInt8)} (hread : file ≠ .notRead)
    {p : ProcFile → CpuCollect} (h : ∀ lines, (p lines).Continues True) :
    (withLines file true p).Continues (file ≠ .notOpened) := by
  intro obj
  cases file with
  | noName => exact ⟨_, rfl, iff_of_true rfl (by simp)⟩
  | notOpened => exact ⟨_, rfl, iff_of_false Bool.noConfusion fun h => h rfl⟩
  | notRead => exact absurd rfl hread
  | read content =>
      obtain ⟨part, hpart, hreturned⟩ := h (fileLines cpuTypes content) obj
      exact ⟨part, hpart, iff_of_true (hreturned.mpr trivial) (by simp)⟩

/-- A part that changes nothing of what `view` shows, and adds nothing to some counters. -/
def Leaves {α : Type} (p : CpuCollect) (view : CpuObj → α) (metrics : CpuMetric → Prop) : Prop :=
  ∀ obj part, p obj = some part →
    view part.obj = view obj ∧ ∀ metric, metrics metric → addedTo metric part.outputs = 0

variable {α : Type} {view : CpuObj → α} {metrics : CpuMetric → Prop}

theorem Leaves.andThen (hp : p.Leaves view metrics) (hq : q.Leaves view metrics) :
    (p.andThen q).Leaves view metrics := by
  intro obj part h
  obtain ⟨first, hfirst, rfl | ⟨second, hsecond, rfl⟩⟩ := andThen_cases h
  · exact hp obj part hfirst
  · obtain ⟨hview, hadded⟩ := hp obj first hfirst
    obtain ⟨hview', hadded'⟩ := hq first.obj second hsecond
    refine ⟨hview'.trans hview, fun metric hmetric => ?_⟩
    rw [addedTo_append, hadded metric hmetric, hadded' metric hmetric]

theorem leaves_skip : skip.Leaves view metrics := by
  rintro obj part h
  obtain rfl := Option.some.inj h
  exact ⟨rfl, fun _ _ => rfl⟩

theorem leaves_withLines {file : LinesSource (List UInt8)} {returned : Bool}
    {p : ProcFile → CpuCollect} (h : ∀ lines, (p lines).Leaves view metrics) :
    (withLines file returned p).Leaves view metrics := by
  intro obj part hpart
  cases file with
  | noName =>
      obtain rfl := Option.some.inj hpart
      exact ⟨rfl, fun _ _ => rfl⟩
  | notOpened =>
      obtain rfl := Option.some.inj hpart
      exact ⟨rfl, fun _ _ => rfl⟩
  | notRead => exact absurd hpart.symm (Option.some_ne_none _)
  | read content => exact h _ obj part hpart

/-! ## Before and after -/

/-- If `I` holds in front of a part, for the object and the calls so far, then `J` holds behind
it. -/
def Takes (I J : CpuObj → List CpuOutput → Prop) (p : CpuCollect) : Prop :=
  ∀ obj outputs part, I obj outputs → p obj = some part → J part.obj (outputs ++ part.outputs)

variable {I J : CpuObj → List CpuOutput → Prop} {p q : CpuCollect}

theorem Takes.andThen (hp : Takes I J p) (hq : Takes J J q) : Takes I J (p.andThen q) := by
  intro obj outputs part hobj hpart
  obtain ⟨first, hfirst, rfl | ⟨second, hsecond, rfl⟩⟩ := andThen_cases hpart
  · exact hp obj outputs part hobj hfirst
  · rw [← List.append_assoc]
    exact hq first.obj _ second (hp obj outputs first hobj hfirst) hsecond

/-- A part in front of another one that is reached under some condition. -/
theorem Takes.andThen_of_returned {K : CpuObj → List CpuOutput → Prop} {P : Prop}
    (hp : Takes I J p) (hreturned : ∀ obj part, p obj = some part → (part.returned = false ↔ P))
    (hq : P → Takes J K q) (hnot : ¬P → ∀ obj outputs, J obj outputs → K obj outputs) :
    Takes I K (p.andThen q) := by
  intro obj outputs part hobj hpart
  obtain ⟨first, hfirst, -⟩ := andThen_cases hpart
  have hP := hreturned obj first hfirst
  have hfront := hp obj outputs first hobj hfirst
  rw [andThen_of_some hfirst] at hpart
  split at hpart
  case isTrue hreturned =>
    obtain rfl := Option.some.inj hpart
    exact hnot (fun h => Bool.false_ne_true ((hP.mpr h).symm.trans hreturned)) _ _ hfront
  case isFalse hreturned =>
    obtain ⟨second, hsecond, rfl⟩ := Option.map_eq_some_iff.mp hpart
    rw [← List.append_assoc]
    exact hq (hP.mp (Bool.eq_false_iff.mpr hreturned)) first.obj _ second hfront hsecond

theorem Continues.of_some {P : Prop} (h : p.Continues P) (obj : CpuObj) (part : CpuPart)
    (hpart : p obj = some part) : part.returned = false ↔ P := by
  obtain ⟨first, hfirst, hP⟩ := h obj
  rwa [Option.some.inj (hpart.symm.trans hfirst)]

/-- A file that is read, or leaves the object alone. -/
theorem Takes.withLines {α : Type} {source : LinesSource α} {text : α → List UInt8}
    {returned : Bool} {p : ProcFile → CpuCollect}
    (hread : ∀ content, source = .read content →
      Takes I J (p (fileLines cpuTypes (text content))))
    (hother : (∀ content, source ≠ .read content) → ∀ obj outputs, I obj outputs → J obj outputs) :
    Takes I J (withLines (source.map text) returned p) := by
  intro obj outputs part hobj hpart
  cases source with
  | noName =>
      obtain rfl := Option.some.inj hpart
      rw [List.append_nil]
      exact hother (fun _ h => LinesSource.noConfusion rfl (heq_of_eq h)) obj outputs hobj
  | notOpened =>
      obtain rfl := Option.some.inj hpart
      rw [List.append_nil]
      exact hother (fun _ h => LinesSource.noConfusion rfl (heq_of_eq h)) obj outputs hobj
  | notRead => exact absurd hpart.symm (Option.some_ne_none _)
  | read content => exact hread content rfl obj outputs part hobj hpart

end CpuCollect

end XMonitor.Cgroups
