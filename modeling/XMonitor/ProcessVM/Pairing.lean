import XMonitor.Lib.EventRun
import XMonitor.ProcessVM.Probes

/-!
# Which event a system call produces

Every event that a return probe sends should be about the call that returns, and every
private anonymous mapping should be reported. The entry of a thread carries what one
probe has learned to the next, and only the return probes delete it. A `brk` that reaches
neither `do_brk_flags` nor `__do_munmap` leaves it, and the next call may report it as its
own. Shared anonymous mappings get the entry of private ones.

`traced_iff_kept` says for every call of a thread, after any others, when none of this
comes to light.
-/

namespace XMonitor.ProcessVM

def Mmap.succeeds (m : Mmap) : Bool := !isErrValue m.ret

/-- A private mapping without a file, at an address that the kernel chooses. -/
structure Mmap.PrivateAnon (m : Mmap) : Prop where
  pf : m.pf = false
  addr : m.addr = 0
  private_ : m.flags &&& mapPrivate ≠ 0
  shared : m.flags &&& mapShared = 0

/-- A shared mapping of a file, at an address that the kernel chooses. -/
structure Mmap.SharedFile (m : Mmap) : Prop where
  pf : m.pf = true
  addr : m.addr = 0
  shared : m.flags &&& mapShared ≠ 0

/-- The test of the tracepoint: the new break is not above the old one. -/
def lowers (newBrk origBrk : UInt64) : Prop := newBrk ≠ 0 ∧ newBrk ≤ origBrk

/-- An event is what a call has to say of itself. A shared anonymous mapping has nothing
to say. -/
def Call.Reports (ts : Task) (evt : EvtData) : Call → Prop
  | .brk _ _ _ .neither => False
  | .brk _ _ _ (.grow b) => b.ret = 0 ∧ evt = evtOf ts ⟨.brk, b.addr, b.len⟩
  | .brk newBrk origBrk _ (.shrink b) => b.ret = 1 ∧
      (lowers newBrk origBrk ∧ evt = evtOf ts ⟨.brkShrink, b.addr, b.len⟩ ∨
        evt = evtOf ts ⟨.munmap, b.addr, b.len⟩)
  | .mmap m => m.succeeds = true ∧ ∃ addr len, m.region = some (addr, len) ∧
      (m.PrivateAnon ∧ evt = evtOf ts ⟨.mmapAnonPriv, addr, len⟩ ∨
        m.SharedFile ∧ evt = evtOf ts ⟨.mmapShared, addr, len⟩)
  | .munmap (some b) => b.ret = 1 ∧ evt = evtOf ts ⟨.munmap, b.addr, b.len⟩
  | .munmap none => False

/-- The events that a call adds. -/
def emitted (f : Filter) (ts : Task) (s : State) (call : Call) : List EvtData :=
  (execute f ts s call).sent.drop s.sent.length

structure Traced (f : Filter) (ts : Task) (s : State) (call : Call) : Prop where
  own : ∀ evt ∈ emitted f ts s call, call.Reports ts evt
  private_ : ∀ m addr len, call = .mmap m → m.PrivateAnon → m.succeeds = true →
    m.region = some (addr, len) →
      emitted f ts s call = [evtOf ts ⟨.mmapAnonPriv, addr, len⟩]

/-- The condition for a mapping. A private anonymous one finds no entry of an earlier call,
and room in the map and in the ring buffer. Any other that is not a shared mapping of a
file sends nothing: it finds no entry of an earlier call and makes none. -/
structure Mmap.Kept (m : Mmap) (vmOp : Option VmOpInfo) : Prop where
  private_ : m.PrivateAnon → vmOp = none ∧ m.room = true ∧ m.reserved = true
  other : ¬ m.PrivateAnon → ¬ m.SharedFile → m.reserved = true →
    vmOp = none ∧ (m.pf = false → m.addr = 0 → m.flags &&& (mapPrivate ||| mapAnonymous) ≠ 0 →
      m.room = false)

def Kept (vmOp : Option VmOpInfo) : Call → Prop
  | .brk newBrk origBrk _ (.shrink b) =>
      b.ret = 1 → b.reserved = true → lowers newBrk origBrk ∨ vmOp = none
  | .brk _ _ _ _ => True
  | .mmap m => m.succeeds = true → m.replaced = none → m.Kept vmOp
  | .munmap (some b) => b.ret = 1 → b.reserved = true → vmOp = none
  | .munmap none => True

/-! ## The probes -/

def reported (ts : Task) (success reserved : Bool) (vmOp : Option VmOpInfo) : List EvtData :=
  if success && reserved then (vmOp.map (evtOf ts)).toList else []

section Probes

variable (f : Filter) (ts : Task) (s : State)

@[simp] theorem kretprobe_vmOp (success reserved : Bool) :
    (kretprobe ts success reserved s).vmOp = none := by
  rw [kretprobe]
  split <;> rfl

@[simp] theorem kretprobe_sent (success reserved : Bool) :
    (kretprobe ts success reserved s).sent = s.sent ++ reported ts success reserved s.vmOp := by
  rw [kretprobe, reported]
  cases hvmOp : s.vmOp with
  | none => simp [State.delete]
  | some voi => cases success <;> cases reserved <;> simp [State.delete, State.insertProcessvmEvent]

@[simp] theorem updateAny_sent (room : Bool) (voi : VmOpInfo) :
    (s.updateAny room voi).sent = s.sent := by
  rw [State.updateAny]
  split <;> rfl

@[simp] theorem updateNoexist_sent (room : Bool) (voi : VmOpInfo) :
    (s.updateNoexist room voi).sent = s.sent := by
  rw [State.updateNoexist]
  split <;> rfl

@[simp] theorem tracepointSysEnterBrk_sent (room : Bool) (newBrk origBrk : UInt64) :
    (tracepointSysEnterBrk f ts room newBrk origBrk s).sent = s.sent := by
  rw [tracepointSysEnterBrk]
  repeat' split
  all_goals simp

@[simp] theorem kprobeDoBrkFlags_sent (room : Bool) (addr len : UInt64) :
    (kprobeDoBrkFlags f ts room addr len s).sent = s.sent := by
  rw [kprobeDoBrkFlags]
  split <;> simp

@[simp] theorem kprobeDoMunmap_sent (room : Bool) (addr len : UInt64) :
    (kprobeDoMunmap f ts room addr len s).sent = s.sent := by
  rw [kprobeDoMunmap]
  repeat' split
  all_goals simp

@[simp] theorem enter_sent (m : Mmap) : (m.enter f ts s).sent = s.sent := by
  rw [Mmap.enter, kprobeDoMmap]
  repeat' split
  all_goals simp

theorem brkFlags_sent (b : Body) :
    (b.brkFlags f ts s).sent = s.sent ++ reported ts (b.ret = 0) b.reserved
      (kprobeDoBrkFlags f ts b.room b.addr b.len s).vmOp := by
  simp [Body.brkFlags, kretprobeDoBrkFlags]

theorem munmap_sent (b : Body) :
    (b.munmap f ts s).sent = s.sent ++ reported ts (b.ret = 1) b.reserved
      (kprobeDoMunmap f ts b.room b.addr b.len s).vmOp := by
  simp [Body.munmap, kretprobeDoMunmap]

theorem brkFlags_vmOp (b : Body) : (b.brkFlags f ts s).vmOp = none := kretprobe_vmOp ..

theorem munmap_vmOp (b : Body) : (b.munmap f ts s).vmOp = none := kretprobe_vmOp ..

end Probes

/-- An entry that a `brk` leaves. -/
def leftover : VmOpInfo := ⟨.brkShrink, 0, 0⟩

/-- Between two system calls, a thread has no entry or one that a `brk` has left. -/
theorem vmOp_execute {f : Filter} {ts : Task} {s : State}
    (h : s.vmOp = none ∨ s.vmOp = some leftover) (call : Call) :
    (execute f ts s call).vmOp = none ∨ (execute f ts s call).vmOp = some leftover := by
  cases call with
  | brk newBrk origBrk room body =>
      cases body with
      | neither =>
          simp only [execute, tracepointSysEnterBrk]
          split
          · exact h
          · split
            · rw [State.updateAny]
              split
              · exact .inr rfl
              · exact h
            · exact h
      | grow b => exact .inl (brkFlags_vmOp ..)
      | shrink b => exact .inl (munmap_vmOp ..)
  | mmap m => exact .inl (kretprobe_vmOp ..)
  | munmap b =>
      cases b with
      | none => exact h
      | some b => exact .inl (munmap_vmOp ..)

theorem vmOp_run (f : Filter) (ts : Task) (calls : List Call) :
    (run f ts calls).vmOp = none ∨ (run f ts calls).vmOp = some leftover := by
  have keep : ∀ s (call : Call), (s.vmOp = none ∨ s.vmOp = some leftover) →
      ((execute f ts s call).vmOp = none ∨ (execute f ts s call).vmOp = some leftover) :=
    fun _ call h => vmOp_execute h call
  exact EventRun.foldl_preserves keep (.inl rfl) calls

/-! ## What a call sends -/

section Emitted

variable {f : Filter} {ts : Task} {s : State}

theorem emitted_eq {call : Call} {new : List EvtData}
    (h : (execute f ts s call).sent = s.sent ++ new) : emitted f ts s call = new := by
  rw [emitted, h, List.drop_left]

theorem mem_reported {success reserved : Bool} {vmOp : Option VmOpInfo} {evt : EvtData} :
    evt ∈ reported ts success reserved vmOp ↔
      success = true ∧ reserved = true ∧ ∃ voi, vmOp = some voi ∧ evt = evtOf ts voi := by
  cases success <;> cases reserved <;> cases vmOp <;> simp [reported]

theorem tracepoint_vmOp_of_lowers (hf : f.check ts = true) {newBrk origBrk : UInt64}
    (h : lowers newBrk origBrk) (room : Bool) :
    (tracepointSysEnterBrk f ts room newBrk origBrk s).vmOp =
      if s.vmOp.isSome || room then some leftover else none := by
  rw [tracepointSysEnterBrk, if_neg h.1, if_pos (by simp [hf, h.2]), State.updateAny]
  split
  · rfl
  next hno =>
    rw [Bool.or_eq_true, not_or, Bool.not_eq_true, Option.isSome_eq_false_iff,
      Option.isNone_iff_eq_none] at hno
    exact hno.1

theorem tracepoint_of_not_lowers {newBrk origBrk : UInt64} (h : ¬ lowers newBrk origBrk)
    (room : Bool) : tracepointSysEnterBrk f ts room newBrk origBrk s = s := by
  rw [tracepointSysEnterBrk]
  split
  · rfl
  next hne =>
    rw [if_neg]
    rw [Bool.and_eq_true]
    rintro ⟨-, hle⟩
    exact h ⟨hne, of_decide_eq_true hle⟩

theorem kprobeDoMunmap_vmOp_some (hf : f.check ts = true) {voi : VmOpInfo}
    (h : s.vmOp = some voi) (room : Bool) (addr len : UInt64) :
    (kprobeDoMunmap f ts room addr len s).vmOp = some { voi with addr, len := voi.len + len } := by
  rw [kprobeDoMunmap, if_pos hf, h]

theorem kprobeDoMunmap_vmOp_none (hf : f.check ts = true) (h : s.vmOp = none) (room : Bool)
    (addr len : UInt64) :
    (kprobeDoMunmap f ts room addr len s).vmOp =
      if room then some ⟨.munmap, addr, len⟩ else none := by
  rw [kprobeDoMunmap, if_pos hf, h]
  cases room <;> simp [State.updateNoexist, h]

/-- `__do_munmap` without an entry of an earlier probe. -/
theorem reports_of_munmap (hf : f.check ts = true) (h : s.vmOp = none) {b : Body} {evt : EvtData}
    (hevt : evt ∈ reported ts (b.ret = 1) b.reserved
      (kprobeDoMunmap f ts b.room b.addr b.len s).vmOp) :
    b.ret = 1 ∧ evt = evtOf ts ⟨.munmap, b.addr, b.len⟩ := by
  obtain ⟨hret, -, voi, hvoi, rfl⟩ := mem_reported.mp hevt
  rw [kprobeDoMunmap_vmOp_none hf h] at hvoi
  split at hvoi
  · cases hvoi
    exact ⟨of_decide_eq_true hret, rfl⟩
  · cases hvoi

/-- `__do_munmap` with an entry that a `brk` has left, or made for itself. -/
theorem reported_munmap_leftover (hf : f.check ts = true) (h : s.vmOp = some leftover) (b : Body) :
    reported ts (b.ret = 1) b.reserved (kprobeDoMunmap f ts b.room b.addr b.len s).vmOp =
      if b.ret = 1 ∧ b.reserved = true then [evtOf ts ⟨.brkShrink, b.addr, b.len⟩] else [] := by
  rw [kprobeDoMunmap_vmOp_some hf h, leftover, UInt64.zero_add]
  by_cases hret : b.ret = 1 <;> cases b.reserved <;> simp [reported, hret]

theorem traced_iff_own {call : Call} (h : ∀ m, call ≠ .mmap m) :
    Traced f ts s call ↔ ∀ evt ∈ emitted f ts s call, call.Reports ts evt := by
  constructor
  · intro ht
    exact ht.own
  · intro hown
    refine ⟨hown, ?_⟩
    intro m addr len hcall
    exact absurd hcall (h m)

theorem traced_brk_neither (newBrk origBrk : UInt64) (room : Bool) :
    Traced f ts s (.brk newBrk origBrk room .neither) := by
  rw [traced_iff_own (by simp)]
  have hnew : emitted f ts s (.brk newBrk origBrk room .neither) = [] := by
    apply emitted_eq
    rw [List.append_nil]
    exact tracepointSysEnterBrk_sent ..
  simp [hnew]

theorem of_updateAny {room : Bool} {voi voi' : VmOpInfo}
    (h : (s.updateAny room voi).vmOp = some voi') : voi' = voi := by
  rw [State.updateAny] at h
  split at h
  · exact (Option.some.inj h).symm
  next hno =>
    rw [Bool.or_eq_true, not_or] at hno
    rw [h] at hno
    exact absurd rfl hno.1

/-- `do_brk_flags` overwrites whatever it finds. -/
theorem traced_brk_grow (hf : f.check ts = true) (newBrk origBrk : UInt64) (room : Bool)
    (b : Body) : Traced f ts s (.brk newBrk origBrk room (.grow b)) := by
  rw [traced_iff_own (by simp)]
  intro evt hevt
  rw [emitted_eq (by rw [execute, brkFlags_sent, tracepointSysEnterBrk_sent])] at hevt
  obtain ⟨hret, -, voi, hvoi, rfl⟩ := mem_reported.mp hevt
  rw [kprobeDoBrkFlags, if_pos hf] at hvoi
  rw [of_updateAny hvoi]
  exact ⟨of_decide_eq_true hret, rfl⟩

theorem traced_brk_shrink_iff (hf : f.check ts = true)
    (hs : s.vmOp = none ∨ s.vmOp = some leftover) (newBrk origBrk : UInt64) (room : Bool)
    (b : Body) :
    Traced f ts s (.brk newBrk origBrk room (.shrink b)) ↔
      Kept s.vmOp (.brk newBrk origBrk room (.shrink b)) := by
  rw [traced_iff_own (by simp)]
  rw [emitted_eq (by rw [execute, munmap_sent, tracepointSysEnterBrk_sent])]
  by_cases hlowers : lowers newBrk origBrk
  · have hkept : Kept s.vmOp (.brk newBrk origBrk room (.shrink b)) := fun _ _ => .inl hlowers
    refine iff_of_true ?_ hkept
    intro evt hevt
    have hvmOp := tracepoint_vmOp_of_lowers (s := s) hf hlowers room
    split at hvmOp
    · rw [reported_munmap_leftover hf hvmOp] at hevt
      split at hevt
      next hboth => exact ⟨hboth.1, .inl ⟨hlowers, List.mem_singleton.mp hevt⟩⟩
      next => cases hevt
    · obtain ⟨hret, hevt⟩ := reports_of_munmap hf hvmOp hevt
      exact ⟨hret, .inr hevt⟩
  · rw [tracepoint_of_not_lowers hlowers]
    obtain hs | hs := hs
    · refine iff_of_true ?_ fun _ _ => .inr hs
      intro evt hevt
      obtain ⟨hret, hevt⟩ := reports_of_munmap hf hs hevt
      exact ⟨hret, .inr hevt⟩
    · rw [reported_munmap_leftover hf hs]
      constructor
      · intro hown hret hreserved
        obtain ⟨-, h | h⟩ := hown (evtOf ts ⟨.brkShrink, b.addr, b.len⟩) (by simp [hret, hreserved])
        · exact .inl h.1
        · cases h
      · intro hkept evt hevt
        split at hevt
        next hboth =>
          obtain h | h := hkept hboth.1 hboth.2
          · exact absurd h hlowers
          · rw [hs] at h
            cases h
        next => cases hevt

theorem traced_munmap_iff (hf : f.check ts = true)
    (hs : s.vmOp = none ∨ s.vmOp = some leftover) (b : Body) :
    Traced f ts s (.munmap (some b)) ↔ Kept s.vmOp (.munmap (some b)) := by
  rw [traced_iff_own (by simp), emitted_eq (by rw [execute, munmap_sent])]
  obtain hs | hs := hs
  · exact iff_of_true (fun evt hevt => reports_of_munmap hf hs hevt) fun _ _ => hs
  · rw [reported_munmap_leftover hf hs]
    constructor
    · intro hown hret hreserved
      obtain ⟨-, h⟩ := hown (evtOf ts ⟨.brkShrink, b.addr, b.len⟩) (by simp [hret, hreserved])
      cases h
    · intro hkept evt hevt
      split at hevt
      next hboth =>
        have h := hkept hboth.1 hboth.2
        rw [hs] at h
        cases h
      next => cases hevt

/-! ## Mappings -/

section Mmap

variable {m : Mmap}

/-- What a mapping sends at its return is its entry, with the region. -/
theorem emitted_mmap :
    emitted f ts s (.mmap m) =
      if m.succeeds = true ∧ m.replaced = none then
        reported ts true m.reserved ((m.enter f ts s).vmOp.bind fun voi =>
          m.region.map fun region => { voi with addr := region.1, len := region.2 })
      else [] := by
  apply emitted_eq
  rw [execute, kretprobeDoMmap, kretprobe_sent]
  cases hregion : m.region with
  | none =>
      have hfails : isErrValue m.ret = true := by
        by_contra h
        have hreached := m.reached (Bool.not_eq_true _ ▸ h)
        rw [hregion] at hreached
        cases hreached
      have hregion' : m.inRegion f ts (m.enter f ts s) = m.enter f ts s := by
        rw [Mmap.inRegion, hregion]
      simp [hregion', reported, Mmap.succeeds, hfails]
  | some region =>
      cases hreplaced : m.replaced with
      | none =>
          have hregion' : m.inRegion f ts (m.enter f ts s) =
              kprobeMmapRegion region.1 region.2 (m.enter f ts s) := by
            simp [Mmap.inRegion, hregion, hreplaced]
          rw [hregion', kprobeMmapRegion]
          cases hsucceeds : isErrValue m.ret with
          | true => simp [reported, Mmap.succeeds, hsucceeds]
          | false =>
              cases (m.enter f ts s).vmOp <;> simp [reported, Mmap.succeeds, hsucceeds]
      | some b =>
          have hregion' : m.inRegion f ts (m.enter f ts s) =
              b.munmap f ts (kprobeMmapRegion region.1 region.2 (m.enter f ts s)) := by
            simp [Mmap.inRegion, hregion, hreplaced]
          rw [hregion', munmap_sent, munmap_vmOp, kprobeMmapRegion]
          simp [reported, m.kept b hreplaced]

/-- The test of `kprobe__xm_do_mmap` for a private anonymous mapping. -/
def Mmap.TakenPrivate (m : Mmap) : Prop :=
  m.pf = false ∧ m.addr = 0 ∧ m.flags &&& (mapPrivate ||| mapAnonymous) ≠ 0

theorem Mmap.PrivateAnon.takenPrivate (h : m.PrivateAnon) : m.TakenPrivate := by
  refine ⟨h.pf, h.addr, ?_⟩
  intro hzero
  apply h.private_
  have hsub : mapPrivate = (mapPrivate ||| mapAnonymous) &&& mapPrivate := by decide
  rw [hsub, ← UInt64.and_assoc, hzero]
  exact UInt64.zero_and

theorem enter_of_takenPrivate (hf : f.check ts = true) (h : m.TakenPrivate) :
    m.enter f ts s = s.updateNoexist m.room ⟨.mmapAnonPriv, 0, m.len⟩ := by
  obtain ⟨hpf, haddr, hflags⟩ := h
  rw [Mmap.enter, kprobeDoMmap, if_pos hf, if_pos]
  simp [hpf, haddr, hflags]

theorem enter_of_sharedFile (hf : f.check ts = true) (h : m.SharedFile) :
    m.enter f ts s = s.updateAny m.room ⟨.mmapShared, 0, m.len⟩ := by
  obtain ⟨hpf, haddr, hflags⟩ := h
  rw [Mmap.enter, kprobeDoMmap, if_pos hf, if_neg, if_pos]
  · simp [hpf, haddr, hflags]
  · simp [hpf]

theorem enter_of_other (h : ¬ m.TakenPrivate) (h' : ¬ m.SharedFile) : m.enter f ts s = s := by
  rw [Mmap.enter, kprobeDoMmap]
  split
  · rw [if_neg, if_neg]
    · intro htest
      simp only [Bool.and_eq_true, decide_eq_true_eq] at htest
      exact h' ⟨htest.1.1, htest.1.2, htest.2⟩
    · intro htest
      simp only [Bool.and_eq_true, decide_eq_true_eq, Bool.not_eq_true'] at htest
      exact h ⟨htest.1.1, htest.1.2, htest.2⟩
  · rfl

/-- The entry that the return of a mapping finds. -/
theorem enter_vmOp_leftover (hf : f.check ts = true) (hs : s.vmOp = some leftover)
    (h : ¬ m.SharedFile) : (m.enter f ts s).vmOp = some leftover := by
  by_cases htaken : m.TakenPrivate
  · rw [enter_of_takenPrivate hf htaken, State.updateNoexist, hs]
    exact hs
  · rw [enter_of_other htaken h, hs]

theorem enter_vmOp_none (hf : f.check ts = true) (hs : s.vmOp = none) (htaken : m.TakenPrivate) :
    (m.enter f ts s).vmOp = if m.room then some ⟨.mmapAnonPriv, 0, m.len⟩ else none := by
  rw [enter_of_takenPrivate hf htaken, State.updateNoexist, hs]
  cases m.room with
  | false => exact hs
  | true => rfl

section Reported

variable {region : UInt64 × UInt64}

theorem traced_mmap_region (hsucceeds : m.succeeds = true) (hregion : m.region = some region) :
    Traced f ts s (.mmap m) ↔
      (∀ evt ∈ emitted f ts s (.mmap m), (Call.mmap m).Reports ts evt) ∧
        (m.PrivateAnon →
          emitted f ts s (.mmap m) = [evtOf ts ⟨.mmapAnonPriv, region.1, region.2⟩]) := by
  constructor
  · rintro ⟨hown, hprivate⟩
    exact ⟨hown, fun hpriv => hprivate m _ _ rfl hpriv hsucceeds hregion⟩
  · rintro ⟨hown, hprivate⟩
    refine ⟨hown, ?_⟩
    rintro m' addr len hcall hpriv - hregion'
    cases hcall
    rw [hregion] at hregion'
    cases hregion'
    exact hprivate hpriv

variable (hf : f.check ts = true) (hsucceeds : m.succeeds = true)
  (hregion : m.region = some region)
  (hemitted : emitted f ts s (.mmap m) =
    reported ts true m.reserved ((m.enter f ts s).vmOp.map fun voi =>
      { voi with addr := region.1, len := region.2 }))

include hf hsucceeds hregion hemitted

theorem traced_sharedFile (hshared : m.SharedFile) : Traced f ts s (.mmap m) := by
  rw [traced_mmap_region hsucceeds hregion, hemitted]
  refine ⟨?_, fun hpriv => absurd (hshared.pf.symm.trans hpriv.pf) (by decide)⟩
  intro evt hevt
  obtain ⟨-, -, voi, hmap, rfl⟩ := mem_reported.mp hevt
  obtain ⟨entry, hentry, rfl⟩ := Option.map_eq_some_iff.mp hmap
  rw [enter_of_sharedFile hf hshared] at hentry
  rw [of_updateAny hentry]
  exact ⟨hsucceeds, _, _, hregion, .inr ⟨hshared, rfl⟩⟩

variable (hs : s.vmOp = none ∨ s.vmOp = some leftover)

include hs

theorem traced_private_iff (hpriv : m.PrivateAnon) :
    Traced f ts s (.mmap m) ↔ s.vmOp = none ∧ m.room = true ∧ m.reserved = true := by
  have hshared : ¬ m.SharedFile := fun h => absurd (h.pf.symm.trans hpriv.pf) (by decide)
  rw [traced_mmap_region hsucceeds hregion, hemitted]
  obtain hs | hs := hs
  · rw [enter_vmOp_none hf hs hpriv.takenPrivate]
    constructor
    · rintro ⟨-, hone⟩
      have hmem : evtOf ts ⟨.mmapAnonPriv, region.1, region.2⟩ ∈ reported ts true m.reserved
          ((if m.room then some (⟨.mmapAnonPriv, 0, m.len⟩ : VmOpInfo) else none).map fun voi =>
            { voi with addr := region.1, len := region.2 }) := by
        rw [hone hpriv]
        exact List.mem_singleton_self _
      obtain ⟨-, hreserved, voi, hvoi, -⟩ := mem_reported.mp hmem
      cases hroom : m.room with
      | true => exact ⟨hs, rfl, hreserved⟩
      | false =>
          rw [hroom] at hvoi
          cases hvoi
    · rintro ⟨-, hroom, hreserved⟩
      rw [hroom, hreserved]
      refine ⟨?_, fun _ => rfl⟩
      intro evt hevt
      rw [List.mem_singleton.mp hevt]
      exact ⟨hsucceeds, _, _, hregion, .inl ⟨hpriv, rfl⟩⟩
  · rw [enter_vmOp_leftover hf hs hshared]
    constructor
    · rintro ⟨-, hone⟩
      have hmem : evtOf ts ⟨.mmapAnonPriv, region.1, region.2⟩ ∈ reported ts true m.reserved
          ((some leftover).map fun voi => { voi with addr := region.1, len := region.2 }) := by
        rw [hone hpriv]
        exact List.mem_singleton_self _
      obtain ⟨-, -, voi, hvoi, hevt⟩ := mem_reported.mp hmem
      cases hvoi
      cases congrArg EvtData.evtType hevt
    · rintro ⟨hnone, -⟩
      rw [hs] at hnone
      cases hnone

theorem traced_other_iff (hpriv : ¬ m.PrivateAnon) (hshared : ¬ m.SharedFile) :
    Traced f ts s (.mmap m) ↔
      (m.reserved = true → s.vmOp = none ∧ (m.TakenPrivate → m.room = false)) := by
  have hnothing : Traced f ts s (.mmap m) ↔ emitted f ts s (.mmap m) = [] := by
    rw [traced_mmap_region hsucceeds hregion]
    constructor
    · rintro ⟨hown, -⟩
      rw [List.eq_nil_iff_forall_not_mem]
      intro evt hevt
      obtain ⟨-, _, _, -, ⟨h, -⟩ | ⟨h, -⟩⟩ := hown evt hevt
      · exact hpriv h
      · exact hshared h
    · intro hnone
      refine ⟨?_, fun h => absurd h hpriv⟩
      intro evt hevt
      rw [hnone] at hevt
      cases hevt
  rw [hnothing, hemitted]
  cases hreserved : m.reserved with
  | false => simp [reported]
  | true =>
      have hempty : ∀ vmOp : Option VmOpInfo, reported ts true true (vmOp.map fun voi =>
          { voi with addr := region.1, len := region.2 }) = [] ↔ vmOp = none := by
        intro vmOp
        cases vmOp <;> simp [reported]
      rw [hempty]
      obtain hs | hs := hs
      · by_cases htaken : m.TakenPrivate
        · rw [enter_vmOp_none hf hs htaken]
          cases hroom : m.room <;> simp [hs, htaken]
        · rw [enter_of_other htaken hshared]
          simp [hs, htaken]
      · rw [enter_vmOp_leftover hf hs hshared]
        simp [hs]

end Reported

theorem traced_mmap_iff (hf : f.check ts = true)
    (hs : s.vmOp = none ∨ s.vmOp = some leftover) :
    Traced f ts s (.mmap m) ↔ Kept s.vmOp (.mmap m) := by
  by_cases hreports : m.succeeds = true ∧ m.replaced = none
  · obtain ⟨hsucceeds, hreplaced⟩ := hreports
    obtain ⟨region, hregion⟩ := Option.isSome_iff_exists.mp
      (m.reached (by simpa [Mmap.succeeds] using hsucceeds))
    have hemitted : emitted f ts s (.mmap m) =
        reported ts true m.reserved ((m.enter f ts s).vmOp.map fun voi =>
          { voi with addr := region.1, len := region.2 }) := by
      rw [emitted_mmap, if_pos ⟨hsucceeds, hreplaced⟩, hregion]
      cases (m.enter f ts s).vmOp <;> rfl
    have hkept : Kept s.vmOp (.mmap m) ↔ m.Kept s.vmOp :=
      ⟨fun h => h hsucceeds hreplaced, fun h _ _ => h⟩
    rw [hkept]
    by_cases hpriv : m.PrivateAnon
    · rw [traced_private_iff hf hsucceeds hregion hemitted hs hpriv]
      exact ⟨fun h => ⟨fun _ => h, fun hno => absurd hpriv hno⟩, fun h => h.private_ hpriv⟩
    · by_cases hshared : m.SharedFile
      · refine iff_of_true (traced_sharedFile hf hsucceeds hregion hemitted hshared) ?_
        exact ⟨fun h => absurd h hpriv, fun _ hno => absurd hshared hno⟩
      · rw [traced_other_iff hf hsucceeds hregion hemitted hs hpriv hshared]
        constructor
        · intro h
          refine ⟨fun h => absurd h hpriv, fun _ _ hreserved => ?_⟩
          obtain ⟨hnone, hroom⟩ := h hreserved
          exact ⟨hnone, fun hpf haddr hflags => hroom ⟨hpf, haddr, hflags⟩⟩
        · intro h hreserved
          obtain ⟨hnone, hroom⟩ := h.other hpriv hshared hreserved
          exact ⟨hnone, fun htaken => hroom htaken.1 htaken.2.1 htaken.2.2⟩
  · have hemitted : emitted f ts s (.mmap m) = [] := by
      rw [emitted_mmap, if_neg hreports]
    refine iff_of_true ⟨?_, ?_⟩ fun h h' => absurd ⟨h, h'⟩ hreports
    · intro evt hevt
      rw [hemitted] at hevt
      cases hevt
    · rintro m' addr len hcall hpriv hsucceeds -
      cases hcall
      refine absurd ⟨hsucceeds, ?_⟩ hreports
      cases hreplaced : m.replaced with
      | none => rfl
      | some b => exact absurd hpriv.addr (m.fixed (by simp [hreplaced]))

end Mmap

theorem traced_iff (hf : f.check ts = true) (hs : s.vmOp = none ∨ s.vmOp = some leftover)
    (call : Call) : Traced f ts s call ↔ Kept s.vmOp call := by
  cases call with
  | brk newBrk origBrk room body =>
      cases body with
      | neither => exact iff_of_true (traced_brk_neither _ _ _) trivial
      | grow b => exact iff_of_true (traced_brk_grow hf _ _ _ b) trivial
      | shrink b => exact traced_brk_shrink_iff hf hs _ _ _ b
  | mmap m => exact traced_mmap_iff hf hs
  | munmap b =>
      cases b with
      | some b => exact traced_munmap_iff hf hs b
      | none =>
          refine iff_of_true ?_ trivial
          rw [traced_iff_own (by simp)]
          have hnew : emitted f ts s (.munmap none) = [] := emitted_eq (List.append_nil _).symm
          simp [hnew]

end Emitted

/-! ## Every call of a run -/

/-- Every lowering `brk` reaches a return probe, no anonymous mapping is shared, and there is
room. -/
def Call.Regular : Call → Prop
  | .brk newBrk origBrk _ body => lowers newBrk origBrk → ∃ b, body = .shrink b
  | .mmap m => (m.PrivateAnon → m.room = true ∧ m.reserved = true) ∧
      (m.TakenPrivate → m.PrivateAnon)
  | .munmap _ => True

/-- Regular calls leave no entry. -/
theorem vmOp_execute_of_regular {f : Filter} {ts : Task} {s : State} (hs : s.vmOp = none)
    {call : Call} (h : call.Regular) : (execute f ts s call).vmOp = none := by
  cases call with
  | brk newBrk origBrk room body =>
      cases body with
      | neither =>
          have hlowers : ¬ lowers newBrk origBrk := by
            intro hl
            obtain ⟨b, hb⟩ := h hl
            cases hb
          rw [execute, tracepoint_of_not_lowers hlowers]
          exact hs
      | grow b => exact brkFlags_vmOp ..
      | shrink b => exact munmap_vmOp ..
  | mmap m => exact kretprobe_vmOp ..
  | munmap b =>
      cases b with
      | none => exact hs
      | some b => exact munmap_vmOp ..

/-- A thread with regular calls only is traced throughout. -/
theorem traced_of_regular {f : Filter} {ts : Task} (hf : f.check ts = true) {s : State}
    (hs : s.vmOp = none) {calls : List Call} (h : ∀ call ∈ calls, call.Regular) :
    EventRun.AllSteps (execute f ts) (Traced f ts) s calls := by
  induction calls generalizing s with
  | nil => trivial
  | cons call calls ih =>
      obtain ⟨hcall, hrest⟩ := List.forall_mem_cons.mp h
      refine ⟨?_, ih (vmOp_execute_of_regular hs hcall) hrest⟩
      apply (traced_iff hf (.inl hs) call).mpr
      cases call with
      | brk newBrk origBrk room body =>
          cases body with
          | shrink b => exact fun _ _ => .inr hs
          | _ => trivial
      | mmap m =>
          intro _ _
          refine ⟨fun hpriv => ⟨hs, hcall.1 hpriv⟩, fun hpriv _ _ => ⟨hs, ?_⟩⟩
          intro hpf haddr hflags
          exact absurd (hcall.2 ⟨hpf, haddr, hflags⟩) hpriv
      | munmap b =>
          cases b with
          | some b => exact fun _ _ => hs
          | none => trivial

/-- After any system calls of a thread that passes the filter, a call is traced as it should
be if and only if it reports no entry of an earlier call, finds room if it is a private
anonymous mapping, and is not reported if it is a shared one. -/
theorem traced_iff_kept (f : Filter) (ts : Task) (hf : f.check ts = true) (calls : List Call)
    (call : Call) : Traced f ts (run f ts calls) call ↔ Kept (run f ts calls).vmOp call :=
  traced_iff hf (vmOp_run f ts calls) call

def wholeSystem : Filter := ⟨1, 0⟩

def task : Task := ⟨100, 100, 100, 0, []⟩

/-- 4096 bytes without a file, at an address that the kernel chooses. -/
def anonymous (flags : UInt64) : Mmap where
  pf := false
  addr := 0
  len := 4096
  flags := flags
  region := some (0x7000, 4096)
  replaced := none
  ret := 0x7000
  room := true
  reserved := true
  reached := fun _ => rfl
  fixed := by decide
  kept := by simp

theorem anonymous_private : (anonymous 0x22).PrivateAnon :=
  ⟨rfl, rfl, by decide, by decide⟩

/-- A program that raises its break and maps memory. -/
def growRun : List Call := [.brk 0x3000 0x2000 true (.grow ⟨0x2000, 0x1000, 0, true, true⟩)]

theorem traced_growRun :
    Traced wholeSystem task (run wholeSystem task growRun) (.mmap (anonymous 0x22)) := by
  apply (traced_iff_kept wholeSystem task rfl growRun (.mmap (anonymous 0x22))).mpr
  intro _ _
  exact ⟨fun _ => ⟨rfl, rfl, rfl⟩, fun hno => absurd anonymous_private hno⟩

/-- A program that sets its break to where it is. -/
def sameBrk : List Call := [.brk 0x2000 0x2000 true .neither]

/-- The mapping that follows is reported as a shrinking of the heap. -/
theorem sameBrk_not_traced :
    wholeSystem.check task = true ∧
      ¬ Traced wholeSystem task (run wholeSystem task sameBrk) (.mmap (anonymous 0x22)) := by
  refine ⟨rfl, ?_⟩
  intro h
  have hone := h.private_ (anonymous 0x22) 0x7000 4096 rfl anonymous_private (by decide) rfl
  revert hone
  decide

end XMonitor.ProcessVM
