import XMonitor.Profile.Chunk
import XMonitor.Profile.Lookup

/-!
# Walking a call chain

A call chain is laid out in memory by its frames: the registers in each frame, and
the site of the row that describes it. The row of the top frame is the one of its
instruction pointer, that of a caller the one of its call, just below the return
address.

The walk looks rows up at the return address itself, and it takes a saved `rbp` of
zero, not an undefined return address, for the end of the chain. The main result
says for which chains that is right, given that each lookup arrives at its site.
-/

namespace XMonitor.Profile

/-- The program counters that a record holds. -/
def EhframeUserStack.pcs (st : EhframeUserStack) : List UInt64 :=
  (List.range st.len.toNat).map st.pcLst

/-- A frame of a chain, with the site of the row that describes it. -/
structure Frame where
  regs : TaskUserspaceRegs
  site : Site

/-- The address whose row describes a frame. -/
def Frame.pc (f : Frame) (top : Bool) : UInt64 := if top then f.regs.rip else f.regs.rip - 1

/-- The frame has saved a frame pointer, and it is zero. -/
def Frame.SavesZeroRbp (env : Env) (f : Frame) : Prop :=
  ∃ cfa, rowCfa f.site.fdeRow f.regs.rsp f.regs.rbp = some cfa ∧
    f.site.fdeRow.rbpCfaOffset ≠ int32Max ∧
    env.readUser (savedAddr cfa f.site.fdeRow.rbpCfaOffset) = some 0

section

variable (env : Env) (pidMaps : PidMaps)

/-- Frames from the innermost on and the return addresses stored in them. The chain
ends with a frame whose return address is undefined, or with one that has saved a
zero frame pointer. -/
inductive IsChain : Bool → List Frame → List UInt64 → Prop
  | undefinedRa {top : Bool} {f : Frame}
      (covers : f.site.Covers env.moduleFdetablesMap pidMaps (f.pc top))
      (ra : f.site.fdeRow.raCfaOffset = int32Max) :
      IsChain top [f] []
  | zeroRbp {top : Bool} {f : Frame} {cfa ra : UInt64}
      (covers : f.site.Covers env.moduleFdetablesMap pidMaps (f.pc top))
      (hcfa : rowCfa f.site.fdeRow f.regs.rsp f.regs.rbp = some cfa)
      (hrbp : f.site.fdeRow.rbpCfaOffset ≠ int32Max)
      (zero : env.readUser (savedAddr cfa f.site.fdeRow.rbpCfaOffset) = some 0)
      (hra : f.site.fdeRow.raCfaOffset ≠ int32Max)
      (read : env.readUser (savedAddr cfa f.site.fdeRow.raCfaOffset) = some ra) :
      IsChain top [f] [ra]
  | call {top : Bool} {f g : Frame} {frames : List Frame} {ras : List UInt64}
      {cfa rbp ra : UInt64}
      (covers : f.site.Covers env.moduleFdetablesMap pidMaps (f.pc top))
      (hcfa : rowCfa f.site.fdeRow f.regs.rsp f.regs.rbp = some cfa)
      (hrbp : callerRbp env f.site.fdeRow cfa f.regs.rbp = some rbp)
      (hra : f.site.fdeRow.raCfaOffset ≠ int32Max)
      (read : env.readUser (savedAddr cfa f.site.fdeRow.raCfaOffset) = some ra)
      (regs : g.regs = { rip := ra, rsp := cfa, rbp })
      (rest : IsChain false (g :: frames) ras) :
      IsChain top (f :: g :: frames) (ra :: ras)

/-- A walk with `room` steps left takes the frame of the last return address, and no
frame before it, for the bottom of the chain, unless there it runs out of steps. -/
def BottomAtLast : Nat → List Frame → List UInt64 → Prop
  | room, f :: _, [ra] => ra ≠ 0 ∧ (f.SavesZeroRbp env ∨ room = 1)
  | room + 1, f :: frames, _ :: ra :: ras =>
    ¬ f.SavesZeroRbp env ∧ BottomAtLast room frames (ra :: ras)
  | _, _, _ => False

end

section

variable {env : Env} {pidMaps : PidMaps}

theorem IsChain.covers {top : Bool} {f : Frame} {frames : List Frame} {ras : List UInt64}
    (h : IsChain env pidMaps top (f :: frames) ras) :
    f.site.Covers env.moduleFdetablesMap pidMaps (f.pc top) := by
  cases h with
  | undefinedRa covers | zeroRbp covers | call covers => exact covers

/-- A caller has a return address, since its call lies in a module. -/
theorem rip_ne_zero_of_covers {f : Frame}
    (h : f.site.Covers env.moduleFdetablesMap pidMaps (f.pc false)) : f.regs.rip ≠ 0 := by
  intro hzero
  have hlt := h.module.2
  rw [Frame.pc, hzero] at hlt
  have : (18446744073709551615 : UInt64).toNat < (pidMaps.modules f.site.slot).endAddr.toNat := hlt
  have hbound := (pidMaps.modules f.site.slot).endAddr.toNat_lt
  simp only [UInt64.reduceToNat] at this
  omega

/-- The lookup at the instruction pointer of a frame arrives at its site. -/
theorem lookup_of_covers {f : Frame} {top : Bool} (hinv : f.site.tables.Invariant)
    (hrows : f.site.tables.RowsIncreasing)
    (hcovers : f.site.Covers env.moduleFdetablesMap pidMaps (f.pc top))
    (hfound : f.site.FoundAt pidMaps f.regs.rip) :
    findFdeTableRowByPc env.moduleFdetablesMap pidMaps f.regs.rip = some f.site.fdeRow := by
  cases top with
  | true =>
      exact findFdeTableRowByPc_eq hinv hrows hcovers hfound
        (UInt64.le_of_lt hcovers.module.2) (UInt64.le_refl _)
  | false =>
      have hrip := rip_ne_zero_of_covers hcovers
      have hpos : 1 ≤ f.regs.rip := by
        rw [UInt64.le_iff_toNat_le]
        exact Nat.pos_of_ne_zero fun h => hrip (UInt64.toNat_inj.mp h)
      have hpred : (f.pc false).toNat = f.regs.rip.toNat - 1 := UInt64.toNat_sub_of_le _ _ hpos
      have hposNat : 1 ≤ f.regs.rip.toNat := hpos
      have hend : (f.pc false).toNat < (pidMaps.modules f.site.slot).endAddr.toNat :=
        hcovers.module.2
      refine findFdeTableRowByPc_eq hinv hrows hcovers hfound ?_ ?_
      · rw [UInt64.le_iff_toNat_le]
        omega
      · rw [UInt64.le_iff_toNat_le, hpred]
        omega

/-! ## One step -/

theorem pcs_pushFrame {usi : UnwindUserStackResolveData} {rip cfa rbp : UInt64}
    (h : usi.eSt.len.toNat < perfMaxStackDepth) :
    (pushFrame usi rip cfa rbp).eSt.pcs = usi.eSt.pcs ++ [rip] := by
  rw [pushFrame_of_room h]
  simp only [EhframeUserStack.pcs, updateU64_one h, List.range_succ, List.map_append,
    List.map_cons, List.map_nil, Function.update_self]
  congr 1
  apply List.map_congr_left
  intro k hk
  exact Function.update_of_ne (Nat.ne_of_lt (List.mem_range.mp hk)) _ _

theorem frameStep_of_lookup {w : Walker} {row : FdeTableRow} {cfa rbp rip : UInt64}
    (hlookup : findFdeTableRowByPc env.moduleFdetablesMap pidMaps w.rip = some row)
    (hcfa : rowCfa row w.rsp w.rbp = some cfa) (hrbp : callerRbp env row cfa w.rbp = some rbp)
    (hrip : callerRip env row cfa w.rip = .ok rip) :
    frameStep env pidMaps w =
      ({ usi := pushFrame w.usi rip cfa rbp
         rip
         rsp := if atBottom row rbp then w.rsp else cfa
         rbp
         ret := 0
         reachedBottom := atBottom row rbp }, atBottom row rbp) := by
  simp only [frameStep, hlookup, hcfa, hrbp, hrip]

theorem callerRip_of_read {row : FdeTableRow} {cfa rip ra : UInt64}
    (hra : row.raCfaOffset ≠ int32Max)
    (read : env.readUser (savedAddr cfa row.raCfaOffset) = some ra) :
    callerRip env row cfa rip = if ra = 0 then .error (-1) else .ok ra := by
  simp only [callerRip, if_pos hra, read]

theorem atBottom_iff {f : Frame} {cfa rbp : UInt64}
    (hcfa : rowCfa f.site.fdeRow f.regs.rsp f.regs.rbp = some cfa)
    (hrbp : callerRbp env f.site.fdeRow cfa f.regs.rbp = some rbp)
    (hra : f.site.fdeRow.raCfaOffset ≠ int32Max) :
    atBottom f.site.fdeRow rbp = true ↔ f.SavesZeroRbp env := by
  rw [atBottom, decide_eq_false hra, Bool.or_false, Bool.and_eq_true, decide_eq_true_eq,
    decide_eq_true_eq]
  constructor
  · rintro ⟨hsaved, rfl⟩
    rw [callerRbp, if_pos hsaved] at hrbp
    exact ⟨cfa, hcfa, hsaved, hrbp⟩
  · rintro ⟨cfa', hcfa', hsaved, hzero⟩
    rw [hcfa] at hcfa'
    cases hcfa'
    rw [callerRbp, if_pos hsaved, hzero] at hrbp
    exact ⟨hsaved, (Option.some.inj hrbp).symm⟩

/-- A walk that fails at a frame records nothing. -/
theorem run_failed {w : Walker} {n : Nat} {ret : Int32} (hret : ret ≠ 0)
    (h : frameStep env pidMaps w = ({ w with ret }, true)) :
    (BoundedLoop.run (frameStep env pidMaps) (n + 1) w).1.ret ≠ 0 := by
  rw [BoundedLoop.run_succ_of_break n (by rw [h]), h]
  exact hret

/-! ## Whole chains -/

/-- The walk has ended without an error and holds exactly these program counters. -/
def Walker.Records (w : Walker) (pcs : List UInt64) : Prop := w.ret = 0 ∧ w.usi.eSt.pcs = pcs

/-- A frame with an undefined return address is recorded a second time. -/
theorem run_undefinedRa {w : Walker} {n : Nat} {row : FdeTableRow}
    (hroom : w.usi.eSt.len.toNat < perfMaxStackDepth)
    (hlookup : findFdeTableRowByPc env.moduleFdetablesMap pidMaps w.rip = some row)
    (hra : row.raCfaOffset = int32Max) :
    ¬ (BoundedLoop.run (frameStep env pidMaps) (n + 1) w).1.Records w.usi.eSt.pcs := by
  rintro ⟨hret, hpcs⟩
  rcases frameStep_cases env pidMaps w with
    ⟨ret, hne, heq⟩ | ⟨row', cfa, rbp, rip, hlookup', -, -, -, heq⟩
  · exact run_failed hne heq hret
  · rw [hlookup] at hlookup'
    cases hlookup'
    have hbottom : atBottom row rbp = true := by simp [atBottom, hra]
    rw [BoundedLoop.run_succ_of_break n (by rw [heq]; exact hbottom), heq] at hpcs
    rw [pcs_pushFrame hroom] at hpcs
    simpa using congrArg List.length hpcs

/-- The first step at a frame that holds the return address `ra`. -/
theorem run_call (n : Nat) (pcs : List UInt64) {w : Walker} {depth : Nat} {f : Frame}
    {cfa rbp ra : UInt64} (hsaved : w.Saved depth) (hroom : depth < perfMaxStackDepth)
    (hregs : f.regs = { rip := w.rip, rsp := w.rsp, rbp := w.rbp })
    (hlookup : findFdeTableRowByPc env.moduleFdetablesMap pidMaps w.rip = some f.site.fdeRow)
    (hcfa : rowCfa f.site.fdeRow f.regs.rsp f.regs.rbp = some cfa)
    (hrbp : callerRbp env f.site.fdeRow cfa f.regs.rbp = some rbp)
    (hra : f.site.fdeRow.raCfaOffset ≠ int32Max)
    (read : env.readUser (savedAddr cfa f.site.fdeRow.raCfaOffset) = some ra) :
    (ra = 0 ∧ ¬ (BoundedLoop.run (frameStep env pidMaps) (n + 1) w).1.Records pcs) ∨
    (ra ≠ 0 ∧ f.SavesZeroRbp env ∧
      ((BoundedLoop.run (frameStep env pidMaps) (n + 1) w).1.Records pcs ↔
        w.usi.eSt.pcs ++ [ra] = pcs)) ∨
    (ra ≠ 0 ∧ ¬ f.SavesZeroRbp env ∧ ∃ w' : Walker, w'.Saved (depth + 1) ∧
      w'.usi.eSt.pcs = w.usi.eSt.pcs ++ [ra] ∧
      (⟨w'.rip, w'.rsp, w'.rbp⟩ : TaskUserspaceRegs) = { rip := ra, rsp := cfa, rbp } ∧
      BoundedLoop.run (frameStep env pidMaps) (n + 1) w =
        BoundedLoop.run (frameStep env pidMaps) n w') := by
  have hbottom := atBottom_iff hcfa hrbp hra
  have hlen : w.usi.eSt.len.toNat < perfMaxStackDepth := hsaved.len ▸ hroom
  have hrip : callerRip env f.site.fdeRow cfa w.rip = _ := callerRip_of_read hra read
  simp only [hregs] at hcfa hrbp
  by_cases hzero : ra = 0
  · refine .inl ⟨hzero, fun hrec => ?_⟩
    rw [if_pos hzero] at hrip
    have hstep : frameStep env pidMaps w = ({ w with ret := -1 }, true) := by
      simp only [frameStep, hlookup, hcfa, hrbp, hrip]
    exact run_failed (by decide) hstep hrec.1
  · rw [if_neg hzero] at hrip
    have hstep := frameStep_of_lookup hlookup hcfa hrbp hrip
    cases hb : atBottom f.site.fdeRow rbp with
    | true =>
        refine .inr (.inl ⟨hzero, hbottom.mp hb, ?_⟩)
        rw [BoundedLoop.run_succ_of_break n (by rw [hstep]; exact hb), hstep, Walker.Records,
          pcs_pushFrame hlen]
        exact ⟨fun h => h.2, fun h => ⟨rfl, h⟩⟩
    | false =>
        have hgo : (frameStep env pidMaps w).2 = false := by rw [hstep]; exact hb
        have hnonzero : ¬ f.SavesZeroRbp env := fun hz => by
          rw [hbottom.mpr hz] at hb
          cases hb
        refine .inr (.inr ⟨hzero, hnonzero, (frameStep env pidMaps w).1,
          frameStep_saved hsaved hroom hgo, ?_, ?_, BoundedLoop.run_succ_of_continue n hgo⟩)
        · rw [hstep]
          exact pcs_pushFrame hlen
        · rw [hstep]
          simp [hb]

/-- The lookup of a walk that has arrived at a frame. -/
theorem lookup_of_regs (htables : ∀ hash t, env.moduleFdetablesMap hash = some t →
      t.Invariant ∧ t.RowsIncreasing)
    {top : Bool} {f : Frame} {w : Walker}
    (hcovers : f.site.Covers env.moduleFdetablesMap pidMaps (f.pc top))
    (hregs : f.regs = { rip := w.rip, rsp := w.rsp, rbp := w.rbp })
    (hfound : f.site.FoundAt pidMaps f.regs.rip) :
    findFdeTableRowByPc env.moduleFdetablesMap pidMaps w.rip = some f.site.fdeRow := by
  obtain ⟨hinv, hrows⟩ := htables _ _ hcovers.tables
  simpa only [hregs] using lookup_of_covers hinv hrows hcovers hfound

/-- A walk that goes on behind a frame which does not look like the bottom. -/
theorem run_callers {w : Walker} {depth room : Nat} {f : Frame} {frames : List Frame} {ra : UInt64}
    {ras : List UInt64} (hw : w.Saved depth) (hne : ra ≠ 0) (hnonzero : ¬ f.SavesZeroRbp env)
    (hlen : ras.length ≤ room)
    (hrest : room ≠ 0 → ((BoundedLoop.run (frameStep env pidMaps) room w).1.Records
      (w.usi.eSt.pcs ++ ras) ↔ BottomAtLast env room frames ras)) :
    (BoundedLoop.run (frameStep env pidMaps) room w).1.Records (w.usi.eSt.pcs ++ ras) ↔
      BottomAtLast env (room + 1) (f :: frames) (ra :: ras) := by
  cases ras with
  | nil =>
      rw [BottomAtLast]
      cases room with
      | zero =>
          rw [List.append_nil]
          exact ⟨fun _ => ⟨hne, .inr rfl⟩, fun _ => ⟨hw.ret, rfl⟩⟩
      | succ room =>
          rw [hrest (Nat.succ_ne_zero room)]
          constructor
          · intro h
            cases frames <;> cases h
          · rintro ⟨-, h | h⟩
            · exact absurd h hnonzero
            · omega
  | cons ra' ras =>
      have hroom : room ≠ 0 := by
        simp only [List.length_cons] at hlen
        omega
      rw [hrest hroom, BottomAtLast]
      exact ⟨fun h => ⟨hnonzero, h⟩, fun h => h.2⟩

/-- What the rest of the walk makes of the rest of a chain. -/
theorem run_chain (htables : ∀ hash t, env.moduleFdetablesMap hash = some t →
      t.Invariant ∧ t.RowsIncreasing)
    {top : Bool} {frames : List Frame} {ras : List UInt64}
    (hchain : IsChain env pidMaps top frames ras) {w : Walker} {depth room : Nat}
    (hsaved : w.Saved depth) (hroom : depth + (room + 1) = perfMaxStackDepth)
    (hlen : ras.length ≤ room + 1)
    (hregs : frames.head?.map Frame.regs = some { rip := w.rip, rsp := w.rsp, rbp := w.rbp })
    (hfound : ∀ f ∈ frames.take (room + 1), f.site.FoundAt pidMaps f.regs.rip) :
    (BoundedLoop.run (frameStep env pidMaps) (room + 1) w).1.Records (w.usi.eSt.pcs ++ ras) ↔
      BottomAtLast env (room + 1) frames ras := by
  induction hchain generalizing w depth room with
  | @undefinedRa top f covers hra =>
      have hregs : f.regs = _ := Option.some.inj hregs
      have hlookup := lookup_of_regs htables covers hregs (hfound f (by simp))
      rw [List.append_nil]
      constructor
      · intro hrec
        exact absurd hrec (run_undefinedRa (hsaved.len ▸ by omega) hlookup hra)
      · intro h
        cases h
  | @zeroRbp top f cfa ra covers hcfa hrbp zero hra read =>
      have hregs : f.regs = _ := Option.some.inj hregs
      have hlookup := lookup_of_regs htables covers hregs (hfound f (by simp))
      have hcaller : callerRbp env f.site.fdeRow cfa f.regs.rbp = some 0 := by
        rw [callerRbp, if_pos hrbp, zero]
      have hzero : f.SavesZeroRbp env := ⟨cfa, hcfa, hrbp, zero⟩
      rw [BottomAtLast]
      obtain ⟨h0, hno⟩ | ⟨h0, -, hiff⟩ | ⟨-, hnonzero, -⟩ := run_call room
        (w.usi.eSt.pcs ++ [ra]) hsaved (by omega) hregs hlookup hcfa hcaller hra read
      · exact ⟨fun h => absurd h hno, fun h => absurd h0 h.1⟩
      · exact ⟨fun _ => ⟨h0, .inl hzero⟩, fun _ => hiff.mpr rfl⟩
      · exact absurd hzero hnonzero
  | @call top f g frames ras cfa rbp ra covers hcfa hrbp hra read regs rest ih =>
      have hregs : f.regs = _ := Option.some.inj hregs
      have hlookup := lookup_of_regs htables covers hregs (hfound f (by simp))
      have hne : ra ≠ 0 := by
        have := rip_ne_zero_of_covers rest.covers
        rwa [regs] at this
      obtain ⟨h0, -⟩ | ⟨-, hzero, hiff⟩ | ⟨-, hnonzero, w', hw', hpcs, hregs', hrun⟩ :=
        run_call room (w.usi.eSt.pcs ++ ra :: ras) hsaved (by omega) hregs hlookup hcfa hrbp hra
          read
      · exact absurd h0 hne
      · -- the walk stops here, so this has to be the last return address
        rw [hiff]
        cases ras with
        | nil => exact ⟨fun _ => ⟨hne, .inl hzero⟩, fun _ => rfl⟩
        | cons ra' ras =>
            refine ⟨fun h => ?_, fun h => absurd hzero h.1⟩
            simpa using congrArg List.length h
      · have hsplit : w.usi.eSt.pcs ++ ra :: ras = w'.usi.eSt.pcs ++ ras := by simp [hpcs]
        rw [hrun, hsplit]
        refine run_callers hw' hne hnonzero (by simpa using hlen) fun hmore => ?_
        obtain ⟨r, rfl⟩ := Nat.exists_eq_succ_of_ne_zero hmore
        refine ih hw' (by omega) (by simpa using hlen) ?_ fun f hf => hfound f ?_
        · simp only [List.head?_cons, Option.map_some, regs, hregs']
        · rw [List.take_succ_cons]
          exact List.mem_cons_of_mem _ hf

/-- The sample of a walk is the process with exactly these program counters. -/
def RecordsStack (r : WalkResult) (pid : Int32) (pcs : List UInt64) : Prop :=
  ∃ st, r.sample = some (pid, st) ∧ st.pcs = pcs

end

/-! A process with three functions of sixteen bytes each. The third one is running;
the first one, whose frame holds two words, has called it and is the outermost. -/

def chainTables : ModuleFdeTables :=
  { refCount := 1
    fdeTableCount := 3
    fdeInfos := fun i =>
      { start := UInt64.ofNat (0x1000 + 16 * i), end_ := UInt64.ofNat (0x1010 + 16 * i)
        rowPos := i, rowCount := 1 }
    fdeRows := fun i =>
      { loc := UInt64.ofNat (0x1000 + 16 * i)
        cfa := { reg := 7, offset := if i = 0 then 24 else 8 }
        rbpCfaOffset := if i = 0 then -16 else int32Max
        raCfaOffset := -8 } }

def chainMaps : PidMaps :=
  { modules := fun i => if i = 0 then
      { startAddr := 0x1000, endAddr := 0x2000, buildIdHash := 5, type := .exec } else {}
    moduleCount := 1 }

/-- The memory of the process when the call in the first function returns to `ra`. -/
def chainEnv (ra : UInt64) : Env :=
  { pidModulesMap := fun pid => if pid = 7 then some chainMaps else none
    moduleFdetablesMap := fun hash => if hash = 5 then some chainTables else none
    readUser := fun a => some (if a = 0x7000 then ra else if a = 0x7018 then 0x1999 else 0) }

def chainRegs : TaskUserspaceRegs := { rip := 0x1024, rsp := 0x7000, rbp := 0x5555 }

def calleeSite : Site := { slot := 0, tables := chainTables, info := 2, row := 0 }

def callerSite : Site := { slot := 0, tables := chainTables, info := 0, row := 0 }

def chainFrames (ra : UInt64) : List Frame :=
  [{ regs := chainRegs, site := calleeSite },
   { regs := { rip := ra, rsp := 0x7008, rbp := 0x5555 }, site := callerSite }]

theorem chainTables_ok : chainTables.Invariant ∧ chainTables.RowsIncreasing := by
  have starts : ∀ i, i < 3 → ∀ j, j < 3 → i ≤ j →
      (chainTables.fdeInfos i).start ≤ (chainTables.fdeInfos j).start := by decide
  refine ⟨⟨by decide, fun i j hij hj => ?_, fun i _ => Nat.le_refl 1, fun i hi => ?_,
    fun i j _ _ hne => ?_, fun i _ => rfl⟩, fun i _ k k' hk hk' => ?_⟩
  · have hj : j < 3 := hj
    exact starts i (by omega) j hj hij
  · have hi : i < 3 := hi
    change i + 1 ≤ 46080
    omega
  · change i + 1 ≤ j ∨ j + 1 ≤ i
    omega
  · have hk' : k' < 1 := hk'
    omega

theorem chainEnv_tables (ra : UInt64) (hash : UInt64) (t : ModuleFdeTables)
    (h : (chainEnv ra).moduleFdetablesMap hash = some t) : t.Invariant ∧ t.RowsIncreasing := by
  simp only [chainEnv] at h
  split at h
  · cases h
    exact chainTables_ok
  · cases h

theorem callerSite_covers (ra : UInt64) {pc : UInt64} (hlow : 0x1000 ≤ pc) (hhigh : pc < 0x1010) :
    callerSite.Covers (chainEnv ra).moduleFdetablesMap chainMaps pc :=
  ⟨by decide, ⟨hlow, UInt64.lt_trans hhigh (by decide)⟩, rfl, by decide, ⟨hlow, hhigh⟩, by decide,
    hlow, fun _ hk _ => Nat.le_of_lt_succ hk⟩

theorem caller_cfa : rowCfa callerSite.fdeRow 0x7008 0x5555 = some 0x7020 := by decide

theorem caller_reads_rbp (ra : UInt64) :
    (chainEnv ra).readUser (savedAddr 0x7020 callerSite.fdeRow.rbpCfaOffset) = some 0 := by
  have : savedAddr 0x7020 callerSite.fdeRow.rbpCfaOffset = 0x7010 := by decide
  rw [this]
  rfl

theorem caller_reads_ra (ra : UInt64) :
    (chainEnv ra).readUser (savedAddr 0x7020 callerSite.fdeRow.raCfaOffset) = some 0x1999 := by
  have : savedAddr 0x7020 callerSite.fdeRow.raCfaOffset = 0x7018 := by decide
  rw [this]
  rfl

/-- The call may be anywhere in the first function, up to its last byte. -/
theorem isChain_chainFrames (ra : UInt64) (hlow : 0x1000 ≤ ra - 1) (hhigh : ra - 1 < 0x1010) :
    IsChain (chainEnv ra) chainMaps true (chainFrames ra) [ra, 0x1999] := by
  have hcallee : calleeSite.Covers (chainEnv ra).moduleFdetablesMap chainMaps 0x1024 :=
    ⟨by decide, by decide, rfl, by decide, by decide, by decide, by decide,
      fun _ hk _ => Nat.le_of_lt_succ hk⟩
  have hrbp : callerSite.fdeRow.rbpCfaOffset ≠ int32Max := by decide
  have hra : callerSite.fdeRow.raCfaOffset ≠ int32Max := by decide
  exact .call hcallee rfl rfl (by decide) rfl rfl
    (.zeroRbp (callerSite_covers ra hlow hhigh) caller_cfa hrbp (caller_reads_rbp ra) hra
      (caller_reads_ra ra))

end XMonitor.Profile
