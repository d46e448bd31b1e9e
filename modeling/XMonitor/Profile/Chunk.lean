import XMonitor.Profile.Walk

/-!
# The chunked walk is one loop

A walk is cut into programs of seven steps. Between two programs only the saved
record survives, so the next program is right to start from it only if the record
holds the locals of the loop. That is the case after every step that goes on while
there is room for another frame, which is all that a tail call can see.
-/

namespace XMonitor.Profile

/-- The walk as a single loop of `n` steps. -/
def plainWalk (env : Env) (pidMaps : PidMaps) (n : Nat) (usi : UnwindUserStackResolveData) :
    Walker :=
  (BoundedLoop.run (frameStep env pidMaps) n (.start usi)).1

/-- The walk is under way with `depth` frames, and the record holds its locals. -/
structure Walker.Saved (w : Walker) (depth : Nat) : Prop where
  len : w.usi.eSt.len.toNat = depth
  regs : w.usi.regs = { rip := w.rip, rsp := w.rsp, rbp := w.rbp }
  ret : w.ret = 0
  bottom : w.reachedBottom = false

theorem Walker.Saved.start_eq {w : Walker} {depth : Nat} (h : w.Saved depth) :
    Walker.start w.usi = w := by
  obtain ⟨usi, rip, rsp, rbp, ret, bottom⟩ := w
  obtain ⟨-, hregs, hret, hbottom⟩ := h
  change usi.regs = ⟨rip, rsp, rbp⟩ at hregs
  obtain rfl : ret = 0 := hret
  obtain rfl : bottom = false := hbottom
  simp only [Walker.start, hregs]

/-! ## One step -/

section

variable {env : Env} {pidMaps : PidMaps} {w : Walker}

theorem updateU64_one {len : UInt64} (h : len.toNat < perfMaxStackDepth) :
    (updateU64 len 1).toNat = len.toNat + 1 := by
  have hlt : len.toNat < 127 := h
  have hsucc : (len + 1).toNat = len.toNat + 1 := by
    rw [UInt64.toNat_add]
    exact Nat.mod_eq_of_lt (by simp only [UInt64.reduceToNat]; omega)
  have hroom : ¬ 0xFFFFFFFFFFFFFFFF - (len + 1) ≤ 1 := by
    rw [UInt64.le_iff_toNat_le, UInt64.toNat_sub_of_le, hsucc]
    · simp only [UInt64.reduceToNat]
      omega
    · rw [UInt64.le_iff_toNat_le, hsucc]
      simp only [UInt64.reduceToNat]
      omega
  rw [updateU64, if_neg hroom, hsucc]

theorem lt_perfMaxStackDepth {len : UInt64} :
    len < UInt64.ofNat perfMaxStackDepth ↔ len.toNat < perfMaxStackDepth := by
  rw [UInt64.lt_iff_toNat_lt]
  rfl

/-- Everything a step can do: it fails and leaves the record alone, or it stores the
caller of the frame and stops at the bottom. -/
theorem frameStep_cases (env : Env) (pidMaps : PidMaps) (w : Walker) :
    (∃ ret, ret ≠ 0 ∧ frameStep env pidMaps w = ({ w with ret }, true)) ∨
    ∃ row cfa rbp rip,
      findFdeTableRowByPc env.moduleFdetablesMap pidMaps w.rip = some row ∧
      rowCfa row w.rsp w.rbp = some cfa ∧ callerRbp env row cfa w.rbp = some rbp ∧
      callerRip env row cfa w.rip = .ok rip ∧
      frameStep env pidMaps w =
        ({ usi := pushFrame w.usi rip cfa rbp
           rip
           rsp := if atBottom row rbp then w.rsp else cfa
           rbp
           ret := 0
           reachedBottom := atBottom row rbp }, atBottom row rbp) := by
  rw [frameStep]
  split
  · exact .inl ⟨-1, by decide, rfl⟩
  rename_i row hrow
  split
  · exact .inl ⟨-1, by decide, rfl⟩
  rename_i cfa hcfa
  split
  · exact .inl ⟨efault, by decide, rfl⟩
  rename_i rbp hrbp
  split
  · rename_i ret hrip
    refine .inl ⟨ret, ?_, rfl⟩
    rw [callerRip] at hrip
    split at hrip
    · split at hrip
      · cases hrip
        decide
      · split at hrip
        · cases hrip
          decide
        · cases hrip
    · cases hrip
  · rename_i rip hrip
    exact .inr ⟨row, cfa, rbp, rip, hrow, hcfa, hrbp, hrip, rfl⟩

theorem pushFrame_of_room {usi : UnwindUserStackResolveData} {rip cfa rbp : UInt64}
    (h : usi.eSt.len.toNat < perfMaxStackDepth) :
    pushFrame usi rip cfa rbp =
      { usi with
        eSt :=
          { len := updateU64 usi.eSt.len 1
            pcLst := Function.update usi.eSt.pcLst usi.eSt.len.toNat rip }
        regs := { rip, rsp := cfa, rbp } } := by
  rw [pushFrame, if_pos (lt_perfMaxStackDepth.mpr h)]

/-- A step that goes on has saved its locals. -/
theorem frameStep_saved {depth : Nat} (h : w.Saved depth) (hroom : depth < perfMaxStackDepth)
    (hgo : (frameStep env pidMaps w).2 = false) :
    (frameStep env pidMaps w).1.Saved (depth + 1) := by
  obtain ⟨ret, -, heq⟩ | ⟨row, cfa, rbp, rip, -, -, -, -, heq⟩ := frameStep_cases env pidMaps w
  · rw [heq] at hgo
    cases hgo
  · rw [heq] at hgo ⊢
    have hgo : atBottom row rbp = false := hgo
    have hlen : w.usi.eSt.len.toNat < perfMaxStackDepth := h.len ▸ hroom
    refine ⟨?_, ?_, rfl, hgo⟩
    · simp only [pushFrame_of_room hlen]
      rw [updateU64_one hlen, h.len]
    · simp [pushFrame_of_room hlen, hgo]

/-- A step that stops has failed or has reached the bottom. -/
theorem frameStep_stop (h : (frameStep env pidMaps w).2 = true) :
    (frameStep env pidMaps w).1.ret ≠ 0 ∨ (frameStep env pidMaps w).1.reachedBottom = true := by
  obtain ⟨ret, hret, heq⟩ | ⟨row, cfa, rbp, rip, -, -, -, -, heq⟩ := frameStep_cases env pidMaps w
  · rw [heq]
    exact .inl hret
  · rw [heq] at h ⊢
    exact .inr h

theorem pushFrame_len_le {usi : UnwindUserStackResolveData} {rip cfa rbp : UInt64}
    (h : usi.eSt.len.toNat ≤ perfMaxStackDepth) :
    (pushFrame usi rip cfa rbp).eSt.len.toNat ≤ perfMaxStackDepth := by
  rw [pushFrame]
  split
  · rename_i hroom
    have hroom := lt_perfMaxStackDepth.mp hroom
    rw [updateU64_one hroom]
    exact hroom
  · exact h

theorem frameStep_len_le (h : w.usi.eSt.len.toNat ≤ perfMaxStackDepth) :
    (frameStep env pidMaps w).1.usi.eSt.len.toNat ≤ perfMaxStackDepth := by
  obtain ⟨ret, -, heq⟩ | ⟨row, cfa, rbp, rip, -, -, -, -, heq⟩ := frameStep_cases env pidMaps w
  · rw [heq]
    exact h
  · rw [heq]
    exact pushFrame_len_le h

theorem frameStep_record :
    (frameStep env pidMaps w).1.usi.pid = w.usi.pid ∧
      (frameStep env pidMaps w).1.usi.tailCallCount = w.usi.tailCallCount := by
  obtain ⟨ret, -, heq⟩ | ⟨row, cfa, rbp, rip, -, -, -, -, heq⟩ := frameStep_cases env pidMaps w
  · rw [heq]
    exact ⟨rfl, rfl⟩
  · rw [heq, pushFrame]
    split <;> exact ⟨rfl, rfl⟩

/-- The same walk with another number of tail calls. -/
def Walker.withCount (count : UInt32) (w : Walker) : Walker :=
  { w with usi := { w.usi with tailCallCount := count } }

theorem pushFrame_withCount (usi : UnwindUserStackResolveData) (rip cfa rbp : UInt64)
    (count : UInt32) : pushFrame { usi with tailCallCount := count } rip cfa rbp =
      { pushFrame usi rip cfa rbp with tailCallCount := count } := by
  rw [pushFrame, pushFrame]
  split <;> rfl

/-- No step looks at the number of tail calls. -/
theorem frameStep_withCount (count : UInt32) :
    frameStep env pidMaps (w.withCount count) =
      ((frameStep env pidMaps w).1.withCount count, (frameStep env pidMaps w).2) := by
  simp only [frameStep, Walker.withCount, pushFrame_withCount]
  split
  · rfl
  split
  · rfl
  split
  · rfl
  split <;> rfl

/-! ## Runs -/

theorem run_saved {depth : Nat} (h : w.Saved depth) (n : Nat)
    (hroom : depth + n ≤ perfMaxStackDepth) :
    if (BoundedLoop.run (frameStep env pidMaps) n w).2 then
      (BoundedLoop.run (frameStep env pidMaps) n w).1.ret ≠ 0 ∨
        (BoundedLoop.run (frameStep env pidMaps) n w).1.reachedBottom = true
    else (BoundedLoop.run (frameStep env pidMaps) n w).1.Saved (depth + n) := by
  -- the invariant speaks only about depths for which there is room
  have hrun := BoundedLoop.run_counted (frameStep env pidMaps)
    (P := fun k w => depth + k ≤ perfMaxStackDepth → w.Saved (depth + k))
    (Q := fun w => w.ret ≠ 0 ∨ w.reachedBottom = true)
    (by
      intro k v hv hgo hle
      exact frameStep_saved (hv (Nat.le_of_succ_le hle)) hle hgo)
    (fun _ _ _ hstop => frameStep_stop hstop) n 0 w (fun _ => h)
  rw [Nat.zero_add] at hrun
  split
  · rwa [if_pos ‹_›] at hrun
  · rw [if_neg ‹_›] at hrun
    exact hrun hroom

theorem run_record (n : Nat) :
    (BoundedLoop.run (frameStep env pidMaps) n w).1.usi.pid = w.usi.pid ∧
      (BoundedLoop.run (frameStep env pidMaps) n w).1.usi.tailCallCount = w.usi.tailCallCount :=
  BoundedLoop.run_preserves (frameStep env pidMaps)
    (P := fun v => v.usi.pid = w.usi.pid ∧ v.usi.tailCallCount = w.usi.tailCallCount)
    (fun _ hv => ⟨frameStep_record.1.trans hv.1, frameStep_record.2.trans hv.2⟩) n w ⟨rfl, rfl⟩

theorem run_len_le (n : Nat) (h : w.usi.eSt.len.toNat ≤ perfMaxStackDepth) :
    (BoundedLoop.run (frameStep env pidMaps) n w).1.usi.eSt.len.toNat ≤ perfMaxStackDepth :=
  BoundedLoop.run_preserves (frameStep env pidMaps)
    (P := fun v => v.usi.eSt.len.toNat ≤ perfMaxStackDepth)
    (fun _ hv => frameStep_len_le hv) n w h

theorem run_withCount (count : UInt32) (n : Nat) :
    (BoundedLoop.run (frameStep env pidMaps) n (w.withCount count)).1 =
      (BoundedLoop.run (frameStep env pidMaps) n w).1.withCount count := by
  refine (BoundedLoop.run_rel (frameStep env pidMaps) (frameStep env pidMaps)
    (R := fun v v' => v' = v.withCount count) ?_ n w _ rfl).1
  rintro v _ rfl
  rw [frameStep_withCount]
  exact ⟨rfl, rfl⟩

end

/-! ## Programs -/

section

variable {env : Env} {pidMaps : PidMaps}

/-- One program of a walk that has `m` programs left after it. -/
theorem getUserStack_cases {usi : UnwindUserStackResolveData} {m : Nat} {run : Walker × Bool}
    (heq : BoundedLoop.run (frameStep env pidMaps) maxStackDepthPerProgram (.start usi) = run)
    (hm : m < maxTailCallCount)
    (hsaved : (Walker.start usi).Saved (perfMaxStackDepth - maxStackDepthPerProgram * (m + 1)))
    (hcount : usi.tailCallCount.toNat = maxTailCallCount - (m + 1)) :
    ((run.2 = true ∨ m = 0) ∧ getUserStack env pidMaps usi =
      { usi := run.1.usi, ret := run.1.ret, tailCall := false }) ∨
    (run.2 = false ∧ 0 < m ∧ run.1.Saved (perfMaxStackDepth - maxStackDepthPerProgram * m) ∧
      getUserStack env pidMaps usi =
        { usi := { run.1.usi with tailCallCount := usi.tailCallCount + 1 }
          ret := run.1.ret
          tailCall := true }) := by
  have hm18 : m < 18 := hm
  have hrun : if run.2 then run.1.ret ≠ 0 ∨ run.1.reachedBottom = true
      else run.1.Saved (perfMaxStackDepth - maxStackDepthPerProgram * (m + 1) +
        maxStackDepthPerProgram) :=
    heq ▸ run_saved hsaved maxStackDepthPerProgram (by
      change 127 - 7 * (m + 1) + 7 ≤ 127
      omega)
  rw [getUserStack, heq]
  by_cases hstop : run.2 = true
  · rw [if_pos hstop] at hrun
    refine .inl ⟨.inl hstop, ?_⟩
    rw [if_neg]
    rintro ⟨hret, hbottom, -⟩
    obtain h | h := hrun
    · exact h hret
    · exact absurd (h.symm.trans hbottom) (by decide)
  · rw [if_neg hstop] at hrun
    have hdepth : perfMaxStackDepth - maxStackDepthPerProgram * (m + 1) + maxStackDepthPerProgram =
        perfMaxStackDepth - maxStackDepthPerProgram * m := by
      change 127 - 7 * (m + 1) + 7 = 127 - 7 * m
      omega
    rw [hdepth] at hrun
    have htcc : run.1.usi.tailCallCount = usi.tailCallCount :=
      heq ▸ (run_record maxStackDepthPerProgram).2
    by_cases hlast : m = 0
    · -- the last program has filled the record
      refine .inl ⟨.inr hlast, ?_⟩
      rw [if_neg]
      rintro ⟨-, -, hlen, -⟩
      have := lt_perfMaxStackDepth.mp hlen
      rw [hrun.len, hlast] at this
      exact Nat.lt_irrefl _ this
    · refine .inr ⟨by simpa using hstop, Nat.pos_of_ne_zero hlast, hrun, ?_⟩
      have hlen : run.1.usi.eSt.len < UInt64.ofNat perfMaxStackDepth := by
        rw [lt_perfMaxStackDepth, hrun.len]
        change 127 - 7 * m < 127
        omega
      have hcalls : run.1.usi.tailCallCount < UInt32.ofNat (maxTailCallCount - 1) := by
        rw [UInt32.lt_iff_toNat_lt, htcc, hcount]
        change 18 - (m + 1) < 17
        omega
      rw [if_pos ⟨hrun.ret, hrun.bottom, hlen, hcalls⟩, htcc]

theorem walkUserStacktrace_of_finish {calls : Nat} {usi : UnwindUserStackResolveData}
    {w : Walker} (hpid : env.pidModulesMap usi.pid = some pidMaps)
    (hr : getUserStack env pidMaps usi = { usi := w.usi, ret := w.ret, tailCall := false }) :
    walkUserStacktrace env calls usi =
      { usi := w.usi, sample := sampleOf w.usi w.ret, programs := 1 } := by
  cases calls with
  | zero => simp only [walkUserStacktrace, walkProgram, hpid, hr]
  | succ calls =>
      simp only [walkUserStacktrace, walkProgram, hpid, hr]
      exact if_neg Bool.false_ne_true

theorem walkUserStacktrace_of_tailCall {calls : Nat} {usi usi' : UnwindUserStackResolveData}
    {ret : Int32} (hpid : env.pidModulesMap usi.pid = some pidMaps)
    (hr : getUserStack env pidMaps usi = { usi := usi', ret, tailCall := true }) :
    walkUserStacktrace env (calls + 1) usi =
      { walkUserStacktrace env calls usi' with
        programs := (walkUserStacktrace env calls usi').programs + 1 } := by
  rw [walkUserStacktrace, walkProgram]
  simp only [hpid, hr, if_true]

section Next

variable {w : Walker} {depth : Nat}

theorem Walker.Saved.start_withCount (h : w.Saved depth) (count : UInt32) :
    Walker.start { w.usi with tailCallCount := count } = w.withCount count := by
  conv_rhs => rw [← h.start_eq]
  rfl

theorem Walker.Saved.withCount (h : w.Saved depth) (count : UInt32) :
    (w.withCount count).Saved depth := ⟨h.len, h.regs, h.ret, h.bottom⟩

/-- The next program goes on where this one has saved its state. -/
theorem plainWalk_next (h : w.Saved depth) (count : UInt32) (n : Nat) :
    plainWalk env pidMaps n { w.usi with tailCallCount := count } =
      (BoundedLoop.run (frameStep env pidMaps) n w).1.withCount count := by
  rw [plainWalk, h.start_withCount, run_withCount]

end Next

theorem walkUserStacktrace_of_noCalls {usi : UnwindUserStackResolveData}
    (hpid : env.pidModulesMap usi.pid = some pidMaps) :
    walkUserStacktrace env 0 usi =
      { usi := (getUserStack env pidMaps usi).usi
        sample := sampleOf (getUserStack env pidMaps usi).usi (getUserStack env pidMaps usi).ret
        programs := 1 } := by
  simp only [walkUserStacktrace, walkProgram, hpid]

/-- The programs that are left do what the rest of the plain loop does, as far as the kernel
admits their calls. -/
theorem walkUserStacktrace_eq_of_calls (m calls : Nat) {usi : UnwindUserStackResolveData}
    (hpid : env.pidModulesMap usi.pid = some pidMaps) (hm : m < maxTailCallCount)
    (hsaved : (Walker.start usi).Saved (perfMaxStackDepth - maxStackDepthPerProgram * (m + 1)))
    (hcount : usi.tailCallCount.toNat = maxTailCallCount - (m + 1)) :
    (walkUserStacktrace env calls usi).usi.eSt =
        (plainWalk env pidMaps (maxStackDepthPerProgram * (min m calls + 1)) usi).usi.eSt ∧
      (walkUserStacktrace env calls usi).sample =
        sampleOf (plainWalk env pidMaps (maxStackDepthPerProgram * (min m calls + 1)) usi).usi
          (plainWalk env pidMaps (maxStackDepthPerProgram * (min m calls + 1)) usi).ret ∧
      (walkUserStacktrace env calls usi).programs ≤ m + 1 := by
  induction m generalizing calls usi with
  | zero =>
      generalize hrun : BoundedLoop.run (frameStep env pidMaps) maxStackDepthPerProgram
        (.start usi) = run
      have hplain : plainWalk env pidMaps (maxStackDepthPerProgram * (min 0 calls + 1)) usi =
          run.1 := by
        rw [plainWalk, Nat.zero_min, Nat.zero_add, Nat.mul_one, hrun]
      obtain ⟨-, hr⟩ | ⟨-, hpos, -⟩ := getUserStack_cases hrun hm hsaved hcount
      · rw [walkUserStacktrace_of_finish hpid hr, hplain]
        exact ⟨rfl, rfl, Nat.le_refl _⟩
      · exact absurd hpos (Nat.lt_irrefl 0)
  | succ m ih =>
      generalize hrun : BoundedLoop.run (frameStep env pidMaps) maxStackDepthPerProgram
        (.start usi) = run
      have hcases := getUserStack_cases hrun hm hsaved hcount
      cases calls with
      | zero =>
          -- the tail call fails, and the program ends
          have hplain : plainWalk env pidMaps
              (maxStackDepthPerProgram * (min (m + 1) 0 + 1)) usi = run.1 := by
            rw [plainWalk, Nat.min_zero, Nat.zero_add, Nat.mul_one, hrun]
          rw [walkUserStacktrace_of_noCalls hpid, hplain]
          obtain ⟨-, hr⟩ | ⟨-, -, -, hr⟩ := hcases
          · rw [hr]
            exact ⟨rfl, rfl, Nat.le_add_left _ _⟩
          · rw [hr]
            exact ⟨rfl, rfl, Nat.le_add_left _ _⟩
      | succ calls =>
          have hsplit : maxStackDepthPerProgram * (min (m + 1) (calls + 1) + 1) =
              maxStackDepthPerProgram + maxStackDepthPerProgram * (min m calls + 1) := by
            rw [Nat.add_min_add_right, Nat.mul_succ, Nat.add_comm]
          have hplain :
              plainWalk env pidMaps (maxStackDepthPerProgram * (min (m + 1) (calls + 1) + 1)) usi =
              (if run.2 then run else BoundedLoop.run (frameStep env pidMaps)
                (maxStackDepthPerProgram * (min m calls + 1)) run.1).1 := by
            rw [plainWalk, hsplit, BoundedLoop.run_add, hrun]
          rw [hplain]
          obtain ⟨hstop, hr⟩ | ⟨hgo, -, hnext, hr⟩ := hcases
          · rw [walkUserStacktrace_of_finish hpid hr,
              if_pos (hstop.resolve_right (Nat.succ_ne_zero m))]
            exact ⟨rfl, rfl, Nat.le_add_left _ _⟩
          · rw [walkUserStacktrace_of_tailCall hpid hr,
              if_neg (by rw [hgo]; exact Bool.false_ne_true)]
            generalize hw : run.1 = w at hnext ⊢
            have hrec : w.usi.pid = usi.pid := by
              rw [← hw, ← hrun]
              exact (run_record maxStackDepthPerProgram).1
            have hm18 : m + 1 < 18 := hm
            have hc : usi.tailCallCount.toNat = 18 - (m + 1 + 1) := hcount
            have hrest : plainWalk env pidMaps (maxStackDepthPerProgram * (min m calls + 1))
                { w.usi with tailCallCount := usi.tailCallCount + 1 } =
                  (BoundedLoop.run (frameStep env pidMaps)
                    (maxStackDepthPerProgram * (min m calls + 1)) w).1.withCount
                      (usi.tailCallCount + 1) := plainWalk_next hnext _ _
            generalize husi : ({ w.usi with tailCallCount := usi.tailCallCount + 1 } :
              UnwindUserStackResolveData) = usi' at hrest ⊢
            have hpid' : env.pidModulesMap usi'.pid = some pidMaps := by
              rw [← hpid, ← husi]
              exact congrArg _ hrec
            have hsaved' : (Walker.start usi').Saved
                (perfMaxStackDepth - maxStackDepthPerProgram * (m + 1)) := by
              rw [← husi, hnext.start_withCount]
              exact hnext.withCount _
            have hcount' : usi'.tailCallCount.toNat = maxTailCallCount - (m + 1) := by
              rw [← husi, UInt32.toNat_add, hc]
              change (18 - (m + 1 + 1) + 1) % 4294967296 = 18 - (m + 1)
              omega
            obtain ⟨hst, hsample, hprograms⟩ :=
              ih calls hpid' (Nat.lt_of_succ_lt hm) hsaved' hcount'
            rw [hrest] at hst hsample
            exact ⟨hst, hsample, Nat.succ_le_succ hprograms⟩

/-- The programs that are left do what the rest of the plain loop does. -/
theorem walkUserStacktrace_eq (m : Nat) {calls : Nat} {usi : UnwindUserStackResolveData}
    (hpid : env.pidModulesMap usi.pid = some pidMaps) (hm : m < maxTailCallCount)
    (hcalls : m ≤ calls)
    (hsaved : (Walker.start usi).Saved (perfMaxStackDepth - maxStackDepthPerProgram * (m + 1)))
    (hcount : usi.tailCallCount.toNat = maxTailCallCount - (m + 1)) :
    (walkUserStacktrace env calls usi).usi.eSt =
        (plainWalk env pidMaps (maxStackDepthPerProgram * (m + 1)) usi).usi.eSt ∧
      (walkUserStacktrace env calls usi).sample =
        sampleOf (plainWalk env pidMaps (maxStackDepthPerProgram * (m + 1)) usi).usi
          (plainWalk env pidMaps (maxStackDepthPerProgram * (m + 1)) usi).ret ∧
      (walkUserStacktrace env calls usi).programs ≤ m + 1 := by
  have hall := walkUserStacktrace_eq_of_calls m calls hpid hm hsaved hcount
  rwa [Nat.min_eq_left hcalls] at hall

theorem start_initUnwind_saved (pid : Int32) (regs : TaskUserspaceRegs) :
    (Walker.start (initUnwind pid regs)).Saved 1 := ⟨rfl, rfl, rfl, rfl⟩

theorem doPerfEvent_spec {calls : Nat} {pid : Int32} {userRegs stackRegs : TaskUserspaceRegs}
    (hpid : env.pidModulesMap pid = some pidMaps) (hcalls : maxTailCallCount ≤ calls) {w : Walker}
    (hw : plainWalk env pidMaps 126
      (initUnwind pid (getTaskUserspaceRegs userRegs stackRegs)) = w) :
    (doPerfEvent env calls pid userRegs stackRegs).usi.eSt = w.usi.eSt ∧
      (doPerfEvent env calls pid userRegs stackRegs).sample = sampleOf w.usi w.ret ∧
      (doPerfEvent env calls pid userRegs stackRegs).programs ≤ maxTailCallCount := by
  have hcalls18 : 18 ≤ calls := hcalls
  obtain ⟨calls, rfl⟩ : ∃ n, calls = n + 1 := ⟨calls - 1, by omega⟩
  have hpid' : env.pidModulesMap
      (initUnwind pid (getTaskUserspaceRegs userRegs stackRegs)).pid = some pidMaps := hpid
  rw [← hw]
  exact walkUserStacktrace_eq 17 hpid' (by decide) (Nat.le_of_succ_le_succ hcalls18)
    (start_initUnwind_saved pid _) rfl

/-- A walk whose tail calls succeed ends as the single loop of 126 steps does: with
the same program counters and the same length, and with a sample exactly if that
loop has no error. It stays within the array and within eighteen programs. -/
theorem doPerfEvent_eq_plainWalk (env : Env) (calls : Nat) (pid : Int32)
    (userRegs stackRegs : TaskUserspaceRegs) (pidMaps : PidMaps)
    (hpid : env.pidModulesMap pid = some pidMaps) (hcalls : maxTailCallCount ≤ calls) :
    let r := doPerfEvent env calls pid userRegs stackRegs
    let w := plainWalk env pidMaps 126 (initUnwind pid (getTaskUserspaceRegs userRegs stackRegs))
    r.usi.eSt.pcLst = w.usi.eSt.pcLst ∧ r.usi.eSt.len = w.usi.eSt.len ∧
      r.sample = sampleOf w.usi w.ret ∧ (r.sample.isSome = true ↔ w.ret = 0) ∧
      r.usi.eSt.len.toNat ≤ perfMaxStackDepth ∧ r.programs ≤ maxTailCallCount := by
  intro r w
  obtain ⟨hst, hsample, hprograms⟩ : r.usi.eSt = w.usi.eSt ∧ r.sample = sampleOf w.usi w.ret ∧
    r.programs ≤ maxTailCallCount := doPerfEvent_spec hpid hcalls rfl
  refine ⟨by rw [hst], by rw [hst], hsample, ?_, ?_, hprograms⟩
  · rw [hsample, sampleOf]
    by_cases h : w.ret = 0 <;> simp [h]
  · rw [hst]
    exact run_len_le 126 (Nat.le_of_ble_eq_true rfl)

/-- A process that runs in one function of sixteen bytes and returns into it forever. -/
def loopEnv : Env :=
  { pidModulesMap := fun pid => if pid = 7 then
      some { modules := fun i => if i = 0 then
               { startAddr := 0x1000, endAddr := 0x1010, buildIdHash := 5, type := .exec } else {}
             moduleCount := 1 }
      else none
    moduleFdetablesMap := fun hash => if hash = 5 then
      some { refCount := 1
             fdeTableCount := 1
             fdeInfos := fun _ => { start := 0x1000, end_ := 0x1010, rowPos := 0, rowCount := 1 }
             fdeRows := fun _ =>
               { loc := 0x1000, cfa := { reg := 7, offset := 8 }
                 rbpCfaOffset := int32Max, raCfaOffset := -8 } }
      else none
    readUser := fun _ => some 0x1008 }

theorem loopEnv_walk_eq_plainWalk :
    (doPerfEvent loopEnv 33 7 { rip := 0x1004, rsp := 0x7000 } {}).sample =
      sampleOf (plainWalk loopEnv ((loopEnv.pidModulesMap 7).getD {}) 126
        (initUnwind 7 { rip := 0x1004, rsp := 0x7000 })).usi
        (plainWalk loopEnv ((loopEnv.pidModulesMap 7).getD {}) 126
          (initUnwind 7 { rip := 0x1004, rsp := 0x7000 })).ret :=
  (doPerfEvent_eq_plainWalk loopEnv 33 7 { rip := 0x1004, rsp := 0x7000 } {} _ rfl
    (by decide)).2.2.1

end

end XMonitor.Profile
