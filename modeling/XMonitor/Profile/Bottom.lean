import XMonitor.Profile.Chain

/-!
# How a walk ends

A walk that records a stack has come to a frame that looks like the bottom, or has used up its
steps. At a frame whose row has no return address nothing is unwound, and the walk records
the instruction pointer of that frame for a second time. `endsUndefined` tells which walks end
there, and `unwoundPcs` is the stack without the second one.
-/

namespace XMonitor.Profile

/-- The number of steps of a walk for which the kernel admits so many tail calls. -/
def walkSteps (calls : Nat) : Nat := maxStackDepthPerProgram * min maxTailCallCount calls

section

variable (env : Env) (pidMaps : PidMaps)

/-- The walk stops at a frame whose row has no return address. -/
def endsUndefined : Nat → Walker → Bool
  | 0, _ => false
  | n + 1, w =>
      if (frameStep env pidMaps w).2 then
        (findFdeTableRowByPc env.moduleFdetablesMap pidMaps w.rip).any
          fun row => row.raCfaOffset = int32Max
      else endsUndefined n (frameStep env pidMaps w).1

/-- The program counters of the frames that a perf event has unwound. -/
def unwoundPcs (calls : Nat) (pid : Int32) (userRegs stackRegs : TaskUserspaceRegs)
    (eSt : EhframeUserStack) : List UInt64 :=
  if endsUndefined env pidMaps (walkSteps calls)
      (.start (initUnwind pid (getTaskUserspaceRegs userRegs stackRegs)))
  then eSt.pcs.dropLast else eSt.pcs

variable {env : Env} {pidMaps : PidMaps}

theorem run_repeats (n : Nat) {w : Walker} {depth : Nat} {before : List UInt64}
    (hsaved : w.Saved depth) (hroom : depth + n ≤ perfMaxStackDepth)
    (hpcs : w.usi.eSt.pcs = before ++ [w.rip])
    (hret : (BoundedLoop.run (frameStep env pidMaps) n w).1.ret = 0)
    (hends : endsUndefined env pidMaps n w = true) :
    ∃ pcs rip, (BoundedLoop.run (frameStep env pidMaps) n w).1.usi.eSt.pcs =
      pcs ++ [rip, rip] := by
  induction n generalizing w depth before with
  | zero => cases hends
  | succ n ih =>
      have hlen : w.usi.eSt.len.toNat < perfMaxStackDepth := by
        rw [hsaved.len]
        omega
      rw [endsUndefined] at hends
      obtain ⟨ret, hne, heq⟩ | ⟨row, cfa, rbp, rip, hlookup, -, -, hrip, heq⟩ :=
        frameStep_cases env pidMaps w
      · exact absurd hret (run_failed hne heq)
      have hpushed : (pushFrame w.usi rip cfa rbp).eSt.pcs = before ++ [w.rip] ++ [rip] := by
        rw [pcs_pushFrame hlen, hpcs]
      cases hbottom : atBottom row rbp with
      | true =>
          have hstop : (frameStep env pidMaps w).2 = true := by rw [heq]; exact hbottom
          rw [if_pos hstop, hlookup] at hends
          have hra : row.raCfaOffset = int32Max := of_decide_eq_true hends
          -- without a return address the instruction pointer stays
          rw [callerRip, if_neg (not_not.mpr hra)] at hrip
          cases hrip
          rw [BoundedLoop.run_succ_of_break n hstop, heq]
          exact ⟨before, w.rip, hpushed.trans (List.append_assoc _ _ _)⟩
      | false =>
          have hgo : (frameStep env pidMaps w).2 = false := by rw [heq]; exact hbottom
          rw [if_neg (by rw [hgo]; exact Bool.false_ne_true)] at hends
          rw [BoundedLoop.run_succ_of_continue n hgo] at hret ⊢
          have hsaved' := frameStep_saved hsaved (by omega) hgo
          rw [heq] at hsaved' hends hret ⊢
          exact ih hsaved' (by omega) hpushed hret hends

/-- What a perf event has recorded is what the loop has, after as many steps as the tail calls
admit. -/
theorem plainWalk_of_sample {calls : Nat} {pid pid' : Int32}
    {userRegs stackRegs : TaskUserspaceRegs} {eSt : EhframeUserStack}
    (hpid : env.pidModulesMap pid = some pidMaps)
    (h : (doPerfEvent env calls pid userRegs stackRegs).sample = some (pid', eSt)) :
    let w := plainWalk env pidMaps (walkSteps calls)
      (initUnwind pid (getTaskUserspaceRegs userRegs stackRegs))
    w.ret = 0 ∧ w.usi.eSt = eSt := by
  cases calls with
  | zero => cases h
  | succ calls =>
      have hsteps : walkSteps (calls + 1) = maxStackDepthPerProgram * (min 17 calls + 1) := by
        rw [walkSteps, ← Nat.add_min_add_right]
        rfl
      obtain ⟨-, hsample, -⟩ := walkUserStacktrace_eq_of_calls 17 calls
        (show env.pidModulesMap (initUnwind pid (getTaskUserspaceRegs userRegs stackRegs)).pid =
          some pidMaps from hpid) (by decide) (start_initUnwind_saved pid _) rfl
      rw [hsteps]
      have hsome := hsample.symm.trans h
      rw [sampleOf] at hsome
      split at hsome
      · rename_i hret
        cases hsome
        exact ⟨hret, rfl⟩
      · cases hsome

theorem len_le_of_sample {calls : Nat} {pid pid' : Int32}
    {userRegs stackRegs : TaskUserspaceRegs} {eSt : EhframeUserStack}
    (hpid : env.pidModulesMap pid = some pidMaps)
    (h : (doPerfEvent env calls pid userRegs stackRegs).sample = some (pid', eSt)) :
    eSt.len.toNat ≤ perfMaxStackDepth := by
  obtain ⟨-, rfl⟩ := plainWalk_of_sample hpid h
  exact run_len_le _ (Nat.le_of_ble_eq_true rfl)

/-- A walk that ends at a frame without a return address has recorded it twice. -/
theorem pcs_of_endsUndefined {calls : Nat} {pid pid' : Int32}
    {userRegs stackRegs : TaskUserspaceRegs} {eSt : EhframeUserStack}
    (hpid : env.pidModulesMap pid = some pidMaps)
    (h : (doPerfEvent env calls pid userRegs stackRegs).sample = some (pid', eSt))
    (hends : endsUndefined env pidMaps (walkSteps calls)
      (.start (initUnwind pid (getTaskUserspaceRegs userRegs stackRegs))) = true) :
    ∃ pcs rip, eSt.pcs = pcs ++ [rip, rip] := by
  obtain ⟨hret, rfl⟩ := plainWalk_of_sample hpid h
  have hroom : 1 + walkSteps calls ≤ perfMaxStackDepth := by
    have hle : min maxTailCallCount calls ≤ 18 := Nat.min_le_left _ _
    change 1 + 7 * _ ≤ 127
    omega
  have hpcs : (initUnwind pid (getTaskUserspaceRegs userRegs stackRegs)).eSt.pcs =
      [] ++ [(getTaskUserspaceRegs userRegs stackRegs).rip] := rfl
  exact run_repeats _ (start_initUnwind_saved pid _) hroom hpcs hret hends

end

end XMonitor.Profile
