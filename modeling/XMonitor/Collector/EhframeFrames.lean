import Mathlib.Data.List.TakeWhile
import XMonitor.Collector.CollectProfiles
import XMonitor.Profile.Bottom

/-!
# The frames of an unwound stack

The exporter skips a program counter that repeats the one before it, and so drops the second
record of a frame without a return address. A function that calls itself puts the same return
address on the stack again and again, and these frames are skipped as well.
-/

namespace XMonitor.Collector

open Profile

/-- A recorded stack as the exporter reads it from the map. -/
def XmEhframeUserStack.ofKernel (eSt : EhframeUserStack) : XmEhframeUserStack where
  len := eSt.len
  pcLst := Vector.ofFn fun i => eSt.pcLst i

variable {σ : Type} (z : Symbolizer σ)

/-- The stack gets the names of these program counters and no others, the outermost first. -/
def AppendsFrames (eus : XmEhframeUserStack) (pid : Int32) (sb : List String) (s : σ)
    (pcs : List UInt64) : Prop :=
  ∃ frames failed s', resolveFrames z pid pcs s = (some (frames, failed), s') ∧
    frames.length = pcs.length ∧
      walkEhframeUserStack z eus pid sb s = (some (sb ++ frames.reverse, failed), s')

/-- No call of `frame.Resolve` for these program counters finds that a file is missing. -/
def ProcessFound (pid : Int32) : List UInt64 → σ → Prop
  | [], _ => True
  | pc :: pcs, s =>
      (∀ e, (z.resolve s pid pc).1 = .error e → e ≠ .notExist) ∧
        ProcessFound pid pcs (z.resolve s pid pc).2

variable {z}

theorem length_of_resolveFrames {pid : Int32} {pcs : List UInt64} {s s' : σ}
    {frames : List String} {failed : Nat}
    (h : resolveFrames z pid pcs s = (some (frames, failed), s')) :
    frames.length = pcs.length := by
  induction pcs generalizing s frames failed with
  | nil =>
      cases h
      rfl
  | cons pc pcs ih =>
      rw [resolveFrames] at h
      generalize z.resolve s pid pc = resolved at h
      obtain ⟨(_ | _) | sym, s₁⟩ := resolved
      · cases h
      all_goals
        dsimp only at h
        generalize hrest : resolveFrames z pid pcs s₁ = rest at h
        obtain ⟨_ | ⟨frames', failed'⟩, s₂⟩ := rest
        · cases h
        · cases h
          exact congrArg (· + 1) (ih hrest)

theorem processFound_iff {pid : Int32} {pcs : List UInt64} {s : σ} :
    ProcessFound z pid pcs s ↔ (resolveFrames z pid pcs s).1 ≠ none := by
  induction pcs generalizing s with
  | nil => exact iff_of_true trivial (Option.some_ne_none _)
  | cons pc pcs ih =>
      rw [ProcessFound, resolveFrames]
      generalize z.resolve s pid pc = resolved
      obtain ⟨(_ | _) | sym, s'⟩ := resolved
      · exact iff_of_false (fun h => h.1 _ rfl rfl) fun h => h rfl
      all_goals
        rw [ih]
        change _ ∧ _ ↔ Option.map _ (resolveFrames z pid pcs s').1 ≠ none
        rw [Ne, Ne, Option.map_eq_none_iff]
        refine and_iff_right fun e he => ?_
        cases he
      exact ResolveError.noConfusion

/-! ## Repeated counters -/

theorem length_skipRepeats_le (prevPC : UInt64) (pcs : List UInt64) :
    (skipRepeats prevPC pcs).length ≤ pcs.length := by
  induction pcs generalizing prevPC with
  | nil => exact Nat.le_refl _
  | cons pc pcs ih =>
      rw [skipRepeats]
      split
      · exact Nat.le_succ_of_le (ih prevPC)
      · exact Nat.succ_le_succ (ih pc)

theorem length_skipRepeats_eq_iff {prevPC : UInt64} {pcs : List UInt64} :
    (skipRepeats prevPC pcs).length = pcs.length ↔ (prevPC :: pcs).IsChain (· ≠ ·) := by
  induction pcs generalizing prevPC with
  | nil => exact iff_of_true rfl (List.isChain_singleton _)
  | cons pc pcs ih =>
      rw [skipRepeats, List.isChain_cons_cons]
      split
      · rename_i heq
        have hle := length_skipRepeats_le prevPC pcs
        rw [List.length_cons]
        exact iff_of_false (by omega) fun h => h.1 heq.symm
      · rename_i hne
        rw [List.length_cons, List.length_cons, Nat.add_right_cancel_iff, ih]
        exact (and_iff_right (Ne.symm hne)).symm

theorem skipRepeats_of_isChain {prevPC : UInt64} {pcs : List UInt64}
    (h : (prevPC :: pcs).IsChain (· ≠ ·)) : skipRepeats prevPC pcs = pcs := by
  induction pcs generalizing prevPC with
  | nil => rfl
  | cons pc pcs ih =>
      rw [List.isChain_cons_cons] at h
      rw [skipRepeats, if_neg (Ne.symm h.1), ih h.2]

/-- A repetition at the end is skipped. -/
theorem skipRepeats_concat (prevPC pc : UInt64) (pcs : List UInt64) :
    skipRepeats prevPC (pcs ++ [pc, pc]) = skipRepeats prevPC (pcs ++ [pc]) := by
  induction pcs generalizing prevPC with
  | nil =>
      rw [List.nil_append, List.nil_append, skipRepeats, skipRepeats]
      split
      · rfl
      · exact congrArg (pc :: ·) (if_pos rfl)
  | cons x pcs ih =>
      rw [List.cons_append, List.cons_append, skipRepeats, skipRepeats, ih, ih]

/-- The exporter sees the counters that have been recorded. -/
theorem ehframePcs_ofKernel {eSt : EhframeUserStack}
    (hlen : eSt.len.toNat ≤ XMonitor.perfMaxStackDepth) (hnonzero : ∀ pc ∈ eSt.pcs, pc ≠ 0) :
    ehframePcs (.ofKernel eSt) = skipRepeats 0 eSt.pcs := by
  have hle : eSt.len.toNat ≤ 127 := hlen
  have hdepth : eSt.len.toInt64.toInt.toNat = eSt.len.toNat := by
    have hint := Int64.toInt_toBitVec eSt.len.toInt64
    rw [BitVec.toInt_eq_toNat_of_lt] at hint
    · rw [← hint, Int.toNat_natCast]
      rfl
    · change 2 * eSt.len.toNat < 18446744073709551616
      omega
  have htake : (XmEhframeUserStack.ofKernel eSt).pcLst.toList.take eSt.len.toNat = eSt.pcs := by
    refine List.ext_getElem ?_ fun i hi hi' => ?_
    · rw [List.length_take, Vector.length_toList, EhframeUserStack.pcs, List.length_map,
        List.length_range]
      omega
    · simp [XmEhframeUserStack.ofKernel, EhframeUserStack.pcs]
  have hall : eSt.pcs.takeWhile (· ≠ 0) = eSt.pcs :=
    List.takeWhile_eq_self_iff.mpr fun pc hpc => decide_eq_true (hnonzero pc hpc)
  change skipRepeats 0 (((XmEhframeUserStack.ofKernel eSt).pcLst.toList.take
    eSt.len.toInt64.toInt.toNat).takeWhile (· ≠ 0)) = _
  rw [hdepth, htake, hall]

/-- Skipping repeated counters gives the unwound frames exactly if none of these repeats the
one before it. -/
theorem appendsFrames_iff {eus : XmEhframeUserStack} {pid : Int32} {sb : List String} {s : σ}
    {pcs : List UInt64} (hpcs : ehframePcs eus = skipRepeats 0 pcs)
    (hnonzero : ∀ pc ∈ pcs, pc ≠ 0) :
    AppendsFrames z eus pid sb s pcs ↔
      pcs.IsChain (· ≠ ·) ∧ ProcessFound z pid pcs s := by
  have hchain : (0 :: pcs).IsChain (· ≠ ·) ↔ pcs.IsChain (· ≠ ·) := by
    cases pcs with
    | nil => exact iff_of_true (List.isChain_singleton _) List.isChain_nil
    | cons pc pcs =>
        rw [List.isChain_cons_cons]
        exact and_iff_right (Ne.symm (hnonzero pc List.mem_cons_self))
  rw [← hchain, processFound_iff]
  constructor
  · rintro ⟨frames, failed, s', hresolve, hlength, hwalk⟩
    refine ⟨?_, by rw [hresolve]; exact Option.some_ne_none _⟩
    rw [walkEhframeUserStack, hpcs] at hwalk
    generalize hskipped : resolveFrames z pid (skipRepeats 0 pcs) s = skipped at hwalk
    obtain ⟨_ | ⟨frames', failed'⟩, s₂⟩ := skipped
    · cases hwalk
    · have hsame : frames'.length = frames.length := by
        have heq := congrArg (fun x => x.1.map fun y => y.1.length) hwalk
        simpa using heq
      rw [← length_skipRepeats_eq_iff, ← length_of_resolveFrames hskipped, hsame, hlength]
  · rintro ⟨hdistinct, hfound⟩
    obtain ⟨⟨frames, failed⟩, hsome⟩ := Option.ne_none_iff_exists'.mp hfound
    have hresolve : resolveFrames z pid pcs s =
        (some (frames, failed), (resolveFrames z pid pcs s).2) := Prod.ext hsome rfl
    refine ⟨frames, failed, _, hresolve, length_of_resolveFrames hresolve, ?_⟩
    rw [walkEhframeUserStack, hpcs, skipRepeats_of_isChain hdistinct, hresolve]
    rfl

/-- A recorded stack is shown with a frame for each frame that has been unwound exactly if no
frame has the counter of the one before it, and no file is missing. -/
theorem unwound_frames_appended_iff (env : Env) (calls : Nat) (pid : Int32)
    (userRegs stackRegs : TaskUserspaceRegs) (pidMaps : PidMaps)
    (hpid : env.pidModulesMap pid = some pidMaps) (eSt : EhframeUserStack)
    (hsample : (doPerfEvent env calls pid userRegs stackRegs).sample = some (pid, eSt))
    (hnonzero : ∀ pc ∈ eSt.pcs, pc ≠ 0) (sb : List String) (s : σ) :
    AppendsFrames z (.ofKernel eSt) pid sb s
        (unwoundPcs env pidMaps calls pid userRegs stackRegs eSt) ↔
      (unwoundPcs env pidMaps calls pid userRegs stackRegs eSt).IsChain (· ≠ ·) ∧
        ProcessFound z pid (unwoundPcs env pidMaps calls pid userRegs stackRegs eSt) s := by
  have hrecorded := ehframePcs_ofKernel (len_le_of_sample hpid hsample) hnonzero
  rw [unwoundPcs]
  split
  · rename_i hends
    obtain ⟨pcs, rip, hpcs⟩ := pcs_of_endsUndefined hpid hsample hends
    have hlast : eSt.pcs.dropLast = pcs ++ [rip] := by
      rw [hpcs, List.append_cons, List.dropLast_concat]
    refine appendsFrames_iff ?_ fun pc hpc => hnonzero pc (List.dropLast_subset _ hpc)
    rw [hrecorded, hlast, hpcs, skipRepeats_concat]
  · exact appendsFrames_iff hrecorded hnonzero

/-! A process in a function that calls itself and was called by one without a return address. -/

def recursionTables : ModuleFdeTables :=
  { refCount := 1
    fdeTableCount := 2
    fdeInfos := fun i =>
      { start := UInt64.ofNat (0x1000 + 16 * i), end_ := UInt64.ofNat (0x1010 + 16 * i)
        rowPos := i, rowCount := 1 }
    fdeRows := fun i =>
      { loc := UInt64.ofNat (0x1000 + 16 * i)
        cfa := { reg := 7, offset := 8 }
        rbpCfaOffset := int32Max
        raCfaOffset := if i = 0 then -8 else int32Max } }

/-- The process while so many calls of the function by itself are under way. -/
def recursionEnv (depth : UInt64) : Env :=
  { pidModulesMap := fun pid => if pid = 7 then some chainMaps else none
    moduleFdetablesMap := fun hash => if hash = 5 then some recursionTables else none
    readUser := fun a => some (if a < 0x7000 + 8 * depth then 0x1008 else 0x1014) }

def recursionRegs : TaskUserspaceRegs := { rip := 0x1004, rsp := 0x7000, rbp := 0x5555 }

/-- A resolver that knows every address. -/
def knownSymbols : Symbolizer Unit where
  resolve _ _ pc := (.ok { name := "f", offset := pc, module := "a.out" }, ())
  getLangType _ _ := .native

theorem processFound_knownSymbols (pid : Int32) (pcs : List UInt64) (s : Unit) :
    ProcessFound knownSymbols pid pcs s := by
  induction pcs generalizing s with
  | nil => trivial
  | cons pc pcs ih =>
      refine ⟨fun e he => ?_, ih _⟩
      cases he

/-- Three frames, of which the outermost one is recorded twice. -/
theorem call_frames_appended :
    AppendsFrames knownSymbols
      (.ofKernel (doPerfEvent (recursionEnv 1) 33 7 recursionRegs {}).usi.eSt) 7 ["a.out"] ()
      [0x1004, 0x1008, 0x1014] := by
  have hunwound : unwoundPcs (recursionEnv 1) chainMaps 33 7 recursionRegs {}
      (doPerfEvent (recursionEnv 1) 33 7 recursionRegs {}).usi.eSt = [0x1004, 0x1008, 0x1014] := by
    decide +kernel
  have hrecorded : (doPerfEvent (recursionEnv 1) 33 7 recursionRegs {}).usi.eSt.pcs =
      [0x1004, 0x1008, 0x1014, 0x1014] := by
    decide +kernel
  have happended := unwound_frames_appended_iff (z := knownSymbols) (recursionEnv 1) 33 7
    recursionRegs {} chainMaps rfl (doPerfEvent (recursionEnv 1) 33 7 recursionRegs {}).usi.eSt rfl
    (by rw [hrecorded]; simp) ["a.out"] ()
  rw [hunwound] at happended
  exact happended.mpr ⟨by decide, processFound_knownSymbols _ _ _⟩

/-- Of three calls of the function by itself one is shown. -/
theorem recursive_calls_not_appended :
    ¬ ∀ env calls pid userRegs stackRegs pidMaps, env.pidModulesMap pid = some pidMaps → ∀ eSt,
      (doPerfEvent env calls pid userRegs stackRegs).sample = some (pid, eSt) →
      (∀ pc ∈ eSt.pcs, pc ≠ 0) → ∀ sb, AppendsFrames knownSymbols (.ofKernel eSt) pid sb ()
        (unwoundPcs env pidMaps calls pid userRegs stackRegs eSt) := by
  intro hclaim
  have hrecorded : (doPerfEvent (recursionEnv 3) 33 7 recursionRegs {}).usi.eSt.pcs =
      [0x1004, 0x1008, 0x1008, 0x1008, 0x1014, 0x1014] := by
    decide +kernel
  have happended := hclaim (recursionEnv 3) 33 7 recursionRegs {} chainMaps rfl
    (doPerfEvent (recursionEnv 3) 33 7 recursionRegs {}).usi.eSt rfl
    (by rw [hrecorded]; simp) []
  have hunwound : unwoundPcs (recursionEnv 3) chainMaps 33 7 recursionRegs {}
      (doPerfEvent (recursionEnv 3) 33 7 recursionRegs {}).usi.eSt =
        [0x1004, 0x1008, 0x1008, 0x1008, 0x1014] := by
    decide +kernel
  rw [hunwound] at happended
  obtain ⟨frames, failed, s', -, hlength, hwalk⟩ := happended
  have hshown : (walkEhframeUserStack knownSymbols
      (.ofKernel (doPerfEvent (recursionEnv 3) 33 7 recursionRegs {}).usi.eSt) 7 [] ()).1.map
        (fun shown => shown.1.length) = some 3 := by
    decide +kernel
  rw [hwalk] at hshown
  simp only [Option.map_some, List.nil_append, List.length_reverse, hlength] at hshown
  exact absurd hshown (by decide)

end XMonitor.Collector
