import XMonitor.Json.Item
import XMonitor.Lib.Procedure

/-!
# The print buffer

`ensure` makes room behind the offset, and what is printed is stored there through a pointer. A
store outside the buffer is undefined behaviour. A buffer holds a text when the text fills its
front; the rules below say how a text grows.
-/

namespace XMonitor.Json

open Lib Lib.Procedure

/-- `global_hooks`. An allocation may fail, and the bytes that it adds are not known. -/
structure Allocator where
  allocate : Nat → Option Bytes
  reallocate : Bytes → Nat → Option Bytes
  length_allocate : ∀ {n bytes}, allocate n = some bytes → bytes.length = n
  length_reallocate : ∀ {old n bytes}, reallocate old n = some bytes → bytes.length = n
  prefix_reallocate : ∀ {old n bytes}, reallocate old n = some bytes → old.take n <+: bytes

/-- `printbuffer`. The length is that of the buffer, and zero without one. -/
structure PrintBuffer where
  buffer : Option Bytes
  offset : Nat := 0
  depth : Nat := 0
  noalloc : Bool := false
  format : Bool
  deriving DecidableEq

abbrev Print (α : Type) := Procedure PrintBuffer α

def intMax : Nat := 2147483647

/-- The pointer that is returned is an index of the buffer. -/
def ensure (hooks : Allocator) (needed : Nat) : Print Nat := do
  let p ← get
  match p.buffer with
  | none => fail
  | some buffer =>
    if buffer.length > 0 ∧ p.offset ≥ buffer.length then
      fail
    else if needed > intMax then
      fail
    else
      let needed := needed + p.offset + 1
      if needed ≤ buffer.length then
        pure p.offset
      else if p.noalloc then
        fail
      else if needed > intMax / 2 ∧ ¬ needed ≤ intMax then
        fail
      else
        let newsize := if needed > intMax / 2 then intMax else needed * 2
        match hooks.reallocate buffer newsize with
        | none => do
          modify ({ · with buffer := none })
          fail
        | some newbuffer => do
          modify ({ · with buffer := some newbuffer })
          pure p.offset

/-- Store bytes one behind the other. -/
def store (i : Nat) (bytes : Bytes) : Print Unit := do
  let p ← get
  match p.buffer with
  | none => fault
  | some buffer =>
    if i + bytes.length ≤ buffer.length then
      modify ({ · with
        buffer := some (buffer.take i ++ (bytes ++ buffer.drop (i + bytes.length))) })
    else
      fault

/-- `offset += n`. -/
def advance (n : Nat) : Print Unit := modify fun p => { p with offset := p.offset + n }

def updateOffset : Print Unit := do
  let p ← get
  match p.buffer with
  | none => pure ()
  | some buffer =>
    -- `strlen` reads up to the first zero byte.
    if 0 ∈ buffer.drop p.offset then
      advance ((buffer.drop p.offset).takeWhile (· ≠ 0)).length
    else
      fault

/-! ## A buffer that holds a text -/

/-- What a printer does not change: the format, the depth, and, where there is to be room for
`room` bytes, that room, in the buffer or from the allocator. -/
structure Frame where
  hooks : Allocator
  format : Bool
  depth : Nat
  roomy : Prop
  room : Nat

def Roomy (hooks : Allocator) (room : Nat) (p : PrintBuffer) : Prop :=
  room ≤ intMax ∧ (room ≤ (p.buffer.getD []).length ∨
    p.noalloc = false ∧ ∀ old n, n ≤ intMax → (hooks.reallocate old n).isSome)

/-- The buffer starts with a text, and `k` bytes are left behind it. The offset is somewhere. -/
structure Holds (fr : Frame) (off : Nat) (text : Bytes) (k : Nat) (p : PrintBuffer) :
    Prop where
  buffer : ∃ junk, p.buffer = some (text ++ junk) ∧ k ≤ junk.length ∧ (junk = [] → text = [])
  offset : p.offset = off
  format : p.format = fr.format
  depth : p.depth = fr.depth
  fits : fr.roomy → Roomy fr.hooks fr.room p

/-- The buffer holds a text with a zero behind it, and `update_offset` finds its end. -/
def Terminated (fr : Frame) (text : Bytes) (p : PrintBuffer) : Prop :=
  ∃ off ≤ text.length, 0 ∉ text.drop off ∧ Holds fr off (text ++ [0]) 0 p

variable {fr : Frame} {off k : Nat} {text bytes : Bytes}

/-- Bytes at the end of a text may be given up. -/
theorem Holds.of_append {p : PrintBuffer} (h : Holds fr off (text ++ bytes) k p) :
    Holds fr off text (k + bytes.length) p := by
  obtain ⟨⟨junk, hbuffer, hk, hempty⟩, hoff, hformat, hdepth, hfits⟩ := h
  refine ⟨⟨bytes ++ junk, ?_, ?_, fun hnil => ?_⟩, hoff, hformat, hdepth, hfits⟩
  · rw [hbuffer, List.append_assoc]
  · rw [List.length_append]
    omega
  · obtain ⟨-, hjunk⟩ := List.append_eq_nil_iff.mp hnil
    exact (List.append_eq_nil_iff.mp (hempty hjunk)).1

theorem Holds.mono {p : PrintBuffer} {k' : Nat} (h : Holds fr off text k p) (hk : k' ≤ k) :
    Holds fr off text k' p := by
  obtain ⟨⟨junk, hbuffer, hlen, hempty⟩, hoff, hformat, hdepth, hfits⟩ := h
  exact ⟨⟨junk, hbuffer, Nat.le_trans hk hlen, hempty⟩, hoff, hformat, hdepth, hfits⟩

/-- `ensure` reserves the bytes that it is asked for and one more. It fails only where there is
no room. -/
theorem ensure_contract {n : Nat} (hroom : text.length + n + 1 ≤ fr.room) :
    Contract (Holds fr text.length text k) (ensure fr.hooks n)
      (fun i p => i = text.length ∧ Holds fr text.length text (n + 1) p) (fun _ => ¬ fr.roomy) := by
  refine Contract.get_bind fun p hp => ?_
  obtain ⟨⟨junk, hbuffer, -, hempty⟩, hoff, hformat, hdepth, hfits⟩ := hp
  have hlength : (text ++ junk).length = text.length + junk.length := List.length_append
  have hmax : fr.roomy → text.length + n + 1 ≤ intMax :=
    fun hr => Nat.le_trans hroom (hfits hr).1
  have hgrow : fr.roomy → ¬ n + text.length + 1 ≤ (text ++ junk).length →
      p.noalloc = false ∧ ∀ old m, m ≤ intMax → (fr.hooks.reallocate old m).isSome := by
    intro hr hlt
    refine (hfits hr).2.resolve_left fun h => hlt ?_
    rw [hbuffer] at h
    change fr.room ≤ (text ++ junk).length at h
    omega
  simp only [hbuffer, hoff]
  refine Contract.ite (fun hfull => ?full) fun _ => Contract.ite (fun hbig => ?big) fun _ =>
    Contract.ite (fun hle => ?enough) fun hlt => Contract.ite (fun hno => ?noalloc) fun _ =>
      Contract.ite (fun hover => ?overflow) fun hover => ?grow
  case full =>
    refine Contract.fail fun s _ hr => ?_
    have hjunk : junk = [] := List.eq_nil_of_length_eq_zero (by omega)
    rw [hjunk, hempty hjunk] at hfull
    exact absurd hfull.1 (Nat.lt_irrefl 0)
  case big =>
    refine Contract.fail fun s _ hr => ?_
    have := hmax hr
    omega
  case enough =>
    refine Contract.pure _ fun s hs => ⟨rfl, ?_⟩
    rw [hs]
    exact ⟨⟨junk, hbuffer, by omega, hempty⟩, hoff, hformat, hdepth, hfits⟩
  case noalloc =>
    refine Contract.fail fun s _ hr => ?_
    rw [(hgrow hr hlt).1] at hno
    exact absurd hno (by decide)
  case overflow =>
    refine Contract.fail fun s _ hr => ?_
    have := hmax hr
    omega
  case grow =>
    generalize hsize : (if n + text.length + 1 > intMax / 2 then intMax
      else (n + text.length + 1) * 2) = newsize
    have hnewsize : n + text.length + 1 ≤ newsize ∧ newsize ≤ intMax := by
      rw [← hsize]
      split <;> omega
    cases halloc : fr.hooks.reallocate (text ++ junk) newsize with
    | none =>
      refine Contract.bind (Q := fun _ _ => True) (Contract.modify fun _ _ => trivial) fun _ => ?_
      refine Contract.fail fun s _ hr => ?_
      have hsome := (hgrow hr hlt).2 (text ++ junk) newsize hnewsize.2
      rw [halloc] at hsome
      exact absurd hsome (by decide)
    | some newbuffer =>
      have hlen := fr.hooks.length_reallocate halloc
      obtain ⟨rest, hrest⟩ := fr.hooks.prefix_reallocate halloc
      rw [List.take_of_length_le (by omega), List.append_assoc] at hrest
      have hmore : n + 1 ≤ (junk ++ rest).length := by
        have := congrArg List.length hrest
        rw [List.length_append] at this
        omega
      refine Contract.bind (Q := fun _ s => s = { p with buffer := some newbuffer })
        (Contract.modify fun s hs => by rw [hs]) fun _ => Contract.pure _ fun s hs => ⟨rfl, ?_⟩
      rw [hs, ← hrest]
      refine ⟨⟨junk ++ rest, rfl, hmore, fun hnil => ?_⟩, hoff, hformat, hdepth, fun hr => ?_⟩
      · rw [hnil] at hmore
        exact absurd hmore (Nat.not_succ_le_zero n)
      · refine ⟨(hfits hr).1, (hfits hr).2.imp_left fun h => ?_⟩
        rw [hbuffer] at h
        change fr.room ≤ (text ++ junk).length at h
        change fr.room ≤ (text ++ (junk ++ rest)).length
        rw [hrest]
        omega

/-- A store behind the text makes the text longer. -/
theorem store_contract {E : PrintBuffer → Prop} (h : bytes.length < k) :
    Contract (Holds fr off text k) (store text.length bytes)
      (fun _ => Holds fr off (text ++ bytes) (k - bytes.length)) E := by
  refine Contract.get_bind fun p hp => ?_
  obtain ⟨⟨junk, hbuffer, hk, -⟩, hoff, hformat, hdepth, hfits⟩ := hp
  have hle : text.length + bytes.length ≤ (text ++ junk).length := by
    rw [List.length_append]
    omega
  simp only [hbuffer, if_pos hle]
  refine Contract.modify fun s hs => ?_
  have hdrop : (text ++ junk).drop (text.length + bytes.length) = junk.drop bytes.length := by
    rw [List.drop_append, List.drop_eq_nil_of_le (Nat.le_add_right _ _), List.nil_append,
      Nat.add_sub_cancel_left]
  rw [hs]
  refine ⟨⟨junk.drop bytes.length, ?_, ?_, fun hnil => ?_⟩, hoff, hformat, hdepth, fun hr => ?_⟩
  · rw [List.take_left' rfl, hdrop, List.append_assoc]
  · rw [List.length_drop]
    omega
  · have := congrArg List.length hnil
    rw [List.length_drop, List.length_nil] at this
    omega
  · refine ⟨(hfits hr).1, (hfits hr).2.imp_left fun h => ?_⟩
    rw [hbuffer] at h
    change fr.room ≤ (text ++ junk).length at h
    change fr.room ≤ ((text ++ junk).take text.length ++
      (bytes ++ (text ++ junk).drop (text.length + bytes.length))).length
    rw [hdrop, List.take_left' rfl]
    simp only [List.length_append, List.length_drop] at h ⊢
    omega

theorem store_at {E : PrintBuffer → Prop} {i : Nat} (hi : i = text.length)
    (h : bytes.length < k) :
    Contract (Holds fr off text k) (store i bytes)
      (fun _ => Holds fr off (text ++ bytes) (k - bytes.length)) E := by
  rw [hi]
  exact store_contract h

theorem advance_contract {E : PrintBuffer → Prop} (n : Nat) :
    Contract (Holds fr off text k) (advance n) (fun _ => Holds fr (off + n) text k) E := by
  refine Contract.modify fun p hp => ⟨hp.buffer, ?_, hp.format, hp.depth, hp.fits⟩
  exact congrArg (· + n) hp.offset

/-- `update_offset` goes to the end of the text, and the zero stays behind it. -/
theorem updateOffset_terminated {E : PrintBuffer → Prop} :
    Contract (Terminated fr text) updateOffset
      (fun _ => Holds fr text.length (text ++ [0]) 0) E := by
  refine Contract.get_bind fun p hp => ?_
  obtain ⟨off, hle, hnul, hholds⟩ := hp
  obtain ⟨⟨junk, hbuffer, -, hempty⟩, hoff, hformat, hdepth, hfits⟩ := id hholds
  have hdrop : (text ++ [0] ++ junk).drop off = text.drop off ++ 0 :: junk := by
    rw [List.append_assoc, List.drop_append_of_le_length hle]
    rfl
  have hlen : ((text.drop off ++ 0 :: junk).takeWhile (· ≠ 0)).length = text.length - off := by
    have hall : ∀ c ∈ text.drop off, decide (c ≠ 0) = true := by
      intro c hc
      exact decide_eq_true fun h => hnul (h ▸ hc)
    rw [List.takeWhile_append_of_pos hall]
    simp
  have hmem : 0 ∈ text.drop off ++ 0 :: junk := by simp
  simp only [hbuffer, hoff, hdrop, if_pos hmem, hlen]
  have hadvance := advance_contract (E := E) (text.length - off) p hholds
  rw [Nat.add_sub_cancel' hle] at hadvance
  intro s hs
  rw [hs]
  exact hadvance

theorem updateOffset_contract {E : PrintBuffer → Prop} :
    Contract (Terminated fr text) updateOffset (fun _ => Holds fr text.length text 1) E :=
  updateOffset_terminated.mono_post fun _ _ hp => hp.of_append

end XMonitor.Json
