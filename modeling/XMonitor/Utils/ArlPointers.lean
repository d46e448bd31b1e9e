import XMonitor.Lib.IntrusiveList
import XMonitor.Utils.Arl

/-!
# The re-sortable list in memory

The entries of the list are cells that point to each other, and `ARL_BASE` points to the
first one and to the one that is expected next. A function returns nothing where it would
follow a null pointer or a pointer to an entry that has been freed, or would call a null
processor.

`ArlHeap.Stores` says which list a memory holds, and `ArlHeap.toBase` is what the operations of
`ArlBase` see of it. A loop over the entries stops when it runs out of fuel, which the number
of allocations excludes.
-/

namespace XMonitor

open IntrusiveList

variable {δ π : Type}

/-- What an `ARL_ENTRY` holds besides its pointers. -/
structure ArlData (δ π : Type) where
  name : CString
  hash : UInt32
  dst : Option δ
  found : Bool
  kind : ArlKind
  processor : Option π

/-- `ARL_BASE`, with the memory of its entries. -/
structure ArlHeap (δ π : Type) where
  cells : Memory (ArlData δ π)
  head : Option Nat
  nextKeyword : Option Nat
  iteration : Nat
  found : Nat
  expected : Nat
  wanted : Nat
  relinkings : Nat
  allocated : Nat
  fred : Nat
  rechecks : Nat
  added : Nat
  processor : π
  /-- Where `calloc` puts the next entry. -/
  nextAddress : Nat

/-- A call of a processor with its arguments. -/
structure ArlCall (δ π : Type) where
  processor : π
  name : CString
  hash : UInt32
  value : CString
  dst : δ
deriving DecidableEq

/-- `simple_hash`, over the bytes of a string. -/
def simpleHash (name : CString) : UInt32 :=
  name.foldl (fun hval c => hval * 16777619 ^^^ c.val) 0x811c9dc5

/-- `arl_create`, whose default processor is `arl_callback_str2ull`. -/
def ArlHeap.create (callbackStr2ull : π) (processor : Option π) (rechecks : Nat) :
    ArlHeap δ π where
  cells _ := none
  head := none
  nextKeyword := none
  iteration := 0
  found := 0
  expected := 0
  wanted := 0
  relinkings := 0
  allocated := 0
  fred := 0
  rechecks := rechecks
  added := 0
  processor := processor.getD callbackStr2ull
  nextAddress := 0

/-- `calloc` of an entry that has no neighbours yet. -/
def ArlHeap.alloc (h : ArlHeap δ π) (d : ArlData δ π) : ArlHeap δ π :=
  { h with
    cells := Function.update h.cells h.nextAddress (some ⟨none, none, d⟩)
    allocated := h.allocated + 1
    nextAddress := h.nextAddress + 1 }

/-- `arl_expect_custom`. -/
def ArlHeap.expectCustom (h : ArlHeap δ π) (keyword : CString) (processor : Option π)
    (dst : Option δ) : Option (ArlHeap δ π) := do
  let e := h.nextAddress
  let h := h.alloc
    { name := keyword
      hash := simpleHash keyword
      dst
      found := false
      kind := .expected
      processor := some (processor.getD h.processor) }
  let nextKeyword := if h.head = none then some e else h.nextKeyword
  let (cells, head) ← pushFront h.cells h.head e
  some
    { h with
      cells, head, nextKeyword
      expected := h.expected + 1
      wanted := h.expected + 1 }

/-- The loop of `arl_begin`, from an entry to the end of the list. -/
def ArlHeap.sweep (wantedEqualsExpected : Bool) (h : ArlHeap δ π) :
    Nat → Option Nat → Option (ArlHeap δ π)
  | _, none => some h
  | 0, some _ => none
  | n + 1, some e => do
      let c ← h.cells e
      if c.data.found then
        let cells ← setData h.cells e { c.data with found := false }
        let wanted :=
          if !wantedEqualsExpected && decide (c.data.kind = .expected) then h.wanted + 1
          else h.wanted
        sweep wantedEqualsExpected { h with cells, wanted } n c.next
      else if c.data.kind = .dynamic ∧ ¬(h.head = some e ∧ c.next = none) then
        let (cells, head) ← unlink h.cells h.head e
        sweep wantedEqualsExpected
          { h with cells := Function.update cells e none, head, fred := h.fred + 1 } n c.next
      else sweep wantedEqualsExpected h n c.next

/-- The first part of `arl_begin`. -/
def ArlHeap.recheck (h : ArlHeap δ π) : Option (ArlHeap δ π) :=
  if 0 < h.iteration ∧ (h.added ≠ 0 ∨ h.iteration % h.rechecks = 0) then
    let wantedEqualsExpected := decide (h.iteration % h.rechecks = 0)
    let h :=
      { h with
        added := 0
        wanted := if wantedEqualsExpected then h.expected else 0 }
    h.sweep wantedEqualsExpected h.allocated h.head
  else some h

/-- The second part of `arl_begin`. -/
def ArlHeap.nonempty (h : ArlHeap δ π) : Option (ArlHeap δ π) :=
  if h.head = none then h.expectCustom reallyNotExisting none none else some h

/-- `arl_begin`. -/
def ArlHeap.begin (h : ArlHeap δ π) : Option (ArlHeap δ π) := do
  let h ← h.recheck
  let h ← h.nonempty
  some { h with iteration := h.iteration + 1, nextKeyword := h.head, found := 0 }

/-- The call for an entry that has a destination. -/
def ArlData.call (d : ArlData δ π) (value : CString) : Option (Option (ArlCall δ π)) :=
  match d.dst with
  | some dst =>
      d.processor.map fun processor =>
        some { processor, name := d.name, hash := d.hash, value, dst }
  | none => some none

/-- The end of `arl_find_or_create_and_relink`, for an entry that is not in the list. -/
def ArlHeap.relink (h : ArlHeap δ π) (e : Nat) (call : Option (ArlCall δ π)) :
    Option (ArlHeap δ π × Option (ArlCall δ π) × Bool) := do
  let c ← h.cells e
  let cells ← setData h.cells e { c.data with found := true }
  let (cells, head) ← insertBefore cells h.head e h.nextKeyword
  let c ← cells e
  some ({ h with cells, head, nextKeyword := c.next.or head }, call, decide (h.found = h.wanted))

/-- `arl_find_or_create_and_relink`. -/
def ArlHeap.findOrCreateAndRelink (h : ArlHeap δ π) (s value : CString) :
    Option (ArlHeap δ π × Option (ArlCall δ π) × Bool) := do
  let hash := simpleHash s
  match ← find h.cells (fun d => d.hash = hash && d.name = s) h.allocated h.head with
  | some e =>
      let c ← h.cells e
      let call ← c.data.call value
      let (cells, head) ← unlink h.cells h.head e
      let found := if call.isSome then h.found + 1 else h.found
      relink { h with cells, head, found, relinkings := h.relinkings + 1 } e call
  | none =>
      let h' := h.alloc
        { name := s, hash, dst := none, found := false, kind := .dynamic, processor := none }
      relink { h' with added := h.added + 1 } h.nextAddress none

/-- `arl_check`. -/
def ArlHeap.check (h : ArlHeap δ π) (keyword value : CString) :
    Option (ArlHeap δ π × Option (ArlCall δ π) × Bool) := do
  let e ← h.nextKeyword
  let c ← h.cells e
  if keyword = c.data.name then
    let cells ← setData h.cells e { c.data with found := true }
    let call ← c.data.call value
    let found := if call.isSome then h.found + 1 else h.found
    some ({ h with cells, found, nextKeyword := c.next.or h.head }, call, decide (found = h.wanted))
  else h.findOrCreateAndRelink keyword value

/-! ## The list that the pointers hold -/

/-- The entry of the list for an entry in memory, whose destination includes the processor. -/
def toEntry (x : Nat × ArlData δ π) : ArlEntry (π × δ) where
  address := x.1
  name := x.2.name
  dst := x.2.processor.bind fun processor => x.2.dst.map fun dst => (processor, dst)
  found := x.2.found
  kind := x.2.kind

/-- An entry has the hash of its name, and a processor if it has a destination. -/
def ArlData.WellFormed (d : ArlData δ π) : Prop :=
  d.hash = simpleHash d.name ∧ (d.dst.isSome = true → d.processor.isSome = true)

/-- The memory holds the entries of a list and no others. -/
structure ArlHeap.Stores (h : ArlHeap δ π) (xs : List (Nat × ArlData δ π)) : Prop where
  isList : IsList h.cells h.head xs
  live : ∀ a, a ∉ addresses xs → h.cells a = none
  fresh : ∀ a ∈ addresses xs, a < h.nextAddress
  wellFormed : ∀ x ∈ xs, x.2.WellFormed
  count : h.allocated = h.fred + xs.length

/-- The pointer to the next keyword points to an entry, if there is one. -/
def ArlHeap.Points (h : ArlHeap δ π) (xs : List (Nat × ArlData δ π)) : Prop :=
  xs ≠ [] → ∃ n ∈ addresses xs, h.nextKeyword = some n

/-- What the operations on the list see. -/
def ArlHeap.toBase (h : ArlHeap δ π) (xs : List (Nat × ArlData δ π)) : ArlBase (π × δ) where
  iteration := h.iteration
  found := h.found
  expected := h.expected
  wanted := h.wanted
  rechecks := h.rechecks
  added := h.added
  entries := xs.map toEntry
  nextKeyword := h.nextKeyword
  nextAddress := h.nextAddress

theorem create_stores (callbackStr2ull : π) (processor : Option π) (rechecks : Nat) :
    (ArlHeap.create callbackStr2ull processor rechecks : ArlHeap δ π).Stores [] where
  isList := ⟨trivial, rfl, List.nodup_nil⟩
  live _ _ := rfl
  fresh _ ha := absurd ha List.not_mem_nil
  wellFormed _ hx := absurd hx List.not_mem_nil
  count := rfl

end XMonitor
