import Mathlib.Data.Finset.Insert
import Mathlib.Data.List.TakeWhile
import Mathlib.Data.UInt
import XMonitor.Lib.EventRun
import XMonitor.Lib.FreeList

/-!
# The memory pool

The pool hands out units of one size from a list of blocks. A free unit holds the number of
the next free unit of its block in its first word, which its user overwrites as long as the
unit is in use. A block whose units are all free goes back to the system if the first block
of the list has free units, and a block that gets a free unit moves to the front of the list
if the first block has none.

The memory is a word for each address, the first one of the unit that begins there. The
addresses of new blocks come from the events of a run, and so do the words that users write.
-/

namespace XMonitor.Mempool

open FreeList

/-- The first words of the units. -/
abbrev Words := Nat → UInt32

/-- `struct xm_mempool_block_s`, with the address of its data. -/
structure XmMempoolBlock where
  data : Nat
  blockSize : UInt32
  freeUnitCount : UInt32
  freeUnitPos : UInt32
deriving DecidableEq

/-- `struct xm_mempool_s`. The blocks are those behind `root`. -/
structure XmMempool where
  unitSize : UInt32
  initMemUnitCount : Int32
  growMemUnitCount : Int32
  currMemBlockCount : Int32
  blocks : List XmMempoolBlock
deriving DecidableEq

/-- `ROUNDUP` to the alignment, which has the type `size_t`. -/
def roundup (unitSize : UInt32) : UInt32 := ((unitSize.toUInt64 + 7) &&& ~~~7).toUInt32

/-- `xm_mempool_init`. -/
def xmMempoolInit (unitSize : UInt32) (initMemUnitCount growMemUnitCount : Int32) :
    Option XmMempool :=
  if initMemUnitCount ≤ 0 ∨ growMemUnitCount ≤ 0 then none
  else
    some
      { unitSize := roundup unitSize
        initMemUnitCount
        growMemUnitCount
        currMemBlockCount := 0
        blocks := [] }

/-- The loop of `xm_memblock_create`: a unit gets the number of the next one. -/
def linkUnits (data unitSize : Nat) (words : Words) (unitCount : Nat) : Words :=
  (List.range unitCount).foldl
    (fun words i => Function.update words (data + i * unitSize) (UInt32.ofNat (i + 1))) words

/-- `xm_memblock_create`, whose first unit is handed out. -/
def xmMemblockCreate (unitSize : UInt32) (unitCount : Int32) (data : Nat) (words : Words) :
    XmMempoolBlock × Words :=
  ({ data
     blockSize := unitSize * unitCount.toUInt32
     freeUnitCount := (unitCount - 1).toUInt32
     freeUnitPos := 1 },
    linkUnits data unitSize.toNat words unitCount.toNatClampNeg)

/-- `xm_mempool_malloc`, with the address of a new block should it need one. -/
def xmMempoolMalloc (pool : XmMempool) (words : Words) (fresh : Nat) : XmMempool × Words × Nat :=
  if pool.blocks = [] then
    let (block, words) := xmMemblockCreate pool.unitSize pool.initMemUnitCount fresh words
    ({ pool with
        blocks := [block]
        currMemBlockCount := pool.currMemBlockCount + 1 }, words, block.data)
  else
    match pool.blocks.span fun block => block.freeUnitCount = 0 with
    | (before, block :: behind) =>
        let retPtr := block.data + (block.freeUnitPos * pool.unitSize).toNat
        let block :=
          { block with
            freeUnitPos := words retPtr
            freeUnitCount := block.freeUnitCount - 1 }
        ({ pool with blocks := before ++ block :: behind }, words, retPtr)
    | (_, []) =>
        let (block, words) := xmMemblockCreate pool.unitSize pool.growMemUnitCount fresh words
        ({ pool with
            blocks := block :: pool.blocks
            currMemBlockCount := pool.currMemBlockCount + 1 }, words, block.data)

/-- `temp_block->next = block->next`, where `temp_block` is the last block that was passed. -/
def unlinkBlock (before behind : List XmMempoolBlock) : Option (List XmMempoolBlock) :=
  if before.getLast?.isSome then some (before ++ behind) else none

/-- The block is taken out of the list, at the root or behind `temp_block`. -/
def releaseBlock (before : List XmMempoolBlock) (block root : XmMempoolBlock)
    (behind : List XmMempoolBlock) : Option (List XmMempoolBlock) :=
  if block.data = root.data then some behind else unlinkBlock before behind

/-- The end of `xm_mempool_free`, behind the blocks that the loop has passed. -/
def recycle (pool : XmMempool) (before : List XmMempoolBlock) (block : XmMempoolBlock)
    (behind : List XmMempoolBlock) : Option XmMempool :=
  let root := before.head?.getD block
  if block.blockSize = block.freeUnitCount * pool.unitSize then
    if 1 < pool.currMemBlockCount ∧ root.freeUnitCount ≠ 0 then do
      let blocks ← releaseBlock before block root behind
      some { pool with blocks, currMemBlockCount := pool.currMemBlockCount - 1 }
    else some { pool with blocks := before ++ block :: behind }
  else if root.freeUnitCount = 0 then do
    let blocks ← unlinkBlock before behind
    some { pool with blocks := block :: blocks }
  else some { pool with blocks := before ++ block :: behind }

/-- `xm_mempool_free`. It returns nothing where it would follow a null pointer. -/
def xmMempoolFree (pool : XmMempool) (words : Words) (pfree : Nat) :
    Option (XmMempool × Words × Int32) :=
  if pfree = 0 then some (pool, words, -1)
  else
    match pool.blocks.span fun block =>
        pfree < block.data || block.data + block.blockSize.toNat ≤ pfree with
    | (before, block :: behind) => do
        let words := Function.update words pfree block.freeUnitPos
        let block :=
          { block with
            freeUnitCount := block.freeUnitCount + 1
            freeUnitPos := UInt32.ofNat ((pfree - block.data) / pool.unitSize.toNat) }
        let pool ← recycle pool before block behind
        some (pool, words, 0)
    | (_, []) => some (pool, words, -1)

/-! ## Runs -/

/-- The pool, its memory and the units that are in use. -/
structure State where
  pool : XmMempool
  words : Words
  live : Finset Nat

inductive Event
  | malloc (fresh : Nat)
  | free (pfree : Nat)
  | write (unit : Nat) (word : UInt32)

/-- The pointer that a call of `xm_mempool_malloc` returns. -/
def State.returned (s : State) (fresh : Nat) : Nat := (xmMempoolMalloc s.pool s.words fresh).2.2

/-- What an event does. -/
def State.next (s : State) : Event → Option State
  | .malloc fresh =>
      let (pool, words, retPtr) := xmMempoolMalloc s.pool s.words fresh
      some { pool, words, live := insert retPtr s.live }
  | .free pfree => do
      let (pool, words, _) ← xmMempoolFree s.pool s.words pfree
      some { pool, words, live := s.live.erase pfree }
  | .write unit word => some { s with words := Function.update s.words unit word }

/-- A run ends where a null pointer is followed. -/
def step (s : Option State) (e : Event) : Option State := s.bind fun s => s.next e

/-- The size of the data of the block that the system is asked for. -/
def XmMempool.newBlockSize (pool : XmMempool) : UInt32 :=
  pool.unitSize *
    (if pool.blocks = [] then pool.initMemUnitCount else pool.growMemUnitCount).toUInt32

/-- The system returns memory that does not overlap the blocks of the pool, and the users
write to the units and free the units that they use. -/
def State.Allows (s : State) : Event → Prop
  | .malloc fresh =>
      fresh ≠ 0 ∧ ∀ block ∈ s.pool.blocks,
        fresh + s.pool.newBlockSize.toNat ≤ block.data ∨
          block.data + block.blockSize.toNat ≤ fresh
  | .free pfree => pfree ∈ s.live
  | .write unit _ => unit ∈ s.live

instance (s : State) (e : Event) : Decidable (s.Allows e) :=
  match e with
  | .malloc _ => inferInstanceAs (Decidable (_ ∧ _))
  | .free pfree => inferInstanceAs (Decidable (pfree ∈ s.live))
  | .write unit _ => inferInstanceAs (Decidable (unit ∈ s.live))

/-- The system and the users keep to this in every step of a run. -/
def Allowed (s : Option State) (e : Event) : Prop := ∀ t, s = some t → t.Allows e

/-- The number of units of a block. -/
def XmMempoolBlock.unitCount (block : XmMempoolBlock) (unitSize : Nat) : Nat :=
  block.blockSize.toNat / unitSize

/-- The address of a unit of a block. -/
def XmMempoolBlock.unit (block : XmMempoolBlock) (unitSize i : Nat) : Nat :=
  block.data + i * unitSize

/-- The number in the first word of a unit. -/
def XmMempoolBlock.link (block : XmMempoolBlock) (unitSize : Nat) (words : Words) (i : Nat) : Nat :=
  (words (block.unit unitSize i)).toNat

end XMonitor.Mempool
