import XMonitor.Utils.MempoolBlocks

/-!
# The memory pool hands out no unit twice

`State.Inv` holds in every state of a run: the blocks of the list are an `Arena`, and the sizes
of new blocks do not overflow.

When a block moves to the front of the list it has just got a free unit. It is then not the
first block, which has none, and the loop has passed a block before it. When a block goes back
to the system its units are all free.
-/

namespace XMonitor.Mempool

variable {words' : Words} {live' : Finset Nat} {b c : XmMempoolBlock}
  {before behind : List XmMempoolBlock}

/-! ## The operations of the pool -/

/-- What holds in every state of a run. -/
structure State.Inv (s : State) : Prop where
  unit_pos : 0 < s.pool.unitSize.toNat
  init_pos : 0 < s.pool.initMemUnitCount
  grow_pos : 0 < s.pool.growMemUnitCount
  init_fits : s.pool.unitSize.toNat * s.pool.initMemUnitCount.toNatClampNeg < 2 ^ 32
  grow_fits : s.pool.unitSize.toNat * s.pool.growMemUnitCount.toNatClampNeg < 2 ^ 32
  arena : Arena s.pool.unitSize.toNat s.words s.live s.pool.blocks
  data_ne : ∀ b ∈ s.pool.blocks, b.data ≠ 0
  count : s.pool.currMemBlockCount = Int32.ofNat s.pool.blocks.length

/-- A unit that was not in use, and now is one of a block. -/
def HandsOut (s s' : State) (p : Nat) : Prop :=
  p ∉ s.live ∧ ∃ b ∈ s'.pool.blocks, ∃ i < b.unitCount s'.pool.unitSize.toNat,
    p = b.unit s'.pool.unitSize.toNat i

/-- A block is new only if no block had a free unit. -/
def Grows (s s' : State) : Prop :=
  ∀ b ∈ s'.pool.blocks, b.data ∉ s.pool.blocks.map XmMempoolBlock.data →
    ∀ c ∈ s.pool.blocks, c.freeUnitCount = 0

theorem State.Inv.count_succ {s : State} (h : s.Inv) (b : XmMempoolBlock) :
    s.pool.currMemBlockCount + 1 = Int32.ofNat (b :: s.pool.blocks).length := by
  rw [h.count, List.length_cons, Int32.ofNat_add]
  rfl

/-- A new block in front of the list. -/
theorem State.Inv.create {s : State} (h : s.Inv) {unitCount : Int32} (hcount : 0 < unitCount)
    (hfits : s.pool.unitSize.toNat * unitCount.toNatClampNeg < 2 ^ 32) {fresh : Nat}
    (hfresh : fresh ≠ 0)
    (hapart : ∀ b ∈ s.pool.blocks,
      fresh + s.pool.unitSize.toNat * unitCount.toNatClampNeg ≤ b.data ∨
        b.data + b.blockSize.toNat ≤ fresh) :
    let created := xmMemblockCreate s.pool.unitSize unitCount fresh s.words
    let s' : State :=
      { pool :=
          { s.pool with
            blocks := created.1 :: s.pool.blocks
            currMemBlockCount := s.pool.currMemBlockCount + 1 }
        words := created.2
        live := insert fresh s.live }
    s'.Inv ∧ HandsOut s s' fresh := by
  obtain ⟨hdivided, hsize, hpos, hwords, hchained⟩ :=
    chained_create h.unit_pos hcount hfits s.words s.live fresh
  have hapart' : ∀ b ∈ s.pool.blocks,
      (xmMemblockCreate s.pool.unitSize unitCount fresh s.words).1.Apart b := by
    intro b hb
    rw [XmMempoolBlock.Apart, hsize]
    exact hapart b hb
  have harena := h.arena.cons hdivided hpos hapart' hwords hchained
  have hdata := XmMempoolBlock.data_eq_unit
    (xmMemblockCreate s.pool.unitSize unitCount fresh s.words).1 s.pool.unitSize.toNat
  refine ⟨⟨h.unit_pos, h.init_pos, h.grow_pos, h.init_fits, h.grow_fits, harena, ?_,
    h.count_succ _⟩, ?_, _, List.mem_cons_self, 0, hpos, hdata⟩
  · exact List.forall_mem_cons.mpr ⟨hfresh, h.data_ne⟩
  · have hnot := h.arena.notLive hdivided hapart' 0 hpos
    rw [← hdata] at hnot
    exact hnot

/-- The addresses of the blocks are those from before the operation on a block. -/
theorem map_data_replace {s : State} (hblocks : s.pool.blocks = before ++ b :: behind)
    (hdata : c.data = b.data) :
    (before ++ c :: behind).map XmMempoolBlock.data = s.pool.blocks.map XmMempoolBlock.data := by
  rw [hblocks, List.map_append, List.map_append, List.map_cons, List.map_cons, hdata]

/-- An operation on a block leaves it where it is. -/
theorem State.Inv.replace {s : State} (h : s.Inv) (hblocks : s.pool.blocks = before ++ b :: behind)
    (harena : Arena s.pool.unitSize.toNat words' live' (before ++ c :: behind))
    (hdata : c.data = b.data) :
    State.Inv
      { pool := { s.pool with blocks := before ++ c :: behind }
        words := words'
        live := live' } := by
  have hmap := map_data_replace hblocks hdata
  refine ⟨h.unit_pos, h.init_pos, h.grow_pos, h.init_fits, h.grow_fits, harena, fun d hd => ?_, ?_⟩
  · have hd' : d.data ∈ s.pool.blocks.map XmMempoolBlock.data := by
      rw [← hmap]
      exact List.mem_map_of_mem hd
    obtain ⟨e, he, heq⟩ := List.mem_map.mp hd'
    rw [← heq]
    exact h.data_ne e he
  · have hlen := congrArg List.length hmap
    rw [List.length_map, List.length_map] at hlen
    rw [hlen]
    exact h.count

/-- `xm_mempool_malloc`. -/
theorem State.Inv.malloc {s : State} (h : s.Inv) {fresh : Nat}
    (hallows : s.Allows (.malloc fresh)) :
    ∃ s', s.next (.malloc fresh) = some s' ∧ s'.Inv ∧ HandsOut s s' (s.returned fresh) ∧
      Grows s s' := by
  obtain ⟨hfresh, hapart⟩ := hallows
  rw [State.next, State.returned, xmMempoolMalloc]
  rw [XmMempool.newBlockSize] at hapart
  by_cases hnil : s.pool.blocks = []
  · rw [if_pos hnil, toNat_blockSize h.init_pos h.init_fits] at hapart
    obtain ⟨hinv, hout⟩ := h.create h.init_pos h.init_fits hfresh hapart
    rw [if_pos hnil]
    rw [hnil] at hinv hout
    refine ⟨_, rfl, hinv, hout, fun _ _ _ c hc => ?_⟩
    rw [hnil] at hc
    exact absurd hc List.not_mem_nil
  · rw [if_neg hnil, toNat_blockSize h.grow_pos h.grow_fits] at hapart
    rw [if_neg hnil]
    generalize hspan : s.pool.blocks.span (fun block => block.freeUnitCount = 0) = passed
    obtain ⟨before, _ | ⟨b, behind⟩⟩ := passed
    · obtain ⟨hinv, hout⟩ := h.create h.grow_pos h.grow_fits hfresh hapart
      refine ⟨_, rfl, hinv, hout, fun _ _ _ c hc => ?_⟩
      exact of_decide_eq_true (span_nil hspan c hc)
    · obtain ⟨hblocks, hfree, -⟩ := span_cons hspan
      have harena := h.arena
      rw [hblocks] at harena
      have hmem : b ∈ before ++ b :: behind := List.mem_append_right _ List.mem_cons_self
      obtain ⟨is, his⟩ := harena.chained b hmem
      obtain ⟨i, rest, hi, hret, hnot, htaken⟩ := his.take (harena.divided b hmem)
        (of_decide_eq_false hfree)
      have hlive : ∀ p ∈ insert (b.unit s.pool.unitSize.toNat i) s.live,
          p ∈ s.live ∨ ∃ i < b.unitCount s.pool.unitSize.toNat,
            p = b.unit s.pool.unitSize.toNat i := by
        intro p hp
        obtain rfl | hp := Finset.mem_insert.mp hp
        · exact .inr ⟨i, hi, rfl⟩
        · exact .inl hp
      have harena' := harena.replace ⟨rest, htaken⟩ rfl rfl (fun _ _ => rfl) hlive
      dsimp only
      rw [hret]
      refine ⟨_, rfl, h.replace hblocks harena' rfl,
        ⟨hnot, _, List.mem_append_right _ List.mem_cons_self, i, hi, rfl⟩, fun d hd hnew => ?_⟩
      rw [← map_data_replace hblocks (c := { b with
        freeUnitPos := s.words (b.unit s.pool.unitSize.toNat i)
        freeUnitCount := b.freeUnitCount - 1 }) rfl] at hnew
      exact absurd (List.mem_map_of_mem hd) hnew

/-- A block goes back to the system only if none of its units is in use. -/
def Releases (s s' : State) : Prop :=
  ∀ b ∈ s.pool.blocks, b.data ∉ s'.pool.blocks.map XmMempoolBlock.data →
    ∀ i < b.unitCount s.pool.unitSize.toNat, b.unit s.pool.unitSize.toNat i ∉ s'.live

theorem State.Inv.count_pred {s : State} (h : s.Inv)
    (hblocks : s.pool.blocks = before ++ b :: behind) :
    s.pool.currMemBlockCount - 1 = Int32.ofNat (before ++ behind).length := by
  have hlen : s.pool.blocks.length = (before ++ behind).length + 1 := by
    rw [hblocks, List.length_append, List.length_append, List.length_cons, Nat.add_assoc]
  rw [h.count, hlen, Int32.ofNat_add]
  exact Int32.add_sub_cancel _ _

/-- The end of `xm_mempool_free`, for a block that has just got a free unit. -/
theorem State.Inv.recycle {s : State} (h : s.Inv) (hblocks : s.pool.blocks = before ++ b :: behind)
    (hfree : b.freeUnitCount ≠ 0) :
    ∃ pool, recycle s.pool before b behind = some pool ∧
      State.Inv { s with pool } ∧ Releases s { s with pool } := by
  have harena := h.arena
  have hdata := h.data_ne
  rw [hblocks] at harena hdata
  have hmem : b ∈ before ++ b :: behind := List.mem_append_right _ List.mem_cons_self
  obtain ⟨is, his⟩ := harena.chained b hmem
  -- the list stays as it is
  have unchanged : State.Inv { s with pool := { s.pool with blocks := before ++ b :: behind } } ∧
      Releases s { s with pool := { s.pool with blocks := before ++ b :: behind } } := by
    rw [← hblocks]
    exact ⟨h, fun d hd hgone => absurd (List.mem_map_of_mem hd) hgone⟩
  rw [XMonitor.Mempool.recycle]
  by_cases hfull : b.blockSize = b.freeUnitCount * s.pool.unitSize
  · rw [if_pos hfull]
    by_cases hrelease : 1 < s.pool.currMemBlockCount ∧ (before.head?.getD b).freeUnitCount ≠ 0
    · -- the block goes back to the system
      have hunused := his.full (harena.divided b hmem) hfree hfull
      rw [if_pos hrelease, harena.releaseBlock hfree hrelease.2]
      refine ⟨_, rfl, ⟨h.unit_pos, h.init_pos, h.grow_pos, h.init_fits, h.grow_fits,
        harena.remove hunused, fun d hd => hdata d ?_, h.count_pred hblocks⟩, fun d hd hgone => ?_⟩
      · exact ((List.sublist_cons_self b behind).append_left before).subset hd
      · rw [hblocks, List.mem_append, List.mem_cons] at hd
        obtain hd | rfl | hd := hd
        · exact absurd (List.mem_map_of_mem (List.mem_append_left behind hd)) hgone
        · exact hunused
        · exact absurd (List.mem_map_of_mem (List.mem_append_right before hd)) hgone
    · rw [if_neg hrelease]
      exact ⟨_, rfl, unchanged⟩
  · rw [if_neg hfull]
    by_cases hroot : (before.head?.getD b).freeUnitCount = 0
    · -- the root has no free unit, so it is another block
      have hne : before ≠ [] := by
        rintro rfl
        exact hfree hroot
      have hperm : (before ++ b :: behind).Perm (b :: (before ++ behind)) := List.perm_middle
      rw [if_pos hroot, unlinkBlock_of_ne_nil hne]
      refine ⟨_, rfl, ⟨h.unit_pos, h.init_pos, h.grow_pos, h.init_fits, h.grow_fits,
        harena.perm hperm, fun d hd => hdata d (hperm.mem_iff.mpr hd), ?_⟩, fun d hd hgone => ?_⟩
      · rw [h.count, hblocks, hperm.length_eq]
      · rw [hblocks] at hd
        exact absurd (List.mem_map_of_mem (hperm.mem_iff.mp hd)) hgone
    · rw [if_neg hroot]
      exact ⟨_, rfl, unchanged⟩

/-- `xm_mempool_free`. -/
theorem State.Inv.free {s : State} (h : s.Inv) {pfree : Nat} (hallows : s.Allows (.free pfree)) :
    ∃ s', s.next (.free pfree) = some s' ∧ s'.Inv ∧ Releases s s' := by
  have hlive : pfree ∈ s.live := hallows
  obtain ⟨before, b, behind, i, hspan, hblocks, hi, rfl⟩ := h.arena.span_free hlive
  have harena := h.arena
  rw [hblocks] at harena
  have hmem : b ∈ before ++ b :: behind := List.mem_append_right _ List.mem_cons_self
  obtain ⟨is, his⟩ := harena.chained b hmem
  have hne : b.unit s.pool.unitSize.toNat i ≠ 0 := by
    have hdata := h.data_ne b (hblocks ▸ hmem)
    rw [XmMempoolBlock.unit]
    omega
  have hgiven := his.give hi hlive
  have hfree : b.freeUnitCount + 1 ≠ 0 := by
    intro hzero
    have hlen := hgiven.count
    change (b.freeUnitCount + 1).toNat = is.length + 1 at hlen
    rw [hzero] at hlen
    cases hlen
  have harena' := harena.replace ⟨i :: is, hgiven⟩ rfl rfl
    (fun a ha => Function.update_of_ne (ha i hi) _ _)
    fun p hp => .inl (Finset.mem_of_mem_erase hp)
  obtain ⟨pool, hrecycle, hinv, hreleases⟩ := (h.replace hblocks harena' rfl).recycle rfl hfree
  have hreturns : xmMempoolFree s.pool s.words (b.unit s.pool.unitSize.toNat i) =
      some (pool, Function.update s.words (b.unit s.pool.unitSize.toNat i) b.freeUnitPos, 0) := by
    have hrecycle' : XMonitor.Mempool.recycle s.pool before _ behind = some pool := hrecycle
    rw [xmMempoolFree, if_neg hne, hspan]
    dsimp only
    rw [hrecycle']
    rfl
  rw [State.next, hreturns]
  refine ⟨_, rfl, hinv, fun d hd hgone => ?_⟩
  rw [hblocks, List.mem_append, List.mem_cons] at hd
  obtain hd | rfl | hd := hd
  · exact hreleases d (List.mem_append_left _ hd) hgone
  · have hgiven' := hreleases _ (List.mem_append_right _ List.mem_cons_self) hgone
    exact hgiven'
  · exact hreleases d (List.mem_append_right _ (List.mem_cons_of_mem _ hd)) hgone

/-! ## Runs -/

/-- In each block the free units are chained and not in use, every unit in use is one of a
block of the list, and the blocks are counted. -/
structure State.Consistent (s : State) : Prop where
  chained : ∀ b ∈ s.pool.blocks, ∃ is, b.Chained s.pool.unitSize.toNat s.words s.live is
  live : ∀ p ∈ s.live, ∃ b ∈ s.pool.blocks, ∃ i < b.unitCount s.pool.unitSize.toNat,
    p = b.unit s.pool.unitSize.toNat i
  count : s.pool.currMemBlockCount = Int32.ofNat s.pool.blocks.length
  toInt_count : s.pool.blocks.length < 2 ^ 31 →
    s.pool.currMemBlockCount.toInt = s.pool.blocks.length

theorem State.Inv.consistent {s : State} (h : s.Inv) : s.Consistent where
  chained := h.arena.chained
  live := h.arena.live
  count := h.count
  toInt_count hfew := by
    rw [h.count]
    exact Int32.toInt_ofNat_of_lt hfew

/-- What is asked of a step. -/
def Safe (s s' : State) : Event → Prop
  | .malloc fresh => HandsOut s s' (s.returned fresh) ∧ Grows s s'
  | .free _ => Releases s s'
  | .write _ _ => True

theorem State.Inv.next {s : State} (h : s.Inv) {e : Event} (hallows : s.Allows e) :
    ∃ s', s.next e = some s' ∧ s'.Inv ∧ Safe s s' e := by
  cases e with
  | malloc fresh => exact h.malloc hallows
  | free pfree => exact h.free hallows
  | write unit word =>
      exact ⟨_, rfl, ⟨h.unit_pos, h.init_pos, h.grow_pos, h.init_fits, h.grow_fits,
        h.arena.write hallows word, h.data_ne, h.count⟩, trivial⟩

/-- The state of a run that has followed no null pointer. -/
def Runs (s : Option State) : Prop := ∃ t, s = some t ∧ t.Inv

theorem runs_step (s : Option State) (e : Event) (h : Runs s) (hallowed : Allowed s e) :
    Runs (step s e) := by
  obtain ⟨t, rfl, hinv⟩ := h
  obtain ⟨t', hnext, hinv', -⟩ := hinv.next (hallowed t rfl)
  exact ⟨t', hnext, hinv'⟩

theorem inv_init {unitSize : UInt32} {initMemUnitCount growMemUnitCount : Int32} {pool : XmMempool}
    (hinit : xmMempoolInit unitSize initMemUnitCount growMemUnitCount = some pool)
    (hunit : 1 ≤ unitSize)
    (hinitFits : (unitSize.toNat + 7) / 8 * 8 * initMemUnitCount.toNatClampNeg < 2 ^ 32)
    (hgrowFits : (unitSize.toNat + 7) / 8 * 8 * growMemUnitCount.toNatClampNeg < 2 ^ 32)
    (words : Words) : State.Inv { pool, words, live := ∅ } := by
  rw [xmMempoolInit] at hinit
  split at hinit
  · cases hinit
  · rename_i hpos
    rw [not_or, Int32.not_le, Int32.not_le] at hpos
    obtain rfl := Option.some.inj hinit
    have hcount := (unitCount_toNat hpos.1).2
    have hunit' : 1 ≤ unitSize.toNat := UInt32.le_iff_toNat_le.mp hunit
    have hle : (unitSize.toNat + 7) / 8 * 8 ≤
        (unitSize.toNat + 7) / 8 * 8 * initMemUnitCount.toNatClampNeg :=
      Nat.le_mul_of_pos_right _ hcount
    have hround : (roundup unitSize).toNat = (unitSize.toNat + 7) / 8 * 8 := by
      rw [toNat_roundup, Nat.mod_eq_of_lt (Nat.lt_of_le_of_lt hle hinitFits)]
    have hnone : Arena (roundup unitSize).toNat words ∅ [] :=
      ⟨fun _ hb => absurd hb List.not_mem_nil, fun _ hb => absurd hb List.not_mem_nil,
        List.Pairwise.nil, fun _ hp => absurd hp (Finset.notMem_empty _)⟩
    rw [← hround] at hinitFits hgrowFits
    refine ⟨?_, hpos.1, hpos.2, hinitFits, hgrowFits, hnone,
      fun _ hb => absurd hb List.not_mem_nil, rfl⟩
    change 0 < (roundup unitSize).toNat
    rw [hround]
    omega

/-- Whatever is allocated, freed and written, no step follows a null pointer, every unit that
is handed out is one that was not in use, and no block with a unit in use goes back to the
system. -/
theorem mempool_hands_out_once {unitSize : UInt32} {initMemUnitCount growMemUnitCount : Int32}
    {pool : XmMempool}
    (hinit : xmMempoolInit unitSize initMemUnitCount growMemUnitCount = some pool)
    (hunit : 1 ≤ unitSize)
    (hinitFits : (unitSize.toNat + 7) / 8 * 8 * initMemUnitCount.toNatClampNeg < 2 ^ 32)
    (hgrowFits : (unitSize.toNat + 7) / 8 * 8 * growMemUnitCount.toNatClampNeg < 2 ^ 32)
    (words : Words) (events : List Event)
    (hallowed : EventRun.AllSteps step Allowed (some { pool, words, live := ∅ }) events)
    (past : List Event) (e : Event) (hpast : past ++ [e] <+: events) :
    ∃ s s', past.foldl step (some { pool, words, live := ∅ }) = some s ∧ s.next e = some s' ∧
      s.Consistent ∧ s'.Consistent ∧ Safe s s' e := by
  have hprefix : past <+: events := (List.prefix_append past [e]).trans hpast
  obtain ⟨s, hs, hinv⟩ := EventRun.foldl_invariant (I := Runs) runs_step
    ⟨_, rfl, inv_init hinit hunit hinitFits hgrowFits words⟩ hallowed hprefix
  have hallows := EventRun.allSteps_iff.mp hallowed past e hpast s hs
  obtain ⟨s', hnext, hinv', hsafe⟩ := hinv.next hallows
  exact ⟨s, s', hs, hnext, hinv.consistent, hinv'.consistent, hsafe⟩

/-- The second block moves to the front of the list, which then has a free unit again. -/
theorem mempool_moves_to_front :
    ∃ s s', [Event.malloc 1000, .write 1000 7, .malloc 2000, .malloc 2000].foldl step
          (some { pool := ⟨8, 2, 1, 0, []⟩, words := fun _ => 0, live := ∅ }) = some s ∧
      s.next (.free 1008) = some s' ∧ s.Consistent ∧ s'.Consistent ∧
      Safe s s' (.free 1008) := by
  have hinit : xmMempoolInit 5 2 1 = some ⟨8, 2, 1, 0, []⟩ := by decide
  refine mempool_hands_out_once hinit (by decide) (by decide) (by decide) (fun _ => 0)
    [.malloc 1000, .write 1000 7, .malloc 2000, .malloc 2000, .free 1008]
    ⟨?_, ?_, ?_, ?_, ?_, trivial⟩ _ _ (List.prefix_refl _)
  · exact fun t ht => Option.some.inj ht ▸ (by decide)
  · exact fun t ht => Option.some.inj ht ▸ (by decide)
  · exact fun t ht => Option.some.inj ht ▸ (by decide)
  · exact fun t ht => Option.some.inj ht ▸ (by decide)
  · exact fun t ht => Option.some.inj ht ▸ (by decide)

end XMonitor.Mempool
