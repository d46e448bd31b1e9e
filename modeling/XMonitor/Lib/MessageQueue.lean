import Mathlib.Data.List.Forall2

/-!
# A queue of messages that are reserved, filled and taken

Several producers reserve room at the back of a queue of bytes and fill it later, in any
order. A consumer is granted bytes at the front, reads them and releases them, all at once or
in parts. A byte that is granted has been filled before.

The queue is the specification of a buffer that several threads share. The buffer shows its
steps as events, and the queue accepts an event only where the specification allows it. What
is proved here holds of every sequence of accepted events: the released bytes are those of the
messages, in the order of the reservations, without a loss or a repetition.
-/

namespace MessageQueue

variable {ι β : Type*}

/-- A byte of the queue, which a producer still has to fill or which can be read. -/
inductive Slot (ι β : Type*) where
  | pending (i : ι)
  | ready (v : β)
deriving DecidableEq

/-- A slot, and whether it is the first of its message. -/
structure Cell (ι β : Type*) where
  first : Bool
  slot : Slot ι β
deriving DecidableEq

/-- The cells of a message. -/
def message : List (Slot ι β) → List (Cell ι β)
  | [] => []
  | s :: slots => ⟨true, s⟩ :: slots.map (Cell.mk false)

@[simp] theorem message_map_slot (slots : List (Slot ι β)) :
    (message slots).map Cell.slot = slots := by
  cases slots with
  | nil => rfl
  | cons s slots => simp [message, Function.comp_def]

@[simp] theorem message_length (slots : List (Slot ι β)) :
    (message slots).length = slots.length := by
  cases slots <;> simp [message]

/-- The cells in front of the consumer, and how many of them it may read. -/
structure Queue (ι β : Type*) where
  cells : List (Cell ι β) := []
  granted : Nat := 0

/-- What a step of the shared buffer does to the queue. -/
inductive Event (ι β : Type*) where
  | silent
  | reserve (i : ι) (len : Nat)
  | produce (i : ι) (bytes : List β)
  | empty
  | grant (bytes : List β)
  | release (bytes : List β)
deriving DecidableEq

/-- The cells that begin at place `n` begin with a message, if there are any. -/
def StartsAt (cells : List (Cell ι β)) (n : Nat) : Prop :=
  ∀ c, cells[n]? = some c → c.first = true

/-- The cells begin with these bytes, all of which have been filled. -/
def Reads (cells : List (Cell ι β)) (bytes : List β) : Prop :=
  (cells.take bytes.length).map Cell.slot = bytes.map Slot.ready

/-- No cell waits for the producer. -/
def Unreserved (i : ι) (cells : List (Cell ι β)) : Prop :=
  ∀ c ∈ cells, c.slot ≠ .pending i

section Steps

variable [DecidableEq ι]

/-- How many cells wait for the producer. -/
def pendingCount (i : ι) (cells : List (Cell ι β)) : Nat :=
  cells.countP fun c => match c.slot with
    | .pending j => decide (j = i)
    | .ready _ => false

/-- The cells that wait for the producer take its bytes, from the front to the back. -/
def fill (i : ι) : List β → List (Cell ι β) → List (Cell ι β)
  | [], cells => cells
  | _, [] => []
  | b :: bytes, c :: cells =>
      match c.slot with
      | .pending j =>
          if j = i then ⟨c.first, .ready b⟩ :: fill i bytes cells
          else c :: fill i (b :: bytes) cells
      | .ready _ => c :: fill i (b :: bytes) cells

/-- A reservation of a run, and the bytes that filled it. -/
inductive Entry (ι β : Type*) where
  | reserved (i : ι) (len : Nat)
  | produced (i : ι) (bytes : List β)
deriving DecidableEq

def Entry.slots : Entry ι β → List (Slot ι β)
  | .reserved i len => List.replicate len (.pending i)
  | .produced _ bytes => bytes.map .ready

/-- The entry after a producer has filled its own. -/
def Entry.fill (i : ι) (bytes : List β) : Entry ι β → Entry ι β
  | .reserved j len => if j = i then .produced i bytes else .reserved j len
  | .produced j bs => .produced j bs

/-- The reservations of a run in their order. -/
def logStep (log : List (Entry ι β)) : Event ι β → List (Entry ι β)
  | .reserve i len => log ++ [.reserved i len]
  | .produce i bytes => log.map (Entry.fill i bytes)
  | _ => log

def logOf (es : List (Event ι β)) : List (Entry ι β) := es.foldl logStep []

/-- The bytes that an event takes out of the queue. -/
def Event.released : Event ι β → List β
  | .release bytes => bytes
  | _ => []

/-- The bytes that the consumer has released. -/
def delivered (es : List (Event ι β)) : List β := es.flatMap Event.released

variable [DecidableEq β]

instance (cells : List (Cell ι β)) (n : Nat) : Decidable (StartsAt cells n) :=
  match h : cells[n]? with
  | none => .isTrue fun c hc => by rw [h] at hc; cases hc
  | some d =>
      if hd : d.first = true then .isTrue fun c hc => by rw [h] at hc; cases hc; exact hd
      else .isFalse fun hall => hd (hall d h)

instance (cells : List (Cell ι β)) (bytes : List β) : Decidable (Reads cells bytes) :=
  inferInstanceAs (Decidable (_ = _))

instance (i : ι) (cells : List (Cell ι β)) : Decidable (Unreserved i cells) :=
  inferInstanceAs (Decidable (∀ c ∈ cells, _))

/-- The queue after an event that it accepts. -/
def Queue.apply (q : Queue ι β) : Event ι β → Option (Queue ι β)
  | .silent => some q
  | .reserve i len =>
      if 0 < len ∧ Unreserved i q.cells then
        some { q with cells := q.cells ++ message (List.replicate len (.pending i)) }
      else none
  | .produce i bytes =>
      if bytes.length = pendingCount i q.cells then
        some { q with cells := fill i bytes q.cells }
      else none
  | .empty => if q.cells = [] then some { q with granted := 0 } else none
  | .grant bytes =>
      if Reads q.cells bytes ∧ StartsAt q.cells bytes.length then
        some { q with granted := bytes.length }
      else none
  | .release bytes =>
      if bytes.length ≤ q.granted ∧ Reads q.cells bytes then
        some { cells := q.cells.drop bytes.length, granted := q.granted - bytes.length }
      else none

/-- The queue after a sequence of events, all of which it accepts. -/
def Queue.run (q : Queue ι β) : List (Event ι β) → Option (Queue ι β)
  | [] => some q
  | e :: es => (q.apply e).bind fun q' => q'.run es

end Steps

/-- The slots of a run's messages, one message after the other. -/
def stream (log : List (Entry ι β)) : List (Slot ι β) := log.flatMap Entry.slots

/-- The cells of a run's messages. -/
def cellsOf (log : List (Entry ι β)) : List (Cell ι β) :=
  log.flatMap fun e => message e.slots

theorem cellsOf_map_slot (log : List (Entry ι β)) :
    (cellsOf log).map Cell.slot = stream log := by
  simp [cellsOf, stream, List.map_flatMap]

theorem cellsOf_append (log log' : List (Entry ι β)) :
    cellsOf (log ++ log') = cellsOf log ++ cellsOf log' :=
  List.flatMap_append

/-- The entry still waits for its producer. -/
def Entry.Waits (i : ι) (e : Entry ι β) : Prop := ∃ len, e = .reserved i len

theorem unreserved_of_slots {i : ι} {cells : List (Cell ι β)} {bytes : List β}
    (h : cells.map Cell.slot = bytes.map Slot.ready) : Unreserved i cells := by
  intro c hc hslot
  have hmem : c.slot ∈ cells.map Cell.slot := List.mem_map_of_mem hc
  rw [h, hslot] at hmem
  simp at hmem

theorem unreserved_append {i : ι} {cells cells' : List (Cell ι β)} :
    Unreserved i (cells ++ cells') ↔ Unreserved i cells ∧ Unreserved i cells' := by
  simp only [Unreserved, List.mem_append, or_imp, forall_and]

theorem mem_message_slot {slots : List (Slot ι β)} {c : Cell ι β} (hc : c ∈ message slots) :
    c.slot ∈ slots := by
  rw [← message_map_slot slots]
  exact List.mem_map_of_mem hc

/-- Only an entry that waits for the producer has cells that do. -/
theorem Entry.unreserved {i : ι} {e : Entry ι β} (h : ¬ e.Waits i) :
    Unreserved i (message e.slots) := by
  intro c hc hslot
  have hmem := mem_message_slot hc
  rw [hslot] at hmem
  cases e with
  | reserved j len =>
      obtain rfl : i = j := Slot.pending.inj (List.eq_of_mem_replicate hmem)
      exact h ⟨len, rfl⟩
  | produced j bytes => simp [Entry.slots] at hmem

theorem unreserved_cellsOf {i : ι} {log : List (Entry ι β)} (h : ∀ e ∈ log, ¬ e.Waits i) :
    Unreserved i (cellsOf log) := by
  intro c hc
  obtain ⟨e, he, hce⟩ := List.mem_flatMap.mp hc
  exact Entry.unreserved (h e he) c hce

/-- Cells that end where a message begins end with a whole message. -/
theorem split_of_startsAt {log : List (Entry ι β)} {gone cells : List (Cell ι β)}
    (h : cellsOf log = gone ++ cells) (hstart : StartsAt cells 0) :
    ∃ past rest, log = past ++ rest ∧ gone = cellsOf past := by
  induction log generalizing gone with
  | nil =>
      refine ⟨[], [], rfl, ?_⟩
      have hnil : gone ++ cells = [] := h.symm
      exact (List.append_eq_nil_iff.mp hnil).1
  | cons e log ih =>
      cases gone with
      | nil => exact ⟨[], e :: log, rfl, rfl⟩
      | cons c gone =>
          have hcons : message e.slots ++ cellsOf log = (c :: gone) ++ cells := h
          obtain ⟨rest, hgone, hlog⟩ | ⟨rest, hmsg, hcells⟩ := List.append_eq_append_iff.mp hcons
          · obtain ⟨past, log', rfl, rfl⟩ := ih hlog
            exact ⟨e :: past, log', rfl, hgone⟩
          · cases rest with
            | nil =>
                refine ⟨[e], log, rfl, ?_⟩
                rw [List.append_nil] at hmsg
                simp [cellsOf, hmsg]
            | cons d rest =>
                -- The rest of a message that has begun has no first cell.
                have hd : d.first = true := by
                  apply hstart
                  rw [hcells]
                  rfl
                cases hs : e.slots with
                | nil => simp [hs, message] at hmsg
                | cons s slots =>
                    rw [hs, message, List.cons_append] at hmsg
                    have htail := (List.cons.inj hmsg).2
                    have hmem : d ∈ slots.map (Cell.mk false) := by simp [htail]
                    obtain ⟨s', _, rfl⟩ := List.mem_map.mp hmem
                    cases hd

theorem startsAt_append {cells : List (Cell ι β)} {n : Nat} (h : StartsAt cells n)
    (hn : n ≤ cells.length) (slots : List (Slot ι β)) : StartsAt (cells ++ message slots) n := by
  intro c hc
  rcases Nat.lt_or_eq_of_le hn with hlt | rfl
  · rw [List.getElem?_append_left hlt] at hc
    exact h c hc
  · rw [List.getElem?_append_right (Nat.le_refl _), Nat.sub_self] at hc
    cases slots with
    | nil => cases hc
    | cons s slots =>
        obtain rfl := Option.some.inj hc
        rfl

theorem Reads.length_le {cells : List (Cell ι β)} {bytes : List β} (h : Reads cells bytes) :
    bytes.length ≤ cells.length := by
  have hlen := congrArg List.length h
  simp only [List.length_map, List.length_take] at hlen
  omega

section Fill

variable [DecidableEq ι] {i : ι}

@[simp] theorem fill_nil (cells : List (Cell ι β)) : fill i [] cells = cells := by
  cases cells <;> rfl

@[simp] theorem fill_empty (bytes : List β) : fill i bytes [] = [] := by
  cases bytes <;> rfl

theorem fill_cons_of_ne {c : Cell ι β} (hc : c.slot ≠ .pending i) (bytes : List β)
    (cells : List (Cell ι β)) : fill i bytes (c :: cells) = c :: fill i bytes cells := by
  cases bytes with
  | nil => simp
  | cons b bytes =>
      obtain ⟨first, slot⟩ := c
      cases slot with
      | pending j =>
          have hj : j ≠ i := fun hji => hc (congrArg Slot.pending hji)
          exact if_neg hj
      | ready v => rfl

theorem fill_append_of_unreserved {cells : List (Cell ι β)} (h : Unreserved i cells)
    (bytes : List β) (cells' : List (Cell ι β)) :
    fill i bytes (cells ++ cells') = cells ++ fill i bytes cells' := by
  induction cells with
  | nil => rfl
  | cons c cells ih =>
      have htail := ih fun d hd => h d (List.mem_cons_of_mem c hd)
      rw [List.cons_append, fill_cons_of_ne (h c List.mem_cons_self), htail]
      rfl

theorem fill_cons_self (b : β) (bytes : List β) (first : Bool) (cells : List (Cell ι β)) :
    fill i (b :: bytes) (⟨first, .pending i⟩ :: cells) = ⟨first, .ready b⟩ :: fill i bytes cells :=
  if_pos rfl

/-- A block that waits for the producer takes all of its bytes. -/
theorem fill_message (bytes : List β) (cells : List (Cell ι β)) :
    fill i bytes (message (List.replicate bytes.length (.pending i)) ++ cells) =
      message (bytes.map .ready) ++ cells := by
  have htail : ∀ bs : List β,
      fill i bs ((List.replicate bs.length (Slot.pending i)).map (Cell.mk false) ++ cells) =
        (bs.map Slot.ready).map (Cell.mk false) ++ cells := by
    intro bs
    induction bs with
    | nil => exact fill_nil cells
    | cons b bs ih =>
        rw [List.length_cons, List.replicate_succ, List.map_cons, List.cons_append,
          fill_cons_self, ih]
        rfl
  cases bytes with
  | nil => exact fill_nil cells
  | cons b bs =>
      rw [List.length_cons, List.replicate_succ, message, List.cons_append, fill_cons_self,
        htail bs]
      rfl

@[simp] theorem fill_length (bytes : List β) (cells : List (Cell ι β)) :
    (fill i bytes cells).length = cells.length := by
  induction cells generalizing bytes with
  | nil => cases bytes <;> rfl
  | cons c cells ih =>
      cases bytes with
      | nil => rfl
      | cons b bytes =>
          rw [fill]
          cases c.slot with
          | pending j => by_cases hj : j = i <;> simp [hj, ih]
          | ready v => simp [ih]

theorem fill_map_first (bytes : List β) (cells : List (Cell ι β)) :
    (fill i bytes cells).map Cell.first = cells.map Cell.first := by
  induction cells generalizing bytes with
  | nil => cases bytes <;> rfl
  | cons c cells ih =>
      cases bytes with
      | nil => rfl
      | cons b bytes =>
          rw [fill]
          cases c.slot with
          | pending j => by_cases hj : j = i <;> simp [hj, ih]
          | ready v => simp [ih]

theorem pendingCount_append (cells cells' : List (Cell ι β)) :
    pendingCount i (cells ++ cells') = pendingCount i cells + pendingCount i cells' :=
  List.countP_append

theorem pendingCount_of_unreserved {cells : List (Cell ι β)} (h : Unreserved i cells) :
    pendingCount i cells = 0 := by
  rw [pendingCount, List.countP_eq_zero]
  intro c hc hp
  apply h c hc
  cases hs : c.slot with
  | pending j =>
      rw [hs] at hp
      rw [of_decide_eq_true hp]
  | ready v =>
      rw [hs] at hp
      cases hp

theorem pendingCount_reservation (len : Nat) :
    pendingCount i (message (List.replicate len (Slot.pending (β := β) i))) = len := by
  have hall : ∀ c ∈ message (List.replicate len (Slot.pending (β := β) i)),
      c.slot = .pending i :=
    fun c hc => List.eq_of_mem_replicate (mem_message_slot hc)
  have hlen : (message (List.replicate len (Slot.pending (β := β) i))).length = len := by simp
  rw [pendingCount, List.countP_eq_length.mpr, hlen]
  intro c hc
  rw [hall c hc]
  exact decide_eq_true rfl

theorem startsAt_fill {i : ι} {cells : List (Cell ι β)} {n : Nat} (h : StartsAt cells n)
    (bytes : List β) : StartsAt (fill i bytes cells) n := by
  intro c hc
  have hfirst : ((fill i bytes cells).map Cell.first)[n]? = some c.first := by
    rw [List.getElem?_map, hc]
    rfl
  rw [fill_map_first, List.getElem?_map] at hfirst
  obtain ⟨d, hd, hdc⟩ := Option.map_eq_some_iff.mp hfirst
  rw [← hdc]
  exact h d hd

/-- A producer fills the cells of its addresses, where the cells of a queue stand for addresses
and `f` is the memory. -/
theorem forall₂_fill {α : Type*} {R R' : α → Cell ι β → Prop} {P : α → Prop} [DecidablePred P]
    {f : α → β} (hpending : ∀ x c, R x c → (c.slot = .pending i ↔ P x))
    (hown : ∀ x c, R x c → P x → R' x ⟨c.first, .ready (f x)⟩)
    (hother : ∀ x c, R x c → ¬ P x → R' x c) {addrs : List α} {cells : List (Cell ι β)}
    (h : List.Forall₂ R addrs cells) :
    List.Forall₂ R' addrs (fill i ((addrs.filter P).map f) cells) ∧
      ((addrs.filter P).map f).length = pendingCount i cells := by
  induction h with
  | nil => exact ⟨by rw [fill_empty]; exact .nil, rfl⟩
  | @cons x c addrs cells hx _ ih =>
      obtain ⟨hfill, hcount⟩ := ih
      have hiff := hpending x c hx
      by_cases hP : P x
      · obtain ⟨first, slot⟩ := c
        obtain rfl : slot = .pending i := hiff.mpr hP
        rw [List.filter_cons_of_pos (by simpa using hP), List.map_cons, fill_cons_self]
        refine ⟨.cons (hown x _ hx hP) hfill, ?_⟩
        rw [pendingCount, List.countP_cons_of_pos (by simp), List.length_cons, hcount]
        rfl
      · have hslot : c.slot ≠ .pending i := fun hs => hP (hiff.mp hs)
        rw [List.filter_cons_of_neg (by simpa using hP), fill_cons_of_ne hslot]
        refine ⟨.cons (hother x c hx hP) hfill, ?_⟩
        have hzero : pendingCount i [c] = 0 :=
          pendingCount_of_unreserved fun d hd => by rwa [List.mem_singleton.mp hd]
        rw [← List.singleton_append, pendingCount_append, hzero, Nat.zero_add, hcount]

end Fill

/-! ### What a run delivers -/

/-- No two entries wait for the same producer. -/
def OneEach (log : List (Entry ι β)) : Prop :=
  log.Pairwise fun e e' => ∀ i, e.Waits i → ¬ e'.Waits i

/-- What the run has taken out of the queue and what is left are the messages of its log. -/
structure Accounts (log : List (Entry ι β)) (out : List β) (q : Queue ι β) : Prop where
  split : ∃ gone, cellsOf log = gone ++ q.cells ∧ gone.map Cell.slot = out.map Slot.ready
  oneEach : OneEach log
  positive : ∀ i len, Entry.reserved i len ∈ log → 0 < len

theorem Accounts.empty : Accounts ([] : List (Entry ι β)) [] {} where
  split := ⟨[], rfl, rfl⟩
  oneEach := List.Pairwise.nil
  positive := fun i len h => by cases h

/-- A producer without pending cells has no open reservation. -/
theorem Accounts.not_waits {log : List (Entry ι β)} {out : List β} {q : Queue ι β}
    (h : Accounts log out q) {i : ι} (hi : Unreserved i q.cells) {e : Entry ι β} (he : e ∈ log) :
    ¬ e.Waits i := by
  rintro ⟨len, rfl⟩
  obtain ⟨gone, hcells, hgone⟩ := h.split
  have hall : Unreserved i (cellsOf log) := by
    rw [hcells]
    exact unreserved_append.mpr ⟨unreserved_of_slots hgone, hi⟩
  obtain ⟨n, rfl⟩ := Nat.exists_eq_add_one_of_ne_zero (Nat.ne_of_gt (h.positive i len he))
  refine hall ⟨true, .pending i⟩ ?_ rfl
  exact List.mem_flatMap.mpr ⟨_, he, by
    rw [Entry.slots, List.replicate_succ, message]
    exact List.mem_cons_self⟩

section Log

variable [DecidableEq ι]

theorem Entry.fill_of_not_waits {i : ι} {e : Entry ι β} (h : ¬ e.Waits i) (bytes : List β) :
    e.fill i bytes = e := by
  cases e with
  | reserved j len =>
      have hj : j ≠ i := fun hji => h ⟨len, by rw [hji]⟩
      exact if_neg hj
  | produced j bs => rfl

theorem map_fill_of_not_waits {i : ι} {log : List (Entry ι β)} (h : ∀ e ∈ log, ¬ e.Waits i)
    (bytes : List β) : log.map (Entry.fill i bytes) = log := by
  calc log.map (Entry.fill i bytes) = log.map id :=
        List.map_congr_left fun e he => Entry.fill_of_not_waits (h e he) bytes
    _ = log := List.map_id log

/-- The bytes of a producer fill the one entry that waits for them. -/
theorem fill_cellsOf {i : ι} {log : List (Entry ι β)} (hone : OneEach log) {bytes : List β}
    (hcount : bytes.length = pendingCount i (cellsOf log)) :
    fill i bytes (cellsOf log) = cellsOf (log.map (Entry.fill i bytes)) := by
  induction log with
  | nil => exact fill_empty bytes
  | cons e log ih =>
      obtain ⟨hhead, htail⟩ := List.pairwise_cons.mp hone
      change fill i bytes (message e.slots ++ cellsOf log) =
        message (e.fill i bytes).slots ++ cellsOf (log.map (Entry.fill i bytes))
      have hsplit : pendingCount i (cellsOf (e :: log)) =
          pendingCount i (message e.slots) + pendingCount i (cellsOf log) :=
        pendingCount_append _ _
      by_cases he : e.Waits i
      · have hrest : ∀ e' ∈ log, ¬ e'.Waits i := fun e' he' => hhead e' he' i he
        rw [pendingCount_of_unreserved (unreserved_cellsOf hrest)] at hsplit
        obtain ⟨len, rfl⟩ := he
        obtain rfl : bytes.length = len := by
          rw [hcount, hsplit]
          exact pendingCount_reservation len
        rw [map_fill_of_not_waits hrest, Entry.fill, if_pos rfl]
        exact fill_message bytes (cellsOf log)
      · rw [pendingCount_of_unreserved (Entry.unreserved he), Nat.zero_add] at hsplit
        rw [Entry.fill_of_not_waits he, fill_append_of_unreserved (Entry.unreserved he),
          ih htail (hcount.trans hsplit)]

theorem OneEach.map_fill {log : List (Entry ι β)} (h : OneEach log) (i : ι) (bytes : List β) :
    OneEach (log.map (Entry.fill i bytes)) := by
  refine List.pairwise_map.mpr (List.Pairwise.imp ?_ h)
  have hwaits : ∀ (e : Entry ι β) j, (e.fill i bytes).Waits j → e.Waits j := by
    rintro (⟨k, len⟩ | ⟨k, bs⟩) j ⟨len', hj⟩
    · rw [Entry.fill] at hj
      split at hj
      · cases hj
      · exact ⟨len', hj⟩
    · cases hj
  intro e e' hne j hj hj'
  exact hne j (hwaits e j hj) (hwaits e' j hj')

variable [DecidableEq β]

theorem Accounts.apply {log : List (Entry ι β)} {out : List β} {q q' : Queue ι β}
    (h : Accounts log out q) {e : Event ι β} (hq : q.apply e = some q') :
    Accounts (logStep log e) (out ++ e.released) q' := by
  obtain ⟨gone, hcells, hgone⟩ := h.split
  cases e with
  | silent =>
      obtain rfl := Option.some.inj hq
      change Accounts _ (out ++ []) _
      rw [List.append_nil]
      exact h
  | reserve i len =>
      obtain ⟨⟨hlen, hfree⟩, hq⟩ := Option.ite_none_right_eq_some.mp hq
      obtain rfl := Option.some.inj hq
      change Accounts _ (out ++ []) _
      rw [List.append_nil]
      refine ⟨⟨gone, ?_, hgone⟩, ?_, ?_⟩
      · rw [logStep, cellsOf_append, hcells, List.append_assoc]
        simp [cellsOf, Entry.slots]
      · refine List.pairwise_append.mpr ⟨h.oneEach, List.pairwise_singleton _ _, ?_⟩
        intro e he e' he' j hj hj'
        obtain rfl := List.mem_singleton.mp he'
        obtain ⟨len', hlen'⟩ := hj'
        obtain rfl : i = j := by cases hlen'; rfl
        exact h.not_waits hfree he hj
      · intro j len' hmem
        rcases List.mem_append.mp hmem with hold | hnew
        · exact h.positive j len' hold
        · cases List.mem_singleton.mp hnew
          exact hlen
  | produce i bytes =>
      obtain ⟨hcount, hq⟩ := Option.ite_none_right_eq_some.mp hq
      obtain rfl := Option.some.inj hq
      change Accounts _ (out ++ []) _
      rw [List.append_nil]
      have hun := unreserved_of_slots (i := i) hgone
      refine ⟨⟨gone, ?_, hgone⟩, h.oneEach.map_fill i bytes, ?_⟩
      · have hfill : bytes.length = pendingCount i (cellsOf log) := by
          rw [hcells, pendingCount_append, pendingCount_of_unreserved hun, Nat.zero_add, hcount]
        rw [logStep, ← fill_cellsOf h.oneEach hfill, hcells, fill_append_of_unreserved hun]
      · intro j len hmem
        obtain ⟨e, he, hej⟩ := List.mem_map.mp hmem
        by_cases hw : e.Waits i
        · obtain ⟨l, rfl⟩ := hw
          rw [Entry.fill, if_pos rfl] at hej
          cases hej
        · rw [Entry.fill_of_not_waits hw] at hej
          exact h.positive j len (hej ▸ he)
  | empty =>
      obtain ⟨_, hq⟩ := Option.ite_none_right_eq_some.mp hq
      obtain rfl := Option.some.inj hq
      change Accounts _ (out ++ []) _
      rw [List.append_nil]
      exact ⟨h.split, h.oneEach, h.positive⟩
  | grant bytes =>
      obtain ⟨_, hq⟩ := Option.ite_none_right_eq_some.mp hq
      obtain rfl := Option.some.inj hq
      change Accounts _ (out ++ []) _
      rw [List.append_nil]
      exact ⟨h.split, h.oneEach, h.positive⟩
  | release bytes =>
      obtain ⟨⟨_, hreads⟩, hq⟩ := Option.ite_none_right_eq_some.mp hq
      obtain rfl := Option.some.inj hq
      refine ⟨⟨gone ++ q.cells.take bytes.length, ?_, ?_⟩, h.oneEach, h.positive⟩
      · change cellsOf log = _
        rw [hcells, List.append_assoc, List.take_append_drop]
      · rw [List.map_append, hgone, hreads, Event.released, List.map_append]

theorem Accounts.run {log : List (Entry ι β)} {out : List β} {q q' : Queue ι β}
    (h : Accounts log out q) {es : List (Event ι β)} (hq : q.run es = some q') :
    Accounts (es.foldl logStep log) (out ++ delivered es) q' := by
  induction es generalizing log out q with
  | nil =>
      obtain rfl := Option.some.inj hq
      simpa [delivered] using h
  | cons e es ih =>
      obtain ⟨q₁, hq₁, hrun⟩ := Option.bind_eq_some_iff.mp hq
      have hstep := ih (h.apply hq₁) hrun
      rwa [List.append_assoc] at hstep

/-- The released bytes are the first bytes of the messages, in the order of the reservations. -/
theorem delivered_prefix {es : List (Event ι β)} {q : Queue ι β}
    (h : (Queue.mk [] 0).run es = some q) :
    (delivered es).map Slot.ready ++ q.cells.map Cell.slot = stream (logOf es) := by
  obtain ⟨gone, hcells, hgone⟩ := (Accounts.empty.run h).split
  rw [List.nil_append] at hgone
  rw [← hgone, ← List.map_append, ← hcells, cellsOf_map_slot, logOf]

/-! ### Whole messages -/

/-- Every release of the run takes all of the bytes that have been granted. -/
def ReleasesAll (q : Queue ι β) : List (Event ι β) → Prop
  | [] => True
  | e :: es => (∀ bytes, e = .release bytes → bytes.length = q.granted) ∧
      ∀ q', q.apply e = some q' → ReleasesAll q' es

/-- The queue begins with a message, and so does what is behind the granted bytes. -/
structure Aligned (q : Queue ι β) : Prop where
  front : StartsAt q.cells 0
  behind : StartsAt q.cells q.granted
  fits : q.granted ≤ q.cells.length

theorem Aligned.apply {q q' : Queue ι β} (h : Aligned q) {e : Event ι β}
    (hall : ∀ bytes, e = .release bytes → bytes.length = q.granted) (hq : q.apply e = some q') :
    Aligned q' := by
  cases e with
  | silent =>
      obtain rfl := Option.some.inj hq
      exact h
  | reserve i len =>
      obtain ⟨_, hq⟩ := Option.ite_none_right_eq_some.mp hq
      obtain rfl := Option.some.inj hq
      refine ⟨startsAt_append h.front (Nat.zero_le _) _, startsAt_append h.behind h.fits _, ?_⟩
      rw [List.length_append]
      exact Nat.le_add_right_of_le h.fits
  | produce i bytes =>
      obtain ⟨_, hq⟩ := Option.ite_none_right_eq_some.mp hq
      obtain rfl := Option.some.inj hq
      refine ⟨startsAt_fill h.front bytes, startsAt_fill h.behind bytes, ?_⟩
      rw [fill_length]
      exact h.fits
  | empty =>
      obtain ⟨_, hq⟩ := Option.ite_none_right_eq_some.mp hq
      obtain rfl := Option.some.inj hq
      exact ⟨h.front, h.front, Nat.zero_le _⟩
  | grant bytes =>
      obtain ⟨⟨hreads, hstart⟩, hq⟩ := Option.ite_none_right_eq_some.mp hq
      obtain rfl := Option.some.inj hq
      exact ⟨h.front, hstart, hreads.length_le⟩
  | release bytes =>
      obtain ⟨_, hq⟩ := Option.ite_none_right_eq_some.mp hq
      obtain rfl := Option.some.inj hq
      have hdrop : StartsAt (q.cells.drop bytes.length) 0 := by
        intro c hc
        rw [List.getElem?_drop, hall bytes rfl] at hc
        exact h.behind c hc
      have hzero : q.granted - bytes.length = 0 := by rw [hall bytes rfl, Nat.sub_self]
      exact ⟨hdrop, by rw [hzero]; exact hdrop, by rw [hzero]; exact Nat.zero_le _⟩

theorem Aligned.run {q q' : Queue ι β} (h : Aligned q) {es : List (Event ι β)}
    (hall : ReleasesAll q es) (hq : q.run es = some q') : Aligned q' := by
  induction es generalizing q with
  | nil =>
      obtain rfl := Option.some.inj hq
      exact h
  | cons e es ih =>
      obtain ⟨q₁, hq₁, hrun⟩ := Option.bind_eq_some_iff.mp hq
      exact ih (h.apply hall.1 hq₁) (hall.2 q₁ hq₁) hrun

/-- A consumer that releases all that it was granted takes whole messages. -/
theorem delivered_whole {es : List (Event ι β)} {q : Queue ι β}
    (hall : ReleasesAll (Queue.mk [] 0) es) (h : (Queue.mk [] 0).run es = some q) :
    ∃ past rest, logOf es = past ++ rest ∧ (delivered es).map Slot.ready = stream past := by
  have hempty : StartsAt ([] : List (Cell ι β)) 0 := fun c hc => by cases hc
  have haligned := Aligned.run ⟨hempty, hempty, Nat.le_refl _⟩ hall h
  obtain ⟨gone, hcells, hgone⟩ := (Accounts.empty.run h).split
  obtain ⟨past, rest, hlog, hpast⟩ := split_of_startsAt hcells haligned.front
  refine ⟨past, rest, hlog, ?_⟩
  rw [← cellsOf_map_slot, ← hpast, hgone, List.nil_append]

end Log

end MessageQueue
