import XMonitor.Lib.EventRun
import XMonitor.Events.EventCenter

/-!
# What the subscribers get

The dispatcher visits every program with every accepted event, in the order of
publication and once, from the event after the program's subscription on. A program gets
the events of its mask for which its channel has room at the visit, and nothing else.

Since the dispatcher ignores that a send has failed, an event is lost for a program that
lets its channel fill up.
-/

namespace XMonitor.EventCenter

variable {α : Type}

/-- The event with which a program is still to be visited. -/
def State.pending (s : State α) (progName : String) : List (EBPFEventInfo α) :=
  match s.center.dispatcher with
  | .visiting evtInfo todo => if progName ∈ todo then [evtInfo] else []
  | _ => []

/-- The event that the dispatcher has received but not begun to hand on. -/
def State.inHand (s : State α) : List (EBPFEventInfo α) :=
  match s.center.dispatcher with
  | .received evtInfo => [evtInfo]
  | _ => []

/-- The accepted events that a program has not been visited with. -/
def State.waiting (s : State α) (progName : String) : List (EBPFEventInfo α) :=
  s.pending progName ++ (s.inHand ++ s.center.eventPublishChan.queue)

/-- A program has read, or finds in its channel, every event of its mask with which it was
visited. -/
def Lossless (s : State α) (progName : String) (evtProg : EBPFEventProgram α) : Prop :=
  s.received progName ++ evtProg.eventReadChan.queue =
    ((s.visits progName).filter Visit.matches).map Visit.evtInfo

structure Served (s : State α) (progName : String) (evtProg : EBPFEventProgram α) : Prop where
  dispatched : s.dispatched =
    s.missed progName ++ ((s.visits progName).map Visit.evtInfo ++ s.pending progName)
  channel : s.received progName ++ evtProg.eventReadChan.queue =
    ((s.visits progName).filter Visit.delivered).map Visit.evtInfo

structure Inv (s : State α) : Prop where
  accepted : s.accepted = s.dispatched ++ (s.inHand ++ s.center.eventPublishChan.queue)
  todo : ∀ evtInfo todo, s.center.dispatcher = .visiting evtInfo todo → todo.Nodup
  served : ∀ progName evtProg, s.center.eBPFEventProgramMap.lookup progName = some evtProg →
    Served s progName evtProg
  absent : ∀ progName, s.center.eBPFEventProgramMap.lookup progName = none →
    s.visits progName = [] ∧ s.received progName = []

theorem inv_init : Inv ({} : State α) := by
  refine ⟨rfl, ?_, ?_, ?_⟩
  · intro evtInfo todo h
    cases h
  · intro progName evtProg h
    cases h
  · intro progName _
    exact ⟨rfl, rfl⟩

/-! ## One step -/

section Step

variable {s : State α}

theorem pending_of_not_visiting
    (h : ∀ evtInfo todo, s.center.dispatcher ≠ .visiting evtInfo todo) (progName : String) :
    s.pending progName = [] := by
  rw [State.pending]
  split
  next evtInfo todo heq => exact absurd heq (h evtInfo todo)
  next => rfl

/-- A dispatcher that waits, or has only received an event, owes no program a visit. -/
theorem pending_of_dispatcher {d : Dispatcher α} (hdisp : s.center.dispatcher = d)
    (hd : ∀ evtInfo todo, d ≠ .visiting evtInfo todo) (progName : String) :
    s.pending progName = [] := by
  apply pending_of_not_visiting
  rw [hdisp]
  exact hd

/-- An update of one program that changes nothing for the others. -/
theorem Inv.insert (hinv : Inv s) {s' : State α} {progName : String} {evtProg : EBPFEventProgram α}
    (hmap : s'.center.eBPFEventProgramMap = s.center.eBPFEventProgramMap.insert progName evtProg)
    (haccepted : s'.accepted = s'.dispatched ++ (s'.inHand ++ s'.center.eventPublishChan.queue))
    (htodo : ∀ evtInfo todo, s'.center.dispatcher = .visiting evtInfo todo → todo.Nodup)
    (hdispatched : s'.dispatched = s.dispatched) (hserved : Served s' progName evtProg)
    (hother : ∀ name, name ≠ progName → s'.missed name = s.missed name ∧
      s'.visits name = s.visits name ∧ s'.received name = s.received name ∧
        s'.pending name = s.pending name) : Inv s' := by
  refine ⟨haccepted, htodo, ?_, ?_⟩
  · intro name evtProg' h
    rw [hmap] at h
    by_cases hname : name = progName
    · subst hname
      rw [AList.lookup_insert] at h
      cases h
      exact hserved
    · rw [AList.lookup_insert_ne hname] at h
      obtain ⟨hmissed, hvisits, hreceived, hpending⟩ := hother name hname
      obtain ⟨hdispatched', hchannel⟩ := hinv.served name evtProg' h
      refine ⟨?_, ?_⟩
      · rw [hdispatched, hmissed, hvisits, hpending]
        exact hdispatched'
      · rw [hreceived, hvisits]
        exact hchannel
  · intro name h
    rw [hmap] at h
    by_cases hname : name = progName
    · subst hname
      rw [AList.lookup_insert] at h
      cases h
    · rw [AList.lookup_insert_ne hname] at h
      obtain ⟨-, hvisits, hreceived, -⟩ := hother name hname
      rw [hvisits, hreceived]
      exact hinv.absent name h

theorem Inv.subscribe (hinv : Inv s)
    (hidle : ∀ evtInfo todo, s.center.dispatcher ≠ .visiting evtInfo todo) (progName : String)
    (focusEvents : UInt64) : Inv (subscribe progName focusEvents s) := by
  rw [EventCenter.subscribe]
  cases hlookup : s.center.eBPFEventProgramMap.lookup progName with
  | some evtProg =>
      obtain ⟨hdispatched, hchannel⟩ := hinv.served progName evtProg hlookup
      exact hinv.insert rfl hinv.accepted hinv.todo rfl ⟨hdispatched, hchannel⟩
        fun _ _ => ⟨rfl, rfl, rfl, rfl⟩
  | none =>
      obtain ⟨hvisits, hreceived⟩ := hinv.absent progName hlookup
      refine hinv.insert rfl hinv.accepted hinv.todo rfl ⟨?_, ?_⟩ ?_
      · have hpending := pending_of_not_visiting hidle progName
        change s.dispatched = Function.update s.missed progName s.dispatched progName ++
          ((s.visits progName).map Visit.evtInfo ++ s.pending progName)
        rw [Function.update_self, hvisits, hpending]
        simp
      · change s.received progName ++ [] = ((s.visits progName).filter Visit.delivered).map _
        rw [hvisits, hreceived]
        rfl
      · intro name hname
        exact ⟨Function.update_of_ne hname .., rfl, rfl, rfl⟩

theorem Inv.publish (hinv : Inv s) (evtInfo : EBPFEventInfo α) : Inv (publish evtInfo s) := by
  rw [EventCenter.publish]
  split
  next c h =>
    refine ⟨?_, hinv.todo, ?_, hinv.absent⟩
    · change s.accepted ++ [evtInfo] = s.dispatched ++ (s.inHand ++ c.queue)
      rw [hinv.accepted, Chan.queue_of_send h]
      simp
    · intro name evtProg h
      obtain ⟨hdispatched, hchannel⟩ := hinv.served name evtProg h
      exact ⟨hdispatched, hchannel⟩
  next => exact hinv

theorem Inv.receive (hinv : Inv s) : Inv (receive s) := by
  rw [EventCenter.receive]
  split
  next evtInfo c hdisp hrecv =>
    refine ⟨?_, ?_, ?_, hinv.absent⟩
    · have haccepted := hinv.accepted
      rw [State.inHand, hdisp, Chan.queue_of_recv hrecv] at haccepted
      exact haccepted
    · intro e todo h
      cases h
    · intro name evtProg h
      obtain ⟨hdispatched, hchannel⟩ := hinv.served name evtProg h
      rw [pending_of_dispatcher hdisp (fun _ _ h => by cases h)] at hdispatched
      exact ⟨hdispatched, hchannel⟩
  next => exact hinv

theorem Inv.lock (hinv : Inv s) : Inv (lock s) := by
  rw [EventCenter.lock]
  split
  next evtInfo hdisp =>
    refine ⟨?_, ?_, ?_, hinv.absent⟩
    · have haccepted := hinv.accepted
      rw [State.inHand, hdisp] at haccepted
      change s.accepted = (s.dispatched ++ [evtInfo]) ++ ([] ++ s.center.eventPublishChan.queue)
      rw [haccepted]
      simp
    · intro e todo h
      cases h
      exact AList.keys_nodup _
    · intro name evtProg h
      obtain ⟨hdispatched, hchannel⟩ := hinv.served name evtProg h
      refine ⟨?_, hchannel⟩
      have hmem : name ∈ s.center.eBPFEventProgramMap.keys := by
        rw [← AList.mem_keys, ← AList.lookup_isSome, h]
        rfl
      rw [pending_of_dispatcher hdisp (fun _ _ h => by cases h), List.append_nil] at hdispatched
      change s.dispatched ++ [evtInfo] = s.missed name ++ ((s.visits name).map Visit.evtInfo ++
        if name ∈ s.center.eBPFEventProgramMap.keys then [evtInfo] else [])
      rw [if_pos hmem, hdispatched, List.append_assoc]
  next => exact hinv

/-- A visit gives a program what it should get. -/
theorem queue_dispatch (evtProg : EBPFEventProgram α) (evtInfo : EBPFEventInfo α) :
    (evtProg.dispatch evtInfo).eventReadChan.queue = evtProg.eventReadChan.queue ++
      (([evtProg.visit evtInfo].filter Visit.delivered).map Visit.evtInfo) := by
  have hmatches : (evtProg.visit evtInfo).matches = true ↔
      evtProg.focusEvents &&& evtInfo.evtType ≠ 0 := by
    rw [Visit.matches, decide_eq_true_iff]
    rfl
  rw [EBPFEventProgram.dispatch]
  split
  next hmask =>
    change (evtProg.eventReadChan.offer evtInfo).queue = _
    rw [Chan.queue_offer]
    by_cases hroom : evtProg.eventReadChan.HasRoom
    · have hdelivered : (evtProg.visit evtInfo).delivered = true := by
        rw [Visit.delivered, hmatches.mpr hmask]
        exact decide_eq_true hroom
      rw [if_pos hroom, List.filter_cons_of_pos hdelivered]
      rfl
    · have hlost : ¬ (evtProg.visit evtInfo).delivered = true := by
        rw [Visit.delivered, Bool.and_eq_true]
        rintro ⟨-, h⟩
        exact hroom (of_decide_eq_true h)
      rw [if_neg hroom, List.filter_cons_of_neg hlost]
      simp
  next hmask =>
    have hlost : ¬ (evtProg.visit evtInfo).delivered = true := by
      rw [Visit.delivered, Bool.and_eq_true]
      rintro ⟨h, -⟩
      exact hmask (hmatches.mp h)
    rw [List.filter_cons_of_neg hlost]
    simp

theorem push_self {β : Type} (lists : String → List β) (progName : String) (b : β) :
    push lists progName b progName = lists progName ++ [b] := Function.update_self ..

theorem push_of_ne {β : Type} {lists : String → List β} {progName name : String} {b : β}
    (h : name ≠ progName) : push lists progName b name = lists name := Function.update_of_ne h ..

theorem Inv.visit (hinv : Inv s) (progName : String) : Inv (visit progName s) := by
  rw [EventCenter.visit]
  split
  next evtInfo todo evtProg hdisp hlookup =>
    split
    next hmem =>
      have hnodup := hinv.todo evtInfo todo hdisp
      have hpending : ∀ name, s.pending name = if name ∈ todo then [evtInfo] else [] := by
        intro name
        rw [State.pending, hdisp]
      obtain ⟨hdispatched, hchannel⟩ := hinv.served progName evtProg hlookup
      refine hinv.insert rfl ?_ ?_ rfl ⟨?_, ?_⟩ ?_
      · have haccepted := hinv.accepted
        rw [State.inHand, hdisp] at haccepted
        exact haccepted
      · intro e todo' h
        cases h
        exact hnodup.erase _
      · change s.dispatched = s.missed progName ++
          ((push s.visits progName (evtProg.visit evtInfo) progName).map Visit.evtInfo ++
            if progName ∈ todo.erase progName then [evtInfo] else [])
        rw [hdispatched, hpending, if_pos hmem, if_neg hnodup.not_mem_erase, push_self]
        simp [EBPFEventProgram.visit]
      · change s.received progName ++ (evtProg.dispatch evtInfo).eventReadChan.queue =
          ((push s.visits progName (evtProg.visit evtInfo) progName).filter Visit.delivered).map _
        rw [queue_dispatch, push_self, List.filter_append, List.map_append, ← hchannel,
          List.append_assoc]
      · intro name hname
        refine ⟨rfl, push_of_ne hname, rfl, ?_⟩
        rw [hpending]
        change (if name ∈ todo.erase progName then [evtInfo] else []) = _
        simp only [List.mem_erase_of_ne hname]
    next => exact hinv
  next => exact hinv

theorem Inv.unlock (hinv : Inv s) : Inv (unlock s) := by
  rw [EventCenter.unlock]
  split
  next evtInfo hdisp =>
    refine ⟨?_, ?_, ?_, hinv.absent⟩
    · have haccepted := hinv.accepted
      rw [State.inHand, hdisp] at haccepted
      exact haccepted
    · intro e todo h
      cases h
    · intro name evtProg h
      obtain ⟨hdispatched, hchannel⟩ := hinv.served name evtProg h
      rw [State.pending, hdisp] at hdispatched
      exact ⟨hdispatched, hchannel⟩
  next => exact hinv

theorem Inv.read (hinv : Inv s) (progName : String) : Inv (read progName s) := by
  rw [EventCenter.read]
  split
  next evtProg hlookup =>
    split
    next evtInfo c hrecv =>
      obtain ⟨hdispatched, hchannel⟩ := hinv.served progName evtProg hlookup
      refine hinv.insert rfl hinv.accepted hinv.todo rfl ⟨hdispatched, ?_⟩ ?_
      · change push s.received progName evtInfo progName ++ c.queue = _
        rw [push_self, List.append_assoc, List.singleton_append, ← Chan.queue_of_recv hrecv]
        exact hchannel
      · intro name hname
        exact ⟨rfl, rfl, push_of_ne hname, rfl⟩
    next => exact hinv
  next => exact hinv

theorem Inv.step (hinv : Inv s) (action : Action α) : Inv (step s action) := by
  cases action with
  | subscribe progName focusEvents =>
      change Inv (match s.center.dispatcher with
        | .visiting _ _ => s
        | _ => EventCenter.subscribe progName focusEvents s)
      split
      next => exact hinv
      next h => exact hinv.subscribe h progName focusEvents
  | publish evtInfo => exact hinv.publish evtInfo
  | receive => exact hinv.receive
  | lock => exact hinv.lock
  | visit progName => exact hinv.visit progName
  | unlock => exact hinv.unlock
  | read progName => exact hinv.read progName

end Step

theorem inv_run (actions : List (Action α)) : Inv (run actions) :=
  EventRun.foldl_preserves (fun _ action hinv => hinv.step action) inv_init actions

/-! ## A whole run -/

theorem isSome_lookup_insert {map : AList fun _ : String => EBPFEventProgram α} {progName : String}
    (h : (map.lookup progName).isSome = true) (name : String) (evtProg : EBPFEventProgram α) :
    ((map.insert name evtProg).lookup progName).isSome = true := by
  rw [AList.lookup_isSome, AList.mem_insert]
  exact .inr (AList.lookup_isSome.mp h)

/-- A subscription lasts, and what it has missed stays. -/
theorem subscribed_step {s : State α} {progName : String}
    (h : (s.center.eBPFEventProgramMap.lookup progName).isSome = true) (action : Action α) :
    ((step s action).center.eBPFEventProgramMap.lookup progName).isSome = true ∧
      (step s action).missed progName = s.missed progName := by
  cases action with
  | subscribe name focusEvents =>
      simp only [step]
      split
      next => exact ⟨h, rfl⟩
      next =>
        rw [subscribe]
        split
        next => exact ⟨isSome_lookup_insert h _ _, rfl⟩
        next hnone =>
          refine ⟨isSome_lookup_insert h _ _, ?_⟩
          apply Function.update_of_ne
          rintro rfl
          rw [hnone] at h
          cases h
  | publish evtInfo =>
      rw [step, publish]
      split <;> exact ⟨h, rfl⟩
  | receive =>
      rw [step, receive]
      split <;> exact ⟨h, rfl⟩
  | lock =>
      rw [step, lock]
      split <;> exact ⟨h, rfl⟩
  | visit name =>
      rw [step, visit]
      split
      next =>
        split
        next => exact ⟨isSome_lookup_insert h _ _, rfl⟩
        next => exact ⟨h, rfl⟩
      next => exact ⟨h, rfl⟩
  | unlock =>
      rw [step, unlock]
      split <;> exact ⟨h, rfl⟩
  | read name =>
      rw [step, read]
      split
      next =>
        split
        next => exact ⟨isSome_lookup_insert h _ _, rfl⟩
        next => exact ⟨h, rfl⟩
      next => exact ⟨h, rfl⟩

theorem subscribed_run {past : List (Action α)} {progName : String}
    (h : ((run past).center.eBPFEventProgramMap.lookup progName).isSome = true)
    (rest : List (Action α)) :
    ((run (past ++ rest)).center.eBPFEventProgramMap.lookup progName).isSome = true ∧
      (run (past ++ rest)).missed progName = (run past).missed progName := by
  have keep : ∀ s (action : Action α),
      ((s.center.eBPFEventProgramMap.lookup progName).isSome = true ∧
        s.missed progName = (run past).missed progName) →
      ((step s action).center.eBPFEventProgramMap.lookup progName).isSome = true ∧
        (step s action).missed progName = (run past).missed progName := by
    rintro s action ⟨hs, hmissed⟩
    obtain ⟨hs', hmissed'⟩ := subscribed_step hs action
    exact ⟨hs', hmissed'.trans hmissed⟩
  rw [run_append]
  exact EventRun.foldl_preserves keep ⟨h, rfl⟩ rest

theorem filter_delivered_eq_iff (visits : List (Visit α)) :
    (visits.filter Visit.delivered).map Visit.evtInfo =
        (visits.filter Visit.matches).map Visit.evtInfo ↔
      ∀ v ∈ visits, v.matches = true → v.hasRoom = true := by
  have hfilter : visits.filter Visit.delivered =
      (visits.filter Visit.matches).filter Visit.hasRoom := by
    rw [List.filter_filter]
    apply List.filter_congr
    intro v _
    exact Bool.and_comm _ _
  constructor
  · intro h
    have hlen := congrArg List.length h
    rw [List.length_map, List.length_map, hfilter, List.length_filter_eq_length_iff] at hlen
    intro v hv hmatches
    exact hlen v (List.mem_filter.mpr ⟨hv, hmatches⟩)
  · intro h
    have hall : (visits.filter Visit.matches).filter Visit.hasRoom =
        visits.filter Visit.matches := by
      rw [List.filter_eq_self]
      intro v hv
      obtain ⟨hv, hmatches⟩ := List.mem_filter.mp hv
      exact h v hv hmatches
    rw [hfilter, hall]

/-- What a program reads has been accepted. -/
theorem mem_accepted_of_mem_queue {s : State α} (hinv : Inv s) {progName : String}
    {evtProg : EBPFEventProgram α}
    (h : s.center.eBPFEventProgramMap.lookup progName = some evtProg) {evtInfo : EBPFEventInfo α}
    (hmem : evtInfo ∈ evtProg.eventReadChan.queue) : evtInfo ∈ s.accepted := by
  obtain ⟨hdispatched, hchannel⟩ := hinv.served progName evtProg h
  have hvisit : evtInfo ∈ (s.visits progName).map Visit.evtInfo := by
    have hdelivered : evtInfo ∈ s.received progName ++ evtProg.eventReadChan.queue :=
      List.mem_append_right _ hmem
    rw [hchannel] at hdelivered
    exact List.map_subset _ (List.filter_subset_self _) hdelivered
  rw [hinv.accepted, hdispatched]
  exact List.mem_append_left _ (List.mem_append_right _ (List.mem_append_left _ hvisit))

/-- From its subscription on, a program is visited once with every accepted event, in the
order of publication, but for those that still wait. It has read or finds in its channel,
in this order, the events of the visits that match its mask and meet room in the channel.
Nothing of its mask is lost if and only if all visits that match meet room. -/
theorem delivered_in_order (past rest : List (Action α)) (progName : String)
    (h : ((run past).center.eBPFEventProgramMap.lookup progName).isSome = true) :
    ∃ missed evtProg, missed <+: (run past).accepted ∧
      (run (past ++ rest)).center.eBPFEventProgramMap.lookup progName = some evtProg ∧
      (run (past ++ rest)).accepted = missed ++
        (((run (past ++ rest)).visits progName).map Visit.evtInfo ++
          (run (past ++ rest)).waiting progName) ∧
      (run (past ++ rest)).received progName ++ evtProg.eventReadChan.queue =
        (((run (past ++ rest)).visits progName).filter Visit.delivered).map Visit.evtInfo ∧
      (Lossless (run (past ++ rest)) progName evtProg ↔
        ∀ v ∈ (run (past ++ rest)).visits progName, v.matches = true → v.hasRoom = true) := by
  obtain ⟨hsome, hmissed⟩ := subscribed_run h rest
  obtain ⟨before, hbefore⟩ := Option.isSome_iff_exists.mp h
  obtain ⟨evtProg, hevtProg⟩ := Option.isSome_iff_exists.mp hsome
  have hinv := inv_run (past ++ rest)
  obtain ⟨hdispatched, hchannel⟩ := hinv.served progName evtProg hevtProg
  refine ⟨(run past).missed progName, evtProg, ?_, hevtProg, ?_, hchannel, ?_⟩
  · have hpast := inv_run past
    rw [hpast.accepted, (hpast.served progName before hbefore).dispatched, List.append_assoc]
    exact List.prefix_append _ _
  · rw [hinv.accepted, hdispatched, hmissed, State.waiting]
    simp only [List.append_assoc]
  · rw [Lossless, hchannel]
    exact filter_delivered_eq_iff _

def processExit : EBPFEventInfo Unit := ⟨(), ebpfEventProcessExit⟩

def subscribed : List (Action Unit) := [.subscribe "profile" ebpfEventProcessExit]

/-- An event is published and handed on to the only subscriber. -/
def round : List (Action Unit) :=
  [.publish processExit, .receive, .lock, .visit "profile", .unlock]

theorem delivered_round :
    ∃ missed evtProg, missed <+: (run subscribed).accepted ∧
      (run (subscribed ++ round)).center.eBPFEventProgramMap.lookup "profile" = some evtProg ∧
      (run (subscribed ++ round)).accepted = missed ++
        (((run (subscribed ++ round)).visits "profile").map Visit.evtInfo ++
          (run (subscribed ++ round)).waiting "profile") ∧
      (run (subscribed ++ round)).received "profile" ++ evtProg.eventReadChan.queue =
        (((run (subscribed ++ round)).visits "profile").filter Visit.delivered).map
          Visit.evtInfo ∧
      (Lossless (run (subscribed ++ round)) "profile" evtProg ↔
        ∀ v ∈ (run (subscribed ++ round)).visits "profile",
          v.matches = true → v.hasRoom = true) :=
  delivered_in_order subscribed round "profile" rfl

/-- After some rounds in which the subscriber reads nothing. -/
structure Unread (n : Nat) (s : State Unit) : Prop where
  dispatcher : s.center.dispatcher = .waiting
  published : s.center.eventPublishChan.queue = []
  keys : s.center.eBPFEventProgramMap.keys = ["profile"]
  received : s.received "profile" = []
  length : (s.visits "profile").length = n
  program : ∃ evtProg, s.center.eBPFEventProgramMap.lookup "profile" = some evtProg ∧
    evtProg.focusEvents = ebpfEventProcessExit
  visits : ∀ v ∈ s.visits "profile", v.matches = true

theorem Unread.round {n : Nat} {s : State Unit} (h : Unread n s) :
    Unread (n + 1) (round.foldl step s) := by
  obtain ⟨hdisp, hpub, hkeys, hreceived, hlen, ⟨evtProg, hprog, hmask⟩, hvisits⟩ := h
  have hroom : s.center.eventPublishChan.HasRoom := by
    rw [Chan.HasRoom, hpub]
    decide
  obtain ⟨c, hsend⟩ := Chan.exists_send hroom processExit
  have hc : c.queue = [processExit] := by
    rw [Chan.queue_of_send hsend, hpub]
    rfl
  obtain ⟨c', hrecv, hqueue⟩ := Chan.exists_recv hc
  have hround : EventCenter.round.foldl step s =
      { s with
        center := {
          eBPFEventProgramMap :=
            s.center.eBPFEventProgramMap.insert "profile" (evtProg.dispatch processExit)
          eventPublishChan := c'
          dispatcher := .waiting }
        accepted := s.accepted ++ [processExit]
        dispatched := s.dispatched ++ [processExit]
        visits := push s.visits "profile" (evtProg.visit processExit) } := by
    simp [EventCenter.round, step, publish, hsend, receive, hdisp, hrecv, lock, hkeys, visit,
      hprog, unlock]
  rw [hround]
  refine ⟨rfl, hqueue, ?_, hreceived, ?_, ⟨evtProg.dispatch processExit, ?_, ?_⟩, ?_⟩
  · change (s.center.eBPFEventProgramMap.insert "profile" _).keys = ["profile"]
    rw [AList.keys_insert, hkeys]
    rfl
  · change (push s.visits "profile" _ "profile").length = n + 1
    rw [push_self, List.length_append, hlen]
    rfl
  · exact AList.lookup_insert _
  · rw [EBPFEventProgram.dispatch]
    split
    · exact hmask
    · exact hmask
  · intro v hv
    change v ∈ push s.visits "profile" _ "profile" at hv
    rw [push_self, List.mem_append, List.mem_singleton] at hv
    obtain hv | rfl := hv
    · exact hvisits v hv
    · change decide (evtProg.focusEvents &&& ebpfEventProcessExit ≠ 0) = true
      rw [hmask]
      decide

theorem unread_rounds (n : Nat) :
    Unread n (run (subscribed ++ (List.replicate n round).flatten)) := by
  induction n with
  | zero =>
      refine ⟨rfl, rfl, rfl, rfl, rfl, ⟨_, rfl, rfl⟩, ?_⟩
      intro v hv
      cases hv
  | succ n ih =>
      rw [List.replicate_succ', List.flatten_append, ← List.append_assoc, run_append]
      simpa using ih.round

/-- 513 rounds in which nothing is read. -/
def overrun : List (Action Unit) := subscribed ++ (List.replicate 513 round).flatten

theorem overrun_loses :
    ∃ evtProg, (run overrun).center.eBPFEventProgramMap.lookup "profile" = some evtProg ∧
      ¬ Lossless (run overrun) "profile" evtProg := by
  have h : Unread 513 (run overrun) := unread_rounds 513
  obtain ⟨evtProg, hprog, -⟩ := h.program
  refine ⟨evtProg, hprog, ?_⟩
  intro hlossless
  have hall : ((run overrun).visits "profile").filter Visit.matches =
      (run overrun).visits "profile" :=
    List.filter_eq_self.mpr h.visits
  have hlen := congrArg List.length hlossless
  rw [h.received, hall, List.length_map, h.length, List.nil_append] at hlen
  have hcap := evtProg.eventReadChan.length_le
  rw [hlen] at hcap
  exact absurd hcap (by decide)

end XMonitor.EventCenter
