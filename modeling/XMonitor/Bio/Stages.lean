import XMonitor.Bio.Requests
import XMonitor.Lib.EventRun

/-!
# The stages of a request

An episode of a request begins with its first insertion or issue after a completion and
ends with the next completion. The programs keep one entry for each running episode, with
the last stamp of either kind. `State.Tracks` says this of a state and the events so far.

The clock of the kernel counts the nanoseconds since the system booted, so it never reads
0 and never goes back.
-/

namespace XMonitor.Bio

/-! ## Episodes -/

/-- The clock value that a program reads. -/
def Event.nowNs : Event → Option UInt64
  | .insert _ nowNs => some nowNs
  | .issue _ nowNs => some nowNs
  | .complete _ _ _ _ nowNs _ => some nowNs
  | _ => none

def Event.insertOf (rq : UInt64) : Event → Option UInt64
  | .insert rq' nowNs => if rq' = rq then some nowNs else none
  | _ => none

def Event.issueOf (rq : UInt64) : Event → Option UInt64
  | .issue rq' nowNs => if rq' = rq then some nowNs else none
  | _ => none

def Event.completes (rq : UInt64) : Event → Bool
  | .complete rq' _ _ _ _ _ => rq' = rq
  | _ => false

/-- The events after the last completion of a request, newest first. -/
def sinceCompletion (rq : UInt64) (past : List Event) : List Event :=
  past.reverse.takeWhile fun e => !e.completes rq

/-- When a request was last inserted, if it was after its last completion. -/
def lastInsert (rq : UInt64) (past : List Event) : Option UInt64 :=
  (sinceCompletion rq past).findSome? (Event.insertOf rq)

def lastIssue (rq : UInt64) (past : List Event) : Option UInt64 :=
  (sinceCompletion rq past).findSome? (Event.issueOf rq)

/-- A request has been inserted or issued after its last completion. -/
def Seen (rq : UInt64) (past : List Event) : Prop :=
  (lastInsert rq past).isSome = true ∨ (lastIssue rq past).isSome = true

theorem sinceCompletion_concat (rq : UInt64) (past : List Event) (e : Event) :
    sinceCompletion rq (past ++ [e]) =
      if e.completes rq then [] else e :: sinceCompletion rq past := by
  rw [sinceCompletion, List.reverse_concat, List.takeWhile_cons]
  cases e.completes rq <;> rfl

theorem lastInsert_concat (rq : UInt64) (past : List Event) (e : Event) :
    lastInsert rq (past ++ [e]) =
      if e.completes rq then none else (e.insertOf rq).or (lastInsert rq past) := by
  rw [lastInsert, sinceCompletion_concat]
  split
  · rfl
  · rw [List.findSome?_cons]
    cases e.insertOf rq <;> rfl

theorem lastIssue_concat (rq : UInt64) (past : List Event) (e : Event) :
    lastIssue rq (past ++ [e]) =
      if e.completes rq then none else (e.issueOf rq).or (lastIssue rq past) := by
  rw [lastIssue, sinceCompletion_concat]
  split
  · rfl
  · rw [List.findSome?_cons]
    cases e.issueOf rq <;> rfl

theorem mem_of_insertOf {rq t : UInt64} {e : Event} (h : e.insertOf rq = some t) :
    e.nowNs = some t := by
  cases e with
  | insert rq' nowNs =>
      rw [Event.insertOf] at h
      split at h
      · exact h
      · cases h
  | account | issue | complete | reset => cases h

theorem mem_of_issueOf {rq t : UInt64} {e : Event} (h : e.issueOf rq = some t) :
    e.nowNs = some t := by
  cases e with
  | issue rq' nowNs =>
      rw [Event.issueOf] at h
      split at h
      · exact h
      · cases h
  | account | insert | complete | reset => cases h

theorem mem_past_of_mem_sinceCompletion {rq : UInt64} {past : List Event} {e : Event}
    (h : e ∈ sinceCompletion rq past) : e ∈ past :=
  List.mem_reverse.mp ((List.takeWhile_subset _) h)

/-- The clock values that the events have read. -/
def reads (past : List Event) : List UInt64 := past.filterMap Event.nowNs

theorem mem_reads_of_lastInsert {rq t : UInt64} {past : List Event}
    (h : lastInsert rq past = some t) : t ∈ reads past := by
  obtain ⟨e, he, ht⟩ := List.exists_of_findSome?_eq_some h
  exact List.mem_filterMap.mpr ⟨e, mem_past_of_mem_sinceCompletion he, mem_of_insertOf ht⟩

theorem mem_reads_of_lastIssue {rq t : UInt64} {past : List Event}
    (h : lastIssue rq past = some t) : t ∈ reads past := by
  obtain ⟨e, he, ht⟩ := List.exists_of_findSome?_eq_some h
  exact List.mem_filterMap.mpr ⟨e, mem_past_of_mem_sinceCompletion he, mem_of_issueOf ht⟩

/-! ## The start map -/

/-- The entry of a request with its last stamps, if it has any. -/
def stageOf (insert issue : Option UInt64) : Option BioReqStage :=
  if insert.isSome || issue.isSome then some ⟨insert.getD 0, issue.getD 0⟩ else none

/-- The start map holds the running episodes. -/
def State.Tracks (s : State) (past : List Event) : Prop :=
  ∀ rq, s.requestStart.lookup rq = stageOf (lastInsert rq past) (lastIssue rq past)

/-- Clock values as the kernel counts them from its boot. -/
structure BootClock (reads : List UInt64) : Prop extends MonotoneClock reads where
  pos : ∀ t ∈ reads, 0 < t.toNat

/-- There is room in the start map for the request of an event. -/
def HasRoom (s : State) : Event → Prop
  | .insert rq _ => s.requestStart.HasRoom rq
  | .issue rq _ => s.requestStart.HasRoom rq
  | _ => True

theorem getD_stageOf (insert issue : Option UInt64) :
    (stageOf insert issue).getD ⟨0, 0⟩ = ⟨insert.getD 0, issue.getD 0⟩ := by
  cases insert <;> cases issue <;> rfl

theorem isSome_stageOf (insert issue : Option UInt64) :
    (stageOf insert issue).isSome = true ↔ insert.isSome = true ∨ issue.isSome = true := by
  cases insert <;> cases issue <;> simp [stageOf]

theorem State.Tracks.mem_keys_iff {s : State} {past : List Event} (h : s.Tracks past)
    (rq : UInt64) : rq ∈ s.requestStart.keys ↔ Seen rq past := by
  rw [s.requestStart.mem_keys, h rq, isSome_stageOf]
  exact Iff.rfl

/-- A clock value that has been read before another. -/
theorem BootClock.le_now {past : List Event} {e : Event} {t nowNs : UInt64}
    (hclock : BootClock (reads (past ++ [e]))) (he : e.nowNs = some nowNs) (ht : t ∈ reads past) :
    t ≤ nowNs ∧ nowNs.toNat < 2 ^ 63 := by
  have hreads : reads (past ++ [e]) = reads past ++ [nowNs] := by
    rw [reads, List.filterMap_append, List.filterMap_cons_some he]
    rfl
  rw [hreads] at hclock
  refine ⟨?_, hclock.lt nowNs (by simp)⟩
  exact (List.pairwise_append.mp hclock.pairwise).2.2 t ht nowNs List.mem_cons_self

/-- No duration is negative. -/
theorem BootClock.duration_getD {past : List Event} {e : Event} {nowNs : UInt64}
    (hclock : BootClock (reads (past ++ [e]))) (he : e.nowNs = some nowNs) {t : Option UInt64}
    (ht : ∀ v, t = some v → v ∈ reads past) :
    duration nowNs (t.getD 0) = elapsed nowNs (t.getD 0) ∧ 0 ≤ elapsed nowNs (t.getD 0) := by
  have hreads : nowNs ∈ reads (past ++ [e]) :=
    List.mem_filterMap.mpr ⟨e, by simp, he⟩
  have hle : t.getD 0 ≤ nowNs := by
    cases t with
    | none => exact UInt64.zero_le
    | some v => exact (hclock.le_now he (ht v rfl)).1
  have hle' := UInt64.le_iff_toNat_le.mp hle
  refine ⟨duration_eq hle (hclock.lt nowNs hreads), ?_⟩
  rw [elapsed]
  omega

/-- A request is stamped. -/
theorem State.Tracks.trace {s : State} {past : List Event} (h : s.Tracks past) {rq nowNs : UInt64}
    (isInsert : Bool) {e : Event} (he : e = if isInsert then .insert rq nowNs else .issue rq nowNs)
    (hclock : BootClock (reads (past ++ [e]))) (hroom : s.requestStart.HasRoom rq) :
    (traceRequest rq isInsert nowNs s).Tracks (past ++ [e]) := by
  intro rq'
  have hstage : (s.requestStart.lookup rq).getD ⟨0, 0⟩ =
      ⟨(lastInsert rq past).getD 0, (lastIssue rq past).getD 0⟩ := by
    rw [h rq, getD_stageOf]
  rw [lastInsert_concat, lastIssue_concat]
  cases isInsert with
  | true =>
      have hlookup : (traceRequest rq true nowNs s).requestStart.lookup rq' =
          if rq' = rq then some ⟨nowNs, (lastIssue rq past).getD 0⟩
          else s.requestStart.lookup rq' := by
        rw [traceRequest, hstage]
        exact BpfHash.lookup_put_of_hasRoom hroom _ _
      simp only [if_true] at he
      subst he
      rw [hlookup]
      by_cases hrq : rq' = rq
      · subst hrq
        simp [Event.completes, Event.insertOf, Event.issueOf, stageOf]
      · rw [if_neg hrq, h rq']
        simp [Event.completes, Event.insertOf, Event.issueOf, Ne.symm hrq]
  | false =>
      simp only [Bool.false_eq_true, if_false] at he
      subst he
      obtain ⟨hdur, hpos⟩ := hclock.duration_getD rfl
        fun v (hv : lastInsert rq past = some v) => mem_reads_of_lastInsert hv
      have hlookup : (traceRequest rq false nowNs s).requestStart.lookup rq' =
          if rq' = rq then some ⟨(lastInsert rq past).getD 0, nowNs⟩
          else s.requestStart.lookup rq' := by
        rw [traceRequest, hstage, hdur, if_neg (by decide), if_neg (by omega)]
        exact BpfHash.lookup_put_of_hasRoom hroom _ _
      rw [hlookup]
      by_cases hrq : rq' = rq
      · subst hrq
        simp [Event.completes, Event.insertOf, Event.issueOf, stageOf]
      · rw [if_neg hrq, h rq']
        simp [Event.completes, Event.insertOf, Event.issueOf, Ne.symm hrq]

theorem State.Tracks.step {a : Args} {s : State} {past : List Event} (h : s.Tracks past) {e : Event}
    (hclock : BootClock (reads (past ++ [e]))) (hroom : HasRoom s e) :
    (s.step a e).Tracks (past ++ [e]) := by
  cases e with
  | insert rq nowNs => exact h.trace true rfl hclock hroom
  | issue rq nowNs => exact h.trace false rfl hclock hroom
  | complete rq req error nrBytes nowNs reserved =>
      intro rq'
      rw [step_requestStart_complete, lastInsert_concat, lastIssue_concat, h rq']
      by_cases hrq : rq' = rq
      · simp [hrq, Event.completes, stageOf]
      · simp [hrq, Event.completes, Event.insertOf, Event.issueOf, Ne.symm hrq]
  | account rq bpd =>
      intro rq'
      rw [lastInsert_concat, lastIssue_concat]
      exact h rq'
  | reset partitions key =>
      intro rq'
      rw [lastInsert_concat, lastIssue_concat]
      exact h rq'

theorem run_concat (a : Args) (past : List Event) (e : Event) :
    run a (past ++ [e]) = (run a past).step a e := by
  rw [run, List.foldl_concat]
  rfl

theorem BootClock.of_prefix {past events : List Event} (h : BootClock (reads events))
    (hpast : past <+: events) : BootClock (reads past) := by
  have hsub : (reads past).Sublist (reads events) := hpast.sublist.filterMap Event.nowNs
  exact ⟨⟨h.pairwise.sublist hsub, fun t ht => h.lt t (hsub.subset ht)⟩,
    fun t ht => h.pos t (hsub.subset ht)⟩

theorem run_tracks {a : Args} {events : List Event} (hclock : BootClock (reads events))
    (hroom : EventRun.AllSteps (State.step a) HasRoom State.init events) {past : List Event}
    (hpast : past <+: events) : (run a past).Tracks past := by
  induction past using List.reverseRecOn with
  | nil => intro rq; rfl
  | append_singleton past e ih =>
      rw [run_concat]
      have hprev : past <+: events := (List.prefix_append past [e]).trans hpast
      exact (ih hprev).step (hclock.of_prefix hpast)
        (EventRun.allSteps_iff.mp hroom past e hpast)

/-! ## Latencies -/

theorem exists_of_recorded {a : Args} {s : State} {rq : UInt64} {req : Request} {error : Int32}
    {nrBytes : UInt32} {nowNs : UInt64} {reserved : Option EvtData} {key : XmBioKey}
    {c : Completion}
    (h : s.recorded a (.complete rq req error nrBytes nowNs reserved) = some (key, c)) :
    ∃ stage, s.requestStart.lookup rq = some stage ∧ stage.latency nowNs = some c.latency := by
  obtain ⟨r, hr, hroom⟩ := Option.bind_eq_some_iff.mp h
  obtain ⟨stage, hstage, hr⟩ := Option.bind_eq_some_iff.mp hr
  obtain ⟨latency, hlatency, hr⟩ := Option.bind_eq_some_iff.mp hr
  obtain ⟨key', hkey, rfl⟩ := Option.map_eq_some_iff.mp hr
  split at hroom
  · cases hroom
    exact ⟨stage, hstage, hlatency⟩
  · cases hroom

/-- The latencies of an entry whose stamps lie in the past. -/
theorem latency_of_stageOf {insert issue : Option UInt64} {stage : BioReqStage} {nowNs : UInt64}
    {l : Latency} (hstage : stageOf insert issue = some stage)
    (hl : stage.latency nowNs = some l) (hnow : nowNs.toNat < 2 ^ 63)
    (hinsert : ∀ t, insert = some t → 0 < t.toNat ∧ t ≤ nowNs)
    (hissue : ∀ t, issue = some t → t ≤ nowNs) :
    0 ≤ l.inQueueDelta ∧ l.inQueueDelta ≤ l.completeDelta ∧
      ∃ start, insert.or issue = some start ∧ l.completeDelta = elapsed nowNs start / 1000 := by
  have hle : (issue.getD 0).toNat ≤ nowNs.toNat := by
    cases issue with
    | none => exact Nat.zero_le _
    | some t => exact UInt64.le_iff_toNat_le.mp (hissue t rfl)
  cases insert with
  | none =>
      cases issue with
      | none => cases hstage
      | some t =>
          obtain rfl := Option.some.inj hstage
          have hdur := duration_eq (hissue t rfl) hnow
          have ht : t.toNat ≤ nowNs.toNat := hle
          have hpos : 0 ≤ elapsed nowNs t := by
            rw [elapsed]
            omega
          simp only [BioReqStage.latency, Option.getD_none, ne_eq, not_true_eq_false, if_false,
            Option.getD_some, hdur] at hl
          rw [if_neg (by omega)] at hl
          obtain rfl := Option.some.inj hl
          exact ⟨Int.le_refl 0, Int.ediv_nonneg hpos (by decide), t, rfl, rfl⟩
  | some t =>
      obtain rfl := Option.some.inj hstage
      obtain ⟨hpos, htle⟩ := hinsert t rfl
      have htle' := UInt64.le_iff_toNat_le.mp htle
      have hne : t ≠ 0 := by
        rintro rfl
        exact absurd hpos (by decide)
      have hqueued : duration (issue.getD 0) t = elapsed (issue.getD 0) t :=
        duration_of_lt (by omega) (by omega)
      have hdur := duration_eq htle hnow
      simp only [BioReqStage.latency, Option.getD_some, ne_eq, hne, not_false_eq_true, if_true,
        hqueued, hdur] at hl
      split at hl
      · cases hl
      · split at hl
        · cases hl
        · obtain rfl := Option.some.inj hl
          have hmono : elapsed (issue.getD 0) t ≤ elapsed nowNs t := by
            rw [elapsed, elapsed]
            omega
          refine ⟨Int.ediv_nonneg (by omega) (by decide), ?_, t, rfl, rfl⟩
          exact Int.ediv_le_ediv (by decide) hmono

/-- A request that has completed and is recorded again has been seen in between. -/
theorem seen_between {rq : UInt64} {past mid : List Event} {e : Event} (he : e.completes rq = true)
    (hseen : Seen rq (past ++ e :: mid)) :
    ∃ x ∈ mid, (x.insertOf rq).isSome = true ∨ (x.issueOf rq).isSome = true := by
  have hsub : ∀ x ∈ sinceCompletion rq (past ++ e :: mid), x ∈ mid := by
    intro x hx
    rw [sinceCompletion, List.reverse_append, List.reverse_cons, List.append_assoc,
      List.takeWhile_append] at hx
    split at hx
    · simpa [he] using hx
    · exact List.mem_reverse.mp (List.takeWhile_subset _ hx)
  obtain h | h := hseen
  · obtain ⟨t, ht⟩ := Option.isSome_iff_exists.mp h
    obtain ⟨x, hx, hxt⟩ := List.exists_of_findSome?_eq_some ht
    exact ⟨x, hsub x hx, .inl (by rw [hxt]; rfl)⟩
  · obtain ⟨t, ht⟩ := Option.isSome_iff_exists.mp h
    obtain ⟨x, hx, hxt⟩ := List.exists_of_findSome?_eq_some ht
    exact ⟨x, hsub x hx, .inr (by rw [hxt]; rfl)⟩

/-- The start map holds exactly the requests of the running episodes. A latency that is
recorded is not negative and is measured from the last insertion, or from the last issue if
there was none, and an episode is recorded once at most. -/
theorem request_stages (a : Args) {events : List Event} (hclock : BootClock (reads events))
    (hroom : EventRun.AllSteps (State.step a) HasRoom State.init events) :
    (∀ past, past <+: events → ∀ rq, rq ∈ (run a past).requestStart.keys ↔ Seen rq past) ∧
      (∀ past rq req error nrBytes nowNs reserved key c,
        past ++ [.complete rq req error nrBytes nowNs reserved] <+: events →
        (run a past).recorded a (.complete rq req error nrBytes nowNs reserved) = some (key, c) →
          0 ≤ c.latency.inQueueDelta ∧ c.latency.inQueueDelta ≤ c.latency.completeDelta ∧
          ∃ start, (lastInsert rq past).or (lastIssue rq past) = some start ∧
            c.latency.completeDelta = elapsed nowNs start / 1000) ∧
      ∀ past e mid e' rq, past ++ e :: mid ++ [e'] <+: events →
        e.completes rq = true → e'.completes rq = true →
        ((run a (past ++ e :: mid)).recorded a e').isSome = true →
          ∃ x ∈ mid, (x.insertOf rq).isSome = true ∨ (x.issueOf rq).isSome = true := by
  refine ⟨fun past hpast rq => (run_tracks hclock hroom hpast).mem_keys_iff rq, ?_, ?_⟩
  · intro past rq req error nrBytes nowNs reserved key c hpast hrecorded
    obtain ⟨stage, hstage, hl⟩ := exists_of_recorded hrecorded
    have hprev : past <+: events := (List.prefix_append past _).trans hpast
    have hclock' := hclock.of_prefix hpast
    have hread : nowNs ∈ reads (past ++ [.complete rq req error nrBytes nowNs reserved]) := by
      simp [reads, Event.nowNs]
    have hnow := hclock'.lt nowNs hread
    rw [run_tracks hclock hroom hprev rq] at hstage
    refine latency_of_stageOf hstage hl hnow ?_ ?_
    · intro t ht
      have hmem := mem_reads_of_lastInsert ht
      exact ⟨(hclock.of_prefix hprev).pos t hmem, (hclock'.le_now rfl hmem).1⟩
    · intro t ht
      exact (hclock'.le_now rfl (mem_reads_of_lastIssue ht)).1
  · intro past e mid e' rq hpast he he' hrecorded
    cases e' with
    | complete rq' req error nrBytes nowNs reserved =>
        obtain rfl : rq' = rq := by simpa [Event.completes] using he'
        obtain ⟨⟨key, c⟩, hc⟩ := Option.isSome_iff_exists.mp hrecorded
        obtain ⟨stage, hstage, -⟩ := exists_of_recorded hc
        have hprev : past ++ e :: mid <+: events := (List.prefix_append _ _).trans hpast
        apply seen_between he
        rw [← (run_tracks hclock hroom hprev).mem_keys_iff]
        exact BpfHash.mem_keys_of_lookup hstage
    | account | insert | issue | reset => cases he'

/-- A request that is inserted, issued and completed, next to one that is only issued. -/
def twoRequests : List Event :=
  [.insert 1 5000, .issue 2 6000, .issue 1 9000,
    .complete 1 { disk := some (8, 0), cmdFlags := 0, sector := 64 } 0 4096 20000 none]

def allFlags : Args := { filterPerCmdFlag := false, requestMinLatencyNs := 1000000 }

theorem twoRequests_stages :
    (1 ∈ (run allFlags (twoRequests.take 3)).requestStart.keys ↔ Seen 1 (twoRequests.take 3)) ∧
      (2 ∈ (run allFlags twoRequests).requestStart.keys ↔ Seen 2 twoRequests) ∧
      ∃ start, (lastInsert 1 (twoRequests.take 3)).or (lastIssue 1 (twoRequests.take 3)) =
        some start ∧ 15 = elapsed 20000 start / 1000 := by
  have hclock : BootClock (reads twoRequests) :=
    ⟨by decide, fun t ht => by
      simp only [reads, twoRequests, List.filterMap_cons, Event.nowNs, List.filterMap_nil,
        List.mem_cons, List.not_mem_nil, or_false] at ht
      obtain rfl | rfl | rfl | rfl := ht <;> decide⟩
  obtain ⟨hkeys, hlatency, -⟩ := request_stages allFlags hclock (by
    refine ⟨?_, ?_, ?_, trivial, trivial⟩ <;> exact .inr (by decide))
  exact ⟨hkeys _ (List.take_prefix 3 _) 1, hkeys _ (List.prefix_refl _) 2,
    (hlatency (twoRequests.take 3) 1 _ _ _ _ _ _ _ (List.prefix_refl _) rfl).2.2⟩

end XMonitor.Bio
