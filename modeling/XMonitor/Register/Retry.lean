import Mathlib.Data.Nat.Find
import Mathlib.Logic.Function.Iterate

/-!
# Registration with retries

`__do_register` repeats its request until it is answered with success, or until the backoff
algorithm reports that the retries are exhausted. The algorithm is asked only about requests with
a response: one for which `http_do` has no memory leaves the state of the loop as it is.
-/

namespace XMonitor.Register

inductive BackoffAlgorithmStatus where
  | success
  | retriesExhausted
deriving DecidableEq

structure BackoffAlgorithmContext where
  maxBackoffDelay : UInt16
  attemptsDone : UInt32
  nextJitterMax : UInt16
  maxRetryAttempts : UInt32

/-- `BACKOFF_ALGORITHM_RETRY_FOREVER` -/
def retryForever : UInt32 := 0xFFFFFFFF

/-- `BackoffAlgorithm_InitializeParams` -/
def initializeParams (backOffBase maxBackOff : UInt16) (maxAttempts : UInt32) :
    BackoffAlgorithmContext where
  nextJitterMax := backOffBase
  maxBackoffDelay := maxBackOff
  maxRetryAttempts := maxAttempts
  attemptsDone := 0

/-- `BackoffAlgorithm_GetNextBackoff`, with the delay that the caller has so far. -/
def getNextBackoff (ctx : BackoffAlgorithmContext) (randomValue : UInt32) (nextBackOff : UInt16) :
    BackoffAlgorithmContext × BackoffAlgorithmStatus × UInt16 :=
  if ctx.maxRetryAttempts = retryForever ∨ ctx.attemptsDone < ctx.maxRetryAttempts then
    let nextJitterMax :=
      if ctx.nextJitterMax.toUInt32 < ctx.maxBackoffDelay.toUInt32 / 2 then
        ctx.nextJitterMax + ctx.nextJitterMax
      else ctx.maxBackoffDelay
    ({ ctx with attemptsDone := ctx.attemptsDone + 1, nextJitterMax := nextJitterMax },
      .success, (randomValue % (ctx.nextJitterMax.toUInt32 + 1)).toUInt16)
  else (ctx, .retriesExhausted, nextBackOff)

/-- `struct http_response` -/
structure HttpResponse where
  ret : Int32
  httpCode : Int64
  data : Option (List UInt8)

/-- The fields of `struct register_mgr` for the retries. -/
structure RetryConfig where
  retryBackoffBaseMs : UInt16
  retryMaxBackoffDelayMs : UInt16
  retryMaxAttempts : UInt32

/-- What the registration meets: whether a request can be made, what `http_do` returns for each
time that it is sent, and the random number after it. -/
structure Environment where
  regReq : Bool
  httpDo : Nat → Option HttpResponse
  rand : Nat → UInt32

/-- The variables of `__do_register`, with the number of requests that it has made and the times
that it has slept, in microseconds. -/
structure Retry where
  httpDoRet : Int32 := -1
  retryStatus : BackoffAlgorithmStatus := .success
  retryContext : BackoffAlgorithmContext
  nextRetryBackoff : UInt16 := 0
  requests : Nat := 0
  slept : List Nat := []

def Retry.init (cfg : RetryConfig) : Retry where
  retryContext := initializeParams cfg.retryBackoffBaseMs cfg.retryMaxBackoffDelayMs
    cfg.retryMaxAttempts

def Retry.backoff (s : Retry) (randomValue : UInt32) : Retry :=
  let next := getNextBackoff s.retryContext randomValue s.nextRetryBackoff
  { s with
    retryContext := next.1
    retryStatus := next.2.1
    nextRetryBackoff := next.2.2
    slept := if next.2.1 = .success then s.slept ++ [next.2.2.toNat * 1000] else s.slept }

section

-- `__unmarshal_common_response_body`: the code in a body, if there is memory for it.
variable (unmarshal : Option (List UInt8) → Option Int32) (env : Environment)

/-- The registration has been answered with status 200 and code 0. -/
def Accepted (resp : HttpResponse) : Prop :=
  resp.ret ≠ -1 ∧ resp.httpCode = 200 ∧ unmarshal resp.data = some 0

instance (resp : HttpResponse) : Decidable (Accepted unmarshal resp) :=
  inferInstanceAs (Decidable (_ ∧ _))

/-- The body of the loop. -/
def attempt (s : Retry) : Retry :=
  match env.httpDo s.requests with
  | none => { s with requests := s.requests + 1 }
  | some resp =>
      let randomValue := env.rand s.requests
      let s := { s with
        requests := s.requests + 1
        httpDoRet := if Accepted unmarshal resp then 0 else s.httpDoRet }
      if s.httpDoRet = -1 then s.backoff randomValue else s

/-- The loop, for at most `fuel` rounds. -/
def retryLoop : Nat → Retry → Option Retry
  | 0, _ => none
  | fuel + 1, s =>
      let s := attempt unmarshal env s
      if s.httpDoRet = -1 ∧ s.retryStatus ≠ .retriesExhausted then retryLoop fuel s else some s

/-- `__do_register`, which returns `httpDoRet` of the final state. -/
def doRegister (cfg : RetryConfig) (fuel : Nat) : Option Retry :=
  if env.regReq then retryLoop unmarshal env fuel (.init cfg) else some (.init cfg)

/-- Request `i` is answered with success. -/
def AcceptedAt (i : Nat) : Prop := ∃ resp, env.httpDo i = some resp ∧ Accepted unmarshal resp

/-- The registration ends after the first request and its retries, and returns 0 exactly if the
last request has been accepted. -/
def Bounded (cfg : RetryConfig) : Prop :=
  ∃ fuel final, doRegister unmarshal env cfg fuel = some final ∧
    final.requests ≤ cfg.retryMaxAttempts.toNat + 1 ∧
    (final.httpDoRet = 0 ∨ final.httpDoRet = -1) ∧
    (final.httpDoRet = 0 ↔ ∃ i, final.requests = i + 1 ∧ AcceptedAt unmarshal env i)

/-- The number of responses to the first `n` requests. -/
def responses : Nat → Nat
  | 0 => 0
  | n + 1 => responses n + if (env.httpDo n).isSome then 1 else 0

/-- The loop goes on after `n` requests. -/
structure Waiting (cfg : RetryConfig) (n : Nat) (s : Retry) : Prop where
  requests : s.requests = n
  httpDoRet : s.httpDoRet = -1
  retryStatus : s.retryStatus = .success
  maxRetryAttempts : s.retryContext.maxRetryAttempts = cfg.retryMaxAttempts
  attemptsDone : cfg.retryMaxAttempts = retryForever ∨
    s.retryContext.attemptsDone.toNat = responses env n

/-- The backoff algorithm has not been asked too often. -/
def HasRetries (cfg : RetryConfig) (n : Nat) : Prop :=
  cfg.retryMaxAttempts = retryForever ∨ responses env n ≤ cfg.retryMaxAttempts.toNat

end

section

variable {unmarshal : Option (List UInt8) → Option Int32} {env : Environment} {cfg : RetryConfig}
variable {n : Nat} {s : Retry}

theorem responses_le (n : Nat) : responses env n ≤ n := by
  induction n with
  | zero => exact Nat.le_refl 0
  | succ n ih =>
      rw [responses]
      split <;> omega

/-- Without a response for each request, the last retry is not used up. -/
theorem responses_lt {i : Nat} (hi : i < n) (hnone : env.httpDo i = none) :
    responses env n < n := by
  induction n with
  | zero => exact absurd hi (Nat.not_lt_zero i)
  | succ n ih =>
      rw [responses]
      obtain hlt | rfl := Nat.lt_succ_iff_lt_or_eq.mp hi
      · have hrest := ih hlt
        split <;> omega
      · have hle : responses env i ≤ i := responses_le i
        rw [hnone, Option.isSome_none, if_neg Bool.false_ne_true]
        omega

theorem responses_eq (hall : ∀ i < n, (env.httpDo i).isSome) : responses env n = n := by
  induction n with
  | zero => rfl
  | succ n ih =>
      have hlast := hall n (Nat.lt_succ_self n)
      rw [responses, ih fun i hi => hall i (Nat.lt_succ_of_lt hi), if_pos hlast]

theorem hasRetries_of_le (hn : n ≤ cfg.retryMaxAttempts.toNat) : HasRetries env cfg n :=
  .inr (Nat.le_trans (responses_le n) hn)

theorem HasRetries.of_succ (h : HasRetries env cfg (n + 1)) : HasRetries env cfg n := by
  obtain hforever | hle := h
  · exact .inl hforever
  · exact .inr (Nat.le_trans (Nat.le_add_right _ _) hle)

theorem waiting_init : Waiting env cfg 0 (.init cfg) :=
  ⟨rfl, rfl, rfl, rfl, .inr rfl⟩

/-- A request that is not accepted, while there are retries. -/
theorem Waiting.attempt (h : Waiting env cfg n s) (hfail : ¬ AcceptedAt unmarshal env n)
    (hretries : HasRetries env cfg (n + 1)) :
    Waiting env cfg (n + 1) (attempt unmarshal env s) := by
  rw [Register.attempt, h.requests]
  rw [HasRetries, responses] at hretries
  cases hresp : env.httpDo n with
  | none =>
      refine ⟨rfl, h.httpDoRet, h.retryStatus, h.maxRetryAttempts, ?_⟩
      rw [responses, hresp]
      exact h.attemptsDone
  | some resp =>
      have hnot : ¬ Accepted unmarshal resp := fun haccepted => hfail ⟨resp, hresp, haccepted⟩
      have hmax := h.maxRetryAttempts
      have hdone := h.attemptsDone
      rw [hresp, Option.isSome_some, if_pos rfl] at hretries
      have hmore : s.retryContext.maxRetryAttempts = retryForever ∨
          s.retryContext.attemptsDone < s.retryContext.maxRetryAttempts := by
        rw [hmax]
        obtain hforever | hle := hretries
        · exact .inl hforever
        · refine hdone.imp_right fun heq => ?_
          rw [UInt32.lt_iff_toNat_lt, heq]
          exact hle
      simp only [if_neg hnot, h.httpDoRet, if_true, Retry.backoff, getNextBackoff, if_pos hmore]
      refine ⟨rfl, rfl, rfl, hmax, ?_⟩
      obtain hforever | hle := hretries
      · exact .inl hforever
      · refine hdone.imp_right fun heq => ?_
        have hlt := cfg.retryMaxAttempts.toNat_lt
        rw [responses, hresp, Option.isSome_some, if_pos rfl, UInt32.toNat_add, heq]
        exact Nat.mod_eq_of_lt (Nat.lt_of_le_of_lt hle hlt)

/-- An accepted request. -/
theorem Waiting.accepted (h : Waiting env cfg n s) (hacc : AcceptedAt unmarshal env n) :
    (Register.attempt unmarshal env s).httpDoRet = 0 ∧
      (Register.attempt unmarshal env s).requests = n + 1 := by
  obtain ⟨resp, hresp, haccepted⟩ := hacc
  rw [Register.attempt, h.requests, hresp]
  simp only [if_pos haccepted]
  exact ⟨rfl, rfl⟩

/-- A response that is not a success, when the retries are used up. -/
theorem Waiting.exhausted (h : Waiting env cfg n s) (hfail : ¬ AcceptedAt unmarshal env n)
    (hforever : cfg.retryMaxAttempts ≠ retryForever) (hsome : (env.httpDo n).isSome)
    (hdone : responses env n = cfg.retryMaxAttempts.toNat) :
    (Register.attempt unmarshal env s).httpDoRet = -1 ∧
      (Register.attempt unmarshal env s).retryStatus = .retriesExhausted ∧
      (Register.attempt unmarshal env s).requests = n + 1 := by
  obtain ⟨resp, hresp⟩ := Option.isSome_iff_exists.mp hsome
  have hnot : ¬ Accepted unmarshal resp := fun haccepted => hfail ⟨resp, hresp, haccepted⟩
  have hmore : ¬ (s.retryContext.maxRetryAttempts = retryForever ∨
      s.retryContext.attemptsDone < s.retryContext.maxRetryAttempts) := by
    rw [h.maxRetryAttempts, UInt32.lt_iff_toNat_lt, h.attemptsDone.resolve_left hforever, hdone]
    exact not_or.mpr ⟨hforever, Nat.lt_irrefl _⟩
  rw [Register.attempt, h.requests, hresp]
  simp only [if_neg hnot, h.httpDoRet, if_true, Retry.backoff, getNextBackoff, if_neg hmore]
  exact ⟨trivial, trivial, trivial⟩

theorem requests_attempt (s : Retry) :
    (attempt unmarshal env s).requests = s.requests + 1 := by
  rw [attempt]
  split
  · rfl
  · dsimp only
    split
    · rfl
    · split <;> rfl

theorem lt_requests_of_retryLoop {fuel : Nat} {final : Retry}
    (h : retryLoop unmarshal env fuel s = some final) : s.requests < final.requests := by
  induction fuel generalizing s with
  | zero => cases h
  | succ fuel ih =>
      have hstep : (attempt unmarshal env s).requests = s.requests + 1 := requests_attempt s
      rw [retryLoop] at h
      split at h
      · have hrest := ih h
        omega
      · cases h
        omega

/-- The loop does not end in its first `n` rounds, if no request is accepted in them and there are
retries. -/
theorem retryLoop_waiting (hfail : ∀ i < n, ¬ AcceptedAt unmarshal env i)
    (hretries : HasRetries env cfg n) :
    ∃ s, Waiting env cfg n s ∧
      (∀ fuel, retryLoop unmarshal env (fuel + n) (.init cfg) = retryLoop unmarshal env fuel s) ∧
      ∀ fuel ≤ n, retryLoop unmarshal env fuel (.init cfg) = none := by
  induction n with
  | zero =>
      refine ⟨.init cfg, waiting_init, fun _ => rfl, fun fuel hfuel => ?_⟩
      rw [Nat.le_zero.mp hfuel]
      rfl
  | succ n ih =>
      obtain ⟨s, hwait, hloop, hnone⟩ :=
        ih (fun i hi => hfail i (Nat.lt_succ_of_lt hi)) hretries.of_succ
      have hnext := hwait.attempt (hfail n (Nat.lt_succ_self n)) hretries
      have hgo : (attempt unmarshal env s).httpDoRet = -1 ∧
          (attempt unmarshal env s).retryStatus ≠ .retriesExhausted := by
        rw [hnext.retryStatus]
        exact ⟨hnext.httpDoRet, nofun⟩
      have hround (fuel : Nat) : retryLoop unmarshal env (fuel + (n + 1)) (.init cfg) =
          retryLoop unmarshal env fuel (attempt unmarshal env s) := by
        rw [← Nat.add_assoc, Nat.add_right_comm, hloop, retryLoop]
        exact if_pos hgo
      refine ⟨attempt unmarshal env s, hnext, hround, fun fuel hfuel => ?_⟩
      obtain hle | rfl := Nat.le_succ_iff.mp hfuel
      · exact hnone fuel hle
      · have hlast := hround 0
        rw [Nat.zero_add] at hlast
        exact hlast

/-- An accepted request among the first ones ends the registration. -/
theorem bounded_of_accepted (hreq : env.regReq = true)
    (h : ∃ i ≤ cfg.retryMaxAttempts.toNat, AcceptedAt unmarshal env i) :
    Bounded unmarshal env cfg := by
  classical
  have hex : ∃ i, AcceptedAt unmarshal env i := h.imp fun _ => And.right
  have hle : Nat.find hex ≤ cfg.retryMaxAttempts.toNat := by
    obtain ⟨i, hi, hacc⟩ := h
    exact Nat.le_trans (Nat.find_min' hex hacc) hi
  obtain ⟨s, hwait, hloop, -⟩ :=
    retryLoop_waiting (fun i hi => Nat.find_min hex hi) (hasRetries_of_le hle)
  obtain ⟨hret, hrequests⟩ := hwait.accepted (Nat.find_spec hex)
  refine ⟨1 + Nat.find hex, attempt unmarshal env s, ?_, ?_, .inl hret, ?_⟩
  · rw [doRegister, if_pos hreq, hloop, retryLoop]
    refine if_neg fun hgo => ?_
    rw [hret] at hgo
    exact absurd hgo.1 (by decide)
  · rw [hrequests]
    exact Nat.succ_le_succ hle
  · exact iff_of_true hret ⟨_, hrequests, Nat.find_spec hex⟩

/-- With a response to each of the first requests, the retries run out. -/
theorem bounded_of_responses (hreq : env.regReq = true)
    (hfail : ∀ i ≤ cfg.retryMaxAttempts.toNat, ¬ AcceptedAt unmarshal env i)
    (hforever : cfg.retryMaxAttempts ≠ retryForever)
    (hall : ∀ i ≤ cfg.retryMaxAttempts.toNat, (env.httpDo i).isSome) :
    Bounded unmarshal env cfg := by
  have hle := Nat.le_refl cfg.retryMaxAttempts.toNat
  obtain ⟨s, hwait, hloop, -⟩ :=
    retryLoop_waiting (fun i hi => hfail i (Nat.le_of_lt hi)) (hasRetries_of_le hle)
  obtain ⟨hret, hstatus, hrequests⟩ := hwait.exhausted (hfail _ hle) hforever (hall _ hle)
    (responses_eq fun i hi => hall i (Nat.le_of_lt hi))
  refine ⟨1 + cfg.retryMaxAttempts.toNat, attempt unmarshal env s, ?_, ?_, .inr hret, ?_⟩
  · rw [doRegister, if_pos hreq, hloop, retryLoop]
    exact if_neg fun hgo => hgo.2 hstatus
  · rw [hrequests]
  · rw [hret]
    refine iff_of_false (by decide) ?_
    rintro ⟨i, hi, hacc⟩
    obtain rfl : i = cfg.retryMaxAttempts.toNat := by omega
    exact hfail _ hle hacc

/-- A lost response is not counted as an attempt. -/
theorem not_bounded (hreq : env.regReq = true)
    (hfail : ∀ i ≤ cfg.retryMaxAttempts.toNat, ¬ AcceptedAt unmarshal env i)
    (hlost : cfg.retryMaxAttempts = retryForever ∨
      ∃ i ≤ cfg.retryMaxAttempts.toNat, env.httpDo i = none) :
    ¬ Bounded unmarshal env cfg := by
  rintro ⟨fuel, final, hfinal, hrequests, -⟩
  have hretries : HasRetries env cfg (cfg.retryMaxAttempts.toNat + 1) := by
    refine hlost.imp_right ?_
    rintro ⟨i, hi, hnone⟩
    exact Nat.le_of_lt_succ (responses_lt (Nat.lt_succ_of_le hi) hnone)
  obtain ⟨s, hwait, hloop, hnone⟩ :=
    retryLoop_waiting (fun i hi => hfail i (Nat.le_of_lt_succ hi)) hretries
  rw [doRegister, if_pos hreq] at hfinal
  by_cases hfuel : fuel ≤ cfg.retryMaxAttempts.toNat + 1
  · rw [hnone fuel hfuel] at hfinal
    cases hfinal
  · obtain ⟨more, rfl⟩ := Nat.exists_eq_add_of_le' (Nat.le_of_not_le hfuel)
    rw [hloop] at hfinal
    have hlt := lt_requests_of_retryLoop hfinal
    rw [hwait.requests] at hlt
    omega

/-- The registration is bounded exactly if no request is made, if one of the first requests is
accepted, or if there is a response to each of them and a last retry. -/
theorem bounded_iff (unmarshal : Option (List UInt8) → Option Int32) (env : Environment)
    (cfg : RetryConfig) :
    Bounded unmarshal env cfg ↔
      env.regReq = false ∨ (∃ i ≤ cfg.retryMaxAttempts.toNat, AcceptedAt unmarshal env i) ∨
        (cfg.retryMaxAttempts ≠ retryForever ∧
          ∀ i ≤ cfg.retryMaxAttempts.toNat, (env.httpDo i).isSome) := by
  cases hreq : env.regReq with
  | false =>
      refine iff_of_true ⟨0, .init cfg, ?_, Nat.zero_le _, .inr rfl, ?_⟩ (.inl rfl)
      · rw [doRegister, hreq]
        rfl
      · refine iff_of_false (by decide : ¬ (-1 : Int32) = 0) ?_
        rintro ⟨i, hi, -⟩
        cases hi
  | true =>
      rw [or_iff_right (by decide)]
      by_cases hacc : ∃ i ≤ cfg.retryMaxAttempts.toNat, AcceptedAt unmarshal env i
      · exact iff_of_true (bounded_of_accepted hreq hacc) (.inl hacc)
      have hfail : ∀ i ≤ cfg.retryMaxAttempts.toNat, ¬ AcceptedAt unmarshal env i :=
        fun i hi h => hacc ⟨i, hi, h⟩
      rw [or_iff_right hacc]
      constructor
      · intro h
        by_contra hnot
        refine not_bounded hreq hfail ?_ h
        by_contra hlost
        obtain ⟨hforever, hsome⟩ := not_or.mp hlost
        refine hnot ⟨hforever, fun i hi => ?_⟩
        exact Option.isSome_iff_ne_none.mpr fun hnone => hsome ⟨i, hi, hnone⟩
      · rintro ⟨hforever, hall⟩
        exact bounded_of_responses hreq hfail hforever hall

end

/-- Two requests without memory for a response, and then a success. -/
def lostTwice : Environment where
  regReq := true
  httpDo i := if i < 2 then none else some ⟨0, 200, none⟩
  rand _ := 0

/-- One retry is allowed, and two are made. -/
theorem lost_response_retried : ¬ ∀ unmarshal env cfg,
    1 ≤ cfg.retryMaxAttempts → Bounded unmarshal env cfg := by
  intro h
  have hbounded := h (fun _ => some 0) lostTwice ⟨1000, 5000, 1⟩ (by decide)
  refine not_bounded rfl ?_ (.inr ⟨0, by decide, rfl⟩) hbounded
  rintro i hi ⟨resp, hresp, -⟩
  have hlost : lostTwice.httpDo i = none := if_pos (Nat.lt_succ_of_le hi)
  rw [hlost] at hresp
  cases hresp

end XMonitor.Register
