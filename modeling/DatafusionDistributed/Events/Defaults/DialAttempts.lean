import Mathlib.Algebra.Order.Ring.Nat
import Mathlib.Data.List.Nodup
import Mathlib.Data.List.Perm.Basic
import DatafusionDistributed.Events.Defaults.Routing

/-!
# The attempts of a dial with failover

The loop of `dial_with_failover` is followed attempt by attempt, with the time it sleeps after each
of them. A `Duration` is its number of nanoseconds.

The sleep after an attempt is skipped when `attempt < max_retries` is false. That is the last
attempt unless `max_retries` is `usize::MAX`, where the number of attempts saturates. A run that
long does not happen: the loop keeps all errors in a `Vec`, which holds no more than `isize::MAX`
bytes, so `errs.push` panics before.
-/

namespace DatafusionDistributed

/-- `Duration::saturating_mul`. -/
def Duration.saturatingMul (self rhs : ℕ) : ℕ :=
  min (self * rhs) ((2 ^ 64 - 1) * 10 ^ 9 + 999999999)

/-- The loop of `same_url_retry_backoff`. -/
def backoffLoop (maxBackoff : ℕ) : (retry backoff : ℕ) → ℕ
  | 0, backoff => backoff
  | retry + 1, backoff =>
    let backoff := min (Duration.saturatingMul backoff 2) maxBackoff
    if backoff = maxBackoff then backoff else backoffLoop maxBackoff retry backoff

def sameUrlRetryBackoff (retry initialBackoff maxBackoff : ℕ) : ℕ :=
  backoffLoop maxBackoff retry (min initialBackoff maxBackoff)

/-- The doubling never saturates before the cap is reached. -/
theorem sameUrlRetryBackoff_eq {maxBackoff : ℕ} (hmax : maxBackoff < 2 ^ 64 * 10 ^ 9)
    (retry initialBackoff : ℕ) :
    sameUrlRetryBackoff retry initialBackoff maxBackoff =
      min (initialBackoff * 2 ^ retry) maxBackoff := by
  unfold sameUrlRetryBackoff
  induction retry generalizing initialBackoff with
  | zero => simp [backoffLoop]
  | succ retry ih =>
    have hdoubled : min (Duration.saturatingMul (min initialBackoff maxBackoff) 2) maxBackoff =
        min (initialBackoff * 2) maxBackoff := by
      unfold Duration.saturatingMul
      omega
    have hle := Nat.le_mul_of_pos_right (initialBackoff * 2) (Nat.two_pow_pos retry)
    simp only [backoffLoop, hdoubled, Nat.pow_succ', ← Nat.mul_assoc]
    split
    · omega
    · exact ih _

/-- What `dial_with_failover` reads from the configuration. -/
structure RetryConfig where
  maxRetries : Fin (2 ^ 64)
  initialBackoffMs : Fin (2 ^ 64)
  maxBackoffMs : Fin (2 ^ 64)

def RetryConfig.initialBackoff (self : RetryConfig) : ℕ := self.initialBackoffMs * 10 ^ 6

def RetryConfig.maxBackoff (self : RetryConfig) : ℕ := self.maxBackoffMs * 10 ^ 6

variable {R : Type}

/-- How the loop goes on after a dial: not at all after a success or a final error. -/
def retryOutcome : Except DialError R → Option RetryOutcome
  | .ok _ => none
  | .error err => RetryOutcome.tryFromErr err

@[simp]
theorem retryOutcome_error (err : DialError) :
    retryOutcome (.error err : Except DialError R) = RetryOutcome.tryFromErr err := rfl

/-- A dial, and the sleep after it. -/
structure Attempt (R : Type) where
  url : String
  result : Except DialError R
  slept : Option ℕ

variable (dial : ℕ → String → Except DialError R) (cfg : RetryConfig) (capacity : ℕ)

/-- The attempts of the loop of `dial_with_failover`, see `failoverLoop`. Every attempt so far has
pushed an error to `errs`, which takes `capacity` of them: the next `errs.push` panics. -/
def failoverAttempts : (left attempt sameUrlRetries : ℕ) → (url : String) →
    (retryUrls : List String) → List (Attempt R)
  | 0, _, _, _, _ => []
  | left + 1, attempt, sameUrlRetries, url, retryUrls =>
    let result := dial attempt url
    match retryOutcome result with
    | some .sameUrl =>
      if capacity ≤ attempt then [⟨url, result, none⟩]
      else if attempt < cfg.maxRetries then
        ⟨url, result,
          some (sameUrlRetryBackoff sameUrlRetries cfg.initialBackoff cfg.maxBackoff)⟩ ::
          failoverAttempts left (attempt + 1) (sameUrlRetries + 1) url retryUrls
      else ⟨url, result, none⟩ :: failoverAttempts left (attempt + 1) sameUrlRetries url retryUrls
    | some .otherUrl => ⟨url, result, none⟩ ::
      if capacity ≤ attempt then []
      else match retryUrls.getLast? with
      | none => []
      | some nextUrl => failoverAttempts left (attempt + 1) 0 nextUrl retryUrls.dropLast
    | none => [⟨url, result, none⟩]

/-- The attempts of `dial_with_failover`, given what the shuffle makes of the other URLs. -/
def dialAttempts (url : String) (shuffled : List String) : List (Attempt R) :=
  failoverAttempts dial cfg capacity (min (cfg.maxRetries + 1) (2 ^ 64 - 1)) 0 0 url shuffled

/-- The same-URL errors since the last change of the URL, after these attempts. -/
def sameUrlRun (retries : ℕ) (attempts : List (Attempt R)) : ℕ :=
  attempts.foldl (fun n a => if retryOutcome a.result = some .sameUrl then n + 1 else 0) retries

/-- The attempt `a`, with the number `attempt`, of a run that returns `returned`, after `retries`
same-URL errors and before the attempts `after`. -/
structure Attempt.Right (returned : Except DialError R) (attempt retries : ℕ) (a : Attempt R)
    (after : List (Attempt R)) : Prop where
  dialed : a.result = dial attempt a.url
  stops : retryOutcome a.result = none → after = [] ∧ returned = a.result
  movesOn : retryOutcome a.result = some .otherUrl → ∀ b ∈ after, b.url ≠ a.url
  /-- The loop sleeps before it dials the same URL again, and only then. -/
  sleeps : a.slept = if retryOutcome a.result = some .sameUrl ∧ after ≠ [] then
    some (min (cfg.initialBackoff * 2 ^ retries) cfg.maxBackoff) else none

/-- The discipline of the attempts from the number `attempt` on, when there were `retries` same-URL
errors since the last change of the URL and the errors `errs` altogether. -/
structure Disciplined (attempt retries : ℕ) (errs : List DialError) (urls : List String)
    (attempts : List (Attempt R)) (returned : Except DialError R) : Prop where
  length_le : attempt + attempts.length ≤ cfg.maxRetries + 1
  known : ∀ a ∈ attempts, a.url ∈ urls
  right : ∀ before a after, attempts = before ++ a :: after →
    a.Right dial cfg returned (attempt + before.length) (sameUrlRun retries before) after
  /-- All errors are returned, in order, unless there are too many for `errs`. -/
  givesUp : (∀ a ∈ attempts, retryOutcome a.result ≠ none) →
    errs.length + attempts.length ≤ capacity → ∃ new, attempts.map Attempt.result = new.map .error ∧
      returned = .error (failoverError (errs ++ new))

variable {dial cfg capacity} {left attempt retries : ℕ} {url : String}
  {urls known retryUrls : List String}
  {errs : List DialError} {err : DialError} {outcome : RetryOutcome} {after : List (Attempt R)}
  {returned : Except DialError R}

theorem Disciplined.nil (h : attempt ≤ cfg.maxRetries + 1)
    (hreturned : errs.length ≤ capacity → returned = .error (failoverError errs)) :
    Disciplined dial cfg capacity attempt retries errs urls [] returned :=
  ⟨h, by simp, by simp, fun _ hroom => ⟨[], by simpa using hreturned hroom⟩⟩

theorem Disciplined.stop (h : attempt ≤ cfg.maxRetries) (hurl : url ∈ urls)
    (houtcome : retryOutcome (dial attempt url) = none) :
    Disciplined dial cfg capacity attempt retries errs urls [⟨url, dial attempt url, none⟩]
      (dial attempt url) where
  length_le := Nat.succ_le_succ h
  known := by simpa using hurl
  right before a after hsplit := by
    obtain ⟨rfl, rfl, rfl⟩ : before = [] ∧ a = ⟨url, dial attempt url, none⟩ ∧ after = [] := by
      cases before <;> simp_all
    exact ⟨rfl, fun _ => ⟨rfl, rfl⟩, by simp, by simp⟩
  givesUp := by simp [houtcome]

theorem Disciplined.retry {slept : Option ℕ} (hdial : dial attempt url = .error err)
    (htag : RetryOutcome.tryFromErr err = some outcome)
    (hmovesOn : outcome = .otherUrl → url ∉ known) (hknown : known ⊆ url :: urls)
    (hslept : slept = if outcome = .sameUrl ∧ after ≠ [] then
      some (min (cfg.initialBackoff * 2 ^ retries) cfg.maxBackoff) else none)
    (hafter : Disciplined dial cfg capacity (attempt + 1)
      (if outcome = .sameUrl then retries + 1 else 0) (errs ++ [err]) known after returned) :
    Disciplined dial cfg capacity attempt retries errs (url :: urls)
      (⟨url, .error err, slept⟩ :: after) returned where
  length_le := by
    have hlength := hafter.length_le
    rw [List.length_cons]
    omega
  known := List.forall_mem_cons.mpr
    ⟨List.mem_cons_self, fun b hb => hknown (hafter.known b hb)⟩
  right before b rest hsplit := by
    rcases List.cons_eq_append_iff.mp hsplit with ⟨rfl, hb⟩ | ⟨before, rfl, hb⟩
    · obtain ⟨rfl, rfl⟩ := List.cons.inj hb
      refine ⟨hdial.symm, by simp [htag], fun houtcome c hc heq => ?_, ?_⟩
      · rw [retryOutcome_error, htag, Option.some.injEq] at houtcome
        have hc := hafter.known c hc
        rw [heq] at hc
        exact hmovesOn houtcome hc
      · simpa [htag, sameUrlRun] using hslept
    · have hright := hafter.right before b rest hb
      simpa [sameUrlRun, htag, Nat.add_comm before.length, Nat.add_assoc] using hright
  givesUp h hroom := by
    obtain ⟨new, hnew, hreturned⟩ := hafter.givesUp (List.forall_mem_cons.mp h).2
      (by simpa [Nat.add_assoc, Nat.add_comm 1] using hroom)
    exact ⟨err :: new, by simp [hnew], by simpa using hreturned⟩

theorem failoverAttempts_ne_nil :
    failoverAttempts dial cfg capacity (left + 1) attempt retries url retryUrls ≠ [] := by
  simp only [failoverAttempts]
  split
  · repeat' split
    all_goals simp
  · simp
  · simp

/-- The attempts that are left are disciplined, if there is no room for all errors in the longest
run there can be. -/
theorem failoverAttempts_disciplined (hcapacity : capacity < 2 ^ 63)
    (hleft : attempt + left = min ((cfg.maxRetries : ℕ) + 1) (2 ^ 64 - 1))
    (herrs : errs.length = attempt) (hurl : url ∉ retryUrls)
    (hnodup : retryUrls.Nodup) :
    Disciplined dial cfg capacity attempt retries errs (url :: retryUrls)
      (failoverAttempts dial cfg capacity left attempt retries url retryUrls)
      (failoverLoop dial left attempt url retryUrls errs) := by
  induction left generalizing attempt retries url retryUrls errs with
  | zero => exact .nil (by omega) fun _ => rfl
  | succ left ih =>
    cases houtcome : retryOutcome (dial attempt url) with
    | none =>
      have hreturned : failoverLoop dial (left + 1) attempt url retryUrls errs =
          dial attempt url := by
        unfold failoverLoop
        cases hdial : dial attempt url <;> simp_all
      simp only [failoverAttempts, houtcome, hreturned]
      exact .stop (by omega) List.mem_cons_self houtcome
    | some outcome =>
      obtain ⟨err, hdial⟩ : ∃ err, dial attempt url = .error err := by
        cases hdial : dial attempt url <;> simp_all [retryOutcome]
      have htag : RetryOutcome.tryFromErr err = some outcome := by
        rw [← houtcome, hdial, retryOutcome_error]
      have hpushed : (errs ++ [err]).length = attempt + 1 := by simp [herrs]
      simp only [failoverAttempts, failoverLoop, hdial, retryOutcome_error, htag]
      by_cases hfull : capacity ≤ attempt
      · -- the push panics, so there is neither a sleep nor another attempt
        have hnil : ∀ retries returned, Disciplined (R := R) dial cfg capacity (attempt + 1) retries
            (errs ++ [err]) [] [] returned := fun _ _ => .nil (by omega) fun _ => by omega
        cases outcome <;> simp only [hfull, if_true] <;>
          exact .retry hdial htag (by simp) (List.nil_subset _) (by simp) (hnil _ _)
      simp only [hfull, if_false]
      cases outcome with
      | sameUrl =>
        dsimp only
        split
        · obtain ⟨left, rfl⟩ : ∃ n, left = n + 1 := ⟨left - 1, by omega⟩
          refine .retry hdial htag (by simp) (List.Subset.refl _) ?_
            (ih (by omega) hpushed hurl hnodup)
          rw [if_pos ⟨rfl, failoverAttempts_ne_nil⟩, sameUrlRetryBackoff_eq]
          unfold RetryConfig.maxBackoff
          omega
        · obtain rfl : left = 0 := by omega
          exact .retry hdial htag (by simp) (List.nil_subset _) (by simp [failoverAttempts])
            (.nil (by omega) fun _ => rfl)
      | otherUrl =>
        rcases List.eq_nil_or_concat' retryUrls with rfl | ⟨retryUrls, nextUrl, rfl⟩
        · exact .retry hdial htag (by simp) (List.nil_subset _) (by simp)
            (.nil (by omega) fun _ => rfl)
        · have hnext := List.nodup_append.mp hnodup
          simp only [List.getLast?_append, List.dropLast_concat]
          refine .retry hdial htag (fun _ => ?_) ?_ (by simp) (ih (by omega) hpushed ?_ hnext.1)
          · simpa [or_comm] using hurl
          · simp
          · exact fun h => hnext.2.2 nextUrl h nextUrl List.mem_cons_self rfl

theorem nodup_retainNew (attempted urls : List String) : (retainNew attempted urls).Nodup := by
  induction urls generalizing attempted with
  | nil => exact List.nodup_nil
  | cons candidate candidates ih =>
    rw [retainNew]
    split
    · exact ih attempted
    · exact List.nodup_cons.mpr ⟨by simp [mem_retainNew], ih _⟩

/-- `dial_with_failover` keeps the discipline, whatever the dials end with. A `Vec` holds fewer than
`2 ^ 63` errors. -/
theorem dial_attempts_disciplined (dial : ℕ → String → Except DialError R) (cfg : RetryConfig)
    (hcapacity : capacity < 2 ^ 63) {shuffled : List String}
    (hperm : shuffled.Perm (retainNew [url] urls)) :
    Disciplined dial cfg capacity 0 0 [] (url :: urls) (dialAttempts dial cfg capacity url shuffled)
      (dialWithFailover dial cfg.maxRetries url shuffled) := by
  have hmem : ∀ u ∈ shuffled, u ∈ urls ∧ u ≠ url := by
    intro u hu
    simpa [mem_retainNew] using hperm.mem_iff.mp hu
  have hdisciplined : Disciplined dial cfg capacity 0 0 [] (url :: shuffled)
      (dialAttempts dial cfg capacity url shuffled)
      (dialWithFailover dial cfg.maxRetries url shuffled) :=
    failoverAttempts_disciplined hcapacity (Nat.zero_add _) rfl (fun h => (hmem url h).2 rfl)
      (hperm.nodup_iff.mpr (nodup_retainNew _ _))
  refine { hdisciplined with known := fun a ha => ?_ }
  rcases List.mem_cons.mp (hdisciplined.known a ha) with hurl | hurl
  · simp [hurl]
  · exact List.mem_cons_of_mem _ (hmem _ hurl).1

/-- The first worker is busy and then unavailable, the second one answers. -/
def secondAnswers : ℕ → String → Except DialError Unit
  | 0, _ => .error (RetryOutcome.sameUrl.tag (.external .aborted "busy"))
  | 1, _ => .error (RetryOutcome.otherUrl.tag (.external .aborted "unavailable"))
  | _, _ => .ok ()

/-- Two retries, a sleep before the first of them, and another URL for the second. -/
theorem dial_attempts_disciplined_of_two_retries :
    (dialAttempts secondAnswers ⟨2, 100, 1000⟩ (2 ^ 63 - 1) "http://a" ["http://b"]).map
        (fun a => (a.url, a.slept)) =
      [("http://a", some 100000000), ("http://a", none), ("http://b", none)] ∧
    Disciplined secondAnswers ⟨2, 100, 1000⟩ (2 ^ 63 - 1) 0 0 []
      ["http://a", "http://b", "http://a"]
      (dialAttempts secondAnswers ⟨2, 100, 1000⟩ (2 ^ 63 - 1) "http://a" ["http://b"])
      (dialWithFailover secondAnswers 2 "http://a" ["http://b"]) := by
  have hperm : ["http://b"].Perm (retainNew ["http://a"] ["http://b", "http://a"]) := by decide
  exact ⟨by decide, dial_attempts_disciplined secondAnswers ⟨2, 100, 1000⟩ (by decide) hperm⟩

end DatafusionDistributed
