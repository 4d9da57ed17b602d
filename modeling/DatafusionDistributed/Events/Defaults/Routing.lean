import Mathlib.Algebra.GroupWithZero.Nat
import Mathlib.Data.List.Basic
import Mathlib.Data.List.Induction

/-!
# Dialing a worker with failover

`dial_with_failover` tries the URLs of the workers one after the other. Whether it goes on after an
error depends on a tag that the error carries: the gRPC client tags the statuses after which another
worker should be tried. An error of the channel resolver carries no tag, so a worker that refuses
the connection ends the loop.
-/

namespace DatafusionDistributed

/-- The status codes of gRPC. -/
inductive Code where
  | ok
  | cancelled
  | unknown
  | invalidArgument
  | deadlineExceeded
  | notFound
  | alreadyExists
  | permissionDenied
  | resourceExhausted
  | failedPrecondition
  | aborted
  | outOfRange
  | unimplemented
  | internal
  | unavailable
  | dataLoss
  | unauthenticated
  deriving DecidableEq, Repr

/-- The variants of `DataFusionError` that dialing a worker ends with. -/
inductive DialError where
  | configuration (message : String)
  | execution (message : String)
  | internal (message : String)
  | external (code : Code) (message : String)
  | context (info : String) (error : DialError)
  | shared (error : DialError)
  | collection (errors : List DialError)

inductive RetryOutcome where
  | sameUrl
  | otherUrl
  deriving DecidableEq, Repr

namespace RetryOutcome

def tryFromErr : DialError → Option RetryOutcome
  | .context info _ =>
    if info = "RetryOutcome::SameUrl" then some sameUrl
    else if info = "RetryOutcome::OtherUrl" then some otherUrl
    else none
  | _ => none

def tag (self : RetryOutcome) (err : DialError) : DialError :=
  match self with
  | sameUrl => .context "RetryOutcome::SameUrl" err
  | otherUrl => .context "RetryOutcome::OtherUrl" err

@[simp]
theorem tryFromErr_tag (self : RetryOutcome) (err : DialError) :
    tryFromErr (self.tag err) = some self := by
  cases self <;> simp [tag, tryFromErr]

end RetryOutcome

/-- `tonic::Status`, with what its details decode to. -/
structure Status where
  code : Code
  message : String
  details : Except String DialError

namespace Status

def tonicStatusToDatafusionError (status : Status) : Option DialError :=
  if status.code ≠ .internal then none
  else if status.message ≠ "DataFusionError" then none
  else match status.details with
    | .ok err => some err
    | .error err => some (.internal s!"Cannot decode DataFusionError: {err}")

/-- The error of `coordinator_channel` for a status. -/
def coordinatorChannelError (status : Status) : DialError :=
  match status.tonicStatusToDatafusionError with
  | some err => err
  | none =>
    let err := .external status.code status.message
    match status.code with
    | .deadlineExceeded => RetryOutcome.otherUrl.tag err
    | .resourceExhausted => RetryOutcome.otherUrl.tag err
    | .aborted => RetryOutcome.sameUrl.tag err
    | .unavailable => RetryOutcome.otherUrl.tag err
    | _ => err

/-- The worker is overloaded, slow or gone. -/
def IsOtherUrl (status : Status) : Prop :=
  status.code = .unavailable ∨ status.code = .deadlineExceeded ∨ status.code = .resourceExhausted

theorem IsOtherUrl.tryFromErr {status : Status} (h : status.IsOtherUrl) :
    RetryOutcome.tryFromErr status.coordinatorChannelError = some .otherUrl := by
  unfold coordinatorChannelError tonicStatusToDatafusionError
  rcases h with h | h | h <;> simp [h]

end Status

/-- `tonic::transport::Error`, as it is printed. -/
structure TransportError where
  debug : String
  display : String
  deriving DecidableEq, Repr

/-- What dialing a URL finds: whether the channel is cached, whether the URL is valid, the
connection, and the answer to the setup call, a stream of the worker. -/
structure Endpoint (ρ : Type) where
  cached : Bool
  valid : Except String Unit
  connect : Except TransportError Unit
  ready : Except TransportError Unit
  call : Except Status ρ

structure RouteTaskEventResponse (ρ : Type) where
  url : String
  workerToCoordinatorStream : ρ

namespace Endpoint

variable {ρ : Type}

/-- `DefaultChannelResolver::get_channel`: a failed connection is shared by all who wait for it. -/
def getChannel (self : Endpoint ρ) (url : String) : Except DialError Unit :=
  if self.cached then .ok ()
  else Except.mapError .shared do
    self.valid.mapError fun err => .configuration
      s!"Invalid URL '{url}' returned by WorkerResolver implementation: {err}"
    self.connect.mapError fun err => .context err.debug (.execution
      s!"Error connecting to Distributed DataFusion worker on '{url}': {err.display}")
    self.ready.mapError fun err => .context err.debug (.execution (
      s!"Error waiting for Distributed DataFusion channel to be ready on '{url}': " ++
        err.display))

/-- The dial of one URL. -/
def dial (self : Endpoint ρ) (url : String) : Except DialError (RouteTaskEventResponse ρ) := do
  self.getChannel url
  match self.call with
  | .error status => .error status.coordinatorChannelError
  | .ok stream => .ok ⟨url, stream⟩

def Connects (self : Endpoint ρ) : Prop :=
  self.cached = true ∨ (self.valid = .ok () ∧ self.connect = .ok () ∧ self.ready = .ok ())

def Reachable (self : Endpoint ρ) : Prop :=
  self.Connects ∧ ∃ stream, self.call = .ok stream

def Refuses (self : Endpoint ρ) : Prop :=
  self.cached = false ∧ self.valid = .ok () ∧
    ((∃ err, self.connect = .error err) ∨ self.connect = .ok () ∧ ∃ err, self.ready = .error err)

/-- The setup call is answered with a status after which another worker should be tried. -/
def Declines (self : Endpoint ρ) : Prop :=
  self.Connects ∧ ∃ status, self.call = .error status ∧ status.IsOtherUrl

variable {self : Endpoint ρ} {url : String}

theorem Connects.getChannel (h : self.Connects) : self.getChannel url = .ok () := by
  unfold Endpoint.getChannel
  rcases h with h | ⟨hvalid, hconnect, hready⟩
  · rw [if_pos h]
  · split
    · rfl
    · rw [hvalid, hconnect, hready]
      rfl

theorem Reachable.dial (h : self.Reachable) (url : String) :
    ∃ stream, self.dial url = .ok ⟨url, stream⟩ := by
  obtain ⟨hconnects, stream, hcall⟩ := h
  refine ⟨stream, ?_⟩
  rw [Endpoint.dial, hconnects.getChannel, hcall]
  rfl

theorem Refuses.dial (h : self.Refuses) (url : String) :
    ∃ err, self.dial url = .error err ∧ RetryOutcome.tryFromErr err = none := by
  obtain ⟨hcached, hvalid, hconnection⟩ := h
  have hchannel : ∃ err, self.getChannel url = .error (.shared err) := by
    unfold Endpoint.getChannel
    rw [if_neg (by simp [hcached]), hvalid]
    rcases hconnection with ⟨err, herr⟩ | ⟨hconnect, err, herr⟩
    · rw [herr]
      exact ⟨_, rfl⟩
    · rw [hconnect, herr]
      exact ⟨_, rfl⟩
  obtain ⟨err, herr⟩ := hchannel
  refine ⟨.shared err, ?_, rfl⟩
  rw [Endpoint.dial, herr]
  rfl

theorem Declines.dial (h : self.Declines) (url : String) :
    ∃ err, self.dial url = .error err ∧ RetryOutcome.tryFromErr err = some .otherUrl := by
  obtain ⟨hconnects, status, hcall, hstatus⟩ := h
  refine ⟨_, ?_, hstatus.tryFromErr⟩
  rw [Endpoint.dial, hconnects.getChannel, hcall]
  rfl

end Endpoint

section Failover

variable {R : Type}

/-- `retry_urls.retain`: the URLs that were not attempted, each once. -/
def retainNew (attempted : List String) : List String → List String
  | [] => []
  | candidate :: candidates =>
    if candidate ∈ attempted then retainNew attempted candidates
    else candidate :: retainNew (candidate :: attempted) candidates

def failoverError : List DialError → DialError
  | [] => .internal "No URLs available for coordinator-to-worker connection"
  | [err] => err
  | errs => .collection errs

/-- The loop of `dial_with_failover`, with the attempts that are left; `retry_urls` is popped from
its end. -/
def failoverLoop (dial : ℕ → String → Except DialError R) :
    (left attempt : ℕ) → (url : String) → (retryUrls : List String) → (errs : List DialError) →
      Except DialError R
  | 0, _, _, _, errs => .error (failoverError errs)
  | left + 1, attempt, url, retryUrls, errs =>
    match dial attempt url with
    | .ok result => .ok result
    | .error err =>
      match RetryOutcome.tryFromErr err with
      | some .sameUrl => failoverLoop dial left (attempt + 1) url retryUrls (errs ++ [err])
      | some .otherUrl =>
        match retryUrls.getLast? with
        | none => .error (failoverError (errs ++ [err]))
        | some nextUrl =>
          failoverLoop dial left (attempt + 1) nextUrl retryUrls.dropLast (errs ++ [err])
      | none => .error err

/-- `dial_with_failover`, given what the shuffle makes of the other URLs. -/
def dialWithFailover (dial : ℕ → String → Except DialError R) (maxRetries : Fin (2 ^ 64))
    (url : String) (shuffled : List String) : Except DialError R :=
  -- `max_retries.saturating_add(1)`
  failoverLoop dial (min (maxRetries + 1) (2 ^ 64 - 1)) 0 url shuffled []

variable {urls retryUrls : List String} {url : String} {left attempt : ℕ} {errs : List DialError}

theorem mem_retainNew {attempted : List String} :
    url ∈ retainNew attempted urls ↔ url ∈ urls ∧ url ∉ attempted := by
  induction urls generalizing attempted with
  | nil => simp [retainNew]
  | cons candidate candidates ih =>
    rw [retainNew]
    split <;> by_cases heq : url = candidate <;> simp_all

theorem retainNew_sublist (attempted urls : List String) :
    (retainNew attempted urls).Sublist urls := by
  induction urls generalizing attempted with
  | nil => exact List.Sublist.slnil
  | cons candidate candidates ih =>
    rw [retainNew]
    split
    · exact (ih attempted).cons candidate
    · exact (ih (candidate :: attempted)).cons_cons candidate

theorem length_retainNew_lt (h : url ∈ urls) :
    (retainNew [url] urls).length < urls.length := by
  have hsublist := retainNew_sublist [url] urls
  refine Nat.lt_of_le_of_ne hsublist.length_le fun hlength => ?_
  have hurl : url ∈ retainNew [url] urls := by
    rw [hsublist.eq_of_length hlength]
    exact h
  exact (mem_retainNew.mp hurl).2 List.mem_cons_self

variable {ρ : Type} {network : String → Endpoint ρ}

/-- If no URL refuses the connection, the loop gets to a reachable one. -/
theorem failoverLoop_reaches
    (hbehaves : ∀ u, u = url ∨ u ∈ retryUrls → (network u).Reachable ∨ (network u).Declines)
    (hreachable : ∃ u, (u = url ∨ u ∈ retryUrls) ∧ (network u).Reachable)
    (hleft : retryUrls.length < left) :
    ∃ response, failoverLoop (fun _ u => (network u).dial u) left attempt url retryUrls errs =
      .ok response ∧ (network response.url).Reachable := by
  induction left generalizing attempt url retryUrls errs with
  | zero => cases hleft
  | succ left ih =>
    rw [failoverLoop]
    by_cases hurl : (network url).Reachable
    · obtain ⟨stream, hdial⟩ := hurl.dial url
      rw [hdial]
      exact ⟨⟨url, stream⟩, rfl, hurl⟩
    · obtain ⟨err, hdial, htag⟩ :=
        ((hbehaves url (Or.inl rfl)).resolve_left hurl).dial url
      have hother : ∃ u ∈ retryUrls, (network u).Reachable := by
        obtain ⟨u, rfl | hu, hreachable⟩ := hreachable
        · exact absurd hreachable hurl
        · exact ⟨u, hu, hreachable⟩
      rcases List.eq_nil_or_concat' retryUrls with rfl | ⟨retryUrls, nextUrl, rfl⟩
      · simp at hother
      · simp only [hdial, htag, List.getLast?_append]
        refine ih (fun u hu => hbehaves u ?_) ?_ ?_
        · simpa [or_comm] using Or.inr hu
        · simpa [or_comm] using hother
        · simpa using hleft

/-- A URL that is tried first and refuses the connection ends the loop. -/
theorem failoverLoop_refused (h : (network url).Refuses) (response : RouteTaskEventResponse ρ) :
    failoverLoop (fun _ u => (network u).dial u) left attempt url retryUrls errs ≠
      .ok response := by
  obtain ⟨err, hdial, htag⟩ := h.dial url
  cases left <;> simp [failoverLoop, hdial, htag]

/-- Every worker is reachable, refuses the connection, or declines the setup call. With as many
retries as workers, one of which is reachable, routing succeeds in every order in which the workers
are tried if and only if none of them refuses the connection. -/
theorem failover_reaches_iff (network : String → Endpoint ρ) (urls : List String)
    (maxRetries : Fin (2 ^ 64))
    (hbehaves : ∀ u ∈ urls,
      (network u).Reachable ∨ (network u).Refuses ∨ (network u).Declines)
    (hreachable : ∃ u ∈ urls, (network u).Reachable) (hretries : urls.length ≤ maxRetries) :
    (∀ url ∈ urls, ∀ shuffled, shuffled.Perm (retainNew [url] urls) →
      ∃ response, dialWithFailover (fun _ u => (network u).dial u) maxRetries url shuffled =
        .ok response ∧ (network response.url).Reachable) ↔
      ∀ u ∈ urls, ¬ (network u).Refuses := by
  constructor
  · intro h u hu hrefuses
    obtain ⟨response, hresponse, -⟩ := h u hu _ (List.Perm.refl _)
    exact failoverLoop_refused hrefuses response hresponse
  · intro h url hurl shuffled hperm
    have hmem : ∀ u, u = url ∨ u ∈ shuffled ↔ u ∈ urls := by
      intro u
      rw [hperm.mem_iff, mem_retainNew]
      by_cases heq : u = url
      · simp [heq, hurl]
      · simp [heq]
    refine failoverLoop_reaches (fun u hu => ?_) ?_ ?_
    · have hu := (hmem u).mp hu
      rcases hbehaves u hu with hreachable | hrefuses | hdeclines
      · exact Or.inl hreachable
      · exact absurd hrefuses (h u hu)
      · exact Or.inr hdeclines
    · obtain ⟨u, hu, hreachable⟩ := hreachable
      exact ⟨u, (hmem u).mpr hu, hreachable⟩
    · have hlength := length_retainNew_lt hurl
      rw [hperm.length_eq]
      omega

def answering : Endpoint Unit :=
  { cached := false, valid := .ok (), connect := .ok (), ready := .ok (), call := .ok () }

theorem answering_reachable : answering.Reachable :=
  ⟨Or.inr ⟨rfl, rfl, rfl⟩, (), rfl⟩

/-- The worker on `url` behaves like this, all others answer. -/
def exceptOn (url : String) (endpoint : Endpoint Unit) (other : String) : Endpoint Unit :=
  if other = url then endpoint else answering

def unavailable : Endpoint Unit :=
  { answering with call := .error ⟨.unavailable, "worker is gone", .error ""⟩ }

def refusing : Endpoint Unit :=
  { answering with connect := .error ⟨"tcp connect error", "transport error"⟩ }

/-- A worker that answers with an unavailable status is failed over. -/
theorem unavailable_worker_is_failed_over :
    ∃ response, dialWithFailover (fun _ u => (exceptOn "http://a" unavailable u).dial u) 2
        "http://a" ["http://b"] = .ok response ∧
      (exceptOn "http://a" unavailable response.url).Reachable := by
  have hdeclines : unavailable.Declines := ⟨Or.inr ⟨rfl, rfl, rfl⟩, _, rfl, Or.inl rfl⟩
  have hrefuses : ¬ unavailable.Refuses := by
    rintro ⟨-, -, ⟨err, herr⟩ | ⟨-, err, herr⟩⟩ <;> cases herr
  have hanswers : ¬ answering.Refuses := by
    rintro ⟨-, -, ⟨err, herr⟩ | ⟨-, err, herr⟩⟩ <;> cases herr
  refine (failover_reaches_iff (exceptOn "http://a" unavailable) ["http://a", "http://b"] 2
    ?_ ?_ ?_).mpr ?_ "http://a" (by simp) ["http://b"] ?_
  · simp [exceptOn, hdeclines, answering_reachable]
  · exact ⟨"http://b", by simp, by simp [exceptOn, answering_reachable]⟩
  · decide
  · simp [exceptOn, hrefuses, hanswers]
  · simp [retainNew]

/-- With a reachable worker and enough retries, a worker that refuses the connection and is tried
first ends the routing with its error. -/
theorem refused_worker_is_not_failed_over :
    refusing.Refuses ∧ answering.Reachable ∧
      ["http://b"].Perm (retainNew ["http://a"] ["http://a", "http://b"]) ∧
      dialWithFailover (fun _ u => (exceptOn "http://a" refusing u).dial u) 2
        "http://a" ["http://b"] = .error (.shared (.context "tcp connect error" (.execution (
          "Error connecting to Distributed DataFusion worker on 'http://a': " ++
            "transport error")))) := by
  have hrefuses : refusing.Refuses := ⟨rfl, rfl, Or.inl ⟨_, rfl⟩⟩
  exact ⟨hrefuses, answering_reachable, by simp [retainNew], rfl⟩

end Failover

end DatafusionDistributed
