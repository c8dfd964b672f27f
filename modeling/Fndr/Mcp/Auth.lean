import Fndr.Library.Strings
import Mathlib.Data.List.Induction

set_option autoImplicit false

/-! # Authentication of MCP requests

`check_request` of `auth.rs`. The rate limit comes first and counts every request, whoever sent it,
so what it leaves of a request's decision is its number in the rate window (`checkRequest_eq`), and
deleting requests changes the decisions of others through this number alone, which can go either
way: a deleted request may also have begun the window (`decision_unchanged_iff`). -/

namespace Fndr

open RustStd

/-- What a request is checked against. -/
structure AuthConfig where
  token : Str
  allowedHosts : List Str
  allowedOrigins : List Str
  /-- Crude by design: every request counts. -/
  maxRequestsPerSecond : ℕ

/-- The configuration of a server that only this machine can reach. -/
def AuthConfig.loopback (token : Str) (port : ℕ) : AuthConfig where
  token := token
  allowedHosts :=
    ["127.0.0.1:", "localhost:", "[::1]:"].map (fun host => host.toList ++ Nat.toDigits 10 port)
  allowedOrigins := []
  maxRequestsPerSecond := 20

/-- The headers that are read. A header may be missing, and its value may not be text. -/
structure McpHeaders where
  host : Option (Option Str)
  origin : Option (Option Str)
  authorization : Option (Option Str)
  deriving DecidableEq

/-- A request and the two clocks `allow` reads at most, in nanoseconds. -/
structure TimedRequest where
  headers : McpHeaders
  elapsedAt : ℕ
  restartAt : ℕ

/-- The answer to a denied request. The reason is logged, and the body is always the same. -/
structure Denial where
  status : ℕ
  reason : Str
  body : Str
  deriving DecidableEq

/-- The refusal with this status and reason. -/
def deny (status : ℕ) (reason : Str) : Denial := ⟨status, reason, "denied".toList⟩

/-- The status of a request beyond the rate. -/
def TOO_MANY_REQUESTS : ℕ := 429

/-- The status of a request from the wrong place. -/
def FORBIDDEN : ℕ := 403

/-- The status of a request without the token. -/
def UNAUTHORIZED : ℕ := 401

/-- Where the count, a `u64`, wraps. -/
def COUNT_BOUND : ℕ := 2 ^ 64

/-- The second that is counted, and the requests in it. -/
structure RateWindow where
  windowStart : ℕ
  count : ℕ
  deriving DecidableEq

/-- `RateWindow::new`. -/
def RateWindow.new (nowNs : ℕ) : RateWindow := ⟨nowNs, 0⟩

/-- A second has passed, in whole seconds, since the window began. -/
def TimedRequest.Restarts (request : TimedRequest) (windowStart : ℕ) : Prop :=
  1 ≤ (request.elapsedAt - windowStart) / 10 ^ 9

instance (request : TimedRequest) (windowStart : ℕ) : Decidable (request.Restarts windowStart) :=
  Nat.decLe _ _

/-- Count a request, in a new window if it is late enough. -/
def RateWindow.allow (window : RateWindow) (request : TimedRequest) (perSecond : ℕ) :
    Bool × RateWindow :=
  let window := if request.Restarts window.windowStart then ⟨request.restartAt, 0⟩ else window
  (decide (window.count < perSecond), { window with count := (window.count + 1) % COUNT_BOUND })

/-- The checks of `check_request` behind the rate limit. -/
def AuthConfig.checkHeaders (config : AuthConfig) (headers : McpHeaders) : Except Denial Unit :=
  let host := headers.host.join.getD []
  if !config.allowedHosts.contains host then .error (deny FORBIDDEN "host not allowed".toList)
  else if headers.origin.any (fun origin => !config.allowedOrigins.contains (origin.getD [])) then
    .error (deny FORBIDDEN "origin not allowed".toList)
  else
    let authorization := headers.authorization.join.getD []
    let presented :=
      if startsWith authorization "Bearer ".toList then authorization.drop "Bearer ".toList.length
      else []
    -- the comparison takes the same time for all texts of one length
    if presented ≠ config.token then
      .error (deny UNAUTHORIZED "bad or missing token".toList)
    else .ok ()

/-- The rate first, then the headers. A request counts whatever becomes of it. -/
def AuthConfig.checkRequest (config : AuthConfig) (rate : RateWindow) (request : TimedRequest) :
    Except Denial Unit × RateWindow :=
  let allowed := rate.allow request config.maxRequestsPerSecond
  (if allowed.1 then config.checkHeaders request.headers
    else .error (deny TOO_MANY_REQUESTS "rate limit".toList), allowed.2)

/-! ## Sequences of requests -/

namespace AuthConfig

/-- The window after these requests. -/
def rateAfter (config : AuthConfig) (rate : RateWindow) (requests : List TimedRequest) :
    RateWindow :=
  requests.foldl (fun rate request => (config.checkRequest rate request).2) rate

/-- The answer to a request that follows the earlier ones. -/
def decision (config : AuthConfig) (createdAt : ℕ) (earlier : List TimedRequest)
    (request : TimedRequest) : Except Denial Unit :=
  (config.checkRequest (config.rateAfter (.new createdAt) earlier) request).1

/-- The answers to the requests, in order. -/
def decisions (config : AuthConfig) (rate : RateWindow) :
    List TimedRequest → List (Except Denial Unit)
  | [] => []
  | request :: requests =>
      (config.checkRequest rate request).1 ::
        config.decisions (config.checkRequest rate request).2 requests

/-- The request passes the host, origin and token checks. -/
def Passes (config : AuthConfig) (request : TimedRequest) : Prop :=
  config.checkHeaders request.headers = .ok ()

instance (config : AuthConfig) (request : TimedRequest) : Decidable (config.Passes request) :=
  match h : config.checkHeaders request.headers with
  | .ok () => isTrue h
  | .error _ => isFalse fun hok => nomatch hok.symm.trans h

end AuthConfig

/-! ## Rate windows -/

/-- A rate window by its begin and the requests in it, with one more request. -/
def joinWindow (window : ℕ × List TimedRequest) (request : TimedRequest) :
    ℕ × List TimedRequest :=
  if request.Restarts window.1 then (request.restartAt, [request])
  else (window.1, window.2 ++ [request])

/-- The rate window that is open after the requests. -/
def openWindow (createdAt : ℕ) (requests : List TimedRequest) : ℕ × List TimedRequest :=
  requests.foldl joinWindow (createdAt, [])

/-- The requests that precede one in its rate window. -/
def precede (createdAt : ℕ) (earlier : List TimedRequest) (request : TimedRequest) :
    List TimedRequest :=
  if request.Restarts (openWindow createdAt earlier).1 then [] else (openWindow createdAt earlier).2

theorem openWindow_concat (createdAt : ℕ) (requests : List TimedRequest) (request : TimedRequest) :
    openWindow createdAt (requests ++ [request]) =
      joinWindow (openWindow createdAt requests) request := by
  simp [openWindow]

theorem openWindow_concat_snd (createdAt : ℕ) (requests : List TimedRequest)
    (request : TimedRequest) :
    (openWindow createdAt (requests ++ [request])).2 =
      precede createdAt requests request ++ [request] := by
  rw [openWindow_concat, joinWindow, precede]
  split <;> rfl

theorem RateWindow.allow_of_restarts {window : RateWindow} {request : TimedRequest}
    (h : request.Restarts window.windowStart) (perSecond : ℕ) :
    window.allow request perSecond = (decide (0 < perSecond), ⟨request.restartAt, 1⟩) := by
  simp only [allow, if_pos h]
  rfl

theorem RateWindow.allow_of_not_restarts {window : RateWindow} {request : TimedRequest}
    (h : ¬request.Restarts window.windowStart) (perSecond : ℕ) :
    window.allow request perSecond = (decide (window.count < perSecond),
      ⟨window.windowStart, (window.count + 1) % COUNT_BOUND⟩) := by
  simp only [allow, if_neg h]

namespace AuthConfig

theorem rateAfter_concat (config : AuthConfig) (rate : RateWindow) (requests : List TimedRequest)
    (request : TimedRequest) :
    config.rateAfter rate (requests ++ [request]) =
      (config.checkRequest (config.rateAfter rate requests) request).2 := by
  simp [rateAfter]

theorem rateAfter_append (config : AuthConfig) (rate : RateWindow)
    (requests later : List TimedRequest) :
    config.rateAfter rate (requests ++ later) =
      config.rateAfter (config.rateAfter rate requests) later := List.foldl_append

/-- The state of the limiter is the begin of the open window and the number of its requests. -/
theorem rateAfter_eq (config : AuthConfig) (createdAt : ℕ) (requests : List TimedRequest) :
    config.rateAfter (.new createdAt) requests =
      ⟨(openWindow createdAt requests).1,
        (openWindow createdAt requests).2.length % COUNT_BOUND⟩ := by
  induction requests using List.reverseRecOn with
  | nil => rfl
  | append_singleton requests request ih =>
      rw [rateAfter_concat, ih, openWindow_concat, joinWindow, checkRequest]
      by_cases h : request.Restarts (openWindow createdAt requests).1
      · rw [RateWindow.allow_of_restarts h, if_pos h]
        rfl
      · rw [RateWindow.allow_of_not_restarts h, if_neg h]
        simp only [List.length_append, List.length_singleton, Nat.mod_add_mod]

/-- The limiter leaves the decision to the headers as long as not too many requests precede. -/
theorem decision_eq (config : AuthConfig) (createdAt : ℕ) (earlier : List TimedRequest)
    (request : TimedRequest) :
    config.decision createdAt earlier request =
      if (precede createdAt earlier request).length % COUNT_BOUND < config.maxRequestsPerSecond then
        config.checkHeaders request.headers
      else .error (deny TOO_MANY_REQUESTS "rate limit".toList) := by
  rw [decision, rateAfter_eq, checkRequest, precede]
  by_cases h : request.Restarts (openWindow createdAt earlier).1
  · rw [RateWindow.allow_of_restarts h, if_pos h]
    exact if_congr (by simp) rfl rfl
  · rw [RateWindow.allow_of_not_restarts h, if_neg h]
    exact if_congr decide_eq_true_iff rfl rfl

theorem decision_eq_ok_iff (config : AuthConfig) (createdAt : ℕ) (earlier : List TimedRequest)
    (request : TimedRequest) :
    config.decision createdAt earlier request = .ok () ↔ config.Passes request ∧
      (precede createdAt earlier request).length % COUNT_BOUND < config.maxRequestsPerSecond := by
  rw [decision_eq]
  split
  · next hcount => exact (and_iff_left hcount).symm
  · next hcount => exact iff_of_false nofun fun h => hcount h.2

/-- Two histories of a request that passes the checks differ for it in its number alone. -/
theorem decision_unchanged_iff (config : AuthConfig) (createdAt : ℕ)
    (earlier other : List TimedRequest) {request : TimedRequest} (h : config.Passes request) :
    config.decision createdAt earlier request = config.decision createdAt other request ↔
      ((precede createdAt earlier request).length % COUNT_BOUND < config.maxRequestsPerSecond ↔
        (precede createdAt other request).length % COUNT_BOUND <
          config.maxRequestsPerSecond) := by
  rw [Passes] at h
  rw [decision_eq, decision_eq, h]
  split
  · next hearlier =>
    split
    · next hother => exact iff_of_true rfl (iff_of_true hearlier hother)
    · next hother => exact iff_of_false nofun fun hiff => hother (hiff.1 hearlier)
  · next hearlier =>
    split
    · next hother => exact iff_of_false nofun fun hiff => hearlier (hiff.2 hother)
    · next hother => exact iff_of_true rfl (iff_of_false hearlier hother)

theorem decisions_concat (config : AuthConfig) (rate : RateWindow) (requests : List TimedRequest)
    (request : TimedRequest) :
    config.decisions rate (requests ++ [request]) = config.decisions rate requests ++
      [(config.checkRequest (config.rateAfter rate requests) request).1] := by
  induction requests generalizing rate with
  | nil => rfl
  | cons first requests ih =>
      rw [List.cons_append, decisions, ih]
      rfl

theorem length_decisions (config : AuthConfig) (rate : RateWindow) (requests : List TimedRequest) :
    (config.decisions rate requests).length = requests.length := by
  induction requests generalizing rate with
  | nil => rfl
  | cons first requests ih => simp [decisions, ih]

/-- Only so many requests of a rate window are accepted. By induction on the requests of the
window, of which the ones before the last are a window too. -/
theorem accepted_le (config : AuthConfig) (createdAt : ℕ) (front members : List TimedRequest)
    (hwindow : (openWindow createdAt (front ++ members)).2 = members)
    (hlength : members.length ≤ COUNT_BOUND) :
    (config.decisions (config.rateAfter (.new createdAt) front) members).countP Except.isOk ≤
      config.maxRequestsPerSecond := by
  induction members using List.reverseRecOn with
  | nil => exact Nat.zero_le _
  | append_singleton members request ih =>
      rw [← List.append_assoc, openWindow_concat_snd] at hwindow
      have hprecede := (List.append_inj' hwindow rfl).1
      rw [List.length_append, List.length_singleton] at hlength
      have hmod : members.length % COUNT_BOUND = members.length := Nat.mod_eq_of_lt hlength
      have hdecision := config.decision_eq createdAt (front ++ members) request
      rw [hprecede, hmod, decision, rateAfter_append] at hdecision
      rw [decisions_concat, List.countP_append, List.countP_singleton, hdecision]
      split
      · next haccepted =>
        have hcount := List.countP_le_length (p := Except.isOk)
          (l := config.decisions (config.rateAfter (.new createdAt) front) members)
        rw [length_decisions] at hcount
        split <;> omega
      · next hdenied =>
        have hbefore : (config.decisions (config.rateAfter (.new createdAt) front)
            members).countP Except.isOk ≤ config.maxRequestsPerSecond := by
          by_cases h : request.Restarts (openWindow createdAt (front ++ members)).1
          · rw [precede, if_pos h] at hprecede
            rw [← hprecede]
            exact Nat.zero_le _
          · rw [precede, if_neg h] at hprecede
            exact ih hprecede (by omega)
        exact hbefore

end AuthConfig

/-- **What unauthenticated traffic can do to authenticated traffic.** A request is accepted when it
passes the checks and not too many requests of whatever kind precede it in its rate window. Deleting
the requests that fail a check leaves the decision of a remaining one unchanged exactly when this
number is small in both sequences or in neither. No more requests of a rate window are accepted than
the limit. -/
theorem checkRequest_decisions (config : AuthConfig) (createdAt : ℕ) :
    (∀ earlier request, config.decision createdAt earlier request = .ok () ↔
      config.Passes request ∧
        (precede createdAt earlier request).length % 2 ^ 64 < config.maxRequestsPerSecond) ∧
    (∀ earlier request, config.Passes request →
      (config.decision createdAt earlier request =
          config.decision createdAt (earlier.filter (config.Passes ·)) request ↔
        ((precede createdAt earlier request).length % 2 ^ 64 < config.maxRequestsPerSecond ↔
          (precede createdAt (earlier.filter (config.Passes ·)) request).length % 2 ^ 64 <
            config.maxRequestsPerSecond))) ∧
    ∀ front members, (openWindow createdAt (front ++ members)).2 = members →
      members.length ≤ 2 ^ 64 →
      (config.decisions (config.rateAfter (.new createdAt) front) members).countP Except.isOk ≤
        config.maxRequestsPerSecond :=
  ⟨config.decision_eq_ok_iff createdAt,
    fun earlier _ h => config.decision_unchanged_iff createdAt earlier _ h,
    config.accepted_le createdAt⟩

/-- A request that passes the checks of `AuthConfig.loopback`, if its token is presented. -/
def loopbackRequest (presented : Str) : TimedRequest where
  headers :=
    ⟨some (some "127.0.0.1:4127".toList), none, some (some ("Bearer ".toList ++ presented))⟩
  elapsedAt := 0
  restartAt := 0

/-- Requests at the time the limiter is made are one rate window. -/
theorem openWindow_replicate {request : TimedRequest} (h : ¬request.Restarts 0) (n : ℕ) :
    openWindow 0 (List.replicate n request) = (0, List.replicate n request) := by
  induction n with
  | zero => rfl
  | succ n ih => rw [List.replicate_succ', openWindow_concat, ih, joinWindow, if_neg h]

/-- When the count has wrapped, a request is accepted again. -/
theorem AuthConfig.accepted_of_wrapped {config : AuthConfig} {request : TimedRequest}
    (hlimit : config.maxRequestsPerSecond = 1) (hpasses : config.Passes request)
    (hstart : ¬request.Restarts 0) {n : ℕ} (hn : n % COUNT_BOUND = 0) :
    config.decision 0 (List.replicate n request) request = .ok () := by
  rw [decision_eq_ok_iff, precede, openWindow_replicate hstart, if_neg hstart,
    List.length_replicate, hn, hlimit]
  exact ⟨hpasses, Nat.zero_lt_one⟩

/-- So a rate window of that many requests and one more has two accepted ones. -/
theorem AuthConfig.lt_accepted_of_wrapped {config : AuthConfig} {request : TimedRequest}
    (hlimit : config.maxRequestsPerSecond = 1) (hpasses : config.Passes request)
    (hstart : ¬request.Restarts 0) {n : ℕ} (hn : (n + 1) % COUNT_BOUND = 0) :
    config.maxRequestsPerSecond <
      (config.decisions (.new 0) (List.replicate (n + 2) request)).countP Except.isOk := by
  have hfirst : (config.checkRequest (.new 0) request).1 = .ok () :=
    accepted_of_wrapped hlimit hpasses hstart (Nat.zero_mod COUNT_BOUND)
  have hlast := accepted_of_wrapped hlimit hpasses hstart hn
  rw [decision] at hlast
  rw [List.replicate_succ', decisions_concat, List.countP_append, hlast, List.replicate_succ,
    decisions, List.countP_cons_of_pos (by rw [hfirst]; rfl), hlimit]
  simp [Except.isOk, Except.toBool]

/-- After 20 requests with a wrong token in one second, a request with the right one is denied;
without them it is accepted. And a rate window that the count wraps in has one accepted request too
many. -/
theorem checkRequest_not_noninterfering :
    (let config := AuthConfig.loopback "secret-token".toList 4127
      let earlier := List.replicate 20 (loopbackRequest "wrong".toList)
      let request := loopbackRequest "secret-token".toList
      config.token ≠ [] ∧ config.Passes request ∧
        config.decision 0 earlier request = .error (deny TOO_MANY_REQUESTS "rate limit".toList) ∧
        config.decision 0 (earlier.filter (config.Passes ·)) request = .ok ()) ∧
    (let config := { AuthConfig.loopback "secret-token".toList 4127 with maxRequestsPerSecond := 1 }
      let requests := List.replicate (2 ^ 64 + 1) (loopbackRequest "secret-token".toList)
      (openWindow 0 requests).2 = requests ∧
        config.maxRequestsPerSecond < (config.decisions (.new 0) requests).countP Except.isOk) := by
  refine ⟨by decide, ?_, ?_⟩
  · rw [openWindow_replicate (by decide)]
  · exact AuthConfig.lt_accepted_of_wrapped rfl (by decide) (by decide) (by decide)

end Fndr
