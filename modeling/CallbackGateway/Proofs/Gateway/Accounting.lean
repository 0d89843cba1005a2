import CallbackGateway.Proofs.Gateway.OpenedPush
import CallbackGateway.Proofs.Http.WrittenTarget
import CallbackGateway.Proofs.Metrics.Totals
import CallbackGateway.Proofs.Signature.Accepted

/-!
# Accounting

A gateway with fresh metrics answers a session of requests. Each request that reaches the
handshakes or the pushes is counted under exactly one outcome, and the counters of failures and
of durations agree with the outcomes that they belong to. All counts wrap at 64 bits.

What can go wrong is a push that is counted under two outcomes: its own, and a failure to seal
the answer. This does not happen while the answers are short enough to be sealed, and it does
happen with a fallback of 2^32 characters.
-/

namespace CallbackGateway

open Http Metrics

/-- No failure has the code of an outcome of an opened push. -/
theorem GatewayError.code_not_mem_outcomes (error : GatewayError) :
    error.errorClass.code ∉ Gateway.outcomes := by
  cases error.errorClass <;> decide

/-! ## Counts of requests -/

namespace Metrics

variable (kind outcome : String) (metrics : Metrics)

/-- The number of requests of a kind that had an outcome. -/
def requestCount (kind outcome : String) (metrics : Metrics) : UInt64 :=
  metrics.get .requests [("kind", kind), ("outcome", outcome)]

/-- The number of requests of a kind, over all outcomes. -/
def requestSum (kind : String) (metrics : Metrics) : UInt64 :=
  metrics.sum .requests fun labels => labels.contains ("kind", kind)

/-- The number of failed signatures, over all modes. -/
def failedSignatures (metrics : Metrics) : UInt64 := metrics.sum .verifyFailures fun _ => true

/-- The number of payloads that were not decrypted or not decoded. -/
def failedReadings (metrics : Metrics) : UInt64 :=
  metrics.get .decodeErrors [("stage", "decrypt")] + metrics.get .decodeErrors [("stage", "decode")]

/-- The labels of a request are in order. -/
theorem arrange_kind_outcome :
    arrange [("kind", kind), ("outcome", outcome)] = [("kind", kind), ("outcome", outcome)] := by
  refine arrange_of_pairwise (List.pairwise_pair.mpr ?_)
  rw [labelInOrder, Bool.or_eq_true, decide_eq_true_iff]
  exact .inl (show "kind" < "outcome" by decide)

/-- What one request adds to the counts of requests. -/
theorem requestCount_countRequest (other result : String) :
    (countRequest kind outcome metrics).requestCount other result =
      metrics.requestCount other result + if other = kind ∧ result = outcome then 1 else 0 := by
  rw [countRequest, requestCount, get_increment, arrange_kind_outcome, arrange_kind_outcome,
    requestCount]
  simp

/-- What one request adds to the sum for its kind. -/
theorem requestSum_countRequest (other : String) :
    (countRequest kind outcome metrics).requestSum other =
      metrics.requestSum other + if other = kind then 1 else 0 := by
  rw [countRequest, requestSum, sum_increment, arrange_kind_outcome, requestSum]
  simp

/-- Counting a request counts no signature. -/
@[simp] theorem failedSignatures_countRequest :
    (countRequest kind outcome metrics).failedSignatures = metrics.failedSignatures := rfl

/-- Counting a request counts no reading. -/
@[simp] theorem failedReadings_countRequest :
    (countRequest kind outcome metrics).failedReadings = metrics.failedReadings := rfl

/-- Counting a request counts no duration. -/
@[simp] theorem durations_countRequest :
    (countRequest kind outcome metrics).durations = metrics.durations := rfl

/-- A failed signature counts, whatever the mode. -/
theorem failedSignatures_increment (mode : String) (metrics : Metrics) :
    (metrics.increment .verifyFailures [("mode", mode)]).failedSignatures =
      metrics.failedSignatures + 1 := by
  rw [failedSignatures, sum_increment, if_pos ⟨rfl, rfl⟩, failedSignatures]

/-- Counting a signature counts no reading. -/
@[simp] theorem failedReadings_increment_verifyFailures (labels : Labels) (metrics : Metrics) :
    (metrics.increment .verifyFailures labels).failedReadings = metrics.failedReadings := rfl

/-- A failed reading counts at either stage. -/
theorem failedReadings_increment {stage : String} (h : stage = "decrypt" ∨ stage = "decode")
    (metrics : Metrics) :
    (metrics.increment .decodeErrors [("stage", stage)]).failedReadings =
      metrics.failedReadings + 1 := by
  rw [failedReadings, get_increment, get_increment, failedReadings]
  rcases h with rfl | rfl <;> simp <;> ac_rfl

/-! ## Balanced counters -/

/-- The counters account for some handshakes and some pushes. -/
structure Accounts (handshakes pushes : Nat) (metrics : Metrics) : Prop where
  handshakes : metrics.requestSum "handshake" = UInt64.ofNat handshakes
  pushes : metrics.requestSum "push" = UInt64.ofNat pushes
  signatures : metrics.failedSignatures =
    metrics.requestCount "handshake" "AUTH_FAILED" + metrics.requestCount "push" "AUTH_FAILED"
  readings : metrics.failedReadings = metrics.requestCount "push" "DECODE_FAILED"
  durations : metrics.durations =
    metrics.requestCount "push" "reply" + metrics.requestCount "push" "ack" +
      metrics.requestCount "push" "timeout" + metrics.requestCount "push" "fallback"

namespace Accounts

variable {handshakes pushes : Nat} {metrics : Metrics}

/-- Fresh metrics account for nothing. -/
theorem fresh : Accounts 0 0 {} := ⟨rfl, rfl, rfl, rfl, rfl⟩

/-- One more request is accounted for if the other counters moved as its outcome asks. -/
theorem count {kind outcome : String} {moved : Metrics} (h : Accounts handshakes pushes metrics)
    (hkind : kind = "handshake" ∨ kind = "push") (hrequests : moved.requests = metrics.requests)
    (hsignatures : moved.failedSignatures =
      metrics.failedSignatures + if outcome = "AUTH_FAILED" then 1 else 0)
    (hreadings : moved.failedReadings =
      metrics.failedReadings + if kind = "push" ∧ outcome = "DECODE_FAILED" then 1 else 0)
    (hdurations : moved.durations =
      metrics.durations + if kind = "push" ∧ outcome ∈ Gateway.outcomes then 1 else 0) :
    Accounts (handshakes + if kind = "handshake" then 1 else 0)
      (pushes + if kind = "push" then 1 else 0) (countRequest kind outcome moved) := by
  have hcount (other result : String) : (countRequest kind outcome moved).requestCount other
      result = metrics.requestCount other result +
        if other = kind ∧ result = outcome then 1 else 0 := by
    rw [requestCount_countRequest, requestCount, get, counters, hrequests]
    rfl
  have hsum (other : String) : (countRequest kind outcome moved).requestSum other =
      metrics.requestSum other + if other = kind then 1 else 0 := by
    rw [requestSum_countRequest, requestSum, sum, counters, hrequests]
    rfl
  constructor
  · rw [hsum, h.handshakes, UInt64.ofNat_add]
    rcases hkind with rfl | rfl <;> simp
  · rw [hsum, h.pushes, UInt64.ofNat_add]
    rcases hkind with rfl | rfl <;> simp
  · rw [failedSignatures_countRequest, hsignatures, h.signatures, hcount, hcount]
    rcases hkind with rfl | rfl <;> by_cases houtcome : outcome = "AUTH_FAILED" <;>
      simp [houtcome, eq_comm] <;> ac_rfl
  · rw [failedReadings_countRequest, hreadings, h.readings, hcount]
    rcases hkind with rfl | rfl <;> simp [eq_comm]
  · rw [durations_countRequest, hdurations, h.durations, hcount, hcount, hcount, hcount]
    rcases hkind with rfl | rfl
    · simp
    · by_cases houtcome : outcome ∈ Gateway.outcomes
      · rw [if_pos ⟨rfl, houtcome⟩]
        simp only [Gateway.outcomes, List.mem_cons, List.not_mem_nil, or_false] at houtcome
        rcases houtcome with rfl | rfl | rfl | rfl <;> simp <;> ac_rfl
      · have hother : outcome ≠ "reply" ∧ outcome ≠ "ack" ∧ outcome ≠ "timeout" ∧
            outcome ≠ "fallback" := by
          simpa [Gateway.outcomes] using houtcome
        simp [houtcome, hother.1.symm, hother.2.1.symm, hother.2.2.1.symm, hother.2.2.2.symm]

/-- A handshake that succeeds is accounted for. -/
theorem handshake_ok (h : Accounts handshakes pushes metrics) :
    Accounts (handshakes + 1) pushes (CallbackGateway.countRequest "handshake" "ok" metrics) :=
  h.count (.inl rfl) rfl (by simp) (by simp) (by simp)

/-- A handshake that fails is accounted for. -/
theorem handshake_failure (h : Accounts handshakes pushes metrics) (error : GatewayError) :
    Accounts (handshakes + 1) pushes (countHandshakeFailure error metrics) := by
  cases error with
  | authFailed =>
    exact h.count (.inl rfl) rfl (failedSignatures_increment "plain" metrics) (by simp) (by simp)
  | badRequest | unknownApp | payload | decode | internal =>
    exact h.count (.inl rfl) rfl (UInt64.add_zero _).symm (by simp) (by simp)

/-- A push that fails is accounted for. -/
theorem push_failure (h : Accounts handshakes pushes metrics) (query : PushQuery)
    (error : GatewayError) :
    Accounts handshakes (pushes + 1) (countPushFailure query error metrics) := by
  have hcode := error.code_not_mem_outcomes
  cases error with
  | authFailed =>
    exact h.count (.inr rfl) rfl (failedSignatures_increment query.modeName metrics)
      (UInt64.add_zero _).symm (by simp [hcode])
  | payload =>
    exact h.count (.inr rfl) rfl (UInt64.add_zero _).symm
      (failedReadings_increment (.inl rfl) metrics) (by simp [hcode])
  | decode =>
    exact h.count (.inr rfl) rfl (UInt64.add_zero _).symm
      (failedReadings_increment (.inr rfl) metrics) (by simp [hcode])
  | badRequest | unknownApp | internal =>
    exact h.count (.inr rfl) rfl (UInt64.add_zero _).symm (UInt64.add_zero _).symm
      (by simp [hcode])

/-- An opened push is accounted for. -/
theorem push_opened (h : Accounts handshakes pushes metrics) (labels : Labels) (nanos : Nat)
    {outcome : String} (houtcome : outcome ∈ Gateway.outcomes) :
    Accounts handshakes (pushes + 1)
      (CallbackGateway.countRequest "push" outcome (metrics.observe labels nanos)) := by
  have hcodes : outcome ≠ "AUTH_FAILED" ∧ outcome ≠ "DECODE_FAILED" := by
    simp only [Gateway.outcomes, List.mem_cons, List.not_mem_nil, or_false] at houtcome
    rcases houtcome with rfl | rfl | rfl | rfl <;> decide
  refine h.count (.inr rfl) rfl ?_ ?_ ?_
  · simp [hcodes.1, failedSignatures]
  · simp [hcodes.2, failedReadings]
  · simp [houtcome]

end Accounts

end Metrics

/-! ## Sessions -/

/-- What a request asks of an app. -/
inductive Arrival
  | handshake (appId : String) (query : HandshakeQuery)
  | push (appId : String) (query : PushQuery)
  deriving DecidableEq, Repr

namespace Arrival

/-- What a request asks of the app in a segment, if its parameters can be read. -/
def ofPortal? (limits : Config.Limits) (segment : List Char) (target : Target)
    (request : Request) : Option Arrival :=
  if request.method = "GET" ∨ request.method = "HEAD" then do
    return .handshake (← segmentText? segment) (← handshakeQuery? (target.query.getD []))
  else if request.method = "POST" ∧ request.body.length ≤ limits.bodyLimit then do
    return .push (← segmentText? segment) (← pushQuery? (target.query.getD []))
  else none

/-- The handshake or the push that a request reaches, if it reaches one. -/
def ofRequest? (limits : Config.Limits) (request : Request) : Option Arrival :=
  match Target.parse? request.target with
  | none => none
  | some target =>
    match Route.ofPath? target.path with
    | some (.portal segment) => ofPortal? limits segment target request
    | _ => none

/-- Whether it is a handshake. -/
def isHandshake : Arrival → Bool
  | .handshake _ _ => true
  | .push _ _ => false

/-- Whether it is a push. -/
def isPush : Arrival → Bool
  | .handshake _ _ => false
  | .push _ _ => true

/-- Whether nothing is said about the encoding. -/
def isPlain : Arrival → Bool
  | .handshake _ _ => true
  | .push _ query => query.encryptType.isNone

end Arrival

/-- A request, with what its surroundings contribute to the answer. -/
structure Turn where
  moment : Moment
  handler : Handler
  request : Request

namespace Gateway

variable {gateway : Gateway} {turn : Turn}

/-- The gateway after a request; one whose target is invalid is not answered and leaves it alone. -/
def serve (gateway : Gateway) (turn : Turn) : Gateway :=
  match gateway.respond turn.moment turn.handler turn.request with
  | some (_, after) => after
  | none => gateway

/-- The gateway after a session of requests. -/
def run (gateway : Gateway) (session : List Turn) : Gateway := session.foldl serve gateway

/-- What the answer to a request leaves behind, by what the request reaches. -/
def after (gateway : Gateway) (turn : Turn) : Option Arrival → Gateway
  | some (.handshake appId query) => (gateway.handshake appId query).2
  | some (.push appId query) =>
    (gateway.push turn.moment turn.handler appId query
      (WireFormat.ofContentType turn.request.contentType) turn.request.body).2
  | none => gateway

/-- A handshake request leaves behind what the handshake that it reaches does. -/
theorem answerHandshake_snd (segment : List Char) (target : Target)
    (h : turn.request.method = "GET" ∨ turn.request.method = "HEAD") :
    (gateway.answerHandshake segment target).2 =
      gateway.after turn (Arrival.ofPortal? gateway.config.limits segment target turn.request) := by
  rw [answerHandshake, Arrival.ofPortal?, if_pos h]
  cases segmentText? segment with
  | none => rfl
  | some appId => cases handshakeQuery? (target.query.getD []) <;> rfl

/-- A push request leaves behind what the push that it reaches does. -/
theorem answerPush_snd (segment : List Char) (target : Target)
    (h : turn.request.method = "POST") :
    (gateway.answerPush turn.moment turn.handler segment target turn.request).2 =
      gateway.after turn (Arrival.ofPortal? gateway.config.limits segment target turn.request) := by
  have hget : ¬ (turn.request.method = "GET" ∨ turn.request.method = "HEAD") := by
    rw [h]
    decide
  rw [answerPush, Arrival.ofPortal?, if_neg hget]
  by_cases hlimit : gateway.config.limits.bodyLimit < turn.request.body.length
  · rw [if_neg fun hfits => Nat.not_lt.mpr hfits.2 hlimit]
    split
    · rw [if_pos hlimit]
      rfl
    · rfl
  · rw [if_pos ⟨h, Nat.le_of_not_lt hlimit⟩]
    cases segmentText? segment with
    | none => rfl
    | some appId =>
      cases pushQuery? (target.query.getD []) with
      | none => rfl
      | some query =>
        dsimp only
        rw [if_neg hlimit]
        rfl

/-- A request for an app leaves behind what it reaches there. -/
theorem answerRoute_portal_snd (segment : List Char) (target : Target) :
    (gateway.answerRoute turn.moment turn.handler (.portal segment) target turn.request).2 =
      gateway.after turn (Arrival.ofPortal? gateway.config.limits segment target turn.request) := by
  unfold answerRoute
  split
  · rename_i hmethod
    exact answerHandshake_snd segment target (.inl hmethod)
  · rename_i hmethod
    exact answerHandshake_snd segment target (.inr hmethod)
  · rename_i hmethod hroute
    cases hroute
    exact answerPush_snd segment target hmethod
  · rename_i hget hhead hpost
    rw [Arrival.ofPortal?, if_neg (not_or.mpr ⟨hget, hhead⟩), if_neg fun h => hpost _ h.1 rfl]
    rfl

/-- The addresses for operation only show the gateway. -/
theorem answerRoute_operation_snd {route : Route} (target : Target)
    (h : ∀ segment, route ≠ .portal segment) :
    (gateway.answerRoute turn.moment turn.handler route target turn.request).2 = gateway := by
  have hget : gateway.answerGet route target = (gateway.operation route, gateway) := by
    cases route with
    | portal segment => exact absurd rfl (h segment)
    | health | ping | ready | metrics => rfl
  unfold answerRoute
  split
  · rw [hget]
  · rw [hget]
  · exact absurd rfl (h _)
  · rfl

/-- A request changes the gateway only through the handshake or the push that it reaches. -/
theorem serve_eq_after (gateway : Gateway) (turn : Turn) :
    gateway.serve turn =
      gateway.after turn (Arrival.ofRequest? gateway.config.limits turn.request) := by
  rw [serve, respond, Arrival.ofRequest?]
  cases Target.parse? turn.request.target with
  | none => rfl
  | some target =>
    dsimp only [Option.map_some]
    cases Route.ofPath? target.path with
    | none => rfl
    | some route =>
      cases route with
      | portal segment => exact answerRoute_portal_snd segment target
      | health | ping | ready | metrics => exact answerRoute_operation_snd target nofun

/-- Whether the answers to a request are short enough to be sealed, if it is a sealed push that is
opened. -/
def TurnFits (gateway : Gateway) (turn : Turn) : Prop :=
  ∀ appId query credentials opened,
    Arrival.ofRequest? gateway.config.limits turn.request = some (.push appId query) →
    gateway.openPush appId query (WireFormat.ofContentType turn.request.contentType)
      turn.request.body = .ok (credentials, opened) →
    opened.encoding = .sealed → gateway.AnswersFit turn.moment turn.handler opened

/-- What was measured before does not matter to whether the answers to a request fit. -/
theorem turnFits_of_metrics (metrics : Metrics) (h : gateway.TurnFits turn) :
    ({ gateway with metrics } : Gateway).TurnFits turn := by
  intro appId query credentials opened harrival hopen hsealed
  have hfits := h appId query credentials opened harrival hopen hsealed
  exact ⟨hfits.time, hfits.reply, hfits.fallback⟩

/-- A request that reaches the pushes has a body within the limit. -/
theorem length_body_of_ofRequest? {limits : Config.Limits} {request : Request} {appId : String}
    {query : PushQuery} (h : Arrival.ofRequest? limits request = some (.push appId query)) :
    request.body.length ≤ limits.bodyLimit := by
  unfold Arrival.ofRequest? at h
  split at h
  · cases h
  · split at h
    · unfold Arrival.ofPortal? at h
      split at h
      · obtain ⟨segment, -, h⟩ := Option.bind_eq_some_iff.mp h
        obtain ⟨handshake, -, h⟩ := Option.bind_eq_some_iff.mp h
        cases h
      · split at h
        · rename_i hpost
          exact hpost.2
        · cases h
    · cases h

/-- Whether a request reaches something that satisfies a test. -/
def reaches (limits : Config.Limits) (test : Arrival → Bool) (turn : Turn) : Bool :=
  (Arrival.ofRequest? limits turn.request).any test

/-- One request keeps the counters balanced and touches nothing else. -/
theorem exists_serve_eq {handshakes pushes : Nat} (hfits : gateway.TurnFits turn)
    (h : gateway.metrics.Accounts handshakes pushes) :
    ∃ metrics : Metrics, gateway.serve turn = { gateway with metrics } ∧
      metrics.Accounts
        (handshakes + if reaches gateway.config.limits Arrival.isHandshake turn then 1 else 0)
        (pushes + if reaches gateway.config.limits Arrival.isPush turn then 1 else 0) := by
  rw [serve_eq_after, reaches, reaches]
  cases harrival : Arrival.ofRequest? gateway.config.limits turn.request with
  | none => exact ⟨gateway.metrics, rfl, h⟩
  | some arrival =>
    cases arrival with
    | handshake appId query =>
      rw [after, handshake]
      cases gateway.checkHandshake appId query with
      | ok => exact ⟨_, rfl, h.handshake_ok⟩
      | error error => exact ⟨_, rfl, h.handshake_failure error⟩
    | push appId query =>
      rw [after]
      cases hopen : gateway.openPush appId query (WireFormat.ofContentType
          turn.request.contentType) turn.request.body with
      | error error =>
        rw [push, hopen]
        exact ⟨_, rfl, h.push_failure query error⟩
      | ok result =>
        obtain ⟨credentials, opened⟩ := result
        have hseal := canSeal_of_answersFit hopen (fun _ => length_body_of_ofRequest? harrival)
          (hfits appId query credentials opened harrival hopen)
        obtain ⟨response, outcome, -, houtcome, hpush⟩ := exists_push_of_openPush hopen hseal
        rw [hpush]
        exact ⟨_, rfl, h.push_opened _ _ houtcome⟩

/-- A session keeps the counters balanced. -/
theorem accounts_run {session : List Turn} {handshakes pushes : Nat}
    (hfits : ∀ turn ∈ session, gateway.TurnFits turn)
    (h : gateway.metrics.Accounts handshakes pushes) :
    (gateway.run session).metrics.Accounts
      (handshakes + session.countP (reaches gateway.config.limits Arrival.isHandshake))
      (pushes + session.countP (reaches gateway.config.limits Arrival.isPush)) := by
  induction session generalizing gateway handshakes pushes with
  | nil => exact h
  | cons turn rest ih =>
    obtain ⟨metrics, hserve, haccounts⟩ := exists_serve_eq (hfits turn List.mem_cons_self) h
    have hrest : ∀ later ∈ rest, ({ gateway with metrics } : Gateway).TurnFits later :=
      fun later hlater =>
        turnFits_of_metrics metrics (hfits later (List.mem_cons_of_mem turn hlater))
    rw [run, List.foldl_cons, hserve, List.countP_cons, List.countP_cons,
      Nat.add_comm (rest.countP _), Nat.add_comm (rest.countP _), ← Nat.add_assoc,
      ← Nat.add_assoc]
    exact ih hrest haccounts

/-- Metrics account for every request. At every point of a session that starts with fresh metrics,
each handshake and each push that was reached is counted under exactly one outcome, and the
counters of failed signatures, of failed readings and of durations agree with those counts. Only
sealed pushes need a limit on their answers. -/
theorem session_is_accounted (config : Config) (store : CredentialStore) (session : List Turn)
    (hfits : ∀ turn ∈ session, ({ config, store } : Gateway).TurnFits turn)
    (past : List Turn) (hpast : past <+: session) :
    let metrics := (({ config, store } : Gateway).run past).metrics
    metrics.requestSum "push" =
      UInt64.ofNat (past.countP (reaches config.limits Arrival.isPush)) ∧
    metrics.requestSum "handshake" =
      UInt64.ofNat (past.countP (reaches config.limits Arrival.isHandshake)) ∧
    metrics.failedSignatures =
      metrics.requestCount "handshake" "AUTH_FAILED" + metrics.requestCount "push" "AUTH_FAILED" ∧
    metrics.failedReadings = metrics.requestCount "push" "DECODE_FAILED" ∧
    metrics.durations =
      metrics.requestCount "push" "reply" + metrics.requestCount "push" "ack" +
        metrics.requestCount "push" "timeout" + metrics.requestCount "push" "fallback" := by
  have haccounts := accounts_run (fun turn hturn => hfits turn (hpast.subset hturn))
    Accounts.fresh
  rw [Nat.zero_add, Nat.zero_add] at haccounts
  exact ⟨haccounts.pushes, haccounts.handshakes, haccounts.signatures, haccounts.readings,
    haccounts.durations⟩

/-- A signed plain push of an empty object, and a handshake without a valid signature. -/
def sampleSession : List Turn :=
  let target (parameters : String) : List Char := ("/v1/portal/wx0001?" ++ parameters).toList
  let signature := "c33f2dc9b01cd417299e09146ec6d150761c0763"
  let turn (request : Request) : Turn := ⟨⟨5, .filled 2⟩, crashing, request⟩
  [turn ⟨"POST", target ("timestamp=1&nonce=n&signature=" ++ signature),
      [("content-type", "application/json")], [0x7B, 0x7D]⟩,
    turn ⟨"GET", target "timestamp=1&nonce=n&signature=0&echostr=e", [], []⟩]

/-- A push that names no encoding is answered without sealing. -/
theorem turnFits_of_isPlain
    (h : (Arrival.ofRequest? gateway.config.limits turn.request).all Arrival.isPlain = true) :
    gateway.TurnFits turn := by
  intro appId query credentials opened harrival hopen hsealed
  rw [harrival] at h
  have hplain : query.encryptType = none := Option.isNone_iff_eq_none.mp h
  have hencoding := (PushQuery.authentic_of_openPush (openPush_eq_ok hopen).2).1
  rw [PushQuery.encoding, hplain, hsealed] at hencoding
  cases hencoding

/-- The parameters of a sealed push for the app of the sample, as they are written. -/
def sealedParameters (ciphertext : String) : List (String × String) :=
  [("timestamp", "1"), ("nonce", "n"),
    ("msg_signature", Signature.sign ["token", "1", "n", ciphertext]), ("encrypt_type", "aes")]

/-- A request that pushes a ciphertext for the app of the sample. -/
def sealedTurn (handler : Handler) (ciphertext : String) : Turn where
  moment := ⟨5, .filled 2⟩
  handler := handler
  request := ⟨"POST", portalTarget "wx0001" (sealedParameters ciphertext),
    [("content-type", "application/json")], Envelope.Wrapper.encode .json ⟨"", ciphertext⟩⟩

/-- A signature needs no encoding. -/
theorem isPlainPair_sealedParameters (ciphertext : String) :
    ∀ pair ∈ sealedParameters ciphertext, IsPlainPair pair := by
  have hdigits : Text.Hex.digits.all isPlainChar = true := by decide
  have hsignature : IsPlainPair
      ("msg_signature", Signature.sign ["token", "1", "n", ciphertext]) :=
    ⟨show IsPlainText "msg_signature" by decide,
      fun c hc => List.all_eq_true.mp hdigits c (Signature.mem_digits_of_mem_sign hc)⟩
  have hothers : IsPlainPair ("timestamp", "1") ∧ IsPlainPair ("nonce", "n") ∧
      IsPlainPair ("encrypt_type", "aes") := by decide +kernel
  simp only [sealedParameters, List.forall_mem_cons]
  exact ⟨hothers.1, hothers.2.1, hsignature, hothers.2.2, by simp⟩

/-- A sealed push of the sample is in JSON. -/
theorem format_sealedTurn (handler : Handler) (ciphertext : String) :
    WireFormat.ofContentType (sealedTurn handler ciphertext).request.contentType = .json := by
  -- Only the headers matter, and they are closed.
  have htype : (sealedTurn handler ciphertext).request.contentType =
      (Request.mk "" [] [("content-type", "application/json")] []).contentType := rfl
  rw [htype]
  decide +kernel

/-- The target of a sealed push is read as it was written. -/
theorem ofRequest?_sealedTurn {limits : Config.Limits} {handler : Handler} {ciphertext : String}
    (h : (Envelope.Wrapper.encode .json ⟨"", ciphertext⟩).length ≤ limits.bodyLimit) :
    Arrival.ofRequest? limits (sealedTurn handler ciphertext).request =
      some (.push "wx0001" (sealedQuery ciphertext)) := by
  have happ : IsPlainText "wx0001" := by decide
  have hpairs := isPlainPair_sealedParameters ciphertext
  have hshort : 4 * (portalTarget "wx0001" (sealedParameters ciphertext)).length ≤
      Target.longest := by
    have hlength := length_portalTarget_le "wx0001" (sealedParameters ciphertext)
    have hsignature := Signature.length_sign ["token", "1", "n", ciphertext]
    have hlengths : "wx0001".length = 6 ∧ "timestamp".length = 9 ∧ "1".length = 1 ∧
        "nonce".length = 5 ∧ "n".length = 1 ∧ "msg_signature".length = 13 ∧
        "encrypt_type".length = 12 ∧ "aes".length = 3 := by decide
    simp only [sealedParameters, sizeSum_cons, sizeSum_nil, hlengths, hsignature] at hlength
    rw [sealedParameters, Target.longest]
    omega
  have htarget := parse?_portalTarget happ hpairs hshort
  have hquery : pushQuery? (writeQuery (sealedParameters ciphertext)) =
      some (sealedQuery ciphertext) := by
    rw [pushQuery?, formPairs_writeQuery hpairs]
    rfl
  have hget : ¬ ("POST" = "GET" ∨ "POST" = "HEAD") := by decide
  have hpost : "POST" = "POST" ∧
      (Envelope.Wrapper.encode .json ⟨"", ciphertext⟩).length ≤ limits.bodyLimit := ⟨rfl, h⟩
  rw [Arrival.ofRequest?, sealedTurn]
  dsimp only
  rw [htarget]
  dsimp only
  rw [ofPath?_portalPath happ (by decide)]
  dsimp only
  rw [Arrival.ofPortal?, if_neg hget, if_pos hpost, segmentText?_plain happ, Option.getD_some,
    hquery]
  rfl

/-- The answers to a sealed push of the sample fit if the reply to it does. -/
theorem turnFits_sealedTurn {handler : Handler} {ciphertext : String} {message : Message}
    (hbody : (Envelope.Wrapper.encode .json ⟨"", ciphertext⟩).length ≤
      sample.config.limits.bodyLimit)
    (hopen : sample.openPush "wx0001" (sealedQuery ciphertext) .json
      (Envelope.Wrapper.encode .json ⟨"", ciphertext⟩) =
      .ok (⟨"wx0001", "token", some (.filled 7), .compatible⟩, ⟨message, .json, .sealed⟩))
    (hreply : ∀ reply encoded, (handler 5 message).ending = .decided (.reply reply) →
      reply.encode .json = .ok encoded → encoded.length < 2 ^ 32) :
    sample.TurnFits (sealedTurn handler ciphertext) := by
  intro appId query credentials opened harrival hopened _
  rw [ofRequest?_sealedTurn hbody] at harrival
  obtain ⟨rfl, rfl⟩ := Arrival.push.inj (Option.some.inj harrival)
  rw [format_sealedTurn] at hopened
  obtain ⟨-, rfl⟩ := Prod.mk.inj (Except.ok.inj (hopen.symm.trans hopened))
  exact ⟨show Text.IntegerRange.signed64.Contains 5 by decide, hreply, fallbackFits_sample⟩

/-- A handler that greets whoever wrote. -/
def greeting : Handler := fun time message =>
  ⟨0, .decided (.reply (.answering message.header time (.text "hello")))⟩

/-- A plain push, a handshake, and two sealed pushes, one of which is greeted and one of which has
no result, are counted once each. -/
theorem session_is_accounted_sample : ∃ ciphertext,
    let session := sealedTurn greeting ciphertext :: sealedTurn crashing ciphertext :: sampleSession
    Payload.encrypt (.filled 7) (.filled 1) [0x7B, 0x7D] "wx0001" = .ok ciphertext ∧
    (sample.run session).metrics.requestSum "push" = 3 ∧
    (sample.run session).metrics.requestSum "handshake" = 1 := by
  obtain ⟨ciphertext, hseal, hlength, hopen⟩ :=
    exists_openPush_sealed (show sample.store = sample.store from rfl) decode_empty_object
      (by decide)
  have hbody : (Envelope.Wrapper.encode .json ⟨"", ciphertext⟩).length ≤
      sample.config.limits.bodyLimit := Nat.le_trans hlength (by decide)
  have hgreeting : sample.TurnFits (sealedTurn greeting ciphertext) := by
    refine turnFits_sealedTurn hbody hopen fun reply encoded hending hencoded => ?_
    obtain rfl := Outcome.reply.inj (HandlerEnding.decided.inj hending)
    obtain rfl := Except.ok.inj hencoded
    decide +kernel
  have hcrashing : sample.TurnFits (sealedTurn crashing ciphertext) :=
    turnFits_sealedTurn hbody hopen fun reply encoded hending _ => nomatch hending
  have hplain : ∀ turn ∈ sampleSession, sample.TurnFits turn := by
    have hall : sampleSession.all (fun turn =>
        (Arrival.ofRequest? sample.config.limits turn.request).all Arrival.isPlain) = true := by
      decide +kernel
    exact fun turn hturn => turnFits_of_isPlain (List.all_eq_true.mp hall turn hturn)
  have hfits : ∀ turn ∈ sealedTurn greeting ciphertext :: sealedTurn crashing ciphertext ::
      sampleSession, sample.TurnFits turn := by
    simp only [List.forall_mem_cons]
    exact ⟨hgreeting, hcrashing, hplain⟩
  have hsealed (handler : Handler) (test : Arrival → Bool) :
      reaches sample.config.limits test (sealedTurn handler ciphertext) =
        test (.push "wx0001" (sealedQuery ciphertext)) := by
    rw [reaches, ofRequest?_sealedTurn hbody, Option.any_some]
  have hcounts : sampleSession.countP (reaches sample.config.limits Arrival.isPush) = 1 ∧
      sampleSession.countP (reaches sample.config.limits Arrival.isHandshake) = 1 := by
    decide +kernel
  obtain ⟨hpush, hhandshake, -⟩ := session_is_accounted sample.config sample.store _ hfits _
    List.prefix_rfl
  rw [List.countP_cons, List.countP_cons, hsealed, hsealed, hcounts.1] at hpush
  rw [List.countP_cons, List.countP_cons, hsealed, hsealed, hcounts.2] at hhandshake
  exact ⟨ciphertext, hseal, hpush, hhandshake⟩

/-- A failed push is counted as one push. -/
theorem requestSum_countPushFailure (query : PushQuery) (error : GatewayError)
    (metrics : Metrics) :
    (countPushFailure query error metrics).requestSum "push" = metrics.requestSum "push" + 1 := by
  cases error <;> exact requestSum_countRequest "push" _ _ "push"

/-- An opened push is counted as one push. -/
theorem requestSum_measured (opened : OpenedPush) (handling : Handling) (outcome : String) :
    (gateway.measured opened handling outcome).metrics.requestSum "push" =
      gateway.metrics.requestSum "push" + 1 :=
  requestSum_countRequest "push" outcome _ "push"

/-- A fallback of 2^32 characters makes one push count twice. -/
theorem long_fallback_counts_twice : ∃ ciphertext,
    let session := [sealedTurn crashing ciphertext]
    Payload.encrypt (.filled 7) (.filled 1) [0x7B, 0x7D] "wx0001" = .ok ciphertext ∧
    session.countP (reaches (longWinded (2 ^ 32)).config.limits Arrival.isPush) = 1 ∧
    ((longWinded (2 ^ 32)).run session).metrics.requestSum "push" = 2 := by
  obtain ⟨ciphertext, hseal, hlength, hopen⟩ := exists_openPush_sealed
    (show (longWinded (2 ^ 32)).store = sample.store from rfl) decode_empty_object (by decide)
  have hbody : (Envelope.Wrapper.encode .json ⟨"", ciphertext⟩).length ≤
      (longWinded (2 ^ 32)).config.limits.bodyLimit :=
    Nat.le_trans hlength (show 32 * 2 + 1700 ≤ sample.config.limits.bodyLimit by decide)
  have harrival : Arrival.ofRequest? (longWinded (2 ^ 32)).config.limits
      (sealedTurn crashing ciphertext).request = some (.push "wx0001" (sealedQuery ciphertext)) :=
    ofRequest?_sealedTurn hbody
  refine ⟨ciphertext, hseal, ?_, ?_⟩
  · rw [List.countP_singleton, reaches, harrival]
    rfl
  · obtain ⟨found, hpush⟩ := push_longWinded hopen rfl
    have hserve : (longWinded (2 ^ 32)).serve (sealedTurn crashing ciphertext) =
        (((longWinded (2 ^ 32)).measured ⟨Message.ofFields [], .json, .sealed⟩ ⟨0, .crashed⟩
          "fallback").refusePush (sealedQuery ciphertext)
          (.payload (.lengthField found 4294967295))).2 := by
      rw [serve_eq_after, harrival, after, format_sealedTurn]
      exact congrArg Prod.snd hpush
    rw [run, List.foldl_cons, List.foldl_nil, hserve, refusePush, measure,
      requestSum_countPushFailure, requestSum_measured]
    rfl

end Gateway

end CallbackGateway
