import CallbackGateway.Config.Read
import CallbackGateway.Proofs.Config.Validation
import CallbackGateway.Proofs.Gateway.Accounting
import CallbackGateway.Proofs.Json.ReadBack

/-!
# Failures

A request may fail, but a gateway of a valid configuration is not to blame: no response reports
an internal error. The causes of internal errors are an app that takes sealed pushes without a
key, which the configuration excludes, and a reply that cannot be written, which is replaced by
the fallback. A reply that is too long to be sealed counts as a failure of the payload.
-/

namespace CallbackGateway

open Http

/-! ## Internal errors -/

/-- Whether something does not fail inside the gateway. -/
def NoInternal {α : Type} (result : Except GatewayError α) : Prop :=
  ∀ cause, result ≠ .error (.internal cause)

namespace NoInternal

variable {α β ε : Type}

/-- A result is no failure. -/
theorem ok (a : α) : NoInternal (.ok a) := fun _ => nofun

/-- Steps without internal failures have none together. -/
theorem bind {result : Except GatewayError α} {next : α → Except GatewayError β}
    (h : NoInternal result) (hnext : ∀ a, NoInternal (next a)) :
    NoInternal (result.bind next) := by
  cases result with
  | ok a => exact hnext a
  | error error =>
    intro cause hcause
    exact h cause (congrArg Except.error (Except.error.inj hcause))

/-- What is done with a result cannot fail. -/
theorem map {result : Except GatewayError α} (h : NoInternal result) (f : α → β) :
    NoInternal (result.map f) := by
  cases result with
  | ok a => exact ok (f a)
  | error error =>
    intro cause hcause
    exact h cause (congrArg Except.error (Except.error.inj hcause))

/-- Nothing fails inside if all its errors are given a cause outside. -/
theorem mapError (f : ε → GatewayError) (hf : ∀ error cause, f error ≠ .internal cause)
    (result : Except ε α) : NoInternal (result.mapError f) := by
  cases result with
  | ok a => exact ok a
  | error error => exact fun cause hcause => hf error cause (Except.error.inj hcause)

/-- What fails has a cause in another class. -/
theorem errorClass_ne {error : GatewayError} (h : NoInternal (.error error : Except _ α)) :
    error.errorClass ≠ .internal := by
  cases error with
  | internal cause => exact absurd rfl (h cause)
  | badRequest | authFailed | unknownApp | payload | decode => exact nofun

end NoInternal

namespace PushQuery

variable {query : PushQuery} {credentials : Credentials} {format : WireFormat} {body : Bytes}

/-- The check of a plain signature fails for its own reason only. -/
theorem noInternal_checkPlain : NoInternal (query.checkPlain credentials) := by
  intro cause
  unfold checkPlain
  split
  · split <;> exact nofun
  · exact nofun

/-- The check of a signature over a ciphertext fails for its own reason only. -/
theorem noInternal_checkSealed (ciphertext : String) :
    NoInternal (query.checkSealed credentials ciphertext) := by
  intro cause
  unfold checkSealed
  split
  · split <;> exact nofun
  · exact nofun

/-- A plain push does not fail inside. -/
theorem noInternal_openPlain : NoInternal (query.openPlain credentials format body) := by
  cases hmode : credentials.mode.acceptsPlain with
  | false =>
    rw [openPlain_of_not_accepts hmode]
    exact fun cause => nofun
  | true =>
    rw [openPlain_of_accepts hmode]
    exact noInternal_checkPlain.bind fun _ => .mapError .decode (fun _ => nofun) _

/-- The key of an app that takes sealed pushes is there when it is needed. -/
theorem noInternal_openSealed
    (hkey : credentials.mode.acceptsSealed = true → credentials.key.isSome = true) :
    NoInternal (query.openSealed credentials format body) := by
  cases hmode : credentials.mode.acceptsSealed with
  | false =>
    rw [openSealed_of_not_accepts hmode]
    exact fun cause => nofun
  | true =>
    obtain ⟨key, hkey⟩ := Option.isSome_iff_exists.mp (hkey hmode)
    rw [openSealed_of_accepts hmode hkey]
    exact (NoInternal.mapError .decode (fun _ => nofun) _).bind fun wrapper =>
      (noInternal_checkSealed wrapper.ciphertext).bind fun _ =>
        (NoInternal.mapError .payload (fun _ => nofun) _).bind fun _ =>
          .mapError .decode (fun _ => nofun) _

/-- A push does not fail inside, if an app that accepts sealed ones has a key. -/
theorem noInternal_openPush
    (hkey : credentials.mode.acceptsSealed = true → credentials.key.isSome = true) :
    NoInternal (query.openPush credentials format body) := by
  unfold openPush
  split
  · exact fun cause => nofun
  · exact noInternal_openPlain.map _
  · exact (noInternal_openSealed hkey).map _

/-- What was opened sealed was opened with a key, so the reply finds it too. -/
theorem noInternal_sealReply {opened : OpenedPush} (time : Int) (salt : Aes.Block) (reply : Bytes)
    (h : query.openPush credentials format body = .ok opened) :
    NoInternal (query.sealReply credentials opened.encoding opened.format time salt reply) := by
  unfold sealReply
  split
  · exact .ok reply
  · rename_i hsealed
    obtain ⟨key, hkey⟩ := exists_key_of_openPush h hsealed
    rw [hkey]
    exact (NoInternal.mapError .payload (fun _ => nofun) _).map _

end PushQuery

/-! ## Reported failures -/

namespace Http.Response

/-- The code that a response reports, if it reports a failure. -/
def failureCode? (response : Response) : Option String :=
  if response.status < 400 then none
  else
    match Json.Value.read? response.body with
    | some (.object members) =>
      match members.lookup "code" with
      | some (.string code) => some code
      | _ => none
    | _ => none

/-- Whether a response does not report an internal error. -/
structure IsServed (response : Response) : Prop where
  status : response.status ≠ 500
  code : response.failureCode? ≠ some "INTERNAL"

/-- A response that is no failure reports none. -/
theorem IsServed.of_ok {response : Response} (h : response.status = 200) :
    response.IsServed := by
  refine ⟨by omega, ?_⟩
  rw [failureCode?, if_pos (by omega)]
  exact nofun

/-- A response that holds no value reports no code. -/
theorem IsServed.of_read? {response : Response} (hstatus : response.status ≠ 500)
    (h : Json.Value.read? response.body = none) : response.IsServed := by
  refine ⟨hstatus, ?_⟩
  rw [failureCode?, h]
  split <;> exact nofun

/-- No bytes are no value. -/
theorem read?_nil : Json.Value.read? [] = none := by decide +kernel

end Http.Response

/-- The code of a failure is read back from the response that reports it. -/
theorem GatewayError.failureCode?_response (error : GatewayError) :
    error.response.failureCode? = some error.errorClass.code := by
  have hread : Json.Value.read? error.response.body = some (.object
      [("code", .string error.errorClass.code), ("msg", .string error.shown)]) := by
    have hsorted : Json.Sorted
        [("code", .string error.errorClass.code), ("msg", .string error.shown)] :=
      List.pairwise_pair.mpr (show "code" < "msg" by decide)
    rw [response, hsorted.ofMembers_eq]
    refine Json.Stable.read?_toBytes (.object hsorted fun key value hmem => ?_)
    rcases List.mem_pair.mp hmem with h | h <;> cases h <;> exact .string _
  have hstatus : ¬ error.response.status < 400 := by
    dsimp only [response]
    cases error.errorClass <;> exact nofun
  rw [Response.failureCode?, if_neg hstatus, hread]
  rfl

/-- A failure that is not inside the gateway is reported as such. -/
theorem GatewayError.isServed_response {error : GatewayError} (h : error.errorClass ≠ .internal) :
    error.response.IsServed := by
  constructor
  · dsimp only [response]
    cases hclass : error.errorClass with
    | internal => exact absurd hclass h
    | badRequest | authFailed | unknownApp | decodeFailed => exact nofun
  · rw [failureCode?_response]
    cases hclass : error.errorClass with
    | internal => exact absurd hclass h
    | badRequest | authFailed | unknownApp | decodeFailed => exact nofun

/-! ## Answers -/

namespace Gateway

variable {gateway : Gateway} {moment : Moment} {handler : Handler} {appId : String}
  {query : PushQuery} {credentials : Credentials} {opened : OpenedPush}

/-- Whether an answer is no internal error and leaves the apps of a gateway as they are. -/
structure Serves (gateway : Gateway) (answer : Response × Gateway) : Prop where
  response : answer.1.IsServed
  store : answer.2.store = gateway.store

/-- An app that is not found is no internal failure. -/
theorem noInternal_credentials (appId : String) : NoInternal (gateway.credentials appId) := by
  intro cause
  unfold Gateway.credentials
  split <;> exact nofun

/-- Handshakes are answered with their echo, or fail for a cause outside. -/
theorem serves_handshake (appId : String) (query : HandshakeQuery) :
    gateway.Serves (gateway.handshake appId query) := by
  have hcheck : NoInternal (gateway.checkHandshake appId query) :=
    (noInternal_credentials appId).bind fun credentials cause => by
      unfold HandshakeQuery.check
      split <;> exact nofun
  unfold handshake
  split
  · exact ⟨.of_ok rfl, rfl⟩
  · rename_i error herror
    exact ⟨error.isServed_response (herror ▸ hcheck).errorClass_ne, rfl⟩

/-- A push is only refused for a cause outside. -/
theorem serves_refusePush {error : GatewayError} (h : error.errorClass ≠ .internal) :
    gateway.Serves (gateway.refusePush query error) :=
  ⟨GatewayError.isServed_response h, rfl⟩

/-- A reply to an opened push is sent or refused, but does not fail inside. -/
theorem serves_sendReply {format : WireFormat} {body : Bytes} (reply : Bytes)
    (h : query.openPush credentials format body = .ok opened) :
    gateway.Serves (gateway.sendReply moment query credentials opened reply) := by
  have hseal := PushQuery.noInternal_sealReply moment.time moment.salt reply h
  unfold sendReply
  split
  · exact ⟨.of_ok rfl, rfl⟩
  · rename_i error herror
    exact serves_refusePush (herror ▸ hseal).errorClass_ne

/-- Whatever the work comes to, an opened push is answered. -/
theorem serves_conclude {format : WireFormat} {body : Bytes} (completion : Completion)
    (h : query.openPush credentials format body = .ok opened) :
    gateway.Serves (gateway.conclude moment query credentials opened completion) := by
  cases completion with
  | reply reply => exact ⟨(serves_sendReply reply h).response, (serves_sendReply reply h).store⟩
  | noReply => exact ⟨.of_ok rfl, rfl⟩
  | timedOut => exact ⟨.of_ok rfl, rfl⟩
  | failed reason =>
    obtain ⟨reply, hreply⟩ := gateway.config.replies.exists_encode_fallbackReply moment.time
      opened.message.header opened.format
    rw [conclude, hreply]
    exact ⟨(serves_sendReply reply h).response, (serves_sendReply reply h).store⟩

/-- A request that only asks is answered from what there is. -/
theorem serves_answerGet (route : Route) (target : Target) :
    gateway.Serves (gateway.answerGet route target) := by
  cases route with
  | portal segment =>
    have hblank : (Response.blank 400).status ≠ 500 := by decide
    rw [answerGet, answerHandshake]
    split
    · exact serves_handshake _ _
    · exact ⟨.of_read? hblank Response.read?_nil, rfl⟩
  | health | ping | metrics => exact ⟨.of_ok rfl, rfl⟩
  | ready =>
    have hdraining : Json.Value.read? (Text.Utf8.encodeString "draining") = none := by
      decide +kernel
    have hstatus : (Response.text 503 plainText "draining").status ≠ 500 := by decide
    have hanswer : gateway.answerGet .ready target = (gateway.operation .ready, gateway) := rfl
    rw [hanswer, operation]
    split
    · exact ⟨.of_read? hstatus hdraining, rfl⟩
    · exact ⟨.of_ok rfl, rfl⟩

variable (hkeys : gateway.store.HasKeys)

include hkeys

/-- A gateway whose apps have their keys opens pushes without internal failures. -/
theorem noInternal_openPush (format : WireFormat) (body : Bytes) :
    NoInternal (gateway.openPush appId query format body) := by
  unfold openPush Gateway.credentials
  cases hfound : gateway.store.find? appId with
  | none => exact fun cause => nofun
  | some credentials =>
    exact (PushQuery.noInternal_openPush (hkeys appId credentials hfound)).bind
      fun opened => .ok (credentials, opened)

/-- Every push is served. -/
theorem serves_push (format : WireFormat) (body : Bytes) :
    gateway.Serves (gateway.push moment handler appId query format body) := by
  have hopen : NoInternal (gateway.openPush appId query format body) :=
    noInternal_openPush hkeys format body
  unfold push
  split
  · rename_i error herror
    exact serves_refusePush (herror ▸ hopen).errorClass_ne
  · rename_i credentials opened hopened
    obtain ⟨-, hopened⟩ := openPush_eq_ok hopened
    exact ⟨(serves_conclude _ hopened).response, (serves_conclude _ hopened).store⟩

/-- Every push request is served. -/
theorem serves_answerPush (segment : List Char) (target : Target) (request : Request) :
    gateway.Serves (gateway.answerPush moment handler segment target request) := by
  unfold answerPush
  split
  · split
    · exact ⟨.of_read? nofun Response.read?_nil, rfl⟩
    · exact serves_push hkeys _ _
  · exact ⟨.of_read? nofun Response.read?_nil, rfl⟩

/-- Without its body, a response reports no code. -/
theorem serves_answerRoute (route : Route) (target : Target) (request : Request) :
    gateway.Serves (gateway.answerRoute moment handler route target request) := by
  have hget : gateway.Serves (gateway.answerGet route target) := serves_answerGet route target
  unfold answerRoute
  split
  · exact hget
  · exact ⟨.of_read? hget.response.status Response.read?_nil, hget.store⟩
  · exact serves_answerPush hkeys _ _ _
  · exact ⟨.of_read? nofun Response.read?_nil, rfl⟩

/-- No request is answered with an internal error, and the apps stay as they are. -/
theorem serves_respond {request : Request} {answer : Response × Gateway}
    (h : gateway.respond moment handler request = some answer) : gateway.Serves answer := by
  obtain ⟨target, -, rfl⟩ := Option.map_eq_some_iff.mp h
  split
  · exact serves_answerRoute hkeys _ _ _
  · exact ⟨.of_read? nofun Response.read?_nil, rfl⟩

/-! ## Sessions -/

omit hkeys

/-- The responses to a session of requests; one whose target is invalid gets none. -/
def responses (gateway : Gateway) : List Turn → List Response
  | [] => []
  | turn :: rest =>
    ((gateway.respond turn.moment turn.handler turn.request).map Prod.fst).toList ++
      (gateway.serve turn).responses rest

include hkeys

/-- One request is answered without an internal error, and the apps stay as they are. -/
theorem serve_serves (turn : Turn) :
    (∀ response ∈ ((gateway.respond turn.moment turn.handler turn.request).map Prod.fst).toList,
      response.IsServed) ∧ (gateway.serve turn).store = gateway.store := by
  rw [serve]
  cases hrespond : gateway.respond turn.moment turn.handler turn.request with
  | none => exact ⟨fun response hmem => absurd hmem List.not_mem_nil, rfl⟩
  | some answer =>
    have hserves := serves_respond hkeys hrespond
    refine ⟨fun response hmem => ?_, hserves.store⟩
    obtain rfl := List.mem_singleton.mp hmem
    exact hserves.response

/-- No session gets to an internal error. -/
theorem isServed_of_mem_responses {session : List Turn} {response : Response}
    (h : response ∈ gateway.responses session) : response.IsServed := by
  induction session generalizing gateway with
  | nil => exact absurd h List.not_mem_nil
  | cons turn rest ih =>
    obtain ⟨hserved, hstore⟩ := serve_serves hkeys turn
    rcases List.mem_append.mp h with hfirst | hrest
    · exact hserved response hfirst
    · exact ih (hstore ▸ hkeys) hrest

omit hkeys

/-- A valid configuration can serve every request. It makes a gateway with one entry for each app,
which is found by its id with its token, its mode and its key, and nothing else is found; an app
that takes sealed pushes has a key. Whatever the handlers do, no request of a session is answered
with an internal error. -/
theorem valid_config_serves_every_request {text : String} {config : Config}
    (hload : Config.load text = .ok config) :
    ∃ gateway, Gateway.ofConfig config = .ok gateway ∧
      gateway.store.size = config.apps.length ∧
      (∀ app ∈ config.apps, ∃ key, app.key = .ok key ∧
        gateway.credentials app.id = .ok ⟨app.id, app.token, key, app.mode⟩ ∧
        (app.mode.acceptsSealed = true → key.isSome = true)) ∧
      (∀ appId, (∀ app ∈ config.apps, app.id ≠ appId) →
        gateway.credentials appId = .error (.unknownApp appId)) ∧
      ∀ session, ∀ response ∈ gateway.responses session,
        response.status ≠ 500 ∧ response.failureCode? ≠ some "INTERNAL" := by
  obtain ⟨store, hstore, hsize, hfound, hmissing, hkeys⟩ :=
    Config.exists_store_of_validate (Config.validate_of_load hload)
  refine ⟨{ config, store }, ?_, hsize, fun app happ => ?_, fun appId hother => ?_,
    fun session response hmem => ?_⟩
  · rw [ofConfig, hstore]
    rfl
  · obtain ⟨key, hkey, hfind⟩ := hfound app happ
    refine ⟨key, hkey, ?_, hkeys app.id _ hfind⟩
    rw [credentials, hfind]
  · rw [credentials, hmissing appId hother]
  · have hserved : response.IsServed := isServed_of_mem_responses hkeys hmem
    exact ⟨hserved.status, hserved.code⟩

/-- A configuration of an app that takes sealed pushes only and of one that takes plain ones. -/
def twoApps : String :=
  "version: 1\napps:\n  - id: wx0001\n    token: t\n    encoding_mode: safe\n" ++
  "    encoding_aes_key: abcdefghijklmnopqrstuvwxyz0123456789ABCDEFG\n" ++
  "  - \x7bid: wx0002, token: u\x7d\n"

/-- The app with a key is found with one, and a session of two requests is answered. -/
theorem valid_config_serves_every_request_two : ∃ config gateway key,
    Config.load twoApps = .ok config ∧ Gateway.ofConfig config = .ok gateway ∧
    gateway.credentials "wx0001" = .ok ⟨"wx0001", "t", some key, .safe⟩ ∧
    gateway.credentials "wx0003" = .error (.unknownApp "wx0003") ∧
    ∀ response ∈ gateway.responses sampleSession, response.status ≠ 500 := by
  have hread : (Config.load twoApps).toOption = some ⟨1, {}, {},
      [⟨"wx0001", "t", some "abcdefghijklmnopqrstuvwxyz0123456789ABCDEFG", .safe⟩,
        ⟨"wx0002", "u", none, .plain⟩]⟩ := by
    decide +kernel
  cases hload : Config.load twoApps with
  | error error =>
    rw [hload] at hread
    cases hread
  | ok config =>
    rw [hload] at hread
    obtain rfl := Option.some.inj hread
    obtain ⟨gateway, hgateway, -, hfound, hmissing, hserved⟩ :=
      valid_config_serves_every_request hload
    obtain ⟨key, -, hcredentials, hsealed⟩ := hfound _ List.mem_cons_self
    obtain ⟨key, rfl⟩ := Option.isSome_iff_exists.mp (hsealed rfl)
    exact ⟨_, gateway, key, rfl, hgateway, hcredentials, hmissing "wx0003" (by decide),
      fun response hmem => (hserved sampleSession response hmem).1⟩

end Gateway

end CallbackGateway
