import CallbackGateway.Config.Basic
import CallbackGateway.Deadline
import CallbackGateway.Http.Exchange
import CallbackGateway.Http.Query
import CallbackGateway.Http.Route
import CallbackGateway.Http.Target
import CallbackGateway.Metrics.Page
import CallbackGateway.Reply.Encode

/-!
# The gateway

One request at a time is answered, and what happened is counted. The clock, the salt of a sealed
reply and the handler of messages are given with each request; everything else is state.
-/

namespace CallbackGateway

/-- What the surroundings contribute to one answer. -/
structure Moment where
  /-- In seconds. -/
  time : Int
  salt : Aes.Block
  deriving DecidableEq, Repr

/-- How a handler ends. -/
inductive HandlerEnding
  | decided (outcome : Outcome)
  | failed (error : GatewayError)
  /-- Without a result. -/
  | crashed
  deriving DecidableEq, Repr

/-- What a handler does with a message: how long it takes, in milliseconds, and how it ends. -/
structure Handling where
  delay : Nat
  ending : HandlerEnding
  deriving DecidableEq, Repr

/-- What handles messages, given the time and the message. -/
abbrev Handler := Int → Message → Handling

/-- The handler that answers with canned texts at once. -/
def ReplyTexts.handler (texts : ReplyTexts) : Handler := fun time message =>
  ⟨0, .decided (texts.dispatch time message)⟩

/-- How the work for a message ends: a reply still has to be written. -/
def HandlerEnding.ending (format : WireFormat) : HandlerEnding → Ending
  | .decided (.reply reply) =>
    match Reply.encode format reply with
    | .ok body => .returned (some body)
    | .error cause => .failed (.internal cause)
  | .decided .acknowledge => .returned none
  | .failed error => .failed error
  | .crashed => .crashed

/-- The work for a message. -/
def Handling.work (format : WireFormat) (handling : Handling) : Work :=
  ⟨handling.delay, handling.ending.ending format⟩

/-- The state of a gateway. -/
structure Gateway where
  config : Config
  store : CredentialStore
  metrics : Metrics := {}

/-- The gateway of a configuration. -/
def Gateway.ofConfig (config : Config) : Except Config.ConfigError Gateway := do
  return { config, store := ← config.credentials }

/-- The content type of plain answers. -/
def plainText : String := "text/plain; charset=utf-8"

/-- The content type of the metrics page. -/
def metricsText : String := "text/plain; version=0.0.4; charset=utf-8"

open Http Metrics

/-- The response that reports a failure. -/
def GatewayError.response (error : GatewayError) : Response where
  status := error.errorClass.status
  contentType := some "application/json"
  body := (Json.Value.ofMembers
    [("code", .string error.errorClass.code), ("msg", .string error.shown)]).toBytes

/-- Count the outcome of a request of a kind. -/
def countRequest (kind outcome : String) (metrics : Metrics) : Metrics :=
  metrics.increment .requests [("kind", kind), ("outcome", outcome)]

/-- Count a failed handshake. -/
def countHandshakeFailure (error : GatewayError) (metrics : Metrics) : Metrics :=
  let metrics := match error with
    | .authFailed => metrics.increment .verifyFailures [("mode", "plain")]
    | _ => metrics
  countRequest "handshake" error.errorClass.code metrics

/-- The mode in which the signature of a push was checked. -/
def PushQuery.modeName (query : PushQuery) : String :=
  match query.encoding with
  | .ok .sealed => "safe"
  | _ => "plain"

/-- Count a failed push. -/
def countPushFailure (query : PushQuery) (error : GatewayError) (metrics : Metrics) : Metrics :=
  let metrics := match error with
    | .authFailed => metrics.increment .verifyFailures [("mode", query.modeName)]
    | .payload _ => metrics.increment .decodeErrors [("stage", "decrypt")]
    | .decode _ => metrics.increment .decodeErrors [("stage", "decode")]
    | _ => metrics
  countRequest "push" error.errorClass.code metrics

namespace Gateway

/-- The credentials of an app. -/
def credentials (gateway : Gateway) (appId : String) : Except GatewayError Credentials :=
  match gateway.store.find? appId with
  | some found => .ok found
  | none => .error (.unknownApp appId)

/-- Change what was measured. -/
def measure (gateway : Gateway) (change : Metrics → Metrics) : Gateway :=
  { gateway with metrics := change gateway.metrics }

/-- Check a handshake. -/
def checkHandshake (gateway : Gateway) (appId : String) (query : HandshakeQuery) :
    Except GatewayError Unit := do
  query.check (← gateway.credentials appId)

/-- Answer a handshake with its echo. -/
def handshake (gateway : Gateway) (appId : String) (query : HandshakeQuery) :
    Response × Gateway :=
  match gateway.checkHandshake appId query with
  | .ok () =>
    (Response.text 200 plainText query.echo, gateway.measure (countRequest "handshake" "ok"))
  | .error error => (error.response, gateway.measure (countHandshakeFailure error))

/-- The plain acknowledgement. -/
def acknowledgement (gateway : Gateway) : Response :=
  Response.text 200 plainText gateway.config.limits.ackToken

/-- Find the app of a push and open the push. -/
def openPush (gateway : Gateway) (appId : String) (query : PushQuery) (format : WireFormat)
    (body : Bytes) : Except GatewayError (Credentials × OpenedPush) := do
  let credentials ← gateway.credentials appId
  let opened ← query.openPush credentials format body
  return (credentials, opened)

/-- Answer a failed push. -/
def refusePush (gateway : Gateway) (query : PushQuery) (error : GatewayError) :
    Response × Gateway :=
  (error.response, gateway.measure (countPushFailure query error))

/-- Send a reply to a push, sealed as the push was. -/
def sendReply (gateway : Gateway) (moment : Moment) (query : PushQuery)
    (credentials : Credentials) (opened : OpenedPush) (reply : Bytes) : Response × Gateway :=
  match query.sealReply credentials opened.encoding opened.format moment.time moment.salt reply with
  | .ok body => (⟨200, some opened.format.contentType, body⟩, gateway)
  | .error error => gateway.refusePush query error

/-- Answer a push by what its work came to. -/
def conclude (gateway : Gateway) (moment : Moment) (query : PushQuery)
    (credentials : Credentials) (opened : OpenedPush) (completion : Completion) :
    Response × Gateway :=
  match completion with
  | .reply body =>
    (gateway.measure (countRequest "push" "reply")).sendReply moment query credentials opened body
  | .noReply => (gateway.acknowledgement, gateway.measure (countRequest "push" "ack"))
  | .timedOut => (gateway.acknowledgement, gateway.measure (countRequest "push" "timeout"))
  | .failed _ =>
    let reply := gateway.config.replies.fallbackReply moment.time opened.message.header
    match reply.encode opened.format with
    | .ok body =>
      (gateway.measure (countRequest "push" "fallback")).sendReply moment query credentials opened
        body
    | .error cause => gateway.refusePush query (.internal cause)

/-- The time that is spent on a message, in nanoseconds. -/
def spent (gateway : Gateway) (handling : Handling) : Nat :=
  min handling.delay gateway.config.limits.deadline * 1000000

/-- Answer a push. -/
def push (gateway : Gateway) (moment : Moment) (handler : Handler) (appId : String)
    (query : PushQuery) (format : WireFormat) (body : Bytes) : Response × Gateway :=
  match gateway.openPush appId query format body with
  | .error error => gateway.refusePush query error
  | .ok (credentials, opened) =>
    let handling := handler moment.time opened.message
    let measured := gateway.measure
      (Metrics.observe [("msg_type", opened.message.type)] (gateway.spent handling))
    measured.conclude moment query credentials opened
      ((handling.work opened.format).run gateway.config.limits.deadline)

/-- The response to a request that cannot be read. -/
def unreadable (status : Nat) : Response := ⟨status, some plainText, []⟩

/-- Answer a handshake request for the app in a segment. -/
def answerHandshake (gateway : Gateway) (segment : List Char) (target : Target) :
    Response × Gateway :=
  match segmentText? segment, handshakeQuery? (target.query.getD []) with
  | some appId, some query => gateway.handshake appId query
  | _, _ => (unreadable 400, gateway)

/-- Answer a push request for the app in a segment. -/
def answerPush (gateway : Gateway) (moment : Moment) (handler : Handler) (segment : List Char)
    (target : Target) (request : Request) : Response × Gateway :=
  match segmentText? segment, pushQuery? (target.query.getD []) with
  | some appId, some query =>
    if gateway.config.limits.bodyLimit < request.body.length then (unreadable 413, gateway)
    else
      gateway.push moment handler appId query (WireFormat.ofContentType request.contentType)
        request.body
  | _, _ => (unreadable 400, gateway)

/-- What an address for operation shows. -/
def operation (gateway : Gateway) : Route → Response
  | .health => Response.text 200 plainText "ok"
  | .ping => Response.text 200 plainText "pong"
  | .ready =>
    if gateway.metrics.draining then Response.text 503 plainText "draining"
    else Response.text 200 plainText "ready"
  | .metrics => ⟨200, some metricsText, Text.Utf8.encode gateway.metrics.page⟩
  | .portal _ => Response.blank 405

/-- Answer a request that only asks. -/
def answerGet (gateway : Gateway) (route : Route) (target : Target) : Response × Gateway :=
  match route with
  | .portal segment => gateway.answerHandshake segment target
  | route => (gateway.operation route, gateway)

/-- Answer a request by its method. -/
def answerRoute (gateway : Gateway) (moment : Moment) (handler : Handler) (route : Route)
    (target : Target) (request : Request) : Response × Gateway :=
  match request.method, route with
  | "GET", route => gateway.answerGet route target
  | "HEAD", route =>
    let (response, after) := gateway.answerGet route target
    ({ response with body := [] }, after)
  | "POST", .portal segment => gateway.answerPush moment handler segment target request
  | _, _ => (Response.blank 405, gateway)

/-- Answer a request; none if its target is invalid. -/
def respond (gateway : Gateway) (moment : Moment) (handler : Handler) (request : Request) :
    Option (Response × Gateway) :=
  (Target.parse? request.target).map fun target =>
    match Route.ofPath? target.path with
    | some route => gateway.answerRoute moment handler route target request
    | none => (Response.blank 404, gateway)

/-- Mark the gateway as draining. -/
def drain (gateway : Gateway) : Gateway := gateway.measure Metrics.drain

end Gateway

end CallbackGateway
