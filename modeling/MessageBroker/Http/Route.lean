import MessageBroker.Text.Percent

/-! # Routes

The paths that are served, by method. A pattern is a list of segments, each a fixed word or a
parameter; a parameter stands for any segment that is not empty. The services are nested: those of a
scope share the beginning of their paths. The first service that takes a path answers it, so a scope
whose pattern a path begins with keeps it from all services after the scope, even if none of its own
takes the rest. `routes` lists the methods and whole paths of all services. -/

namespace MessageBroker.Http

/-- What a request can ask for. -/
inductive Endpoint
  | health
  | createQueue
  | listQueues
  | getQueue
  | updateQueue
  | deleteQueue
  | queueStats
  | purgeQueue
  | cleanupQueue
  | createMessage
  | leaseMessages
  | ackMessage
  | nackMessage
  | createTopic
  | listTopics
  | getTopic
  | deleteTopic
  | publishMessage
  | createSubscription
  | listSubscriptions
  | getSubscription
  | deleteSubscription
  deriving DecidableEq

/-- A segment of a pattern. -/
inductive Segment
  | word (s : String)
  | parameter (name : String)
  deriving DecidableEq

/-- What takes requests: one method and path, or a scope of services under a pattern. -/
inductive Service
  | resource (method : String) (pattern : List Segment) (endpoint : Endpoint)
  | scope (pattern : List Segment) (services : List Service)

section Services

open Segment Service

/-- The services of the messages of a queue. -/
def messageServices : Service :=
  scope [word "queues", parameter "queue_id", word "messages"]
    [resource "POST" [] .createMessage,
      resource "GET" [] .leaseMessages,
      resource "PUT" [parameter "message_id", word "ack"] .ackMessage,
      resource "PUT" [parameter "message_id", word "nack"] .nackMessage]

/-- The services of queues. -/
def queueServices : Service :=
  scope [word "queues"]
    [resource "POST" [] .createQueue,
      resource "GET" [] .listQueues,
      resource "GET" [parameter "queue_id", word "stats"] .queueStats,
      resource "PUT" [parameter "queue_id", word "purge"] .purgeQueue,
      resource "PUT" [parameter "queue_id", word "cleanup"] .cleanupQueue,
      resource "PUT" [parameter "queue_id"] .updateQueue,
      resource "GET" [parameter "queue_id"] .getQueue,
      resource "DELETE" [parameter "queue_id"] .deleteQueue]

/-- The services of topics. -/
def topicServices : Service :=
  scope [word "topics"]
    [resource "POST" [] .createTopic,
      resource "GET" [] .listTopics,
      resource "POST" [parameter "topic_id", word "messages"] .publishMessage,
      resource "GET" [parameter "topic_id"] .getTopic,
      resource "DELETE" [parameter "topic_id"] .deleteTopic]

/-- The services of subscriptions. -/
def subscriptionServices : Service :=
  scope [word "subscriptions"]
    [resource "POST" [] .createSubscription,
      resource "GET" [] .listSubscriptions,
      resource "GET" [parameter "subscription_id"] .getSubscription,
      resource "DELETE" [parameter "subscription_id"] .deleteSubscription]

/-- All services. The paths of messages begin with those of queues, so their scope is first. -/
def services : List Service :=
  [resource "GET" [word "healthz"] .health,
    scope [word "v1"] [messageServices, queueServices, topicServices, subscriptionServices]]

end Services

/-- A served method and path. -/
structure Route where
  method : String
  pattern : List Segment
  endpoint : Endpoint
  deriving DecidableEq

mutual

/-- The methods and whole paths of a service under a pattern. -/
def Service.routes (outer : List Segment) : Service → List Route
  | .resource method pattern endpoint => [⟨method, outer ++ pattern, endpoint⟩]
  | .scope pattern inner => routesUnder (outer ++ pattern) inner

/-- The methods and whole paths of services under a pattern. -/
def routesUnder (outer : List Segment) : List Service → List Route
  | [] => []
  | s :: rest => s.routes outer ++ routesUnder outer rest

end

/-- The served methods and paths. -/
def routes : List Route := routesUnder [] services

/-- The values of the parameters of a pattern that a path matches. -/
def parameters? : List Segment → List String → Option (List String)
  | [], [] => some []
  | .word w :: pattern, s :: path => if s = w then parameters? pattern path else none
  | .parameter _ :: pattern, s :: path =>
    if s = "" then none else (parameters? pattern path).map (s :: ·)
  | _, _ => none

/-- The values of the parameters of a pattern that a path begins with, and the rest of the path. -/
def enter? : List Segment → List String → Option (List String × List String)
  | [], path => some ([], path)
  | .word w :: pattern, s :: path => if s = w then enter? pattern path else none
  | .parameter _ :: pattern, s :: path =>
    if s = "" then none
    else (enter? pattern path).map fun (values, rest) => (s :: values, rest)
  | _ :: _, [] => none

/-- The parts of a list of characters between the slashes. -/
def splitSlashes : List Char → List (List Char)
  | [] => [[]]
  | c :: r =>
    if c = '/' then [] :: splitSlashes r
    else match splitSlashes r with
      | [] => [[c]]
      | part :: parts => (c :: part) :: parts

/-- The segments of a path, which has a slash in front of each. -/
def segments (path : String) : List String :=
  match splitSlashes path.toList with
  | [] :: parts => parts.map String.ofList
  | _ => []

/-- The written form of a pattern. -/
def patternText (pattern : List Segment) : String :=
  String.join (pattern.map fun
    | .word w => "/" ++ w
    | .parameter name => "/\x7b" ++ name ++ "\x7d")

mutual

/-- What a service that takes a path makes of it: an endpoint with the values of the parameters, or
nothing, as a scope does if none of its services takes the rest. -/
def Service.take? (method : String) :
    Service → List String → Option (Option (Endpoint × List String))
  | .resource served pattern endpoint, path =>
    if served = method then (parameters? pattern path).map fun values => some (endpoint, values)
    else none
  | .scope pattern inner, path =>
    (enter? pattern path).map fun (outer, rest) =>
      (select? method inner rest).map fun (endpoint, values) => (endpoint, outer ++ values)

/-- What the first service that takes a path makes of it. -/
def select? (method : String) : List Service → List String → Option (Endpoint × List String)
  | [], _ => none
  | s :: rest, path => (s.take? method path).getD (select? method rest path)

end

/-- The endpoint of a method and path, with the values of the parameters. -/
def endpoint? (method path : String) : Option (Endpoint × List String) :=
  select? method services (segments path)

/-- The written form of the pattern that a path matches, whatever the method. -/
def patternOf? (path : String) : Option String :=
  routes.findSome? fun r =>
    (parameters? r.pattern (segments path)).map fun _ => patternText r.pattern

end MessageBroker.Http
