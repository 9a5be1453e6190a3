import BeliefKV.Lib.Recency
import BeliefKV.Lib.Run
import BeliefKV.Protocol

/-! The acknowledged datagram channel for runtime events: a server that the scheduler polls, and
clients that send a batch again until it is acknowledged. -/
namespace BeliefKV.Channel
variable {κ Event Item : Type}

def schemaVersion : ℤ := 1

def maxEventsPerMessage : ℕ := 64

def maxDatagramBytes : ℕ := 60000

/-- How an event is written into a message and read from it. -/
structure Codec (Event Item : Type) where
  toDict : Event → Item
  fromDict : Item → Except Raised Event
  round_trip : ∀ e, fromDict (toDict e) = .ok e

/-- A request as it is decoded; a field that is missing is `none`. -/
inductive Payload (Item : Type)
  | undecodable (error : Raised)
  | message (version : Option ℤ) (messageId : Option String) (events : Option (List Item))

/-- An acknowledgement; there is an error when the message was rejected by one. -/
structure Ack where
  messageId : String
  accepted : Bool
  eventCount : ℕ
  error : Option Raised

structure RuntimeEventDelivery where
  messageId : String
  eventCount : ℕ
  accepted : Bool
  duplicate : Bool := false
  error : Option Raised := none

def RuntimeEventDelivery.ack (delivery : RuntimeEventDelivery) : Ack :=
  ⟨delivery.messageId,delivery.accepted,delivery.eventCount,delivery.error⟩

/-! ## The server -/

/-- The acknowledgements are cached in the order of their use, the latest first. -/
structure RuntimeEventDatagramServer where
  ackCacheSize : ℕ
  acks : List (String × Ack) := []
  positive : 0 < ackCacheSize

/-- What handling a datagram leaves: the server, its answer, and the events of a call of the handler. -/
structure Handled (Event : Type) where
  server : RuntimeEventDatagramServer
  delivery : RuntimeEventDelivery
  ack : Ack
  called : Option (List Event) := none

def Payload.read : Payload Item → Except Raised (String × Option (List Item))
  | .undecodable e => .error e
  | .message version messageId events =>
    if version ≠ some schemaVersion then .error (.valueError "unsupported event channel schema")
    else
      match messageId with
      | none => .error (.keyError "message_id")
      | some id => .ok (id,events)

def readEvents (codec : Codec Event Item) : Option (List Item) → Except Raised (List Event)
  | none => .error (.valueError "events must be a non-empty list")
  | some items =>
    if items = [] then .error (.valueError "events must be a non-empty list")
    else if maxEventsPerMessage < items.length then
      .error (.valueError "event batch exceeds channel limit")
    else items.mapM codec.fromDict

namespace RuntimeEventDatagramServer
variable (server : RuntimeEventDatagramServer)

/-- The answer is cached unless the message could not be identified. -/
def settle (delivery : RuntimeEventDelivery) (called : Option (List Event)) : Handled Event :=
  { server :=
      if delivery.messageId = "unknown" then server
      else { server with
        acks := Recency.remember server.ackCacheSize server.acks delivery.messageId delivery.ack }
    delivery := delivery
    ack := delivery.ack
    called := called }

def reject (messageId : String) (error : Raised) (called : Option (List Event)) : Handled Event :=
  server.settle { messageId := messageId, eventCount := 0, accepted := false, error := some error }
    called

/-- A message that is not cached; `answer` is what the handler returns or raises. -/
def process (codec : Codec Event Item) (messageId : String) (items : Option (List Item))
    (answer : Except Raised Unit) : Handled Event :=
  match readEvents codec items with
  | .error e => server.reject messageId e none
  | .ok events =>
    match answer with
    | .error e => server.reject messageId e (some events)
    | .ok () =>
      server.settle { messageId := messageId, eventCount := events.length, accepted := true }
        (some events)

def handle (codec : Codec Event Item) (payload : Payload Item) (answer : Except Raised Unit) :
    Handled Event :=
  match payload.read with
  | .error e => server.reject "unknown" e none
  | .ok (messageId,items) =>
    if messageId = "" then server.reject messageId (.valueError "message_id must be non-empty") none
    else
      match Recency.lookup server.acks messageId with
      | some cached =>
        { server := { server with acks := Recency.refresh server.acks messageId cached }
          delivery :=
            { messageId := messageId, eventCount := cached.eventCount, accepted := cached.accepted
              duplicate := true, error := cached.error }
          ack := cached }
      | none => server.process codec messageId items answer

end RuntimeEventDatagramServer

/-! ## The clients -/

/-- How a call of `emit_batch` ends. -/
inductive Outcome
  | returned
  | rejected (error : Option Raised)
  | tooLarge (error : Raised)
  | countMismatch
  | unavailable
  | timedOut
  | socketError
  deriving DecidableEq

/-- What a client does: it is about to send, or it waits for an acknowledgement, with the attempts
that are left and whether sending has failed. -/
inductive Phase (Event : Type)
  | idle
  | sending (messageId : String) (events : List Event) (left : ℕ) (failed : Bool)
  | listening (messageId : String) (events : List Event) (left : ℕ) (failed : Bool)

/-- The end of a call; a batch that is refused or empty never gets a message id. -/
structure Report (Event : Type) where
  messageId : Option String
  events : List Event
  outcome : Outcome

/-- The next round of the loop over the attempts, or its end. -/
def nextAttempt (messageId : String) (events : List Event) (left : ℕ) (failed : Bool) :
    Phase Event × Option (Report Event) :=
  if left = 0 then (.idle,some ⟨some messageId,events,if failed then .unavailable else .timedOut⟩)
  else (.sending messageId events left failed,none)

def requestOf (codec : Codec Event Item) (messageId : String) (events : List Event) : Payload Item :=
  .message (some schemaVersion) (some messageId) (some (events.map codec.toDict))

/-- What a client makes of an acknowledgement of its message. -/
def Ack.outcome (ack : Ack) (events : List Event) : Outcome :=
  if ack.accepted = false then .rejected ack.error
  else if ack.eventCount ≠ events.length then .countMismatch
  else .returned

/-! ## The system -/

/-- A call of the handler. -/
structure HandlerCall (Event : Type) where
  messageId : String
  events : List Event
  answer : Except Raised Unit

/-- The server, the clients and every datagram that was sent. A datagram may be delivered late, out
of order, several times or never. -/
structure System (κ Event Item : Type) where
  server : RuntimeEventDatagramServer
  phase : κ → Phase Event := fun _ => .idle
  requests : List (κ × Payload Item) := []
  replies : List (κ × Ack) := []
  emitted : List (String × List Event) := []
  -- The ids the server handled, the latest first, and the calls of its handler.
  handled : List String := []
  calls : List (HandlerCall Event) := []
  reports : List (Report Event) := []

/-- What happens next; the environment chooses the datagrams that arrive. -/
inductive Input (κ Event : Type)
  | emit (client : κ) (messageId : String) (events : List Event)
  | send (client : κ) (delivered : Bool)
  | serve (request : ℕ) (answer : Except Raised Unit)
  | receive (client : κ) (reply : ℕ)
  | timeout (client : κ)
  | fail (client : κ)

/-- What is fixed: the codec, the length of a datagram and the attempts of a client. -/
structure Config (Event Item : Type) where
  codec : Codec Event Item
  encodedLength : Payload Item → ℕ
  retries : ℕ

namespace System
variable [DecidableEq κ] (cfg : Config Event Item) (s : System κ Event Item)

def report (r : Report Event) : System κ Event Item := { s with reports := r :: s.reports }

def enter (client : κ) (next : Phase Event × Option (Report Event)) : System κ Event Item :=
  { s with
    phase := Function.update s.phase client next.1
    reports := next.2.toList ++ s.reports }

/-- A batch that is sent waits for the lock of the client while another call runs. -/
def emit (client : κ) (messageId : String) (events : List Event) : System κ Event Item :=
  if events = [] then s.report ⟨none,events,.returned⟩
  else if maxEventsPerMessage < events.length then
    s.report ⟨none,events,.tooLarge (.valueError "event batch exceeds channel limit")⟩
  else if maxDatagramBytes < cfg.encodedLength (requestOf cfg.codec messageId events) then
    s.report ⟨none,events,.tooLarge (.valueError "serialized event batch exceeds datagram limit")⟩
  else
    match s.phase client with
    | .idle =>
      { s.enter client (nextAttempt messageId events cfg.retries false) with
        emitted := (messageId,events) :: s.emitted }
    | _ => s

def send (client : κ) (delivered : Bool) : System κ Event Item :=
  match s.phase client with
  | .sending messageId events left failed =>
    if delivered then
      { s.enter client (.listening messageId events (left - 1) failed,none) with
        requests := (client,requestOf cfg.codec messageId events) :: s.requests }
    else s.enter client (nextAttempt messageId events (left - 1) true)
  | _ => s

def serve (request : ℕ) (answer : Except Raised Unit) : System κ Event Item :=
  match s.requests[request]? with
  | none => s
  | some (client,payload) =>
    let result := s.server.handle cfg.codec payload answer
    { s with
      server := result.server
      replies := (client,result.ack) :: s.replies
      handled := result.delivery.messageId :: s.handled
      calls := (result.called.map fun events =>
        ⟨result.delivery.messageId,events,answer⟩).toList ++ s.calls }

/-- Acknowledgements of other messages are skipped. -/
def receive (client : κ) (reply : ℕ) : System κ Event Item :=
  match s.phase client, s.replies[reply]? with
  | .listening messageId events _ _, some (addressee,ack) =>
    if addressee = client ∧ ack.messageId = messageId then
      s.enter client (.idle,some ⟨some messageId,events,ack.outcome events⟩)
    else s
  | _, _ => s

def timeout (client : κ) : System κ Event Item :=
  match s.phase client with
  | .listening messageId events left failed => s.enter client (nextAttempt messageId events left failed)
  | _ => s

/-- An error of the socket that is not a timeout ends the call. -/
def fail (client : κ) : System κ Event Item :=
  match s.phase client with
  | .listening messageId events _ _ => s.enter client (.idle,some ⟨some messageId,events,.socketError⟩)
  | _ => s

def step : Input κ Event → System κ Event Item
  | .emit client messageId events => s.emit cfg client messageId events
  | .send client delivered => s.send cfg client delivered
  | .serve request answer => s.serve cfg request answer
  | .receive client reply => s.receive client reply
  | .timeout client => s.timeout client
  | .fail client => s.fail client

end System
end BeliefKV.Channel
