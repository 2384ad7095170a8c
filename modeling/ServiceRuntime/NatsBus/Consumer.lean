import ServiceRuntime.Sync.Once
import ServiceRuntime.Transition.History

/-!
# The Queue Consumer

What `Subscribe` sets up: a callback that runs the handler and then acknowledges the message, and a
shutdown function that drains the subscription and closes the connection, once.

The callback runs on the goroutine of the subscription (`waitForMsgs` of the client library), which
takes one message after another from the queue of the subscription until the subscription is closed.
It takes a message under the lock of the subscription and calls the callback after it has let the
lock go, so a handler may still start when the subscription has just been closed.

A reply goes through `ackReply` of the client library: a message that has been answered is not
answered again, and a closed connection takes no reply. The handler has the message in hand and may
answer it itself, before it returns and on its own goroutine. It may do so in the synchronous form
(`AckSync`, or an option with a context or a wait): there the reply can be out although the call
returns an error, and the message then does not count as answered.

The server is only what the client can rely on: it delivers a message of the stream again and again
until an acknowledgement or a termination of one of its deliveries has arrived. Replies may be lost
or be late.

The log is newest first; no step reads it.
-/

namespace ServiceRuntime.NatsBus.Consumer

open Sync Transition

/-! ## Shutdown -/

/-- What `cleanFn` works on. -/
structure Cleanup where
  /-- `subscription.Drain()` has been called. -/
  drained : Bool
  /-- `closeConnection(connection)` has begun: nothing is published any more. -/
  disconnected : Bool
  /-- It has closed the subscription, and returned. -/
  closed : Bool
  cleanup : Option String
  deriving DecidableEq, Repr

/-- The calls that `cleanFn` makes. -/
inductive CleanupCall where
  /-- `subscription.Drain()`, with its error. -/
  | drain (err : Option String)
  /-- `closeConnection(connection)`, up to the change of the status. -/
  | disconnect
  /-- The rest of it, which closes the subscription. -/
  | close
  deriving DecidableEq, Repr

def cleanFn : Body Cleanup CleanupCall where
  start := ⟨false, false, false, none⟩
  step c
    | .drain err =>
      if c.drained then none
      else some { c with
        drained := true
        cleanup := if err.isSome ∧ c.cleanup = none then err else c.cleanup }
    | .disconnect =>
      if c.drained = true ∧ c.disconnected = false then some { c with disconnected := true }
      else none
    | .close =>
      if c.disconnected = true ∧ c.closed = false then some { c with closed := true } else none
  finished c := c.closed

/-! ## Messages and replies -/

inductive AckKind where
  | ack
  | nak
  | term
  | inProgress
  deriving DecidableEq, Repr

def AckKind.settles : AckKind → Bool
  | .ack => true
  | .term => true
  | .nak => false
  | .inProgress => false

/-- A `*nats.Msg` that the client received. -/
structure Delivery where
  id : Nat
  /-- The message of the stream that it carries. -/
  seq : Nat
  /-- `ackd`: it has been answered. -/
  ackd : Bool
  deriving DecidableEq, Repr

inductive Sender where
  | handler
  | callback
  deriving DecidableEq, Repr

structure Reply where
  id : Nat
  seq : Nat
  kind : AckKind
  sender : Sender
  deriving DecidableEq, Repr

inductive Sending where
  | refused
  /-- A request that is sent, and returns an error: no response came in time. -/
  | unconfirmed
  | confirmed
  deriving DecidableEq, Repr

/-- `ackReply`: the message afterwards, and what became of the reply. -/
def ackReply (disconnected : Bool) (sending : Sending) (d : Delivery) (kind : AckKind) :
    Delivery × Sending :=
  if d.ackd = true ∨ disconnected = true then (d, .refused)
  else
    match sending with
    | .refused => (d, .refused)
    -- `ackd` is left as it is where there is an error
    | .unconfirmed => (d, .unconfirmed)
    | .confirmed => ({ d with ackd := kind ≠ .inProgress }, .confirmed)

/-! ## The system -/

inductive Loop where
  /-- At the head of the loop. -/
  | idle
  /-- A message has been taken from the queue, and the lock let go. -/
  | taken (d : Delivery)
  | handling (d : Delivery)
  | replying (d : Delivery) (err : Option String)
  | exited
  deriving DecidableEq, Repr

inductive Note where
  /-- The handler was called with delivery `id` of message `seq`. -/
  | started (id seq : Nat)
  | returned (id seq : Nat) (err : Option String)
  /-- The reply was published; `confirmed` if the call had no error. -/
  | sent (reply : Reply) (confirmed : Bool)
  | drained (err : Option String)
  | disconnected
  | closed
  deriving DecidableEq, Repr

structure Sys where
  once : Once.State Cleanup
  /-- The messages of the subscription that wait for the callback. -/
  queue : List Delivery
  loop : Loop
  /-- The replies on their way to the server. -/
  wire : List Reply
  published : Nat
  /-- The messages that the server does not deliver again. -/
  settled : List Nat
  /-- How many deliveries there have been. -/
  next : Nat
  log : List Note

inductive Event where
  | publish
  | deliver (seq : Nat)
  | receive (reply : Reply)
  /-- The goroutine of the subscription takes the next message. -/
  | take
  /-- It calls the callback, and that the handler. -/
  | start
  | respond (kind : AckKind) (sending : Sending)
  | handled (err : Option String)
  /-- The callback answers the message and returns; `up` says that `nc.Publish` has no error. -/
  | reply (up : Bool)
  /-- The goroutine of the subscription finds the subscription closed. -/
  | exit
  /-- A call of the shutdown function, or the goroutine that waits for the context, goes on. -/
  | shutdown (e : Once.Event CleanupCall)
  deriving DecidableEq, Repr

def Sys.closed (s : Sys) : Bool := s.once.shared.closed

def Sys.answer (s : Sys) (d : Delivery) (kind : AckKind) (sender : Sender) (sending : Sending)
    (loop : Delivery → Loop) : Sys :=
  let (d', sending) := ackReply s.once.shared.disconnected sending d kind
  let reply : Reply := ⟨d.id, d.seq, kind, sender⟩
  { s with
    loop := loop d'
    wire := if sending = .refused then s.wire else reply :: s.wire
    log := if sending = .refused then s.log else .sent reply (sending = .confirmed) :: s.log }

/-- What the log says about a step of `cleanFn`. -/
def cleanupNotes : Once.Event CleanupCall → List Note
  | .body (.drain err) => [.drained err]
  | .body .disconnect => [.disconnected]
  | .body .close => [.closed]
  | _ => []

/-- A reply without a request: sent without an error, or not at all. -/
def ofPublish (up : Bool) : Sending := if up then .confirmed else .refused

def step (s : Sys) : Event → Option Sys
  | .publish => some { s with published := s.published + 1 }
  | .deliver seq =>
    if s.closed = false ∧ seq < s.published ∧ seq ∉ s.settled then
      some { s with queue := s.queue ++ [⟨s.next, seq, false⟩], next := s.next + 1 }
    else none
  | .receive reply =>
    if reply ∈ s.wire then
      some (if reply.kind.settles then { s with settled := reply.seq :: s.settled } else s)
    else none
  | .take =>
    match s.loop, s.queue with
    | .idle, d :: queue =>
      -- the messages that are left when the subscription is closed are not handled
      if s.closed then none else some { s with loop := .taken d, queue := queue }
    | _, _ => none
  | .start =>
    match s.loop with
    -- nobody looks again whether the subscription is still open
    | .taken d => some { s with loop := .handling d, log := .started d.id d.seq :: s.log }
    | _ => none
  | .respond kind sending =>
    match s.loop with
    | .handling d => some (s.answer d kind .handler sending .handling)
    | _ => none
  | .handled err =>
    match s.loop with
    | .handling d => some { s with
        loop := .replying d err
        log := .returned d.id d.seq err :: s.log }
    | _ => none
  | .reply up =>
    match s.loop with
    | .replying d none => some (s.answer d .ack .callback (ofPublish up) fun _ => .idle)
    | .replying d (some _) => some (s.answer d .nak .callback (ofPublish up) fun _ => .idle)
    | _ => none
  | .exit =>
    match s.loop with
    | .idle => if s.closed then some { s with loop := .exited } else none
    | _ => none
  | .shutdown e => (Once.step cleanFn s.once e).map fun once =>
      { s with once := once, log := cleanupNotes e ++ s.log }

/-- What `Subscribe` returns to. -/
def initial : Sys where
  once := Once.initial cleanFn
  queue := []
  loop := .idle
  wire := []
  published := 0
  settled := []
  next := 0
  log := []

/-- A subscription in use, with any number of calls of its shutdown function. -/
def consumer : System Sys Event where
  init s := s = initial
  step := step

/-! ## The shapes of a step -/

inductive Step (s : Sys) : Event → Sys → Prop where
  | publish : Step s .publish { s with published := s.published + 1 }
  | deliver {seq : Nat} (hopen : s.closed = false) (hseq : seq < s.published) :
      Step s (.deliver seq)
        { s with queue := s.queue ++ [⟨s.next, seq, false⟩], next := s.next + 1 }
  | settle {reply : Reply} (hwire : reply ∈ s.wire) (hkind : reply.kind.settles = true) :
      Step s (.receive reply) { s with settled := reply.seq :: s.settled }
  | hear {reply : Reply} (hwire : reply ∈ s.wire) : Step s (.receive reply) s
  | take {d : Delivery} {queue : List Delivery} (hloop : s.loop = .idle)
      (hqueue : s.queue = d :: queue) (hopen : s.closed = false) :
      Step s .take { s with loop := .taken d, queue := queue }
  | start {d : Delivery} (hloop : s.loop = .taken d) :
      Step s .start { s with loop := .handling d, log := .started d.id d.seq :: s.log }
  | respond {d : Delivery} {kind : AckKind} {sending : Sending} (hloop : s.loop = .handling d) :
      Step s (.respond kind sending) (s.answer d kind .handler sending .handling)
  | handled {d : Delivery} {err : Option String} (hloop : s.loop = .handling d) :
      Step s (.handled err)
        { s with loop := .replying d err, log := .returned d.id d.seq err :: s.log }
  | ack {d : Delivery} {up : Bool} (hloop : s.loop = .replying d none) :
      Step s (.reply up) (s.answer d .ack .callback (ofPublish up) fun _ => .idle)
  | nak {d : Delivery} {err : String} {up : Bool} (hloop : s.loop = .replying d (some err)) :
      Step s (.reply up) (s.answer d .nak .callback (ofPublish up) fun _ => .idle)
  | exit (hloop : s.loop = .idle) (hclosed : s.closed = true) :
      Step s .exit { s with loop := .exited }
  | shutdown {e : Once.Event CleanupCall} {once : Once.State Cleanup}
      (honce : Once.step cleanFn s.once e = some once) :
      Step s (.shutdown e) { s with once := once, log := cleanupNotes e ++ s.log }

theorem Step.of_step {s s' : Sys} {e : Event} (h : step s e = some s') : Step s e s' := by
  cases e with
  | publish =>
    cases h
    exact .publish
  | deliver seq =>
    simp only [step] at h
    split at h
    · rename_i hguard
      cases h
      exact .deliver hguard.1 hguard.2.1
    · cases h
  | receive reply =>
    simp only [step] at h
    split at h
    · rename_i hwire
      cases h
      -- the server settles the message, or only hears of it
      split
      · rename_i hkind
        exact .settle hwire hkind
      · exact .hear hwire
    · cases h
  | take =>
    simp only [step] at h
    split at h
    · rename_i hloop hqueue
      split at h
      · cases h
      · rename_i hopen
        cases h
        -- the subscription was open at the check, and may be closed by now
        exact .take hloop hqueue (Bool.eq_false_iff.mpr hopen)
    · cases h
  | start | respond kind sending | handled err =>
    -- the goroutine is where the event needs it to be
    simp only [step] at h
    split at h
    · rename_i hloop
      cases h
      constructor
      exact hloop
    · cases h
  -- an ack after nil, a nak after an error
  | reply up =>
    simp only [step] at h
    split at h
    · rename_i hloop
      cases h
      exact .ack hloop
    · rename_i hloop
      cases h
      exact .nak hloop
    · cases h
  | exit =>
    simp only [step] at h
    split at h
    · rename_i hloop
      split at h
      · rename_i hclosed
        cases h
        exact .exit hloop hclosed
      · cases h
    · cases h
  | shutdown e =>
    obtain ⟨once, honce, rfl⟩ := Option.map_eq_some_iff.mp h
    exact .shutdown honce

end ServiceRuntime.NatsBus.Consumer
