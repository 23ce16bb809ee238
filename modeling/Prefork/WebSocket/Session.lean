import Prefork.Http.Session
import Prefork.Inbox
import Prefork.WebSocket.Frame
import Prefork.WebSocket.Handshake

namespace Prefork.WebSocket

inductive Message.Kind where
  | text | binary
  deriving DecidableEq, Repr

structure Message where
  kind : Message.Kind
  payload : Bytes
  deriving DecidableEq, Repr

namespace Message

def text? (m : Message) : Option String :=
  match m.kind with
  | .text => (Utf8.decode m.payload).toOption.map String.ofList
  | .binary => none

def frame (m : Message) : Frame :=
  { opcode := match m.kind with
      | .text => .text
      | .binary => .binary
    payload := m.payload }

end Message

structure Fragments where
  kind : Message.Kind
  payload : Pieces
  deriving DecidableEq, Repr

def Fragments.message (f : Fragments) : Message := ⟨f.kind, f.payload.bytes⟩

/-- The application behind a session, as a machine over states `τ`. The messages it gives are
sent in order. -/
structure Application (τ : Type) where
  opened : τ → τ × List Message := fun t ↦ (t, [])
  received : Message → τ → τ × List Message
  closed : τ → τ := id

def Application.echo : Application Unit where
  received m t := (t, [m])

/-- A connection speaks HTTP until it changes protocols. Then it exchanges frames until a close
frame is sent, and may have a message in fragments. -/
inductive Phase where
  | http (session : Http.Session)
  | frames (inbox : Inbox) (unfinished : Option Fragments)
  | closing (unfinished : Option Fragments)
  deriving DecidableEq, Repr

structure Session (τ : Type) where
  phase : Phase := .http {}
  application : τ
  deriving DecidableEq, Repr

namespace Session

variable {τ : Type}

def isUpgraded (s : Session τ) : Bool :=
  match s.phase with
  | .http _ => false
  | .frames _ _ | .closing _ => true

/-- What a frame leads to: a message in progress or none, output, and whether frames are still
read. -/
structure Effect (τ : Type) where
  unfinished : Option Fragments := none
  application : τ
  output : Bytes := []
  stays : Bool := true

def send (messages : List Message) : Bytes := messages.flatMap fun m ↦ m.frame.pack

def deliver (app : Application τ) (t : τ) (m : Message) : Except FrameError (Effect τ) :=
  if m.kind = .text ∧ !Utf8.isValid m.payload then .error .invalidUtf8
  else
    let (t, replies) := app.received m t
    .ok { application := t, output := send replies }

def gather (app : Application τ) (t : τ) (f : Fragments) (fin : Bool) :
    Except FrameError (Effect τ) :=
  if fin then deliver app t f.message else .ok { unfinished := some f, application := t }

def begin (app : Application τ) (t : τ) (unfinished : Option Fragments) (kind : Message.Kind)
    (payload : Bytes) (fin : Bool) : Except FrameError (Effect τ) :=
  if unfinished.isSome then .error .messageInterrupted
  else gather app t ⟨kind, .ofBytes payload⟩ fin

def extend (app : Application τ) (limit : Nat) (t : τ) (unfinished : Option Fragments)
    (payload : Bytes) (fin : Bool) : Except FrameError (Effect τ) :=
  match unfinished with
  | none => .error .unexpectedContinuation
  | some f =>
    let size := f.payload.size + payload.length
    if limit < size then .error (.payloadTooLarge size limit)
    else gather app t { f with payload := f.payload.push payload } fin

def onFrame (app : Application τ) (limit : Nat) (t : τ) (unfinished : Option Fragments)
    (f : Frame) : Except FrameError (Effect τ) :=
  match f.opcode with
  | .ping =>
    .ok { unfinished, application := t
          output := Frame.pack { opcode := .pong, payload := f.payload } }
  | .pong => .ok { unfinished, application := t }
  | .close =>
    .ok { unfinished, application := t
          output := (Frame.close f.closeCode "").pack, stays := false }
  | .continuation => extend app limit t unfinished f.payload f.fin
  | .text => begin app t unfinished .text f.payload f.fin
  | .binary => begin app t unfinished .binary f.payload f.fin

def fail (t : τ) (e : FrameError) : Reply (Session τ) :=
  { state := { phase := .closing none, application := t }
    output := (Frame.close (some e.closeCode) "").pack }

def pumpUpTo (app : Application τ) (limit : Nat) (t : τ) (unfinished : Option Fragments)
    (bytes : Bytes) : Nat → Reply (Session τ)
  | 0 => { state := { phase := .frames { front := bytes } unfinished, application := t } }
  | fuel + 1 => match Frame.read limit bytes with
    | .incomplete missing =>
      { state := { phase := .frames { front := bytes, missing } unfinished, application := t } }
    | .invalid e => fail t e
    | .complete frame rest => match onFrame app limit t unfinished frame with
      | .error e => fail t e
      | .ok effect =>
        if effect.stays then
          let reply := pumpUpTo app limit effect.application effect.unfinished rest fuel
          { reply with output := effect.output ++ reply.output }
        else
          { state := { phase := .closing effect.unfinished, application := effect.application }
            output := effect.output }

def pump (app : Application τ) (limit : Nat) (t : τ) (unfinished : Option Fragments)
    (inbox : Inbox) : Reply (Session τ) :=
  if inbox.waits then { state := { phase := .frames inbox unfinished, application := t } }
  else pumpUpTo app limit t unfinished inbox.bytes (inbox.size + 1)

def upgrade (app : Application τ) (limit : Nat) (t : τ) (http : Http.Session)
    (request : Http.Request) : Reply (Session τ) :=
  match Handshake.accept request with
  | .error e =>
    let reply := http.respond (e.response request.version) request.keepAlive
    { state := { phase := .http reply.state, application := t }, output := reply.output }
  | .ok response =>
    let (t, replies) := app.opened t
    let reply := pump app limit t none { front := http.takeAll.1 }
    { reply with output := response.render ++ send replies ++ reply.output }

def pumpHttp (app : Application τ) (responder : Http.Responder) (limit : Nat) (t : τ)
    (http : Http.Session) : Reply (Session τ) :=
  let wrap (r : Reply Http.Session) : Reply (Session τ) :=
    { state := { phase := .http r.state, application := t }, output := r.output }
  match http.next with
  | (.ok none, http) => wrap { state := http }
  | (.ok (some request), http) =>
    if Handshake.isUpgrade request then upgrade app limit t http request
    else wrap (http.dispatch responder request)
  | (.error e, http) => wrap (http.reject e)

def received (app : Application τ) (responder : Http.Responder) (limit : Nat) (data : Bytes)
    (s : Session τ) : Reply (Session τ) :=
  match s.phase with
  | .http http => pumpHttp app responder limit s.application (http.feed data)
  | .frames inbox unfinished => pump app limit s.application unfinished (inbox.push data)
  | .closing _ => { state := s }

def drained (app : Application τ) (responder : Http.Responder) (limit : Nat) (s : Session τ) :
    Reply (Session τ) :=
  match s.phase with
  | .http http => match http.complete with
    | (none, _) => { state := s }
    | (some false, http) => { state := { s with phase := .http http }, stays := false }
    | (some true, http) => pumpHttp app responder limit s.application http
  | .frames _ _ => { state := s }
  | .closing _ => { state := s, stays := false }

def closed (app : Application τ) (s : Session τ) : Session τ :=
  match s.phase with
  | .http _ => s
  | .frames _ _ => { phase := .frames {} none, application := app.closed s.application }
  | .closing _ => { phase := .closing none, application := app.closed s.application }

def buffered (s : Session τ) : Nat :=
  let size (f : Option Fragments) : Nat := (f.map (·.payload.size)).getD 0
  match s.phase with
  | .http http => http.buffered
  | .frames inbox unfinished => inbox.size + size unfinished
  | .closing unfinished => size unfinished

def protocol (app : Application τ) (responder : Http.Responder) (limit : Nat) :
    Protocol (Session τ) where
  received := received app responder limit
  drained := drained app responder limit
  closed := closed app
  buffered := buffered

end Session

end Prefork.WebSocket
