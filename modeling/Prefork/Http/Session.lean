import Prefork.Http.Parser
import Prefork.Http.Response
import Prefork.Protocol

namespace Prefork.Http

abbrev Responder := Request → Response

def Responder.text (body : Bytes) : Responder := fun r ↦ .text r.version .ok body

def Responder.greeting : Responder := .text (Utf8.encode "Hello, world!\n")

inductive Turn where
  | reading
  | responding (keepAlive : Bool)
  deriving DecidableEq, Repr

/-- One side of an HTTP connection. Requests that arrive during a response wait in the parser. -/
structure Session where
  parser : Parser := {}
  turn : Turn := .reading
  deriving DecidableEq, Repr

namespace Session

def feed (s : Session) (data : Bytes) : Session := { s with parser := s.parser.push data }

def next (s : Session) : Except RequestError (Option Request) × Session :=
  match s.turn with
  | .responding _ => (.ok none, s)
  | .reading =>
    let (request, parser) := s.parser.next
    (request, { s with parser })

def respond (s : Session) (response : Response) (keepAlive : Bool) : Reply Session :=
  { state := { s with turn := .responding keepAlive }
    output := (response.announce keepAlive).render }

def dispatch (responder : Responder) (s : Session) (request : Request) : Reply Session :=
  s.respond (responder request) request.keepAlive

/-- Answers bytes that are no request and drops what else was received. -/
def reject (s : Session) (e : RequestError) : Reply Session :=
  respond { s with parser := {} } (.text .http11 e.status (Utf8.encode (e.message ++ "\n"))) false

def complete (s : Session) : Option Bool × Session :=
  match s.turn with
  | .reading => (none, s)
  | .responding keepAlive => (some keepAlive, { s with turn := .reading })

def takeAll (s : Session) : Bytes × Session :=
  let (bytes, parser) := s.parser.takeAll
  (bytes, { s with parser })

def pump (responder : Responder) (s : Session) : Reply Session :=
  match s.next with
  | (.ok none, s) => { state := s }
  | (.ok (some request), s) => dispatch responder s request
  | (.error e, s) => s.reject e

def buffered (s : Session) : Nat := s.parser.buffered

def protocol (responder : Responder) : Protocol Session where
  received data s := pump responder (s.feed data)
  drained s := match s.complete with
    | (none, s) => { state := s }
    | (some false, s) => { state := s, stays := false }
    | (some true, s) => pump responder s
  closed s := { s with parser := {} }
  buffered := buffered

end Session

end Prefork.Http
