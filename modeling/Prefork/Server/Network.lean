import Prefork.Server.EventLoop

namespace Prefork.Server

open Host (IoError)

structure Client where
  unread : Bytes := []
  finished : Bool := false
  gone : Bool := false
  received : Bytes := []
  closed : Bool := false
  deriving DecidableEq, Repr

namespace Client

def canSend (c : Client) : Bool := !(c.finished || c.gone || c.closed)

def send (c : Client) (data : Bytes) : Client := { c with unread := c.unread ++ data }
def finish (c : Client) : Client := { c with finished := true }
def drop (c : Client) : Client := { c with finished := true, gone := true }

def reads (c : Client) : List ReadResult :=
  (if c.unread.isEmpty then [] else [.bytes c.unread]) ++
    [if c.finished then .bytes [] else .wouldBlock]

end Client

def socketRoom : Nat := 0x100000

/-- The clients of one listening socket. `waiting` lists those not accepted yet, the oldest first,
and `peers` has the client behind each token of each loop. -/
structure Network where
  clients : List Client := []
  waiting : List Nat := []
  peers : List ((Nat × Token) × Nat) := []
  /-- The client that was accepted last. -/
  entering : Nat := 0
  outage : Option IoError := none

namespace Network

def modify (n : Network) (i : Nat) (f : Client → Client) : Network :=
  { n with clients := n.clients.modify i f }

def connect (n : Network) : Except IoError Network :=
  match n.outage with
  | some e => .error e
  | none => .ok { n with
      clients := n.clients ++ [{}]
      waiting := n.waiting ++ [n.clients.length] }

def peer? (n : Network) (loop : Nat) (token : Token) : Option Nat :=
  (n.peers.find? (·.1 == (loop, token))).map (·.2)

def modifyPeer (n : Network) (loop : Nat) (token : Token) (f : Client → Client) : Network :=
  match n.peer? loop token with
  | some i => n.modify i f
  | none => n

def readiness {σ : Type} (n : Network) (loop : Nat) (token : Token) (c : Connection σ) :
    Option Readiness := do
  let client ← n.clients[← n.peer? loop token]?
  let room : WriteOutcome := { results := [.taken socketRoom] }
  match c.armed with
  | .writable => return { token, writable := true, pending := room }
  | .readable =>
    guard (!client.unread.isEmpty || client.finished)
    return { token, readable := true, reads := client.reads, reply := room }

def surroundings {σ η : Type} (n : Network) (loop : Nat) (l : Loop σ η) (granted : Bool)
    (now : Time.Millis) : Surroundings :=
  let listener := if granted && !n.waiting.isEmpty then [Event.listener false] else []
  let sockets := l.connections.filterMap fun (token, c) ↦ n.readiness loop token c
  { now, poll := .ok (listener ++ sockets.map .socket), pending := !n.waiting.isEmpty }

/-- What an act of a loop means for the clients. One that is accepted and not opened is let go. -/
def observe (loop : Nat) (n : Network) : Act → Network
  | .accepted _ => match n.waiting with
    | [] => n
    | i :: waiting =>
      { n.modify i fun c ↦ { c with closed := true } with waiting, entering := i }
  | .opened token _ =>
    { n.modify n.entering fun c ↦ { c with closed := false } with
      peers := ((loop, token), n.entering) :: n.peers }
  | .sent token data => n.modifyPeer loop token fun c ↦ { c with received := c.received ++ data }
  | .dropped token => n.modifyPeer loop token fun c ↦ { c with closed := true }
  | _ => n

def consume (n : Network) (loop : Nat) (env : Surroundings) : Network :=
  match env.poll with
  | .error _ => n
  | .ok events => (Loop.sockets events).foldl (fun n r ↦
      if r.readable then n.modifyPeer loop r.token fun c ↦ { c with unread := [] } else n) n

end Network

end Prefork.Server
