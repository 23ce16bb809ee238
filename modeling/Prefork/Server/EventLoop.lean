import Prefork.Server.Connection
import Prefork.Server.Hooks
import Prefork.Server.Stats

namespace Prefork.Server

open Host (IoError)

abbrev Token := Nat

/-- What an event loop does to the world, in order. -/
inductive Act where
  | asked (granted : Bool)
  | left
  | listening (on : Bool)
  | polled
  /-- It took a connection off the listening socket and asked for a handler. -/
  | accepted (context : Context)
  | opened (token : Token) (stays : Bool)
  | received (token : Token) (data : Bytes) (stays : Bool)
  | drained (token : Token) (stays : Bool)
  | closed (token : Token)
  | sent (token : Token) (data : Bytes)
  | armed (token : Token) (interest : Interest)
  | dropped (token : Token)
  | ticked (count : Nat)
  | shutDown (count : Nat)
  deriving DecidableEq, Repr

/-- What writing to a socket meets with: the results of its writes, and whether it can be watched
again behind them. -/
structure WriteOutcome where
  results : List WriteResult := []
  rearmed : Bool := true

/-- A socket that a poll reports, with all it will answer in this iteration. -/
structure Readiness where
  token : Token
  readable : Bool := false
  writable : Bool := false
  error : Bool := false
  /-- For output that was pending. -/
  pending : WriteOutcome := {}
  reads : List ReadResult := []
  /-- For output that answers what was read. -/
  reply : WriteOutcome := {}

inductive Event where
  | listener (error : Bool)
  | socket (readiness : Readiness)

inductive PollFailure where
  | interrupted
  | failed (error : IoError)

structure Surroundings where
  now : Time.Millis
  listener : Option IoError := none
  poll : Except PollFailure (List Event)
  pending : Bool := false
  registered : Bool := true

structure Config (σ : Type) where
  protocol : Protocol σ
  build : Context → Except HandlerError σ
  maxBuffer : Nat

/-- An event loop between two steps. Tokens of connections count up from 1. -/
structure Loop (σ η : Type) where
  connections : List (Token × Connection σ) := []
  nextToken : Token := 1
  listening : Bool := false
  stats : Stats := {}
  hooks : η

namespace Loop

variable {σ η : Type}

abbrev Run (σ η : Type) := Loop σ η × List Act

def Run.andThen (r : Run σ η) (step : Loop σ η → Run σ η) : Run σ η :=
  let (l, acts) := step r.1
  (l, r.2 ++ acts)

def openCount (l : Loop σ η) : Nat := l.connections.length

def find? (l : Loop σ η) (token : Token) : Option (Connection σ) :=
  (l.connections.find? (·.1 == token)).map (·.2)

def put (l : Loop σ η) (token : Token) (c : Connection σ) : Loop σ η :=
  { l with connections := l.connections.map fun e ↦ if e.1 == token then (token, c) else e }

def close (l : Loop σ η) (token : Token) : Run σ η :=
  match l.find? token with
  | none => (l, [])
  | some _ =>
    ({ l with connections := l.connections.filter (·.1 != token), stats := l.stats.closed },
      [.closed token, .dropped token])

def rearm (l : Loop σ η) (token : Token) (rearmed : Bool) : Run σ η :=
  match l.find? token with
  | none => (l, [])
  | some c =>
    if rearmed then (l.put token { c with armed := c.interest }, [.armed token c.interest])
    else l.close token

/-- Writes pending output. Once all is taken, a connection whose peer has finished is closed, and
another asks its protocol what comes next. -/
def send (config : Config σ) (l : Loop σ η) (token : Token) (outcome : WriteOutcome) : Run σ η :=
  match l.find? token with
  | none => (l, [])
  | some c =>
    let flushed := Connection.flush c.output outcome.results
    let sent : List Act := if flushed.sent.isEmpty then [] else [.sent token flushed.sent]
    let c := { c with output := flushed.pending }
    if flushed.error.isSome then Run.andThen (l.put token c, sent) (·.close token)
    else
      let l := { l.put token c with stats := l.stats.wrote flushed.sent.length }
      if !c.output.isEmpty then Run.andThen (l, sent) (·.rearm token outcome.rearmed)
      else if c.closing then Run.andThen (l, sent) (·.close token)
      else
        let r := config.protocol.drained c.state
        let acts := sent ++ [.drained token r.stays]
        let l := l.put token (c.apply r)
        if r.stays then Run.andThen (l, acts) (·.rearm token outcome.rearmed)
        else Run.andThen (l, acts) (·.close token)

def answer (config : Config σ) (l : Loop σ η) (token : Token) (finished : Bool)
    (outcome : WriteOutcome) : Run σ η :=
  match l.find? token with
  | none => (l, [])
  | some c =>
    if c.output.isEmpty then
      if finished then l.close token else l.rearm token outcome.rearmed
    else (l.put token { c with closing := finished }).send config token outcome

def receive (config : Config σ) (l : Loop σ η) (r : Readiness) : Run σ η :=
  match l.find? r.token with
  | none => (l, [])
  | some c =>
    if c.closing then (l, [])
    else
      let held := config.protocol.buffered c.state
      match Connection.readFrom held config.maxBuffer [] r.reads with
      | .error (.bufferFull _ _) => { l with stats := l.stats.overflow }.close r.token
      | .error (.io _) => l.close r.token
      | .ok ⟨[], finished⟩ => l.answer config r.token finished r.reply
      | .ok ⟨data, finished⟩ =>
        let reply := config.protocol.received data c.state
        let l := { l.put r.token (c.apply reply) with stats := l.stats.read data.length }
        let acts : List Act := [.received r.token data reply.stays]
        if reply.stays then Run.andThen (l, acts) (·.answer config r.token finished r.reply)
        else Run.andThen (l, acts) (·.close r.token)

def accept (hooks : Hooks η) (config : Config σ) (env : Surroundings) (l : Loop σ η) : Run σ η :=
  if !env.pending then (l, [])
  else
    let (id, state) := hooks.nextId l.hooks
    let context : Context := { id, worker := hooks.worker state }
    let l := { l with hooks := state }
    match config.build context with
    | .error _ => (l, [.accepted context])
    | .ok state =>
      let token := l.nextToken
      let l := { l with nextToken := token + 1 }
      let reply := config.protocol.opened env.now state
      let c := ({ context, state } : Connection σ).apply reply
      let acts : List Act := [.accepted context, .opened token reply.stays]
      if !reply.stays || !env.registered then (l, acts ++ [.closed token, .dropped token])
      else
        ({ l with
            connections := l.connections ++ [(token, { c with armed := c.interest })]
            stats := l.stats.opened },
          acts ++ [.armed token c.interest])

def leave (hooks : Hooks η) (l : Loop σ η) : Run σ η :=
  ({ l with hooks := hooks.leave l.hooks }, [.left])

def leaveIf (hooks : Hooks η) (granted : Bool) (l : Loop σ η) : Run σ η :=
  if granted then l.leave hooks else (l, [])

def listen (l : Loop σ η) (granted : Bool) (failure : Option IoError) : Except IoError (Run σ η) :=
  if !granted && !l.listening then .ok (l, [])
  else match failure with
    | some e => .error e
    | none => .ok ({ l with listening := granted }, [.listening granted])

def sockets (events : List Event) : List Readiness :=
  events.filterMap fun
    | .socket r => some r
    | .listener _ => none

def listenerReady (events : List Event) : Bool :=
  events.any fun
    | .listener _ => true
    | .socket _ => false

def listenerBroken (events : List Event) : Bool :=
  events.any fun
    | .listener error => error
    | .socket _ => false

/-- Writes where output was pending, accepts, and then reads or closes. -/
def dispatch (hooks : Hooks η) (config : Config σ) (env : Surroundings) (granted : Bool)
    (events : List Event) (l : Loop σ η) : Run σ η :=
  let ready := sockets events
  let written := (ready.filter fun r ↦ r.writable && !r.error).foldl
    (fun run r ↦ Run.andThen run (·.send config r.token r.pending)) (l, [])
  let entered :=
    if granted && listenerReady events then Run.andThen written (·.accept hooks config env)
    else written
  let left := Run.andThen entered (·.leaveIf hooks granted)
  ready.foldl (fun run r ↦
    if r.error then Run.andThen run (·.close r.token)
    else if r.readable then Run.andThen run (·.receive config r)
    else run) left

def pollOnce (hooks : Hooks η) (config : Config σ) (env : Surroundings) (l : Loop σ η) :
    Except ServerError Nat × Run σ η :=
  let (granted, state) := hooks.tryEnter l.hooks
  let l := { l with hooks := state }
  let asked : List Act := [.asked granted]
  match l.listen granted env.listener with
  | .error e => (.error (.register e), Run.andThen (l, asked) (·.leaveIf hooks granted))
  | .ok (l, acts) =>
    let run : Run σ η := (l, asked ++ acts ++ [.polled])
    match env.poll with
    | .error .interrupted => (.ok 0, Run.andThen run (·.leaveIf hooks granted))
    | .error (.failed e) => (.error (.poll e), Run.andThen run (·.leaveIf hooks granted))
    | .ok events =>
      if listenerBroken events then
        (.error .listenerBroken, Run.andThen run (·.leaveIf hooks granted))
      else
        (.ok ((sockets events).length + if listenerReady events then 1 else 0),
          Run.andThen run (·.dispatch hooks config env granted events))

def tick (hooks : Hooks η) (l : Loop σ η) : Run σ η :=
  ({ l with hooks := hooks.tick l.openCount l.hooks }, [.ticked l.openCount])

def closeAll (l : Loop σ η) : Run σ η :=
  (l.connections.map (·.1)).foldl (fun run token ↦ Run.andThen run (·.close token)) (l, [])

def finish (hooks : Hooks η) (l : Loop σ η) : Run σ η :=
  Run.andThen ({ l with hooks := hooks.shutdown l.openCount l.hooks }, [.shutDown l.openCount])
    (·.closeAll)

/-- Iterates until the loop is stopped or fails, and ends it. The loop is stopped behind the
iterations listed. -/
def run (hooks : Hooks η) (config : Config σ) (l : Loop σ η) :
    List Surroundings → Except ServerError Unit × Run σ η
  | [] => (.ok (), l.finish hooks)
  | env :: rest =>
    match l.pollOnce hooks config env with
    | (.error e, polled) => (.error e, Run.andThen polled (·.finish hooks))
    | (.ok _, polled) =>
      let ticked := Run.andThen polled (·.tick hooks)
      let (result, l, acts) := run hooks config ticked.1 rest
      (result, l, ticked.2 ++ acts)

end Loop

end Prefork.Server
