import Prefork.Protocol
import Prefork.Server.Error

namespace Prefork.Server

open Host (IoError)

/-- What a socket answers when it is read. No bytes at all mean that the peer has finished. -/
inductive ReadResult where
  | bytes (data : Bytes)
  | wouldBlock
  | interrupted
  | failed (error : IoError)
  deriving DecidableEq, Repr

inductive WriteResult where
  | taken (count : Nat)
  | wouldBlock
  | interrupted
  | failed (error : IoError)
  deriving DecidableEq, Repr

inductive Interest where
  | readable | writable
  deriving DecidableEq, Repr

structure Context where
  id : UInt64
  worker : Option UInt32
  deriving DecidableEq, Repr

/-- An accepted connection in protocol state `σ`. `output` is what the socket has not taken yet,
`closing` that the peer has finished, and `armed` what the poller watches the socket for. -/
structure Connection (σ : Type) where
  context : Context
  state : σ
  output : Bytes := []
  closing : Bool := false
  armed : Interest := .readable

namespace Connection

variable {σ : Type}

def interest (c : Connection σ) : Interest := if c.output.isEmpty then .readable else .writable

def apply (c : Connection σ) (r : Reply σ) : Connection σ :=
  { c with state := r.state, output := c.output ++ r.output }

structure Received where
  data : Bytes := []
  finished : Bool := false
  deriving DecidableEq, Repr

/-- Reads until the socket would block or the peer has finished. Fails as soon as the bytes read
and the `held` ones of the protocol are more than `max`. -/
def readFrom (held max : Nat) (data : Bytes) : List ReadResult → Except ConnectionError Received
  | [] => .ok { data }
  | .wouldBlock :: _ => .ok { data }
  | .bytes [] :: _ => .ok { data, finished := true }
  | .bytes more :: rest =>
    let data := data ++ more
    if max < data.length + held then .error (.bufferFull (data.length + held) max)
    else readFrom held max data rest
  | .interrupted :: rest => readFrom held max data rest
  | .failed e :: _ => .error (.io e)

/-- What writing has brought about: the bytes the socket took, those it has not, and the error
that stopped it, if any. -/
structure Flushed where
  sent : Bytes := []
  pending : Bytes := []
  error : Option IoError := none
  deriving DecidableEq, Repr

def flush (pending : Bytes) : List WriteResult → Flushed
  | [] => { pending }
  | result :: rest =>
    if pending.isEmpty then {}
    else match result with
      | .wouldBlock => { pending }
      | .interrupted => flush pending rest
      | .failed e => { pending, error := some e }
      | .taken 0 => { pending, error := some .writeZero }
      | .taken count =>
        let after := flush (pending.drop count) rest
        { after with sent := pending.take count ++ after.sent }

end Connection

end Prefork.Server
