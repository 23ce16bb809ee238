import Prefork.Http.Head
import Prefork.Inbox

namespace Prefork.Http

/-- Collects bytes until they hold requests. `head` is one whose body is still arriving. Without
one, `tail` has the last bytes of the text once it is known that no head ends in it. -/
structure Parser where
  inbox : Inbox := {}
  head : Option Head := none
  tail : Option Bytes := none
  deriving DecidableEq, Repr

namespace Parser

def push (p : Parser) (data : Bytes) : Parser :=
  { p with inbox := p.inbox.push data, tail := p.tail.bind (Head.follow · data) }

def awaitingBody (p : Parser) : Bool := p.head.isSome

def buffered (p : Parser) : Nat := p.inbox.size

def waits (p : Parser) : Bool :=
  match p.head with
  | some _ => p.inbox.waits
  | none => p.tail.isSome

def finish (head : Head) (bytes : Bytes) : Option Request × Parser :=
  let body := bytes.take head.contentLength
  if body.length < head.contentLength then
    let missing := head.contentLength - body.length
    (none, { inbox := { front := bytes, missing }, head := some head })
  else (some (head.withBody body), { inbox := { front := bytes.drop head.contentLength } })

def next (p : Parser) : Except RequestError (Option Request) × Parser :=
  if p.waits then (.ok none, p)
  else
    let bytes := p.inbox.bytes
    match p.head with
    | some head =>
      let (request, p) := finish head bytes
      (.ok request, p)
    | none => match Head.read bytes with
      | .incomplete _ =>
        (.ok none, { inbox := { front := bytes }, tail := Head.tail? (Head.text bytes) })
      | .invalid e => (.error e, {})
      | .complete head rest =>
        let (request, p) := finish head rest
        (.ok request, p)

def takeAll (p : Parser) : Bytes × Parser := (p.inbox.bytes, {})

def drainUpTo (p : Parser) : Nat → List Request × Option RequestError × Parser
  | 0 => ([], none, p)
  | fuel + 1 => match p.next with
    | (.error e, p) => ([], some e, p)
    | (.ok none, p) => ([], none, p)
    | (.ok (some request), p) =>
      let (requests, error, p) := p.drainUpTo fuel
      (request :: requests, error, p)

/-- All requests that are complete, and the error that ends them, if any. Each request but one
whose head was read before takes at least a byte. -/
def drain (p : Parser) : List Request × Option RequestError × Parser :=
  if p.waits then ([], none, p) else p.drainUpTo (p.buffered + 2)

end Parser

end Prefork.Http
