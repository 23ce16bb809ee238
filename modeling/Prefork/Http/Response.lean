import Prefork.Http.Request
import Prefork.Http.Status
import Prefork.Text.Utf8

namespace Prefork.Http

structure Response where
  version : Version
  status : Status
  /-- Stands in for the status's own reason phrase. -/
  reason : Option String := none
  headers : Headers := {}
  body : Bytes := []
  deriving DecidableEq, Repr

namespace Response

def text (version : Version) (status : Status) (body : Bytes) : Response :=
  { version, status, headers := Headers.set {} "Content-Type" "text/plain; charset=utf-8", body }

/-- Says whether the connection stays open, with no header where the version's default says so
already. -/
def announce (r : Response) (keepAlive : Bool) : Response :=
  let headers := r.headers.erase "connection"
  { r with headers := match r.version, keepAlive with
      | .http11, false => headers.set "Connection" "close"
      | .http10, true | .http09, true => headers.set "Connection" "keep-alive"
      | _, _ => headers }

def isWritten (field : String × String) : Bool := !Text.sameFolded field.1 "content-length"

def lines (r : Response) : List String :=
  let first := s!"{r.version.name} {r.status.code} {r.reason.getD r.status.reason}"
  let fields := (r.headers.entries.filter isWritten).map fun (name, value) ↦ s!"{name}: {value}"
  let length := if r.status.allowsBody then [s!"Content-Length: {r.body.length}"] else []
  first :: fields ++ length

def render (r : Response) : Bytes :=
  (r.lines.flatMap fun line ↦ Utf8.encode line ++ [13, 10]) ++ [13, 10] ++
    if r.status.allowsBody then r.body else []

end Response

end Prefork.Http
