import Prefork.Bytes
import Prefork.Http.Headers
import Prefork.Http.Method
import Prefork.Http.Target
import Prefork.Http.Version

namespace Prefork.Http

/-- Whether a message of that version and those headers lets the connection live on. HTTP/1.1
does unless it says `close`, older versions only if they say `keep-alive`. -/
def persists (version : Version) (headers : Headers) : Bool :=
  match version with
  | .http11 => !headers.hasToken "connection" "close"
  | .http10 | .http09 => headers.hasToken "connection" "keep-alive"

structure Request where
  method : Method
  target : String
  version : Version
  headers : Headers := {}
  body : Bytes := []
  deriving DecidableEq, Repr

namespace Request

def path (r : Request) : String := Target.path r.target
def query (r : Request) : String := Target.query r.target
def fragment (r : Request) : String := Target.fragment r.target
def keepAlive (r : Request) : Bool := persists r.version r.headers

end Request

end Prefork.Http
