import Prefork.Http.Status
import Prefork.Text.Quoted
import Prefork.Text.Utf8

namespace Prefork.Http

inductive RequestError where
  | malformedRequestLine (line : String)
  | malformedHeader (line : String)
  | unknownMethod (name : String)
  | unsupportedVersion (name : String)
  | invalidContentLength (value : String)
  | invalidUtf8 (fault : Utf8.Fault)
  | bodyTooLarge (size max : Nat)
  deriving DecidableEq, Repr

namespace RequestError

def message : RequestError → String
  | malformedRequestLine line => s!"malformed request line: {Text.quoted line}"
  | malformedHeader line => s!"malformed header: {Text.quoted line}"
  | unknownMethod name => s!"unknown method: {name}"
  | unsupportedVersion name => s!"unsupported version: {name}"
  | invalidContentLength value => s!"invalid content-length: {Text.quoted value}"
  | invalidUtf8 fault => s!"invalid UTF-8: {fault.message}"
  | bodyTooLarge size max => s!"body too large: {size} bytes (max: {max})"

def status : RequestError → Status
  | unsupportedVersion _ => .versionNotSupported
  | bodyTooLarge _ _ => .payloadTooLarge
  | _ => .badRequest

end RequestError

end Prefork.Http
