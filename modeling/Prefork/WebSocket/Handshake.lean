import Prefork.Digest.Base64
import Prefork.Digest.Sha1
import Prefork.Http.Response
import Prefork.Text.Quoted

namespace Prefork.WebSocket

open Http (Request Response)

inductive HandshakeError where
  | unsupportedVersion (given : Option String)
  | missingKey
  deriving DecidableEq, Repr

namespace Handshake

def version : String := "13"

def guid : String := "258EAFA5-E914-47DA-95CA-C5AB0DC85B11"

def acceptKey (key : String) : String := Base64.encode (Sha1.digest (Utf8.encode (key ++ guid)))

def isUpgrade (r : Request) : Bool :=
  r.version == .http11 && r.headers.hasToken "connection" "upgrade" &&
    match r.headers.get? "upgrade" with
    | some value => (Text.trim value.toList).map Char.toLower == Text.fold "websocket"
    | none => false

/-- Judges a request for the change. The version is looked at before the key. -/
def accept (r : Request) : Except HandshakeError Response :=
  let given := r.headers.get? "sec-websocket-version"
  if given.map (fun v ↦ Text.trim v.toList) ≠ some version.toList then
    .error (.unsupportedVersion given)
  else match (r.headers.get? "sec-websocket-key").map fun key ↦ Text.trim key.toList with
    | none | some [] => .error .missingKey
    | some key => .ok
      { version := .http11, status := .switchingProtocols
        headers := (Http.Headers.set {} "Upgrade" "websocket").set "Connection" "Upgrade"
          |>.set "Sec-WebSocket-Accept" (acceptKey (String.ofList key)) }

end Handshake

namespace HandshakeError

def message : HandshakeError → String
  | unsupportedVersion given => s!"unsupported websocket version: {Text.quotedOption given}"
  | missingKey => "missing Sec-WebSocket-Key"

def response (e : HandshakeError) (version : Http.Version) : Response :=
  let body := Utf8.encode (e.message ++ "\n")
  match e with
  | missingKey => .text version .badRequest body
  | unsupportedVersion _ =>
    let r := Response.text version .upgradeRequired body
    { r with headers := r.headers.set "Sec-WebSocket-Version" Handshake.version }

end HandshakeError

end Prefork.WebSocket
