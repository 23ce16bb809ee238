import Prefork.WebSocket.Session

namespace Prefork

inductive Service where
  | http | websocket | echo | daytime | time | null
  deriving DecidableEq, Repr

namespace Service

def all : List Service := [http, websocket, echo, daytime, time, null]

def name : Service → String
  | http => "http"
  | websocket => "websocket"
  | echo => "echo"
  | daytime => "daytime"
  | time => "time"
  | null => "null"

def echoProtocol : Protocol Unit where
  received data s := { state := s, output := data }

def greetingProtocol (greeting : Time.Millis → Bytes) : Protocol Unit where
  opened now s := { state := s, output := greeting now }
  received _ s := { state := s }
  drained s := { state := s, stays := false }

def nullProtocol : Protocol Unit where
  opened _ s := { state := s, stays := false }
  received _ s := { state := s, stays := false }
  drained s := { state := s, stays := false }

def secondsBefore1970 : Nat := 2208988800

def daytimeGreeting (now : Time.Millis) : Bytes := Utf8.encode (Time.daytimeText now ++ "\r\n")

/-- The seconds since 1900 in four bytes, which wrap in 2036. Times before 1970 count as 1970. -/
def timeGreeting (now : Time.Millis) : Bytes :=
  Bytes.ofNat 4 ((now / 1000).toNat + secondsBefore1970)

def State : Service → Type
  | http => Http.Session
  | websocket => WebSocket.Session Unit
  | echo | daytime | time | null => Unit

def start : (s : Service) → s.State
  | http => ({} : Http.Session)
  | websocket => ({ application := () } : WebSocket.Session Unit)
  | echo | daytime | time | null => ()

def protocol (responder : Http.Responder) : (s : Service) → Protocol s.State
  | http => Http.Session.protocol responder
  | websocket => WebSocket.Session.protocol .echo responder WebSocket.Frame.maxPayload
  | echo => echoProtocol
  | daytime => greetingProtocol daytimeGreeting
  | time => greetingProtocol timeGreeting
  | null => nullProtocol

end Service

end Prefork
