namespace Prefork.Http

inductive Status where
  | switchingProtocols | ok | badRequest | payloadTooLarge | upgradeRequired
  | internalServerError | versionNotSupported
  deriving DecidableEq, Repr

namespace Status

def all : List Status :=
  [switchingProtocols, ok, badRequest, payloadTooLarge, upgradeRequired, internalServerError,
    versionNotSupported]

def code : Status → Nat
  | switchingProtocols => 101
  | ok => 200
  | badRequest => 400
  | payloadTooLarge => 413
  | upgradeRequired => 426
  | internalServerError => 500
  | versionNotSupported => 505

def reason : Status → String
  | switchingProtocols => "Switching Protocols"
  | ok => "OK"
  | badRequest => "Bad Request"
  | payloadTooLarge => "Payload Too Large"
  | upgradeRequired => "Upgrade Required"
  | internalServerError => "Internal Server Error"
  | versionNotSupported => "HTTP Version Not Supported"

def allowsBody (s : Status) : Bool := s != switchingProtocols

def ofCode? (n : Nat) : Option Status := all.find? (·.code == n)

end Status

end Prefork.Http
