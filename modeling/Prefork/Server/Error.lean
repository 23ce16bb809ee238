import Prefork.Host.IoError

namespace Prefork.Server

open Host (IoError)

inductive ServerError where
  | poller (error : IoError)
  | poll (error : IoError)
  | register (error : IoError)
  | listenerBroken
  deriving DecidableEq, Repr

def ServerError.message : ServerError → String
  | poller e => s!"failed to create poller: {e.message}"
  | poll e => s!"poll failed: {e.message}"
  | register e => s!"failed to register listening socket: {e.message}"
  | listenerBroken => "listening socket is broken"

inductive ConnectionError where
  | io (error : IoError)
  | bufferFull (size max : Nat)
  deriving DecidableEq, Repr

def ConnectionError.message : ConnectionError → String
  | io e => s!"I/O error: {e.message}"
  | bufferFull size max => s!"buffer size limit exceeded: {size} bytes (max: {max})"

inductive HandlerError where
  | refused (id : UInt64) (reason : String)
  deriving DecidableEq, Repr

def HandlerError.message : HandlerError → String
  | refused id reason => s!"handler refused connection {id}: {reason}"

end Prefork.Server
