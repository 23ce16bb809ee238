import Prefork.Host.Errno
import Prefork.Text.Quoted

namespace Prefork.Coordination

open Host (Errno)

inductive Error where
  | os (call : String) (errno : Errno)
  | keyTooLong (size max : Nat)
  | messageTooLarge (size max : Nat)
  | queueFull
  | storeFull (key : String)
  | poisoned
  deriving DecidableEq, Repr

def Error.message : Error → String
  | os call errno => s!"{call} failed: {errno.message}"
  | keyTooLong size max => s!"key too long: {size} bytes (max: {max})"
  | messageTooLarge size max => s!"message too large: {size} bytes (max: {max})"
  | queueFull => "message queue full"
  | storeFull key => s!"store full, cannot insert {Text.quoted key}"
  | poisoned => "primitive poisoned by a panicked thread"

end Prefork.Coordination
