import Prefork.Host.Errno

namespace Prefork.Host

inductive IoError where
  | os (errno : Errno)
  | other (text : String)
  deriving DecidableEq, Repr

namespace IoError

def message : IoError → String
  | os errno => errno.message
  | other text => text

def writeZero : IoError := other "write zero"

end IoError

end Prefork.Host
