import Prefork.Service

namespace Prefork

inductive LogLevel where
  | error | warn | info | debug | trace
  deriving DecidableEq, Repr

namespace LogLevel

def all : List LogLevel := [error, warn, info, debug, trace]

def name : LogLevel → String
  | error => "error"
  | warn => "warn"
  | info => "info"
  | debug => "debug"
  | trace => "trace"

end LogLevel

def minProcesses : Nat := 1
def maxProcesses : Nat := 1024

structure ServerSettings where
  readChunk : Nat := 4096
  maxBuffer : Nat := 16 * 1024 * 1024
  pollTimeoutMillis : Nat := 1000
  deriving DecidableEq, Repr

structure SupervisorSettings where
  processes : Nat := 1
  heartbeatSeconds : Nat := 5
  workerTimeoutSeconds : Nat := 10
  deriving DecidableEq, Repr

namespace SupervisorSettings

def clampProcesses (n : Nat) : Nat := max minProcesses (min n maxProcesses)

def withProcesses (n : Nat) : SupervisorSettings := { processes := clampProcesses n }

end SupervisorSettings

structure Settings where
  address : String := "0.0.0.0"
  port : Nat := 8080
  processes : Nat := 1
  service : Service := .http
  logLevel : LogLevel := .info
  backlog : Int := 100
  pollTimeoutMillis : Nat := 1000
  heartbeatSeconds : Nat := 5
  workerTimeoutSeconds : Nat := 10
  maxBuffer : Nat := 16 * 1024 * 1024
  deriving DecidableEq, Repr

namespace Settings

def release : String := "0.1.0"

def bindAddress (s : Settings) : String := s!"{s.address}:{s.port}"

def server (s : Settings) : ServerSettings :=
  { maxBuffer := s.maxBuffer, pollTimeoutMillis := s.pollTimeoutMillis }

def supervisor (s : Settings) : SupervisorSettings :=
  { processes := SupervisorSettings.clampProcesses s.processes
    heartbeatSeconds := s.heartbeatSeconds
    workerTimeoutSeconds := s.workerTimeoutSeconds }

end Settings

end Prefork
