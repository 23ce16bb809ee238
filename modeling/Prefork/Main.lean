import Prefork.CommandLine
import Std.Time.DateTime.Timestamp

namespace Prefork

open CommandLine (Opt UsageError)

def usage : String :=
  let option (o : Opt) : String := s!"  --{o.long} <value>\n"
  "Usage: prefork [options]\n\nServes one connection on standard input and output.\n\nOptions:\n" ++
    String.join (Opt.all.map option) ++ "  --help\n  --version\n"

def complaint : UsageError → String
  | .unknownArgument => "unexpected argument"
  | .invalidValue => "a value is missing or not among those possible"
  | .valueValidation => "a number is malformed or out of range"
  | .argumentConflict => "an option is given twice"
  | .tooManyValues => "an option takes no value"
  | .displayHelp => "help was asked for"
  | .displayVersion => "the version was asked for"

def unixMillis : IO Time.Millis :=
  return (← Std.Time.Timestamp.now).toMillisecondsSinceUnixEpoch.val

partial def converse {σ : Type} (protocol : Protocol σ) (settings : ServerSettings)
    (input output : IO.FS.Stream) (r : Reply σ) : IO Unit := do
  if !r.stays then return
  if r.output.isEmpty then
    let data ← input.read settings.readChunk.toUSize
    if data.isEmpty || settings.maxBuffer < data.size + protocol.buffered r.state then return
    converse protocol settings input output (protocol.received data.toList r.state)
  else
    output.write ⟨r.output.toArray⟩
    output.flush
    converse protocol settings input output (protocol.drained r.state)

def serve (settings : Settings) : IO Unit := do
  let protocol := settings.service.protocol .greeting
  let opened := protocol.opened (← unixMillis) settings.service.start
  converse protocol settings.server (← IO.getStdin) (← IO.getStdout) opened

def run (arguments : List String) : IO UInt32 := do
  match CommandLine.parse arguments with
  | .ok settings => serve settings; return 0
  | .error .displayHelp => IO.print usage; return 0
  | .error .displayVersion => IO.println s!"prefork {Settings.release}"; return 0
  | .error e => IO.eprintln s!"error: {complaint e}"; return 2

end Prefork

def main (arguments : List String) : IO UInt32 := Prefork.run arguments
