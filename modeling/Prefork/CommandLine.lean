import Prefork.Settings
import Prefork.Text.Numeral
import Prefork.Text.Split

namespace Prefork.CommandLine

/-- Why arguments are not run with. Two of the causes are requests for information. -/
inductive UsageError where
  | unknownArgument
  | invalidValue
  | valueValidation
  | argumentConflict
  | tooManyValues
  | displayHelp
  | displayVersion
  deriving DecidableEq, Repr

inductive Opt where
  | address | port | processes | service | logLevel | backlog | pollTimeout | heartbeat
  | workerTimeout | maxBuffer
  deriving DecidableEq, Repr

namespace Opt

def all : List Opt :=
  [address, port, processes, service, logLevel, backlog, pollTimeout, heartbeat, workerTimeout,
    maxBuffer]

def long : Opt → String
  | address => "address"
  | port => "port"
  | processes => "processes"
  | service => "handler"
  | logLevel => "log-level"
  | backlog => "backlog"
  | pollTimeout => "poll-timeout-ms"
  | heartbeat => "heartbeat-secs"
  | workerTimeout => "worker-timeout-secs"
  | maxBuffer => "max-buffer"

def short? : Opt → Option Char
  | address => some 'a'
  | port => some 'p'
  | processes => some 'n'
  | service => some 'H'
  | logLevel => some 'L'
  | backlog | pollTimeout | heartbeat | workerTimeout | maxBuffer => none

end Opt

inductive Switch where
  | opt (o : Opt) (value : Option (List Char))
  | info (answer : UsageError) (value : Option (List Char))
  | unknown
  deriving DecidableEq, Repr

def longSwitch (cs : List Char) : Switch :=
  let (name, value) := match Text.cut? '=' cs with
    | some (name, value) => (name, some value)
    | none => (cs, none)
  match Opt.all.find? (·.long.toList == name) with
  | some o => .opt o value
  | none =>
    if name == "help".toList then .info .displayHelp value
    else if name == "version".toList then .info .displayVersion value
    else .unknown

def shortSwitch (letter : Char) (rest : List Char) : Switch :=
  match Opt.all.find? (·.short? == some letter) with
  | some o => .opt o <| match rest with
    | [] => none
    | '=' :: value => some value
    | value => some value
  | none => match letter with
    | 'h' => .info .displayHelp none
    | 'V' => .info .displayVersion none
    | _ => .unknown

def switch? : List Char → Option Switch
  | '-' :: '-' :: name => some (longSwitch name)
  | '-' :: letter :: rest => some (shortSwitch letter rest)
  | _ => none

def assign (s : Settings) (o : Opt) (value : List Char) : Except UsageError Settings :=
  let word := Text.natural? Text.maxWord
  match o with
  | .address => .ok { s with address := String.ofList value }
  | .port => match Text.integer? 0 65535 value with
    | some n => .ok { s with port := n.toNat }
    | none => .error .valueValidation
  | .processes => match Text.integer? minProcesses maxProcesses value with
    | some n => .ok { s with processes := n.toNat }
    | none => .error .valueValidation
  | .service => match Service.all.find? (·.name.toList == value) with
    | some service => .ok { s with service }
    | none => .error .invalidValue
  | .logLevel => match LogLevel.all.find? (·.name.toList == value) with
    | some logLevel => .ok { s with logLevel }
    | none => .error .invalidValue
  | .backlog => match Text.integer? Int32.minValue.toInt Int32.maxValue.toInt value with
    | some backlog => .ok { s with backlog }
    | none => .error .valueValidation
  | .pollTimeout => match (word value).filter fun n ↦ 100 ≤ n && n ≤ 5000 with
    | some n => .ok { s with pollTimeoutMillis := n }
    | none => .error .valueValidation
  | .heartbeat => match (word value).filter (1 ≤ ·) with
    | some n => .ok { s with heartbeatSeconds := n }
    | none => .error .valueValidation
  | .workerTimeout => match (word value).filter (1 ≤ ·) with
    | some n => .ok { s with workerTimeoutSeconds := n }
    | none => .error .valueValidation
  | .maxBuffer => match word value with
    | some n => .ok { s with maxBuffer := n }
    | none => .error .valueValidation

/-- How far the arguments have been read. `pending` is an option whose value has not been judged,
or has not come yet. -/
structure Progress where
  settings : Settings := {}
  given : List Opt := []
  pending : Option (Opt × Option (List Char)) := none

namespace Progress

def give (p : Progress) (o : Opt) (value : List Char) : Except UsageError Progress := do
  if p.given.contains o then throw .argumentConflict
  let settings ← assign p.settings o value
  return { settings, given := o :: p.given }

def settle (p : Progress) : Except UsageError Progress :=
  match p.pending with
  | none => .ok p
  | some (_, none) => .error .invalidValue
  | some (o, some value) => p.give o value

end Progress

/-- Reads arguments from the left. The first mistake that is noticed counts, and a value is
judged no sooner than the next option. Nothing may follow a double dash. -/
def read (p : Progress) : List (List Char) → Except UsageError Settings
  | [] => p.settle.map (·.settings)
  | [['-', '-']] => p.settle.map (·.settings)
  | ['-', '-'] :: _ => .error .unknownArgument
  | argument :: rest => match switch? argument with
    | some (.opt o value) => match p.settle with
      | .error e => .error e
      | .ok p => match value with
        | none => read { p with pending := some (o, none) } rest
        | some value => match p.give o value with
          | .error e => .error e
          | .ok p => read p rest
    | some (.info answer none) => match p.settle with
      | .error e => .error e
      | .ok _ => .error answer
    | some (.info _ (some _)) => .error .tooManyValues
    | some .unknown => .error .unknownArgument
    | none => match p.pending with
      | some (o, none) => read { p with pending := some (o, some argument) } rest
      | _ => .error .unknownArgument

def parse (arguments : List String) : Except UsageError Settings :=
  read {} (arguments.map String.toList)

end Prefork.CommandLine
