namespace Prefork.Http

inductive Version where
  | http09 | http10 | http11
  deriving DecidableEq, Repr

namespace Version

def all : List Version := [http09, http10, http11]

def number : Version → String
  | http09 => "0.9"
  | http10 => "1.0"
  | http11 => "1.1"

def name (v : Version) : String := "HTTP/" ++ v.number

def ofName? (s : String) : Option Version := all.find? (·.name == s)

def ofNumber? (s : String) : Option Version := all.find? (·.number == s)

end Version

end Prefork.Http
