namespace Prefork.Http

inductive Method where
  | get | post | head | put | delete | options | trace | patch
  deriving DecidableEq, Repr

namespace Method

def all : List Method := [get, post, head, put, delete, options, trace, patch]

def name : Method → String
  | get => "GET"
  | post => "POST"
  | head => "HEAD"
  | put => "PUT"
  | delete => "DELETE"
  | options => "OPTIONS"
  | trace => "TRACE"
  | patch => "PATCH"

def ofName? (s : String) : Option Method := all.find? (·.name == s)

end Method

end Prefork.Http
