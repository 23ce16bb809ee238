import Prefork.Text.Split

namespace Prefork.Http.Target

open Text (find? before behind)

def separator : List Char := [':', '/', '/']

/-- A target less its authority. A target with a scheme separator in it counts as absolute, and
its authority ends at the next slash. -/
def stripAuthority (target : List Char) : List Char :=
  match find? separator target with
  | some i => (target.drop (i + separator.length)).dropWhile (· != '/')
  | none => target

def path (target : String) : String :=
  match before (fun c ↦ c == '?' || c == '#') (stripAuthority target.toList) with
  | [] => "/"
  | cs => String.ofList cs

def query (target : String) : String :=
  String.ofList (before (· == '#') (behind (· == '?') (stripAuthority target.toList)))

def fragment (target : String) : String := String.ofList (behind (· == '#') target.toList)

end Prefork.Http.Target
