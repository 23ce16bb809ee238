import Prefork.Text.Blank
import Prefork.Text.Split

namespace Prefork.Http

open Text (sameFolded)

/-- Header fields in the order they are written. Names are compared up to ASCII case, and a name
may occur more than once. -/
structure Headers where
  entries : List (String × String) := []
  deriving DecidableEq, Repr

namespace Headers

def getAll (h : Headers) (name : String) : List String :=
  (h.entries.filter fun e ↦ sameFolded e.1 name).map (·.2)

def get? (h : Headers) (name : String) : Option String :=
  (h.entries.find? fun e ↦ sameFolded e.1 name).map (·.2)

def contains (h : Headers) (name : String) : Bool := (h.get? name).isSome

def append (h : Headers) (name value : String) : Headers := ⟨h.entries ++ [(name, value)]⟩

def erase (h : Headers) (name : String) : Headers :=
  ⟨h.entries.filter fun e ↦ !sameFolded e.1 name⟩

def remove (h : Headers) (name : String) : Bool × Headers :=
  let rest := h.erase name
  (h.entries.length != rest.entries.length, rest)

def set (h : Headers) (name value : String) : Headers := (h.erase name).append name value

def hasToken (h : Headers) (name token : String) : Bool :=
  (h.getAll name).any fun value ↦
    (Text.pieces [','] value.toList).any fun item ↦
      (Text.trim item).map Char.toLower == Text.fold token

end Headers

end Prefork.Http
