import Prefork.Coordination.Lock
import Prefork.Coordination.Queue
import Prefork.Coordination.Store

namespace Prefork.Coordination

/-- Handles on shared objects, numbered in the order they were made. Each refers to an object by
its place and has a state `β` of its own; a handle that was used up is `none`. `named` is the
object that has the well-known key; a first object may be private and have none. -/
structure Handles (α β : Type) where
  objects : List α
  handles : List (Option (Nat × β))
  named : Option Nat

namespace Handles

variable {α β : Type}

def single (object : α) (own : β) (named : Bool) : Handles α β :=
  { objects := [object], handles := [some (0, own)], named := if named then some 0 else none }

def find? (h : Handles α β) (i : Nat) : Option (Nat × α × β) := do
  let (place, own) ← (h.handles[i]?).join
  let object ← h.objects[place]?
  return (place, object, own)

def update (h : Handles α β) (i place : Nat) (object : α) (own : β) : Handles α β :=
  { h with objects := h.objects.set place object, handles := h.handles.set i (some (place, own)) }

def drop (h : Handles α β) (i : Nat) : Handles α β := { h with handles := h.handles.set i none }

def share (h : Handles α β) (place : Nat) (own : β) : Nat × Handles α β :=
  (h.handles.length, { h with handles := h.handles ++ [some (place, own)] })

def reopen (h : Handles α β) (isLive : α → Bool) (fresh : α) (own : β) : Nat × Handles α β :=
  match h.named.filter fun place ↦ (h.objects[place]?).any isLive with
  | some place => h.share place own
  | none =>
    let place := h.objects.length
    { h with objects := h.objects ++ [fresh], named := some place }.share place own

def cloneLock (h : Handles Lock Bool) (place : Nat) : Nat × Handles Lock Bool := h.share place false

def reopenLock (h : Handles Lock Bool) (place : Nat) (l : Lock) : Nat × Handles Lock Bool :=
  match l with
  | .flag _ => h.share place false
  | .semaphore _ _ => h.reopen Lock.isLive (.semaphore 1 true) false

def cloneStore (h : Handles Store Unit) (place : Nat) (s : Store) : Nat × Handles Store Unit :=
  match s with
  | .map _ => h.share place ()
  | .table _ _ => h.reopen Store.isLive .emptyTable ()

def cloneQueue (h : Handles Queue Unit) (place : Nat) (q : Queue) : Nat × Handles Queue Unit :=
  match q, h.named with
  | .kernel _ _, some _ => h.reopen Queue.isLive (.kernel #[] true) ()
  | _, _ => h.share place ()

end Handles

end Prefork.Coordination
