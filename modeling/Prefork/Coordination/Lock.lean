import Prefork.Coordination.Error

namespace Prefork.Coordination

open Host (Errno)

/-- What the handles of a lock share: a flag within one process, or a semaphore of the operating
system, which counts 1 while the lock is free and can be removed. -/
inductive Lock where
  | flag (locked : Bool)
  | semaphore (value : Nat) (live : Bool)
  deriving DecidableEq, Repr

namespace Lock

/-- What a call on a handle gives: its result, the lock, and whether the handle now holds it. -/
structure Outcome (α : Type) where
  result : Except Error α
  lock : Lock
  held : Bool

def free : Lock → Bool
  | flag locked => !locked
  | semaphore value _ => value = 1

def isLive : Lock → Bool
  | flag _ => true
  | semaphore _ live => live

/-- Adds to the semaphore, or takes one from it. A request that a signal interrupts is made again,
one that fails leaves the semaphore alone, and one that must not wait says so if it would. -/
def operate (value : Nat) (live up nowait : Bool) (fault : Option Errno) : Except Error Bool × Lock :=
  match fault.filter (· ≠ Errno.interrupted), live with
  | some errno, _ =>
    if nowait && errno = Errno.again then (.ok false, semaphore value live)
    else (.error (.os "semop" errno), semaphore value live)
  | none, false => (.error (.os "semop" Errno.invalid), semaphore value live)
  | none, true =>
    if up then (.ok true, semaphore (value + 1) live)
    else if value = 0 then (.ok false, semaphore value live)
    else (.ok true, semaphore (value - 1) live)

def take (l : Lock) (nowait : Bool) (fault : Option Errno) : Except Error Bool × Lock :=
  match l with
  | flag locked => (.ok !locked, flag true)
  | semaphore value live => operate value live false nowait fault

def give (l : Lock) (fault : Option Errno) : Except Error Bool × Lock :=
  match l with
  | flag _ => (.ok true, flag false)
  | semaphore value live => operate value live true false fault

def seize (l : Lock) (nowait held : Bool) (fault : Option Errno) : Outcome Bool :=
  if held then ⟨.ok true, l, true⟩
  else match l.take nowait fault with
    | (.ok won, l) => ⟨.ok won, l, won⟩
    | (.error e, l) => ⟨.error e, l, false⟩

def tryAcquire (l : Lock) (held : Bool) (fault : Option Errno) : Outcome Bool :=
  l.seize true held fault

def acquire (l : Lock) (held : Bool) (fault : Option Errno) : Outcome Bool :=
  l.seize false held fault

/-- Gives the lock back. The handle no longer counts as the holder even if the call fails. The
result is false for a handle that did not hold it. -/
def release (l : Lock) (held : Bool) (fault : Option Errno) : Outcome Bool :=
  if held then
    let (result, l) := l.give fault
    ⟨result, l, false⟩
  else ⟨.ok false, l, false⟩

def destroy : Lock → Except Error Unit × Lock
  | flag locked => (.ok (), flag locked)
  | semaphore value true => (.ok (), semaphore value false)
  | semaphore value false =>
    (.error (.os "semctl(IPC_RMID)" Errno.invalid), semaphore value false)

end Lock

end Prefork.Coordination
