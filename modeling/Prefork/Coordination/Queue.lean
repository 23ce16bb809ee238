import Prefork.Bytes
import Prefork.Coordination.Error

namespace Prefork.Coordination

open Host (Errno)

inductive Queue where
  | unbounded (messages : Array Bytes)
  | kernel (messages : Array Bytes) (live : Bool)
  deriving DecidableEq, Repr

namespace Queue

def maxMessage : Nat := 256

def capacity : Nat := 16384

def messages : Queue → Array Bytes
  | unbounded messages => messages
  | kernel messages _ => messages

def isLive : Queue → Bool
  | unbounded _ => true
  | kernel _ live => live

def size (q : Queue) : Nat := q.messages.foldl (fun n m ↦ n + m.length) 0

def hasRoom (q : Queue) (message : Bytes) : Bool :=
  message.length + q.size ≤ capacity && q.messages.size + 1 ≤ capacity

def send (q : Queue) (message : Bytes) : Except Error Unit × Queue :=
  if maxMessage < message.length then
    (.error (.messageTooLarge message.length maxMessage), q)
  else match q with
    | unbounded messages => (.ok (), unbounded (messages.push message))
    | kernel messages false => (.error (.os "msgsnd" Errno.invalid), kernel messages false)
    | kernel messages true =>
      if hasRoom (kernel messages true) message then
        (.ok (), kernel (messages.push message) true)
      else (.error .queueFull, kernel messages true)

def receive (q : Queue) : Except Error (Option Bytes) × Queue :=
  let rest : Array Bytes := (q.messages.toList.drop 1).toArray
  match q with
  | unbounded messages => (.ok messages[0]?, unbounded rest)
  | kernel messages false => (.error (.os "msgrcv" Errno.invalid), kernel messages false)
  | kernel messages true => (.ok messages[0]?, kernel rest true)

def destroy : Queue → Except Error Unit × Queue
  | unbounded _ => (.ok (), unbounded #[])
  | kernel _ true => (.ok (), kernel #[] false)
  | kernel messages false =>
    (.error (.os "msgctl(IPC_RMID)" Errno.invalid), kernel messages false)

end Queue

end Prefork.Coordination
