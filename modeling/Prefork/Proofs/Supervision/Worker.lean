import Prefork.Supervision.Worker

namespace Prefork.Supervision

open Coordination (Lock)
open Time (Clock Nanos)

namespace Commons

def messages (c : Commons) : List Bytes := c.queue.messages.toList

def takes (c : Commons) (message : Bytes) : Bool :=
  !c.faults.queue && (c.queue.send message).1.isOk

def offered (c : Commons) (message : Bytes) : Commons :=
  if c.faults.queue then c else { c with queue := (c.queue.send message).2 }

theorem offered_spares (c : Commons) (message : Bytes) :
    (c.offered message).lock = c.lock ∧ (c.offered message).store = c.store := by
  rw [offered]
  split <;> exact ⟨rfl, rfl⟩

end Commons

theorem messages_send (q : Coordination.Queue) (message : Bytes) :
    (q.send message).2.messages.toList =
      q.messages.toList ++ if (q.send message).1.isOk then [message] else [] := by
  rw [Coordination.Queue.send.eq_def]
  split
  · exact (List.append_nil _).symm
  · split
    · exact Array.toList_push ..
    · exact (List.append_nil _).symm
    · split
      · exact Array.toList_push ..
      · exact (List.append_nil _).symm

theorem Commons.messages_offered (c : Commons) (message : Bytes) :
    (c.offered message).messages = c.messages ++ if c.takes message then [message] else [] := by
  rw [offered, takes]
  cases c.faults.queue with
  | true => exact (List.append_nil _).symm
  | false => exact messages_send c.queue message

namespace Worker

variable {m : Type → Type} [Monad m] {w : Worker} {now : Nanos} {clock : Clock}

def heartbeat (w : Worker) (clock : Clock) (count : Nat) : Heartbeat :=
  ⟨w.id, some clock.unix, reported count⟩

def sentinel (w : Worker) (count : Nat) : Heartbeat := ⟨w.id, none, reported count⟩

def ask (w : Worker) (c : Commons) : Lock.Outcome Bool :=
  if c.faults.lock then ⟨.error .poisoned, c.lock, w.held⟩ else c.lock.tryAcquire w.held none

theorem tryEnter_of_not_mayTry (h : w.mayTry now = false) (c : Commons) :
    w.tryEnter now c = (false, w, c) := by
  rw [tryEnter, tryEnterBy, h]
  rfl

theorem tryEnterBy_of_mayTry (later : Later m) (h : w.mayTry now = true) (c : Commons) :
    w.tryEnterBy later now c =
      let c' := { c with lock := (w.ask c).lock }
      match (w.ask c).result with
      | .ok won =>
        pure (won, { w with held := (w.ask c).held, retryAt := none, lockBackoff := {} }, c')
      | .error _ => do
        let retryAt ← later c' now w.lockBackoff.delay
        return (false, { w with
          held := (w.ask c).held
          retryAt := some retryAt
          lockBackoff := w.lockBackoff.fail }, c') := by
  rw [tryEnterBy, h]
  rfl

theorem tryEnter_of_mayTry (h : w.mayTry now = true) (c : Commons) :
    w.tryEnter now c = ((w.ask c).result.toOption.getD false,
      if (w.ask c).result.isOk then
        { w with held := (w.ask c).held, retryAt := none, lockBackoff := {} }
      else
        { w with
          held := (w.ask c).held
          retryAt := some (now + w.lockBackoff.delay)
          lockBackoff := w.lockBackoff.fail },
      { c with lock := (w.ask c).lock }) := by
  rw [tryEnter, tryEnterBy_of_mayTry _ h]
  cases (w.ask c).result <;> rfl

theorem leave_keeps (w : Worker) (c : Commons) :
    (w.leave c).1.id = w.id ∧ (w.leave c).1.interval = w.interval ∧
      (w.leave c).1.beatBackoff = w.beatBackoff ∧ (w.leave c).2.queue = c.queue ∧
      (w.leave c).2.faults = c.faults := by
  rw [leave]
  split <;> exact ⟨rfl, rfl, rfl, rfl, rfl⟩

theorem held_leave (w : Worker) {c : Commons} (hc : c.faults.release = false) :
    (w.leave c).1.held = false := by
  rw [leave, hc]
  simp only [Bool.false_eq_true, if_false, Lock.release]
  split <;> rfl

def relinquish (w : Worker) (c : Commons) : Worker × Commons :=
  if w.held then w.leave c else (w, c)

theorem relinquish_keeps (w : Worker) (c : Commons) :
    (w.relinquish c).1.id = w.id ∧ (w.relinquish c).1.interval = w.interval ∧
      (w.relinquish c).1.beatBackoff = w.beatBackoff ∧ (w.relinquish c).2.queue = c.queue ∧
      (w.relinquish c).2.faults = c.faults := by
  rw [relinquish]
  split
  · exact w.leave_keeps c
  · exact ⟨rfl, rfl, rfl, rfl, rfl⟩

theorem held_relinquish (w : Worker) {c : Commons} (hc : c.faults.release = false) :
    (w.relinquish c).1.held = false := by
  rw [relinquish]
  split
  · exact w.held_leave hc
  · next hh => exact Bool.eq_false_iff.2 hh

theorem takes_relinquish (w : Worker) (c : Commons) : (w.relinquish c).2.takes = c.takes := by
  obtain ⟨-, -, -, hqueue, hfaults⟩ := w.relinquish_keeps c
  funext message
  rw [Commons.takes, hqueue, hfaults, Commons.takes]

theorem reportBy_eq (later : Later m) (now : Nanos) (h : Heartbeat) (w : Worker) (c : Commons) :
    w.reportBy later now h c =
      if c.takes h.encode then pure (true, { w with beatBackoff := {} }, c.offered h.encode)
      else do
        let nextBeat ← later (c.offered h.encode) now w.beatBackoff.delay
        return (false, { w with nextBeat, beatBackoff := w.beatBackoff.fail },
          c.offered h.encode) := by
  rw [reportBy, Commons.takes, Commons.offered]
  cases c.faults.queue with
  | true => rfl
  | false =>
    simp only [Bool.false_eq_true, if_false, Bool.not_false, Bool.true_and]
    generalize c.queue.send h.encode = sent
    obtain ⟨result, queue⟩ := sent
    cases result <;> rfl

theorem report_eq (now : Nanos) (h : Heartbeat) (w : Worker) (c : Commons) :
    w.report now h c = (c.takes h.encode,
      if c.takes h.encode then { w with beatBackoff := {} }
      else { w with nextBeat := now + w.beatBackoff.delay, beatBackoff := w.beatBackoff.fail },
      c.offered h.encode) := by
  rw [report, reportBy_eq]
  cases c.takes h.encode <;> rfl

theorem report_keeps (now : Nanos) (h : Heartbeat) (w : Worker) (c : Commons) :
    (w.report now h c).2.1.id = w.id ∧ (w.report now h c).2.1.interval = w.interval ∧
      (w.report now h c).2.1.held = w.held := by
  rw [report_eq]
  dsimp only
  split <;> exact ⟨rfl, rfl, rfl⟩

theorem report_spares (now : Nanos) (h : Heartbeat) (w : Worker) (c : Commons) :
    (w.report now h c).2.2.lock = c.lock ∧ (w.report now h c).2.2.store = c.store := by
  rw [report_eq]
  exact c.offered_spares h.encode

theorem tick_of_not_due (h : w.isDue clock.instant = false) (count : Nat) (c : Commons) :
    w.tick clock count c = (w, c) := by
  rw [tick, tickBy, h]
  rfl

theorem tickBy_of_due [LawfulMonad m] (later : Later m) (h : w.isDue clock.instant = true)
    (count : Nat) (c : Commons) :
    w.tickBy later clock count c =
      let message := (w.heartbeat clock count).encode
      if c.takes message then do
        let nextBeat ← later (c.offered message) clock.instant w.interval
        return ({ w with nextBeat, beatBackoff := {} }, c.offered message)
      else do
        let nextBeat ← later (c.offered message) clock.instant w.beatBackoff.delay
        return ({ w with nextBeat, beatBackoff := w.beatBackoff.fail }, c.offered message) := by
  rw [tickBy, h]
  simp only [Bool.not_true, Bool.false_eq_true, if_false, reportBy_eq, heartbeat]
  split
  · next ht => simp only [ht, if_true, pure_bind]
  · next ht => simp only [ht, Bool.false_eq_true, if_false, bind_assoc, pure_bind]

theorem tick_of_due (h : w.isDue clock.instant = true) (count : Nat) (c : Commons) :
    w.tick clock count c =
      (if c.takes (w.heartbeat clock count).encode then
        { w with nextBeat := clock.instant + w.interval, beatBackoff := {} }
      else
        { w with
          nextBeat := clock.instant + w.beatBackoff.delay
          beatBackoff := w.beatBackoff.fail },
      c.offered (w.heartbeat clock count).encode) := by
  rw [tick, tickBy_of_due _ h]
  dsimp only
  split <;> rfl

theorem tick_keeps (clock : Clock) (count : Nat) (w : Worker) (c : Commons) :
    (w.tick clock count c).1.id = w.id ∧ (w.tick clock count c).1.interval = w.interval ∧
      (w.tick clock count c).1.held = w.held := by
  cases hd : w.isDue clock.instant with
  | false =>
    rw [tick_of_not_due hd]
    exact ⟨rfl, rfl, rfl⟩
  | true =>
    rw [tick_of_due hd]
    dsimp only
    split <;> exact ⟨rfl, rfl, rfl⟩

theorem tick_spares (clock : Clock) (count : Nat) (w : Worker) (c : Commons) :
    (w.tick clock count c).2.lock = c.lock ∧ (w.tick clock count c).2.store = c.store := by
  cases hd : w.isDue clock.instant with
  | false =>
    rw [tick_of_not_due hd]
    exact ⟨rfl, rfl⟩
  | true =>
    rw [tick_of_due hd]
    exact c.offered_spares _

theorem shutdownBy_eq (later : Later m) (clock : Clock) (count : Nat) (w : Worker) (c : Commons) :
    w.shutdownBy later clock count c = (·.2) <$>
      (w.relinquish c).1.reportBy later clock.instant (w.sentinel count) (w.relinquish c).2 := by
  rw [sentinel, ← (w.relinquish_keeps c).1]
  rfl

theorem shutdown_eq (clock : Clock) (count : Nat) (w : Worker) (c : Commons) :
    w.shutdown clock count c =
      ((w.relinquish c).1.report clock.instant (w.sentinel count) (w.relinquish c).2).2 :=
  shutdownBy_eq .endless clock count w c

end Worker

end Prefork.Supervision
