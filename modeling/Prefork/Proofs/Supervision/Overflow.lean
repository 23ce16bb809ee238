import Prefork.Proofs.CommandLine
import Prefork.Proofs.Supervision.Cleanup
import Prefork.Proofs.Supervision.Pacing
import Prefork.Supervision.Deadline

namespace Prefork.Time

theorem later?_eq_some {t span : Nanos} (h : representable (t + span) = true) :
    later? t span = some (t + span) := if_pos h

theorem later?_eq_none {t span : Nanos} (h : representable (t + span) = false) :
    later? t span = none := by
  rw [later?, h]
  rfl

theorem representable_mono {t t' : Nanos} (h : t ≤ t') (ht : representable t' = true) :
    representable t = true := by
  rw [representable, decide_eq_true_eq] at ht ⊢
  exact Nat.lt_of_le_of_lt h ht

end Prefork.Time

namespace Prefork.Supervision

open Time (Clock Nanos representable)

theorem Later.checked_bind {α : Type} (c : Commons) (now span : Nanos) (f : Nanos → α) :
    (do let t ← checked c now span; return f t) =
      if representable (now + span) then .ok (f (now + span)) else .error c := by
  rw [checked, Time.later?]
  cases representable (now + span) <;> rfl

namespace Worker

variable {w : Worker} {c : Commons} {now : Nanos}

inductive Call where
  | move (m : Move)
  | shutdown (clock : Clock) (count : Nat) (c : Commons)

namespace Call

def instant? : Call → Option Nanos
  | move (.enter now _) => some now
  | move (.leave _) => none
  | move (.tick clock _ _) | shutdown clock _ _ => some clock.instant

end Call

/-- The time that a call works out: that of the next try after a failure, or of the next heartbeat
after one that was sent. -/
def deadline? (w : Worker) : Call → Option Nanos
  | .move (.enter now c) =>
    if w.mayTry now && !(w.ask c).result.isOk then some (now + w.lockBackoff.delay) else none
  | .move (.leave _) => none
  | .move (.tick clock count c) =>
    if !w.isDue clock.instant then none
    else if c.takes (w.heartbeat clock count).encode then some (clock.instant + w.interval)
    else some (clock.instant + w.beatBackoff.delay)
  | .shutdown clock count c =>
    if c.takes (w.sentinel count).encode then none
    else some (clock.instant + w.beatBackoff.delay)

def endless (w : Worker) : Call → Worker × Commons
  | .move (.enter now c) => (w.tryEnter now c).2
  | .move (.leave c) => w.leave c
  | .move (.tick clock count c) => w.tick clock count c
  | .shutdown clock count c => w.shutdown clock count c

def checkedCall (w : Worker) : Call → Except Commons (Worker × Commons)
  | .move (.enter now c) => (w.checkedTryEnter now c).map (·.2)
  | .move (.leave c) => .ok (w.leave c)
  | .move (.tick clock count c) => w.checkedTick clock count c
  | .shutdown clock count c => w.checkedShutdown clock count c

theorem checkedTryEnter_eq (now : Nanos) (w : Worker) (c : Commons) :
    w.checkedTryEnter now c =
      if (w.deadline? (.move (.enter now c))).all representable then .ok (w.tryEnter now c)
      else .error (w.tryEnter now c).2.2 := by
  cases hm : w.mayTry now with
  | false =>
    rw [checkedTryEnter, tryEnterBy, tryEnter_of_not_mayTry hm, deadline?, hm]
    rfl
  | true =>
    rw [checkedTryEnter, tryEnter, tryEnterBy_of_mayTry _ hm, tryEnterBy_of_mayTry _ hm, deadline?,
      hm, Bool.true_and]
    cases (w.ask c).result with
    | ok won => rfl
    | error e => exact Later.checked_bind ..

theorem checkedReport_eq (now : Nanos) (h : Heartbeat) (w : Worker) (c : Commons) :
    w.checkedReport now h c =
      if c.takes h.encode || representable (now + w.beatBackoff.delay) then .ok (w.report now h c)
      else .error (w.report now h c).2.2 := by
  rw [checkedReport, reportBy_eq, report_eq]
  cases c.takes h.encode with
  | true => rfl
  | false => exact Later.checked_bind ..

theorem checkedTick_eq (clock : Clock) (count : Nat) (w : Worker) (c : Commons) :
    w.checkedTick clock count c =
      if (w.deadline? (.move (.tick clock count c))).all representable then
        .ok (w.tick clock count c)
      else .error (w.tick clock count c).2 := by
  cases hd : w.isDue clock.instant with
  | false =>
    rw [checkedTick, tickBy, tick_of_not_due hd, deadline?, hd]
    rfl
  | true =>
    rw [checkedTick, tickBy_of_due _ hd, tick_of_due hd, deadline?, hd]
    simp only [Bool.not_true, Bool.false_eq_true, if_false]
    split
    · exact Later.checked_bind ..
    · exact Later.checked_bind ..

theorem checkedShutdown_eq (clock : Clock) (count : Nat) (w : Worker) (c : Commons) :
    w.checkedShutdown clock count c =
      if (w.deadline? (.shutdown clock count c)).all representable then
        .ok (w.shutdown clock count c)
      else .error (w.shutdown clock count c).2 := by
  have hchecked := checkedReport_eq clock.instant (w.sentinel count) (w.relinquish c).1
    (w.relinquish c).2
  rw [checkedReport, takes_relinquish, (w.relinquish_keeps c).2.2.1] at hchecked
  rw [checkedShutdown, shutdownBy_eq, shutdown_eq, hchecked, deadline?]
  cases c.takes (w.sentinel count).encode with
  | true => rfl
  | false =>
    simp only [Bool.false_or, Bool.false_eq_true, if_false, Option.all_some]
    cases representable (clock.instant + w.beatBackoff.delay) <;> rfl

/-- A call panics just if the clock cannot show the time that it works out. By then it has done to
the shared objects all that it does. -/
theorem checkedCall_eq (w : Worker) (call : Call) :
    w.checkedCall call = if (w.deadline? call).all representable then .ok (w.endless call)
      else .error (w.endless call).2 := by
  cases call with
  | move m =>
    cases m with
    | enter now c =>
      rw [checkedCall, checkedTryEnter_eq]
      split <;> rfl
    | leave c => rfl
    | tick clock count c => exact checkedTick_eq clock count w c
  | shutdown clock count c => exact checkedShutdown_eq clock count w c

theorem interval_endless (w : Worker) (call : Call) : (w.endless call).1.interval = w.interval := by
  cases call with
  | move m =>
    cases m with
    | enter now c =>
      rw [endless]
      cases hm : w.mayTry now with
      | false => rw [tryEnter_of_not_mayTry hm]
      | true =>
        rw [tryEnter_of_mayTry hm]
        dsimp only
        split <;> rfl
    | leave c => exact (w.leave_keeps c).2.1
    | tick clock count c => exact (w.tick_keeps clock count c).2.1
  | shutdown clock count c =>
    rw [endless, shutdown_eq]
    exact (report_keeps ..).2.1.trans (w.relinquish_keeps c).2.1

theorem deadline?_le {t : Nanos} {call : Call} (h : w.deadline? call = some t) :
    ∃ now, call.instant? = some now ∧ t ≤ now + max w.interval Backoff.limit := by
  have hdelay (now : Nanos) (b : Backoff) : now + b.delay ≤ now + max w.interval Backoff.limit :=
    Nat.add_le_add_left (Nat.le_trans (Nat.min_le_right ..) (Nat.le_max_right ..)) now
  cases call with
  | move m =>
    cases m with
    | enter now c =>
      rw [deadline?] at h
      split at h
      · cases h
        exact ⟨now, rfl, hdelay now _⟩
      · cases h
    | leave c => cases h
    | tick clock count c =>
      rw [deadline?] at h
      split at h
      · cases h
      · split at h
        · cases h
          exact ⟨_, rfl, Nat.add_le_add_left (Nat.le_max_left ..) _⟩
        · cases h
          exact ⟨_, rfl, hdelay _ _⟩
  | shutdown clock count c =>
    rw [deadline?] at h
    split at h
    · cases h
    · cases h
      exact ⟨_, rfl, hdelay _ _⟩

def checkedCalls (w : Worker) : List Call → Except Commons Worker
  | [] => .ok w
  | call :: calls => match w.checkedCall call with
    | .error c => .error c
    | .ok next => next.1.checkedCalls calls

def endlessCalls (w : Worker) (calls : List Call) : Worker :=
  calls.foldl (fun w call ↦ (w.endless call).1) w

theorem endlessCalls_of_checkedCalls {w w' : Worker} {calls : List Call}
    (h : w.checkedCalls calls = .ok w') :
    w' = w.endlessCalls calls ∧ w'.interval = w.interval := by
  induction calls generalizing w with
  | nil =>
    cases h
    exact ⟨rfl, rfl⟩
  | cons call calls ih =>
    rw [checkedCalls, checkedCall_eq] at h
    split at h
    · cases h
    · next next hcall =>
      split at hcall
      · cases hcall
        obtain ⟨heq, hinterval⟩ := ih h
        exact ⟨heq, hinterval.trans (w.interval_endless call)⟩
      · cases hcall

/-- A worker whose clock is far enough from its end does not panic. -/
theorem checkedCalls_of_fits {w : Worker} {calls : List Call}
    (h : ∀ call ∈ calls, ∀ now, call.instant? = some now →
      representable (now + max w.interval Backoff.limit) = true) :
    w.checkedCalls calls = .ok (w.endlessCalls calls) := by
  induction calls generalizing w with
  | nil => rfl
  | cons call calls ih =>
    have hfits : (w.deadline? call).all representable = true := by
      cases hd : w.deadline? call with
      | none => rfl
      | some t =>
        obtain ⟨now, hnow, hle⟩ := deadline?_le hd
        exact Time.representable_mono hle (h call List.mem_cons_self now hnow)
    rw [checkedCalls, checkedCall_eq, if_pos hfits]
    apply ih
    rw [interval_endless]
    exact fun call' hcall ↦ h call' (List.mem_cons_of_mem call hcall)

end Worker

namespace Supervisor

variable {s : Supervisor} {grace : Nanos} {e : Ending}

theorem checkedTerminate_of_fits (h : representable (e.start + grace) = true) :
    s.checkedTerminate grace e =
      .ok (s.terminate (e.looks.map (Look.round (e.start + grace)))) := by
  rw [checkedTerminate, Time.later?_eq_some h]

theorem checkedTerminate_of_overflow (h : representable (e.start + grace) = false) :
    s.checkedTerminate grace e = .error (s.signalAll .terminate) := by
  rw [checkedTerminate, Time.later?_eq_none h]

end Supervisor

namespace Course

open Supervisor (Ending Look)

variable {c : Course} {s : Supervisor} {failed : Option Host.IoError} {timeout : Nanos}
  {queue : Coordination.Queue} {e : Ending}

def ended (c : Course) (e : Ending) (grace : Nanos) : Course :=
  { c with rounds := e.looks.map (Look.round (e.start + grace)) }

def watched (c : Course) (s : Supervisor) : Option Host.IoError → Supervisor
  | some _ => s
  | none => (s.watch c.events).2

theorem continues_watched (c : Course) (s : Supervisor) (failed : Option Host.IoError) :
    s.Continues (c.watched s failed) := by
  cases failed with
  | some error => exact .refl _
  | none => exact Supervisor.continues_watch c.events s

theorem checkedFinish_of_fits (h : representable (e.start + timeout) = true) :
    checkedFinish timeout e = fun _ s ↦
      .ok (s.terminate (e.looks.map (Look.round (e.start + timeout)))) := by
  funext past s
  rw [checkedFinish, Supervisor.checkedTerminate_of_fits h]
  rfl

theorem superviseBy_of_fits (h : representable (e.start + timeout) = true) (past : List Action) :
    c.superviseBy (checkedFinish timeout e) past s failed =
      .ok ((c.ended e timeout).supervise s failed) := by
  rw [supervise, superviseBy.eq_def, superviseBy.eq_def, checkedFinish_of_fits h, ended]
  cases c.runtime with
  | error error => rfl
  | ok _ => cases failed <;> rfl

theorem superviseBy_of_overflow (h : representable (e.start + timeout) = false)
    (hruntime : c.runtime = .ok ()) (past : List Action) :
    c.superviseBy (checkedFinish timeout e) past s failed =
      .error (past ++ s.endings (c.watched s failed) ++
        (c.watched s failed).signalAll .terminate) := by
  have hfinish (past : List Action) (s : Supervisor) :
      checkedFinish timeout e past s = .error (past ++ s.signalAll .terminate) := by
    rw [checkedFinish, Supervisor.checkedTerminate_of_overflow h]
    rfl
  rw [superviseBy.eq_def, hruntime]
  cases failed <;> simp only [hfinish, watched] <;> rfl

theorem checkedRun_of_fits (h : representable (e.start + timeout) = true) :
    c.checkedRun timeout queue e = .ok ((c.ended e timeout).run timeout queue) := by
  rw [checkedRun, run, runBy, runBy, ended]
  cases c.serial with
  | error error => rfl
  | ok _ =>
    simp only [superviseBy_of_fits h]
    rfl

/-- A run that never asks its workers to end needs no deadline. -/
theorem checkedRun_of_idle (h : c.serial ≠ .ok () ∨ c.runtime ≠ .ok ()) :
    c.checkedRun timeout queue e = .ok (c.run timeout queue) := by
  rw [checkedRun, run, runBy, runBy]
  cases hserial : c.serial with
  | error error => rfl
  | ok _ =>
    cases hruntime : c.runtime with
    | error error =>
      simp only [superviseBy.eq_def, hruntime]
      rfl
    | ok _ => exact absurd h (by simp [hserial, hruntime])

theorem checkedRun_of_overflow (h : representable (e.start + timeout) = false)
    (hserial : c.serial = .ok ()) (hruntime : c.runtime = .ok ())
    (hcount : c.forks.length ≤ UInt32.size) (hpids : (forkAll c.forks).1.Nodup) :
    ∃ acts left, c.checkedRun timeout queue e = .error ((forkAll c.forks).1.map .forked ++
        (acts ++ left.map (.signalled .terminate))) ∧
      (∀ a ∈ acts, a.destroys = false) ∧ (reaped acts ++ left).Perm (forkAll c.forks).1 := by
  have hlen : (forkAll c.forks).1.length ≤ UInt32.size :=
    Nat.le_trans (length_forkAll c.forks) hcount
  generalize hs : (⟨queue, registry timeout c.registeredAt (forkAll c.forks).1⟩ : Supervisor) = s
  have hd : s.registry.pids.Nodup := by
    rw [← hs, pids_registry c.registeredAt hlen]
    exact hpids.map fun _ _ ↦ Option.some.inj
  have hrunning : s.registry.runningPids = (forkAll c.forks).1 := by
    rw [← hs, runningPids_registry c.registeredAt hlen]
  have hsettles := Supervisor.settles_endings hd (c.continues_watched s (forkAll c.forks).2)
  refine ⟨_, _, ?_, hsettles.keeps, hrunning ▸ hsettles.reaped⟩
  rw [checkedRun, runBy, hserial]
  simp only [hs, superviseBy_of_overflow h hruntime, List.append_assoc]
  rfl

end Course

/-- A worker by a clock that has an end. It does what it does on an endless clock while the clock
can show the times that it works out, none of which is further ahead than the interval and five
seconds. The first one that the clock cannot show makes it panic, when the call has done all that
it does to the shared objects. -/
structure Worker.Clocked (w : Worker) : Prop where
  runs (calls : List Call) :
    (∀ call ∈ calls, ∀ now, call.instant? = some now →
      representable (now + max w.interval Backoff.limit) = true) →
    w.checkedCalls calls = .ok (w.endlessCalls calls)
  agrees (calls : List Call) (w' : Worker) :
    w.checkedCalls calls = .ok w' → w' = w.endlessCalls calls
  call (calls : List Call) (w' : Worker) : w.checkedCalls calls = .ok w' → ∀ call,
    w'.checkedCall call = if (w'.deadline? call).all representable then .ok (w'.endless call)
      else .error (w'.endless call).2
  deadline (calls : List Call) (w' : Worker) : w.checkedCalls calls = .ok w' → ∀ call t,
    w'.deadline? call = some t →
      ∃ now, call.instant? = some now ∧ t ≤ now + max w.interval Backoff.limit
  tick (calls : List Call) (w' : Worker) : w.checkedCalls calls = .ok w' → ∀ clock count c,
    w'.isDue clock.instant = true → c.takes (w'.heartbeat clock count).encode = true →
      ((∃ c', w'.checkedTick clock count c = .error c') ↔
        representable (clock.instant + w.interval) = false)

theorem Worker.clocked (w : Worker) : w.Clocked where
  runs _ := checkedCalls_of_fits
  agrees _ _ h := (endlessCalls_of_checkedCalls h).1
  call _ w' _ := w'.checkedCall_eq
  deadline _ _ h _ _ ht := by
    rw [← (endlessCalls_of_checkedCalls h).2]
    exact deadline?_le ht
  tick _ w' h clock count c hdue htakes := by
    have hdeadline : w'.deadline? (.move (.tick clock count c)) =
        some (clock.instant + w.interval) := by
      simp [deadline?, hdue, htakes, (endlessCalls_of_checkedCalls h).2]
    rw [checkedTick_eq, hdeadline, Option.all_some]
    cases representable (clock.instant + w.interval) <;> simp

/-- A run by a clock that has an end. It is the run on an endless clock, unless workers are asked to
end so late that the clock cannot show the deadline. Then the supervisor panics: it has told the
workers that are left to end, but waits for none of them, and no object is removed. -/
structure Course.Clocked (c : Course) (timeout : Nanos) (queue : Coordination.Queue)
    (e : Supervisor.Ending) : Prop where
  fits : representable (e.start + timeout) = true →
    c.checkedRun timeout queue e = .ok ((c.ended e timeout).run timeout queue)
  idle : c.serial ≠ .ok () ∨ c.runtime ≠ .ok () →
    c.checkedRun timeout queue e = .ok (c.run timeout queue)
  overflow : representable (e.start + timeout) = false → c.serial = .ok () → c.runtime = .ok () →
    c.forks.length ≤ UInt32.size → (forkAll c.forks).1.Nodup →
    ∃ acts left, c.checkedRun timeout queue e = .error ((forkAll c.forks).1.map .forked ++
        (acts ++ left.map (.signalled .terminate))) ∧
      (∀ a ∈ acts, a.destroys = false) ∧ (reaped acts ++ left).Perm (forkAll c.forks).1

theorem Course.clocked (c : Course) (timeout : Nanos) (queue : Coordination.Queue)
    (e : Supervisor.Ending) : c.Clocked timeout queue e :=
  ⟨checkedRun_of_fits, checkedRun_of_idle, checkedRun_of_overflow⟩

theorem parse_supervisor_iff {n m : Nat} :
    (∃ args s, CommandLine.parse args = .ok s ∧ s.supervisor.heartbeatSeconds = n ∧
        s.supervisor.workerTimeoutSeconds = m) ↔
      (1 ≤ n ∧ n ≤ Text.maxWord) ∧ 1 ≤ m ∧ m ≤ Text.maxWord := by
  constructor
  · rintro ⟨args, s, h, rfl, rfl⟩
    have hs := CommandLine.admitted_parse h
    exact ⟨hs.heartbeat, hs.workerTimeout⟩
  · rintro ⟨hn, hm⟩
    exact ⟨_, _, CommandLine.parse_timings hn hm, rfl, rfl⟩

/-- The timings that arguments ask for are seconds from 1 up to as many as a word counts. Whatever
they are, the workers and the supervisor panic at a time that the clock cannot show, and at no
other. -/
theorem panics_past_clock (args : List String) (s : Settings)
    (h : CommandLine.parse args = .ok s) :
    (1 ≤ s.supervisor.heartbeatSeconds ∧ s.supervisor.heartbeatSeconds ≤ Text.maxWord) ∧
      (1 ≤ s.supervisor.workerTimeoutSeconds ∧ s.supervisor.workerTimeoutSeconds ≤ Text.maxWord) ∧
      (∀ id start, (Worker.starting id (Time.ofSeconds s.supervisor.heartbeatSeconds)
        start).Clocked) ∧
      ∀ (c : Course) queue e,
        c.Clocked (Time.ofSeconds s.supervisor.workerTimeoutSeconds) queue e := by
  obtain ⟨hheartbeat, htimeout⟩ := parse_supervisor_iff.1 ⟨args, s, h, rfl, rfl⟩
  refine ⟨hheartbeat, htimeout, ?_, ?_⟩
  · intro id start
    exact Worker.clocked _
  · intro c queue e
    exact c.clocked _ queue e

def brief : Course :=
  { serial := .ok (), forks := [.ok 101], registeredAt := 1000, runtime := .ok ()
    events := [.shutdown (.ok ())], rounds := [] }

/-- An interval that the clock can show once, and a timeout that it cannot show. -/
theorem panics_past_clock_longest :
    let args := CommandLine.timings 9223372036854775807 9223372036854775808
    ∃ s, CommandLine.parse args = .ok s ∧
      let w := Worker.starting 0 (Time.ofSeconds s.supervisor.heartbeatSeconds) 0
      (∃ w', w.checkedCalls [.move (.tick ⟨0, 1000⟩ 0 .inProcess)] = .ok w') ∧
      (∃ c', w.checkedTick ⟨Time.ofSeconds 1, 1001⟩ 0 .inProcess = .error c') ∧
      ∃ acts left, brief.checkedRun (Time.ofSeconds s.supervisor.workerTimeoutSeconds)
          (.unbounded #[]) ⟨0, []⟩ = .error ([.forked 101] ++
            (acts ++ left.map (.signalled .terminate))) ∧
        (reaped acts ++ left).Perm [101] := by
  intro args
  have hparse := CommandLine.parse_timings (n := 9223372036854775807) (m := 9223372036854775808)
    (by decide) (by decide)
  obtain ⟨-, -, hworker, hcourse⟩ := panics_past_clock args _ hparse
  refine ⟨_, hparse, ⟨_, (hworker 0 0).runs _ ?_⟩, ?_, ?_⟩
  · intro call hcall now hnow
    obtain rfl := List.mem_singleton.1 hcall
    cases hnow
    decide +kernel
  · refine ((hworker 0 0).tick [] _ rfl ⟨Time.ofSeconds 1, 1001⟩ 0 .inProcess ?_ ?_).2 ?_ <;>
      decide +kernel
  · obtain ⟨acts, left, hrun, -, hreaped⟩ := (hcourse brief (.unbounded #[]) ⟨0, []⟩).overflow
      (by decide +kernel) rfl rfl (by decide) (by decide)
    exact ⟨acts, left, hrun, hreaped⟩

/-- With the longest timings a worker panics at its first heartbeat, and the supervisor when it has
told the worker to end. -/
theorem longest_timings_overflow :
    ∃ s, CommandLine.parse ["--heartbeat-secs", "18446744073709551615", "--worker-timeout-secs",
        "18446744073709551615"] = .ok s ∧
      (∃ c, (Worker.starting 0 (Time.ofSeconds s.supervisor.heartbeatSeconds) 0).checkedTick
          ⟨0, 1000⟩ 0 .inProcess = .error c ∧ c.heartbeats = [⟨0, some 1000, 0⟩]) ∧
      brief.checkedRun (Time.ofSeconds s.supervisor.workerTimeoutSeconds) (.unbounded #[]) ⟨0, []⟩ =
        .error [.forked 101, .signalled .terminate 101] := by
  have hargs : ["--heartbeat-secs", "18446744073709551615", "--worker-timeout-secs",
      "18446744073709551615"] = CommandLine.timings Text.maxWord Text.maxWord := by
    decide +kernel
  rw [hargs]
  refine ⟨_, CommandLine.parse_timings (by decide) (by decide),
    ⟨_, (Worker.checkedTick_eq ..).trans (if_neg ?_), ?_⟩, ?_⟩
  · decide +kernel
  · decide +kernel
  · decide +kernel

end Prefork.Supervision
