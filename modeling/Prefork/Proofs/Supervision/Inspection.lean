import Prefork.Proofs.Supervision.Reporting

namespace Prefork.Supervision

open Coordination (Queue)

theorem receive_of_removed {q : Queue} (h : q.isLive = false) : ∃ e, q.receive = (.error e, q) := by
  cases q with
  | unbounded messages => cases h
  | kernel messages live =>
    obtain rfl : live = false := h
    exact ⟨_, rfl⟩

theorem receive_of_live {q : Queue} (h : q.isLive = true) :
    ∃ rest : Queue, q.receive = (.ok q.messages.toList.head?, rest) ∧ rest.isLive = true ∧
      rest.messages.toList = q.messages.toList.drop 1 ∧
      (q.messages.toList = [] → rest = q) := by
  have hhead (messages : Array Bytes) : messages[0]? = messages.toList.head? := by
    rw [List.head?_eq_getElem?, Array.getElem?_toList]
  have hnone {messages : Array Bytes} (hm : messages.toList = []) :
      (messages.toList.drop 1).toArray = messages := by
    rw [hm, List.drop_nil, ← hm, Array.toArray_toList]
  cases q with
  | unbounded messages =>
    refine ⟨.unbounded (messages.toList.drop 1).toArray, ?_, rfl, rfl, fun hm ↦ ?_⟩
    · exact congrArg (fun m ↦ (Except.ok m, _)) (hhead messages)
    · exact congrArg Queue.unbounded (hnone hm)
  | kernel messages live =>
    obtain rfl : live = true := h
    refine ⟨.kernel (messages.toList.drop 1).toArray true, ?_, rfl, rfl, fun hm ↦ ?_⟩
    · exact congrArg (fun m ↦ (Except.ok m, _)) (hhead messages)
    · exact congrArg (Queue.kernel · true) (hnone hm)

namespace Registry

variable {r : Registry} {now : Nat} {w : UInt32}

def recordAll (r : Registry) (now : Nat) (reports : List Heartbeat) : Registry :=
  reports.foldl (fun r h ↦ r.record h now) r

theorem recordAll_append (r : Registry) (now : Nat) (earlier later : List Heartbeat) :
    r.recordAll now (earlier ++ later) = (r.recordAll now earlier).recordAll now later :=
  List.foldl_append

theorem record_of_unknown {h : Heartbeat} (hw : r.get? h.worker = none) (now : Nat) :
    r.record h now = r := by
  have hne : ∀ e ∈ r.workers, (e.1 == h.worker) = false := by
    intro e he
    have hfind := List.find?_eq_none.1 (Option.map_eq_none_iff.1 hw) e he
    simpa using hfind
  have hmap : (r.workers.map fun e ↦ (e.1, if e.1 == h.worker then e.2.hear h now else e.2)) =
      r.workers.map id := by
    refine List.map_congr_left fun e he ↦ ?_
    simp [hne e he]
  rw [List.map_id] at hmap
  exact congrArg (fun workers ↦ { r with workers }) hmap

end Registry

/-- A worker that no sweep at this time declares dead, nor has any before. -/
structure WorkerStatus.Spared (now : Nat) (s : WorkerStatus) : Prop where
  state : s.state ≠ .dead
  seen : s.state.isWatched = true → s.lastSeen = now

namespace WorkerStatus

variable {now : Nat} {s : WorkerStatus}

theorem spared_of_ended (h : s.state = .stopped ∨ s.state = .exited) : s.Spared now := by
  rcases h with h | h <;> exact ⟨by simp [h], by simp [h, WorkerState.isWatched]⟩

theorem spared_hear (s : WorkerStatus) (h : Heartbeat) (now : Nat) : (s.hear h now).Spared now := by
  by_cases he : s.state = .exited
  · rw [Registry.hear_of_exited he]
    exact spared_of_ended (.inr he)
  · obtain ⟨-, hseen⟩ := Registry.hear_told he h now
    refine ⟨?_, fun _ ↦ hseen⟩
    rw [Registry.state_hear he]
    split <;> decide

end WorkerStatus

namespace Registry

variable {r : Registry} {now : Nat} {w : UInt32}

def Spares (r : Registry) (now : Nat) (w : UInt32) : Prop :=
  ∀ s, r.get? w = some s → s.Spared now

theorem Spares.record (h : r.Spares now w) (report : Heartbeat) :
    (r.record report now).Spares now w := by
  intro s hs
  rw [get?_record] at hs
  obtain ⟨before, hb, rfl⟩ := Option.map_eq_some_iff.1 hs
  split
  · exact before.spared_hear report now
  · exact h before hb

theorem spares_record (r : Registry) (report : Heartbeat) (now : Nat) :
    (r.record report now).Spares now report.worker := by
  intro s hs
  rw [get?_record] at hs
  obtain ⟨before, -, rfl⟩ := Option.map_eq_some_iff.1 hs
  rw [if_pos rfl]
  exact before.spared_hear report now

theorem Spares.markExited (h : r.Spares now w) (pid : Pid) :
    (r.markExited pid).2.Spares now w := by
  intro s hs
  have hget := get?_apply r (.markExited pid) w
  obtain ⟨before, hb, rfl⟩ := Option.map_eq_some_iff.1 (hget.symm.trans hs)
  split
  · exact WorkerStatus.spared_of_ended (.inr rfl)
  · exact h before hb

theorem Spares.sweep (h : r.Spares now w) : (r.sweep now).2.Spares now w := by
  intro s hs
  have hget := get?_apply r (.sweep now) w
  obtain ⟨before, hb, rfl⟩ := Option.map_eq_some_iff.1 (hget.symm.trans hs)
  have hspared := h before hb
  have hnot : ¬ r.isOverdue now before = true := by
    rw [isOverdue_iff]
    rintro ⟨hwatched, hlate⟩
    rw [hspared.seen hwatched] at hlate
    omega
  rw [if_neg hnot]
  exact hspared

theorem Spares.recordAll (h : r.Spares now w) (reports : List Heartbeat) :
    (r.recordAll now reports).Spares now w := by
  induction reports generalizing r with
  | nil => exact h
  | cons report reports ih => exact ih (h.record report)

theorem spares_recordAll (r : Registry) {reports : List Heartbeat}
    (hw : ∃ report ∈ reports, report.worker = w) : (r.recordAll now reports).Spares now w := by
  obtain ⟨report, hr, rfl⟩ := hw
  obtain ⟨earlier, later, rfl⟩ := List.append_of_mem hr
  have hrecord := spares_record (r.recordAll now earlier) report now
  rw [recordAll_append]
  exact hrecord.recordAll later

end Registry

namespace Supervisor

def receivable (s : Supervisor) (limit : Nat) : List Bytes :=
  if s.queue.isLive then s.queue.messages.toList.take limit else []

def reports (messages : List Bytes) : List Heartbeat :=
  messages.filterMap fun message ↦ (Heartbeat.decode message).toOption

theorem reports_cons (message : Bytes) (messages : List Bytes) :
    reports (message :: messages) = reports [message] ++ reports messages :=
  List.filterMap_append (l := [message])

/-- What draining makes of a supervisor. -/
structure Drains (now limit : Nat) (s : Supervisor) (r : Nat × Supervisor) : Prop where
  count : r.1 = (s.receivable limit).length
  queue : s.queue.messages.toList = s.receivable limit ++ r.2.queue.messages.toList
  registry : r.2.registry = s.registry.recordAll now (reports (s.receivable limit))

theorem registry_hear (s : Supervisor) (message : Bytes) (now : Nat) :
    (s.hear message now).registry = s.registry.recordAll now (reports [message]) := by
  rw [hear, reports, List.filterMap_cons, List.filterMap_nil]
  cases Heartbeat.decode message <;> rfl

theorem queue_hear (s : Supervisor) (message : Bytes) (now : Nat) :
    (s.hear message now).queue = s.queue := by
  rw [hear]
  cases Heartbeat.decode message <;> rfl

theorem drainUpTo_stops {s : Supervisor} (now limit : Nat)
    (h : s.queue.isLive = true → s.queue.messages.toList = []) :
    s.drainUpTo now limit = (0, s) := by
  cases limit with
  | zero => rfl
  | succ limit =>
    cases hl : s.queue.isLive with
    | false =>
      obtain ⟨e, he⟩ := receive_of_removed hl
      simp only [drainUpTo, he]
    | true =>
      obtain ⟨rest, hr, -, -, hsame⟩ := receive_of_live hl
      rw [h hl] at hr
      simp only [drainUpTo, hr, List.head?_nil, hsame (h hl)]

theorem drainUpTo_cons {s : Supervisor} {message : Bytes} {messages : List Bytes} (now : Nat)
    (hl : s.queue.isLive = true) (hm : s.queue.messages.toList = message :: messages) :
    ∃ next : Supervisor, next.queue.isLive = true ∧ next.queue.messages.toList = messages ∧
      next.registry = s.registry.recordAll now (reports [message]) ∧
      ∀ limit, s.drainUpTo now (limit + 1) =
        ((next.drainUpTo now limit).1 + 1, (next.drainUpTo now limit).2) := by
  obtain ⟨rest, hr, hlive, hrest, -⟩ := receive_of_live hl
  rw [hm, List.head?_cons] at hr
  rw [hm] at hrest
  refine ⟨{ s with queue := rest }.hear message now, ?_, ?_, registry_hear .., fun limit ↦ ?_⟩
  · rw [queue_hear, hlive]
  · rw [queue_hear, hrest]
    rfl
  · simp only [drainUpTo, hr]

theorem drains (now limit : Nat) (s : Supervisor) : Drains now limit s (s.drainUpTo now limit) := by
  induction limit generalizing s with
  | zero =>
    have hnone : s.receivable 0 = [] := by
      rw [receivable]
      split <;> rfl
    exact ⟨by rw [hnone]; rfl, by rw [hnone]; rfl, by rw [hnone]; rfl⟩
  | succ limit ih =>
    by_cases h : s.queue.isLive = true → s.queue.messages.toList = []
    · have hnone : s.receivable (limit + 1) = [] := by
        rw [receivable]
        split
        · next hl => rw [h hl, List.take_nil]
        · rfl
      rw [drainUpTo_stops now _ h]
      exact ⟨by rw [hnone]; rfl, by rw [hnone]; rfl, by rw [hnone]; rfl⟩
    · obtain ⟨hl, hne⟩ := Classical.not_imp.1 h
      obtain ⟨message, messages, hm⟩ := List.exists_cons_of_ne_nil hne
      obtain ⟨next, hlive, hmessages, hregistry, hdrain⟩ := drainUpTo_cons now hl hm
      have hall : s.receivable (limit + 1) = message :: next.receivable limit := by
        rw [receivable, receivable, hl, hlive, hm, hmessages]
        rfl
      have hnext := ih next
      rw [hdrain]
      refine ⟨by rw [hall, hnext.count, List.length_cons], ?_, ?_⟩
      · have hqueue := hnext.queue
        rw [hmessages] at hqueue
        rw [hall, hm, hqueue]
        rfl
      · rw [hall, hnext.registry, hregistry, reports_cons message (next.receivable limit),
          Registry.recordAll_append]

theorem drainUpTo_succ {s : Supervisor} (now : Nat) {limit : Nat}
    (h : s.queue.messages.size ≤ limit) :
    s.drainUpTo now (limit + 1) = s.drainUpTo now limit := by
  rw [← Array.length_toList] at h
  induction limit generalizing s with
  | zero =>
    have hnone : s.queue.messages.toList = [] := List.length_eq_zero_iff.1 (Nat.le_zero.1 h)
    rw [drainUpTo_stops now _ fun _ ↦ hnone, drainUpTo_stops now _ fun _ ↦ hnone]
  | succ limit ih =>
    by_cases hs : s.queue.isLive = true → s.queue.messages.toList = []
    · rw [drainUpTo_stops now _ hs, drainUpTo_stops now _ hs]
    · obtain ⟨hl, hne⟩ := Classical.not_imp.1 hs
      obtain ⟨message, messages, hm⟩ := List.exists_cons_of_ne_nil hne
      obtain ⟨next, -, hmessages, -, hdrain⟩ := drainUpTo_cons now hl hm
      have hlength : next.queue.messages.toList.length ≤ limit := by
        rw [hm, List.length_cons] at h
        rw [hmessages]
        omega
      rw [hdrain, hdrain, ih hlength]

/-- Receiving that fails behind the last message is as good as receiving that does not fail. -/
theorem drainUpTo_of_size_le {s : Supervisor} (now : Nat) {limit : Nat}
    (h : s.queue.messages.size ≤ limit) : s.drainUpTo now limit = s.drain now := by
  have hsame (more : Nat) : s.drainUpTo now (s.queue.messages.size + more) =
      s.drainUpTo now s.queue.messages.size := by
    induction more with
    | zero => rfl
    | succ more ih => exact (drainUpTo_succ now (Nat.le_add_right ..)).trans ih
  obtain ⟨more, rfl⟩ := Nat.exists_eq_add_of_le h
  rw [hsame more]
  exact (hsame 1).symm

theorem spares_reap {s : Supervisor} {now : Nat} {w : UInt32} (h : s.registry.Spares now w)
    (children : Children) : (s.reap children).registry.Spares now w := by
  rw [reap]
  generalize s.registry.runningPids = pids
  induction pids generalizing s with
  | nil => exact h
  | cons pid pids ih =>
    rw [List.foldl_cons]
    apply ih
    split
    · exact h.markExited pid
    · exact h.markExited pid
    · exact h
    · exact h

theorem spares_checkUpTo {s : Supervisor} {now limit : Nat} {w : UInt32} (children : Children)
    (h : (s.registry.recordAll now (reports (s.receivable limit))).Spares now w) :
    (s.checkUpTo limit now children).registry.Spares now w := by
  rw [← (drains now limit s).registry] at h
  exact (spares_reap h children).sweep

/-- Wherever receiving begins to fail, draining counts the messages received, leaves the others in
order and applies the heartbeats among them one after another. A pass declares no worker dead that
sent one of these, or that has stopped or was reaped before. -/
theorem check_spares_reporting (s : Supervisor) (now limit : Nat) (children : Children) :
    let received := s.receivable limit
    Drains now limit s (s.drainUpTo now limit) ∧
      (∀ (r : Registry) (h : Heartbeat), r.get? h.worker = none → r.record h now = r) ∧
      (∀ w status, (s.checkUpTo limit now children).registry.get? w = some status →
        ((∃ h ∈ reports received, h.worker = w) ∨ ∃ before, s.registry.get? w = some before ∧
          (before.state = .stopped ∨ before.state = .exited)) →
        status.state ≠ .dead) ∧
      (s.queue.messages.size ≤ limit → s.drainUpTo now limit = s.drain now ∧
        s.checkUpTo limit now children = s.check now children) := by
  refine ⟨drains now limit s, ?_, ?_, ?_⟩
  · intro r h hw
    exact Registry.record_of_unknown hw now
  · intro w status hs hw
    have hspares : (s.registry.recordAll now (reports (s.receivable limit))).Spares now w := by
      rcases hw with hw | ⟨before, hb, hended⟩
      · exact Registry.spares_recordAll s.registry hw
      · have hbefore : s.registry.Spares now w := by
          intro status hstatus
          cases hb.symm.trans hstatus
          exact WorkerStatus.spared_of_ended hended
        exact hbefore.recordAll _
    exact (spares_checkUpTo children hspares status hs).state
  · intro hsize
    have hdrain := drainUpTo_of_size_le now hsize
    exact ⟨hdrain, by rw [checkUpTo, hdrain, check]⟩

/-- Two workers have been silent for long, and receiving fails ahead of the heartbeat of the second.
A malformed message and one of a stranger come first. -/
example :
    let empty := Registry.ofTimeout (Time.ofSeconds 5)
    let beat (worker : UInt32) : Bytes := (⟨worker, some 990, 3⟩ : Heartbeat).encode
    let s : Supervisor :=
      { queue := .kernel #[[1, 2], beat 7, beat 0, beat 1] true
        registry := (empty.register 0 (some 40) 10).register 1 (some 41) 10 }
    (s.drainUpTo 1000 3).1 = 3 ∧
      (s.checkUpTo 3 1000 fun _ ↦ .running).registry.workers.map (·.2.state) = [.alive, .dead] := by
  decide +kernel

end Supervisor

end Prefork.Supervision
