import Prefork.Proofs.Server.Gating
import Prefork.Proofs.Supervision.Gate
import Prefork.Proofs.Supervision.Reporting

namespace Prefork.Supervision

open Server (Config Hooks Loop Surroundings)
open Time (Clock Nanos)

namespace Worker

theorem tick_sends (clock : Clock) (count : Nat) (w : Worker) (c : Commons) :
    (w.tick clock count c).1.id = w.id ∧ ∃ beats : List Heartbeat,
      (w.tick clock count c).2.messages = c.messages ++ beats.map (·.encode) ∧
        ∀ b ∈ beats, b.worker = w.id ∧ b.timestamp.isSome = true := by
  cases hd : w.isDue clock.instant with
  | false =>
    rw [tick_of_not_due hd]
    exact ⟨rfl, [], (List.append_nil _).symm, List.forall_mem_nil _⟩
  | true =>
    refine ⟨(w.tick_keeps clock count c).1, ?_⟩
    rw [tick_of_due hd]
    dsimp only
    rw [c.messages_offered]
    cases c.takes (w.heartbeat clock count).encode with
    | true => exact ⟨[w.heartbeat clock count], rfl, by simp [heartbeat]⟩
    | false => exact ⟨[], rfl, List.forall_mem_nil _⟩

theorem held_tryEnter (now : Nanos) {w : Worker} (hh : w.held = false) (c : Commons) :
    (w.tryEnter now c).2.1.held = (w.tryEnter now c).1 ∧ (w.tryEnter now c).2.1.id = w.id ∧
      (w.tryEnter now c).2.2.messages = c.messages := by
  cases hm : w.mayTry now with
  | false =>
    rw [tryEnter_of_not_mayTry hm]
    exact ⟨hh, rfl, rfl⟩
  | true =>
    rw [tryEnter_of_mayTry hm, ask]
    cases c.faults.lock with
    | true => exact ⟨hh, rfl, rfl⟩
    | false =>
      simp only [Bool.false_eq_true, if_false, Coordination.Lock.tryAcquire,
        Coordination.Lock.seize, hh]
      generalize c.lock.take true none = taken
      obtain ⟨result, lock⟩ := taken
      cases result <;> exact ⟨rfl, rfl, rfl⟩

/-- The last call of a worker gives the lock back and sends the sentinel if that can be sent. -/
theorem shutdown_sends (clock : Clock) (count : Nat) (w : Worker) {c : Commons}
    (hc : c.faults.release = false) :
    (w.shutdown clock count c).1.held = false ∧ (w.shutdown clock count c).2.messages =
      c.messages ++ if c.takes (⟨w.id, none, reported count⟩ : Heartbeat).encode then
        [(⟨w.id, none, reported count⟩ : Heartbeat).encode] else [] := by
  obtain ⟨-, -, -, hqueue, -⟩ := w.relinquish_keeps c
  have hsent := (w.relinquish c).2.messages_offered (w.sentinel count).encode
  rw [takes_relinquish, Commons.messages, Commons.messages, hqueue] at hsent
  rw [shutdown_eq]
  refine ⟨(report_keeps ..).2.2.trans (w.held_relinquish hc), ?_⟩
  rw [report_eq]
  exact hsent

theorem messages_nextId (c : Commons) : (nextId c).2.messages = c.messages := by
  rw [nextId]
  split
  · rfl
  · split <;> rfl

end Worker

theorem Pool.act_of_worker {p : Pool} {i : Nat} {w : Worker} (hw : p.workers[i]? = some w)
    (f : Worker → Commons → Worker × Commons) :
    (p.act i f).workers[i]? = some (f w p.commons).1 ∧
      (p.act i f).commons = (f w p.commons).2 := by
  have hi : i < p.workers.length := (List.getElem?_eq_some_iff.1 hw).1
  rw [act, hw]
  exact ⟨List.getElem?_set_self hi, rfl⟩

theorem Pool.tryEnter_of_worker {p : Pool} {i : Nat} {w : Worker} (hw : p.workers[i]? = some w) :
    ((hooks i).tryEnter p).1 = (w.tryEnter p.clock.instant p.commons).1 ∧
      ((hooks i).tryEnter p).2.workers[i]? = some (w.tryEnter p.clock.instant p.commons).2.1 ∧
      ((hooks i).tryEnter p).2.commons = (w.tryEnter p.clock.instant p.commons).2.2 := by
  have hi : i < p.workers.length := (List.getElem?_eq_some_iff.1 hw).1
  simp only [hooks, hw]
  exact ⟨trivial, List.getElem?_set_self hi, trivial⟩

abbrev Others := Nat → Pool → Pool

/-- The others leave the worker in place `i` alone, and giving the lock back does not fail. -/
structure Others.Fair (others : Others) (i : Nat) : Prop where
  worker (n : Nat) (p : Pool) : (others n p).workers[i]? = p.workers[i]?
  releases (n : Nat) (p : Pool) : (others n p).commons.faults.release = false

/-- A worker's place in a pool, with what its own calls have put into the queue. -/
structure Post where
  pool : Pool
  calls : Nat := 0
  sent : List Bytes := []

namespace Post

section Calls

variable (others : Others) (i : Nat) (p : Post)

def found : Pool := others p.calls p.pool

def behind (pool : Pool) : Post where
  pool := pool
  calls := p.calls + 1
  sent := p.sent ++ pool.commons.messages.drop (p.found others).commons.messages.length

def hooks : Hooks Post where
  tryEnter p :=
    let (won, pool) := (Pool.hooks i).tryEnter (p.found others)
    (won, p.behind others pool)
  leave p := p.behind others ((Pool.hooks i).leave (p.found others))
  nextId p :=
    let (id, pool) := (Pool.hooks i).nextId (p.found others)
    (id, p.behind others pool)
  worker p := (Pool.hooks i).worker p.pool
  tick count p := p.behind others ((Pool.hooks i).tick count (p.found others))
  shutdown count p := p.behind others ((Pool.hooks i).shutdown count (p.found others))

end Calls

structure Stands (i : Nat) (id : UInt32) (held : Bool) (sent : List Bytes) (p : Post) : Prop where
  worker : ∃ w, p.pool.workers[i]? = some w ∧ w.id = id ∧ w.held = held
  sent : p.sent = sent

variable {others : Others} {i : Nat} {id : UInt32} {held : Bool} {sent : List Bytes} {p : Post}

theorem Stands.holds (h : Stands i id held sent p) : p.pool.holds i = held := by
  obtain ⟨w, hw, -, rfl⟩ := h.worker
  rw [Pool.holds, hw]
  rfl

theorem releases_found (hf : others.Fair i) (p : Post) :
    (p.found others).commons.faults.release = false :=
  hf.releases p.calls p.pool

theorem Stands.found (h : Stands i id held sent p) (hf : others.Fair i) :
    ∃ w, (p.found others).workers[i]? = some w ∧ w.id = id ∧ w.held = held := by
  obtain ⟨w, hw, hid, hh⟩ := h.worker
  exact ⟨w, (hf.worker p.calls p.pool).trans hw, hid, hh⟩

theorem Stands.behind {w : Worker} (h : Stands i id held sent p) (pool : Pool) (more : List Bytes)
    (hw : pool.workers[i]? = some w)
    (hm : pool.commons.messages = (p.found others).commons.messages ++ more) :
    Stands i w.id w.held (sent ++ more) (p.behind others pool) := by
  refine ⟨⟨w, hw, rfl, rfl⟩, ?_⟩
  rw [Post.behind, h.sent, hm, List.drop_left]

theorem Stands.tryEnter (h : Stands i id false sent p) (hf : others.Fair i) :
    Stands i id ((hooks others i).tryEnter p).1 sent ((hooks others i).tryEnter p).2 := by
  obtain ⟨w, hw, rfl, hh⟩ := h.found hf
  obtain ⟨hwon, hworker, hcommons⟩ := Pool.tryEnter_of_worker hw
  obtain ⟨hheld, hid, hmessages⟩ :=
    Worker.held_tryEnter (p.found others).clock.instant hh (p.found others).commons
  have hbehind := h.behind ((Pool.hooks i).tryEnter (p.found others)).2 [] hworker (by
    rw [List.append_nil, hcommons, hmessages])
  rw [hid, hheld, ← hwon, List.append_nil] at hbehind
  exact hbehind

theorem Stands.nextId (h : Stands i id held sent p) (hf : others.Fair i) :
    Stands i id held sent ((hooks others i).nextId p).2 := by
  obtain ⟨w, hw, rfl, rfl⟩ := h.found hf
  have hbehind := h.behind ((Pool.hooks i).nextId (p.found others)).2 [] hw
    (by rw [List.append_nil]; exact Worker.messages_nextId _)
  rwa [List.append_nil] at hbehind

theorem Stands.leave (h : Stands i id held sent p) (hf : others.Fair i) :
    Stands i id false sent ((hooks others i).leave p) := by
  obtain ⟨w, hw, rfl, -⟩ := h.found hf
  obtain ⟨hworker, hcommons⟩ := Pool.act_of_worker hw Worker.leave
  obtain ⟨hid, -, -, hqueue, -⟩ := Worker.leave_keeps w (p.found others).commons
  have hbehind := h.behind ((Pool.hooks i).leave (p.found others)) [] hworker (by
    rw [List.append_nil, Commons.messages, Commons.messages, ← hqueue]
    exact congrArg (·.queue.messages.toList) hcommons)
  rwa [hid, Worker.held_leave w (releases_found hf p), List.append_nil] at hbehind

theorem Stands.tick (h : Stands i id held sent p) (hf : others.Fair i) (count : Nat) :
    ∃ beats : List Heartbeat, (∀ b ∈ beats, b.worker = id ∧ b.timestamp.isSome = true) ∧
      Stands i id held (sent ++ beats.map (·.encode)) ((hooks others i).tick count p) := by
  obtain ⟨w, hw, rfl, rfl⟩ := h.found hf
  obtain ⟨hworker, hcommons⟩ :=
    Pool.act_of_worker hw (Worker.tick (p.found others).clock count)
  obtain ⟨hid, beats, hmessages, hbeats⟩ :=
    Worker.tick_sends (p.found others).clock count w (p.found others).commons
  obtain ⟨-, -, hheld⟩ := w.tick_keeps (p.found others).clock count (p.found others).commons
  have hbehind := h.behind ((Pool.hooks i).tick count (p.found others)) _ hworker
    ((congrArg Commons.messages hcommons).trans hmessages)
  rw [hid, hheld] at hbehind
  exact ⟨beats, hbeats, hbehind⟩

theorem Stands.shutdown (h : Stands i id held sent p) (hf : others.Fair i) (count : Nat) :
    let sentinel : Heartbeat := ⟨id, none, Worker.reported count⟩
    ((hooks others i).shutdown count p).pool.holds i = false ∧
      ((hooks others i).shutdown count p).sent = sent ++
        if (p.found others).commons.takes sentinel.encode then [sentinel.encode] else [] := by
  obtain ⟨w, hw, rfl, -⟩ := h.found hf
  obtain ⟨hworker, hcommons⟩ :=
    Pool.act_of_worker hw (Worker.shutdown (p.found others).clock count)
  obtain ⟨hheld, hmessages⟩ := Worker.shutdown_sends (p.found others).clock count w
    (releases_found hf p)
  have hbehind := h.behind ((Pool.hooks i).shutdown count (p.found others)) _ hworker
    ((congrArg Commons.messages hcommons).trans hmessages)
  exact ⟨hbehind.holds.trans hheld, hbehind.sent⟩

variable {σ : Type} {config : Config σ} {l m : Loop σ Post} {acts : List Server.Act}

theorem Stands.pollOnce (h : Stands i id false sent l.hooks) (hf : others.Fair i)
    (env : Surroundings) :
    Stands i id false sent (l.pollOnce (hooks others i) config env).2.1.hooks := by
  obtain ⟨took, he⟩ := l.hooks_pollOnce (hooks others i) config env
  rw [he]
  have hentered := h.tryEnter hf
  generalize (hooks others i).tryEnter l.hooks = entered at hentered ⊢
  obtain ⟨granted, p⟩ := entered
  have hserved : Stands i id granted sent (if took then ((hooks others i).nextId p).2 else p) := by
    cases took with
    | true => exact hentered.nextId hf
    | false => exact hentered
  cases granted with
  | true => exact hserved.leave hf
  | false => exact hserved

theorem Stands.served (h : Stands i id false sent l.hooks) (hf : others.Fair i)
    (hs : Loop.Served (hooks others i) config l acts m) :
    ∃ beats : List Heartbeat, (∀ b ∈ beats, b.worker = id ∧ b.timestamp.isSome = true) ∧
      Stands i id false (sent ++ beats.map (·.encode)) m.hooks := by
  induction hs with
  | start => exact ⟨[], nofun, by rwa [List.map_nil, List.append_nil]⟩
  | polled env _ ih =>
    obtain ⟨beats, hbeats, hm⟩ := ih
    exact ⟨beats, hbeats, hm.pollOnce hf env⟩
  | @ticked acts m _ ih =>
    obtain ⟨beats, hbeats, hm⟩ := ih
    obtain ⟨more, hmore, hm⟩ := hm.tick hf m.openCount
    refine ⟨beats ++ more, fun b hb ↦ (List.mem_append.1 hb).elim (hbeats b) (hmore b), ?_⟩
    rw [List.map_append, ← List.append_assoc]
    exact hm

/-- A run ends with one last call, in which the worker gives the lock back and sends its sentinel,
if that can be sent. -/
structure Retires (others : Others) (i : Nat) (id : UInt32) (sent : List Bytes)
    (before : List Server.Act) (m : Loop σ Post) (r : Loop.Run σ Post) : Prop where
  acts : ∃ closing, r.2 = before ++ .shutDown m.openCount :: closing ∧
    ∀ a ∈ closing, a.isRoutine = true
  once (count : Nat) : .shutDown count ∉ before
  last : r.1.hooks = (hooks others i).shutdown m.openCount m.hooks
  free : r.1.hooks.pool.holds i = false
  beats : ∃ beats : List Heartbeat, (∀ b ∈ beats, b.worker = id ∧ b.timestamp.isSome = true) ∧
    m.hooks.sent = sent ++ beats.map (·.encode)
  sentinel :
    let sentinel : Heartbeat := ⟨id, none, Worker.reported m.openCount⟩
    r.1.hooks.sent = m.hooks.sent ++
      if (m.hooks.found others).commons.takes sentinel.encode then [sentinel.encode] else []

/-- Whatever the others do between its calls and however an iteration or a run comes out, a worker
holds the lock within iterations only, and its sentinel is the last it sends. -/
theorem gives_back (hf : others.Fair i) (config : Config σ) {w : Worker}
    (hw : l.hooks.pool.workers[i]? = some w) (hh : w.held = false) (envs : List Surroundings) :
    (∀ {η : Type} (hooks : Hooks η) (env : Surroundings) (l : Loop σ η),
        l.Gated hooks (l.pollOnce hooks config env).2) ∧
      (∀ acts m, Loop.Served (hooks others i) config l acts m →
        m.hooks.pool.holds i = false) ∧
      ∃ before m, Loop.Served (hooks others i) config l before m ∧
        Retires others i w.id l.hooks.sent before m (l.run (hooks others i) config envs).2 := by
  have hstart : Stands i w.id false l.hooks.sent l.hooks := ⟨⟨w, hw, rfl, hh⟩, rfl⟩
  refine ⟨fun hooks env l ↦ l.gated_pollOnce hooks config env, fun acts m hs ↦ ?_, ?_⟩
  · obtain ⟨beats, -, hm⟩ := hstart.served hf hs
    exact hm.holds
  · obtain ⟨before, m, hm, hrun⟩ := Loop.Served.run (.start (l := l)) envs
    rw [List.nil_append] at hm
    obtain ⟨beats, hbeats, hstands⟩ := hstart.served hf hm
    obtain ⟨hlast, closing, hacts, hclosing⟩ := m.finish_eq config (hooks others i)
    obtain ⟨hfree, hsent⟩ := hstands.shutdown hf m.openCount
    rw [hrun]
    refine ⟨before, m, hm, ⟨closing, congrArg (before ++ ·) hacts, hclosing⟩,
      hm.shutDown_notMem, hlast, ?_, ⟨beats, hbeats, hstands.sent⟩, ?_⟩
    · rw [hlast]
      exact hfree
    · rw [hlast, hstands.sent]
      exact hsent

def rivals : Others := fun n p ↦ { p with
  clock := .after 1000 (50 * n)
  commons := { p.commons with lock := .flag (n % 4 = 0), faults := {} } }

theorem fair_rivals (i : Nat) : rivals.Fair i := ⟨fun _ _ ↦ rfl, fun _ _ ↦ rfl⟩

def failing : List Surroundings :=
  [Server.acceptance, Server.acceptance,
    { Server.acceptance with poll := .error (.failed .writeZero) }]

theorem gives_back_failing :
    let config : Config Http.Session :=
      { protocol := Http.Session.protocol .greeting, build := fun _ ↦ .ok {}, maxBuffer := 1024 }
    let l : Loop Http.Session Post :=
      { hooks := { pool := Pool.starting 2 (Time.ofMillis 100) (.after 1000 0) .inProcess } }
    let result := l.run (hooks rivals 0) config failing
    (∀ {η : Type} (hooks : Hooks η) (env : Surroundings) (l : Loop Http.Session η),
        l.Gated hooks (l.pollOnce hooks config env).2) ∧
      (∀ acts m, Loop.Served (hooks rivals 0) config l acts m →
        m.hooks.pool.holds 0 = false) ∧
      (∃ before m, Loop.Served (hooks rivals 0) config l before m ∧
        Retires rivals 0 0 l.hooks.sent before m result.2) ∧
      result.1 = .error (.poll .writeZero) ∧ result.2.2.count .left = 2 ∧
      result.2.1.hooks.sent =
        [⟨0, some 1000, 0⟩, ⟨0, some 1000, 1⟩, (⟨0, none, 1⟩ : Heartbeat)].map (·.encode) := by
  intro config l result
  obtain ⟨hgated, hfree, hretires⟩ := gives_back (l := l) (fair_rivals 0) config rfl rfl failing
  exact ⟨hgated, hfree, hretires, by decide +kernel, by decide +kernel, by decide +kernel⟩

end Post

end Prefork.Supervision
