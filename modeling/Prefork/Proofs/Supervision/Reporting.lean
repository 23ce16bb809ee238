import Prefork.Proofs.Supervision.Registry
import Prefork.Proofs.Supervision.Worker
import Prefork.Supervision.Pool
import Prefork.Supervision.Supervisor

namespace Prefork.Supervision

open Time (Clock Nanos)

structure Reading where
  now : Nat
  message : Bytes
  deriving DecidableEq, Repr

namespace Registry

variable {r : Registry} {v : UInt32} {s : WorkerStatus}

def heard (r : Registry) (e : Reading) : Registry :=
  match Heartbeat.decode e.message with
  | .ok h => r.record h e.now
  | .error _ => r

def heardAll (r : Registry) (read : List Reading) : Registry := read.foldl heard r

theorem heard_of_encode {h : Heartbeat} {e : Reading} (he : e.message = h.encode) :
    r.heard e = r.record h e.now := by
  have hd := Heartbeat.decode_encode h []
  rw [List.append_nil, ← he] at hd
  rw [heard, hd]

theorem get?_record (r : Registry) (h : Heartbeat) (now : Nat) (v : UInt32) :
    (r.record h now).get? v =
      (r.get? v).map fun s ↦ if v = h.worker then s.hear h now else s :=
  get?_apply r (.record h now) v

theorem get?_heardAll_of_ne {read : List Reading} {sent : List Heartbeat}
    (he : read.map (·.message) = sent.map (·.encode)) (hv : ∀ h ∈ sent, h.worker ≠ v) :
    (r.heardAll read).get? v = r.get? v := by
  induction sent generalizing r read with
  | nil =>
    obtain rfl := List.map_eq_nil_iff.1 he
    rfl
  | cons h sent ih =>
    obtain ⟨e, read, rfl, heq, hrest⟩ := List.map_eq_cons_iff.1 he
    have hne : v ≠ h.worker := (hv h (List.mem_cons_self ..)).symm
    refine (ih hrest fun x hx ↦ hv x (List.mem_cons_of_mem h hx)).trans ?_
    rw [heard_of_encode heq, get?_record]
    simp [hne]

def timesOf (v : UInt32) (sent : List Heartbeat) : List UInt64 :=
  (sent.filter (·.worker = v)).filterMap (·.timestamp)

structure Follows (v : UInt32) (sent : List Heartbeat) (s t : WorkerStatus) : Prop where
  pid : t.pid = s.pid
  running : t.state ≠ .exited
  times : t.lastHeartbeat = (timesOf v sent).getLast?.or s.lastHeartbeat

theorem follows_hear (hs : s.state ≠ .exited) (h : Heartbeat) (now : Nat) :
    Follows h.worker [h] s (s.hear h now) := by
  rw [WorkerStatus.hear, if_neg (by simpa using hs)]
  cases ht : h.timestamp <;> exact ⟨rfl, by simp, by simp [timesOf, ht]⟩

theorem Follows.trans {sent later : List Heartbeat} {s t u : WorkerStatus}
    (h : Follows v sent s t) (h' : Follows v later t u) : Follows v (sent ++ later) s u := by
  refine ⟨h'.pid.trans h.pid, h'.running, ?_⟩
  rw [h'.times, h.times, timesOf, timesOf, timesOf, List.filter_append, List.filterMap_append,
    List.getLast?_append, Option.or_assoc]

theorem follows_heardAll {read : List Reading} {sent : List Heartbeat}
    (he : read.map (·.message) = sent.map (·.encode)) (hv : r.get? v = some s)
    (hs : s.state ≠ .exited) : ∃ t, (r.heardAll read).get? v = some t ∧ Follows v sent s t := by
  induction sent generalizing r read s with
  | nil =>
    obtain rfl := List.map_eq_nil_iff.1 he
    exact ⟨s, hv, rfl, hs, rfl⟩
  | cons h sent ih =>
    obtain ⟨e, read, rfl, heq, hrest⟩ := List.map_eq_cons_iff.1 he
    have hnext : ∃ t, (r.heard e).get? v = some t ∧ Follows v [h] s t := by
      rw [heard_of_encode heq, get?_record, hv]
      by_cases hw : v = h.worker
      · exact ⟨s.hear h e.now, by simp [hw], hw ▸ follows_hear hs h e.now⟩
      · have hnone : timesOf v [h] = [] := by simp [timesOf, Ne.symm hw]
        exact ⟨s, by simp [hw], rfl, hs, by rw [hnone]; rfl⟩
    obtain ⟨t, ht, hf⟩ := hnext
    obtain ⟨u, hu, hf'⟩ := ih hrest ht hf.running
    exact ⟨u, hu, hf.trans hf'⟩

/-- Behind the last heartbeat of a worker, its status is what that one made of it. -/
theorem get?_heardAll_last {read : List Reading} {earlier later : List Heartbeat} {last : Heartbeat}
    (he : read.map (·.message) = (earlier ++ last :: later).map (·.encode))
    (hl : last.worker = v) (hlater : ∀ h ∈ later, h.worker ≠ v) (hv : r.get? v = some s)
    (hs : s.state ≠ .exited) : ∃ (e : Reading) (t : WorkerStatus), read[earlier.length]? = some e ∧
      t.state ≠ .exited ∧ (r.heardAll read).get? v = some (t.hear last e.now) := by
  rw [List.map_append, List.map_cons] at he
  obtain ⟨before, behind, rfl, hbefore, hbehind⟩ := List.map_eq_append_iff.1 he
  obtain ⟨e, after, rfl, heq, hafter⟩ := List.map_eq_cons_iff.1 hbehind
  obtain ⟨t, ht, htold⟩ := follows_heardAll hbefore hv hs
  have hlength : earlier.length = before.length := by
    rw [← List.length_map (·.encode), ← hbefore, List.length_map]
  refine ⟨e, t, by simp [hlength], htold.running, ?_⟩
  calc (r.heardAll (before ++ e :: after)).get? v
      = (((r.heardAll before).heard e).heardAll after).get? v := by
        simp only [heardAll, List.foldl_append, List.foldl_cons]
    _ = ((r.heardAll before).heard e).get? v := get?_heardAll_of_ne hafter hlater
    _ = some (t.hear last e.now) := by
        rw [heard_of_encode heq, get?_record, ht]
        simp [hl]

end Registry

theorem Supervisor.hear_eq (s : Supervisor) (message : Bytes) (now : Nat) :
    s.hear message now = { s with registry := s.registry.heard ⟨now, message⟩ } := by
  simp only [hear, Registry.heard]
  cases Heartbeat.decode message <;> rfl

/-- Draining a queue in memory takes the messages in front, up to the limit. -/
theorem Supervisor.drainUpTo_unbounded (now : Nat) (r : Registry) (messages : List Bytes)
    (limit : Nat) :
    Supervisor.drainUpTo now ⟨.unbounded messages.toArray, r⟩ limit =
      (min limit messages.length, ⟨.unbounded (messages.drop limit).toArray,
        r.heardAll ((messages.take limit).map (⟨now, ·⟩))⟩) := by
  induction limit generalizing r messages with
  | zero =>
    rw [Nat.zero_min]
    rfl
  | succ limit ih =>
    cases messages with
    | nil => rfl
    | cons message messages =>
      have hreceive : (Coordination.Queue.unbounded (message :: messages).toArray).receive =
          (.ok (some message), .unbounded messages.toArray) := rfl
      simp only [drainUpTo, hreceive, hear_eq, ih, List.length_cons, Nat.add_min_add_right]
      rfl

namespace Commons

structure Carries (c : Commons) (messages : List Bytes) : Prop where
  queue : c.queue = .unbounded messages.toArray
  works : c.faults.queue = false

end Commons

namespace Worker

variable {c : Commons} {messages : List Bytes}

theorem toNat_reported (count : Nat) : (reported count).toNat = min count 0xffffffff := by
  rw [reported, UInt32.toNat_ofNat', show UInt32.size - 1 = 0xffffffff from rfl]
  exact Nat.mod_eq_of_lt (by omega)

theorem carries_offered (hc : c.Carries messages) (h : Heartbeat) :
    (c.offered h.encode).Carries (messages ++ [h.encode]) := by
  have hfits : ¬ Coordination.Queue.maxMessage < h.encode.length := by
    rw [Heartbeat.length_encode]
    decide
  have hsend : (Coordination.Queue.unbounded messages.toArray).send h.encode =
      (.ok (), .unbounded (messages ++ [h.encode]).toArray) := by
    rw [Coordination.Queue.send, if_neg hfits, List.push_toArray]
  rw [Commons.offered, hc.works, hc.queue, hsend]
  exact ⟨rfl, hc.works⟩

theorem tick_carries {clock : Clock} {w : Worker} (hc : c.Carries messages)
    (hd : w.isDue clock.instant = true) (count : Nat) :
    (w.tick clock count c).1.id = w.id ∧ (w.tick clock count c).2.Carries
      (messages ++ [(⟨w.id, some clock.unix, reported count⟩ : Heartbeat).encode]) := by
  refine ⟨(w.tick_keeps clock count c).1, ?_⟩
  rw [tick_of_due hd]
  exact carries_offered hc _

theorem shutdown_carries (hc : c.Carries messages) (clock : Clock) (count : Nat) (w : Worker) :
    (w.shutdown clock count c).1.id = w.id ∧ (w.shutdown clock count c).2.Carries
      (messages ++ [(⟨w.id, none, reported count⟩ : Heartbeat).encode]) := by
  obtain ⟨hid, -, -, hqueue, hfaults⟩ := w.relinquish_keeps c
  have hc' : (w.relinquish c).2.Carries messages :=
    ⟨hqueue.trans hc.queue, by rw [hfaults, hc.works]⟩
  rw [shutdown_eq]
  refine ⟨(report_keeps ..).1.trans hid, ?_⟩
  rw [report_eq]
  exact carries_offered hc' _

end Worker

/-- Workers, and what the supervisor that reads their queue knows of them. -/
structure Fleet where
  pool : Pool
  registry : Registry

inductive Call where
  | tick (place : Nat) (clock : Clock) (count : Nat)
  | shutdown (place : Nat) (clock : Clock) (count : Nat)
  | drain (now : Nat)

structure Report where
  place : Nat
  worker : UInt32
  timestamp : Option UInt64
  count : Nat
  deriving DecidableEq, Repr

def Report.heartbeat (r : Report) : Heartbeat := ⟨r.worker, r.timestamp, Worker.reported r.count⟩

namespace Fleet

def supervisor (f : Fleet) : Supervisor := { queue := f.pool.commons.queue, registry := f.registry }

def waiting (f : Fleet) : List Bytes := f.pool.commons.queue.messages.toList

def step (f : Fleet) : Call → Fleet
  | .tick place clock count =>
    { f with pool := (Pool.hooks place).tick count { f.pool with clock } }
  | .shutdown place clock count =>
    { f with pool := (Pool.hooks place).shutdown count { f.pool with clock } }
  | .drain now =>
    let s := (f.supervisor.drain now).2
    { pool := { f.pool with commons := { f.pool.commons with queue := s.queue } }
      registry := s.registry }

def sends (f : Fleet) : Call → List Report
  | .tick place clock count => match f.pool.workers[place]? with
    | some w => if w.isDue clock.instant then [⟨place, w.id, some clock.unix, count⟩] else []
    | none => []
  | .shutdown place _ count => match f.pool.workers[place]? with
    | some w => [⟨place, w.id, none, count⟩]
    | none => []
  | .drain _ => []

def reads (f : Fleet) : Call → List Reading
  | .drain now => (f.waiting.take (f.supervisor.drain now).1).map (⟨now, ·⟩)
  | .tick .. | .shutdown .. => []

def run (f : Fleet) (calls : List Call) : Fleet := calls.foldl step f

def sent (f : Fleet) : List Call → List Report
  | [] => []
  | c :: calls => f.sends c ++ sent (f.step c) calls

def readings (f : Fleet) : List Call → List Reading
  | [] => []
  | c :: calls => f.reads c ++ readings (f.step c) calls

/-- Between two states, these reports were sent and these messages read. -/
structure Passes (f : Fleet) (sent : List Report) (read : List Reading) (g : Fleet) : Prop where
  carries : g.pool.commons.Carries g.waiting
  ids : g.pool.workers.map (·.id) = f.pool.workers.map (·.id)
  senders (r : Report) : r ∈ sent → (f.pool.workers.map (·.id))[r.place]? = some r.worker
  messages : read.map (·.message) ++ g.waiting = f.waiting ++ sent.map (·.heartbeat.encode)
  registry : g.registry = f.registry.heardAll read

variable {f g : Fleet} {sent sent' : List Report} {read read' : List Reading}

theorem passes_nothing (h : f.pool.commons.Carries f.waiting) (clock : Clock) :
    f.Passes [] [] { f with pool := { f.pool with clock } } :=
  ⟨h, rfl, nofun, (List.append_nil _).symm, rfl⟩

theorem Passes.trans {k : Fleet} (h : f.Passes sent read g) (h' : g.Passes sent' read' k) :
    f.Passes (sent ++ sent') (read ++ read') k := by
  refine ⟨h'.carries, h'.ids.trans h.ids, fun r hr ↦ ?_, ?_, ?_⟩
  · rcases List.mem_append.1 hr with hr | hr
    · exact h.senders r hr
    · exact h.ids ▸ h'.senders r hr
  · rw [List.map_append, List.append_assoc, h'.messages, ← List.append_assoc, h.messages,
      List.append_assoc, List.map_append]
  · rw [h'.registry, h.registry, Registry.heardAll, Registry.heardAll, Registry.heardAll,
      List.foldl_append]

theorem carries_waiting {messages : List Bytes} (h : g.pool.commons.Carries messages) :
    g.waiting = messages := by
  rw [waiting, h.queue]
  rfl

theorem passes_sending {place : Nat} {w w' : Worker} {c' : Commons} {clock : Clock}
    (sent : List Report) (hw : f.pool.workers[place]? = some w) (hid : w'.id = w.id)
    (hc : c'.Carries (f.waiting ++ sent.map (·.heartbeat.encode)))
    (hs : ∀ r ∈ sent, r.place = place ∧ r.worker = w.id) :
    f.Passes sent [] { f with pool := ⟨clock, f.pool.workers.set place w', c'⟩ } := by
  have hwaiting : waiting { f with pool := ⟨clock, f.pool.workers.set place w', c'⟩ } = _ :=
    carries_waiting hc
  have hget : (f.pool.workers.map (·.id))[place]? = some w.id := by
    rw [List.getElem?_map, hw]
    rfl
  refine ⟨hwaiting ▸ hc, ?_, fun r hr ↦ ?_, hwaiting, rfl⟩
  · obtain ⟨hlt, heq⟩ := List.getElem?_eq_some_iff.1 hget
    have hset := List.set_getElem_self hlt
    rwa [heq, ← hid, ← List.map_set] at hset
  · obtain ⟨hp, hr⟩ := hs r hr
    rw [hp, hr, hget]

theorem drain_eq (h : f.pool.commons.Carries f.waiting) (now : Nat) :
    f.supervisor.drain now = (f.waiting.length,
      ⟨.unbounded #[], f.registry.heardAll (f.waiting.map (⟨now, ·⟩))⟩) := by
  have hdrain := Supervisor.drainUpTo_unbounded now f.registry f.waiting (f.waiting.length + 1)
  rw [Nat.min_eq_right (Nat.le_succ _), List.drop_eq_nil_of_le (Nat.le_succ _),
    List.take_of_length_le (Nat.le_succ _)] at hdrain
  rw [← hdrain, supervisor, Supervisor.drain, h.queue]
  rfl

theorem waiting_drain (h : f.pool.commons.Carries f.waiting) (now : Nat) :
    (f.step (.drain now)).waiting = [] := by
  simp only [step, drain_eq h]
  rfl

theorem passes_step (h : f.pool.commons.Carries f.waiting) (c : Call) :
    f.Passes (f.sends c) (f.reads c) (f.step c) := by
  cases c with
  | tick place clock count =>
    simp only [step, sends, reads, Pool.hooks, Pool.act]
    cases hw : f.pool.workers[place]? with
    | none => exact passes_nothing h clock
    | some w =>
      cases hd : w.isDue clock.instant with
      | false =>
        simp only [Worker.tick_of_not_due hd, hd, Bool.false_eq_true, if_false]
        exact passes_sending [] hw rfl (by simpa using h) nofun
      | true =>
        obtain ⟨hid, hcarries⟩ := Worker.tick_carries h hd count
        simp only [hd, if_true]
        exact passes_sending [⟨place, w.id, some clock.unix, count⟩] hw hid hcarries (by simp)
  | shutdown place clock count =>
    simp only [step, sends, reads, Pool.hooks, Pool.act]
    cases hw : f.pool.workers[place]? with
    | none => exact passes_nothing h clock
    | some w =>
      obtain ⟨hid, hcarries⟩ := Worker.shutdown_carries h clock count w
      exact passes_sending [⟨place, w.id, none, count⟩] hw hid hcarries (by simp)
  | drain now =>
    have hall := drain_eq h now
    refine ⟨?_, rfl, nofun, ?_, ?_⟩
    · simp only [step, hall]
      exact ⟨rfl, h.works⟩
    · rw [waiting_drain h, reads, hall, List.take_length]
      simp [sends, Function.comp_def]
    · simp only [step, reads, hall, List.take_length]

theorem passes_run (h : f.pool.commons.Carries f.waiting) (calls : List Call) :
    f.Passes (f.sent calls) (f.readings calls) (f.run calls) := by
  induction calls generalizing f with
  | nil => exact passes_nothing h f.pool.clock
  | cons c calls ih =>
    have hstep := passes_step h c
    exact hstep.trans (ih hstep.carries)

/-- Workers with different numbers, all just registered, and a queue in memory that is empty and
does not fail. -/
structure Fresh (f : Fleet) : Prop where
  queue : f.pool.commons.Carries []
  distinct : (f.pool.workers.map (·.id)).Nodup
  registered : ∀ w ∈ f.pool.workers, ∃ pid now, f.registry.get? w.id = some { pid, lastSeen := now }

theorem Fresh.carries (h : f.Fresh) : f.pool.commons.Carries f.waiting :=
  (carries_waiting h.queue).symm ▸ h.queue

theorem Passes.worker_eq_iff (h : f.Passes sent read g) (hf : f.Fresh) {place : Nat} {w : Worker}
    (hw : f.pool.workers[place]? = some w) {r : Report} (hr : r ∈ sent) :
    r.worker = w.id ↔ r.place = place := by
  have hget : (f.pool.workers.map (·.id))[place]? = some w.id := by rw [List.getElem?_map, hw]; rfl
  have hsender := h.senders r hr
  constructor
  · intro he
    obtain ⟨hlt, -⟩ := List.getElem?_eq_some_iff.1 hsender
    exact (List.getElem?_inj hlt hf.distinct).1 (by rw [hsender, hget, he])
  · rintro rfl
    exact Option.some.inj (hsender.symm.trans hget)

/-- What is known of the worker in a place when these reports were sent and read. -/
structure Knows (f : Fleet) (place : Nat) (id : UInt32) (sent : List Report) (read : List Reading)
    (r : Registry) : Prop where
  silent : (∀ x ∈ sent, x.place ≠ place) → r.get? id = f.registry.get? id
  heard (earlier later : List Report) (last : Report) : sent = earlier ++ last :: later →
    last.place = place → (∀ x ∈ later, x.place ≠ place) →
    ∃ s, r.get? id = some s ∧ s.openCount.toNat = min last.count 0xffffffff ∧
      s.lastHeartbeat = ((sent.filter (·.place = place)).filterMap (·.timestamp)).getLast? ∧
      (read[earlier.length]?).map (·.now) = some s.lastSeen ∧
      s.state = (if last.timestamp.isSome then .alive else .stopped) ∧
      (f.registry.get? id).map (·.pid) = some s.pid

theorem timesOf_reports {place : Nat} {id : UInt32}
    (h : ∀ r ∈ sent, r.worker = id ↔ r.place = place) :
    Registry.timesOf id (sent.map (·.heartbeat)) =
      (sent.filter (·.place = place)).filterMap (·.timestamp) := by
  rw [Registry.timesOf, List.filter_map, List.filterMap_map]
  congr 1
  exact List.filter_congr fun r hr ↦ decide_eq_decide.2 (h r hr)

theorem Passes.read_eq (h : f.Passes sent read g) (hf : f.Fresh) (hg : g.waiting = []) :
    read.map (·.message) = (sent.map (·.heartbeat)).map (·.encode) := by
  have hmessages := h.messages
  rw [hg, carries_waiting hf.queue, List.append_nil, List.nil_append] at hmessages
  rw [hmessages, List.map_map]
  rfl

theorem Passes.knows (h : f.Passes sent read g) (hf : f.Fresh) (hg : g.waiting = [])
    {place : Nat} {w : Worker} (hw : f.pool.workers[place]? = some w) :
    Knows f place w.id sent read g.registry := by
  have hiff (r : Report) (hr : r ∈ sent) := h.worker_eq_iff hf hw hr
  have hread := h.read_eq hf hg
  rw [h.registry]
  constructor
  · intro hs
    apply Registry.get?_heardAll_of_ne hread
    intro b hb
    obtain ⟨r, hr, rfl⟩ := List.mem_map.1 hb
    exact fun he ↦ hs r hr ((hiff r hr).1 he)
  · rintro earlier later last rfl hl hlater
    obtain ⟨pid, now, hstart⟩ := hf.registered w (List.mem_of_getElem? hw)
    obtain ⟨t, ht, htold⟩ := Registry.follows_heardAll hread hstart nofun
    have hnone : ∀ b ∈ later.map (·.heartbeat), b.worker ≠ w.id := by
      intro b hb
      obtain ⟨r, hr, rfl⟩ := List.mem_map.1 hb
      exact fun he ↦ hlater r hr ((hiff r (by simp [hr])).1 he)
    rw [List.map_append, List.map_cons] at hread
    obtain ⟨e, s, hget, hs, hlast⟩ := Registry.get?_heardAll_last hread
      ((hiff last (by simp)).2 hl) hnone hstart nofun
    obtain rfl := Option.some.inj (ht.symm.trans hlast)
    obtain ⟨hcount, hseen⟩ := Registry.hear_told hs last.heartbeat e.now
    refine ⟨_, ht, ?_, ?_, ?_, Registry.state_hear hs last.heartbeat e.now, ?_⟩
    · rw [hcount]
      exact Worker.toNat_reported last.count
    · rw [htold.times, timesOf_reports hiff, Option.or_none]
    · rw [hseen, ← List.length_map (·.heartbeat), hget]
      rfl
    · rw [hstart, htold.pid]
      rfl

theorem Passes.get?_stranger (h : f.Passes sent read g) (hf : f.Fresh) (hg : g.waiting = [])
    {id : UInt32} (hid : ∀ w ∈ f.pool.workers, w.id ≠ id) :
    g.registry.get? id = f.registry.get? id := by
  rw [h.registry]
  apply Registry.get?_heardAll_of_ne (h.read_eq hf hg)
  intro b hb
  obtain ⟨r, hr, rfl⟩ := List.mem_map.1 hb
  obtain ⟨w, hw, he⟩ := List.mem_map.1 (List.mem_of_getElem? (h.senders r hr))
  exact fun heq ↦ hid w hw (he.trans heq)

theorem run_append (f : Fleet) (calls later : List Call) :
    f.run (calls ++ later) = (f.run calls).run later :=
  List.foldl_append

/-- However the calls interleave, each heartbeat sent is read once and in order, and behind a drain
the registry says of each worker what its last heartbeat says, and nothing new of any other. -/
theorem reports_arrive (h : f.Fresh) (calls : List Call) :
    (f.readings calls).map (·.message) ++ (f.run calls).waiting =
        (f.sent calls).map (·.heartbeat.encode) ∧
      ∀ now, let drained := calls ++ [.drain now]
        (f.run drained).waiting = [] ∧
          (∀ place w, f.pool.workers[place]? = some w →
            Knows f place w.id (f.sent drained) (f.readings drained) (f.run drained).registry) ∧
          ∀ id, (∀ w ∈ f.pool.workers, w.id ≠ id) →
            (f.run drained).registry.get? id = f.registry.get? id := by
  have hcalls := passes_run h.carries calls
  refine ⟨?_, fun now ↦ ?_⟩
  · have hmessages := hcalls.messages
    rwa [carries_waiting h.queue] at hmessages
  · intro drained
    have hdrained := passes_run h.carries drained
    have hnone : (f.run drained).waiting = [] := by
      rw [run_append]
      exact waiting_drain hcalls.carries now
    exact ⟨hnone, fun place w hw ↦ hdrained.knows h hnone hw, fun id hid ↦
      hdrained.get?_stranger h hnone hid⟩

def twoWorkers : Fleet where
  pool := Pool.starting 2 (Time.ofMillis 100) (.after 1000 0) .inProcess
  registry :=
    ((Registry.ofTimeout (Time.ofSeconds 5)).register 0 (some 40) 990).register 1 (some 41) 991

def interleaved : List Call :=
  [.tick 0 (.after 1000 0) 3, .tick 1 (.after 1000 10) 5, .drain 1000, .tick 0 (.after 1000 50) 4,
    .shutdown 1 (.after 1000 2000) 2, .tick 0 (.after 1000 3000) 0x100000000]

theorem reports_arrive_interleaved :
    let drained := interleaved ++ [.drain 1003]
    let f := twoWorkers.run drained
    twoWorkers.Fresh ∧
      (twoWorkers.readings interleaved).map (·.message) ++ (twoWorkers.run interleaved).waiting =
        (twoWorkers.sent interleaved).map (·.heartbeat.encode) ∧
      f.waiting = [] ∧
      (∀ place w, twoWorkers.pool.workers[place]? = some w →
        Knows twoWorkers place w.id (twoWorkers.sent drained) (twoWorkers.readings drained)
          f.registry) ∧
      (twoWorkers.sent drained).map (·.place) = [0, 1, 1, 0] ∧
      f.registry.workers = [(0, ⟨some 40, some 1003, 1003, 0xffffffff, .alive⟩),
        (1, ⟨some 41, some 1000, 1003, 2, .stopped⟩)] := by
  have h : twoWorkers.Fresh := by
    refine ⟨⟨rfl, rfl⟩, by decide, fun w hw ↦ ?_⟩
    rcases List.mem_cons.1 hw with rfl | hw
    · exact ⟨some 40, 990, rfl⟩
    · obtain rfl := List.mem_singleton.1 hw
      exact ⟨some 41, 991, rfl⟩
  obtain ⟨hmessages, hdrained⟩ := reports_arrive h interleaved
  obtain ⟨hnone, hknows, -⟩ := hdrained 1003
  exact ⟨h, hmessages, hnone, hknows, by decide, by decide⟩

end Fleet

end Prefork.Supervision
