import Mathlib.Data.List.Nodup
import Prefork.Proofs.Supervision.Lifetimes
import Prefork.Supervision.Lifecycle

namespace Prefork.Supervision

namespace Registry

variable {r : Registry} {pid : Pid}

def pids (r : Registry) : List (Option Pid) := r.workers.map (·.2.pid)

theorem mem_runningPids : pid ∈ r.runningPids ↔
    ∃ w ∈ r.workers, w.2.state ≠ .exited ∧ w.2.pid = some pid := by
  rw [runningPids, List.mem_filterMap]
  refine exists_congr fun w ↦ and_congr_right fun _ ↦ ?_
  by_cases h : w.2.state = .exited <;> simp [h]

theorem nodup_runningPids (h : r.pids.Nodup) : r.runningPids.Nodup := by
  rw [pids, List.Nodup, List.pairwise_map] at h
  refine List.pairwise_filterMap.2 (List.Pairwise.imp ?_ h)
  intro w v hne x hx y hy
  rintro rfl
  split at hx
  · cases hx
  · split at hy
    · cases hy
    · exact hne (hx.trans hy.symm)

/-- The same workers with the same processes, none of which has come back. -/
structure Continues (r r' : Registry) : Prop where
  pids : r'.pids = r.pids
  running : r'.runningPids ⊆ r.runningPids

theorem Continues.refl (r : Registry) : r.Continues r := ⟨rfl, fun _ h ↦ h⟩

theorem Continues.trans {r₁ r₂ r₃ : Registry} (h : r₁.Continues r₂) (h' : r₂.Continues r₃) :
    r₁.Continues r₃ :=
  ⟨h'.pids.trans h.pids, fun _ hp ↦ h.running (h'.running hp)⟩

theorem mem_runningPids_modify {f : UInt32 → WorkerStatus → WorkerStatus} :
    pid ∈ (r.modify f).runningPids ↔
      ∃ w ∈ r.workers, (f w.1 w.2).state ≠ .exited ∧ (f w.1 w.2).pid = some pid := by
  rw [mem_runningPids, modify]
  constructor
  · rintro ⟨w, hw, hs⟩
    obtain ⟨v, hv, rfl⟩ := List.mem_map.1 hw
    exact ⟨v, hv, hs⟩
  · rintro ⟨v, hv, hs⟩
    exact ⟨_, List.mem_map.2 ⟨v, hv, rfl⟩, hs⟩

theorem continues_modify (r : Registry) (f : UInt32 → WorkerStatus → WorkerStatus)
    (hpid : ∀ w s, (f w s).pid = s.pid)
    (hexited : ∀ w s, s.state = .exited → (f w s).state = .exited) : r.Continues (r.modify f) where
  pids := by
    rw [Registry.pids, modify, List.map_map]
    exact List.map_congr_left fun w _ ↦ hpid w.1 w.2
  running := by
    intro pid hp
    obtain ⟨w, hw, hs, hpid'⟩ := mem_runningPids_modify.1 hp
    exact mem_runningPids.2 ⟨w, hw, mt (hexited w.1 w.2) hs, (hpid w.1 w.2).symm.trans hpid'⟩

theorem continues_record (r : Registry) (report : Heartbeat) (now : Nat) :
    r.Continues (r.record report now) := by
  refine r.continues_modify _ (fun w s ↦ ?_) fun w s hs ↦ ?_
  · split
    · exact pid_hear s report now
    · rfl
  · split
    · exact (exited_hear s report now).2 hs
    · exact hs

theorem continues_sweep (r : Registry) (now : Nat) : r.Continues (r.sweep now).2 := by
  refine r.continues_modify
    (fun _ s ↦ if r.isOverdue now s then { s with state := .dead } else s)
    (fun w s ↦ ?_) fun w s hs ↦ ?_
  · split <;> rfl
  · have hover : ¬ r.isOverdue now s = true := by simp [isOverdue, hs, WorkerState.isWatched]
    rw [if_neg hover]
    exact hs

theorem continues_markExited (r : Registry) (pid : Pid) : r.Continues (r.markExited pid).2 := by
  refine r.continues_modify
    (fun w s ↦ if some w == r.ofPid? pid then { s with state := .exited } else s)
    (fun w s ↦ ?_) fun w s hs ↦ ?_
  · split <;> rfl
  · split
    · rfl
    · exact hs

theorem notMem_markExited (h : r.pids.Nodup) : pid ∉ (r.markExited pid).2.runningPids := by
  intro hp
  obtain ⟨w, hw, hs, hpid⟩ := mem_runningPids_modify.1 hp
  by_cases hmarked : some w.1 = r.ofPid? pid
  · rw [if_pos (by simpa using hmarked)] at hs
    exact hs rfl
  · -- The worker that is marked instead has the same process, so it is this one.
    rw [if_neg (by simpa using hmarked)] at hpid
    have hsome : (r.workers.find? fun w ↦ w.2.pid == some pid).isSome :=
      List.find?_isSome.2 ⟨w, hw, by simpa using hpid⟩
    obtain ⟨u, hu⟩ := Option.isSome_iff_exists.1 hsome
    have hupid : u.2.pid = some pid := by simpa using List.find?_some hu
    obtain rfl := List.inj_on_of_nodup_map h (List.mem_of_find?_eq_some hu) hw
      (hupid.trans hpid.symm)
    rw [ofPid?, hu] at hmarked
    exact hmarked rfl

theorem workers_register_last {w : UInt32} (h : ∀ v ∈ r.workers, v.1 < w) (pid : Option Pid)
    (now : Nat) :
    (r.register w pid now).workers = r.workers ++ [(w, { pid, lastSeen := now })] := by
  have hbelow : r.workers.filter (·.1 < w) = r.workers := by
    rw [List.filter_eq_self]
    intro v hv
    simpa using h v hv
  have habove : r.workers.filter (w < ·.1) = [] := by
    rw [List.filter_eq_nil_iff]
    intro v hv
    simpa using UInt32.le_of_lt (h v hv)
  rw [register, hbelow, habove]

end Registry

def reaped (acts : List Action) : List Pid :=
  acts.filterMap fun
    | .reaped pid => some pid
    | .forked _ | .signalled _ _ | .destroyedLock | .destroyedStore | .destroyedQueue => none

namespace Action

def destroys : Action → Bool
  | destroyedLock | destroyedStore | destroyedQueue => true
  | forked _ | signalled _ _ | reaped _ => false

end Action

namespace Supervisor

variable {s s' s₁ s₂ s₃ : Supervisor} {acts acts' : List Action}

abbrev Continues (s s' : Supervisor) : Prop := s.registry.Continues s'.registry

theorem continues_noteEnd (s : Supervisor) (pid : Pid) : s.Continues (s.noteEnd pid) :=
  s.registry.continues_markExited pid

theorem continues_hear (s : Supervisor) (message : Bytes) (now : Nat) :
    s.Continues (s.hear message now) := by
  rw [hear]
  split
  · exact s.registry.continues_record _ now
  · exact .refl _

theorem continues_drainUpTo (now limit : Nat) (s : Supervisor) :
    s.Continues (s.drainUpTo now limit).2 := by
  induction limit generalizing s with
  | zero => exact .refl _
  | succ limit ih =>
    rw [drainUpTo]
    split
    · next message queue _ => exact (continues_hear { s with queue } message now).trans (ih _)
    · exact .refl _

theorem continues_foldl {step : Supervisor → Pid → Supervisor}
    (hstep : ∀ s pid, Continues s (step s pid)) (s : Supervisor) (pids : List Pid) :
    s.Continues (pids.foldl step s) := by
  induction pids generalizing s with
  | nil => exact .refl _
  | cons pid pids ih => exact (hstep s pid).trans (ih _)

theorem continues_reap (children : Children) (s : Supervisor) : s.Continues (s.reap children) := by
  refine continues_foldl (fun s pid ↦ ?_) s _
  split
  · exact s.continues_noteEnd pid
  · exact s.continues_noteEnd pid
  · exact .refl _
  · exact .refl _

theorem continues_onTick (now : Nat) (children : Children) (limit : Option Nat) (s : Supervisor) :
    s.Continues (s.onTick now children limit) := by
  cases limit with
  | none =>
    exact ((continues_drainUpTo now _ s).trans (continues_reap children _)).trans
      (Registry.continues_sweep _ now)
  | some limit =>
    exact ((continues_drainUpTo now limit s).trans (continues_reap children _)).trans
      (Registry.continues_sweep _ now)

theorem continues_watch (events : List Event) (s : Supervisor) :
    s.Continues (s.watch events).2 := by
  induction events generalizing s with
  | nil => exact .refl _
  | cons event events ih =>
    cases event with
    | shutdown result => exact .refl _
    | tick now children limit =>
      have htick := continues_onTick now children limit s
      rw [watch]
      split
      · exact htick
      · exact htick.trans (ih _)

theorem continues_look (r : Round) (s : Supervisor) :
    s.Continues ((s.drainRound r).reap r.children) := by
  refine .trans ?_ (continues_reap r.children _)
  rw [drainRound]
  split
  · exact continues_drainUpTo r.now _ s
  · exact continues_drainUpTo r.now _ s

theorem continues_reapAll (s : Supervisor) : s.Continues s.reapAll :=
  continues_foldl continues_noteEnd s _

theorem notMem_foldl_noteEnd (h : s.registry.pids.Nodup) {pids : List Pid} {pid : Pid}
    (hpid : pid ∈ pids) : pid ∉ (pids.foldl noteEnd s).registry.runningPids := by
  induction pids generalizing s with
  | nil => cases hpid
  | cons first pids ih =>
    have hfirst := s.continues_noteEnd first
    rcases List.mem_cons.1 hpid with rfl | hpid
    · have hrest := continues_foldl continues_noteEnd (s.noteEnd pid) pids
      exact fun hp ↦ Registry.notMem_markExited h (hrest.running hp)
    · exact ih (hfirst.pids ▸ h) hpid

theorem runningPids_reapAll (h : s.registry.pids.Nodup) : s.reapAll.registry.runningPids = [] := by
  rw [List.eq_nil_iff_forall_not_mem]
  intro pid hpid
  exact notMem_foldl_noteEnd h (s.continues_reapAll.running hpid) hpid

/-- A stretch of a supervisor's work. Each process that was left at its start is waited for once or
left at its end, and no object is removed. -/
structure Settles (s : Supervisor) (acts : List Action) (s' : Supervisor) : Prop where
  pids : s'.registry.pids = s.registry.pids
  reaped : (reaped acts ++ s'.registry.runningPids).Perm s.registry.runningPids
  keeps : ∀ a ∈ acts, a.destroys = false

theorem Settles.refl (s : Supervisor) : s.Settles [] s := ⟨rfl, .refl _, nofun⟩

theorem Settles.trans (h : s₁.Settles acts s₂) (h' : s₂.Settles acts' s₃) :
    s₁.Settles (acts ++ acts') s₃ where
  pids := h'.pids.trans h.pids
  reaped := by
    rw [Supervision.reaped, List.filterMap_append, List.append_assoc]
    exact (h'.reaped.append_left _).trans h.reaped
  keeps a ha := (List.mem_append.1 ha).elim (h.keeps a) (h'.keeps a)

theorem reaped_map_reaped (pids : List Pid) : reaped (pids.map .reaped) = pids := by
  rw [reaped, List.filterMap_map]
  exact List.filterMap_some

theorem reaped_signalAll (signal : Signal) (s : Supervisor) : reaped (s.signalAll signal) = [] := by
  rw [reaped, signalAll, List.filterMap_map]
  exact List.filterMap_eq_nil_iff.2 fun _ _ ↦ rfl

theorem settles_signalAll (signal : Signal) (s : Supervisor) :
    s.Settles (s.signalAll signal) s where
  pids := rfl
  reaped := by rw [reaped_signalAll, List.nil_append]
  keeps a ha := by
    obtain ⟨pid, -, rfl⟩ := List.mem_map.1 ha
    rfl

theorem settles_endings (hd : s.registry.pids.Nodup) (h : s.Continues s') :
    s.Settles (s.endings s') s' where
  pids := h.pids
  reaped := by
    have hd' : s'.registry.pids.Nodup := h.pids ▸ hd
    rw [endings, reaped_map_reaped]
    refine (List.perm_ext_iff_of_nodup (List.nodup_append.2 ⟨?_, ?_, ?_⟩) ?_).2 fun pid ↦ ?_
    · exact (Registry.nodup_runningPids hd).filter _
    · exact Registry.nodup_runningPids hd'
    · rintro pid hp _ hp' rfl
      simp [hp'] at hp
    · exact Registry.nodup_runningPids hd
    · have hrunning : pid ∈ s'.registry.runningPids → pid ∈ s.registry.runningPids :=
        fun hp ↦ h.running hp
      simp only [List.mem_append, List.mem_filter, Bool.not_eq_true', List.contains_eq_mem,
        decide_eq_false_iff_not]
      tauto
  keeps a ha := by
    obtain ⟨pid, -, rfl⟩ := List.mem_map.1 ha
    rfl

theorem settles_killAll (hd : s.registry.pids.Nodup) : s.Settles s.killAll.1 s.killAll.2 :=
  (settles_signalAll .kill s).trans (settles_endings hd s.continues_reapAll)

theorem settles_awaitEnd (rounds : List Round) (hd : s.registry.pids.Nodup) :
    s.Settles (s.awaitEnd rounds).1 (s.awaitEnd rounds).2 ∧
      (s.awaitEnd rounds).2.registry.runningPids = [] := by
  induction rounds generalizing s with
  | nil => exact ⟨settles_killAll hd, runningPids_reapAll hd⟩
  | cons r rounds ih =>
    have hlook := settles_endings hd (continues_look r s)
    generalize hs' : (s.drainRound r).reap r.children = s' at hlook
    have hd' : s'.registry.pids.Nodup := hlook.pids ▸ hd
    by_cases hnone : s'.registry.runningPids.isEmpty = true
    · simp only [awaitEnd, hs', if_pos hnone]
      exact ⟨hlook.trans (.refl s'), List.isEmpty_iff.1 hnone⟩
    · by_cases hexpired : r.expired = true
      · simp only [awaitEnd, hs', if_neg hnone, if_pos hexpired]
        exact ⟨hlook.trans (settles_killAll hd'), runningPids_reapAll hd'⟩
      · simp only [awaitEnd, hs', if_neg hnone, if_neg hexpired]
        exact ⟨hlook.trans (ih hd').1, (ih hd').2⟩

theorem settles_terminate (rounds : List Round) (hd : s.registry.pids.Nodup) :
    s.Settles (s.terminate rounds).1 (s.terminate rounds).2 ∧
      (s.terminate rounds).2.registry.runningPids = [] :=
  ⟨(settles_signalAll .terminate s).trans (settles_awaitEnd rounds hd).1,
    (settles_awaitEnd rounds hd).2⟩

end Supervisor

namespace Course

variable {c : Course} {timeout : Time.Nanos} {queue : Coordination.Queue}

theorem workers_foldl_register (pids : List Pid) (i now : Nat) (r : Registry)
    (hr : ∀ w ∈ r.workers, w.1.toNat < i) (hi : i + pids.length ≤ UInt32.size) :
    ((pids.zipIdx i).foldl (fun r (pid, i) ↦ r.register (UInt32.ofNat i) (some pid) now)
        r).workers =
      r.workers ++ (pids.zipIdx i).map fun (pid, i) ↦
        (UInt32.ofNat i, { pid := some pid, lastSeen := now }) := by
  induction pids generalizing i r with
  | nil => exact (List.append_nil _).symm
  | cons pid pids ih =>
    rw [List.length_cons] at hi
    have hnumber : (UInt32.ofNat i).toNat = i := UInt32.toNat_ofNat_of_lt' (by omega)
    have hlast : ∀ w ∈ r.workers, w.1 < UInt32.ofNat i := by
      intro w hw
      rw [UInt32.lt_iff_toNat_lt, hnumber]
      exact hr w hw
    have hworkers := Registry.workers_register_last hlast (some pid) now
    have hnext : ∀ w ∈ (r.register (UInt32.ofNat i) (some pid) now).workers,
        w.1.toNat < i + 1 := by
      intro w hw
      rw [hworkers] at hw
      rcases List.mem_append.1 hw with hw | hw
      · have := hr w hw
        omega
      · rw [List.mem_singleton.1 hw, hnumber]
        omega
    rw [List.zipIdx_cons, List.foldl_cons, ih (i + 1) _ hnext (by omega), hworkers,
      List.append_assoc, List.map_cons, List.singleton_append]

theorem workers_registry (now : Nat) {pids : List Pid} (h : pids.length ≤ UInt32.size) :
    (registry timeout now pids).workers = pids.zipIdx.map fun (pid, i) ↦
      (UInt32.ofNat i, { pid := some pid, lastSeen := now }) :=
  workers_foldl_register pids 0 now (.ofTimeout timeout) nofun (by omega)

theorem pids_registry (now : Nat) {pids : List Pid} (h : pids.length ≤ UInt32.size) :
    (registry timeout now pids).pids = pids.map some := by
  rw [Registry.pids, workers_registry now h, List.map_map]
  conv_rhs => rw [← List.zipIdx_map_fst 0 pids, List.map_map]
  rfl

theorem runningPids_registry (now : Nat) {pids : List Pid} (h : pids.length ≤ UInt32.size) :
    (registry timeout now pids).runningPids = pids := by
  rw [Registry.runningPids, workers_registry now h, List.filterMap_map]
  conv_rhs => rw [← List.zipIdx_map_fst 0 pids, ← List.filterMap_eq_map]
  rfl

theorem length_forkAll (forks : List (Except Host.IoError Pid)) :
    (forkAll forks).1.length ≤ forks.length := by
  induction forks with
  | nil => exact Nat.le_refl 0
  | cons fork forks ih =>
    cases fork with
    | error e => exact Nat.zero_le _
    | ok pid => exact Nat.succ_le_succ ih

theorem settles_supervise (c : Course) (s : Supervisor) (failed : Option Host.IoError)
    (hd : s.registry.pids.Nodup) :
    s.Settles (c.supervise s failed).2.1 (c.supervise s failed).2.2 ∧
      (c.supervise s failed).2.2.registry.runningPids = [] := by
  have hend {watched : Supervisor} (h : s.Continues watched) :
      s.Settles (s.endings watched ++ (watched.terminate c.rounds).1)
          (watched.terminate c.rounds).2 ∧
        (watched.terminate c.rounds).2.registry.runningPids = [] := by
    have hwatch := Supervisor.settles_endings hd h
    obtain ⟨hsettles, hnone⟩ := Supervisor.settles_terminate c.rounds (hwatch.pids ▸ hd)
    exact ⟨hwatch.trans hsettles, hnone⟩
  rw [supervise, superviseBy.eq_def]
  cases c.runtime with
  | error e => exact ⟨Supervisor.settles_killAll hd, Supervisor.runningPids_reapAll hd⟩
  | ok _ =>
    cases failed with
    | some e => exact hend (.refl _)
    | none => exact hend (Supervisor.continues_watch c.events s)

/-- A run whose first serial was stored waits for each worker it has forked and then removes the
three objects, each once, whatever else has failed. If the serial was not stored nothing was forked
and nothing is removed. No process gets the number of one that is yet to be waited for. -/
theorem run_settles (c : Course) (timeout : Time.Nanos) (queue : Coordination.Queue)
    (hcount : c.forks.length ≤ UInt32.size) (hpids : (forkAll c.forks).1.Nodup) :
    (c.serial = .ok () → ∃ acts, (c.run timeout queue).2 =
        (forkAll c.forks).1.map .forked ++ acts ++
          [.destroyedLock, .destroyedStore, .destroyedQueue] ∧
      (∀ a ∈ acts, a.destroys = false) ∧ (reaped acts).Perm (forkAll c.forks).1) ∧
    ∀ e, c.serial = .error e → c.run timeout queue = (.error (.coordination e), []) := by
  constructor
  · intro hserial
    have hlen : (forkAll c.forks).1.length ≤ UInt32.size :=
      Nat.le_trans (length_forkAll c.forks) hcount
    have hd : (registry timeout c.registeredAt (forkAll c.forks).1).pids.Nodup := by
      rw [pids_registry c.registeredAt hlen]
      exact hpids.map fun _ _ ↦ Option.some.inj
    obtain ⟨hsettles, hnone⟩ := settles_supervise c
      ⟨queue, registry timeout c.registeredAt (forkAll c.forks).1⟩ (forkAll c.forks).2 hd
    refine ⟨_, ?_, hsettles.keeps, ?_⟩
    · rw [run, runBy, hserial]
      rfl
    · have hreaped := hsettles.reaped
      rw [hnone, List.append_nil, runningPids_registry c.registeredAt hlen] at hreaped
      exact hreaped
  · intro e hserial
    rw [run, runBy, hserial]
    rfl

/-- The third fork fails, and one of the two workers has to be killed. -/
theorem run_settles_stubborn :
    let c : Course :=
      { serial := .ok ()
        forks := [.ok 101, .ok 102, .error (.os 11)]
        registeredAt := 1000
        runtime := .ok ()
        events := []
        rounds := [
          { now := 1001, children := fun _ ↦ .running, expired := false },
          { now := 1011, children := fun pid ↦ if pid = 101 then .ended else .running,
            expired := true }] }
    c.forks.length ≤ UInt32.size ∧ (forkAll c.forks).1.Nodup ∧ ∃ acts,
      (c.run (Time.ofSeconds 10) (.kernel #[] true)).2 = [.forked 101, .forked 102] ++ acts ++
          [.destroyedLock, .destroyedStore, .destroyedQueue] ∧
        (∀ a ∈ acts, a.destroys = false) ∧ (reaped acts).Perm [101, 102] := by
  intro c
  have hcount : c.forks.length ≤ UInt32.size := by decide
  have hpids : (forkAll c.forks).1.Nodup := by decide
  exact ⟨hcount, hpids, (run_settles c _ _ hcount hpids).1 rfl⟩

/-- A table that has no room for the serial keeps the run from removing anything. -/
theorem run_leaves_objects :
    let c : Course :=
      { serial := .error (.storeFull "serial")
        forks := [.ok 101]
        registeredAt := 1000
        runtime := .ok ()
        events := [.shutdown (.ok ())]
        rounds := [] }
    let (result, acts) := c.run (Time.ofSeconds 10) (.kernel #[] true)
    result = .error (.coordination (.storeFull "serial")) ∧
      acts.count .destroyedLock = 0 ∧ acts.count .destroyedStore = 0 ∧
      acts.count .destroyedQueue = 0 :=
  ⟨rfl, rfl, rfl, rfl⟩

end Course

end Prefork.Supervision
