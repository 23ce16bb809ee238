import Mathlib.Data.List.Perm.Subperm
import Prefork.Proofs.Supervision.Registry

namespace Prefork.Supervision

def Registered (changes : List Change) (w : UInt32) (pid : Pid) (later : List Change) : Prop :=
  ∃ earlier now, changes = earlier ++ .register w (some pid) now :: later ∧
    ∀ c ∈ later, c.registers w = false

/-- A process that a worker was registered with and that was not marked since. -/
def Runs (changes : List Change) (w : UInt32) (pid : Pid) : Prop :=
  ∃ later, Registered changes w pid later ∧ .markExited pid ∉ later

def DistinctPids (changes : List Change) : Prop :=
  ∀ front, front <+: changes → ∀ w v pid later later',
    Registered front w pid later → Registered front v pid later' → w = v

theorem DistinctPids.of_append {changes later : List Change}
    (h : DistinctPids (changes ++ later)) : DistinctPids changes :=
  fun front hf ↦ h front (hf.trans (List.prefix_append ..))

theorem registered_concat {changes later : List Change} {c : Change} {w : UInt32} {pid : Pid} :
    Registered (changes ++ [c]) w pid later ↔
      (∃ now, c = .register w (some pid) now ∧ later = []) ∨
      c.registers w = false ∧ ∃ before, later = before ++ [c] ∧
        Registered changes w pid before := by
  constructor
  · rintro ⟨earlier, now, he, hl⟩
    rcases List.eq_nil_or_concat later with rfl | ⟨before, d, rfl⟩
    · obtain ⟨-, hc⟩ := List.append_inj' he rfl
      exact .inl ⟨now, List.singleton_inj.1 hc, rfl⟩
    · rw [List.concat_eq_append] at he hl ⊢
      rw [← List.cons_append, ← List.append_assoc] at he
      obtain ⟨rfl, hc⟩ := List.append_inj' he rfl
      obtain rfl : c = d := List.singleton_inj.1 hc
      refine .inr ⟨hl c (by simp), before, rfl, earlier, now, rfl, fun d hd ↦ ?_⟩
      exact hl d (List.mem_append_left _ hd)
  · rintro (⟨now, rfl, rfl⟩ | ⟨hc, before, rfl, earlier, now, rfl, hl⟩)
    · exact ⟨changes, now, rfl, nofun⟩
    · refine ⟨earlier, now, by simp, fun d hd ↦ ?_⟩
      rcases List.mem_append.1 hd with hd | hd
      · exact hl d hd
      · exact List.mem_singleton.1 hd ▸ hc

namespace Registry

variable {r : Registry} {changes : List Change} {w v : UInt32} {s : WorkerStatus} {pid : Pid}

/-- What the statuses of a registry say about the processes that changes have entered. -/
structure Tracks (changes : List Change) (r : Registry) : Prop where
  entered (w : UInt32) (pid : Pid) (later : List Change) : Registered changes w pid later →
    ∃ s, r.get? w = some s ∧ s.pid = some pid ∧ (s.state = .exited ↔ .markExited pid ∈ later)
  known (w : UInt32) (s : WorkerStatus) (pid : Pid) : r.get? w = some s → s.pid = some pid →
    ∃ later, Registered changes w pid later

theorem pid_hear (s : WorkerStatus) (report : Heartbeat) (now : Nat) :
    (s.hear report now).pid = s.pid := by
  rw [WorkerStatus.hear]
  split
  · rfl
  · cases report.timestamp <;> rfl

theorem exited_hear (s : WorkerStatus) (report : Heartbeat) (now : Nat) :
    (s.hear report now).state = .exited ↔ s.state = .exited := by
  by_cases h : s.state = .exited
  · rw [hear_of_exited h]
  · rw [state_hear h]
    split <;> simp [h]

theorem pid_apply {c : Change} (hc : c.registers w = false) :
    ((r.apply c).get? w).map (·.pid) = (r.get? w).map (·.pid) := by
  rw [get?_apply]
  cases c with
  | register v p now =>
    have hne : v ≠ w := by simpa [Change.registers] using hc
    simp [hne]
  | record report now =>
    cases r.get? w with
    | none => rfl
    | some s => by_cases h : w = report.worker <;> simp [h, pid_hear]
  | sweep now =>
    cases r.get? w with
    | none => rfl
    | some s => by_cases h : r.isOverdue now s <;> simp [h]
  | markExited p =>
    cases r.get? w with
    | none => rfl
    | some s => by_cases h : some w = r.ofPid? p <;> simp [h]

/-- Of the changes other than a registration, only the mark for its process ends a worker. -/
theorem exited_apply {c : Change} {t : WorkerStatus} (hr : r.Sorted) (hw : r.get? w = some s)
    (hs : s.pid = some pid) (hd : ∀ v t, r.get? v = some t → t.pid = some pid → v = w)
    (hc : c.registers w = false) (ht : (r.apply c).get? w = some t) :
    t.state = .exited ↔ s.state = .exited ∨ c = .markExited pid := by
  rw [get?_apply, hw] at ht
  cases c with
  | register v p now =>
    have hne : v ≠ w := by simpa [Change.registers] using hc
    obtain rfl : s = t := by simpa [hne] using ht
    simp
  | record report now =>
    obtain rfl := Option.some.inj ht
    by_cases h : w = report.worker <;> simp [h, exited_hear]
  | sweep now =>
    obtain rfl := Option.some.inj ht
    by_cases h : r.isOverdue now s = true
    · have hne : s.state ≠ .exited := by
        intro he
        simp [isOverdue, he, WorkerState.isWatched] at h
      simp [h, hne]
    · simp [h]
  | markExited p =>
    -- The mark goes to the first worker with the process, which is `w`, as no other has it.
    have hof : some w = r.ofPid? p ↔ p = pid := by
      constructor
      · intro he
        obtain ⟨t, ht, htp⟩ := hr.ofPid?_eq he.symm
        cases hw.symm.trans ht
        exact Option.some.inj (htp.symm.trans hs)
      · rintro rfl
        obtain ⟨v, hv⟩ := Option.isSome_iff_exists.1 (hr.isSome_ofPid? hw hs)
        obtain ⟨t, ht, htp⟩ := hr.ofPid?_eq hv
        rw [hv, hd v t ht htp]
    simp only [Option.map_some, hof, Option.some.injEq] at ht
    subst ht
    by_cases h : p = pid <;> simp [h]

theorem Tracks.unique (h : Tracks changes r) (hd : DistinctPids changes) {t : WorkerStatus}
    (hw : r.get? w = some s) (hs : s.pid = some pid) (hv : r.get? v = some t)
    (ht : t.pid = some pid) : v = w := by
  obtain ⟨later, hl⟩ := h.known w s pid hw hs
  obtain ⟨later', hl'⟩ := h.known v t pid hv ht
  exact hd changes List.prefix_rfl v w pid later' later hl' hl

theorem Tracks.apply (h : Tracks changes r) (hr : r.Sorted) (hd : DistinctPids changes)
    (c : Change) : Tracks (changes ++ [c]) (r.apply c) := by
  constructor
  · intro w pid later hl
    rcases registered_concat.1 hl with ⟨now, rfl, rfl⟩ | ⟨hc, before, rfl, hb⟩
    · exact ⟨_, (get?_register ..).trans (if_pos rfl), rfl, by simp⟩
    · obtain ⟨s, hw, hs, he⟩ := h.entered w pid before hb
      have hpid : ((r.apply c).get? w).map (·.pid) = some (some pid) := by
        rw [pid_apply hc, hw, Option.map_some, hs]
      obtain ⟨t, ht, htp⟩ := Option.map_eq_some_iff.1 hpid
      refine ⟨t, ht, htp, ?_⟩
      rw [exited_apply hr hw hs (fun v t hv hp ↦ h.unique hd hw hs hv hp) hc ht, he,
        List.mem_append,
        List.mem_singleton, eq_comm (a := c)]
  · intro w t pid ht htp
    by_cases hc : c.registers w = true
    · cases c with
      | register v p now =>
        obtain rfl : v = w := by simpa [Change.registers] using hc
        have hnew := (get?_register r v v p now).trans (if_pos rfl)
        cases ht.symm.trans hnew
        obtain rfl : p = some pid := htp
        exact ⟨[], registered_concat.2 (.inl ⟨now, rfl, rfl⟩)⟩
      | record | sweep | markExited => cases hc
    · have hc' : c.registers w = false := by simpa using hc
      have hpid : (r.get? w).map (·.pid) = some (some pid) := by
        rw [← pid_apply hc', ht, Option.map_some, htp]
      obtain ⟨s, hs, hsp⟩ := Option.map_eq_some_iff.1 hpid
      obtain ⟨later, hl⟩ := h.known w s pid hs hsp
      exact ⟨later ++ [c], registered_concat.2 (.inr ⟨hc', later, rfl, hl⟩)⟩

theorem Tracks.after {later : List Change} (h : Tracks changes r) (hr : r.Sorted)
    (hd : DistinctPids (changes ++ later)) : Tracks (changes ++ later) (r.after later) := by
  induction later generalizing changes r with
  | nil => rwa [List.append_nil]
  | cons c later ih =>
    rw [← List.singleton_append, ← List.append_assoc] at hd ⊢
    exact ih (h.apply hr hd.of_append.of_append c) (hr.apply c) hd

theorem tracks_ofTimeout (timeout : Time.Nanos) : Tracks [] (ofTimeout timeout) := by
  refine ⟨?_, nofun⟩
  rintro w pid later ⟨earlier, now, he, -⟩
  simp at he

def running (r : Registry) : List (UInt32 × Pid) :=
  r.workers.filterMap fun w ↦ if w.2.state == .exited then none else w.2.pid.map (w.1, ·)

theorem map_running (r : Registry) : r.running.map (·.2) = r.runningPids := by
  rw [running, runningPids, List.map_filterMap]
  congr 1
  funext e
  split
  · rfl
  · cases e.2.pid <;> rfl

theorem Sorted.running (h : r.Sorted) : r.running.Pairwise (·.1 < ·.1) := by
  refine List.pairwise_filterMap.2 (List.Pairwise.imp ?_ h)
  intro a b hlt x hx y hy
  have hfst {e : UInt32 × WorkerStatus} {z : UInt32 × Pid}
      (hz : (if e.2.state == .exited then none else e.2.pid.map (e.1, ·)) = some z) :
      z.1 = e.1 := by
    split at hz
    · cases hz
    · obtain ⟨p, -, rfl⟩ := Option.map_eq_some_iff.1 hz
      rfl
  rw [hfst hx, hfst hy]
  exact hlt

theorem Sorted.mem_running (h : r.Sorted) : (w, pid) ∈ r.running ↔
    ∃ s, r.get? w = some s ∧ s.state ≠ .exited ∧ s.pid = some pid := by
  rw [Registry.running, List.mem_filterMap]
  constructor
  · rintro ⟨e, he, hz⟩
    split at hz
    · cases hz
    · next hs =>
      obtain ⟨p, hp, hz⟩ := Option.map_eq_some_iff.1 hz
      cases hz
      exact ⟨e.2, h.mem_iff.1 he, by simpa using hs, hp⟩
  · rintro ⟨s, hs, hne, hp⟩
    exact ⟨(w, s), h.mem_iff.2 hs, by simp [hne, hp]⟩

theorem Tracks.mem_running (h : Tracks changes r) (hr : r.Sorted) :
    (w, pid) ∈ r.running ↔ Runs changes w pid := by
  rw [hr.mem_running]
  constructor
  · rintro ⟨s, hs, hne, hp⟩
    obtain ⟨later, hl⟩ := h.known w s pid hs hp
    obtain ⟨t, ht, -, hte⟩ := h.entered w pid later hl
    cases hs.symm.trans ht
    exact ⟨later, hl, mt hte.2 hne⟩
  · rintro ⟨later, hl, hn⟩
    obtain ⟨s, hs, hp, he⟩ := h.entered w pid later hl
    exact ⟨s, hs, mt he.1 hn, hp⟩

theorem isWatched_iff {state : WorkerState} :
    state.isWatched ↔ state = .starting ∨ state = .alive := by
  cases state <;> simp [WorkerState.isWatched]

def opened : List (UInt32 × WorkerStatus) → Nat
  | [] => 0
  | (_, s) :: rest =>
    (if s.state = .starting ∨ s.state = .alive then s.openCount.toNat else 0) + opened rest

theorem openConnections_eq (r : Registry) : r.openConnections = opened r.workers := by
  have hfold (entries : List (UInt32 × WorkerStatus)) (n : Nat) :
      (entries.filter fun w ↦ w.2.state.isWatched).foldl (fun n w ↦ n + w.2.openCount.toNat) n =
        n + opened entries := by
    induction entries generalizing n with
    | nil => rfl
    | cons e entries ih =>
      rw [opened]
      by_cases he : e.2.state.isWatched = true
      · rw [List.filter_cons_of_pos (by exact he), List.foldl_cons, ih, if_pos (isWatched_iff.1 he),
          Nat.add_assoc]
      · rw [List.filter_cons_of_neg (by exact he), ih, if_neg (mt isWatched_iff.2 he), Nat.zero_add]
  rw [openConnections, hfold, Nat.zero_add]

theorem opened_le (entries : List (UInt32 × WorkerStatus)) :
    opened entries ≤ entries.length * 0xffffffff := by
  induction entries with
  | nil => exact Nat.le_refl 0
  | cons e entries ih =>
    have hlt := e.2.openCount.toNat_lt
    rw [opened, List.length_cons, Nat.succ_mul]
    split <;> omega

theorem Sorted.length_le (h : r.Sorted) : r.workers.length ≤ UInt32.size := by
  have hnodup : (r.workers.map (·.1.toNat)).Nodup := by
    refine List.pairwise_map.2 (List.Pairwise.imp ?_ h)
    intro a b hlt
    exact Nat.ne_of_lt (UInt32.lt_iff_toNat_lt.1 hlt)
  have hsub : r.workers.map (·.1.toNat) ⊆ List.range UInt32.size := by
    intro n hn
    obtain ⟨e, -, rfl⟩ := List.mem_map.1 hn
    exact List.mem_range.2 e.1.toNat_lt
  have hle := (List.subperm_of_subset hnodup hsub).length_le
  rwa [List.length_map, List.length_range] at hle

/-- Neither a count nor a worker's number is above 32 bits. -/
theorem Sorted.openConnections_lt (h : r.Sorted) : r.openConnections < UInt64.size :=
  calc r.openConnections
    _ = opened r.workers := openConnections_eq r
    _ ≤ r.workers.length * 0xffffffff := opened_le r.workers
    _ ≤ UInt32.size * 0xffffffff := Nat.mul_le_mul_right _ h.length_le
    _ < UInt64.size := by decide

theorem timeout_after (r : Registry) (changes : List Change) :
    (r.after changes).timeout = r.timeout := by
  induction changes generalizing r with
  | nil => rfl
  | cons c changes ih =>
    refine (ih (r.apply c)).trans ?_
    cases c <;> rfl

/-- What a registry `r` is behind a history of changes, at whatever times these were made. -/
structure Lawful (start : Registry) (changes : List Change) (r : Registry) : Prop where
  timeout : r.timeout = start.timeout
  exited (w : UInt32) (s : WorkerStatus) (later : List Change) :
    r.get? w = some s → s.state = .exited → (∀ c ∈ later, c.registers w = false) →
      (r.after later).get? w = some s
  swept (now : Nat) : (r.sweep now).1.Pairwise (· < ·) ∧
    (∀ w, w ∈ (r.sweep now).1 ↔ ∃ s, r.get? w = some s ∧
      (s.state = .starting ∨ s.state = .alive) ∧ s.lastSeen + r.timeout < now) ∧
    ∀ w, (r.sweep now).2.get? w = (r.get? w).map fun s ↦
      if w ∈ (r.sweep now).1 then { s with state := .dead } else s
  revived (w : UInt32) (now now' : Nat) (between : List Change) :
    w ∈ (r.sweep now).1 → w ∈ (((r.sweep now).2.after between).sweep now').1 →
      ∃ c ∈ between, c.revives w = true
  heard (w : UInt32) (stamp now : Nat) : (stamps w start changes).getLast? = some stamp →
    now ≤ stamp + r.timeout → w ∉ (r.sweep now).1
  runs : DistinctPids changes → ∃ running : List (UInt32 × Pid),
    running.Pairwise (·.1 < ·.1) ∧ (∀ w pid, (w, pid) ∈ running ↔ Runs changes w pid) ∧
      r.runningPids = running.map (·.2)
  counts : r.openConnections = opened r.workers ∧ r.openConnections < UInt64.size

/-- Whatever is done to a registry, and at whatever times: an exited worker stays as it is until it
is registered again; a sweep declares those workers dead that are starting or alive and were silent
for longer than the timeout, in the order of their numbers, and changes nothing else; it declares a
worker dead again only if that was registered or reported in between, and never one whose last
registration or heartbeat is within the timeout; the running processes are those registered last and
not marked since; and the open connections are those of the workers that are starting or alive. -/
theorem lawful_after (timeout : Time.Nanos) (changes : List Change) :
    Lawful (ofTimeout timeout) changes ((ofTimeout timeout).after changes) := by
  have hs : ((ofTimeout timeout).after changes).Sorted := (sorted_ofTimeout timeout).after changes
  constructor
  · exact timeout_after _ changes
  · intro w s later hw he hl
    exact get?_after_of_exited hw he hl
  · intro now
    refine ⟨hs.sorted_sweep now, fun w ↦ ?_, hs.get?_sweep now⟩
    simp only [hs.mem_sweep, isWatched_iff]
  · intro w now now' between hw hw'
    exact hs.exists_revives hw hw'
  · intro w stamp now hstamp hnow hw
    obtain ⟨s, hget, -, hlate⟩ := hs.mem_sweep.1 hw
    have hseen := lastSeen_after (ofTimeout timeout) changes w
    rw [hget, hstamp, Option.map_some, Option.some_or, Option.some.injEq] at hseen
    omega
  · intro hd
    have ht : Tracks changes ((ofTimeout timeout).after changes) :=
      (tracks_ofTimeout timeout).after (sorted_ofTimeout timeout) hd
    exact ⟨_, hs.running, fun w pid ↦ ht.mem_running hs, (map_running _).symm⟩
  · exact ⟨openConnections_eq _, hs.openConnections_lt⟩

/-- Both workers are found silent, and one of them comes back. -/
example :
    let r := (ofTimeout (Time.ofSeconds 10)).after
      [.register 1 (some 101) 1000, .register 0 (some 100) 1000, .sweep 1011,
        .record ⟨1, some 1012, 3⟩ 1012, .markExited 100]
    (r.sweep 1022).1 = [] ∧ (r.sweep 1023).1 = [1] ∧ r.runningPids = [101] ∧
      r.openConnections = 3 := by decide

end Registry

end Prefork.Supervision
