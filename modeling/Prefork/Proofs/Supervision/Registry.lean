import Mathlib.Tactic.ByContra
import Prefork.Supervision.Registry

namespace Prefork.Supervision

/-- What is done to a registry. -/
inductive Change where
  | register (worker : UInt32) (pid : Option Pid) (now : Nat)
  | record (report : Heartbeat) (now : Nat)
  | sweep (now : Nat)
  | markExited (pid : Pid)
  deriving DecidableEq, Repr

namespace Change

def registers (w : UInt32) : Change → Bool
  | register v _ _ => v == w
  | record .. | sweep _ | markExited _ => false

def revives (w : UInt32) : Change → Bool
  | register v _ _ => v == w
  | record h _ => h.worker == w && h.timestamp.isSome
  | sweep _ | markExited _ => false

end Change

namespace Registry

variable {r : Registry} {w v : UInt32} {s : WorkerStatus}

def apply (r : Registry) : Change → Registry
  | .register w pid now => r.register w pid now
  | .record h now => r.record h now
  | .sweep now => (r.sweep now).2
  | .markExited pid => (r.markExited pid).2

def after (r : Registry) (changes : List Change) : Registry := changes.foldl apply r

theorem get?_modify (r : Registry) (f : UInt32 → WorkerStatus → WorkerStatus) (w : UInt32) :
    (r.modify f).get? w = (r.get? w).map (f w) := by
  simp only [get?, modify, List.find?_map, Option.map_map]
  cases h : r.workers.find? ((·.1 == w) ∘ fun e ↦ (e.1, f e.1 e.2)) with
  | none =>
    have h' : r.workers.find? (·.1 == w) = none := h
    simp [h']
  | some e =>
    have h' : r.workers.find? (·.1 == w) = some e := h
    have he : e.1 = w := by simpa using List.find?_some h'
    simp [h', he]

theorem find?_filter_key {α : Type} (p : UInt32 → Bool) (entries : List (UInt32 × α)) (w : UInt32) :
    (entries.filter fun e ↦ p e.1).find? (·.1 == w) =
      if p w then entries.find? (·.1 == w) else none := by
  rw [List.find?_filter]
  by_cases hp : p w = true
  · rw [if_pos hp]
    congr 1
    funext e
    by_cases he : e.1 = w <;> simp [he, hp]
  · rw [if_neg hp, List.find?_eq_none]
    intro e _ he
    obtain ⟨hpe, hew⟩ := by simpa using he
    exact hp (hew ▸ hpe)

theorem get?_register (r : Registry) (v w : UInt32) (pid : Option Pid) (now : Nat) :
    (r.register v pid now).get? w = if v = w then some { pid, lastSeen := now } else r.get? w := by
  have hbelow := find?_filter_key (fun u ↦ u < v) r.workers w
  have habove := find?_filter_key (fun u ↦ v < u) r.workers w
  simp only [decide_eq_true_eq] at hbelow habove
  rw [get?, register, List.find?_append, List.find?_cons, hbelow, habove]
  by_cases h : v = w
  · subst h
    simp [UInt32.lt_irrefl]
  · rw [if_neg h, get?]
    rcases UInt32.lt_or_lt_of_ne h with hlt | hlt
    · simp [hlt, UInt32.lt_asymm hlt, beq_false_of_ne h]
    · simp [hlt, UInt32.lt_asymm hlt, beq_false_of_ne h]

def Sorted (r : Registry) : Prop := r.workers.Pairwise (·.1 < ·.1)

theorem sorted_ofTimeout (timeout : Time.Nanos) : (ofTimeout timeout).Sorted := .nil

theorem Sorted.modify (h : r.Sorted) (f : UInt32 → WorkerStatus → WorkerStatus) :
    (r.modify f).Sorted :=
  List.pairwise_map.2 h

theorem Sorted.register (h : r.Sorted) (v : UInt32) (pid : Option Pid) (now : Nat) :
    (r.register v pid now).Sorted := by
  have hlt {u : UInt32 × WorkerStatus} (hu : u ∈ r.workers.filter (·.1 < v)) : u.1 < v := by
    simpa using (List.mem_filter.1 hu).2
  have hgt {u : UInt32 × WorkerStatus} (hu : u ∈ r.workers.filter (v < ·.1)) : v < u.1 := by
    simpa using (List.mem_filter.1 hu).2
  refine List.pairwise_append.2 ⟨List.Pairwise.filter _ h, List.pairwise_cons.2 ⟨?_, ?_⟩, ?_⟩
  · intro u hu
    exact hgt hu
  · exact List.Pairwise.filter _ h
  · intro u hu t ht
    rcases List.mem_cons.1 ht with rfl | ht
    · exact hlt hu
    · exact UInt32.lt_trans (hlt hu) (hgt ht)

theorem Sorted.apply (h : r.Sorted) (c : Change) : (r.apply c).Sorted := by
  cases c with
  | register v pid now => exact h.register v pid now
  | record report now => exact h.modify _
  | sweep now => exact h.modify _
  | markExited pid => exact h.modify _

theorem Sorted.after (h : r.Sorted) (changes : List Change) : (r.after changes).Sorted := by
  induction changes generalizing r with
  | nil => exact h
  | cons c changes ih => exact ih (h.apply c)

theorem Sorted.mem_iff (h : r.Sorted) : (w, s) ∈ r.workers ↔ r.get? w = some s := by
  rw [Sorted] at h
  rw [get?]
  generalize r.workers = entries at h ⊢
  induction entries with
  | nil => simp
  | cons e entries ih =>
    obtain ⟨hlt, h⟩ := List.pairwise_cons.1 h
    by_cases he : e.1 = w
    · subst he
      have hnot : (e.1, s) ∉ entries := fun hm ↦ UInt32.lt_irrefl _ (hlt (e.1, s) hm)
      simp [hnot, Prod.ext_iff, eq_comm]
    · have hne : (w, s) ≠ e := fun h ↦ he (congrArg Prod.fst h).symm
      simp [he, hne, ih h]

theorem Sorted.ofPid?_eq (h : r.Sorted) {pid : Pid} :
    r.ofPid? pid = some w → ∃ s, r.get? w = some s ∧ s.pid = some pid := by
  intro hw
  obtain ⟨e, he, rfl⟩ := Option.map_eq_some_iff.1 hw
  refine ⟨e.2, h.mem_iff.1 (List.mem_of_find?_eq_some he), ?_⟩
  simpa using List.find?_some he

theorem Sorted.isSome_ofPid? (h : r.Sorted) {pid : Pid} (hw : r.get? w = some s)
    (hs : s.pid = some pid) : (r.ofPid? pid).isSome := by
  rw [ofPid?, Option.isSome_map, List.find?_isSome]
  exact ⟨(w, s), h.mem_iff.2 hw, by simp [hs]⟩

/-- What a change makes of the status of one worker, if that is there. -/
theorem get?_apply (r : Registry) (c : Change) (w : UInt32) :
    (r.apply c).get? w = match c with
      | .register v pid now => if v = w then some { pid, lastSeen := now } else r.get? w
      | .record h now => (r.get? w).map fun s ↦ if w = h.worker then s.hear h now else s
      | .sweep now => (r.get? w).map fun s ↦
          if r.isOverdue now s then { s with state := .dead } else s
      | .markExited pid => (r.get? w).map fun s ↦
          if some w = r.ofPid? pid then { s with state := .exited } else s := by
  cases c with
  | register v pid now => exact get?_register r v w pid now
  | record h now => simp [apply, record, get?_modify]
  | sweep now => exact get?_modify ..
  | markExited pid => simp [apply, markExited, get?_modify]

theorem hear_of_exited (h : s.state = .exited) (report : Heartbeat) (now : Nat) :
    s.hear report now = s := by
  simp [WorkerStatus.hear, h]

theorem state_hear (h : s.state ≠ .exited) (report : Heartbeat) (now : Nat) :
    (s.hear report now).state = if report.timestamp.isSome then .alive else .stopped := by
  rw [WorkerStatus.hear, if_neg (by simpa using h)]
  cases report.timestamp <;> rfl

theorem hear_told (h : s.state ≠ .exited) (report : Heartbeat) (now : Nat) :
    (s.hear report now).openCount = report.openCount ∧ (s.hear report now).lastSeen = now := by
  rw [WorkerStatus.hear, if_neg (by simpa using h)]
  cases report.timestamp <;> exact ⟨rfl, rfl⟩

/-- An exited worker stays as it is until it is registered again. -/
theorem get?_apply_of_exited {c : Change} (hw : r.get? w = some s) (hs : s.state = .exited)
    (hc : c.registers w = false) : (r.apply c).get? w = some s := by
  rw [get?_apply]
  cases c with
  | register v pid now =>
    have hne : v ≠ w := by simpa [Change.registers] using hc
    simp [hne, hw]
  | record report now => simp [hw, hear_of_exited hs]
  | sweep now => simp [hw, isOverdue, hs, WorkerState.isWatched]
  | markExited pid =>
    have he : { s with state := WorkerState.exited } = s := by rw [← hs]
    simp [hw, he]

theorem get?_after_of_exited {changes : List Change} (hw : r.get? w = some s)
    (hs : s.state = .exited) (hc : ∀ c ∈ changes, c.registers w = false) :
    (r.after changes).get? w = some s := by
  induction changes generalizing r with
  | nil => exact hw
  | cons c changes ih =>
    have hhead := hc c (List.mem_cons_self ..)
    exact ih (get?_apply_of_exited hw hs hhead) fun d hd ↦ hc d (List.mem_cons_of_mem c hd)

def watches (r : Registry) (w : UInt32) : Bool := (r.get? w).any (·.state.isWatched)

theorem watches_apply {c : Change} (hw : r.watches w = false) (hc : c.revives w = false) :
    (r.apply c).watches w = false := by
  rw [watches] at hw
  rw [watches, get?_apply]
  cases c with
  | register v pid now =>
    have hne : v ≠ w := by simpa [Change.revives] using hc
    simpa [hne] using hw
  | record report now =>
    cases hs : r.get? w with
    | none => rfl
    | some s =>
      rw [hs] at hw
      by_cases hr : w = report.worker
      · have ht : report.timestamp = none := by simpa [Change.revives, hr] using hc
        by_cases he : s.state = .exited
        · simp [hear_of_exited he, he, WorkerState.isWatched]
        · simp [hr, state_hear he, ht, WorkerState.isWatched]
      · simpa [hr] using hw
  | sweep now =>
    cases hs : r.get? w with
    | none => rfl
    | some s =>
      rw [hs] at hw
      by_cases ho : r.isOverdue now s
      · simp [ho, WorkerState.isWatched]
      · simpa [ho] using hw
  | markExited pid =>
    cases hs : r.get? w with
    | none => rfl
    | some s =>
      rw [hs] at hw
      by_cases hp : some w = r.ofPid? pid
      · simp [hp, WorkerState.isWatched]
      · simpa [hp] using hw

theorem watches_after {changes : List Change} (hw : r.watches w = false)
    (hc : ∀ c ∈ changes, c.revives w = false) : (r.after changes).watches w = false := by
  induction changes generalizing r with
  | nil => exact hw
  | cons c changes ih =>
    have hhead := hc c (List.mem_cons_self ..)
    exact ih (watches_apply hw hhead) fun d hd ↦ hc d (List.mem_cons_of_mem c hd)

theorem isOverdue_iff {now : Nat} :
    r.isOverdue now s ↔ s.state.isWatched ∧ s.lastSeen + r.timeout < now := by
  rw [isOverdue, Bool.and_eq_true, decide_eq_true_eq, Nat.lt_sub_iff_add_lt, Nat.add_comm]

theorem Sorted.mem_sweep (h : r.Sorted) {now : Nat} : w ∈ (r.sweep now).1 ↔
    ∃ s, r.get? w = some s ∧ s.state.isWatched ∧ s.lastSeen + r.timeout < now := by
  rw [sweep, List.mem_map]
  constructor
  · rintro ⟨e, he, rfl⟩
    obtain ⟨hm, ho⟩ := List.mem_filter.1 he
    exact ⟨e.2, h.mem_iff.1 hm, isOverdue_iff.1 ho⟩
  · rintro ⟨s, hs, ho⟩
    exact ⟨(w, s), List.mem_filter.2 ⟨h.mem_iff.2 hs, isOverdue_iff.2 ho⟩, rfl⟩

theorem Sorted.sorted_sweep (h : r.Sorted) (now : Nat) : (r.sweep now).1.Pairwise (· < ·) :=
  List.pairwise_map.2 (List.Pairwise.filter _ h)

theorem Sorted.get?_sweep (h : r.Sorted) (now : Nat) (w : UInt32) :
    (r.sweep now).2.get? w = (r.get? w).map fun s ↦
      if w ∈ (r.sweep now).1 then { s with state := .dead } else s := by
  rw [show (r.sweep now).2.get? w = _ from get?_apply r (.sweep now) w]
  cases hs : r.get? w with
  | none => rfl
  | some s =>
    have hmem : w ∈ (r.sweep now).1 ↔ r.isOverdue now s = true := by
      simp [h.mem_sweep, hs, isOverdue_iff]
    simp only [Option.map_some, hmem]

theorem Sorted.watches_sweep (h : r.Sorted) {now : Nat} (hw : w ∈ (r.sweep now).1) :
    (r.sweep now).2.watches w = false := by
  rw [watches, h.get?_sweep]
  cases r.get? w <;> simp [hw, WorkerState.isWatched]

theorem Sorted.exists_revives (h : r.Sorted) {now now' : Nat} {between : List Change}
    (hw : w ∈ (r.sweep now).1) (hw' : w ∈ (((r.sweep now).2.after between).sweep now').1) :
    ∃ c ∈ between, c.revives w = true := by
  by_contra hno
  have hnone : ∀ c ∈ between, c.revives w = false := by
    intro c hc
    by_contra hr
    exact hno ⟨c, hc, by simpa using hr⟩
  have hsorted : (r.sweep now).2.Sorted := h.modify _
  obtain ⟨s, hs, hwatched, -⟩ := (hsorted.after between).mem_sweep.1 hw'
  have hfalse := watches_after (h.watches_sweep hw) hnone
  simp [watches, hs, hwatched] at hfalse

def stamp? (r : Registry) (w : UInt32) : Change → Option Nat
  | .register v _ now => if v = w then some now else none
  | .record h now =>
    if h.worker = w ∧ (r.get? w).any (·.state ≠ .exited) then some now else none
  | .sweep _ | .markExited _ => none

/-- The times that changes note for a worker one after another. -/
def stamps (w : UInt32) : Registry → List Change → List Nat
  | _, [] => []
  | r, c :: rest => (r.stamp? w c).toList ++ stamps w (r.apply c) rest

theorem lastSeen_apply (r : Registry) (c : Change) (w : UInt32) :
    ((r.apply c).get? w).map (·.lastSeen) = (r.stamp? w c).or ((r.get? w).map (·.lastSeen)) := by
  rw [get?_apply]
  cases c with
  | register v pid now =>
    by_cases h : v = w <;> simp [stamp?, h]
  | record report now =>
    cases hs : r.get? w with
    | none => simp [stamp?, hs]
    | some s =>
      by_cases hr : w = report.worker
      · subst hr
        by_cases he : s.state = .exited
        · simp [stamp?, hs, hear_of_exited he, he]
        · obtain ⟨-, hseen⟩ := hear_told he report now
          simp [stamp?, hs, he, hseen]
      · have hne : report.worker ≠ w := Ne.symm hr
        simp [stamp?, hs, hr, hne]
  | sweep now =>
    cases r.get? w with
    | none => rfl
    | some s => by_cases h : r.isOverdue now s <;> simp [stamp?, h]
  | markExited pid =>
    cases r.get? w with
    | none => rfl
    | some s => by_cases h : some w = r.ofPid? pid <;> simp [stamp?, h]

theorem lastSeen_after (r : Registry) (changes : List Change) (w : UInt32) :
    ((r.after changes).get? w).map (·.lastSeen) =
      (stamps w r changes).getLast?.or ((r.get? w).map (·.lastSeen)) := by
  induction changes generalizing r with
  | nil => rfl
  | cons c changes ih =>
    rw [show r.after (c :: changes) = (r.apply c).after changes from rfl, ih, lastSeen_apply,
      stamps, List.getLast?_append, Option.or_assoc]
    cases r.stamp? w c <;> rfl

end Registry

end Prefork.Supervision
