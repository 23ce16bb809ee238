import Prefork.Coordination.Handles
import Prefork.Proofs.Supervision.Gate

namespace Prefork.Coordination

open Host (Errno)

inductive LockCall where
  | tryAcquire
  | acquire
  | release
  deriving DecidableEq, Repr

namespace LockCall

def on (call : LockCall) (l : Lock) (held : Bool) (fault : Option Errno) : Lock.Outcome Bool :=
  match call with
  | tryAcquire => l.tryAcquire held fault
  | acquire => l.acquire held fault
  | release => l.release held fault

def loses (call : LockCall) (answer : Except Error Bool) : Bool :=
  match call, answer with
  | release, .error _ => true
  | _, _ => false

end LockCall

namespace Lock

/-- How often a lock can be taken as it stands. -/
def units : Lock → Nat
  | flag locked => (!locked).toNat
  | semaphore value _ => value

/-- All that a call can do to a lock and to whether the caller holds it. -/
inductive Change (l : Lock) : LockCall → Bool → Outcome Bool → Prop
  | keeps {call : LockCall} {held : Bool} {answer : Except Error Bool} :
      call.loses answer = false → Change l call held ⟨answer, l, held⟩
  | takes {call : LockCall} {l' : Lock} : call ≠ .release → l'.units + 1 = l.units →
      l'.isLive = l.isLive → Change l call false ⟨.ok true, l', true⟩
  | gives {l' : Lock} : l'.units = l.units + 1 → l'.isLive = l.isLive →
      Change l .release true ⟨.ok true, l', false⟩
  | loses (e : Error) : Change l .release true ⟨.error e, l, false⟩

variable {l : Lock} {held : Bool}

theorem free_iff (h : l.units ≤ 1) : l.free = true ↔ l.units = 1 := by
  cases l with
  | flag locked => cases locked <;> simp [free, units]
  | semaphore value live => simp [free, units]

theorem take_cases (l : Lock) (nowait : Bool) (fault : Option Errno) :
    (∃ l', l.take nowait fault = (.ok true, l') ∧ l'.units + 1 = l.units ∧ l'.isLive = l.isLive) ∨
      l.take nowait fault = (.ok false, l) ∨ ∃ e, l.take nowait fault = (.error e, l) := by
  cases l with
  | flag locked =>
    cases locked with
    | true => exact .inr (.inl rfl)
    | false => exact .inl ⟨.flag true, rfl, rfl, rfl⟩
  | semaphore value live =>
    rw [take, operate.eq_def]
    cases fault.filter (· ≠ Errno.interrupted) with
    | some errno =>
      right
      simp only
      split
      · exact .inl rfl
      · exact .inr ⟨_, rfl⟩
    | none =>
      cases live with
      | false => exact .inr (.inr ⟨_, rfl⟩)
      | true =>
        cases value with
        | zero => exact .inr (.inl rfl)
        | succ value => exact .inl ⟨.semaphore value true, rfl, rfl, rfl⟩

/-- A lock that is held is not there to be taken. It is given back, or the call fails. -/
theorem give_cases (h : l.units = 0) (fault : Option Errno) :
    (∃ l', l.give fault = (.ok true, l') ∧ l'.units = l.units + 1 ∧ l'.isLive = l.isLive) ∨
      ∃ e, l.give fault = (.error e, l) := by
  cases l with
  | flag locked =>
    left
    refine ⟨.flag false, rfl, ?_, rfl⟩
    rw [h]
    rfl
  | semaphore value live =>
    rw [give, operate.eq_def]
    cases fault.filter (· ≠ Errno.interrupted) with
    | some errno => exact .inr ⟨_, rfl⟩
    | none =>
      cases live with
      | false => exact .inr ⟨_, rfl⟩
      | true => exact .inl ⟨.semaphore (value + 1) true, rfl, rfl, rfl⟩

theorem change_seize {call : LockCall} (hc : call ≠ .release) (l : Lock) (nowait held : Bool)
    (fault : Option Errno) : l.Change call held (l.seize nowait held fault) := by
  have hkeeps (answer : Except Error Bool) : call.loses answer = false := by
    cases call with
    | tryAcquire | acquire => rfl
    | release => exact absurd rfl hc
  rw [seize]
  cases held with
  | true => exact .keeps (hkeeps _)
  | false =>
    rcases l.take_cases nowait fault with ⟨l', ht, hunits, hlive⟩ | ht | ⟨e, ht⟩
    · rw [ht]
      exact .takes hc hunits hlive
    · rw [ht]
      exact .keeps (hkeeps _)
    · rw [ht]
      exact .keeps (hkeeps _)

theorem change_on (call : LockCall) (h : l.units + held.toNat ≤ 1) (fault : Option Errno) :
    l.Change call held (call.on l held fault) := by
  cases call with
  | tryAcquire =>
    refine change_seize ?_ l true held fault
    exact nofun
  | acquire =>
    refine change_seize ?_ l false held fault
    exact nofun
  | release =>
    rw [LockCall.on, release]
    cases held with
    | false => exact .keeps rfl
    | true =>
      have hnone : l.units = 0 := by simpa using h
      rcases give_cases hnone fault with ⟨l', hg, hunits, hlive⟩ | ⟨e, hg⟩
      · rw [hg]
        exact .gives hunits hlive
      · rw [hg]
        exact .loses e

namespace Change

variable {call : LockCall} {o : Outcome Bool}

/-- What can be taken and what is held stay together, but for a lock that is let go in vain. -/
theorem units_add (h : l.Change call held o) :
    o.lock.units + o.held.toNat + (call.loses o.result).toNat = l.units + held.toNat := by
  cases h with
  | keeps hc => simp [hc]
  | takes hc hunits => simp [LockCall.loses, hunits]
  | gives hunits => simp [LockCall.loses, hunits]
  | loses e => simp [LockCall.loses]

theorem isLive_eq (h : l.Change call held o) : o.lock.isLive = l.isLive := by
  cases h with
  | keeps => rfl
  | takes _ _ hlive => exact hlive
  | gives _ hlive => exact hlive
  | loses => rfl

theorem of_error {e : Error} (h : l.Change call held o) (he : o.result = .error e)
    (hl : call.loses o.result = false) : o.lock = l ∧ o.held = held := by
  cases h with
  | keeps => exact ⟨rfl, rfl⟩
  | takes | gives => cases he
  | loses => cases hl

end Change

end Lock

namespace Handles

def sharing (l : Lock) (flags : List Bool) (named : Option Nat) : Handles Lock Bool :=
  { objects := [l], handles := flags.map fun held ↦ some (0, held), named }

def flags (h : Handles Lock Bool) : List Bool := h.handles.filterMap (·.map (·.2))

theorem flags_sharing (l : Lock) (held : List Bool) (named : Option Nat) :
    (sharing l held named).flags = held := by
  rw [flags, sharing, List.filterMap_map]
  exact List.filterMap_some

inductive LockEvent where
  | clone (handle : Nat)
  | call (handle : Nat) (op : LockCall) (fault : Option Errno)
  deriving DecidableEq, Repr

namespace LockEvent

def loses (e : LockEvent) (answer : Option (Except Error Bool)) : Bool :=
  match e with
  | clone _ => false
  | call _ op _ => answer.any op.loses

end LockEvent

/-- Lets an event happen, and gives the answer of a call. -/
def act (h : Handles Lock Bool) : LockEvent → Option (Except Error Bool) × Handles Lock Bool
  | .clone i =>
    match h.find? i with
    | some (place, _, _) => (none, (h.cloneLock place).2)
    | none => (none, h)
  | .call i op fault =>
    match h.find? i with
    | some (place, l, held) =>
      let o := op.on l held fault
      (some o.result, h.update i place o.lock o.held)
    | none => (none, h)

/-- Events that come one after the other, with their answers. -/
def play (h : Handles Lock Bool) :
    List LockEvent → List (LockEvent × Option (Except Error Bool)) × Handles Lock Bool
  | [] => ([], h)
  | e :: events =>
    let (answer, h) := h.act e
    let (log, h) := h.play events
    ((e, answer) :: log, h)

def losses (log : List (LockEvent × Option (Except Error Bool))) : Nat :=
  log.countP fun entry ↦ entry.1.loses entry.2

theorem losses_play_cons (h : Handles Lock Bool) (e : LockEvent) (events : List LockEvent) :
    losses (h.play (e :: events)).1 =
      losses ((h.act e).2.play events).1 + (e.loses (h.act e).1).toNat := by
  rw [play, losses, List.countP_cons]
  cases e.loses (h.act e).1 <;> rfl

section

variable {l : Lock} {flags : List Bool} {named : Option Nat} {i : Nat} {held : Bool}

theorem find?_sharing (l : Lock) (flags : List Bool) (named : Option Nat) (i : Nat) :
    (sharing l flags named).find? i = flags[i]?.map fun held ↦ (0, l, held) := by
  rw [find?, sharing, List.getElem?_map]
  cases flags[i]? <;> rfl

theorem update_sharing (l' : Lock) (held : Bool) :
    (sharing l flags named).update i 0 l' held = sharing l' (flags.set i held) named := by
  rw [update, sharing, ← List.map_set]
  rfl

theorem clone_sharing (l : Lock) (flags : List Bool) (named : Option Nat) (i : Nat) :
    ∃ more, (sharing l flags named).act (.clone i) = (none, sharing l (flags ++ more) named) ∧
      true ∉ more := by
  rw [act, find?_sharing]
  cases flags[i]? with
  | none => exact ⟨[], by rw [List.append_nil]; rfl, List.not_mem_nil⟩
  | some held =>
    refine ⟨[false], ?_, by decide⟩
    simp [sharing, cloneLock, share]

theorem call_sharing (h : flags[i]? = some held) (op : LockCall) (fault : Option Errno) :
    (sharing l flags named).act (.call i op fault) =
      (some (op.on l held fault).result,
        sharing (op.on l held fault).lock (flags.set i (op.on l held fault).held) named) := by
  rw [act, find?_sharing, h]
  exact congrArg (some _, ·) (update_sharing _ _)

theorem call_sharing_of_none (h : flags[i]? = none) (op : LockCall) (fault : Option Errno) :
    (sharing l flags named).act (.call i op fault) = (none, sharing l flags named) := by
  rw [act, find?_sharing, h]
  rfl

theorem toNat_le_count (h : flags[i]? = some held) : held.toNat ≤ flags.count true := by
  cases held with
  | false => exact Nat.zero_le _
  | true => exact List.count_pos_iff.2 (List.mem_of_getElem? h)

theorem count_set (h : flags[i]? = some held) (held' : Bool) :
    (flags.set i held').count true + held.toNat = flags.count true + held'.toNat := by
  obtain ⟨hi, hheld⟩ := List.getElem?_eq_some_iff.1 h
  have hle := toNat_le_count h
  rw [List.count_set hi, hheld]
  cases held with
  | false => cases held' <;> simp
  | true =>
    have hpos : 1 ≤ flags.count true := hle
    cases held' with
    | false => exact Nat.sub_add_cancel hpos
    | true => simp [Nat.sub_add_cancel hpos]

/-- One event leaves what can be taken, what is held and what is lost with the same sum. -/
theorem act_sharing (named : Option Nat) (e : LockEvent) (h : l.units + flags.count true ≤ 1) :
    ∃ l' flags', ((sharing l flags named).act e).2 = sharing l' flags' named ∧
      l'.isLive = l.isLive ∧
      l'.units + flags'.count true + (e.loses ((sharing l flags named).act e).1).toNat =
        l.units + flags.count true := by
  cases e with
  | clone i =>
    obtain ⟨more, heq, hmore⟩ := clone_sharing l flags named i
    refine ⟨l, flags ++ more, by rw [heq], rfl, ?_⟩
    rw [List.count_append, List.count_eq_zero.2 hmore]
    rfl
  | call i op fault =>
    cases hi : flags[i]? with
    | none =>
      rw [call_sharing_of_none hi]
      exact ⟨l, flags, rfl, rfl, rfl⟩
    | some held =>
      have hheld := toNat_le_count hi
      have hfits : l.units + held.toNat ≤ 1 := by omega
      have hchange := l.change_on op hfits fault
      have hset := count_set hi (op.on l held fault).held
      have hsum := hchange.units_add
      rw [call_sharing hi]
      refine ⟨_, _, rfl, hchange.isLive_eq, ?_⟩
      show _ + _ + (op.loses (op.on l held fault).result).toNat = _
      omega

theorem play_sharing (named : Option Nat) (events : List LockEvent)
    (h : l.units + flags.count true ≤ 1) :
    ∃ l' flags', ((sharing l flags named).play events).2 = sharing l' flags' named ∧
      l'.isLive = l.isLive ∧
      l'.units + flags'.count true + losses ((sharing l flags named).play events).1 =
        l.units + flags.count true := by
  induction events generalizing l flags with
  | nil => exact ⟨l, flags, rfl, rfl, rfl⟩
  | cons e events ih =>
    obtain ⟨l₁, flags₁, hact, hlive₁, hsum₁⟩ := act_sharing named e h
    have hnext : l₁.units + flags₁.count true ≤ 1 := by omega
    obtain ⟨l₂, flags₂, hplay, hlive₂, hsum₂⟩ := ih hnext
    rw [← hact] at hplay hsum₂
    refine ⟨l₂, flags₂, hplay, hlive₂.trans hlive₁, ?_⟩
    rw [losses_play_cons]
    omega

theorem free_iff_of_sum {n : Nat} (h : l.units + flags.count true + n = 1) :
    l.free = true ↔ true ∉ flags ∧ n = 0 := by
  rw [Lock.free_iff (by omega), ← List.count_eq_zero]
  omega

end

end Handles

theorem Lock.give_of_live {l : Lock} (h : l.units = 0) (hlive : l.isLive = true) :
    ∃ l', l.give none = (.ok true, l') ∧ l'.free = true := by
  cases l with
  | flag locked => exact ⟨.flag false, rfl, rfl⟩
  | semaphore value live =>
    obtain rfl : value = 0 := h
    obtain rfl : live = true := hlive
    exact ⟨.semaphore 1 true, rfl, rfl⟩

end Prefork.Coordination

namespace Prefork.Supervision

open Time (Clock)

structure Worker.Holds (w : Worker) (c : Commons) : Prop where
  held : w.held = true
  taken : c.lock.units = 0
  live : c.lock.isLive = true
  works : c.faults.release = false

variable {w : Worker} {c : Commons}

theorem Worker.Holds.leave (h : w.Holds c) :
    (w.leave c).1.held = false ∧ (w.leave c).2.lock.free = true := by
  obtain ⟨l', hgive, hfree⟩ := Coordination.Lock.give_of_live h.taken h.live
  have hrelease : c.lock.release w.held none = ⟨.ok true, l', false⟩ := by
    rw [Coordination.Lock.release, h.held, hgive]
    rfl
  simp only [Worker.leave, h.works, hrelease]
  exact ⟨rfl, hfree⟩

theorem Worker.Holds.shutdown (h : w.Holds c) (clock : Clock) (count : Nat) :
    (w.shutdown clock count c).1.held = false ∧ (w.shutdown clock count c).2.lock.free = true := by
  obtain ⟨hheld, hfree⟩ := h.leave
  have hgives : w.relinquish c = w.leave c := by rw [Worker.relinquish, h.held, if_pos rfl]
  rw [Worker.shutdown_eq, hgives, (Worker.report_keeps ..).2.2, (Worker.report_spares ..).1]
  exact ⟨hheld, hfree⟩

end Prefork.Supervision

namespace Prefork.Coordination

open Host (Errno)

namespace Handles

open Supervision (Worker Commons)

variable {l : Lock} {flags : List Bool} {named : Option Nat} {i : Nat}

/-- A call for the lock that fails changes nothing. -/
theorem call_of_error {op : LockCall} {fault : Option Errno} {e : Error}
    (h : l.units + flags.count true ≤ 1) (hop : op ≠ .release)
    (he : ((sharing l flags named).act (.call i op fault)).1 = some (.error e)) :
    ((sharing l flags named).act (.call i op fault)).2 = sharing l flags named := by
  cases hi : flags[i]? with
  | none => rw [call_sharing_of_none hi]
  | some held =>
    rw [call_sharing hi] at he ⊢
    have hheld := toNat_le_count hi
    have hfits : l.units + held.toNat ≤ 1 := by omega
    have hchange := l.change_on op hfits fault
    have hkeeps : op.loses (op.on l held fault).result = false := by
      cases op with
      | tryAcquire | acquire => rfl
      | release => exact absurd rfl hop
    obtain ⟨hlock, hsame⟩ := hchange.of_error (Option.some.inj he) hkeeps
    obtain ⟨hlt, hget⟩ := List.getElem?_eq_some_iff.1 hi
    rw [hlock, hsame, ← hget, List.set_getElem_self]

/-- A handle that holds the lock gives it back, unless the call fails. -/
theorem release_of_held (h : l.units = 0) (hlive : l.isLive = true) (hi : flags[i]? = some true) :
    ∃ l', (sharing l flags named).act (.call i .release none) =
        (some (.ok true), sharing l' (flags.set i false) named) ∧ l'.free = true := by
  obtain ⟨l', hgive, hfree⟩ := Lock.give_of_live h hlive
  have hrelease : LockCall.release.on l true none = ⟨.ok true, l', false⟩ := by
    rw [LockCall.on, Lock.release, hgive]
    rfl
  exact ⟨l', by rw [call_sharing hi, hrelease], hfree⟩

/-- Whatever calls are made on the handles of a new lock, at most one of them holds it, and it is
free just if none does and it was not let go in vain: once that has happened, no handle ever holds
it again. A call for the lock that fails changes nothing, so the handle that holds the lock can
still give it back, and so can its worker, in leaving the gate or in shutting down. -/
theorem lock_accounts (created : Lock) (named : Bool) (events : List LockEvent)
    (hnew : created = .flag false ∨ created = .semaphore 1 true) :
    let run := (single created false named).play events
    let h := run.2
    ∃ l, h = sharing l h.flags (if named then some 0 else none) ∧
      h.flags.count true ≤ 1 ∧
      (l.free = true ↔ true ∉ h.flags ∧ losses run.1 = 0) ∧
      (losses run.1 ≠ 0 → true ∉ h.flags) ∧
      (∀ i op fault e, op ≠ .release → (h.act (.call i op fault)).1 = some (.error e) →
        (h.act (.call i op fault)).2 = h) ∧
      ∀ i, h.flags[i]? = some true →
        (∃ l', h.act (.call i .release none) =
            (some (.ok true), sharing l' (h.flags.set i false) (if named then some 0 else none)) ∧
          l'.free = true) ∧
        ∀ (w : Worker) (c : Commons), w.held = true → c.lock = l → c.faults.release = false →
          (w.leave c).1.held = false ∧ (w.leave c).2.lock.free = true ∧
          ∀ clock count, (w.shutdown clock count c).1.held = false ∧
            (w.shutdown clock count c).2.lock.free = true := by
  intro run h
  have hunits : created.units = 1 ∧ created.isLive = true := by
    rcases hnew with rfl | rfl <;> exact ⟨rfl, rfl⟩
  have hfits : created.units + [false].count true ≤ 1 := by simp [hunits]
  obtain ⟨l, flags, hplay, hlive, hsum⟩ :=
    play_sharing (if named then some 0 else none) events hfits
  have hstart : single created false named =
      sharing created [false] (if named then some 0 else none) := rfl
  rw [← hstart] at hplay hsum
  have hone : l.units + flags.count true + losses run.1 = 1 := by simpa [hunits] using hsum
  have hh : h = sharing l flags (if named then some 0 else none) := hplay
  have hflags : h.flags = flags := by rw [hh, flags_sharing]
  rw [hflags]
  refine ⟨l, hh, by omega, free_iff_of_sum hone, ?_, ?_, ?_⟩
  · intro hlost
    rw [← List.count_eq_zero]
    omega
  · intro i op fault e hop he
    rw [hh] at he ⊢
    exact call_of_error (by omega) hop he
  · intro i hi
    have hheld := toNat_le_count hi
    have hnone : l.units = 0 := by
      rw [Bool.toNat_true] at hheld
      omega
    rw [hh]
    refine ⟨release_of_held hnone (hlive.trans hunits.2) hi, ?_⟩
    intro w c hw hc hworks
    have hholds : w.Holds c := ⟨hw, by rw [hc, hnone], by rw [hc, hlive, hunits.2], hworks⟩
    exact ⟨hholds.leave.1, hholds.leave.2, hholds.shutdown⟩

def contention : List LockEvent :=
  [.clone 0, .call 0 .acquire (some Errno.interrupted), .call 1 .acquire (some 12),
    .call 1 .tryAcquire (some Errno.again), .call 2 .release none]

theorem lock_accounts_contention :
    let h := ((single (.semaphore 1 true) false false).play contention).2
    h.flags = [true, false] ∧
      (h.act (.call 1 .acquire (some 12))).1 = some (.error (.os "semop" 12)) ∧
      (h.act (.call 1 .acquire (some 12))).2 = h ∧
      ∃ l l', h = sharing l [true, false] none ∧
        h.act (.call 0 .release none) = (some (.ok true), sharing l' [false, false] none) ∧
        l'.free = true ∧
        ((Worker.mk 0 0 true 0 none {} {}).leave { Commons.inProcess with lock := l }).2.lock.free =
          true := by
  intro h
  obtain ⟨l, hsharing, -, -, -, hfails, hheld⟩ :=
    lock_accounts (.semaphore 1 true) false contention (.inr rfl)
  have hflags : h.flags = [true, false] := rfl
  have herror : (h.act (.call 1 .acquire (some 12))).1 = some (.error (.os "semop" 12)) := rfl
  obtain ⟨⟨l', hrelease, hfree⟩, hworker⟩ := hheld 0 rfl
  refine ⟨hflags, herror, hfails 1 .acquire (some 12) _ nofun herror, l, l', hsharing, hrelease,
    hfree, ?_⟩
  exact (hworker (Worker.mk 0 0 true 0 none {} {}) _ rfl rfl rfl).2.1

/-- A handle that fails to give the lock back no longer counts as its holder. After that no handle
holds it, it is not free, and nothing can take it or give it back. -/
theorem failed_release_loses_lock :
    ∃ before after : Handles Lock Bool,
      ((single (.semaphore 1 true) false false).play [.clone 0, .call 0 .tryAcquire none]).2 =
        before ∧
      before.flags = [true, false] ∧
      before.act (.call 0 .release (some 5)) = (some (.error (.os "semop" 5)), after) ∧
      after.flags = [false, false] ∧ after.objects.map Lock.free = [false] ∧
      after.act (.call 0 .release none) = (some (.ok false), after) ∧
      after.act (.call 1 .tryAcquire none) = (some (.ok false), after) :=
  ⟨_, _, rfl, rfl, rfl, rfl, rfl, rfl, rfl⟩

end Handles

end Prefork.Coordination
