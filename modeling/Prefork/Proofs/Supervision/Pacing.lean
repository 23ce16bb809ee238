import Prefork.Proofs.Supervision.Tenure

namespace Prefork.Supervision

open Coordination (Lock)
open Time (Clock Nanos)

structure Attempt where
  time : Nanos
  failed : Bool
  deriving DecidableEq, Repr

namespace Backoff

def pause (k : Nat) : Nanos :=
  min (Time.ofMillis 50 * Nat.pow 2 (min (k - 1) 10)) (Time.ofSeconds 5)

def ofStreak (k : Nat) : Backoff := ⟨min k (UInt32.size - 1)⟩

theorem pause_mono {j k : Nat} (h : j ≤ k) : pause j ≤ pause k := by
  have hexp : min (j - 1) 10 ≤ min (k - 1) 10 := by omega
  have hpow : 2 ^ min (j - 1) 10 ≤ 2 ^ min (k - 1) 10 := Nat.pow_le_pow_right (by decide) hexp
  have hmul := Nat.mul_le_mul_left (Time.ofMillis 50) hpow
  exact Nat.le_min.2 ⟨Nat.le_trans (Nat.min_le_left ..) hmul, Nat.min_le_right ..⟩

theorem pause_le (k : Nat) : pause k ≤ Time.ofSeconds 5 := Nat.min_le_right ..

example : (List.range 9).map (fun k ↦ pause (k + 1)) =
    [50, 100, 200, 400, 800, 1600, 3200, 5000, 5000].map Time.ofMillis := by decide

theorem delay_ofStreak (k : Nat) : (ofStreak k).delay = pause (k + 1) := by
  -- The count stops far beyond the failures that still lengthen the pause.
  have hmin : min (min k (UInt32.size - 1)) 10 = min k 10 := by
    have hsize : UInt32.size - 1 = 0xffffffff := rfl
    omega
  rw [delay, pause, ofStreak, hmin, Nat.shiftLeft_eq, Nat.add_sub_cancel]
  rfl

theorem fail_ofStreak (k : Nat) : (ofStreak k).fail = ofStreak (k + 1) := by
  have hmin : min (min k (UInt32.size - 1) + 1) (UInt32.size - 1) =
      min (k + 1) (UInt32.size - 1) := by omega
  exact congrArg Backoff.mk hmin

theorem failures_ofStreak_lt (k : Nat) : (ofStreak k).failures < UInt32.size := by
  have hle : min k (UInt32.size - 1) ≤ UInt32.size - 1 := Nat.min_le_right ..
  exact Nat.lt_of_le_of_lt hle (by decide)

end Backoff

namespace Attempt

/-- How many attempts have failed since one did not. The latest attempt stands first. -/
def streak : List Attempt → Nat
  | [] => 0
  | a :: earlier => if a.failed then streak earlier + 1 else 0

def retryAt : List Attempt → Option Nanos
  | [] => none
  | a :: earlier => if a.failed then some (a.time + Backoff.pause (streak earlier + 1)) else none

/-- When a heartbeat is due: at the start, the interval after one that was sent, or a pause after
one that was not. -/
def beatDue (interval start : Nanos) : List Attempt → Nanos
  | [] => start
  | a :: earlier =>
    if a.failed then a.time + Backoff.pause (streak earlier + 1) else a.time + interval

variable {interval start : Nanos} {as : List Attempt} {a : Attempt}

theorem retryAt_le {t : Nanos} (h : retryAt as = some t) :
    ∃ a earlier, as = a :: earlier ∧ a.failed = true ∧ t ≤ a.time + Time.ofSeconds 5 := by
  cases as with
  | nil => cases h
  | cons a earlier =>
    rw [retryAt] at h
    split at h
    · next hf =>
      cases h
      exact ⟨a, earlier, rfl, hf, Nat.add_le_add_left (Backoff.pause_le _) _⟩
    · cases h

theorem beatDue_le {now : Nanos} (hs : start ≤ now)
    (h : ∀ a ∈ as.head?, a.time + max interval (Time.ofSeconds 5) ≤ now) :
    beatDue interval start as ≤ now := by
  cases as with
  | nil => exact hs
  | cons a earlier =>
    have ha := h a rfl
    rw [beatDue]
    split
    · have hp := Nat.le_trans (Backoff.pause_le (streak earlier + 1)) (Nat.le_max_right interval _)
      exact Nat.le_trans (Nat.add_le_add_left hp _) ha
    · exact Nat.le_trans (Nat.add_le_add_left (Nat.le_max_left ..) _) ha

/-- Each heartbeat that was sent is an interval ahead of the next one that is sent, now or later. -/
structure Spaced (interval start : Nanos) (as : List Attempt) : Prop where
  apart : (as.filter (!·.failed)).Pairwise fun later earlier ↦ earlier.time + interval ≤ later.time
  due : ∀ a ∈ as, a.failed = false → a.time + interval ≤ beatDue interval start as

theorem Spaced.cons (h : Spaced interval start as) (ha : beatDue interval start as ≤ a.time) :
    Spaced interval start (a :: as) := by
  have hbefore {b : Attempt} (hb : b ∈ as) (hf : b.failed = false) : b.time + interval ≤ a.time :=
    Nat.le_trans (h.due b hb hf) ha
  have hnext : a.time ≤ beatDue interval start (a :: as) := by
    rw [beatDue]
    split <;> exact Nat.le_add_right ..
  cases hf : a.failed with
  | true =>
    refine ⟨by simpa [hf] using h.apart, fun b hb hbf ↦ ?_⟩
    rcases List.mem_cons.1 hb with rfl | hb
    · rw [hf] at hbf
      cases hbf
    · exact Nat.le_trans (hbefore hb hbf) hnext
  | false =>
    refine ⟨?_, fun b hb hbf ↦ ?_⟩
    · rw [List.filter_cons_of_pos (by simp [hf])]
      refine List.pairwise_cons.2 ⟨fun b hb ↦ ?_, h.apart⟩
      obtain ⟨hb, hbf⟩ := List.mem_filter.1 hb
      exact hbefore hb (by simpa using hbf)
    · rcases List.mem_cons.1 hb with rfl | hb
      · have hdue : beatDue interval start (b :: as) = b.time + interval := by
          rw [beatDue, if_neg (by simp [hf])]
        exact Nat.le_of_eq hdue.symm
      · exact Nat.le_trans (hbefore hb hbf) hnext

end Attempt

namespace Worker

open Attempt (streak retryAt beatDue Spaced)

variable {w : Worker} {now interval start : Nanos}

inductive Move where
  | enter (now : Nanos) (c : Commons)
  | leave (c : Commons)
  | tick (clock : Clock) (count : Nat) (c : Commons)

def after (w : Worker) : Move → Worker
  | .enter now c => (w.tryEnter now c).2.1
  | .leave c => (w.leave c).1
  | .tick clock count c => (w.tick clock count c).1

def asks (w : Worker) : Move → Option Attempt
  | .enter now c => if w.mayTry now then some ⟨now, !(w.ask c).result.isOk⟩ else none
  | .leave _ | .tick .. => none

def beats (w : Worker) : Move → Option Attempt
  | .tick clock count c =>
    if w.isDue clock.instant then
      some ⟨clock.instant, !c.takes (w.heartbeat clock count).encode⟩
    else none
  | .enter .. | .leave _ => none

structure Trail where
  worker : Worker
  asked : List Attempt := []
  sent : List Attempt := []

def Trail.move (t : Trail) (m : Move) : Trail where
  worker := t.worker.after m
  asked := (t.worker.asks m).toList ++ t.asked
  sent := (t.worker.beats m).toList ++ t.sent

/-- What a worker remembers is what its attempts call for. -/
structure Trail.Kept (every start : Nanos) (t : Trail) : Prop where
  interval : t.worker.interval = every
  nextBeat : t.worker.nextBeat = beatDue every start t.sent
  beatBackoff : t.worker.beatBackoff = .ofStreak (streak t.sent)
  spaced : Spaced every start t.sent
  retryAt : t.worker.retryAt = Attempt.retryAt t.asked
  lockBackoff : t.worker.lockBackoff = .ofStreak (streak t.asked)

variable {t : Trail}

theorem Trail.Kept.mayTry_iff (h : t.Kept interval start) :
    t.worker.mayTry now = true ↔ ∀ time, Attempt.retryAt t.asked = some time → time ≤ now := by
  rw [mayTry, h.retryAt]
  cases Attempt.retryAt t.asked with
  | none => simp
  | some time => simp

theorem Trail.Kept.isDue_iff (h : t.Kept interval start) :
    t.worker.isDue now = true ↔ beatDue interval start t.sent ≤ now := by
  rw [isDue, h.nextBeat, decide_eq_true_eq]

theorem Trail.Kept.enter (h : t.Kept interval start) (now : Nanos) (c : Commons) :
    (t.move (.enter now c)).Kept interval start := by
  simp only [move, after, asks, beats]
  cases hm : t.worker.mayTry now with
  | false =>
    rw [tryEnter_of_not_mayTry hm]
    exact h
  | true =>
    rw [tryEnter_of_mayTry hm]
    cases (t.worker.ask c).result with
    | ok won => exact ⟨h.interval, h.nextBeat, h.beatBackoff, h.spaced, rfl, rfl⟩
    | error e =>
      refine ⟨h.interval, h.nextBeat, h.beatBackoff, h.spaced, ?_, ?_⟩
      · show some (now + t.worker.lockBackoff.delay) = _
        rw [h.lockBackoff, Backoff.delay_ofStreak]
        rfl
      · show t.worker.lockBackoff.fail = _
        rw [h.lockBackoff, Backoff.fail_ofStreak]
        rfl

theorem Trail.Kept.leave (h : t.Kept interval start) (c : Commons) :
    (t.move (.leave c)).Kept interval start := by
  simp only [move, after, asks, beats, Worker.leave]
  split <;> exact ⟨h.interval, h.nextBeat, h.beatBackoff, h.spaced, h.retryAt, h.lockBackoff⟩

theorem Trail.Kept.tick (h : t.Kept interval start) (clock : Clock) (count : Nat) (c : Commons) :
    (t.move (.tick clock count c)).Kept interval start := by
  simp only [move, after, asks, beats]
  cases hd : t.worker.isDue clock.instant with
  | false =>
    rw [tick_of_not_due hd]
    exact h
  | true =>
    have hspaced (failed : Bool) : Spaced interval start (⟨clock.instant, failed⟩ :: t.sent) :=
      h.spaced.cons (h.isDue_iff.1 hd)
    rw [tick_of_due hd]
    cases c.takes (t.worker.heartbeat clock count).encode with
    | true =>
      refine ⟨h.interval, ?_, rfl, hspaced false, h.retryAt, h.lockBackoff⟩
      show clock.instant + t.worker.interval = _
      rw [h.interval]
      rfl
    | false =>
      refine ⟨h.interval, ?_, ?_, hspaced true, h.retryAt, h.lockBackoff⟩
      · show clock.instant + t.worker.beatBackoff.delay = _
        rw [h.beatBackoff, Backoff.delay_ofStreak]
        rfl
      · show t.worker.beatBackoff.fail = _
        rw [h.beatBackoff, Backoff.fail_ofStreak]
        rfl

theorem Trail.Kept.move (h : t.Kept interval start) (m : Move) :
    (t.move m).Kept interval start := by
  cases m with
  | enter now c => exact h.enter now c
  | leave c => exact h.leave c
  | tick clock count c => exact h.tick clock count c

def trail (id : UInt32) (interval start : Nanos) (moves : List Move) : Trail :=
  moves.foldl Trail.move { worker := starting id interval start }

theorem Trail.Kept.moves (h : t.Kept interval start) (moves : List Move) :
    (moves.foldl Trail.move t).Kept interval start := by
  induction moves generalizing t with
  | nil => exact h
  | cons m moves ih => exact ih (h.move m)

theorem kept_trail (id : UInt32) (interval start : Nanos) (moves : List Move) :
    (trail id interval start moves).Kept interval start := by
  have hnew : ({ worker := starting id interval start } : Trail).Kept interval start :=
    ⟨rfl, rfl, rfl, ⟨.nil, fun _ h ↦ absurd h List.not_mem_nil⟩, rfl, rfl⟩
  exact hnew.moves moves

structure Idles (w : Worker) (clock : Clock) (count : Nat) (c : Commons) : Prop where
  attempt : w.beats (.tick clock count c) = none
  tick : w.tick clock count c = (w, c)

structure Reports (w : Worker) (clock : Clock) (count : Nat) (c : Commons) : Prop where
  attempt : w.beats (.tick clock count c) =
    some ⟨clock.instant, !c.takes (w.heartbeat clock count).encode⟩
  messages : (w.tick clock count c).2.messages = c.messages ++
    if c.takes (w.heartbeat clock count).encode then [(w.heartbeat clock count).encode] else []

structure Refrains (w : Worker) (now : Nanos) (c : Commons) : Prop where
  attempt : w.asks (.enter now c) = none
  enter : w.tryEnter now c = (false, w, c)

structure Contends (w : Worker) (now : Nanos) (c : Commons) : Prop where
  attempt : w.asks (.enter now c) = some ⟨now, !(w.ask c).result.isOk⟩
  granted : (w.tryEnter now c).1 = true ↔ (w.ask c).result = .ok true
  lock : (w.tryEnter now c).2.2.lock = (w.ask c).lock

theorem idles_of_not_due {clock : Clock} (h : w.isDue clock.instant = false) (count : Nat)
    (c : Commons) : w.Idles clock count c :=
  ⟨by simp [beats, h], tick_of_not_due h count c⟩

theorem reports_of_due {clock : Clock} (h : w.isDue clock.instant = true) (count : Nat)
    (c : Commons) : w.Reports clock count c := by
  refine ⟨by simp [beats, h], ?_⟩
  rw [tick_of_due h]
  exact c.messages_offered _

theorem refrains_of_not_mayTry (h : w.mayTry now = false) (c : Commons) : w.Refrains now c :=
  ⟨by simp [asks, h], tryEnter_of_not_mayTry h c⟩

theorem contends_of_mayTry (h : w.mayTry now = true) (c : Commons) : w.Contends now c := by
  refine ⟨by simp [asks, h], ?_, ?_⟩
  · rw [tryEnter_of_mayTry h]
    cases (w.ask c).result with
    | ok won => simp [Except.toOption]
    | error e => simp [Except.toOption]
  · rw [tryEnter_of_mayTry h]

/-- Ticks send heartbeats in time. The first one sends, and then each does from the interval on
behind one that was sent, or from a pause on behind one that was not. The pause grows with the
failures in a row, to no more than five seconds, however many of them there are. -/
theorem ticks_in_time (id : UInt32) (interval start : Nanos) (moves : List Move) :
    let t := trail id interval start moves
    (∀ clock count c, clock.instant < beatDue interval start t.sent →
        t.worker.Idles clock count c) ∧
      (∀ clock count c, beatDue interval start t.sent ≤ clock.instant →
        t.worker.Reports clock count c) ∧
      (∀ clock count c, t.sent = [] → start ≤ clock.instant → t.worker.Reports clock count c) ∧
      (t.sent.filter (!·.failed)).Pairwise
        (fun later earlier ↦ earlier.time + interval ≤ later.time) ∧
      t.worker.beatBackoff = .ofStreak (streak t.sent) ∧
      t.worker.beatBackoff.failures < UInt32.size ∧
      (∀ j k, j ≤ k → Backoff.pause j ≤ Backoff.pause k ∧ Backoff.pause k ≤ Time.ofSeconds 5) ∧
      ∀ now, start ≤ now →
        (∀ a ∈ t.sent.head?, a.time + max interval (Time.ofSeconds 5) ≤ now) →
        beatDue interval start t.sent ≤ now := by
  intro t
  have h : t.Kept interval start := kept_trail id interval start moves
  have hdue {clock : Clock} (hd : beatDue interval start t.sent ≤ clock.instant) (count : Nat)
      (c : Commons) : t.worker.Reports clock count c :=
    reports_of_due (h.isDue_iff.2 hd) count c
  refine ⟨?_, ?_, ?_, h.spaced.apart, h.beatBackoff, ?_, ?_, ?_⟩
  · intro clock count c hlt
    have hnot : ¬ t.worker.isDue clock.instant = true := by
      rw [h.isDue_iff]
      exact Nat.not_le_of_lt hlt
    exact idles_of_not_due (by simpa using hnot) count c
  · intro _ count c hd
    exact hdue hd count c
  · intro clock count c hn hs
    apply hdue
    rwa [hn]
  · rw [h.beatBackoff]
    exact Backoff.failures_ofStreak_lt _
  · intro j k hjk
    exact ⟨Backoff.pause_mono hjk, Backoff.pause_le k⟩
  · intro now
    exact Attempt.beatDue_le

/-- After an error the lock is left alone for a pause that grows with the errors in a row, to no
more than five seconds. At any other time each call asks the lock, and is granted exactly if it
then wins it. -/
theorem enters_in_time (id : UInt32) (interval start : Nanos) (moves : List Move) :
    let t := trail id interval start moves
    (∀ now c time, Attempt.retryAt t.asked = some time → now < time →
        t.worker.Refrains now c) ∧
      (∀ now c, (∀ time, Attempt.retryAt t.asked = some time → time ≤ now) →
        t.worker.Contends now c) ∧
      t.worker.lockBackoff = .ofStreak (streak t.asked) ∧
      ∀ time, Attempt.retryAt t.asked = some time → ∃ last earlier, t.asked = last :: earlier ∧
        last.failed = true ∧ time ≤ last.time + Time.ofSeconds 5 := by
  intro t
  have h : t.Kept interval start := kept_trail id interval start moves
  refine ⟨?_, ?_, h.lockBackoff, ?_⟩
  · intro now c time htime hlt
    have hnot : ¬ t.worker.mayTry now = true := by
      rw [h.mayTry_iff]
      intro hall
      exact Nat.not_le_of_lt hlt (hall time htime)
    exact refrains_of_not_mayTry (by simpa using hnot) c
  · intro now c htime
    exact contends_of_mayTry (h.mayTry_iff.2 htime) c
  · intro time
    exact Attempt.retryAt_le

/-- Between the two errors and behind them the lock is not looked at for a while, and two ticks come
too early. -/
example :
    let broken : Commons := { Commons.inProcess with faults := { lock := true, queue := true } }
    let clock (millis : Nat) : Clock := .after 1000 millis
    let t := trail 0 (Time.ofMillis 200) 0
      [.tick (clock 0) 1 broken, .enter (Time.ofMillis 0) broken,
        .enter (Time.ofMillis 49) .inProcess, .tick (clock 49) 1 .inProcess,
        .enter (Time.ofMillis 50) broken, .tick (clock 60) 1 .inProcess,
        .enter (Time.ofMillis 149) .inProcess, .enter (Time.ofMillis 150) .inProcess,
        .tick (clock 259) 1 .inProcess, .tick (clock 260) 1 .inProcess]
    t.sent.map (·.time) = [260, 60, 0].map Time.ofMillis ∧
      t.asked.map (·.time) = [150, 50, 0].map Time.ofMillis := by
  decide +kernel

end Worker

end Prefork.Supervision
