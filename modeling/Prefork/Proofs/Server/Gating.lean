import Mathlib.Data.List.Basic
import Prefork.Proofs.Server.Confined
import Prefork.Proofs.Server.Tokens

namespace Prefork.Server

open Loop (Run)

variable {σ η : Type}

def Hooks.follow (hooks : Hooks η) (state : η) : Act → η
  | .asked _ => (hooks.tryEnter state).2
  | .left => hooks.leave state
  | .accepted _ => (hooks.nextId state).2
  | .ticked count => hooks.tick count state
  | .shutDown count => hooks.shutdown count state
  | .listening _ | .polled | .opened .. | .received .. | .drained .. | .closed _ | .sent ..
  | .armed .. | .dropped _ => state

def Act.heed (before : Bool) : Act → Bool
  | .listening on => on
  | _ => before

def Act.isAccepted : Act → Bool
  | accepted _ => true
  | _ => false

def Act.isRoutine (a : Act) : Bool := a.token?.isSome && !a.isOpened

theorem Act.isSome_of_isRoutine {a : Act} (h : a.isRoutine = true) : a.token?.isSome = true :=
  (Bool.and_eq_true_iff.1 h).1

namespace Loop

variable {hooks : Hooks η} {config : Config σ} {l : Loop σ η} {r : Run σ η}

structure Follows (hooks : Hooks η) (l : Loop σ η) (r : Run σ η) : Prop where
  hooks : r.1.hooks = r.2.foldl hooks.follow l.hooks
  listening : r.1.listening = r.2.foldl Act.heed l.listening

theorem Follows.nil (l : Loop σ η) : Follows hooks l (l, []) := ⟨rfl, rfl⟩

theorem Follows.andThen {step : Loop σ η → Run σ η} (h : Follows hooks l r)
    (hs : ∀ m, Follows hooks m (step m)) : Follows hooks l (r.andThen step) := by
  obtain ⟨hhooks, hlistening⟩ := hs r.1
  refine ⟨?_, ?_⟩
  · rw [Run.andThen, List.foldl_append, ← h.hooks]
    exact hhooks
  · rw [Run.andThen, List.foldl_append, ← h.listening]
    exact hlistening

theorem Follows.foldl {α : Type} {step : α → Loop σ η → Run σ η} (h : Follows hooks l r)
    (hs : ∀ a m, Follows hooks m (step a m)) (xs : List α) :
    Follows hooks l (xs.foldl (fun r a ↦ r.andThen (step a)) r) := by
  induction xs generalizing r with
  | nil => exact h
  | cons x xs ih => exact ih (h.andThen (hs x))

theorem follows_of_token {a : Act} (h : a.token?.isSome = true) (hooks : Hooks η) :
    (∀ state, hooks.follow state a = state) ∧ ∀ on, a.heed on = on := by
  cases a <;> first | exact ⟨fun _ ↦ rfl, fun _ ↦ rfl⟩ | cases h

theorem foldl_of_eq {α β : Type} {f : β → α → β} {xs : List α} {b : β}
    (h : ∀ x ∈ xs, f b x = b) : xs.foldl f b = b := by
  induction xs with
  | nil => rfl
  | cons x xs ih =>
    rw [List.foldl_cons, h x List.mem_cons_self]
    exact ih fun y hy ↦ h y (List.mem_cons_of_mem x hy)

theorem Beside.follows {t : Token} (h : Beside t l r) : Follows hooks l r := by
  have hsome {a : Act} (ha : a ∈ r.2) : a.token?.isSome = true := by rw [h.acts a ha]; rfl
  refine ⟨h.hooks.trans (foldl_of_eq fun a ha ↦ ?_).symm,
    h.listening.trans (foldl_of_eq fun a ha ↦ ?_).symm⟩
  · exact (follows_of_token (hsome ha) hooks).1 _
  · exact (follows_of_token (hsome ha) hooks).2 _

theorem Follows.touch (x : Touch) (l : Loop σ η) : Follows hooks l (x.run config l) :=
  (x.confined config l).beside.follows

theorem isRoutine_touch (x : Touch) (l : Loop σ η) {a : Act} (ha : a ∈ (x.run config l).2) :
    a.isRoutine = true := by
  have hopened : a.isOpened = false := by
    cases a with
    | opened t stays =>
      have hmem : t ∈ openedIn (x.run config l).2 := List.mem_filterMap.2 ⟨_, ha, rfl⟩
      rw [x.openedIn_run] at hmem
      cases hmem
    | _ => rfl
  rw [Act.isRoutine, (x.confined config l).beside.acts a ha, hopened]
  rfl

theorem Follows.leaveIf (granted : Bool) (l : Loop σ η) :
    Follows hooks l (l.leaveIf hooks granted) := by
  cases granted <;> exact ⟨rfl, rfl⟩

theorem Follows.accept (env : Surroundings) (l : Loop σ η) :
    Follows hooks l (l.accept hooks config env) := by
  simp only [Loop.accept]
  split
  · exact .nil l
  · split
    · exact ⟨rfl, rfl⟩
    · split <;> exact ⟨rfl, rfl⟩

theorem Follows.listen {granted : Bool} {failure : Option Host.IoError}
    (h : l.listen granted failure = .ok r) : Follows hooks l r := by
  simp only [Loop.listen] at h
  split at h
  · cases h
    exact .nil l
  · cases failure with
    | some e => cases h
    | none =>
      cases h
      exact ⟨rfl, rfl⟩

theorem Follows.dispatch (env : Surroundings) (granted : Bool) (events : List Event)
    (l : Loop σ η) : Follows hooks l (l.dispatch hooks config env granted events) := by
  rw [dispatch_eq]
  have hwritten (ready : List Readiness) : Follows hooks l (ready.foldl
      (fun run r ↦ Run.andThen run (·.send config r.token r.pending)) (l, [])) :=
    (Follows.nil l).foldl (fun r m ↦ .touch (.send r.token r.pending) m) ready
  refine Follows.foldl (Follows.andThen ?_ (.leaveIf granted)) (fun r m ↦ .touch (.react r) m) _
  split
  · exact (hwritten _).andThen fun m ↦ .accept env m
  · exact hwritten _

theorem Follows.pollOnce (env : Surroundings) (l : Loop σ η) :
    Follows hooks l (l.pollOnce hooks config env).2 := by
  rw [Loop.pollOnce]
  generalize he : hooks.tryEnter l.hooks = entered
  obtain ⟨granted, state⟩ := entered
  dsimp only
  have hasked : Follows hooks l ({ l with hooks := state }, [.asked granted]) :=
    ⟨(congrArg Prod.snd he).symm, rfl⟩
  split
  · exact hasked.andThen (.leaveIf granted)
  · next l' acts hl =>
    have hlisten : Follows hooks { l with hooks := state } (l', acts) := .listen hl
    have hpolled : Follows hooks l (l', [.asked granted] ++ acts ++ [.polled]) := by
      refine ⟨?_, ?_⟩
      · rw [hlisten.hooks, List.foldl_append, List.foldl_append, ← hasked.hooks]
        rfl
      · rw [hlisten.listening, List.foldl_append, List.foldl_append]
        rfl
    split
    · exact hpolled.andThen (.leaveIf granted)
    · exact hpolled.andThen (.leaveIf granted)
    · split
      · exact hpolled.andThen (.leaveIf granted)
      · exact hpolled.andThen (.dispatch env granted _)

theorem routine_foldl {α : Type} (config : Config σ) (touch : α → Touch) (xs : List α)
    (r : Run σ η) :
    (xs.foldl (fun r x ↦ r.andThen ((touch x).run config)) r).1.hooks = r.1.hooks ∧
      ∃ more, (xs.foldl (fun r x ↦ r.andThen ((touch x).run config)) r).2 = r.2 ++ more ∧
        ∀ a ∈ more, a.isRoutine = true := by
  induction xs generalizing r with
  | nil => exact ⟨rfl, [], (List.append_nil _).symm, nofun⟩
  | cons x xs ih =>
    obtain ⟨hhooks, more, he, hmore⟩ := ih (r.andThen ((touch x).run config))
    refine ⟨hhooks.trans ((touch x).confined config r.1).beside.hooks,
      ((touch x).run config r.1).2 ++ more, ?_, fun a ha ↦ ?_⟩
    · rw [List.foldl_cons, he, Run.andThen, List.append_assoc]
    · rcases List.mem_append.1 ha with ha | ha
      · exact isRoutine_touch (touch x) r.1 ha
      · exact hmore a ha

end Loop

/-- What an iteration does between asking and giving back, and what it reads behind that. -/
structure Agenda where
  listened : List Act := []
  polled : List Act := []
  written : List Act := []
  taken : List Act := []
  read : List Act := []

namespace Agenda

def served (a : Agenda) : List Act := a.written ++ a.taken

def front (a : Agenda) : List Act := a.listened ++ a.polled ++ a.served

def acts (a : Agenda) (granted : Bool) : List Act :=
  .asked granted :: a.front ++ ((if granted then [.left] else []) ++ a.read)

structure Regular (a : Agenda) (granted listening : Bool) : Prop where
  listened : ∀ b ∈ a.listened, b = .listening granted
  polled : a.polled = [] ∨
    a.polled = [.polled] ∧ a.listened.foldl Act.heed listening = granted
  routine : ∀ b ∈ a.written ++ a.read, b.isRoutine = true
  taken : a.taken = [] ∨ granted = true ∧ ∃ context rest, a.taken = .accepted context :: rest ∧
    ∀ b ∈ rest, b.token?.isSome = true

variable {a : Agenda} {granted listening : Bool}

theorem Regular.mem_served (h : a.Regular granted listening) {b : Act} (hb : b ∈ a.served) :
    b.isAccepted = true ∨ b.token?.isSome = true := by
  rcases List.mem_append.1 hb with hb | hb
  · exact .inr (Act.isSome_of_isRoutine (h.routine b (List.mem_append_left _ hb)))
  · rcases h.taken with ht | ⟨-, context, rest, ht, hrest⟩
    · rw [ht] at hb
      cases hb
    · rw [ht] at hb
      rcases List.mem_cons.1 hb with rfl | hb
      · exact .inl rfl
      · exact .inr (hrest b hb)

theorem Regular.mem_front (h : a.Regular granted listening) {b : Act} (hb : b ∈ a.front) :
    b = .listening granted ∨ b = .polled ∨ b.isAccepted = true ∨ b.token?.isSome = true := by
  rcases List.mem_append.1 hb with hb | hb
  · rcases List.mem_append.1 hb with hb | hb
    · exact .inl (h.listened b hb)
    · rcases h.polled with hp | ⟨hp, -⟩
      · rw [hp] at hb
        cases hb
      · rw [hp] at hb
        exact .inr (.inl (List.mem_singleton.1 hb))
  · exact .inr (.inr (h.mem_served hb))

end Agenda

namespace Loop

variable {hooks : Hooks η} {config : Config σ}

theorem taken_accept (env : Surroundings) (l : Loop σ η) :
    (l.accept hooks config env).2 = [] ∨ ∃ context rest,
      (l.accept hooks config env).2 = .accepted context :: rest ∧
        ∀ b ∈ rest, b.token?.isSome = true := by
  simp only [Loop.accept]
  split
  · exact .inl rfl
  · right
    split
    · exact ⟨_, [], rfl, List.forall_mem_nil _⟩
    · split <;> exact ⟨_, _, rfl, by simp [Act.token?]⟩

theorem acts_leaveIf (granted : Bool) (r : Run σ η) :
    (r.andThen (·.leaveIf hooks granted)).2 = r.2 ++ if granted then [.left] else [] := by
  cases granted <;> rfl

theorem acts_dispatch (hooks : Hooks η) (config : Config σ) (env : Surroundings)
    (granted : Bool) (events : List Event) (l : Loop σ η) : ∃ written taken read,
      (l.dispatch hooks config env granted events).2 =
        written ++ taken ++ ((if granted then [.left] else []) ++ read) ∧
      (∀ b ∈ written ++ read, b.isRoutine = true) ∧
      (taken = [] ∨ granted = true ∧ ∃ context rest, taken = .accepted context :: rest ∧
        ∀ b ∈ rest, b.token?.isSome = true) := by
  rw [dispatch_eq]
  obtain ⟨-, written, hw, hwritten⟩ := routine_foldl config
    (fun r ↦ .send r.token r.pending) ((sockets events).filter fun r ↦ r.writable && !r.error)
    ((l, []) : Run σ η)
  generalize hs : ((sockets events).filter fun r ↦ r.writable && !r.error).foldl
    (fun run r ↦ Run.andThen run (·.send config r.token r.pending)) (l, []) = sent
  have hsent : sent.2 = written := hs ▸ hw
  dsimp only
  generalize he : (if granted && listenerReady events then
    Run.andThen sent (·.accept hooks config env) else sent) = entered
  obtain ⟨-, read, hr, hread⟩ := routine_foldl config .react (sockets events)
    (entered.andThen (·.leaveIf hooks granted))
  have hroutine : ∀ b ∈ written ++ read, b.isRoutine = true := fun b hb ↦
    (List.mem_append.1 hb).elim (hwritten b) (hread b)
  have hentered : ∃ taken, entered.2 = written ++ taken ∧ (taken = [] ∨ granted = true ∧
      ∃ context rest, taken = .accepted context :: rest ∧ ∀ b ∈ rest, b.token?.isSome = true) := by
    rw [← he]
    split
    · next hg =>
      refine ⟨_, congrArg (· ++ _) hsent, ?_⟩
      exact (taken_accept env sent.1).imp_right fun ht ↦ ⟨(Bool.and_eq_true_iff.1 hg).1, ht⟩
    · exact ⟨[], by rw [hsent, List.append_nil], .inl rfl⟩
  obtain ⟨taken, het, htaken⟩ := hentered
  refine ⟨written, taken, read, hr.trans ?_, hroutine, htaken⟩
  rw [acts_leaveIf, het, List.append_assoc]

theorem acts_listen {l : Loop σ η} {granted : Bool} {failure : Option Host.IoError} {r : Run σ η}
    (h : l.listen granted failure = .ok r) :
    (∀ b ∈ r.2, b = .listening granted) ∧ r.2.foldl Act.heed l.listening = granted := by
  simp only [listen] at h
  split at h
  · next hoff =>
    cases h
    simp only [Bool.and_eq_true, Bool.not_eq_true'] at hoff
    exact ⟨List.forall_mem_nil _, hoff.2.trans hoff.1.symm⟩
  · cases failure with
    | some e => cases h
    | none =>
      cases h
      exact ⟨fun b hb ↦ List.mem_singleton.1 hb, rfl⟩

theorem agenda_pollOnce (hooks : Hooks η) (config : Config σ) (env : Surroundings)
    (l : Loop σ η) :
    ∃ a : Agenda, a.Regular (hooks.tryEnter l.hooks).1 l.listening ∧
      (l.pollOnce hooks config env).2.2 = a.acts (hooks.tryEnter l.hooks).1 := by
  rw [pollOnce]
  generalize hooks.tryEnter l.hooks = entered
  obtain ⟨granted, state⟩ := entered
  dsimp only
  -- One case for each exit: an agenda is empty from where the iteration stopped.
  split
  · refine ⟨{}, ⟨List.forall_mem_nil _, .inl rfl, List.forall_mem_nil _, .inl rfl⟩, ?_⟩
    refine (acts_leaveIf granted _).trans ?_
    simp [Agenda.acts, Agenda.front, Agenda.served]
  · next l' listened hl =>
    obtain ⟨hlistened, hheed⟩ := acts_listen hl
    have hidle : ∃ a : Agenda, a.Regular granted l.listening ∧
        (Run.andThen (l', [.asked granted] ++ listened ++ [.polled])
          (·.leaveIf hooks granted)).2 = a.acts granted := by
      refine ⟨{ listened, polled := [.polled] },
        ⟨hlistened, .inr ⟨rfl, hheed⟩, List.forall_mem_nil _, .inl rfl⟩, ?_⟩
      rw [acts_leaveIf]
      simp [Agenda.acts, Agenda.front, Agenda.served]
    split
    · exact hidle
    · exact hidle
    · split
      · exact hidle
      · next events _ _ =>
        obtain ⟨written, taken, read, he, hroutine, htaken⟩ :=
          acts_dispatch hooks config env granted events l'
        refine ⟨{ listened, polled := [.polled], written, taken, read },
          ⟨hlistened, .inr ⟨rfl, hheed⟩, hroutine, htaken⟩, ?_⟩
        dsimp only [Run.andThen]
        rw [he]
        simp [Agenda.acts, Agenda.front, Agenda.served]

end Loop

namespace Agenda.Regular

variable {a : Agenda} {granted listening : Bool}

theorem left_notMem_front (h : a.Regular granted listening) : .left ∉ a.front := by
  intro hl
  rcases h.mem_front hl with hl | hl | hl | hl <;> cases hl

theorem notMem_read (h : a.Regular granted listening) {b : Act} (hb : b.token? = none) :
    b ∉ a.read := by
  intro hr
  have hsome := Act.isSome_of_isRoutine (h.routine b (List.mem_append_right _ hr))
  rw [hb] at hsome
  cases hsome

theorem mem_behind (h : a.Regular granted listening) {b : Act}
    (hb : b ∈ (if granted then [.left] else []) ++ a.read) : b = .left ∨ b.isRoutine = true := by
  rcases List.mem_append.1 hb with hb | hb
  · cases granted with
    | false => cases hb
    | true => exact .inl (List.mem_singleton.1 hb)
  · exact .inr (h.routine b (List.mem_append_right _ hb))

theorem asked_notMem (h : a.Regular granted listening) (asked : Bool) :
    .asked asked ∉ a.front ++ ((if granted then [.left] else []) ++ a.read) := by
  intro hm
  rcases List.mem_append.1 hm with hm | hm
  · rcases h.mem_front hm with hm | hm | hm | hm <;> cases hm
  · rcases h.mem_behind hm with hm | hm <;> cases hm

theorem shutDown_notMem (h : a.Regular granted listening) (count : Nat) :
    .shutDown count ∉ a.acts granted := by
  intro hm
  rcases List.mem_append.1 hm with hm | hm
  · rcases List.mem_cons.1 hm with hm | hm
    · cases hm
    · rcases h.mem_front hm with hm | hm | hm | hm <;> cases hm
  · rcases h.mem_behind hm with hm | hm <;> cases hm

theorem count_left (h : a.Regular granted listening) :
    (a.acts granted).count .left = if granted then 1 else 0 := by
  have hfront : a.front.count .left = 0 := List.count_eq_zero.2 h.left_notMem_front
  have hread : a.read.count .left = 0 := List.count_eq_zero.2 (h.notMem_read rfl)
  rw [acts, List.cons_append, List.count_cons, List.count_append, List.count_append, hfront, hread]
  cases granted <;> rfl

theorem behind_left (h : a.Regular granted listening) {before after : List Act}
    (he : a.acts granted = before ++ .left :: after) : ∀ b ∈ after, b.isRoutine = true := by
  cases granted with
  | false =>
    have hcount := h.count_left
    rw [he] at hcount
    simp at hcount
  | true =>
    have hnot : .left ∉ .asked true :: a.front := by
      intro hl
      rcases List.mem_cons.1 hl with hl | hl
      · cases hl
      · exact h.left_notMem_front hl
    obtain ⟨-, -, rfl⟩ := (List.append_cons_inj_of_notMem hnot (h.notMem_read rfl)).1 he
    exact fun b hb ↦ h.routine b (List.mem_append_right _ hb)

theorem countP_isAccepted_le (h : a.Regular granted listening) :
    (a.acts granted).countP Act.isAccepted ≤ if granted then 1 else 0 := by
  have hzero {acts : List Act} (hb : ∀ b ∈ acts, b.isAccepted = false) :
      acts.countP Act.isAccepted = 0 := List.countP_eq_zero.2 fun b hm ↦ by simp [hb b hm]
  have hlistened : a.listened.countP Act.isAccepted = 0 := by
    refine hzero fun b hb ↦ ?_
    rw [h.listened b hb]
    rfl
  have hpolled : a.polled.countP Act.isAccepted = 0 := by
    rcases h.polled with hp | ⟨hp, -⟩ <;> rw [hp] <;> rfl
  have hroutine {b : Act} (hb : b.token?.isSome = true) : b.isAccepted = false := by
    cases b <;> first | rfl | cases hb
  have hsome (b : Act) (hb : b ∈ a.written ++ a.read) : b.isAccepted = false :=
    hroutine (Act.isSome_of_isRoutine (h.routine b hb))
  have hwritten := hzero fun b hb ↦ hsome b (List.mem_append_left _ hb)
  have hread := hzero fun b hb ↦ hsome b (List.mem_append_right _ hb)
  have hleft : (if granted then [Act.left] else []).countP Act.isAccepted = 0 := by
    cases granted <;> rfl
  have htaken : a.taken.countP Act.isAccepted ≤ if granted then 1 else 0 := by
    rcases h.taken with ht | ⟨rfl, context, rest, ht, hrest⟩
    · rw [ht]
      exact Nat.zero_le _
    · rw [ht, List.countP_cons, hzero fun b hb ↦ hroutine (hrest b hb)]
      exact Nat.le_refl 1
  simp only [acts, front, served, List.cons_append, List.countP_cons, List.countP_append, hlistened,
    hpolled, hwritten, hread, hleft, Nat.zero_add, Nat.add_zero]
  exact htaken

theorem watched (h : a.Regular granted listening) {before after : List Act}
    (he : a.acts granted = before ++ .polled :: after) :
    before.foldl Act.heed listening = granted := by
  have hahead : .polled ∉ .asked granted :: a.listened := by
    intro hm
    rcases List.mem_cons.1 hm with hm | hm
    · cases hm
    · cases h.listened _ hm
  have hbehind : .polled ∉ a.served ++ ((if granted then [.left] else []) ++ a.read) := by
    intro hm
    rcases List.mem_append.1 hm with hm | hm
    · rcases h.mem_served hm with hm | hm <;> cases hm
    · rcases h.mem_behind hm with hm | hm <;> cases hm
  have hacts : a.acts granted = .asked granted :: a.listened ++ (a.polled ++
      (a.served ++ ((if granted then [.left] else []) ++ a.read))) := by
    simp [acts, front]
  rw [hacts] at he
  rcases h.polled with hp | ⟨hp, hw⟩
  · have hm : .polled ∈ before ++ .polled :: after := by simp
    rw [← he, hp] at hm
    rcases List.mem_append.1 hm with hm | hm
    · exact absurd hm hahead
    · exact absurd hm hbehind
  · rw [hp] at he
    obtain ⟨rfl, -, -⟩ := (List.append_cons_inj_of_notMem hahead hbehind).1 he
    exact hw

end Agenda.Regular

/-- In an iteration, the right to accept is asked for once, given back once if it was granted, and
used for one connection at most and in between only. The listening socket is watched in the poll
exactly if it was granted. -/
structure Loop.Gated (hooks : Hooks η) (l : Loop σ η) (r : Run σ η) : Prop where
  follows : Follows hooks l r
  asked : ∃ rest, r.2 = .asked (hooks.tryEnter l.hooks).1 :: rest ∧
    ∀ granted, .asked granted ∉ rest
  left : r.2.count .left = if (hooks.tryEnter l.hooks).1 then 1 else 0
  behind (before after : List Act) : r.2 = before ++ .left :: after →
    ∀ a ∈ after, a.isRoutine = true
  taken : r.2.countP Act.isAccepted ≤ if (hooks.tryEnter l.hooks).1 then 1 else 0
  watched (before after : List Act) : r.2 = before ++ .polled :: after →
    before.foldl Act.heed l.listening = (hooks.tryEnter l.hooks).1

theorem Loop.gated_pollOnce (hooks : Hooks η) (config : Config σ) (env : Surroundings)
    (l : Loop σ η) : Gated hooks l (l.pollOnce hooks config env).2 := by
  obtain ⟨a, ha, he⟩ := agenda_pollOnce hooks config env l
  refine ⟨.pollOnce env l, ⟨_, he, ha.asked_notMem⟩, ?_, fun before after hs ↦ ?_, ?_,
    fun before after hs ↦ ?_⟩
  · rw [he]
    exact ha.count_left
  · exact ha.behind_left (he.symm.trans hs)
  · rw [he]
    exact ha.countP_isAccepted_le
  · exact ha.watched (he.symm.trans hs)

theorem Agenda.Regular.follow {a : Agenda} {granted listening : Bool}
    (h : a.Regular granted listening) (hooks : Hooks η) (state : η) :
    ∃ took : Bool, (a.acts granted).foldl hooks.follow state =
      let entered := (hooks.tryEnter state).2
      let served := if took then (hooks.nextId entered).2 else entered
      if granted then hooks.leave served else served := by
  have hquiet {acts : List Act} (ha : ∀ b ∈ acts, b.token?.isSome = true) (s : η) :
      acts.foldl hooks.follow s = s :=
    Loop.foldl_of_eq fun b hb ↦ (Loop.follows_of_token (ha b hb) hooks).1 s
  have hroutine {b : Act} (hb : b ∈ a.written ++ a.read) : b.token?.isSome = true :=
    Act.isSome_of_isRoutine (h.routine b hb)
  have hwritten := hquiet fun b hb ↦ hroutine (List.mem_append_left _ hb)
  have hread := hquiet fun b hb ↦ hroutine (List.mem_append_right _ hb)
  have hlistened (s : η) : a.listened.foldl hooks.follow s = s :=
    Loop.foldl_of_eq fun b hb ↦ by rw [h.listened b hb]; rfl
  have hpolled (s : η) : a.polled.foldl hooks.follow s = s := by
    rcases h.polled with hp | ⟨hp, -⟩ <;> rw [hp] <;> rfl
  have htaken : ∃ took : Bool, ∀ s, a.taken.foldl hooks.follow s =
      if took then (hooks.nextId s).2 else s := by
    rcases h.taken with ht | ⟨-, context, rest, ht, hrest⟩
    · exact ⟨false, fun s ↦ by rw [ht]; rfl⟩
    · exact ⟨true, fun s ↦ by rw [ht, List.foldl_cons, hquiet hrest]; rfl⟩
  obtain ⟨took, htook⟩ := htaken
  refine ⟨took, ?_⟩
  simp only [acts, front, served, List.cons_append, List.foldl_cons, List.foldl_append, hlistened,
    hpolled, hwritten, hread, htook, Hooks.follow]
  cases granted <;> rfl

namespace Loop

variable {hooks : Hooks η} {config : Config σ}

theorem hooks_pollOnce (hooks : Hooks η) (config : Config σ) (env : Surroundings)
    (l : Loop σ η) :
    ∃ took : Bool, (l.pollOnce hooks config env).2.1.hooks =
      let entered := (hooks.tryEnter l.hooks).2
      let served := if took then (hooks.nextId entered).2 else entered
      if (hooks.tryEnter l.hooks).1 then hooks.leave served else served := by
  obtain ⟨a, ha, he⟩ := agenda_pollOnce hooks config env l
  rw [(Follows.pollOnce env l).hooks, he]
  exact ha.follow hooks l.hooks

/-- The states of a loop through polls and ticks, with all it did to get there. -/
inductive Served (hooks : Hooks η) (config : Config σ) (l : Loop σ η) :
    List Act → Loop σ η → Prop
  | start : Served hooks config l [] l
  | polled {acts : List Act} {m : Loop σ η} (env : Surroundings) : Served hooks config l acts m →
      Served hooks config l (acts ++ (m.pollOnce hooks config env).2.2)
        (m.pollOnce hooks config env).2.1
  | ticked {acts : List Act} {m : Loop σ η} : Served hooks config l acts m →
      Served hooks config l (acts ++ (m.tick hooks).2) (m.tick hooks).1

variable {l m : Loop σ η} {acts : List Act}

/-- Every run ends behind polls and ticks, whether one of the polls failed or not. -/
theorem Served.run (h : Served hooks config l acts m) (envs : List Surroundings) :
    ∃ more n, Served hooks config l (acts ++ more) n ∧
      (m.run hooks config envs).2 = ((n.finish hooks).1, more ++ (n.finish hooks).2) := by
  induction envs generalizing acts m with
  | nil => exact ⟨[], m, by rwa [List.append_nil], rfl⟩
  | cons env envs ih =>
    have hpolled := h.polled env
    rw [Loop.run]
    generalize m.pollOnce hooks config env = result at hpolled
    obtain ⟨result, polled⟩ := result
    cases result with
    | error e => exact ⟨polled.2, polled.1, hpolled, rfl⟩
    | ok n =>
      obtain ⟨more, n, hn, hrun⟩ := ih hpolled.ticked
      refine ⟨polled.2 ++ (polled.1.tick hooks).2 ++ more, n, ?_, ?_⟩
      · rwa [← List.append_assoc, ← List.append_assoc]
      · refine (congrArg (fun r : Run σ η ↦
          (r.1, polled.2 ++ (polled.1.tick hooks).2 ++ r.2)) hrun).trans ?_
        rw [List.append_assoc _ more]

theorem Served.shutDown_notMem (h : Served hooks config l acts m) (count : Nat) :
    .shutDown count ∉ acts := by
  induction h with
  | start => exact nofun
  | polled env _ ih =>
    obtain ⟨a, ha, he⟩ := agenda_pollOnce hooks config env _
    rw [he]
    intro hm
    rcases List.mem_append.1 hm with hm | hm
    · exact ih hm
    · exact ha.shutDown_notMem count hm
  | ticked _ ih =>
    intro hm
    rcases List.mem_append.1 hm with hm | hm
    · exact ih hm
    · cases List.mem_singleton.1 hm

/-- The end of a run is one call of the hooks, and the connections are closed behind it. -/
theorem finish_eq (config : Config σ) (hooks : Hooks η) (l : Loop σ η) :
    (l.finish hooks).1.hooks = hooks.shutdown l.openCount l.hooks ∧
      ∃ closing, (l.finish hooks).2 = .shutDown l.openCount :: closing ∧
        ∀ a ∈ closing, a.isRoutine = true := by
  obtain ⟨hhooks, closing, he, hclosing⟩ := routine_foldl config .close
    (l.connections.map (·.1))
    (({ l with hooks := hooks.shutdown l.openCount l.hooks }, []) : Run σ η)
  exact ⟨hhooks, closing, congrArg (fun acts ↦ Act.shutDown l.openCount :: acts) he, hclosing⟩

end Loop

end Prefork.Server
