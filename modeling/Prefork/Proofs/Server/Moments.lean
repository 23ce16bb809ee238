import Prefork.Proofs.Server.Watching

namespace Prefork.Server

open Loop (Run)

variable {σ η : Type}

inductive Touch where
  | send (token : Token) (outcome : WriteOutcome)
  | react (readiness : Readiness)
  | close (token : Token)

namespace Touch

def token : Touch → Token
  | send t _ | close t => t
  | react r => r.token

def run (config : Config σ) : Touch → Loop σ η → Run σ η
  | send t outcome => (·.send config t outcome)
  | react r => Loop.react config r
  | close t => (·.close t)

def act (config : Config σ) : Touch → Connection σ → View σ
  | send t outcome => (·.send config t outcome)
  | react r => (·.react config r)
  | close t => fun _ ↦ Connection.close t

theorem concerns (config : Config σ) (x : Touch) :
    Loop.Concerns (η := η) x.token (x.run config) (x.act config) := by
  cases x with
  | send t outcome => exact .send config t outcome
  | react r => exact Loop.concerns_react config r
  | close t => exact .close t

theorem tokens_run (config : Config σ) (x : Touch) (l : Loop σ η) :
    (x.run config l).1.tokens.Sublist l.tokens := by
  cases x with
  | send t outcome => exact Loop.tokens_send config l t outcome
  | react r => exact Loop.tokens_react config l r
  | close t => exact Loop.tokens_close l t

end Touch

inductive Step (η : Type) where
  /-- One that leaves the connections alone. -/
  | aside (state : η) (listening : Bool) (acts : List Act) (quiet : ∀ a ∈ acts, a.token? = none)
  | accept (env : Surroundings)
  | touch (x : Touch)

def Step.run (hooks : Hooks η) (config : Config σ) (l : Loop σ η) : Step η → Run σ η
  | aside state listening acts _ => ({ l with hooks := state, listening }, acts)
  | accept env => l.accept hooks config env
  | touch x => x.run config l

/-- Steps one after another, each with the loop before it. -/
abbrev History (σ η : Type) := List (Loop σ η × Step η)

def History.acts (hooks : Hooks η) (config : Config σ) (h : History σ η) : List Act :=
  h.flatMap fun e ↦ (e.2.run hooks config e.1).2

inductive Passes (hooks : Hooks η) (config : Config σ) (l : Loop σ η) :
    History σ η → Loop σ η → Prop
  | refl : Passes hooks config l [] l
  | step {h : History σ η} {m : Loop σ η} (s : Step η) :
      Passes hooks config l h m → Passes hooks config l (h ++ [(m, s)]) (s.run hooks config m).1

/-- A state of a loop that began without connections, between any two of the steps that its run
is made of (`Loop.Stepwise.run`). -/
def Moment (hooks : Hooks η) (config : Config σ) (h : History σ η) (l : Loop σ η) : Prop :=
  ∃ state, Passes hooks config { hooks := state } h l

section Runs

variable {hooks : Hooks η} {config : Config σ} {l m n : Loop σ η} {h h' : History σ η}

theorem History.acts_append (h h' : History σ η) :
    (h ++ h').acts hooks config = h.acts hooks config ++ h'.acts hooks config :=
  List.flatMap_append

theorem History.acts_step (h : History σ η) (m : Loop σ η) (s : Step η) :
    (h ++ [(m, s)]).acts hooks config = h.acts hooks config ++ (s.run hooks config m).2 := by
  rw [acts_append]
  exact congrArg _ (List.flatMap_singleton ..)

theorem Passes.trans (h₁ : Passes hooks config l h m) (h₂ : Passes hooks config m h' n) :
    Passes hooks config l (h ++ h') n := by
  induction h₂ with
  | refl => rwa [List.append_nil]
  | step s _ ih =>
    rw [← List.append_assoc]
    exact ih.step s

theorem Moment.passes (h₁ : Moment hooks config h l) (h₂ : Passes hooks config l h' m) :
    Moment hooks config (h ++ h') m :=
  h₁.imp fun _ h ↦ h.trans h₂

def Loop.Stepwise (hooks : Hooks η) (config : Config σ) (l : Loop σ η) (r : Run σ η) : Prop :=
  ∃ h, Passes hooks config l h r.1 ∧ h.acts hooks config = r.2

namespace Loop.Stepwise

theorem nil (l : Loop σ η) : Stepwise hooks config l (l, []) := ⟨[], .refl, rfl⟩

theorem step (l : Loop σ η) (s : Step η) : Stepwise hooks config l (s.run hooks config l) :=
  ⟨_, Passes.refl.step s, List.flatMap_singleton ..⟩

theorem trans {r r' : Run σ η} (h : Stepwise hooks config l r)
    (h' : Stepwise hooks config r.1 r') : Stepwise hooks config l (r'.1, r.2 ++ r'.2) := by
  obtain ⟨first, hp, ha⟩ := h
  obtain ⟨second, hp', ha'⟩ := h'
  exact ⟨first ++ second, hp.trans hp', by rw [History.acts_append, ha, ha']⟩

theorem andThen {r : Run σ η} {step : Loop σ η → Run σ η} (h : Stepwise hooks config l r)
    (hs : ∀ m, Stepwise hooks config m (step m)) : Stepwise hooks config l (r.andThen step) :=
  h.trans (hs r.1)

theorem foldl {α : Type} {r : Run σ η} {step : α → Loop σ η → Run σ η}
    (h : Stepwise hooks config l r) (hs : ∀ a m, Stepwise hooks config m (step a m))
    (xs : List α) : Stepwise hooks config l (xs.foldl (fun r a ↦ r.andThen (step a)) r) := by
  induction xs generalizing r with
  | nil => exact h
  | cons x xs ih => exact ih (h.andThen (hs x))

theorem leaveIf (granted : Bool) (l : Loop σ η) :
    Stepwise hooks config l (l.leaveIf hooks granted) := by
  cases granted with
  | false => exact nil l
  | true => exact step l (.aside (hooks.leave l.hooks) l.listening [.left] (by simp [Act.token?]))

theorem listen {granted : Bool} {failure : Option Host.IoError} {r : Run σ η}
    (h : l.listen granted failure = .ok r) : Stepwise hooks config l r := by
  simp only [Loop.listen] at h
  split at h
  · cases h
    exact nil l
  · cases failure with
    | some e => cases h
    | none =>
      cases h
      exact step l (.aside l.hooks granted [.listening granted] (by simp [Act.token?]))

theorem foldl_send (ready : List Readiness) (l : Loop σ η) :
    Stepwise hooks config l
      (ready.foldl (fun run r ↦ Run.andThen run (·.send config r.token r.pending)) (l, [])) :=
  foldl (nil l) (fun r m ↦ step m (.touch (.send r.token r.pending))) ready

theorem dispatch (env : Surroundings) (granted : Bool) (events : List Event) (l : Loop σ η) :
    Stepwise hooks config l (l.dispatch hooks config env granted events) := by
  rw [dispatch_eq]
  refine foldl (andThen ?_ (leaveIf granted)) (fun r m ↦ step m (.touch (.react r))) _
  split
  · exact (foldl_send _ l).andThen fun m ↦ step m (.accept env)
  · exact foldl_send _ l

theorem pollOnce (env : Surroundings) (l : Loop σ η) :
    Stepwise hooks config l (l.pollOnce hooks config env).2 := by
  rw [Loop.pollOnce]
  generalize hooks.tryEnter l.hooks = entered
  obtain ⟨granted, state⟩ := entered
  dsimp only
  have hasked : Stepwise hooks config l ({ l with hooks := state }, [.asked granted]) :=
    step l (.aside state l.listening [.asked granted] (by simp [Act.token?]))
  split
  · exact hasked.andThen (leaveIf granted)
  · next l' acts hl =>
    have hpolled : Stepwise hooks config l (l', [.asked granted] ++ acts ++ [.polled]) :=
      (hasked.trans (listen hl)).trans
        (step l' (.aside l'.hooks l'.listening [.polled] (by simp [Act.token?])))
    split
    · exact hpolled.andThen (leaveIf granted)
    · exact hpolled.andThen (leaveIf granted)
    · split
      · exact hpolled.andThen (leaveIf granted)
      · exact hpolled.andThen (dispatch env granted _)

theorem tick (l : Loop σ η) : Stepwise hooks config l (l.tick hooks) :=
  step l (.aside (hooks.tick l.openCount l.hooks) l.listening [.ticked l.openCount]
    (by simp [Act.token?]))

theorem finish (l : Loop σ η) : Stepwise hooks config l (l.finish hooks) := by
  refine andThen (step l (.aside (hooks.shutdown l.openCount l.hooks) l.listening
    [.shutDown l.openCount] (by simp [Act.token?]))) fun m ↦ ?_
  exact foldl (nil m) (fun t m ↦ step m (.touch (.close t))) _

/-- A whole run is made of steps, and so is every front of it. -/
theorem run (l : Loop σ η) (envs : List Surroundings) :
    Stepwise hooks config l (l.run hooks config envs).2 := by
  induction envs generalizing l with
  | nil => exact finish l
  | cons env envs ih =>
    have hp : Stepwise hooks config l _ := pollOnce env l
    rw [Loop.run]
    split
    · next e polled h =>
      rw [h] at hp
      exact hp.andThen finish
    · next n polled h =>
      rw [h] at hp
      exact (hp.andThen tick).trans (ih _)

end Loop.Stepwise

end Runs

def Connection.enter (config : Config σ) (t : Token) (now : Time.Millis) (registered : Bool)
    (context : Context) (s : σ) : View σ :=
  let reply := config.protocol.opened now s
  let c := ({ context, state := s } : Connection σ).apply reply
  (if reply.stays then c.rearm t registered else close t).behind [.opened t reply.stays]

namespace Loop

variable (hooks : Hooks η) (config : Config σ) (env : Surroundings) {l : Loop σ η} {t : Token}

def admits? (l : Loop σ η) : Option (Context × σ) :=
  if env.pending then
    let (id, state) := hooks.nextId l.hooks
    let context : Context := { id, worker := hooks.worker state }
    (config.build context).toOption.map (context, ·)
  else none

theorem build_admits? {e : Context × σ} (h : l.admits? hooks config env = some e) :
    config.build e.1 = .ok e.2 := by
  rw [admits?] at h
  split at h
  · obtain ⟨s, hs, rfl⟩ := Option.map_eq_some_iff.1 h
    cases hb : config.build _ with
    | error e =>
      rw [hb] at hs
      cases hs
    | ok s =>
      rw [hb] at hs
      cases hs
      rfl
  · cases h

theorem view_accept_self (h : l.find? l.nextToken = none) :
    view l.nextToken (l.accept hooks config env) = match l.admits? hooks config env with
      | none => (none, [])
      | some (context, s) =>
        Connection.enter config l.nextToken env.now env.registered context s := by
  have hnone {l' : Loop σ η} {acts : List Act} (hl : l'.connections = l.connections) :
      (view l.nextToken (l', acts)).1 = none := by
    rw [view, find?, hl]
    exact h
  simp only [accept, admits?]
  cases env.pending with
  | false => exact congrArg (·, []) h
  | true =>
    simp only [Bool.not_true, Bool.false_eq_true, if_false, if_true]
    cases config.build _ with
    | error e => exact congrArg (·, []) h
    | ok s =>
      simp only [Except.toOption, Option.map_some, Connection.enter]
      cases (config.protocol.opened env.now s).stays with
      | false =>
        refine Prod.ext (hnone rfl) ?_
        simp [view, Act.token?, Connection.close, View.behind]
      | true =>
        cases env.registered with
        | false =>
          refine Prod.ext (hnone rfl) ?_
          simp [view, Act.token?, Connection.close, Connection.rearm, View.behind]
        | true =>
          refine Prod.ext ?_ ?_
          · exact (find?_append_new rfl h).trans (if_pos rfl)
          · simp [view, Act.token?, Connection.rearm, View.behind]

theorem view_accept_of_ne (h : t ≠ l.nextToken) :
    view t (l.accept hooks config env) = (l.find? t, []) := by
  have hne : ¬ l.nextToken = t := Ne.symm h
  simp only [accept]
  split
  · rfl
  · split
    · rfl
    · split <;> simp [view, find?, Act.token?, hne]

theorem nextToken_accept (l : Loop σ η) : (l.accept hooks config env).1.nextToken =
    if (l.admits? hooks config env).isSome then l.nextToken + 1 else l.nextToken := by
  simp only [accept, admits?]
  cases env.pending with
  | false => rfl
  | true =>
    simp only [Bool.not_true, Bool.false_eq_true, if_false, if_true]
    cases config.build _ with
    | error e => rfl
    | ok s =>
      simp only [Except.toOption, Option.map_some, Option.isSome_some, if_true]
      split <;> rfl

end Loop

/-- What a step means to one connection: it enters the table, or it is touched as it stands. -/
inductive Part (σ : Type) where
  | enters (env : Surroundings) (context : Context) (state : σ)
  | touched (x : Touch) (c : Connection σ)

def Part.view (config : Config σ) (t : Token) : Part σ → View σ
  | enters env context s => Connection.enter config t env.now env.registered context s
  | touched x c => x.act config c

def Step.part? (hooks : Hooks η) (config : Config σ) (t : Token) (l : Loop σ η) :
    Step η → Option (Part σ)
  | aside .. => none
  | accept env =>
    if t = l.nextToken then (l.admits? hooks config env).map fun e ↦ .enters env e.1 e.2 else none
  | touch x => if x.token = t then (l.find? t).map (.touched x) else none

def History.parts (hooks : Hooks η) (config : Config σ) (t : Token) (h : History σ η) :
    List (Part σ) :=
  h.filterMap fun e ↦ e.2.part? hooks config t e.1

def handlerOf (parts : List (Part σ)) : Option σ :=
  match parts.head? with
  | some (.enters _ _ s) => some s
  | _ => none

/-- What became of the connection with token `t` through its parts of a history. -/
inductive Life (config : Config σ) (t : Token) : List (Part σ) → View σ → Prop
  | new : Life config t [] (none, [])
  | enters {context : Context} {s : σ} (env : Surroundings) : config.build context = .ok s →
      Life config t [.enters env context s]
        (Connection.enter config t env.now env.registered context s)
  | touched {parts : List (Part σ)} {c : Connection σ} {acts : List Act} {x : Touch} :
      x.token = t → Life config t parts (some c, acts) →
      Life config t (parts ++ [.touched x c]) ((x.act config c).behind acts)

theorem Life.eq_of_nil {config : Config σ} {t : Token} {v : View σ} (h : Life config t [] v) :
    v = (none, []) := by
  generalize hp : ([] : List (Part σ)) = parts at h
  cases h with
  | new => rfl
  | enters => cases hp
  | touched => exact absurd hp.symm (List.concat_ne_nil _ _)

theorem Life.ne_nil {config : Config σ} {t : Token} {parts : List (Part σ)} {v : View σ}
    (h : Life config t parts v) {c : Connection σ} (hc : v.1 = some c) : parts ≠ [] := by
  rintro rfl
  cases h.eq_of_nil
  cases hc

theorem Life.build_handlerOf {config : Config σ} {t : Token} {parts : List (Part σ)} {v : View σ}
    (h : Life config t parts v) {s : σ} (hs : s ∈ handlerOf parts) :
    ∃ context, config.build context = .ok s := by
  induction h with
  | new => cases hs
  | @enters context s env hb =>
    cases hs
    exact ⟨context, hb⟩
  | @touched parts c acts x ht h ih =>
    obtain ⟨part, rest, rfl⟩ := List.exists_cons_of_ne_nil (h.ne_nil rfl)
    exact ih hs

section Lives

variable {hooks : Hooks η} {config : Config σ} {l m : Loop σ η} {h : History σ η} {t : Token}

theorem Loop.Ordered.step (ho : l.Ordered) (s : Step η) : (s.run hooks config l).1.Ordered := by
  cases s with
  | aside state listening acts quiet => exact ⟨ho.increasing, ho.bounded⟩
  | accept env => exact ho.accept config hooks env
  | touch x => exact ho.of_sublist (x.tokens_run config l) (x.concerns config l).nextToken

theorem Step.nextToken_le (s : Step η) : l.nextToken ≤ (s.run hooks config l).1.nextToken := by
  cases s with
  | aside state listening acts quiet => exact Nat.le_refl _
  | accept env =>
    rw [run, Loop.nextToken_accept]
    split
    · exact Nat.le_succ _
    · exact Nat.le_refl _
  | touch x => exact Nat.le_of_eq (x.concerns config l).nextToken.symm

/-- A step shows of a connection what its part of the step says, and nothing if it has none. -/
theorem Step.view_run (ho : l.Ordered) (s : Step η) (t : Token) :
    Loop.view t (s.run hooks config l) =
      ((s.part? hooks config t l).map (Part.view config t)).getD (l.find? t, []) := by
  cases s with
  | aside state listening acts quiet =>
    refine congrArg (l.find? t, ·) ?_
    exact List.filter_eq_nil_iff.2 fun a ha ↦ by simp [quiet a ha]
  | accept env =>
    rw [run, part?]
    split
    · next ht =>
      subst ht
      have hnone := ho.find?_of_le (Nat.le_refl _)
      rw [Loop.view_accept_self hooks config env hnone, hnone]
      cases l.admits? hooks config env <;> rfl
    · next ht => exact Loop.view_accept_of_ne hooks config env ht
  | touch x =>
    rw [run, part?]
    split
    · next ht =>
      subst ht
      rw [(x.concerns config l).own]
      cases l.find? x.token <;> rfl
    · next ht => exact (x.concerns config l).other (Ne.symm ht)

theorem Step.part?_enters {s : Step η} {env : Surroundings} {context : Context} {state : σ}
    (h : s.part? hooks config t l = some (.enters env context state)) :
    t = l.nextToken ∧ (s.run hooks config l).1.nextToken = t + 1 ∧
      config.build context = .ok state := by
  cases s with
  | aside state listening acts quiet => cases h
  | accept env' =>
    rw [part?] at h
    split at h
    · next ht =>
      obtain ⟨e, ha, he⟩ := Option.map_eq_some_iff.1 h
      cases he
      refine ⟨ht, ?_, Loop.build_admits? hooks config _ ha⟩
      rw [run, Loop.nextToken_accept, ha, ht]
      rfl
    · cases h
  | touch x =>
    rw [part?] at h
    split at h
    · obtain ⟨c, -, hc⟩ := Option.map_eq_some_iff.1 h
      cases hc
    · cases h

theorem Step.part?_touched {s : Step η} {x : Touch} {c : Connection σ}
    (h : s.part? hooks config t l = some (.touched x c)) :
    s = .touch x ∧ x.token = t ∧ l.find? t = some c := by
  cases s with
  | aside state listening acts quiet => cases h
  | accept env =>
    rw [part?] at h
    split at h
    · obtain ⟨e, -, he⟩ := Option.map_eq_some_iff.1 h
      cases he
    · cases h
  | touch y =>
    rw [part?] at h
    split at h
    · next ht =>
      obtain ⟨d, hd, he⟩ := Option.map_eq_some_iff.1 h
      cases he
      exact ⟨rfl, ht, hd⟩
    · cases h

theorem History.parts_step (h : History σ η) (m : Loop σ η) (s : Step η) :
    (h ++ [(m, s)]).parts hooks config t =
      h.parts hooks config t ++ (s.part? hooks config t m).toList := by
  rw [parts, List.filterMap_append]
  cases hs : s.part? hooks config t m <;> simp [parts, hs]

theorem History.view_step (h : History σ η) (m : Loop σ η) (s : Step η) :
    Loop.view t ((s.run hooks config m).1, (h ++ [(m, s)]).acts hooks config) =
      (Loop.view t (s.run hooks config m)).behind (Loop.view t (m, h.acts hooks config)).2 := by
  rw [acts_step]
  exact Loop.view_andThen t (m, h.acts hooks config) fun _ ↦ s.run hooks config m

theorem History.view_step_none (ho : m.Ordered) {s : Step η}
    (hs : s.part? hooks config t m = none) (h : History σ η) :
    Loop.view t ((s.run hooks config m).1, (h ++ [(m, s)]).acts hooks config) =
      Loop.view t (m, h.acts hooks config) := by
  rw [view_step, s.view_run ho t, hs, Option.map_none, Option.getD_none]
  exact congrArg (m.find? t, ·) (List.append_nil _)

theorem History.view_step_some (ho : m.Ordered) {s : Step η} {part : Part σ}
    (hs : s.part? hooks config t m = some part) (h : History σ η) :
    Loop.view t ((s.run hooks config m).1, (h ++ [(m, s)]).acts hooks config) =
      (part.view config t).behind (Loop.view t (m, h.acts hooks config)).2 := by
  rw [view_step, s.view_run ho t, hs, Option.map_some, Option.getD_some]

theorem Passes.ordered (ho : l.Ordered) (hp : Passes hooks config l h m) : m.Ordered := by
  induction hp with
  | refl => exact ho
  | step s _ ih => exact ih.step s

theorem Moment.ordered (hm : Moment hooks config h l) : l.Ordered := by
  obtain ⟨state, hp⟩ := hm
  have hfresh : ({ hooks := state } : Loop σ η).Ordered := ⟨.nil, nofun⟩
  exact hp.ordered hfresh

/-- All that happens to a connection between two moments of a loop is a life of its own. -/
theorem Moment.life (hm : Moment hooks config h l) (t : Token) :
    Life config t (h.parts hooks config t) (Loop.view t (l, h.acts hooks config)) := by
  obtain ⟨state, hp⟩ := hm
  suffices h.parts hooks config t = [] ∧ Loop.view t (l, h.acts hooks config) = (none, []) ∨
      t < l.nextToken ∧ Life config t (h.parts hooks config t)
        (Loop.view t (l, h.acts hooks config)) by
    rcases this with ⟨hparts, hview⟩ | ⟨-, hlife⟩
    · rw [hparts, hview]
      exact .new
    · exact hlife
  induction hp with
  | refl => exact .inl ⟨rfl, rfl⟩
  | @step h m s hp ih =>
    have ho : m.Ordered := Moment.ordered ⟨state, hp⟩
    rw [History.parts_step]
    cases hpart : s.part? hooks config t m with
    | none =>
      rw [History.view_step_none ho hpart, Option.toList_none, List.append_nil]
      exact ih.imp_right fun ih ↦ ⟨Nat.lt_of_lt_of_le ih.1 s.nextToken_le, ih.2⟩
    | some part =>
      right
      rw [History.view_step_some ho hpart]
      cases part with
      | enters env context state =>
        obtain ⟨ht, hn, hb⟩ := Step.part?_enters hpart
        obtain ⟨hparts, hnone⟩ | ⟨hlt, -⟩ := ih
        · rw [hn, hparts, hnone]
          exact ⟨Nat.lt_succ_self t, .enters env hb⟩
        · exact absurd ht (Nat.ne_of_lt hlt)
      | touched x c =>
        obtain ⟨rfl, rfl, hc⟩ := Step.part?_touched hpart
        obtain ⟨-, hnone⟩ | ⟨hlt, hlife⟩ := ih
        · cases hc.symm.trans (congrArg Prod.fst hnone)
        · rw [Loop.view, hc] at hlife
          exact ⟨Nat.lt_of_lt_of_le hlt (Step.nextToken_le _), hlife.touched rfl⟩

end Lives

end Prefork.Server
