import Prefork.Server.EventLoop

namespace Prefork.Server

open Host (IoError)

variable {σ η : Type}

def Act.token? : Act → Option Token
  | .opened t _ | .received t _ _ | .drained t _ | .closed t | .sent t _ | .armed t _
  | .dropped t => some t
  | .asked _ | .left | .listening _ | .polled | .accepted _ | .ticked _ | .shutDown _ => none

/-- What a run shows of one connection: what became of it and the acts on it. -/
abbrev View (σ : Type) := Option (Connection σ) × List Act

namespace View

def behind (v : View σ) (acts : List Act) : View σ := (v.1, acts ++ v.2)

def andThen (v : View σ) (step : Connection σ → View σ) : View σ :=
  match v.1 with
  | none => v
  | some c => (step c).behind v.2

theorem behind_nil (v : View σ) : v.behind [] = v := rfl

theorem andThen_behind (v : View σ) (step : Connection σ → View σ) :
    (andThen (v.1, []) step).behind v.2 = v.andThen step := by
  obtain ⟨c, acts⟩ := v
  cases c with
  | none => simp only [andThen, behind, List.append_nil]
  | some c => simp only [andThen, behind, List.nil_append]

end View

namespace Connection

def close (t : Token) : View σ := (none, [.closed t, .dropped t])

def rearm (t : Token) (rearmed : Bool) (c : Connection σ) : View σ :=
  if rearmed then (some { c with armed := c.interest }, [.armed t c.interest]) else close t

def send (config : Config σ) (t : Token) (outcome : WriteOutcome) (c : Connection σ) : View σ :=
  let flushed := flush c.output outcome.results
  let sent : List Act := if flushed.sent.isEmpty then [] else [.sent t flushed.sent]
  let c := { c with output := flushed.pending }
  if flushed.error.isSome then (close t).behind sent
  else if !c.output.isEmpty then (c.rearm t outcome.rearmed).behind sent
  else if c.closing then (close t).behind sent
  else
    let r := config.protocol.drained c.state
    let acts := sent ++ [.drained t r.stays]
    if r.stays then ((c.apply r).rearm t outcome.rearmed).behind acts else (close t).behind acts

def answer (config : Config σ) (t : Token) (finished : Bool) (outcome : WriteOutcome)
    (c : Connection σ) : View σ :=
  if c.output.isEmpty then if finished then close t else c.rearm t outcome.rearmed
  else ({ c with closing := finished } : Connection σ).send config t outcome

def receive (config : Config σ) (r : Readiness) (c : Connection σ) : View σ :=
  if c.closing then (some c, [])
  else match readFrom (config.protocol.buffered c.state) config.maxBuffer [] r.reads with
    | .error _ => close r.token
    | .ok ⟨[], finished⟩ => c.answer config r.token finished r.reply
    | .ok ⟨data, finished⟩ =>
      let reply := config.protocol.received data c.state
      let acts : List Act := [.received r.token data reply.stays]
      if reply.stays then ((c.apply reply).answer config r.token finished r.reply).behind acts
      else (close r.token).behind acts

def react (config : Config σ) (r : Readiness) (c : Connection σ) : View σ :=
  if r.error then close r.token else if r.readable then c.receive config r else (some c, [])

end Connection

def View.turn (config : Config σ) (t : Token) (ready : List Readiness) (v : View σ) : View σ :=
  let mine := ready.filter (·.token == t)
  let written := (mine.filter fun r ↦ r.writable && !r.error).foldl
    (fun v r ↦ v.andThen (·.send config r.token r.pending)) v
  mine.foldl (fun v r ↦ v.andThen (·.react config r)) written

namespace Loop

def view (t : Token) (r : Run σ η) : View σ :=
  (r.1.find? t, r.2.filter (·.token? == some t))

variable {l : Loop σ η} {t u : Token}

theorem view_nil (t : Token) (l : Loop σ η) : view t (l, []) = (l.find? t, []) := rfl

theorem view_andThen (t : Token) (r : Run σ η) (step : Loop σ η → Run σ η) :
    view t (r.andThen step) = (view t (step r.1)).behind (view t r).2 := by
  simp only [view, Run.andThen, View.behind, List.filter_append]

theorem find?_put_self {c : Connection σ} (h : l.find? t = some c) (d : Connection σ) :
    (l.put t d).find? t = some d := by
  obtain ⟨e, he, -⟩ := Option.map_eq_some_iff.1 h
  have hp : ((·.1 == t) ∘ fun e : Token × Connection σ ↦ if e.1 == t then (t, d) else e) =
      (·.1 == t) := by
    funext e
    cases hb : e.1 == t <;> simp only [Function.comp, hb, if_true, Bool.false_eq_true, if_false,
      beq_self_eq_true]
  have ht : e.1 == t := by simpa using List.find?_some he
  rw [find?, put, List.find?_map, hp, he, Option.map_some, if_pos ht]
  rfl

theorem find?_put_of_ne (h : u ≠ t) (l : Loop σ η) (d : Connection σ) :
    (l.put t d).find? u = l.find? u := by
  have hp : ((·.1 == u) ∘ fun e : Token × Connection σ ↦ if e.1 == t then (t, d) else e) =
      (·.1 == u) := by
    funext e
    cases hb : e.1 == t with
    | true =>
      simp only [Function.comp, hb, if_true]
      rw [eq_of_beq hb]
    | false => simp only [Function.comp, hb, Bool.false_eq_true, if_false]
  rw [find?, find?, put, List.find?_map, hp]
  cases he : l.connections.find? (·.1 == u) with
  | none => rfl
  | some e =>
    have hu : e.1 == u := by simpa using List.find?_some he
    have ht : (e.1 == t) = false := by
      rw [eq_of_beq hu]
      exact beq_false_of_ne h
    rw [Option.map_some, ht]
    rfl

/-- A run from `l` that deals with one connection only, and shows `v` of that one. -/
structure Shows (l : Loop σ η) (t : Token) (r : Run σ η) (v : View σ) : Prop where
  own : view t r = v
  other {u : Token} : u ≠ t → view u r = (l.find? u, [])
  nextToken : r.1.nextToken = l.nextToken

/-- A step that deals with one connection only, and does to it what `act` says. -/
def Concerns (t : Token) (step : Loop σ η → Run σ η) (act : Connection σ → View σ) : Prop :=
  ∀ l, Shows l t (step l) (View.andThen (l.find? t, []) act)

namespace Shows

theorem refl (l : Loop σ η) (t : Token) : Shows l t (l, []) (l.find? t, []) :=
  ⟨rfl, fun _ ↦ rfl, rfl⟩

theorem of_none (h : l.find? t = none) (act : Connection σ → View σ) :
    Shows l t (l, []) (View.andThen (none, []) act) := by
  have hr := refl l t
  rwa [h] at hr

theorem put {l₁ l₂ : Loop σ η} {v : View σ} {acts done : List Act} {c : Connection σ}
    (h : Shows l t (l₁, done) v) (hc : v.1 = some c) (d : Connection σ)
    (hl : l₂.connections = (l₁.put t d).connections) (hn : l₂.nextToken = l₁.nextToken)
    (ha : ∀ a ∈ acts, a.token? = some t) : Shows l t (l₂, acts) (some d, acts) where
  own := by
    have h₁ : l₁.find? t = some c := (congrArg Prod.fst h.own).trans hc
    have h₂ : l₂.find? t = (l₁.put t d).find? t := by rw [find?, find?, hl]
    rw [view, h₂, find?_put_self h₁, List.filter_eq_self.2 fun a hm ↦ by simp [ha a hm]]
  other {u} hu := by
    have h₁ : l₁.find? u = l.find? u := congrArg Prod.fst (h.other hu)
    have h₂ : l₂.find? u = (l₁.put t d).find? u := by rw [find?, find?, hl]
    rw [view, h₂, find?_put_of_ne hu, h₁,
      List.filter_eq_nil_iff.2 fun a hm ↦ by simp [ha a hm, hu.symm]]
  nextToken := hn.trans h.nextToken

theorem andThen {r : Run σ η} {v : View σ} {step : Loop σ η → Run σ η}
    {act : Connection σ → View σ} (h : Shows l t r v) (hs : Concerns t step act) :
    Shows l t (r.andThen step) (v.andThen act) where
  own := by
    rw [view_andThen, (hs r.1).own, ← h.own]
    exact View.andThen_behind (view t r) act
  other {u} hu := by
    have hr := h.other hu
    have hf : r.1.find? u = l.find? u := congrArg Prod.fst hr
    rw [view_andThen, (hs r.1).other hu, hr, hf]
    rfl
  nextToken := ((hs r.1).nextToken).trans h.nextToken

end Shows

namespace Concerns

theorem close (t : Token) : Concerns (σ := σ) (η := η) t (·.close t) fun _ ↦ Connection.close t := by
  intro l
  show Shows l t (l.close t) _
  rw [Loop.close]
  cases h : l.find? t with
  | none => exact .of_none h _
  | some c =>
    have hown : (l.connections.filter (·.1 != t)).find? (·.1 == t) = none := by
      rw [List.find?_eq_none]
      intro e he
      simpa using (List.mem_filter.1 he).2
    refine ⟨?_, fun {u} hu ↦ ?_, rfl⟩
    · simp [view, find?, hown, View.andThen, View.behind, Connection.close, Act.token?]
    · have hother : (l.connections.filter (·.1 != t)).find? (·.1 == u) =
          l.connections.find? (·.1 == u) := by
        rw [List.find?_filter]
        congr 1
        funext e
        cases he : e.1 == u with
        | true => simp [eq_of_beq he, hu]
        | false => simp
      simp [view, find?, hother, Act.token?, hu.symm]

theorem rearm (t : Token) (rearmed : Bool) :
    Concerns (σ := σ) (η := η) t (·.rearm t rearmed) (·.rearm t rearmed) := by
  intro l
  show Shows l t (l.rearm t rearmed) _
  rw [Loop.rearm]
  cases h : l.find? t with
  | none => exact .of_none h _
  | some c =>
    cases rearmed with
    | true => exact (Shows.refl l t).put h _ rfl rfl (by simp [Act.token?])
    | false =>
      have hc := close t l
      rwa [h] at hc

variable (config : Config σ)

theorem send (t : Token) (outcome : WriteOutcome) :
    Concerns (η := η) t (·.send config t outcome) (·.send config t outcome) := by
  intro l
  show Shows l t (l.send config t outcome) _
  rw [Loop.send]
  cases h : l.find? t with
  | none => exact .of_none h _
  | some c =>
    simp only [View.andThen, View.behind_nil, Connection.send]
    generalize Connection.flush c.output outcome.results = flushed
    generalize hs : (if flushed.sent.isEmpty then [] else [Act.sent t flushed.sent]) = sent
    have hsent : ∀ a ∈ sent, a.token? = some t := by
      rw [← hs]
      split <;> simp [Act.token?]
    have hput (s : Stats) : Shows l t
        ({ l.put t { c with output := flushed.pending } with stats := s }, sent)
        (some { c with output := flushed.pending }, sent) :=
      (Shows.refl l t).put h _ rfl rfl hsent
    split
    · exact (hput l.stats).andThen (close t)
    · split
      · exact (hput _).andThen (rearm t outcome.rearmed)
      · split
        · exact (hput _).andThen (close t)
        · have hdrained (stays : Bool) : ∀ a ∈ sent ++ [Act.drained t stays], a.token? = some t := by
            intro a ha
            rcases List.mem_append.1 ha with ha | ha
            · exact hsent a ha
            · rw [List.mem_singleton.1 ha, Act.token?]
          have hp := hput (l.stats.wrote flushed.sent.length)
          split
          · exact (hp.put rfl _ rfl rfl (hdrained _)).andThen (rearm t outcome.rearmed)
          · exact (hp.put rfl _ rfl rfl (hdrained _)).andThen (close t)

theorem answer (t : Token) (finished : Bool) (outcome : WriteOutcome) :
    Concerns (η := η) t (·.answer config t finished outcome)
      (·.answer config t finished outcome) := by
  intro l
  show Shows l t (l.answer config t finished outcome) _
  rw [Loop.answer]
  cases h : l.find? t with
  | none => exact .of_none h _
  | some c =>
    simp only [View.andThen, View.behind_nil, Connection.answer]
    split
    · cases finished with
      | true =>
        have hc := close t l
        rwa [h] at hc
      | false =>
        have hr := rearm t outcome.rearmed l
        rwa [h] at hr
    · have hp : Shows l t (l.put t { c with closing := finished }, [])
          (some { c with closing := finished }, []) :=
        (Shows.refl l t).put h _ rfl rfl (by simp)
      exact hp.andThen (send config t outcome)

theorem receive (r : Readiness) :
    Concerns (η := η) r.token (·.receive config r) (·.receive config r) := by
  intro l
  show Shows l r.token (l.receive config r) _
  rw [Loop.receive]
  cases h : l.find? r.token with
  | none => exact .of_none h _
  | some c =>
    simp only [View.andThen, View.behind_nil, Connection.receive]
    have hc (s : Stats) : Shows l r.token ({ l with stats := s }.close r.token)
        (Connection.close r.token) := by
      have hs : Shows l r.token ({ l with stats := s }, []) (some c, []) :=
        ⟨congrArg (·, []) h, fun _ ↦ rfl, rfl⟩
      exact hs.andThen (close r.token)
    split
    · have hr := Shows.refl l r.token
      rwa [h] at hr
    · cases Connection.readFrom (config.protocol.buffered c.state) config.maxBuffer [] r.reads with
      | error e =>
        cases e with
        | io e => exact hc l.stats
        | bufferFull size max => exact hc _
      | ok received =>
        obtain ⟨data, finished⟩ := received
        have hanswer := answer (η := η) config r.token finished r.reply
        cases data with
        | nil =>
          have ha := hanswer l
          rwa [h] at ha
        | cons x data =>
          have hp (d : Connection σ) (s : Stats) (stays : Bool) :
              Shows l r.token
                ({ l.put r.token d with stats := s }, [.received r.token (x :: data) stays])
                (some d, [.received r.token (x :: data) stays]) :=
            (Shows.refl l r.token).put h d rfl rfl (by simp [Act.token?])
          dsimp only
          split
          · exact (hp _ _ _).andThen hanswer
          · exact (hp _ _ _).andThen (close r.token)

theorem view_self {step : Loop σ η → Run σ η} {act : Connection σ → View σ}
    (h : Concerns t step act) (r : Run σ η) : view t (r.andThen step) = (view t r).andThen act := by
  rw [view_andThen, (h r.1).own]
  exact View.andThen_behind (view t r) act

theorem view_of_ne {step : Loop σ η → Run σ η} {act : Connection σ → View σ}
    (h : Concerns t step act) (hu : u ≠ t) (r : Run σ η) :
    view u (r.andThen step) = view u r := by
  rw [view_andThen, (h r.1).other hu, View.behind, List.append_nil]
  rfl

theorem view_foldl {step : Readiness → Loop σ η → Run σ η} {act : Readiness → Connection σ → View σ}
    (h : ∀ r, Concerns r.token (step r) (act r)) (t : Token) (rs : List Readiness)
    (run : Run σ η) : view t (rs.foldl (fun run r ↦ run.andThen (step r)) run) =
      (rs.filter (·.token == t)).foldl (fun v r ↦ v.andThen (act r)) (view t run) := by
  induction rs generalizing run with
  | nil => rfl
  | cons r rs ih =>
    rw [List.foldl_cons, ih]
    by_cases ht : r.token = t
    · subst ht
      rw [List.filter_cons_of_pos (by simp), List.foldl_cons, (h r).view_self]
    · rw [List.filter_cons_of_neg (by simpa using ht), (h r).view_of_ne (Ne.symm ht)]

theorem nextToken_foldl {step : Readiness → Loop σ η → Run σ η}
    {act : Readiness → Connection σ → View σ} (h : ∀ r, Concerns r.token (step r) (act r))
    (rs : List Readiness) (run : Run σ η) :
    (rs.foldl (fun run r ↦ run.andThen (step r)) run).1.nextToken = run.1.nextToken := by
  induction rs generalizing run with
  | nil => rfl
  | cons r rs ih => exact (ih _).trans (h r run.1).nextToken

end Concerns

def react (config : Config σ) (r : Readiness) (l : Loop σ η) : Run σ η :=
  if r.error then l.close r.token else if r.readable then l.receive config r else (l, [])

theorem concerns_react (config : Config σ) (r : Readiness) :
    Concerns (η := η) r.token (react config r) (Connection.react config r) := by
  intro l
  have hs := Shows.refl l r.token
  have hc := Concerns.close r.token l
  have hr := Concerns.receive config r l
  cases h : l.find? r.token with
  | none =>
    rw [h] at hs hc hr
    rw [react]
    split
    · exact hc
    · split
      · exact hr
      · exact hs
  | some c =>
    rw [h] at hs hc hr
    simp only [View.andThen, View.behind_nil, react, Connection.react] at hc hr ⊢
    split
    · exact hc
    · split
      · exact hr
      · exact hs

variable (hooks : Hooks η) (config : Config σ) (env : Surroundings) (granted : Bool)

theorem dispatch_eq (events : List Event) (l : Loop σ η) :
    dispatch hooks config env granted events l =
      let written := ((sockets events).filter fun r ↦ r.writable && !r.error).foldl
        (fun run r ↦ Run.andThen run (·.send config r.token r.pending)) (l, [])
      let entered :=
        if granted && listenerReady events then Run.andThen written (·.accept hooks config env)
        else written
      (sockets events).foldl (fun run r ↦ Run.andThen run (react config r))
        (Run.andThen entered (·.leaveIf hooks granted)) := by
  have hr (run : Run σ η) (r : Readiness) : Run.andThen run (react config r) =
      if r.error then Run.andThen run (·.close r.token)
      else if r.readable then Run.andThen run (·.receive config r)
      else run := by
    simp only [react, Run.andThen]
    split
    · rfl
    · split
      · rfl
      · simp only [List.append_nil]
  simp only [dispatch, hr]

theorem view_accept (h : t < l.nextToken) :
    view t (l.accept hooks config env) = (l.find? t, []) ∧
      l.nextToken ≤ (l.accept hooks config env).1.nextToken := by
  have hne : l.nextToken ≠ t := Nat.ne_of_gt h
  simp only [accept]
  split
  · exact ⟨rfl, Nat.le_refl _⟩
  · split
    · exact ⟨rfl, Nat.le_refl _⟩
    · split
      · exact ⟨by simp [view, find?, Act.token?, hne], Nat.le_succ _⟩
      · exact ⟨by simp [view, find?, Act.token?, hne], Nat.le_succ _⟩

theorem view_leaveIf (t : Token) (l : Loop σ η) :
    view t (l.leaveIf hooks granted) = (l.find? t, []) ∧
      (l.leaveIf hooks granted).1.nextToken = l.nextToken := by
  cases granted <;> exact ⟨rfl, rfl⟩

theorem view_foldl_send (ready : List Readiness) (t : Token) (l : Loop σ η) :
    view t ((ready.filter fun r ↦ r.writable && !r.error).foldl
        (fun run r ↦ Run.andThen run (·.send config r.token r.pending)) (l, [])) =
      ((ready.filter (·.token == t)).filter fun r ↦ r.writable && !r.error).foldl
        (fun v r ↦ View.andThen v (·.send config r.token r.pending)) (l.find? t, []) := by
  rw [Concerns.view_foldl fun r ↦ Concerns.send config r.token r.pending, view_nil]
  simp only [List.filter_filter, Bool.and_comm]

theorem view_dispatch (events : List Event) (h : t < l.nextToken) :
    view t (l.dispatch hooks config env granted events) =
        View.turn config t (sockets events) (l.find? t, []) ∧
      l.nextToken ≤ (l.dispatch hooks config env granted events).1.nextToken := by
  rw [dispatch_eq]
  dsimp only
  generalize hw : ((sockets events).filter fun r ↦ r.writable && !r.error).foldl
    (fun run r ↦ Run.andThen run (·.send config r.token r.pending)) (l, []) = written
  have hwritten : view t written =
      (((sockets events).filter (·.token == t)).filter fun r ↦ r.writable && !r.error).foldl
        (fun v r ↦ View.andThen v (·.send config r.token r.pending)) (l.find? t, []) := by
    rw [← hw]
    exact view_foldl_send config _ t l
  have hnext : written.1.nextToken = l.nextToken := by
    rw [← hw]
    exact Concerns.nextToken_foldl (fun r ↦ Concerns.send config r.token r.pending) _ _
  generalize he : (if granted && listenerReady events then
    Run.andThen written (·.accept hooks config env) else written) = entered
  have hentered : view t entered = view t written ∧ l.nextToken ≤ entered.1.nextToken := by
    rw [← he]
    split
    · have ha := view_accept hooks config env (hnext ▸ h)
      refine ⟨?_, hnext ▸ ha.2⟩
      rw [view_andThen, ha.1]
      simp only [View.behind, List.append_nil, view]
    · exact ⟨rfl, Nat.le_of_eq hnext.symm⟩
  have hleft : view t (Run.andThen entered (·.leaveIf hooks granted)) = view t entered := by
    rw [view_andThen, (view_leaveIf hooks granted t entered.1).1]
    simp only [View.behind, List.append_nil, view]
  refine ⟨?_, ?_⟩
  · rw [Concerns.view_foldl (concerns_react config), hleft, hentered.1, hwritten]
    rfl
  · rw [Concerns.nextToken_foldl (concerns_react config)]
    exact Nat.le_trans hentered.2 (Nat.le_of_eq (view_leaveIf hooks granted t entered.1).2.symm)

end Loop

def Surroundings.ready (env : Surroundings) : List Readiness :=
  match env.poll with
  | .ok events => Loop.sockets events
  | .error _ => []

namespace Loop

variable {t : Token} {l : Loop σ η} (hooks : Hooks η) (config : Config σ) (env : Surroundings)

/-- An iteration that succeeds has asked for the right to accept and polled, and it either handles
what the poll reports or was interrupted. -/
theorem pollOnce_ok {n : Nat} {r : Run σ η} (h : l.pollOnce hooks config env = (.ok n, r)) :
    ∃ granted state l₁ acts, hooks.tryEnter l.hooks = (granted, state) ∧
      ({ l with hooks := state } : Loop σ η).listen granted env.listener = .ok (l₁, acts) ∧
      r = Run.andThen (l₁, [.asked granted] ++ acts ++ [.polled]) fun l ↦ match env.poll with
        | .ok events => l.dispatch hooks config env granted events
        | .error _ => l.leaveIf hooks granted := by
  rw [pollOnce] at h
  generalize hooks.tryEnter l.hooks = entered at h ⊢
  obtain ⟨granted, state⟩ := entered
  dsimp only at h
  refine ⟨granted, state, ?_⟩
  split at h
  · cases h
  · next l₁ acts hl =>
    refine ⟨l₁, acts, rfl, hl, ?_⟩
    split at h
    · next hp =>
      cases h
      rw [hp]
    · cases h
    · next events hp =>
      split at h
      · cases h
      · cases h
        rw [hp]

theorem connections_listen {granted : Bool} {failure : Option IoError} {r : Run σ η}
    (h : l.listen granted failure = .ok r) :
    r.1.connections = l.connections ∧ r.1.nextToken = l.nextToken ∧
      ∀ a ∈ r.2, a.token? = none := by
  simp only [listen] at h
  split at h
  · cases h
    exact ⟨rfl, rfl, nofun⟩
  · cases failure with
    | some e => cases h
    | none =>
      cases h
      refine ⟨rfl, rfl, fun a ha ↦ ?_⟩
      rw [List.mem_singleton.1 ha, Act.token?]

theorem view_listen {granted : Bool} {failure : Option IoError} {r : Run σ η}
    (h : l.listen granted failure = .ok r) (t : Token) :
    view t r = (l.find? t, []) ∧ r.1.nextToken = l.nextToken := by
  obtain ⟨hc, hn, ha⟩ := connections_listen h
  refine ⟨?_, hn⟩
  rw [view, find?, find?, hc, List.filter_eq_nil_iff.2 fun a hm ↦ by simp [ha a hm]]

/-- An iteration that succeeds does to an open connection what its own events say. -/
theorem view_pollOnce {n : Nat} {r : Run σ η} (h : l.pollOnce hooks config env = (.ok n, r))
    (ht : t < l.nextToken) :
    view t r = View.turn config t env.ready (l.find? t, []) ∧ l.nextToken ≤ r.1.nextToken := by
  obtain ⟨granted, state, l₁, acts, -, hl, rfl⟩ := pollOnce_ok hooks config env h
  obtain ⟨hv, hn⟩ := view_listen hl t
  have hfind : l₁.find? t = l.find? t := congrArg Prod.fst hv
  have hacts : (view t (l₁, [.asked granted] ++ acts ++ [.polled])).2 = [] := by
    have ha : acts.filter (·.token? == some t) = [] := congrArg Prod.snd hv
    simp only [view, List.filter_append, ha]
    rfl
  rw [view_andThen, hacts]
  cases hp : env.poll with
  | error e =>
    obtain ⟨hv, hn'⟩ := view_leaveIf hooks granted t l₁
    refine ⟨?_, Nat.le_of_eq ?_⟩
    · rw [Surroundings.ready, hp]
      exact hv.trans (by rw [hfind]; rfl)
    · exact (hn'.trans hn).symm
  | ok events =>
    obtain ⟨hv, hn'⟩ := view_dispatch hooks config env granted events (l := l₁) (t := t) (hn ▸ ht)
    refine ⟨?_, Nat.le_trans (Nat.le_of_eq hn.symm) hn'⟩
    rw [Surroundings.ready, hp]
    exact hv.trans (by rw [hfind])

end Loop

end Prefork.Server
