import Prefork.Proofs.Server.Tokens

namespace Prefork.Server

variable {σ η : Type}

def Act.anonymous : Act → Act
  | opened _ stays => opened 0 stays
  | received _ data stays => received 0 data stays
  | drained _ stays => drained 0 stays
  | closed _ => closed 0
  | sent _ data => sent 0 data
  | armed _ interest => armed 0 interest
  | dropped _ => dropped 0
  | a => a

def Readiness.anonymous (r : Readiness) : Readiness := { r with token := 0 }

def Connection.anonymous (c : Connection σ) : Connection σ :=
  { c with context := { id := 0, worker := none } }

namespace View

def anonymous (v : View σ) : View σ := (v.1.map (·.anonymous), v.2.map Act.anonymous)

theorem anonymous_behind (v : View σ) (acts : List Act) :
    (v.behind acts).anonymous = v.anonymous.behind (acts.map Act.anonymous) :=
  congrArg _ List.map_append

theorem anonymous_andThen {step step' : Connection σ → View σ}
    (h : ∀ c, (step c).anonymous = step' c.anonymous) (v : View σ) :
    (v.andThen step).anonymous = v.anonymous.andThen step' := by
  obtain ⟨c, acts⟩ := v
  cases c with
  | none => rfl
  | some c =>
    show ((step c).behind acts).anonymous = (step' c.anonymous).behind (acts.map Act.anonymous)
    rw [anonymous_behind, h]

theorem anonymous_foldl {step : Readiness → Connection σ → View σ}
    (step' : Readiness → Connection σ → View σ)
    (h : ∀ r c, (step r c).anonymous = step' r.anonymous c.anonymous) (rs : List Readiness)
    (v : View σ) : (rs.foldl (fun v r ↦ v.andThen (step r)) v).anonymous =
      (rs.map Readiness.anonymous).foldl (fun v r ↦ v.andThen (step' r)) v.anonymous := by
  induction rs generalizing v with
  | nil => rfl
  | cons r rs ih =>
    rw [List.foldl_cons, ih, anonymous_andThen (h r), List.map_cons, List.foldl_cons]

end View

namespace Connection

variable (config : Config σ)

theorem anonymous_rearm (t : Token) (rearmed : Bool) (c : Connection σ) :
    (c.rearm t rearmed).anonymous = c.anonymous.rearm 0 rearmed := by
  cases rearmed <;> rfl

theorem anonymous_send (t : Token) (outcome : WriteOutcome) (c : Connection σ) :
    (c.send config t outcome).anonymous = c.anonymous.send config 0 outcome := by
  simp only [send, show c.anonymous.output = c.output from rfl,
    show c.anonymous.closing = c.closing from rfl, show c.anonymous.state = c.state from rfl]
  generalize flush c.output outcome.results = flushed
  have hsent : (if flushed.sent.isEmpty then [] else [Act.sent t flushed.sent]).map Act.anonymous =
      if flushed.sent.isEmpty then [] else [Act.sent 0 flushed.sent] := by
    split <;> rfl
  split
  · rw [View.anonymous_behind, hsent]
    rfl
  · split
    · rw [View.anonymous_behind, hsent, anonymous_rearm]
      rfl
    · split
      · rw [View.anonymous_behind, hsent]
        rfl
      · split
        · rw [View.anonymous_behind, List.map_append, hsent, anonymous_rearm]
          rfl
        · rw [View.anonymous_behind, List.map_append, hsent]
          rfl

theorem anonymous_answer (t : Token) (finished : Bool) (outcome : WriteOutcome)
    (c : Connection σ) :
    (c.answer config t finished outcome).anonymous =
      c.anonymous.answer config 0 finished outcome := by
  simp only [answer, show c.anonymous.output = c.output from rfl]
  split
  · split
    · rfl
    · exact anonymous_rearm t _ c
  · exact anonymous_send config t outcome { c with closing := finished }

theorem anonymous_receive (r : Readiness) (c : Connection σ) :
    (c.receive config r).anonymous = c.anonymous.receive config r.anonymous := by
  simp only [receive, show c.anonymous.closing = c.closing from rfl,
    show c.anonymous.state = c.state from rfl, show r.anonymous.reads = r.reads from rfl]
  split
  · rfl
  · split
    · rfl
    · exact anonymous_answer config r.token _ r.reply c
    · split
      · rw [View.anonymous_behind, anonymous_answer]
        rfl
      · rw [View.anonymous_behind]
        rfl

theorem anonymous_react (r : Readiness) (c : Connection σ) :
    (c.react config r).anonymous = c.anonymous.react config r.anonymous := by
  simp only [react, show r.anonymous.error = r.error from rfl,
    show r.anonymous.readable = r.readable from rfl]
  split
  · rfl
  · split
    · exact anonymous_receive config r c
    · rfl

theorem anonymous_enter (t : Token) (now : Time.Millis) (registered : Bool) (context : Context)
    (s : σ) : (enter config t now registered context s).anonymous =
      enter config 0 now registered { id := 0, worker := none } s := by
  simp only [enter]
  split
  · rw [View.anonymous_behind, anonymous_rearm]
    rfl
  · rw [View.anonymous_behind]
    rfl

end Connection

/-- What an iteration does to a connection that was there before depends on its own events. -/
theorem View.anonymous_turn (config : Config σ) (t : Token) (ready : List Readiness) (v : View σ) :
    (v.turn config t ready).anonymous =
      v.anonymous.turn config 0 ((ready.filter (·.token == t)).map Readiness.anonymous) := by
  have hmine : ((ready.filter (·.token == t)).map Readiness.anonymous).filter (·.token == 0) =
      (ready.filter (·.token == t)).map Readiness.anonymous := by
    refine List.filter_eq_self.2 fun r hr ↦ ?_
    obtain ⟨r, -, rfl⟩ := List.mem_map.1 hr
    rfl
  simp only [turn, hmine, List.filter_map]
  rw [anonymous_foldl (fun r ↦ (·.react config r)) (Connection.anonymous_react config),
    anonymous_foldl (fun r ↦ (·.send config r.token r.pending))
      fun r ↦ Connection.anonymous_send config r.token r.pending]
  rfl

namespace Loop

variable {hooks : Hooks η} {config : Config σ} {env : Surroundings} {l : Loop σ η} {t : Token}

theorem foldl_andThen_none (act : Readiness → Connection σ → View σ) (rs : List Readiness)
    (acts : List Act) :
    rs.foldl (fun v r ↦ View.andThen v (act r)) (none, acts) = (none, acts) := by
  induction rs with
  | nil => rfl
  | cons r rs ih => exact ih

def born (config : Config σ) (t : Token) (now : Time.Millis) (registered : Bool)
    (context : Context) (s : σ) (mine : List Readiness) : View σ :=
  mine.foldl (fun v r ↦ View.andThen v (·.react config r))
    (Connection.enter config t now registered context s)

theorem view_dispatch_cases (ho : l.Ordered) (granted : Bool) (events : List Event) (t : Token) :
    view t (l.dispatch hooks config env granted events) =
        View.turn config t (sockets events) (l.find? t, []) ∨
      l.find? t = none ∧ ∃ context s, config.build context = .ok s ∧
        view t (l.dispatch hooks config env granted events) =
          born config t env.now env.registered context s
            ((sockets events).filter (·.token == t)) := by
  rw [dispatch_eq]
  dsimp only
  generalize hw : ((sockets events).filter fun r ↦ r.writable && !r.error).foldl
    (fun run r ↦ Run.andThen run (·.send config r.token r.pending)) (l, []) = written
  have hwritten : view t written =
      (((sockets events).filter (·.token == t)).filter fun r ↦ r.writable && !r.error).foldl
        (fun v r ↦ View.andThen v (·.send config r.token r.pending)) (l.find? t, []) := by
    rw [← hw]
    exact view_foldl_send config _ t l
  have hnext : written.1.nextToken = l.nextToken := by
    rw [← hw]
    exact Concerns.nextToken_foldl (fun r ↦ Concerns.send config r.token r.pending) _ _
  have hordered : written.1.Ordered := by
    obtain ⟨h, hp, -⟩ : Stepwise hooks config l written := hw ▸ .foldl_send _ l
    exact hp.ordered ho
  have hleft (entered : Run σ η) :
      view t (Run.andThen entered (·.leaveIf hooks granted)) = view t entered := by
    rw [view_andThen, (view_leaveIf hooks granted t entered.1).1]
    simp only [View.behind, List.append_nil, view]
  rw [Concerns.view_foldl (concerns_react config), hleft]
  have hsame {entered : Run σ η} (h : view t entered = view t written) :
      ((sockets events).filter (·.token == t)).foldl
          (fun v r ↦ View.andThen v (·.react config r)) (view t entered) =
        View.turn config t (sockets events) (l.find? t, []) := by
    rw [h, hwritten]
    rfl
  split
  · by_cases ht : t = written.1.nextToken
    · have hnone : l.find? t = none := ho.find?_of_le (Nat.le_of_eq (ht.trans hnext).symm)
      have hw' : view t written = (none, []) := by
        rw [hwritten, hnone, foldl_andThen_none]
      have haccept := view_accept_self hooks config env (hordered.find?_of_le (Nat.le_refl _))
      rw [← ht] at haccept
      cases ha : written.1.admits? hooks config env with
      | none =>
        refine .inl (hsame ?_)
        rw [view_andThen, haccept, ha, hw']
        rfl
      | some e =>
        refine .inr ⟨hnone, e.1, e.2, build_admits? hooks config env ha, ?_⟩
        rw [view_andThen, haccept, ha, hw']
        rfl
    · refine .inl (hsame ?_)
      rw [view_andThen, view_accept_of_ne hooks config env ht]
      simp only [View.behind, List.append_nil, view]
  · exact .inl (hsame rfl)

theorem view_pollOnce_cases (ho : l.Ordered) {n : Nat} {r : Run σ η}
    (h : l.pollOnce hooks config env = (.ok n, r)) (t : Token) :
    view t r = View.turn config t env.ready (l.find? t, []) ∨
      l.find? t = none ∧ ∃ context s, config.build context = .ok s ∧
        view t r = born config t env.now env.registered context s
          (env.ready.filter (·.token == t)) := by
  obtain ⟨granted, state, l₁, acts, -, hl, rfl⟩ := pollOnce_ok hooks config env h
  obtain ⟨hv, hn⟩ := view_listen hl t
  have hfind : l₁.find? t = l.find? t := congrArg Prod.fst hv
  have hacts : (view t (l₁, [.asked granted] ++ acts ++ [.polled])).2 = [] := by
    have ha : acts.filter (·.token? == some t) = [] := congrArg Prod.snd hv
    simp only [view, List.filter_append, ha]
    rfl
  rw [view_andThen, hacts, View.behind_nil, Surroundings.ready, ← hfind]
  cases env.poll with
  | error e => exact .inl (view_leaveIf hooks granted t l₁).1
  | ok events =>
    obtain ⟨hc, -, -⟩ := connections_listen hl
    have ho₁ : l₁.Ordered := ho.of_sublist (by rw [tokens, hc]; exact List.Sublist.refl _) hn
    exact view_dispatch_cases ho₁ granted events t

end Loop

theorem View.isOpened_foldl {act : Readiness → Connection σ → View σ}
    (h : ∀ r c, (act r c).2.any Act.isOpened = false) (rs : List Readiness) (v : View σ) :
    (rs.foldl (fun v r ↦ v.andThen (act r)) v).2.any Act.isOpened = v.2.any Act.isOpened := by
  induction rs generalizing v with
  | nil => rfl
  | cons r rs ih =>
    obtain ⟨c, acts⟩ := v
    rw [List.foldl_cons, ih]
    cases c with
    | none => rfl
    | some c =>
      show (acts ++ (act r c).2).any Act.isOpened = acts.any Act.isOpened
      rw [List.any_append, h, Bool.or_false]

theorem View.isOpened_turn (config : Config σ) (t : Token) (ready : List Readiness)
    (c : Option (Connection σ)) :
    (View.turn config t ready (c, [])).2.any Act.isOpened = false := by
  rw [turn, isOpened_foldl (Connection.isOpened_react config),
    isOpened_foldl fun r ↦ Connection.isOpened_send config r.token r.pending]
  rfl

theorem Loop.isOpened_born (config : Config σ) (t : Token) (now : Time.Millis)
    (registered : Bool) (context : Context) (s : σ) (mine : List Readiness) :
    (born config t now registered context s mine).2.any Act.isOpened = true := by
  rw [born, View.isOpened_foldl (Connection.isOpened_react config)]
  simp [Connection.enter, View.behind, Act.isOpened]

theorem Loop.anonymous_born (config : Config σ) (t : Token) (now : Time.Millis)
    (registered : Bool) (context : Context) (s : σ) (mine : List Readiness) :
    (born config t now registered context s mine).anonymous =
      born config 0 now registered { id := 0, worker := none } s
        (mine.map Readiness.anonymous) := by
  rw [born, View.anonymous_foldl (fun r ↦ (·.react config r)) (Connection.anonymous_react config),
    Connection.anonymous_enter]
  rfl

deriving instance DecidableEq for WriteOutcome, Readiness

structure Round where
  env : Surroundings
  acts : List Act

/-- What an iteration holds for one connection: when and how it is opened in it, and the events of
its socket with all that answers. -/
structure Share where
  opened : Option (Time.Millis × Bool)
  ready : List Readiness
  deriving DecidableEq

namespace Round

def own (t : Token) (r : Round) : List Act :=
  (r.acts.filter (·.token? == some t)).map Act.anonymous

def share (t : Token) (r : Round) : Share where
  opened := if (r.own t).any Act.isOpened then some (r.env.now, r.env.registered) else none
  ready := (r.env.ready.filter (·.token == t)).map Readiness.anonymous

end Round

/-- Runs of iterations that succeed, from a loop without connections. What is around the loop may
change at any time. -/
inductive Iterations (hooks : Hooks η) (config : Config σ) : List Round → Loop σ η → Prop
  | start (state : η) : Iterations hooks config [] { hooks := state }
  | changed {rounds : List Round} {l : Loop σ η} (state : η) :
      Iterations hooks config rounds l → Iterations hooks config rounds { l with hooks := state }
  | polled {rounds : List Round} {l : Loop σ η} {n : Nat} {r : Loop.Run σ η} (env : Surroundings) :
      Iterations hooks config rounds l → l.pollOnce hooks config env = (.ok n, r) →
      Iterations hooks config (rounds ++ [{ env, acts := r.2 }]) r.1

def Share.turn (config : Config σ) (s : σ) (c : Option (Connection σ)) (share : Share) : View σ :=
  match share.opened with
  | none => View.turn config 0 share.ready (c, [])
  | some (now, registered) =>
    Loop.born config 0 now registered { id := 0, worker := none } s share.ready

/-- What becomes of a connection through all iterations, and what is done to it in each. -/
def course (config : Config σ) (s : σ) (shares : List Share) :
    List (List Act) × Option (Connection σ) :=
  shares.foldl (fun (done, c) share ↦
    let v := share.turn config s c
    (done ++ [v.2], v.1)) ([], none)

section Runs

variable {hooks : Hooks η} {config : Config σ} {rounds : List Round} {l : Loop σ η} {s : σ}

theorem Iterations.moment (h : Iterations hooks config rounds l) :
    ∃ history, Moment hooks config history l ∧
      history.acts hooks config = rounds.flatMap Round.acts := by
  induction h with
  | start state => exact ⟨[], ⟨state, .refl⟩, rfl⟩
  | @changed rounds l state _ ih =>
    obtain ⟨history, hm, ha⟩ := ih
    refine ⟨_, hm.passes (Passes.refl.step (.aside state l.listening [] nofun)), ?_⟩
    rw [List.nil_append, History.acts_step, ha]
    exact List.append_nil _
  | @polled rounds l n r env _ hp ih =>
    obtain ⟨history, hm, ha⟩ := ih
    obtain ⟨more, hp', ha'⟩ : Loop.Stepwise hooks config l r := by
      have hs : Loop.Stepwise hooks config l _ := .pollOnce env l
      rwa [hp] at hs
    refine ⟨_, hm.passes hp', ?_⟩
    rw [History.acts_append, ha, ha', List.flatMap_append, List.flatMap_singleton]

theorem any_isOpened_anonymous (acts : List Act) :
    (acts.map Act.anonymous).any Act.isOpened = acts.any Act.isOpened := by
  rw [List.any_map]
  congr 1
  funext a
  cases a <;> rfl

/-- A connection's share of a run says all about it. -/
theorem Iterations.course_eq (h : Iterations hooks config rounds l)
    (hb : ∀ context, config.build context = .ok s) (t : Token) :
    (rounds.map (Round.own t), (l.find? t).map (·.anonymous)) =
      course config s (rounds.map (Round.share t)) := by
  induction h with
  | start state => rfl
  | changed state _ ih => exact ih
  | @polled rounds l n r env hi hp ih =>
    obtain ⟨history, hm, -⟩ := hi.moment
    have hround : (Loop.view t r).anonymous =
        Share.turn config s ((l.find? t).map (·.anonymous))
          (Round.share t { env, acts := r.2 }) := by
      have hopened : ((Round.mk env r.2).own t).any Act.isOpened =
          (Loop.view t r).2.any Act.isOpened := any_isOpened_anonymous _
      rw [Share.turn, Round.share, hopened]
      rcases Loop.view_pollOnce_cases hm.ordered hp t with hv | ⟨-, context, s', hs, hv⟩
      · rw [hv, View.isOpened_turn]
        exact View.anonymous_turn config t env.ready _
      · cases (hb context).symm.trans hs
        rw [hv, Loop.isOpened_born]
        exact Loop.anonymous_born config t ..
    rw [List.map_append, List.map_append, course, List.foldl_append, ← course, ← ih]
    exact congrArg (fun v : View σ ↦ (rounds.map (Round.own t) ++ [v.2], v.1)) hround

def Round.accepts (r : Round) : Bool :=
  r.acts.head? == some (.asked true) &&
    (match r.env.poll with
      | .ok events => Loop.listenerReady events
      | .error _ => false) && r.env.pending

theorem openedIn_pollOnce (hb : ∀ context, config.build context = .ok s) {env : Surroundings}
    {n : Nat} {r : Loop.Run σ η} (h : l.pollOnce hooks config env = (.ok n, r)) :
    (openedIn r.2).length = if (Round.mk env r.2).accepts then 1 else 0 := by
  obtain ⟨granted, state, l₁, acts, -, hl, rfl⟩ := Loop.pollOnce_ok hooks config env h
  obtain ⟨-, -, hquiet⟩ := Loop.connections_listen hl
  have hacts : openedIn ([Act.asked granted] ++ acts ++ [Act.polled]) = [] := by
    refine openedIn_eq_nil fun a ha ↦ ?_
    cases a with
    | opened t stays =>
      have hq : Act.opened t stays ∈ acts := by simpa using ha
      cases hquiet _ hq
    | _ => rfl
  have hhead (more : List Act) :
      (([Act.asked granted] ++ acts ++ [Act.polled] ++ more).head? == some (Act.asked true)) =
        granted := by
    cases granted <;> rfl
  rw [Loop.Run.andThen, openedIn_append, hacts, Round.accepts]
  dsimp only
  rw [hhead]
  cases env.poll with
  | error e => simp [openedIn_leaveIf]
  | ok events => exact openedIn_dispatch hb env granted events l₁

theorem Iterations.openedIn_acts (h : Iterations hooks config rounds l)
    (hb : ∀ context, config.build context = .ok s) {r : Round} (hr : r ∈ rounds) :
    (openedIn r.acts).length = if r.accepts then 1 else 0 := by
  induction h with
  | start state => cases hr
  | changed state _ ih => exact ih hr
  | polled env _ hp ih =>
    rcases List.mem_append.1 hr with hr | hr
    · exact ih hr
    · rw [List.mem_singleton.1 hr]
      exact openedIn_pollOnce hb hp

end Runs

def Config.offering (service : Service) (responder : Http.Responder) (maxBuffer : Nat) :
    Config service.State where
  protocol := service.protocol responder
  build _ := .ok service.start
  maxBuffer := maxBuffer

/-- Connections do not interfere. Let two runs agree on what they hold for one connection, which
may have another token in each; whatever they hold for all others, the same is done to it in each
iteration, and the same becomes of it. That it is accepted is not up to others either. At every
moment of a run tokens are distinct, and an event for a connection that was closed does nothing. -/
theorem connections_separate {υ : Type} {hooks : Hooks η} {hooks' : Hooks υ} (service : Service)
    (responder : Http.Responder) (maxBuffer : Nat) {rounds rounds' : List Round}
    {l : Loop service.State η} {l' : Loop service.State υ}
    (h : Iterations hooks (.offering service responder maxBuffer) rounds l)
    (h' : Iterations hooks' (.offering service responder maxBuffer) rounds' l') :
    (∀ t t', rounds.map (Round.share t) = rounds'.map (Round.share t') →
      rounds.map (Round.own t) = rounds'.map (Round.own t') ∧
        (l.find? t).map (·.anonymous) = (l'.find? t').map (·.anonymous)) ∧
    (∀ r ∈ rounds, (openedIn r.acts).length = if r.accepts then 1 else 0) ∧
    ∀ history m, Moment hooks (.offering service responder maxBuffer) history m →
      Distinct hooks (.offering service responder maxBuffer) history m := by
  have hb (context : Context) : (Config.offering service responder maxBuffer).build context =
      .ok service.start := rfl
  refine ⟨fun t t' hshare ↦ ?_, fun _ ↦ h.openedIn_acts hb, fun history m hm ↦ ?_⟩
  · have hc := h.course_eq hb t
    have hc' := h'.course_eq hb t'
    rw [hshare, ← hc'] at hc
    exact Prod.mk.inj hc
  · obtain ⟨new, ho, -⟩ := service.offered responder
    exact hm.distinct ho fun _ ↦ trivial

def halfAnswered (t : Token) (others : List Event) : Surroundings where
  now := 0
  poll := .ok (others ++ [.socket
    { token := t, readable := true, reads := [.bytes (Utf8.encode "GET / HTTP/1.1\r\n\r\n")]
      reply := { results := [.taken 9, .wouldBlock] } }])

def overflowing : Surroundings where
  now := 0
  poll := .ok [.listener false,
    .socket { token := 1, readable := true, reads := [.bytes (List.replicate 65 0)] }]
  pending := true

/-- Beside a connection that overflows and is closed, or alone, the answer is the same. -/
theorem separate_from_overflow :
    let config := Config.offering .http .greeting 64
    let poll (env : Surroundings) (l : Loop Service.http.State UInt64) :=
      l.pollOnce .standalone config env
    let late := halfAnswered 2 [.socket { token := 1, error := true }]
    let a₁ := (poll acceptance { hooks := firstId }).2
    let a₂ := (poll overflowing a₁.1).2
    let a₃ := (poll late a₂.1).2
    let idle : Surroundings := { now := 0, poll := .error .interrupted }
    let b₁ := (poll idle { hooks := firstId }).2
    let b₂ := (poll acceptance b₁.1).2
    let b₃ := (poll (halfAnswered 1 []) b₂.1).2
    let rounds : List Round := [⟨acceptance, a₁.2⟩, ⟨overflowing, a₂.2⟩, ⟨late, a₃.2⟩]
    let rounds' : List Round := [⟨idle, b₁.2⟩, ⟨acceptance, b₂.2⟩, ⟨halfAnswered 1 [], b₃.2⟩]
    Iterations .standalone config rounds a₃.1 ∧ Iterations .standalone config rounds' b₃.1 ∧
      rounds.map (Round.share 2) = rounds'.map (Round.share 1) ∧
      rounds.map (Round.own 2) = rounds'.map (Round.own 1) ∧
      sentTo 2 a₃.2 = Utf8.encode "HTTP/1.1 " ∧ a₃.1.stats.overflowed = 1 := by
  intro config poll late a₁ a₂ a₃ idle b₁ b₂ b₃ rounds rounds'
  have hstart : Iterations .standalone config [] { hooks := firstId } := .start firstId
  have ha₁ : poll acceptance { hooks := firstId } = (.ok 1, a₁) := rfl
  have ha₂ : poll overflowing a₁.1 = (.ok 2, a₂) := rfl
  have ha₃ : poll late a₂.1 = (.ok 2, a₃) := rfl
  have hb₁ : poll idle { hooks := firstId } = (.ok 0, b₁) := rfl
  have hb₂ : poll acceptance b₁.1 = (.ok 1, b₂) := rfl
  have hb₃ : poll (halfAnswered 1 []) b₂.1 = (.ok 1, b₃) := rfl
  have h : Iterations .standalone config rounds a₃.1 :=
    ((hstart.polled acceptance ha₁).polled overflowing ha₂).polled late ha₃
  have h' : Iterations .standalone config rounds' b₃.1 :=
    ((hstart.polled idle hb₁).polled acceptance hb₂).polled (halfAnswered 1 []) hb₃
  have hshare : rounds.map (Round.share 2) = rounds'.map (Round.share 1) := by decide +kernel
  have hseparate := (connections_separate .http .greeting 64 h h').1 2 1 hshare
  exact ⟨h, h', hshare, hseparate.1, by decide +kernel, by decide +kernel⟩

end Prefork.Server
