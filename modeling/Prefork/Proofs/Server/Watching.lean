import Prefork.Proofs.Callbacks
import Prefork.Proofs.Http.Pending
import Prefork.Proofs.Server.Table
import Prefork.Proofs.Server.Transfer
import Prefork.Service

namespace Prefork.Server

variable {σ η : Type}

def Act.watch (t : Token) (before : Option Interest) : Act → Option Interest
  | .armed u interest => if u = t then some interest else before
  | .dropped u => if u = t then none else before
  | _ => before

/-- What a socket was last registered for, none if it was dropped since. -/
def watchedFor (t : Token) (acts : List Act) : Option Interest := acts.foldl (Act.watch t) none

theorem Act.watch_of_ne {t : Token} {a : Act} (h : a.token? ≠ some t) (before : Option Interest) :
    a.watch t before = before := by
  cases a with
  | armed u interest =>
    rw [watch, if_neg]
    rintro rfl
    exact h rfl
  | dropped u =>
    rw [watch, if_neg]
    rintro rfl
    exact h rfl
  | _ => rfl

theorem foldl_watch_filter (t : Token) (acts : List Act) (before : Option Interest) :
    (acts.filter (·.token? == some t)).foldl (Act.watch t) before =
      acts.foldl (Act.watch t) before := by
  induction acts generalizing before with
  | nil => rfl
  | cons a acts ih =>
    by_cases ha : a.token? = some t
    · rw [List.filter_cons_of_pos (by simpa using ha), List.foldl_cons, List.foldl_cons, ih]
    · rw [List.filter_cons_of_neg (by simpa using ha), List.foldl_cons, Act.watch_of_ne ha, ih]

structure Connection.Sound (fits : σ → Bytes → Prop) (c : Connection σ) : Prop where
  closing : c.closing = true → c.output ≠ []
  state : fits c.state c.output

structure Config.Keeps (config : Config σ) (fits : σ → Bytes → Prop) : Prop where
  opened {context : Context} {s : σ} (now : Time.Millis) : config.build context = .ok s →
    fits (config.protocol.opened now s).state (config.protocol.opened now s).output
  received {s : σ} {output : Bytes} (data : Bytes) : fits s output →
    fits (config.protocol.received data s).state (output ++ (config.protocol.received data s).output)
  drained {s : σ} {output : Bytes} : fits s output → (config.protocol.drained s).stays = true →
    fits (config.protocol.drained s).state (config.protocol.drained s).output
  written {s : σ} {output pending : Bytes} : fits s output → output ≠ [] → pending ≠ [] →
    fits s pending

namespace View

def Watched (fits : σ → Bytes → Prop) (t : Token) (before : Option Interest) (v : View σ) : Prop :=
  ∀ c, v.1 = some c → v.2.foldl (Act.watch t) before = some c.interest ∧ c.Sound fits

variable {fits : σ → Bytes → Prop} {t : Token} {before : Option Interest}

theorem Watched.behind {v : View σ} {acts : List Act}
    (h : Watched fits t (acts.foldl (Act.watch t) before) v) :
    Watched fits t before (v.behind acts) := by
  intro c hc
  rw [View.behind, List.foldl_append]
  exact h c hc

end View

namespace Connection

open View (Watched)

variable {fits : σ → Bytes → Prop} {config : Config σ} {t : Token} {before : Option Interest}

theorem watched_close : Watched fits t before (close t) := nofun

theorem watched_rearm {c : Connection σ} (h : c.Sound fits) (rearmed : Bool) :
    Watched fits t before (c.rearm t rearmed) := by
  cases rearmed with
  | false => exact watched_close
  | true =>
    rintro d hd
    cases hd
    refine ⟨?_, h.closing, h.state⟩
    exact if_pos rfl

theorem watched_send (hk : config.Keeps fits) {c : Connection σ} (h : fits c.state c.output)
    (outcome : WriteOutcome) : Watched fits t before (c.send config t outcome) := by
  have hall := sent_append_pending c.output outcome.results
  rw [send]
  generalize flush c.output outcome.results = flushed at hall ⊢
  obtain ⟨sent, pending, error⟩ := flushed
  dsimp only at hall ⊢
  split
  · exact watched_close.behind
  · split
    · next hp =>
      have hne : pending ≠ [] := by
        rintro rfl
        cases hp
      have hout : c.output ≠ [] := by
        rw [← hall]
        exact List.append_ne_nil_of_right_ne_nil _ hne
      refine (watched_rearm ?_ _).behind
      exact ⟨fun _ ↦ hne, hk.written h hout hne⟩
    · next hp =>
      split
      · exact watched_close.behind
      · next hc =>
        split
        · next hs =>
          have hnil : pending = [] := by simpa using hp
          subst hnil
          refine (watched_rearm ?_ _).behind
          exact ⟨fun h ↦ absurd h hc, hk.drained h hs⟩
        · exact watched_close.behind

theorem watched_answer (hk : config.Keeps fits) {c : Connection σ} (h : fits c.state c.output)
    (hc : c.closing = false) (finished : Bool) (outcome : WriteOutcome) :
    Watched fits t before (c.answer config t finished outcome) := by
  rw [answer]
  split
  · split
    · exact watched_close
    · exact watched_rearm ⟨fun h ↦ absurd (h.symm.trans hc) (by decide), h⟩ _
  · exact watched_send (c := { c with closing := finished }) hk h outcome

theorem watched_receive (hk : config.Keeps fits) {c : Connection σ} (h : c.Sound fits)
    (r : Readiness) : Watched fits r.token (some c.interest) (c.receive config r) := by
  rw [receive]
  cases hc : c.closing with
  | true =>
    rintro d hd
    cases hd
    exact ⟨rfl, h⟩
  | false =>
    simp only [Bool.false_eq_true, if_false]
    cases readFrom (config.protocol.buffered c.state) config.maxBuffer [] r.reads with
    | error e => exact watched_close
    | ok received =>
      obtain ⟨data, finished⟩ := received
      cases data with
      | nil => exact watched_answer hk h.state hc finished r.reply
      | cons x data =>
        dsimp only
        split
        · refine (watched_answer hk ?_ ?_ finished r.reply).behind
          · exact hk.received (x :: data) h.state
          · exact hc
        · exact watched_close.behind

theorem watched_react (hk : config.Keeps fits) {c : Connection σ} (h : c.Sound fits)
    (r : Readiness) : Watched fits r.token (some c.interest) (c.react config r) := by
  rw [react]
  split
  · exact watched_close
  · split
    · exact watched_receive hk h r
    · rintro d hd
      cases hd
      exact ⟨rfl, h⟩

end Connection

namespace Loop

variable {fits : σ → Bytes → Prop} {config : Config σ} {l : Loop σ η} {r : Run σ η} {t : Token}

/-- The table is in order, and each connection in it is sound and watched for what it waits for. -/
structure Tended (fits : σ → Bytes → Prop) (acts : List Act) (l : Loop σ η) : Prop where
  ordered : l.Ordered
  watched {t : Token} {c : Connection σ} : l.find? t = some c →
    watchedFor t acts = some c.interest ∧ c.Sound fits

def Tends (fits : σ → Bytes → Prop) (step : Loop σ η → Run σ η) : Prop :=
  ∀ acts l, Tended fits acts l → Tended fits (acts ++ (step l).2) (step l).1

theorem Tended.of_view {acts : List Act} (ho : r.1.Ordered)
    (h : ∀ t, View.Watched fits t (watchedFor t acts) (view t r)) :
    Tended fits (acts ++ r.2) r.1 := by
  refine ⟨ho, fun {t c} hc ↦ ?_⟩
  have hw := h t c hc
  rw [view, foldl_watch_filter] at hw
  rw [watchedFor, List.foldl_append]
  exact hw

theorem Tended.of_connections {acts more : List Act} {l' : Loop σ η} (h : Tended fits acts l)
    (hc : l'.connections = l.connections) (hn : l'.nextToken = l.nextToken)
    (hm : ∀ a ∈ more, a.token? = none) : Tended fits (acts ++ more) l' := by
  have hfind (t : Token) : l'.find? t = l.find? t := by rw [Loop.find?, Loop.find?, hc]
  refine ⟨h.ordered.of_sublist (by rw [tokens, hc]; exact List.Sublist.refl _) hn, fun {t c} hc ↦ ?_⟩
  have hnone : more.filter (·.token? == some t) = [] :=
    List.filter_eq_nil_iff.2 fun a ha ↦ by simp [hm a ha]
  rw [watchedFor, List.foldl_append, ← foldl_watch_filter, hnone]
  exact h.watched (hfind t ▸ hc)

theorem Tends.run {step : Loop σ η → Run σ η} (hs : Tends fits step) {acts : List Act}
    (h : Tended fits (acts ++ r.2) r.1) :
    Tended fits (acts ++ (r.andThen step).2) (r.andThen step).1 := by
  have hr := hs _ _ h
  rwa [List.append_assoc] at hr

theorem Tends.foldl {step : Readiness → Loop σ η → Run σ η} (hs : ∀ e, Tends fits (step e))
    (events : List Readiness) {acts : List Act} (h : Tended fits (acts ++ r.2) r.1) :
    let last := events.foldl (fun run e ↦ run.andThen (step e)) r
    Tended fits (acts ++ last.2) last.1 := by
  induction events generalizing r with
  | nil => exact h
  | cons e events ih => exact ih ((hs e).run h)

theorem Tends.of_concerns {step : Loop σ η → Run σ η} {act : Connection σ → View σ}
    (hc : Concerns t step act) (hs : ∀ l, (step l).1.tokens.Sublist l.tokens)
    (ha : ∀ c, c.Sound fits → View.Watched fits t (some c.interest) (act c)) : Tends fits step := by
  intro acts l h
  refine .of_view (h.ordered.of_sublist (hs l) (hc l).nextToken) fun u ↦ ?_
  by_cases hu : u = t
  · subst hu
    rw [(hc l).own]
    cases hl : l.find? u with
    | none => exact fun _ hn ↦ nomatch hn
    | some c =>
      obtain ⟨hw, hsound⟩ := h.watched hl
      rw [hw]
      exact ha c hsound
  · rw [(hc l).other hu]
    exact fun _ hc ↦ h.watched hc

theorem find?_append_new {l' : Loop σ η} {u : Token} {c : Connection σ}
    (hl : l'.connections = l.connections ++ [(u, c)]) (h : l.find? t = none) :
    l'.find? t = if u = t then some c else none := by
  rw [Loop.find?, Option.map_eq_none_iff] at h
  rw [Loop.find?, hl, List.find?_append, h, Option.none_or]
  by_cases hu : u = t
  · simp [hu]
  · simp [hu]

theorem watched_accept (hooks : Hooks η) (hk : config.Keeps fits) (env : Surroundings)
    (h : l.find? t = none) (i : Option Interest) :
    View.Watched fits t i (view t (l.accept hooks config env)) := by
  have hnone (l' : Loop σ η) (acts : List Act) (hl : l'.connections = l.connections) :
      View.Watched fits t i (view t (l', acts)) := by
    intro c hc
    rw [view, Loop.find?, hl] at hc
    cases h.symm.trans hc
  simp only [Loop.accept]
  split
  · exact hnone l [] rfl
  · split
    · exact hnone _ _ rfl
    · next s hb =>
      split
      · exact hnone _ _ rfl
      · have hs := hk.opened env.now hb
        intro c hc
        rw [view, find?_append_new rfl h] at hc
        split at hc
        · next ht =>
          subst ht
          cases hc
          rw [view, foldl_watch_filter]
          exact ⟨if_pos rfl, (fun hc ↦ by cases hc), hs⟩
        · cases hc

theorem tends_accept (hooks : Hooks η) (hk : config.Keeps fits) (env : Surroundings) :
    Tends fits (·.accept hooks config env) := by
  intro acts l h
  refine .of_view (h.ordered.accept config hooks env) fun t ↦ ?_
  rcases Nat.lt_or_ge t l.nextToken with ht | ht
  · rw [(view_accept hooks config env ht).1]
    exact fun _ hc ↦ h.watched hc
  · -- Such a token was not given out yet, so only a new connection can have it.
    exact watched_accept hooks hk env (h.ordered.find?_of_le ht) _

theorem tends_leaveIf (hooks : Hooks η) (granted : Bool) :
    Tends (σ := σ) fits (·.leaveIf hooks granted) := by
  intro acts l h
  obtain ⟨hc, hn⟩ := connections_leaveIf hooks granted l
  refine h.of_connections hc hn fun a ha ↦ ?_
  cases granted with
  | true =>
    cases List.mem_singleton.1 ha
    rfl
  | false => cases ha

theorem tends_dispatch (hooks : Hooks η) (hk : config.Keeps fits) (env : Surroundings)
    (granted : Bool) (events : List Event) :
    Tends fits (·.dispatch hooks config env granted events) := by
  intro acts l h
  dsimp only
  rw [dispatch_eq]
  refine Tends.foldl (fun e ↦ .of_concerns (concerns_react config e)
    (fun l ↦ tokens_react config l e) fun c hc ↦ Connection.watched_react hk hc e) _ ?_
  refine (tends_leaveIf hooks granted).run ?_
  have hstart : Tended fits (acts ++ []) l := by rwa [List.append_nil]
  have hwritten := Tends.foldl (r := (l, []))
    (fun e ↦ .of_concerns (Concerns.send config e.token e.pending)
      (fun l ↦ tokens_send config l e.token e.pending)
      fun c hc ↦ Connection.watched_send hk hc.state e.pending)
    ((sockets events).filter fun r ↦ r.writable && !r.error) hstart
  split
  · exact (tends_accept hooks hk env).run hwritten
  · exact hwritten

theorem tended_pollOnce {hooks : Hooks η} (hk : config.Keeps fits) {env : Surroundings}
    {acts : List Act} {n : Nat} (h : Tended fits acts l)
    (hp : l.pollOnce hooks config env = (.ok n, r)) : Tended fits (acts ++ r.2) r.1 := by
  obtain ⟨granted, state, l₁, watching, -, hl, rfl⟩ := pollOnce_ok hooks config env hp
  obtain ⟨hc, hn, hacts⟩ := connections_listen hl
  have hpolled : Tended fits (acts ++ ([.asked granted] ++ watching ++ [.polled])) l₁ := by
    refine h.of_connections hc hn fun a ha ↦ ?_
    rcases List.mem_append.1 ha with ha | ha
    · rcases List.mem_append.1 ha with ha | ha
      · cases List.mem_singleton.1 ha
        rfl
      · exact hacts a ha
    · cases List.mem_singleton.1 ha
      rfl
  cases env.poll with
  | ok events => exact (tends_dispatch hooks hk env granted events).run hpolled
  | error e => exact (tends_leaveIf hooks granted).run hpolled

end Loop

/-- The states of a loop between iterations that succeed, with all it did to get there. What is
around it may change at any time. -/
inductive Reached (hooks : Hooks η) (config : Config σ) : List Act → Loop σ η → Prop
  | start (state : η) : Reached hooks config [] { hooks := state }
  | changed {acts : List Act} {l : Loop σ η} (state : η) :
      Reached hooks config acts l → Reached hooks config acts { l with hooks := state }
  | polled {acts : List Act} {l : Loop σ η} {env : Surroundings} {n : Nat} {r : Loop.Run σ η} :
      Reached hooks config acts l → l.pollOnce hooks config env = (.ok n, r) →
      Reached hooks config (acts ++ r.2) r.1

theorem Reached.tended {hooks : Hooks η} {config : Config σ} {fits : σ → Bytes → Prop}
    (hk : config.Keeps fits) {acts : List Act} {l : Loop σ η} (h : Reached hooks config acts l) :
    l.Tended fits acts := by
  induction h with
  | start state => exact ⟨⟨.nil, nofun⟩, nofun⟩
  | changed state _ ih => exact ⟨⟨ih.ordered.increasing, ih.ordered.bounded⟩, ih.watched⟩
  | polled _ hp ih => exact Loop.tended_pollOnce hk ih hp

open Http (Responder)

def handlers {υ : Type} (other : Protocol υ) : Protocol ((Responder × Http.Session) ⊕ υ) where
  opened now
    | .inl (r, s) => ((Http.Session.protocol r).opened now s).map fun s ↦ .inl (r, s)
    | .inr s => (other.opened now s).map .inr
  received data
    | .inl (r, s) => ((Http.Session.protocol r).received data s).map fun s ↦ .inl (r, s)
    | .inr s => (other.received data s).map .inr
  drained
    | .inl (r, s) => ((Http.Session.protocol r).drained s).map fun s ↦ .inl (r, s)
    | .inr s => (other.drained s).map .inr
  closed
    | .inl (r, s) => .inl (r, (Http.Session.protocol r).closed s)
    | .inr s => .inr (other.closed s)
  buffered
    | .inl (r, s) => (Http.Session.protocol r).buffered s
    | .inr s => other.buffered s

def Config.serving {υ : Type} (other : Protocol υ)
    (build : Context → Except HandlerError (Responder ⊕ υ)) (maxBuffer : Nat) :
    Config ((Responder × Http.Session) ⊕ υ) where
  protocol := handlers other
  build context := (build context).map (Sum.map (·, {}) id)
  maxBuffer := maxBuffer

variable {υ : Type}

def HandlerFits : (Responder × Http.Session) ⊕ υ → Bytes → Prop
  | .inl (_, s), output => s.Fits output
  | .inr _, _ => True

theorem keeps_serving (other : Protocol υ) (build : Context → Except HandlerError (Responder ⊕ υ))
    (maxBuffer : Nat) : (Config.serving other build maxBuffer).Keeps HandlerFits where
  opened {context s} now h := by
    simp only [Config.serving] at h
    cases hb : build context with
    | error e =>
      rw [hb] at h
      cases h
    | ok handler =>
      rw [hb] at h
      cases h
      cases handler with
      | inl r => exact Http.Session.fits_new
      | inr s => trivial
  received {s output} data h := by
    match s with
    | .inl (r, s) => exact Http.Session.fits_received r data h
    | .inr s => trivial
  drained {s output} h hs := by
    match s with
    | .inl (r, s) => exact Http.Session.fits_drained r h hs
    | .inr s => trivial
  written {s output pending} h ho hp := by
    match s with
    | .inl (r, s) =>
      obtain ⟨hr, hn⟩ := h
      exact ⟨⟨fun _ ↦ hr.1 ho, fun _ ↦ hp⟩, hn⟩
    | .inr s => trivial

/-- No connection is forgotten. After iterations that succeed, each one in the table was last
registered for reading if it has no output and for writing if it has some. One that is closing has
some. One that speaks HTTP has some while it responds, and nothing to respond to otherwise. -/
theorem watchedFor_of_reached {hooks : Hooks η} {other : Protocol υ}
    {build : Context → Except HandlerError (Responder ⊕ υ)} {maxBuffer : Nat} {acts : List Act}
    {l : Loop ((Responder × Http.Session) ⊕ υ) η}
    (h : Reached hooks (.serving other build maxBuffer) acts l) {t : Token}
    {c : Connection ((Responder × Http.Session) ⊕ υ)} (hc : (t, c) ∈ l.connections) :
    watchedFor t acts = some (if c.output = [] then .readable else .writable) ∧
      (c.closing = true → c.output ≠ []) ∧
      ∀ r s, c.state = .inl (r, s) →
        (c.output ≠ [] ↔ ∃ keepAlive, s.turn = .responding keepAlive) ∧
          (s.turn = .reading → s.next.1 = .ok none) := by
  obtain ⟨ho, hw⟩ := h.tended (keeps_serving other build maxBuffer)
  obtain ⟨hwatched, hclosing, hfits⟩ := hw (ho.find?_of_mem hc)
  refine ⟨?_, hclosing, fun r s hs ↦ ?_⟩
  · rw [hwatched, Connection.interest]
    simp only [List.isEmpty_iff]
  · rw [hs] at hfits
    exact ⟨hfits.responding, hfits.rests⟩

def acceptance : Surroundings := { now := 0, poll := .ok [.listener false], pending := true }

def halfAnswer : Surroundings where
  now := 0
  poll := .ok [.socket
    { token := 1, readable := true, reads := [.bytes (Utf8.encode "GET / HTTP/1.1\r\n\r\nGET")]
      reply := { results := [.taken 9, .wouldBlock] } }]

theorem watchedFor_halfAnswer :
    let config := Config.serving Service.echoProtocol (fun _ ↦ .ok (.inl .greeting)) 1024
    let first := (({ hooks := firstId } : Loop _ UInt64).pollOnce .standalone config acceptance).2
    let second := (first.1.pollOnce .standalone config halfAnswer).2
    Reached .standalone config ([] ++ first.2 ++ second.2) second.1 ∧
      ∃ c, (1, c) ∈ second.1.connections ∧
        (watchedFor 1 ([] ++ first.2 ++ second.2) =
            some (if c.output = [] then .readable else .writable) ∧
          (c.closing = true → c.output ≠ []) ∧
          ∀ r s, c.state = .inl (r, s) →
            (c.output ≠ [] ↔ ∃ keepAlive, s.turn = .responding keepAlive) ∧
              (s.turn = .reading → s.next.1 = .ok none)) ∧
        c.output ≠ [] := by
  intro config first second
  have hfirst : Loop.pollOnce .standalone config acceptance { hooks := firstId } =
      (.ok 1, first) := rfl
  have hsecond : first.1.pollOnce .standalone config halfAnswer = (.ok 1, second) := rfl
  have hr : Reached .standalone config ([] ++ first.2 ++ second.2) second.1 :=
    ((Reached.start firstId).polled hfirst).polled hsecond
  have hc : (1, _) ∈ second.1.connections := List.mem_cons_self
  exact ⟨hr, _, hc, watchedFor_of_reached hr hc, by decide⟩

end Prefork.Server
