import Prefork.Proofs.Server.Moments

namespace Prefork.Server

open Loop (Run)

variable {σ η : Type}

namespace Loop

structure Beside (t : Token) (l : Loop σ η) (r : Run σ η) : Prop where
  hooks : r.1.hooks = l.hooks
  listening : r.1.listening = l.listening
  accepted : r.1.stats.accepted = l.stats.accepted
  acts : ∀ a ∈ r.2, a.token? = some t

structure Stays (t : Token) (l : Loop σ η) (r : Run σ η) : Prop extends Beside t l r where
  tokens : r.1.tokens = l.tokens
  active : r.1.stats.active = l.stats.active
  overflowed : r.1.stats.overflowed = l.stats.overflowed

structure Leaves (t : Token) (l : Loop σ η) (r : Run σ η) : Prop extends Beside t l r where
  mem : t ∈ l.tokens
  tokens : r.1.tokens = l.tokens.filter (· != t)
  active : r.1.stats.active = l.stats.active - 1
  overflowed : r.1.stats.overflowed = l.stats.overflowed ∨
    r.1.stats.overflowed = l.stats.overflowed + 1

/-- All that a step which deals with one socket can do beyond its connection. -/
inductive Confined (t : Token) (l : Loop σ η) (r : Run σ η) : Prop
  | stays : Stays t l r → Confined t l r
  | leaves : Leaves t l r → Confined t l r

variable {l : Loop σ η} {t : Token} {r : Run σ η}

theorem Confined.beside (h : Confined t l r) : Beside t l r := by
  cases h with
  | stays h => exact h.toBeside
  | leaves h => exact h.toBeside

theorem Beside.trans {r' : Run σ η} (h : Beside t l r) (h' : Beside t r.1 r') :
    Beside t l (r'.1, r.2 ++ r'.2) := by
  refine ⟨h'.hooks.trans h.hooks, h'.listening.trans h.listening, h'.accepted.trans h.accepted, ?_⟩
  intro a ha
  rcases List.mem_append.1 ha with ha | ha
  · exact h.acts a ha
  · exact h'.acts a ha

theorem Stays.nil (l : Loop σ η) (t : Token) : Stays t l (l, []) :=
  ⟨⟨rfl, rfl, rfl, nofun⟩, rfl, rfl, rfl⟩

theorem Stays.put {m : Loop σ η} {acts done : List Act} {s : Stats} (h : Stays t l (m, done))
    (c : Connection σ) (hs : s.accepted = m.stats.accepted) (ha : s.active = m.stats.active)
    (ho : s.overflowed = m.stats.overflowed) (hacts : ∀ a ∈ acts, a.token? = some t) :
    Stays t l ({ m.put t c with stats := s }, acts) :=
  ⟨⟨h.hooks, h.listening, hs.trans h.accepted, hacts⟩, (tokens_put m t c).trans h.tokens,
    ha.trans h.active, ho.trans h.overflowed⟩

theorem Stays.andThen {step : Loop σ η → Run σ η} (h : Stays t l r)
    (hs : Confined t r.1 (step r.1)) : Confined t l (r.andThen step) := by
  cases hs with
  | stays hs =>
    exact .stays ⟨h.toBeside.trans hs.toBeside, hs.tokens.trans h.tokens,
      hs.active.trans h.active, hs.overflowed.trans h.overflowed⟩
  | leaves hs =>
    obtain ⟨hbeside, htokens, hactive, hoverflowed⟩ := h
    exact .leaves ⟨hbeside.trans hs.toBeside, htokens ▸ hs.mem, htokens ▸ hs.tokens,
      hactive ▸ hs.active, hoverflowed ▸ hs.overflowed⟩

theorem mem_tokens_of_find? {c : Connection σ} (h : l.find? t = some c) : t ∈ l.tokens := by
  obtain ⟨e, he, -⟩ := Option.map_eq_some_iff.1 h
  have ht : e.1 = t := by simpa using List.find?_some he
  exact ht ▸ List.mem_map_of_mem (List.mem_of_find?_eq_some he)

theorem close_eq {c : Connection σ} (h : l.find? t = some c) : l.close t =
    ({ l with connections := l.connections.filter (·.1 != t), stats := l.stats.closed },
      [.closed t, .dropped t]) := by
  rw [close, h]

theorem leaves_close {c : Connection σ} (h : l.find? t = some c) : Leaves t l (l.close t) := by
  rw [close_eq h]
  refine ⟨⟨rfl, rfl, rfl, by simp [Act.token?]⟩, mem_tokens_of_find? h, ?_, rfl, .inl rfl⟩
  rw [tokens, tokens, List.filter_map]
  rfl

theorem confined_close (l : Loop σ η) (t : Token) : Confined t l (l.close t) := by
  cases h : l.find? t with
  | none =>
    rw [close, h]
    exact .stays (.nil l t)
  | some c => exact .leaves (leaves_close h)

theorem confined_rearm (l : Loop σ η) (t : Token) (rearmed : Bool) :
    Confined t l (l.rearm t rearmed) := by
  rw [rearm]
  split
  · exact .stays (.nil l t)
  · split
    · exact .stays ((Stays.nil l t).put _ rfl rfl rfl (by simp [Act.token?]))
    · exact confined_close l t

variable (config : Config σ)

theorem confined_send (l : Loop σ η) (t : Token) (outcome : WriteOutcome) :
    Confined t l (l.send config t outcome) := by
  rw [send]
  split
  · exact .stays (.nil l t)
  · next c _ =>
    dsimp only
    generalize Connection.flush c.output outcome.results = flushed
    generalize hs : (if flushed.sent.isEmpty then [] else [Act.sent t flushed.sent]) = sent
    have hsent : ∀ a ∈ sent, a.token? = some t := by
      rw [← hs]
      split <;> simp [Act.token?]
    have hdrained (stays : Bool) : ∀ a ∈ sent ++ [Act.drained t stays], a.token? = some t := by
      intro a ha
      rcases List.mem_append.1 ha with ha | ha
      · exact hsent a ha
      · rw [List.mem_singleton.1 ha, Act.token?]
    have hput (s : Stats) (hs : s.accepted = l.stats.accepted) (ha : s.active = l.stats.active)
        (ho : s.overflowed = l.stats.overflowed) :
        Stays t l ({ l.put t { c with output := flushed.pending } with stats := s }, sent) :=
      (Stays.nil l t).put _ hs ha ho hsent
    split
    · exact (hput l.stats rfl rfl rfl).andThen (confined_close _ t)
    · have hwrote := hput (l.stats.wrote flushed.sent.length) rfl rfl rfl
      split
      · exact hwrote.andThen (confined_rearm _ t _)
      · split
        · exact hwrote.andThen (confined_close _ t)
        · split
          · exact (hwrote.put _ rfl rfl rfl (hdrained _)).andThen (confined_rearm _ t _)
          · exact (hwrote.put _ rfl rfl rfl (hdrained _)).andThen (confined_close _ t)

theorem confined_answer (l : Loop σ η) (t : Token) (finished : Bool) (outcome : WriteOutcome) :
    Confined t l (l.answer config t finished outcome) := by
  rw [answer]
  split
  · exact .stays (.nil l t)
  · next c _ =>
    split
    · split
      · exact confined_close l t
      · exact confined_rearm l t _
    · have hput : Stays t l (l.put t { c with closing := finished }, []) :=
        (Stays.nil l t).put _ rfl rfl rfl (List.forall_mem_nil _)
      have hsend : Confined t l (Run.andThen (l.put t { c with closing := finished }, [])
          (·.send config t outcome)) := hput.andThen (confined_send config _ t outcome)
      exact hsend

theorem confined_receive (l : Loop σ η) (r : Readiness) :
    Confined r.token l (l.receive config r) := by
  rw [receive]
  split
  · exact .stays (.nil l _)
  · next c hc =>
    dsimp only
    split
    · exact .stays (.nil l _)
    · split
      · have h := leaves_close (l := { l with stats := l.stats.overflow }) hc
        have hclose := close_eq (l := { l with stats := l.stats.overflow }) hc
        exact .leaves ⟨⟨h.hooks, h.listening, h.accepted, h.acts⟩, h.mem, h.tokens, h.active,
          .inr (congrArg (·.1.stats.overflowed) hclose)⟩
      · exact confined_close l _
      · exact confined_answer config l ..
      · next data finished _ _ =>
        have hput (d : Connection σ) (stays : Bool) : Stays r.token l
            ({ l.put r.token d with stats := l.stats.read data.length },
              [.received r.token data stays]) :=
          (Stays.nil l r.token).put d rfl rfl rfl (by simp [Act.token?])
        split
        · exact (hput _ _).andThen (confined_answer config _ ..)
        · exact (hput _ _).andThen (confined_close _ _)

theorem confined_react (l : Loop σ η) (r : Readiness) : Confined r.token l (react config r l) := by
  rw [react]
  split
  · exact confined_close l _
  · split
    · exact confined_receive config l r
    · exact .stays (.nil l _)

end Loop

theorem Touch.confined (config : Config σ) (x : Touch) (l : Loop σ η) :
    Loop.Confined x.token l (x.run config l) := by
  cases x with
  | send t outcome => exact Loop.confined_send config l t outcome
  | react r => exact Loop.confined_react config l r
  | close t => exact Loop.confined_close l t

end Prefork.Server
