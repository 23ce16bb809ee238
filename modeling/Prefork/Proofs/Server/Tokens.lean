import Prefork.Proofs.Server.Integrity

namespace Prefork.Server

variable {σ η : Type}

def Act.isOpened : Act → Bool
  | opened .. => true
  | _ => false

namespace Connection

variable (config : Config σ)

theorem isOpened_rearm (t : Token) (rearmed : Bool) (c : Connection σ) :
    (c.rearm t rearmed).2.any Act.isOpened = false := by
  cases rearmed <;> rfl

theorem isOpened_send (t : Token) (outcome : WriteOutcome) (c : Connection σ) :
    (c.send config t outcome).2.any Act.isOpened = false := by
  have hsent (data : Bytes) :
      (if data.isEmpty then [] else [Act.sent t data]).any Act.isOpened = false := by
    split <;> rfl
  rw [send]
  dsimp only
  split
  · rw [View.behind, List.any_append, hsent]
    rfl
  · split
    · rw [View.behind, List.any_append, hsent]
      exact isOpened_rearm ..
    · split
      · rw [View.behind, List.any_append, hsent]
        rfl
      · split
        · rw [View.behind, List.any_append, List.any_append, hsent]
          exact isOpened_rearm ..
        · rw [View.behind, List.any_append, List.any_append, hsent]
          rfl

theorem isOpened_answer (t : Token) (finished : Bool) (outcome : WriteOutcome)
    (c : Connection σ) : (c.answer config t finished outcome).2.any Act.isOpened = false := by
  rw [answer]
  split
  · split
    · rfl
    · exact isOpened_rearm t _ c
  · exact isOpened_send config t outcome _

theorem isOpened_receive (r : Readiness) (c : Connection σ) :
    (c.receive config r).2.any Act.isOpened = false := by
  rw [receive]
  split
  · rfl
  · split
    · rfl
    · exact isOpened_answer config r.token _ r.reply c
    · dsimp only
      split
      · rw [View.behind, List.any_append, isOpened_answer]
        rfl
      · rfl

theorem isOpened_react (r : Readiness) (c : Connection σ) :
    (c.react config r).2.any Act.isOpened = false := by
  rw [react]
  split
  · rfl
  · split
    · exact isOpened_receive config r c
    · rfl

end Connection

theorem Touch.isOpened_act (config : Config σ) (x : Touch) (c : Connection σ) :
    (x.act config c).2.any Act.isOpened = false := by
  cases x with
  | send t outcome => exact Connection.isOpened_send config t outcome c
  | react r => exact Connection.isOpened_react config r c
  | close t => rfl

section Runs

variable {hooks : Hooks η} {config : Config σ} {l : Loop σ η} {s : σ}

def openedIn (acts : List Act) : List Token :=
  acts.filterMap fun
    | .opened t _ => some t
    | _ => none

theorem openedIn_append (acts more : List Act) :
    openedIn (acts ++ more) = openedIn acts ++ openedIn more := List.filterMap_append

theorem openedIn_eq_nil {acts : List Act} (h : ∀ a ∈ acts, a.isOpened = false) :
    openedIn acts = [] := by
  refine List.filterMap_eq_nil_iff.2 fun a ha ↦ ?_
  have hi := h a ha
  cases a with
  | opened t stays => cases hi
  | _ => rfl

theorem Touch.openedIn_run (x : Touch) (l : Loop σ η) : openedIn (x.run config l).2 = [] := by
  refine openedIn_eq_nil fun a ha ↦ ?_
  cases a with
  | opened t stays =>
    have hview : Act.opened t stays ∈ (Loop.view t (x.run config l)).2 :=
      List.mem_filter.2 ⟨ha, by simp [Act.token?]⟩
    by_cases ht : t = x.token
    · rw [ht, (x.concerns config l).own] at hview
      cases hc : l.find? x.token with
      | none =>
        rw [hc] at hview
        cases hview
      | some c =>
        rw [hc] at hview
        have hany := List.any_eq_false.1 (x.isOpened_act config c) _ hview
        exact absurd rfl hany
    · rw [(x.concerns config l).other ht] at hview
      cases hview
  | _ => rfl

theorem openedIn_accept (env : Surroundings) (l : Loop σ η) :
    openedIn (l.accept hooks config env).2 =
      if (l.admits? hooks config env).isSome then [l.nextToken] else [] := by
  simp only [Loop.accept, Loop.admits?]
  cases env.pending with
  | false => rfl
  | true =>
    simp only [Bool.not_true, Bool.false_eq_true, if_false, if_true]
    cases config.build _ with
    | error e => rfl
    | ok s =>
      simp only [Except.toOption, Option.map_some, Option.isSome_some, if_true]
      split <;> rfl

theorem openedIn_foldl {step : Readiness → Loop σ η → Loop.Run σ η}
    (h : ∀ e l, openedIn (step e l).2 = []) (es : List Readiness) (r : Loop.Run σ η) :
    openedIn (es.foldl (fun r e ↦ r.andThen (step e)) r).2 = openedIn r.2 := by
  induction es generalizing r with
  | nil => rfl
  | cons e es ih =>
    rw [List.foldl_cons, ih, Loop.Run.andThen, openedIn_append, h, List.append_nil]

theorem openedIn_leaveIf (granted : Bool) (l : Loop σ η) :
    openedIn (l.leaveIf hooks granted).2 = [] := by
  cases granted <;> rfl

/-- Whether a loop opens a connection does not depend on those that it has. -/
theorem openedIn_dispatch (hb : ∀ context, config.build context = .ok s) (env : Surroundings)
    (granted : Bool) (events : List Event) (l : Loop σ η) :
    (openedIn (l.dispatch hooks config env granted events).2).length =
      if granted && Loop.listenerReady events && env.pending then 1 else 0 := by
  have hreact (e : Readiness) (l : Loop σ η) : openedIn (Loop.react config e l).2 = [] :=
    Touch.openedIn_run (.react e) l
  have hsend (e : Readiness) (l : Loop σ η) : openedIn (l.send config e.token e.pending).2 = [] :=
    Touch.openedIn_run (.send e.token e.pending) l
  rw [Loop.dispatch_eq]
  dsimp only
  rw [openedIn_foldl hreact, Loop.Run.andThen, openedIn_append, openedIn_leaveIf, List.append_nil]
  generalize hw : ((Loop.sockets events).filter fun r ↦ r.writable && !r.error).foldl
    (fun run r ↦ Loop.Run.andThen run (·.send config r.token r.pending)) (l, []) = written
  have hwritten : openedIn written.2 = [] := by
    rw [← hw]
    exact openedIn_foldl hsend _ _
  cases granted && Loop.listenerReady events with
  | false => simp only [Bool.false_eq_true, if_false, Bool.false_and, hwritten, List.length_nil]
  | true =>
    simp only [if_true, Bool.true_and, Loop.Run.andThen, openedIn_append, hwritten,
      List.nil_append, openedIn_accept, Loop.admits?, hb]
    cases env.pending <;> rfl

/-- Tokens count up from 1. -/
theorem Moment.openedIn_acts {history : History σ η} (hm : Moment hooks config history l) :
    1 ≤ l.nextToken ∧
      openedIn (history.acts hooks config) = List.range' 1 (l.nextToken - 1) := by
  obtain ⟨state, hp⟩ := hm
  induction hp with
  | refl => exact ⟨Nat.le_refl 1, rfl⟩
  | @step h m step hp ih =>
    obtain ⟨hpos, ih⟩ := ih
    rw [History.acts_step, openedIn_append, ih]
    cases step with
    | aside state listening acts quiet =>
      have hnil : openedIn acts = [] := openedIn_eq_nil fun a ha ↦ by
        have hq := quiet a ha
        cases a with
        | opened t stays => cases hq
        | _ => rfl
      rw [Step.run, hnil, List.append_nil]
      exact ⟨hpos, rfl⟩
    | accept env =>
      rw [Step.run, openedIn_accept, Loop.nextToken_accept]
      split
      · refine ⟨Nat.le_succ_of_le hpos, ?_⟩
        obtain ⟨n, hn⟩ := Nat.exists_eq_add_of_le hpos
        rw [hn, Nat.add_sub_cancel_left, Nat.add_sub_cancel, Nat.add_comm 1 n,
          List.range'_1_concat, Nat.add_comm n 1]
      · rw [List.append_nil]
        exact ⟨hpos, rfl⟩
    | touch x =>
      rw [Step.run, x.openedIn_run, List.append_nil, (x.concerns config m).nextToken]
      exact ⟨hpos, rfl⟩

theorem Touch.run_of_none (x : Touch) (h : l.find? x.token = none) :
    x.run config l = (l, []) := by
  cases x with
  | send t outcome =>
    have ht : l.find? t = none := h
    simp only [run, Loop.send, ht]
  | close t =>
    have ht : l.find? t = none := h
    simp only [run, Loop.close, ht]
  | react r =>
    have hr : l.find? r.token = none := h
    simp only [run, Loop.react, Loop.close, Loop.receive, hr, ite_self]

/-- No token is given out twice or to the listening socket, whose token is 0, and nothing is done
for the token of a connection that was closed. -/
structure Distinct (hooks : Hooks η) (config : Config σ) (history : History σ η)
    (l : Loop σ η) : Prop where
  increasing : (openedIn (history.acts hooks config)).Pairwise (· < ·)
  ne_listener : ∀ t ∈ openedIn (history.acts hooks config), t ≠ 0
  stale (x : Touch) : .closed x.token ∈ history.acts hooks config → x.run config l = (l, [])

theorem Moment.distinct {own new : σ → Prop} {history : History σ η}
    (ho : Offered config.protocol own new) (hs : ∀ s, own s)
    (hm : Moment hooks config history l) : Distinct hooks config history l := by
  obtain ⟨-, hopened⟩ := hm.openedIn_acts
  constructor
  · rw [hopened]
    exact List.pairwise_lt_range' ..
  · intro t ht
    rw [hopened] at ht
    exact Nat.ne_of_gt (List.mem_range'_1.1 ht).1
  · intro x hx
    refine x.run_of_none ?_
    cases hc : l.find? x.token with
    | none => rfl
    | some c =>
      have hno := (hm.life x.token).not_closed ho.modest (fun s _ ↦ hs s) hc
      exact absurd (List.mem_filter.2 ⟨hx, by simp [Act.token?]⟩) hno

end Runs

end Prefork.Server
