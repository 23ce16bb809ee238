import Prefork.Proofs.WebSocket.Segmentation

namespace Prefork

open Callback (inputs)

theorem Http.Parser.suffix_finish (head : Http.Head) (b : Bytes) :
    (finish head b).2.inbox.bytes <:+ b := by
  rcases Nat.lt_or_ge b.length head.contentLength with hl | hl
  · simp [finish_of_lt hl, Inbox.bytes_eq]
  · rw [finish_of_le hl, Inbox.bytes_eq]
    simpa using List.drop_suffix head.contentLength b

theorem Http.Parser.suffix_next (p : Http.Parser) : p.next.2.inbox.bytes <:+ p.inbox.bytes := by
  cases hw : p.waits with
  | true => exact (next_of_waits hw).symm ▸ List.suffix_rfl
  | false =>
    simp only [next, hw, Bool.false_eq_true, if_false]
    cases p.head with
    | some head => exact suffix_finish head p.inbox.bytes
    | none =>
      dsimp only
      cases hr : Http.Head.read p.inbox.bytes with
      | incomplete n => simp [Inbox.bytes_eq]
      | invalid e => exact List.nil_suffix
      | complete head rest => exact (suffix_finish head rest).trans (Http.Head.suffix_of_read hr).1

theorem Http.Session.suffix_next (s : Http.Session) :
    s.next.2.parser.inbox.bytes <:+ s.parser.inbox.bytes := by
  obtain ⟨parser, turn⟩ := s
  cases turn with
  | responding keepAlive => exact List.suffix_rfl
  | reading => exact Http.Parser.suffix_next parser

/-- Bytes that wait for a frame hold no whole one, and none before the missing bytes are there. -/
def WebSocket.Phase.Settled (limit : Nat) : WebSocket.Phase → Prop
  | frames inbox _ => (WebSocket.Frame.read limit inbox.bytes).isIncomplete ∧
      ∀ more, more.length < inbox.missing →
        (WebSocket.Frame.read limit (inbox.bytes ++ more)).isIncomplete
  | http _ | closing _ => True

namespace WebSocket.Session

open Http (Request Response Responder)

variable {τ : Type} {app : Application τ} {limit : Nat}

theorem Awaits.settled {unread output : Bytes} {s last : Session τ}
    (h : Awaits app limit unread s output last) : s.phase.Settled limit := by
  cases h with
  | http | closing => trivial
  | frames t unfinished hi hw => exact ⟨hi, hw⟩

theorem stays_pumpUpTo (t : τ) (unfinished : Option Fragments) (b : Bytes) (fuel : Nat) :
    (pumpUpTo app limit t unfinished b fuel).stays = true := by
  induction fuel generalizing t unfinished b with
  | zero => rfl
  | succ fuel ih =>
    rw [pumpUpTo]
    cases Frame.read limit b with
    | incomplete n => rfl
    | invalid e => rfl
    | complete frame rest =>
      dsimp only
      cases onFrame app limit t unfinished frame with
      | error e => rfl
      | ok effect =>
        cases hs : effect.stays with
        | true => simpa [hs] using ih effect.application effect.unfinished rest
        | false => simp [hs]

theorem stays_pump (t : τ) (unfinished : Option Fragments) (inbox : Inbox) :
    (pump app limit t unfinished inbox).stays = true := by
  rw [pump]
  split
  · rfl
  · exact stays_pumpUpTo ..

theorem stays_pumpHttp (responder : Responder) (t : τ) (http : Http.Session) :
    (pumpHttp app responder limit t http).stays = true := by
  rw [pumpHttp]
  obtain ⟨result, http⟩ := http.next
  cases result with
  | error e => rfl
  | ok request =>
    cases request with
    | none => rfl
    | some request =>
      dsimp only
      split
      · rw [upgrade]
        cases Handshake.accept request with
        | error e => rfl
        | ok response => exact stays_pump ..
      · rfl

theorem stays_read (responder : Responder) (s : Session τ) (data : Bytes) :
    ((protocol app responder limit).callback s (.read data)).stays = true := by
  obtain ⟨phase, t⟩ := s
  cases phase with
  | http http => exact stays_pumpHttp responder t (http.feed data)
  | frames inbox unfinished => exact stays_pump t unfinished (inbox.push data)
  | closing unfinished => rfl

theorem callback_closing (responder : Responder) (t : τ) (unfinished : Option Fragments)
    (c : Callback) :
    (protocol app responder limit).callback { phase := .closing unfinished, application := t } c =
      { state := { phase := .closing unfinished, application := t }, stays := c ≠ .write } := by
  cases c <;> rfl

theorem callback_awaits (responder : Responder) {c : Callback} {unread output : Bytes}
    {s last : Session τ} (h : Awaits app limit (c.input ++ unread) s output last) :
    ∃ later, output = ((protocol app responder limit).callback s c).output ++ later ∧
      Awaits app limit unread ((protocol app responder limit).callback s c).state later last := by
  obtain ⟨later, ho, hl⟩ := callback_leads responder h
  cases hs : ((protocol app responder limit).callback s c).stays with
  | true =>
    rw [hs, if_pos rfl] at hl
    exact ⟨later, ho, hl⟩
  | false =>
    cases c with
    | read data =>
      rw [stays_read] at hs
      cases hs
    | write =>
      cases h with
      | http t hp _ hr hu ha => cases hs
      | frames t unfinished hi hw => cases hs
      | closing t unfinished => exact ⟨[], rfl, .closing t unfinished⟩

theorem play_awaits (responder : Responder) (cs : List Callback) {unread output : Bytes}
    {s last : Session τ} (h : Awaits app limit (inputs cs ++ unread) s output last) :
    ∃ later, output = ((protocol app responder limit).play s cs).output ++ later ∧
      Awaits app limit unread ((protocol app responder limit).play s cs).state later last := by
  induction cs generalizing s output with
  | nil => exact ⟨output, rfl, h⟩
  | cons c cs ih =>
    rw [Callback.inputs_cons, List.append_assoc] at h
    obtain ⟨later, rfl, hl⟩ := callback_awaits responder h
    obtain ⟨rest, rfl, hr⟩ := ih hl
    exact ⟨rest, (List.append_assoc ..).symm, hr⟩

theorem run_stays (responder : Responder) (cs : List Callback) {unread output : Bytes}
    {s last : Session τ} (h : Awaits app limit (inputs cs ++ unread) s output last)
    (hl : ∀ unfinished, last.phase ≠ .closing unfinished) :
    ((protocol app responder limit).run s cs).stays = true := by
  induction cs generalizing s output with
  | nil => rfl
  | cons c cs ih =>
    rw [Callback.inputs_cons, List.append_assoc] at h
    obtain ⟨later, -, hlater⟩ := callback_awaits responder h
    have hs : ((protocol app responder limit).callback s c).stays = true := by
      cases c with
      | read data => exact stays_read responder s data
      | write =>
        cases h with
        | http | frames => rfl
        | closing t unfinished =>
          -- Nothing leads out of this phase, so it would be the last one too.
          exact absurd rfl (hl unfinished)
    rw [Protocol.run_cons_of_stays _ hs]
    exact ih hlater

theorem stays_greet (t : τ) (response : Response) (rest : Bytes) :
    (greet app limit t response rest).stays = true := by
  simp only [greet, Reply.behind, exchange, stays_pumpUpTo]

/-- Callbacks behind an accepted request are answered as if all their bytes had come with it. -/
theorem play_greet (app : Application τ) (responder : Responder) (limit : Nat) (t : τ)
    (response : Response) (rest : Bytes) (cs : List Callback) :
    let r := (protocol app responder limit).play (greet app limit t response rest).state cs
    (greet app limit t response rest).output ++ r.output =
        (greet app limit t response (rest ++ inputs cs)).output ∧
      r.state.merged = (greet app limit t response (rest ++ inputs cs)).state.merged := by
  have hg : Leads app limit (inputs cs) _ _ (greet app limit t response rest) :=
    greet_leads t response rest (inputs cs)
  obtain ⟨later, ho, hl⟩ := hg
  rw [stays_greet, if_pos rfl] at hl
  have ha : Awaits app limit (inputs cs ++ []) (greet app limit t response rest).state later
      (greet app limit t response (rest ++ inputs cs)).state.merged := by rwa [List.append_nil]
  obtain ⟨last, rfl, hr⟩ := play_awaits responder cs ha
  obtain ⟨rfl, hm⟩ := hr.end_eq
  rw [List.append_nil] at ho
  exact ⟨ho.symm, hm⟩

inductive Serves (app : Application τ) (limit : Nat) (t : τ) (held : Bytes) :
    Reply (Session τ) → Prop
  | http (http : Http.Session) (output : Bytes) (stays : Bool) :
      http.parser.inbox.bytes <:+ held →
      Serves app limit t held { state := { phase := .http http, application := t }, output, stays }
  | greets (rest : Bytes) {request : Request} {response : Response} :
      rest <:+ held → Handshake.isUpgrade request = true →
      Handshake.accept request = .ok response →
      Serves app limit t held (greet app limit t response rest)

theorem serves_pumpHttp (app : Application τ) (responder : Responder) (limit : Nat) (t : τ)
    (http : Http.Session) :
    Serves app limit t http.parser.inbox.bytes (pumpHttp app responder limit t http) := by
  have hs := http.suffix_next
  rw [pumpHttp]
  generalize http.next = result at hs
  obtain ⟨result, next⟩ := result
  cases result with
  | error e => exact .http _ _ true List.nil_suffix
  | ok request =>
    cases request with
    | none => exact .http next [] true hs
    | some request =>
      dsimp only
      cases hu : Handshake.isUpgrade request with
      | false => exact .http _ _ true hs
      | true =>
        rw [if_pos rfl]
        cases ha : Handshake.accept request with
        | error e =>
          rw [upgrade, ha]
          exact .http _ _ true hs
        | ok response =>
          rw [upgrade_eq ha]
          exact .greets _ hs hu ha

theorem callback_serves (app : Application τ) (responder : Responder) (limit : Nat) (t : τ)
    (http : Http.Session) (c : Callback) :
    Serves app limit t (http.parser.inbox.bytes ++ c.input)
      ((protocol app responder limit).callback { phase := .http http, application := t } c) := by
  cases c with
  | read data =>
    have hp := serves_pumpHttp app responder limit t (http.feed data)
    rwa [Http.Session.feed, Http.Parser.push, Inbox.bytes_push] at hp
  | write =>
    rw [Callback.input, List.append_nil]
    obtain ⟨parser, turn⟩ := http
    cases turn with
    | reading => exact .http _ [] true List.suffix_rfl
    | responding keepAlive =>
      cases keepAlive with
      | false => exact .http _ [] false List.suffix_rfl
      | true => exact serves_pumpHttp app responder limit t { parser }

theorem callback_settled (app : Application τ) (responder : Responder) {s : Session τ}
    (h : s.phase.Settled limit) (c : Callback) :
    ((protocol app responder limit).callback s c).state.phase.Settled limit := by
  obtain ⟨phase, t⟩ := s
  cases phase with
  | http http =>
    have hc := callback_serves app responder limit t http c
    generalize (protocol app responder limit).callback { phase := .http http, application := t } c =
      r at hc
    cases hc with
    | http => trivial
    | @greets rest request response =>
      have hg : Leads app limit [] _ _ (greet app limit t response rest) :=
        greet_leads t response rest []
      obtain ⟨later, -, hl⟩ := hg
      rw [stays_greet, if_pos rfl] at hl
      exact hl.settled
  | frames inbox unfinished =>
    cases c with
    | read data =>
      have hp : Leads app limit [] _ _ (pump app limit t unfinished (inbox.push data)) :=
        pump_leads t unfinished [] h.2
      obtain ⟨later, -, hl⟩ := hp
      rw [stays_pump, if_pos rfl] at hl
      exact hl.settled
    | write => exact h
  | closing unfinished =>
    rw [callback_closing]
    trivial

theorem play_settled (app : Application τ) (responder : Responder) {s : Session τ}
    (h : s.phase.Settled limit) (cs : List Callback) :
    ((protocol app responder limit).play s cs).state.phase.Settled limit := by
  induction cs generalizing s with
  | nil => exact h
  | cons c cs ih => exact ih (callback_settled app responder h c)

end WebSocket.Session

end Prefork
