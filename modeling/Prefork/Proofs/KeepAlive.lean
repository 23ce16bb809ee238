import Prefork.Proofs.Http.Headers
import Prefork.Proofs.Http.Transcript
import Prefork.Proofs.WebSocket.Phases
import Prefork.Proofs.WebSocket.Reassembly

namespace Prefork

open Http (Headers Request RequestError Responder Response persists)

theorem Http.Response.persists_announce (r : Response) (keepAlive : Bool) :
    persists (r.announce keepAlive).version (r.announce keepAlive).headers = keepAlive := by
  have hset (h : Headers) (value token : String) :
      (h.set "Connection" value).hasToken "connection" token =
        (Text.pieces [','] value.toList).any fun item ↦
          (Text.trim item).map Char.toLower == Text.fold token := by
    have hc : Text.sameFolded "Connection" "connection" = true := by decide
    rw [Headers.hasToken, Headers.getAll_set, hc, if_pos rfl, List.any_cons, List.any_nil,
      Bool.or_false]
  have hclose : ((Text.pieces [','] "close".toList).any fun item ↦
      (Text.trim item).map Char.toLower == Text.fold "close") = true := by decide
  have hkeep : ((Text.pieces [','] "keep-alive".toList).any fun item ↦
      (Text.trim item).map Char.toLower == Text.fold "keep-alive") = true := by decide
  cases hv : r.version <;> cases keepAlive <;>
    simp only [announce, hv, persists, Headers.hasToken_erase, hset, hclose, hkeep,
      Bool.not_true, Bool.not_false]

variable {σ : Type}

namespace Protocol

/-- Whatever arrives until then, the next write ends the connection or not, as given, and nothing
is output before it. -/
def Decided (p : Protocol σ) (s : σ) (keepAlive : Bool) : Prop :=
  ∀ datas : List Bytes,
    let later := p.play s (datas.map .read)
    later.output = [] ∧ (p.callback later.state .write).stays = keepAlive

/-- Every response that a run queues is output, and the next write does as it says. While HTTP is
spoken nothing else is output. -/
def Truthful (p : Protocol σ) (queued : σ → Callback → Option Response) (speaksHttp : σ → Bool)
    (start : σ) : Prop :=
  ∀ (cs : List Callback) (c : Callback),
    let s := (p.play start cs).state
    let r := p.callback s c
    match queued s c with
    | none => speaksHttp r.state = true → r.output = []
    | some response =>
      r.output = response.render ∧ p.Decided r.state (persists response.version response.headers)

theorem decided_of_invariant (p : Protocol σ) (inv : σ → Prop) {keepAlive : Bool}
    (hread : ∀ s data, inv s →
      (p.callback s (.read data)).output = [] ∧ inv (p.callback s (.read data)).state)
    (hwrite : ∀ s, inv s → (p.callback s .write).stays = keepAlive) {s : σ} (h : inv s) :
    p.Decided s keepAlive := by
  intro datas
  induction datas generalizing s with
  | nil => exact ⟨rfl, hwrite s h⟩
  | cons data datas ih =>
    obtain ⟨ho, hs⟩ := hread s data h
    have hp : p.play s ((data :: datas).map .read) =
        p.play (p.callback s (.read data)).state (datas.map .read) := by
      rw [List.map_cons, play, ho, Reply.behind_nil]
    dsimp only
    rw [hp]
    exact ih hs

end Protocol

namespace Http.Session

def rejection (e : RequestError) : Response :=
  .text .http11 e.status (Utf8.encode (e.message ++ "\n"))

def queuedNext (answer : Request → Option Response) (s : Session) : Option Response :=
  match s.next.1 with
  | .ok none => none
  | .ok (some request) => (answer request).map (·.announce request.keepAlive)
  | .error e => some ((rejection e).announce false)

def queued (answer : Request → Option Response) (s : Session) : Callback → Option Response
  | .read data => queuedNext answer (s.feed data)
  | .write => match s.complete with
    | (some true, s) => queuedNext answer s
    | (some false, _) | (none, _) => none

structure Queues (response : Response) (r : Reply Session) : Prop where
  output : r.output = response.render
  turn : r.state.turn = .responding (persists response.version response.headers)

theorem queues_respond (s : Session) (response : Response) (keepAlive : Bool) :
    Queues (response.announce keepAlive) (s.respond response keepAlive) where
  output := rfl
  turn := by rw [Response.persists_announce, respond]

theorem queues_reject (s : Session) (e : RequestError) :
    Queues ((rejection e).announce false) (s.reject e) := queues_respond { s with parser := {} } _ _

theorem pump_queues (responder : Responder) (s : Session) :
    match queuedNext (fun request ↦ some (responder request)) s with
    | none => (pump responder s).output = []
    | some response => Queues response (pump responder s) := by
  rw [queuedNext, pump]
  obtain ⟨result, next⟩ := s.next
  cases result with
  | error e => exact queues_reject next e
  | ok request =>
    cases request with
    | none => rfl
    | some request => exact queues_respond next _ _

theorem stays_pump (responder : Responder) (s : Session) : (pump responder s).stays = true := by
  rw [pump]
  obtain ⟨result, next⟩ := s.next
  cases result with
  | error e => rfl
  | ok request => cases request <;> rfl

theorem decided_responding (responder : Responder) {s : Session} {keepAlive : Bool}
    (h : s.turn = .responding keepAlive) : (protocol responder).Decided s keepAlive := by
  refine Protocol.decided_of_invariant _ (fun s ↦ s.turn = .responding keepAlive) ?_ ?_ h
  · rintro ⟨parser, turn⟩ data rfl
    exact ⟨rfl, rfl⟩
  · rintro ⟨parser, turn⟩ rfl
    cases keepAlive with
    | false => rfl
    | true => exact stays_pump responder { parser }

theorem callback_queues (responder : Responder) (s : Session) (c : Callback) :
    match queued (fun request ↦ some (responder request)) s c with
    | none => ((protocol responder).callback s c).output = []
    | some response => Queues response ((protocol responder).callback s c) := by
  cases c with
  | read data => exact pump_queues responder (s.feed data)
  | write =>
    obtain ⟨parser, turn⟩ := s
    cases turn with
    | reading => rfl
    | responding keepAlive =>
      cases keepAlive with
      | false => rfl
      | true => exact pump_queues responder { parser }

end Http.Session

namespace WebSocket.Session

variable {τ : Type}

def answer? (responder : Responder) (request : Request) : Option Response :=
  if Handshake.isUpgrade request then
    match Handshake.accept request with
    | .error e => some (e.response request.version)
    | .ok _ => none
  else some (responder request)

def queued (responder : Responder) (s : Session τ) (c : Callback) : Option Response :=
  match s.phase with
  | .http http => http.queued (answer? responder) c
  | .frames _ _ | .closing _ => none

def plain (t : τ) (r : Reply Http.Session) : Reply (Session τ) :=
  r.map fun http ↦ { phase := .http http, application := t }

theorem isUpgraded_pump (app : Application τ) (limit : Nat) (t : τ)
    (unfinished : Option Fragments) (inbox : Inbox) :
    (pump app limit t unfinished inbox).state.isUpgraded = true := by
  cases hw : inbox.waits with
  | true =>
    rw [pump_of_waits hw]
    rfl
  | false =>
    rw [pump_of_not_waits hw]
    exact isUpgraded_of_leaves (exchange_answers app limit t unfinished inbox.bytes).phase

theorem pumpHttp_queues (app : Application τ) (responder : Responder) (limit : Nat) (t : τ)
    (http : Http.Session) :
    match http.queuedNext (answer? responder) with
    | none => (pumpHttp app responder limit t http).state.isUpgraded = false →
      (pumpHttp app responder limit t http).output = []
    | some response => ∃ r, Http.Session.Queues response r ∧
      pumpHttp app responder limit t http = plain t r := by
  rw [Http.Session.queuedNext, pumpHttp]
  obtain ⟨result, next⟩ := http.next
  cases result with
  | error e => exact ⟨_, next.queues_reject e, rfl⟩
  | ok request =>
    cases request with
    | none => exact fun _ ↦ rfl
    | some request =>
      dsimp only
      rw [answer?]
      cases hu : Handshake.isUpgrade request with
      | false => exact ⟨_, next.queues_respond _ _, rfl⟩
      | true =>
        rw [if_pos rfl, if_pos rfl]
        cases ha : Handshake.accept request with
        | error e =>
          rw [upgrade, ha]
          exact ⟨_, next.queues_respond _ _, rfl⟩
        | ok response =>
          intro hs
          rw [upgrade, ha] at hs
          exact absurd hs (by simp [isUpgraded_pump])

theorem decided_responding (app : Application τ) (responder : Responder) (limit : Nat) (t : τ)
    {http : Http.Session} {keepAlive : Bool} (h : http.turn = .responding keepAlive) :
    (protocol app responder limit).Decided { phase := .http http, application := t } keepAlive := by
  refine Protocol.decided_of_invariant _ (fun s ↦ ∃ http : Http.Session,
    http.turn = .responding keepAlive ∧ s = { phase := .http http, application := t }) ?_ ?_
    ⟨http, h, rfl⟩
  · rintro _ data ⟨⟨parser, turn⟩, rfl, rfl⟩
    exact ⟨rfl, _, rfl, rfl⟩
  · rintro _ ⟨⟨parser, turn⟩, rfl, rfl⟩
    cases keepAlive with
    | false => rfl
    | true => exact stays_pumpHttp responder t { parser }

theorem callback_queues (app : Application τ) (responder : Responder) (limit : Nat)
    (s : Session τ) (c : Callback) :
    match queued responder s c with
    | none => ((protocol app responder limit).callback s c).state.isUpgraded = false →
      ((protocol app responder limit).callback s c).output = []
    | some response => ∃ r, Http.Session.Queues response r ∧
      (protocol app responder limit).callback s c = plain s.application r := by
  obtain ⟨phase, t⟩ := s
  cases phase with
  | http http =>
    cases c with
    | read data => exact pumpHttp_queues app responder limit t (http.feed data)
    | write =>
      obtain ⟨parser, turn⟩ := http
      cases turn with
      | reading => exact fun _ ↦ rfl
      | responding keepAlive =>
        cases keepAlive with
        | false => exact fun _ ↦ rfl
        | true => exact pumpHttp_queues app responder limit t { parser }
  | frames inbox unfinished =>
    cases c with
    | read data =>
      intro hs
      have hu : (pump app limit t unfinished (inbox.push data)).state.isUpgraded = false := hs
      rw [isUpgraded_pump] at hu
      cases hu
    | write => exact fun _ ↦ rfl
  | closing unfinished => cases c <;> exact fun _ ↦ rfl

end WebSocket.Session

/-- Sessions do with the connection what their responses announce, on connections that may change
protocols until they do. -/
theorem truthful_sessions (responder : Responder) {τ : Type} (app : WebSocket.Application τ)
    (limit : Nat) (t : τ) :
    (Http.Session.protocol responder).Truthful
        (Http.Session.queued fun request ↦ some (responder request)) (fun _ ↦ true) {} ∧
      (WebSocket.Session.protocol app responder limit).Truthful
        (WebSocket.Session.queued responder) (fun s ↦ !s.isUpgraded) { application := t } := by
  constructor
  · intro cs c
    have hq := Http.Session.callback_queues responder
      ((Http.Session.protocol responder).play {} cs).state c
    dsimp only
    split at hq
    · exact fun _ ↦ hq
    · exact ⟨hq.output, Http.Session.decided_responding responder hq.turn⟩
  · intro cs c
    have hq := WebSocket.Session.callback_queues app responder limit
      ((WebSocket.Session.protocol app responder limit).play { application := t } cs).state c
    dsimp only
    split at hq
    · intro hs
      exact hq (Bool.not_eq_true' _ ▸ hs)
    · obtain ⟨r, hr, hp⟩ := hq
      rw [hp]
      exact ⟨hr.output, WebSocket.Session.decided_responding app responder limit _ hr.turn⟩

def Http.Responder.contrary : Responder := fun _ ↦
  { version := .http10, status := .ok
    headers := ⟨[("CONNECTION", "close"), ("X-Tag", "a"), ("connection", "upgrade, Close")]⟩ }

example :
    Http.Session.queued (fun request ↦ some (Http.Responder.contrary request)) {}
        (.read (Utf8.encode "GET / HTTP/1.1\r\n\r\n")) =
      some { version := .http10, status := .ok
             headers := ⟨[("X-Tag", "a"), ("Connection", "keep-alive")]⟩ } := by decide +kernel

end Prefork
