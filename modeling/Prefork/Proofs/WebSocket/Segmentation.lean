import Prefork.Proofs.Callbacks
import Prefork.Proofs.Http.Parser
import Prefork.Proofs.WebSocket.Frame
import Prefork.Proofs.WebSocket.Recording

namespace Prefork.WebSocket

def Phase.merged : Phase → Phase
  | .http session => .http session
  | .frames inbox unfinished => .frames { front := inbox.bytes } unfinished
  | .closing unfinished => .closing unfinished

namespace Session

open Reading (Steady)
open Http (Head Request Response Responder)
open Http.Parser (Holds Rests)
open Callback (inputs)

variable {τ : Type} {app : Application τ} {limit : Nat} {t : τ} {unfinished : Option Fragments}

def exchange (app : Application τ) (limit : Nat) (t : τ) (unfinished : Option Fragments)
    (b : Bytes) : Reply (Session τ) :=
  pumpUpTo app limit t unfinished b (b.length + 1)

def proceed (app : Application τ) (limit : Nat) (t : τ) (rest : Bytes) :
    Except FrameError (Effect τ) → Reply (Session τ)
  | .error e => fail t e
  | .ok effect =>
    if effect.stays then
      (exchange app limit effect.application effect.unfinished rest).behind effect.output
    else
      { state := { phase := .closing effect.unfinished, application := effect.application }
        output := effect.output }

theorem pumpUpTo_eq {b : Bytes} {fuel : Nat} (h : b.length < fuel) :
    pumpUpTo app limit t unfinished b fuel = exchange app limit t unfinished b := by
  have hsame (m : Nat) : ∀ n b t unfinished, b.length < m → b.length < n →
      pumpUpTo app limit t unfinished b m = pumpUpTo app limit t unfinished b n := by
    -- A frame takes at least a byte, so both kinds of fuel last for what is behind it.
    induction m with
    | zero =>
      intro n b t unfinished hm
      exact absurd hm (Nat.not_lt_zero _)
    | succ m ih =>
      intro n b t unfinished hm hn
      cases n with
      | zero => exact absurd hn (Nat.not_lt_zero _)
      | succ n =>
        cases hr : Frame.read limit b with
        | incomplete missing | invalid e => simp only [pumpUpTo, hr]
        | complete frame rest =>
          have hl := Frame.length_lt_of_read hr
          have hrest (t : τ) (unfinished : Option Fragments) := ih n rest t unfinished
            (by omega) (by omega)
          simp only [pumpUpTo, hr, hrest]
  exact hsame fuel _ b t unfinished h (Nat.lt_succ_self _)

theorem exchange_incomplete {b : Bytes} {n : Nat} (h : Frame.read limit b = .incomplete n) :
    exchange app limit t unfinished b =
      { state := { phase := .frames { front := b, missing := n } unfinished, application := t } } := by
  simp only [exchange, pumpUpTo, h]

theorem exchange_invalid {b : Bytes} {e : FrameError} (h : Frame.read limit b = .invalid e) :
    exchange app limit t unfinished b = fail t e := by
  simp only [exchange, pumpUpTo, h]

theorem exchange_complete {b rest : Bytes} {frame : Frame}
    (h : Frame.read limit b = .complete frame rest) :
    exchange app limit t unfinished b =
      proceed app limit t rest (onFrame app limit t unfinished frame) := by
  have hl := Frame.length_lt_of_read h
  simp only [exchange, pumpUpTo, h]
  cases onFrame app limit t unfinished frame with
  | error e => rfl
  | ok effect =>
    simp only [proceed]
    rw [pumpUpTo_eq hl]
    rfl

theorem pump_of_waits {inbox : Inbox} (h : inbox.waits = true) :
    pump app limit t unfinished inbox =
      { state := { phase := .frames inbox unfinished, application := t } } := by
  rw [pump, if_pos h]

theorem pump_of_not_waits {inbox : Inbox} (h : inbox.waits = false) :
    pump app limit t unfinished inbox = exchange app limit t unfinished inbox.bytes := by
  rw [pump, if_neg (by simp [h]), exchange, Inbox.length_bytes]

def greet (app : Application τ) (limit : Nat) (t : τ) (response : Response) (rest : Bytes) :
    Reply (Session τ) :=
  (exchange app limit (app.opened t).1 none rest).behind
    (response.render ++ send (app.opened t).2)

theorem upgrade_eq {http : Http.Session} {request : Request} {response : Response}
    (h : Handshake.accept request = .ok response) :
    upgrade app limit t http request = greet app limit t response http.takeAll.1 := by
  rw [upgrade, h]
  rfl

def merged (s : Session τ) : Session τ := { s with phase := s.phase.merged }

/-- What a session still outputs and where that leads, if the bytes `unread` are yet to come. -/
inductive Awaits (app : Application τ) (limit : Nat) (unread : Bytes) :
    Session τ → Bytes → Session τ → Prop
  | http {b rest : Bytes} {parser : Http.Parser} {request : Request} {response : Response} (t : τ) :
      Rests b parser → Steady Head.read (b ++ unread) →
      Request.read (b ++ unread) = .complete request rest → Handshake.isUpgrade request = true →
      Handshake.accept request = .ok response →
      Awaits app limit unread { phase := .http { parser }, application := t }
        (greet app limit t response rest).output (greet app limit t response rest).state.merged
  | frames {inbox : Inbox} (t : τ) (unfinished : Option Fragments) :
      (Frame.read limit inbox.bytes).isIncomplete →
      (∀ more, more.length < inbox.missing →
        (Frame.read limit (inbox.bytes ++ more)).isIncomplete) →
      Awaits app limit unread { phase := .frames inbox unfinished, application := t }
        (exchange app limit t unfinished (inbox.bytes ++ unread)).output
        (exchange app limit t unfinished (inbox.bytes ++ unread)).state.merged
  | closing (t : τ) (unfinished : Option Fragments) :
      Awaits app limit unread { phase := .closing unfinished, application := t } []
        { phase := .closing unfinished, application := t }

/-- A reply has output the first part of what was to come and leads on to the same end, or it has
output all of it and the connection is there. -/
def Leads (app : Application τ) (limit : Nat) (unread output : Bytes) (last : Session τ)
    (r : Reply (Session τ)) : Prop :=
  ∃ later, output = r.output ++ later ∧
    if r.stays then Awaits app limit unread r.state later last
    else later = [] ∧ r.state.merged = last

theorem Leads.behind {unread output : Bytes} {last : Session τ} {r : Reply (Session τ)}
    (h : Leads app limit unread output last r) (first : Bytes) :
    Leads app limit unread (first ++ output) last (r.behind first) := by
  obtain ⟨later, rfl, hl⟩ := h
  exact ⟨later, (List.append_assoc ..).symm, hl⟩

theorem Awaits.leads {unread output : Bytes} {s last : Session τ}
    (h : Awaits app limit unread s output last) :
    Leads app limit unread output last { state := s } :=
  ⟨output, (List.nil_append _).symm, h⟩

theorem leads_closing (t : τ) (unfinished : Option Fragments) (unread output : Bytes) :
    Leads app limit unread output { phase := .closing unfinished, application := t }
      { state := { phase := .closing unfinished, application := t }, output } :=
  ⟨[], (List.append_nil _).symm, .closing t unfinished⟩

/-- Bytes behind those that were handled are handled as if they had been there before. -/
theorem exchange_leads (t : τ) (unfinished : Option Fragments) (b unread : Bytes) :
    Leads app limit unread (exchange app limit t unfinished (b ++ unread)).output
      (exchange app limit t unfinished (b ++ unread)).state.merged
      (exchange app limit t unfinished b) := by
  have hread := Frame.incremental_read limit
  cases hr : Frame.read limit b with
  | incomplete n =>
    have hf : Awaits app limit unread
        { phase := .frames { front := b, missing := n } unfinished, application := t } _ _ :=
      .frames t unfinished (by rw [Inbox.bytes_eq]; simp [hr, Reading.isIncomplete]) fun more hm ↦ by
        simpa [Inbox.bytes_eq] using hread.waits hr hm
    rw [exchange_incomplete hr]
    refine Awaits.leads ?_
    simpa [Inbox.bytes_eq] using hf
  | invalid e =>
    rw [exchange_invalid hr, exchange_invalid ((hread.steady _).invalid hr)]
    exact leads_closing ..
  | complete frame rest =>
    have hl := Frame.length_lt_of_read hr
    rw [exchange_complete hr, exchange_complete ((hread.steady _).complete hr)]
    cases onFrame app limit t unfinished frame with
    | error e => exact leads_closing ..
    | ok effect =>
      cases hs : effect.stays with
      | true =>
        simp only [proceed, hs, if_true]
        exact (exchange_leads effect.application effect.unfinished rest unread).behind _
      | false =>
        simp only [proceed, hs, Bool.false_eq_true, if_false]
        exact leads_closing ..
termination_by b.length

theorem greet_leads (t : τ) (response : Response) (rest unread : Bytes) :
    Leads app limit unread (greet app limit t response (rest ++ unread)).output
      (greet app limit t response (rest ++ unread)).state.merged
      (greet app limit t response rest) := by
  simp only [greet, Reply.output_behind, Reply.state_behind]
  exact (exchange_leads (app.opened t).1 none rest unread).behind _

theorem pump_leads (t : τ) (unfinished : Option Fragments) {inbox : Inbox} {data : Bytes}
    (unread : Bytes)
    (hw : ∀ more, more.length < inbox.missing →
      (Frame.read limit (inbox.bytes ++ more)).isIncomplete) :
    Leads app limit unread
      (exchange app limit t unfinished (inbox.bytes ++ (data ++ unread))).output
      (exchange app limit t unfinished (inbox.bytes ++ (data ++ unread))).state.merged
      (pump app limit t unfinished (inbox.push data)) := by
  rw [← List.append_assoc, ← Inbox.bytes_push]
  cases hp : (inbox.push data).waits with
  | false =>
    rw [pump_of_not_waits hp]
    exact exchange_leads ..
  | true =>
    have hm : 0 < inbox.missing - data.length := of_decide_eq_true hp
    rw [pump_of_waits hp]
    refine Awaits.leads (.frames t unfinished ?_ fun more h ↦ ?_)
    · rw [Inbox.bytes_push]
      exact hw data (by omega)
    · rw [Inbox.bytes_push, List.append_assoc]
      refine hw _ ?_
      simp only [Inbox.push] at h
      rw [List.length_append]
      omega

theorem callback_leads (responder : Responder) {c : Callback} {unread output : Bytes}
    {s last : Session τ} (h : Awaits app limit (c.input ++ unread) s output last) :
    Leads app limit unread output last ((protocol app responder limit).callback s c) := by
  cases c with
  | read data =>
    simp only [Callback.input] at h
    cases h with
    | @http b rest parser request response t hp hs hr hu ha =>
      rw [← List.append_assoc] at hs hr
      have hh : Holds (b ++ data) (parser.push data) :=
        hp.holds.push (hs.front (List.prefix_append ..))
      have hq := Request.steady_read hs
      show Leads app limit unread _ _
        (pumpHttp app responder limit t ({ parser := parser.push data } : Http.Session))
      cases hd : Request.read (b ++ data) with
      | incomplete n =>
        obtain ⟨q, hn, hw⟩ := hh.next_rests (by rw [hd]; rfl)
        simp only [pumpHttp, Http.Session.next, hn]
        exact (Awaits.http t hw hs hr hu ha).leads
      | invalid e =>
        rw [hq.invalid hd] at hr
        cases hr
      | complete first behind =>
        rw [hq.complete hd, Reading.complete.injEq] at hr
        obtain ⟨rfl, rfl⟩ := hr
        simp only [pumpHttp, Http.Session.next, hh.next_request hd, hu, if_true, upgrade_eq ha]
        exact greet_leads t response behind unread
    | @frames inbox t unfinished hi hw => exact pump_leads t unfinished unread hw
    | closing t unfinished => exact (Awaits.closing t unfinished).leads
  | write =>
    cases h with
    | http t hp hs hr hu ha => exact (Awaits.http t hp hs hr hu ha).leads
    | frames t unfinished hi hw => exact (Awaits.frames t unfinished hi hw).leads
    | closing t unfinished => exact ⟨[], rfl, rfl, rfl⟩

theorem run_leads (responder : Responder) (cs : List Callback) {unread output : Bytes}
    {s last : Session τ} (h : Awaits app limit (inputs cs ++ unread) s output last) :
    Leads app limit unread output last ((protocol app responder limit).run s cs) := by
  induction cs generalizing s output with
  | nil => exact h.leads
  | cons c cs ih =>
    rw [Callback.inputs_cons, List.append_assoc] at h
    obtain ⟨later, rfl, hl⟩ := callback_leads responder h
    cases hc : ((protocol app responder limit).callback s c).stays with
    | true =>
      rw [hc, if_pos rfl] at hl
      rw [Protocol.run_cons_of_stays _ hc]
      exact (ih hl).behind _
    | false =>
      rw [hc] at hl
      rw [Protocol.run_cons_of_ends _ hc]
      exact ⟨later, rfl, by rw [hc]; exact hl⟩

theorem Awaits.end_eq {output : Bytes} {s last : Session τ} (h : Awaits app limit [] s output last) :
    output = [] ∧ s.merged = last := by
  cases h with
  | http t hp hs hr hu ha =>
    have hw := hp.waits
    rw [List.append_nil] at hr
    rw [hr] at hw
    cases hw
  | @frames inbox t unfinished hi hw =>
    obtain ⟨n, hn⟩ := Reading.eq_incomplete hi
    rw [List.append_nil, exchange_incomplete hn]
    exact ⟨rfl, rfl⟩
  | closing t unfinished => exact ⟨rfl, rfl⟩

theorem Leads.end_eq {output : Bytes} {last : Session τ} {r : Reply (Session τ)}
    (h : Leads app limit [] output last r) : r.output = output ∧ r.state.merged = last := by
  obtain ⟨later, rfl, hl⟩ := h
  cases hr : r.stays with
  | true =>
    rw [hr, if_pos rfl] at hl
    obtain ⟨rfl, hs⟩ := hl.end_eq
    exact ⟨(List.append_nil _).symm, hs⟩
  | false =>
    rw [hr] at hl
    obtain ⟨rfl, hs⟩ := hl
    exact ⟨(List.append_nil _).symm, hs⟩

/-- A stream that begins with an accepted request is answered by what greets that request. -/
theorem run_greets (app : Application τ) (responder : Responder) (limit : Nat) (t : τ)
    {rest : Bytes} {request : Request} {response : Response} {cs : List Callback}
    (hs : Head.Clean (inputs cs)) (hr : Request.read (inputs cs) = .complete request rest)
    (hu : Handshake.isUpgrade request = true) (ha : Handshake.accept request = .ok response) :
    ((protocol app responder limit).run { application := t } cs).output =
        (greet app limit t response rest).output ∧
      ((protocol app responder limit).run { application := t } cs).state.merged =
        (greet app limit t response rest).state.merged := by
  have h : Awaits app limit (inputs cs ++ []) { application := t }
      (greet app limit t response rest).output (greet app limit t response rest).state.merged := by
    rw [List.append_nil]
    exact .http t Http.Parser.rests_new hs.steady hr hu ha
  exact (run_leads responder cs h).end_eq

/-- Behind an accepted request, output, what the application is told and the phase at the end do
not depend on how a stream is cut into reads, nor on where writes stand between them. -/
theorem run_eq_run_read (app : Application τ) (responder : Responder) (limit : Nat) (t : τ)
    {s rest : Bytes} {request : Request} {response : Response} (hs : Head.Clean s)
    (hr : Request.read s = .complete request rest) (hu : Handshake.isUpgrade request = true)
    (ha : Handshake.accept request = .ok response) {cs : List Callback} (hc : inputs cs = s) :
    ((protocol app responder limit).run { application := t } cs).output =
        ((protocol app responder limit).run { application := t } [.read s]).output ∧
      notices app responder limit t cs = notices app responder limit t [.read s] ∧
      ((protocol app responder limit).run { application := t } cs).state.merged =
        ((protocol app responder limit).run { application := t } [.read s]).state.merged := by
  have hw : inputs [.read s] = s := List.append_nil s
  have hcs := run_greets app responder limit t (hc ▸ hs) (hc ▸ hr) hu ha
  have hws := run_greets app responder limit t (hw.symm ▸ hs) (hw.symm ▸ hr) hu ha
  have hcn := run_greets app.recorded responder limit (t, []) (hc ▸ hs) (hc ▸ hr) hu ha
  have hwn := run_greets app.recorded responder limit (t, []) (hw.symm ▸ hs) (hw.symm ▸ hr) hu ha
  have hn := congrArg Session.application (hcn.2.trans hwn.2.symm)
  exact ⟨hcs.1.trans hws.1.symm, congrArg Prod.snd hn, hcs.2.trans hws.2.symm⟩

def cutUpgrade : List Callback :=
  [.read (Utf8.encode "GET /chat HTTP/1.1\r\nConnection: Upgrade\r\nUpgrade: websocket\r\n"), .write,
    .read (Utf8.encode "Sec-WebSocket-Version: 13\r\nSec-WebSocket-Key: a\r\n\r"), .read [10, 1],
    .write, .read [1], .read [104, 137], .read [0, 128, 1], .read [105, 1, 0, 129, 0], .write]

theorem run_cutUpgrade :
    Head.Clean (inputs cutUpgrade) ∧
      (∃ request response, Request.read (inputs cutUpgrade) =
        .complete request [1, 1, 104, 137, 0, 128, 1, 105, 1, 0, 129, 0] ∧
        Handshake.isUpgrade request = true ∧ Handshake.accept request = .ok response) ∧
      ((protocol .echo .greeting 16).run { application := () } cutUpgrade).output =
        ((protocol .echo .greeting 16).run { application := () }
          [.read (inputs cutUpgrade)]).output ∧
      notices .echo .greeting 16 () cutUpgrade =
        notices .echo .greeting 16 () [.read (inputs cutUpgrade)] ∧
      ((protocol .echo .greeting 16).run { application := () } cutUpgrade).state.merged =
        ((protocol .echo .greeting 16).run { application := () }
          [.read (inputs cutUpgrade)]).state.merged := by
  have hs : Head.Clean (inputs cutUpgrade) := by decide +kernel
  have hr : Request.read (inputs cutUpgrade) =
      .complete _ [1, 1, 104, 137, 0, 128, 1, 105, 1, 0, 129, 0] := rfl
  exact ⟨hs, ⟨_, _, hr, rfl, rfl⟩, run_eq_run_read .echo .greeting 16 () hs hr rfl rfl rfl⟩

end Session

end Prefork.WebSocket
