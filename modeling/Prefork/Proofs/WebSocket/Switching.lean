import Mathlib.Data.List.Induction
import Prefork.Proofs.Http.Consumption
import Prefork.Proofs.KeepAlive
import Prefork.Proofs.WebSocket.Handshake
import Prefork.Proofs.WebSocket.Phases
import Prefork.Proofs.WebSocket.Reassembly

namespace Prefork

open Callback (inputs)
open Http (Request RequestError Responder Response)
open Http.Parser (Slice Opens Sound)

abbrev Http.Parsed := Except RequestError Request

open Http (Parsed)

def Http.Parsed.keepAlive : Parsed → Bool
  | .ok request => request.keepAlive
  | .error _ => false

/-- Received bytes, up to the last error dropped, and behind it the requests parsed since and what
is left. -/
def Http.Parsed.Spends (log : List Parsed) (received rest : Bytes) : Prop :=
  ∃ (dropped : Bytes) (earlier : List Parsed) (slices : List Slice),
    received = dropped ++ slices.flatMap Slice.bytes ++ rest ∧
    log = earlier ++ slices.map (fun slice ↦ .ok slice.request) ∧
    ((∀ e, .error e ∉ log) → dropped = [] ∧ earlier = [])

namespace Http.Parsed.Spends

variable {log : List Parsed} {received rest : Bytes}

theorem new : Spends [] [] [] := ⟨[], [], [], rfl, rfl, fun _ ↦ ⟨rfl, rfl⟩⟩

theorem read (h : Spends log received rest) (data : Bytes) :
    Spends log (received ++ data) (rest ++ data) := by
  obtain ⟨dropped, earlier, slices, hreceived, hlog, hwhole⟩ := h
  refine ⟨dropped, earlier, slices, ?_, hlog, hwhole⟩
  rw [hreceived, List.append_assoc _ rest]

theorem request {slice : Slice} (h : Spends log received (slice.bytes ++ rest)) :
    Spends (log ++ [.ok slice.request]) received rest := by
  obtain ⟨dropped, earlier, slices, hreceived, hlog, hwhole⟩ := h
  refine ⟨dropped, earlier, slices ++ [slice], ?_, ?_, ?_⟩
  · rw [hreceived, List.flatMap_append, List.flatMap_singleton]
    simp only [List.append_assoc]
  · rw [hlog, List.map_append, List.map_singleton, List.append_assoc]
  · intro hno
    exact hwhole fun e he ↦ hno e (List.mem_append_left _ he)

theorem error (received : Bytes) (log : List Parsed) (e : RequestError) :
    Spends (log ++ [.error e]) received [] := by
  refine ⟨received, log ++ [.error e], [], ?_, ?_, ?_⟩
  · rw [List.flatMap_nil, List.append_nil, List.append_nil]
  · rw [List.map_nil, List.append_nil]
  · intro hno
    exact absurd (List.mem_append_right log List.mem_cons_self) (hno e)

theorem suffix (h : Spends log received rest) : rest <:+ received := by
  obtain ⟨dropped, _, slices, hreceived, -⟩ := h
  exact ⟨_, hreceived.symm⟩

end Http.Parsed.Spends

namespace Http.Session

def parse (s : Session) : Option Parsed :=
  match s.next.1 with
  | .ok request => request.map .ok
  | .error e => some (.error e)

def taken (s : Session) : Callback → Option Parsed
  | .read data => (s.feed data).parse
  | .write => match s.complete with
    | (some true, s) => s.parse
    | (some false, _) | (none, _) => none

def lives (s : Session) : Bool :=
  match s.turn with
  | .reading => true
  | .responding keepAlive => keepAlive

end Http.Session

namespace WebSocket.Session

variable {τ : Type}

def taken (s : Session τ) (c : Callback) : Option Parsed :=
  match s.phase with
  | .http http => http.taken c
  | .frames _ _ | .closing _ => none

def parsed (p : Protocol (Session τ)) (s : Session τ) : List Callback → List Parsed
  | [] => []
  | c :: cs => (s.taken c).toList ++ parsed p (p.callback s c).state cs

def reply (responder : Responder) : Parsed → Response
  | .error e => (Http.Session.rejection e).announce false
  | .ok request =>
    if Handshake.isUpgrade request then
      match Handshake.accept request with
      | .ok response => response
      | .error e => (e.response request.version).announce request.keepAlive
    else (responder request).announce request.keepAlive

def replies (responder : Responder) (log : List Parsed) : Bytes :=
  log.flatMap fun x ↦ (reply responder x).render

def learned (app : Application τ) (responder : Responder) (limit : Nat) (t : τ)
    (cs : List Callback) : List Application.Notice :=
  ((protocol app.recorded responder limit).play { application := (t, []) } cs).state.application.2

def Plain (log : List Parsed) : Prop := ∀ request, .ok request ∈ log → ¬ Handshake.Valid request

theorem reply_valid (responder : Responder) {request : Request} (h : Handshake.Valid request) :
    Handshake.accept request = .ok (reply responder (.ok request)) ∧
      (reply responder (.ok request)).status = .switchingProtocols := by
  obtain ⟨response, ha, hs⟩ := h.accept
  rw [reply, if_pos (Handshake.isUpgrade_iff.2 h.toAsks), ha]
  exact ⟨rfl, hs⟩

theorem status_reply_iff {responder : Responder}
    (hr : ∀ request, (responder request).status ≠ .switchingProtocols) (x : Parsed) :
    (reply responder x).status = .switchingProtocols ↔
      ∃ request, x = .ok request ∧ Handshake.Valid request := by
  constructor
  · intro hs
    cases x with
    | error e =>
      have he : e.status = .switchingProtocols := hs
      cases e <;> cases he
    | ok request =>
      rw [reply] at hs
      cases hu : Handshake.isUpgrade request with
      | false =>
        rw [hu] at hs
        exact absurd hs (hr request)
      | true =>
        rw [if_pos hu] at hs
        cases ha : Handshake.accept request with
        | error e =>
          rw [ha] at hs
          exact absurd hs (e.status_response_ne request.version)
        | ok response => exact ⟨request, rfl, (Handshake.isUpgrade_iff.1 hu).valid_of_accept ha⟩
  · intro ⟨request, hx, hvalid⟩
    rw [hx]
    exact (reply_valid responder hvalid).2

theorem status_reply_of_not_versioned (responder : Responder) {request : Request}
    (h : Handshake.Asks request) (hv : ¬ Handshake.Versioned request) :
    (reply responder (.ok request)).status = .upgradeRequired := by
  rw [reply, if_pos (Handshake.isUpgrade_iff.2 h), Handshake.accept_of_not_versioned hv]
  rfl

theorem status_reply_of_not_keyed (responder : Responder) {request : Request}
    (h : Handshake.Asks request) (hv : Handshake.Versioned request)
    (hk : ¬ Handshake.Keyed request) :
    (reply responder (.ok request)).status = .badRequest := by
  rw [reply, if_pos (Handshake.isUpgrade_iff.2 h), Handshake.accept_of_not_keyed hv hk]
  rfl

/-- Something comes out of the parser and gets its response. Then nothing is output until the next
write, which ends the connection or not as was asked for. -/
structure Answered (p : Protocol (Session τ)) (responder : Responder) (s : Session τ) (c : Callback)
    (x : Parsed) : Prop where
  http : (p.callback s c).state.isUpgraded = false
  output : (p.callback s c).output = (reply responder x).render
  decided : p.Decided (p.callback s c).state x.keepAlive

structure Unchanged (p : Protocol (Session τ)) (responder : Responder) (s : Session τ)
    (cs : List Callback) : Prop where
  http : (p.play s cs).state.isUpgraded = false
  plain : Plain (parsed p s cs)
  output : (p.play s cs).output = replies responder (parsed p s cs)

/-- How a connection has changed protocols, with which callback and on which request. Bytes that
were received behind the request are left, and frames are sent. -/
structure Changed (p : Protocol (Session τ)) (responder : Responder) (s : Session τ)
    (before : List Callback) (c : Callback) (after : List Callback) (request : Request)
    (rest : Bytes) (sent : List Frame) : Prop where
  unchanged : Unchanged p responder s before
  taken : (p.play s before).state.taken c = some (.ok request)
  valid : Handshake.Valid request
  upgraded (ds : List Callback) : (p.play s (before ++ c :: ds)).state.isUpgraded = true
  /-- No write has ended the connection before exactly if all that was parsed let it stay. -/
  stays : (p.run s before).stays = (parsed p s before).all Http.Parsed.keepAlive
  last : parsed p s (before ++ c :: after) = parsed p s before ++ [.ok request]
  spends : Http.Parsed.Spends (parsed p s before ++ [.ok request]) (inputs (before ++ [c])) rest
  output : (p.play s (before ++ c :: after)).output =
    (p.play s before).output ++ (reply responder (.ok request)).render ++ sent.flatMap Frame.pack

structure Past (responder : Responder) (log : List Parsed) (received output : Bytes) (kept : Bool)
    (http : Http.Session) : Prop where
  plain : Plain log
  output : output = replies responder log
  kept : (kept && http.lives) = log.all Http.Parsed.keepAlive
  spends : ∃ opened, Http.Parsed.Spends log received (opened ++ http.parser.inbox.bytes) ∧
    Opens http.parser opened ∧ Sound http.parser

inductive GoesOn (app : Application τ) (responder : Responder) (limit : Nat) (t : τ)
    (log : List Parsed) (received output : Bytes) (kept : Bool) :
    Option Parsed → Reply (Session τ) → Prop
  | http {x : Option Parsed} {next : Http.Session} {out : Bytes} {stays : Bool} :
      (∀ y, x = some y → next.turn = .responding y.keepAlive) →
      Past responder (log ++ x.toList) received (output ++ out) (kept && stays) next →
      GoesOn app responder limit t log received output kept x
        { state := { phase := .http next, application := t }, output := out, stays }
  | greets {request : Request} {rest : Bytes} :
      Handshake.Valid request →
      Http.Parsed.Spends (log ++ [.ok request]) received rest →
      kept = log.all Http.Parsed.keepAlive →
      GoesOn app responder limit t log received output kept (some (.ok request))
        (greet app limit t (reply responder (.ok request)) rest)

section

variable {responder : Responder} {log : List Parsed} {received output : Bytes} {kept : Bool}

theorem past_new (responder : Responder) : Past responder [] [] [] true {} :=
  ⟨nofun, rfl, rfl, [], .new, rfl, Http.Parser.sound_front []⟩

theorem Past.feed {http : Http.Session} (h : Past responder log received output kept http)
    (data : Bytes) : Past responder log (received ++ data) output kept (http.feed data) := by
  obtain ⟨opened, hspends, hopens, hsound⟩ := h.spends
  refine ⟨h.plain, h.output, h.kept, opened, ?_, hopens, hsound.push data⟩
  have hbytes : (http.feed data).parser.inbox.bytes = http.parser.inbox.bytes ++ data :=
    Inbox.bytes_push ..
  rw [hbytes, ← List.append_assoc]
  exact hspends.read data

inductive Gives (responder : Responder) (log : List Parsed) (received output : Bytes)
    (kept : Bool) : Except RequestError (Option Request) × Http.Session → Prop
  | nothing {next : Http.Session} :
      Past responder log received output kept next →
      Gives responder log received output kept (.ok none, next)
  | request {request : Request} {parser : Http.Parser} :
      kept = log.all Http.Parsed.keepAlive →
      Http.Parsed.Spends (log ++ [.ok request]) received parser.inbox.bytes →
      Opens parser [] → Sound parser →
      Gives responder log received output kept (.ok (some request), { parser })
  | error (e : RequestError) :
      kept = log.all Http.Parsed.keepAlive →
      Gives responder log received output kept (.error e, {})

theorem Past.next {http : Http.Session} (h : Past responder log received output kept http) :
    Gives responder log received output kept http.next := by
  obtain ⟨parser, turn⟩ := http
  cases turn with
  | responding keepAlive => exact .nothing h
  | reading =>
    have hkept : kept = log.all Http.Parsed.keepAlive := by
      rw [← h.kept]
      exact (Bool.and_true kept).symm
    obtain ⟨opened, hspends, hopens, hsound⟩ := h.spends
    have hgives := hsound.gives hopens
    have hnext : Http.Session.next { parser } = (parser.next.1, { parser := parser.next.2 }) := rfl
    rw [hnext]
    dsimp only at hgives hspends
    generalize opened ++ parser.inbox.bytes = held at hgives hspends
    generalize parser.next = result at hgives
    cases hgives with
    | @nothing later p hheld hopens hsound =>
      exact .nothing ⟨h.plain, h.output, h.kept, later, hheld ▸ hspends, hopens, hsound⟩
    | request slice hheld hopens hsound =>
      rw [hheld] at hspends
      exact .request hkept hspends.request hopens hsound
    | error e => exact .error e hkept

theorem Past.idles (app : Application τ) (limit : Nat) (t : τ) {http : Http.Session}
    (h : Past responder log received output kept http) :
    GoesOn app responder limit t log received output kept none
      { state := { phase := .http http, application := t } } := by
  refine .http ?_ ?_
  · intro y hy
    cases hy
  · rwa [Option.toList_none, List.append_nil, List.append_nil, Bool.and_true]

theorem Past.responds (app : Application τ) (limit : Nat) (t : τ) {http : Http.Session}
    {parser : Http.Parser} {x : Parsed} {response : Response}
    (h : Past responder log received output kept http)
    (hkept : kept = log.all Http.Parsed.keepAlive)
    (hspends : Http.Parsed.Spends (log ++ [x]) received parser.inbox.bytes)
    (hopens : Opens parser []) (hsound : Sound parser)
    (hx : ∀ request, x = .ok request → ¬ Handshake.Valid request)
    (hreply : reply responder x = response.announce x.keepAlive) :
    GoesOn app responder limit t log received output kept (some x)
      { state := { phase := .http { parser, turn := .responding x.keepAlive }, application := t }
        output := (response.announce x.keepAlive).render } := by
  refine .http ?_ ⟨?_, ?_, ?_, [], hspends, hopens, hsound⟩
  · intro y hy
    cases hy
    rfl
  · intro request hm
    rcases List.mem_append.1 hm with hm | hm
    · exact h.plain request hm
    · exact hx request (List.mem_singleton.1 hm).symm
  · rw [h.output, replies, replies, Option.toList_some, List.flatMap_append,
      List.flatMap_singleton, hreply]
  · rw [Option.toList_some, List.all_append, Bool.and_true, hkept, List.all_cons, List.all_nil,
      Bool.and_true]
    rfl

theorem Past.pumpHttp (app : Application τ) (limit : Nat) (t : τ) {http : Http.Session}
    (h : Past responder log received output kept http) :
    GoesOn app responder limit t log received output kept http.parse
      (pumpHttp app responder limit t http) := by
  have hnext := h.next
  rw [Http.Session.parse, Session.pumpHttp]
  generalize http.next = result at hnext
  cases hnext with
  | nothing hnext => exact hnext.idles app limit t
  | error e hkept =>
    refine h.responds app limit t hkept (.error received log e) rfl (Http.Parser.sound_front [])
      ?_ rfl
    intro request hr
    cases hr
  | @request request parser hkept hspends hopens hsound =>
    dsimp only
    cases hu : Handshake.isUpgrade request with
    | false =>
      refine h.responds app limit t hkept hspends hopens hsound ?_ ?_
      · intro _ hr
        cases hr
        exact Handshake.not_valid_of_isUpgrade hu
      · rw [reply, hu]
        rfl
    | true =>
      rw [if_pos rfl]
      cases ha : Handshake.accept request with
      | error e =>
        rw [upgrade, ha]
        refine h.responds app limit t hkept hspends hopens hsound ?_ ?_
        · intro _ hr
          cases hr
          exact Handshake.not_valid_of_accept ha
        · rw [reply, if_pos hu, ha]
          rfl
      | ok response =>
        have hvalid := (Handshake.isUpgrade_iff.1 hu).valid_of_accept ha
        have hreply : reply responder (.ok request) = response := by
          rw [reply, if_pos hu, ha]
        rw [upgrade_eq ha, ← hreply]
        exact .greets hvalid hspends hkept

theorem Past.callback (app : Application τ) (limit : Nat) (t : τ) {http : Http.Session}
    (h : Past responder log received output kept http) (c : Callback) :
    GoesOn app responder limit t log (received ++ c.input) output kept (http.taken c)
      ((protocol app responder limit).callback { phase := .http http, application := t } c) := by
  cases c with
  | read data => exact (h.feed data).pumpHttp app limit t
  | write =>
    rw [Callback.input, List.append_nil]
    obtain ⟨parser, turn⟩ := http
    cases turn with
    | reading => exact h.idles app limit t
    | responding keepAlive =>
      cases keepAlive with
      | false =>
        have htaken : Http.Session.taken { parser, turn := .responding false } .write = none := rfl
        have hkept : (kept && false && Http.Session.lives { parser }) =
            log.all Http.Parsed.keepAlive := by
          rw [← h.kept, Bool.and_false, Bool.false_and]
          exact (Bool.and_false kept).symm
        rw [htaken]
        refine .http ?_ ?_
        · intro y hy
          cases hy
        · rw [Option.toList_none, List.append_nil, List.append_nil]
          exact ⟨h.plain, h.output, hkept, h.spends⟩
      | true =>
        have hready : Past responder log received output kept { parser } :=
          ⟨h.plain, h.output, h.kept, h.spends⟩
        exact hready.pumpHttp app limit t

end

section

variable (app : Application τ) (responder : Responder) (limit : Nat) {s : Session τ}

theorem isUpgraded_greet (t : τ) (response : Response) (rest : Bytes) :
    (greet app limit t response rest).state.isUpgraded = true :=
  isUpgraded_of_leaves (greet_answers app limit t response rest).2.2

theorem isUpgraded_callback (h : s.isUpgraded = true) (c : Callback) :
    ((protocol app responder limit).callback s c).state.isUpgraded = true := by
  obtain ⟨phase, t⟩ := s
  cases phase with
  | http http => cases h
  | frames inbox unfinished =>
    cases c with
    | read data => exact isUpgraded_pump app limit t unfinished (inbox.push data)
    | write => rfl
  | closing unfinished =>
    rw [callback_closing]
    rfl

theorem isUpgraded_play (h : s.isUpgraded = true) (cs : List Callback) :
    ((protocol app responder limit).play s cs).state.isUpgraded = true := by
  induction cs generalizing s with
  | nil => exact h
  | cons c cs ih => exact ih (isUpgraded_callback app responder limit h c)

theorem taken_of_isUpgraded (h : s.isUpgraded = true) (c : Callback) : s.taken c = none := by
  obtain ⟨phase, t⟩ := s
  cases phase with
  | http http => cases h
  | frames inbox unfinished => rfl
  | closing unfinished => rfl

theorem parsed_of_isUpgraded (h : s.isUpgraded = true) (cs : List Callback) :
    parsed (protocol app responder limit) s cs = [] := by
  induction cs generalizing s with
  | nil => rfl
  | cons c cs ih =>
    rw [parsed, taken_of_isUpgraded h, ih (isUpgraded_callback app responder limit h c)]
    rfl

theorem parsed_append (p : Protocol (Session τ)) (s : Session τ) (cs ds : List Callback) :
    parsed p s (cs ++ ds) = parsed p s cs ++ parsed p (p.play s cs).state ds := by
  induction cs generalizing s with
  | nil => rfl
  | cons c cs ih =>
    rw [List.cons_append, parsed, ih, parsed, List.append_assoc]
    rfl

theorem exists_change {cs : List Callback} (hs : s.isUpgraded = false)
    (h : ((protocol app responder limit).play s cs).state.isUpgraded = true) :
    ∃ before c after, cs = before ++ c :: after ∧
      ((protocol app responder limit).play s before).state.isUpgraded = false ∧
      ((protocol app responder limit).play s (before ++ [c])).state.isUpgraded = true := by
  induction cs using List.reverseRecOn with
  | nil =>
    rw [Protocol.play, hs] at h
    cases h
  | append_singleton cs c ih =>
    cases hu : ((protocol app responder limit).play s cs).state.isUpgraded with
    | true =>
      obtain ⟨before, d, after, rfl, hbefore, hd⟩ := ih hu
      exact ⟨before, d, after ++ [c], by simp, hbefore, hd⟩
    | false => exact ⟨cs, c, [], rfl, hu, h⟩

theorem past_play (t : τ) {cs : List Callback}
    (h : ((protocol app responder limit).play { application := t } cs).state.isUpgraded = false) :
    ∃ http : Http.Session,
      ((protocol app responder limit).play { application := t } cs).state =
        { phase := .http http, application := t } ∧
      Past responder (parsed (protocol app responder limit) { application := t } cs) (inputs cs)
        ((protocol app responder limit).play { application := t } cs).output
        ((protocol app responder limit).run { application := t } cs).stays http := by
  induction cs using List.reverseRecOn with
  | nil => exact ⟨{}, rfl, past_new responder⟩
  | append_singleton cs c ih =>
    rw [Protocol.state_play_concat] at h
    have hcs : ((protocol app responder limit).play { application := t } cs).state.isUpgraded =
        false := by
      cases hu : ((protocol app responder limit).play { application := t } cs).state.isUpgraded with
      | false => rfl
      | true =>
        rw [isUpgraded_callback app responder limit hu] at h
        cases h
    obtain ⟨http, hstate, hpast⟩ := ih hcs
    have hc := hpast.callback app limit t c
    have hparsed : parsed (protocol app responder limit) { application := t } (cs ++ [c]) =
        parsed (protocol app responder limit) { application := t } cs ++
          (http.taken c).toList := by
      rw [parsed_append, hstate, parsed, parsed, List.append_nil]
      rfl
    rw [hstate] at h
    rw [Protocol.state_play_concat, Protocol.output_play_concat, Protocol.stays_run_concat, hparsed,
      Callback.inputs_concat, hstate]
    generalize (protocol app responder limit).callback { phase := .http http, application := t } c =
      r at hc h
    generalize http.taken c = x at hc
    cases hc with
    | @http _ next out stays _ hnext =>
      exact ⟨next, rfl, hnext⟩
    | @greets request rest =>
      rw [isUpgraded_greet] at h
      cases h

theorem goesOn (t : τ) {cs : List Callback} (c : Callback)
    (h : ((protocol app responder limit).play { application := t } cs).state.isUpgraded = false) :
    GoesOn app responder limit t (parsed (protocol app responder limit) { application := t } cs)
      (inputs cs ++ c.input) (replies responder
        (parsed (protocol app responder limit) { application := t } cs))
      ((protocol app responder limit).run { application := t } cs).stays
      (((protocol app responder limit).play { application := t } cs).state.taken c)
      ((protocol app responder limit).callback
        ((protocol app responder limit).play { application := t } cs).state c) := by
  obtain ⟨http, hstate, hpast⟩ := past_play app responder limit t h
  rw [hstate, ← hpast.output]
  exact hpast.callback app limit t c

theorem exists_greets (t : τ) {cs : List Callback}
    (h : ((protocol app responder limit).play { application := t } cs).state.isUpgraded = true) :
    let p := protocol app responder limit
    let s : Session τ := { application := t }
    ∃ before c after request rest, cs = before ++ c :: after ∧
      (p.play s before).state.isUpgraded = false ∧
      (p.play s before).state.taken c = some (.ok request) ∧ Handshake.Valid request ∧
      p.callback (p.play s before).state c =
        greet app limit t (reply responder (.ok request)) rest ∧
      Http.Parsed.Spends (parsed p s before ++ [.ok request]) (inputs (before ++ [c])) rest ∧
      (p.run s before).stays = (parsed p s before).all Http.Parsed.keepAlive := by
  dsimp only
  obtain ⟨before, c, after, hcs, hbefore, hc⟩ := exists_change app responder limit rfl h
  have hgoes := goesOn app responder limit t c hbefore
  rw [Protocol.state_play_concat] at hc
  rw [← Callback.inputs_concat] at hgoes
  generalize hx : ((protocol app responder limit).play
    { application := t } before).state.taken c = x at hgoes
  generalize hr : (protocol app responder limit).callback
    ((protocol app responder limit).play { application := t } before).state c = r at hgoes hc
  cases hgoes with
  | http => cases hc
  | @greets request rest hvalid hspends hkept =>
    exact ⟨before, c, after, request, rest, hcs, hbefore, hx, hvalid, hr, hspends, hkept⟩

theorem parsed_map {υ : Type} {f : υ → τ} {app' : Application υ} (h : app'.Mirrors f app)
    (s : Session υ) (cs : List Callback) :
    parsed (protocol app responder limit) (s.map f) cs =
      parsed (protocol app' responder limit) s cs := by
  induction cs generalizing s with
  | nil => rfl
  | cons c cs ih =>
    rw [parsed, callback_map h, parsed]
    exact congrArg _ (ih ((protocol app' responder limit).callback s c).state)

theorem unchanged_of_not_isUpgraded (t : τ) {cs : List Callback}
    (h : ((protocol app responder limit).play { application := t } cs).state.isUpgraded = false) :
    Unchanged (protocol app responder limit) responder { application := t } cs := by
  obtain ⟨http, -, hpast⟩ := past_play app responder limit t h
  exact ⟨h, hpast.plain, hpast.output⟩

theorem isUpgraded_play_recorded (t : τ) (cs : List Callback) :
    ((protocol app responder limit).play { application := t } cs).state.isUpgraded =
      ((protocol app.recorded responder limit).play
        { application := (t, []) } cs).state.isUpgraded := by
  rw [play_recorded]
  rfl

theorem learned_of_not_isUpgraded (t : τ) {cs : List Callback}
    (h : ((protocol app responder limit).play { application := t } cs).state.isUpgraded = false) :
    learned app responder limit t cs = [] := by
  rw [isUpgraded_play_recorded] at h
  obtain ⟨_, hs, -⟩ := past_play app.recorded responder limit (t, []) h
  rw [learned, hs]

theorem changed_of_isUpgraded (t : τ) {cs : List Callback}
    (h : ((protocol app responder limit).play { application := t } cs).state.isUpgraded = true) :
    ∃ before c after request rest, cs = before ++ c :: after ∧
      let a := account limit none (rest ++ inputs after)
      Changed (protocol app responder limit) responder { application := t } before c after request
        rest (dialogue app t a.1 ++ a.2.farewell.toList) ∧
      learned app responder limit t cs =
        .opened :: (a.1.filterMap Incident.message?).map .message ∧
      Leaves a.2 ((protocol app responder limit).play { application := t } cs).state.phase := by
  have hparsed (ds : List Callback) :
      parsed (protocol app responder limit) { application := t } ds =
        parsed (protocol app.recorded responder limit) { application := (t, []) } ds :=
    parsed_map app responder limit app.recorded_mirrors { application := (t, []) } ds
  rw [isUpgraded_play_recorded] at h
  obtain ⟨before, c, after, request, rest, rfl, hbefore, htaken, hvalid, hr, hspends, hkept⟩ :=
    exists_greets app.recorded responder limit (t, []) h
  obtain ⟨ho, hm⟩ := play_greet app.recorded responder limit (t, [])
    (reply responder (.ok request)) rest after
  obtain ⟨hout, happ, hleaves⟩ := greet_answers app.recorded limit (t, [])
    (reply responder (.ok request)) (rest ++ inputs after)
  obtain ⟨hdialogue, htold⟩ :=
    dialogue_recorded app t (account limit none (rest ++ inputs after)).1
  have hfrom (ds : List Callback) := (protocol app.recorded responder limit).play_append_cons
    { application := (t, []) } before ds hr
  have hgreet := isUpgraded_greet app.recorded limit (t, []) (reply responder (.ok request)) rest
  refine ⟨before, c, after, request, rest, rfl, ?_, ?_, ?_⟩
  · constructor
    case unchanged =>
      rw [← isUpgraded_play_recorded] at hbefore
      exact unchanged_of_not_isUpgraded app responder limit t hbefore
    case taken =>
      rw [play_recorded]
      exact htaken
    case valid => exact hvalid
    case upgraded =>
      intro ds
      rw [isUpgraded_play_recorded, hfrom]
      exact isUpgraded_play app.recorded responder limit hgreet ds
    case stays =>
      rw [run_recorded, hparsed]
      exact hkept
    case last =>
      rw [hparsed, hparsed, parsed_append, parsed, htaken, hr,
        parsed_of_isUpgraded app.recorded responder limit hgreet]
      rfl
    case spends =>
      rw [hparsed]
      exact hspends
    case output =>
      rw [play_recorded app, play_recorded app, hfrom]
      simp only [Reply.map, Reply.output_behind, List.append_assoc]
      rw [ho, hout, hdialogue]
  · rw [learned, hfrom, Reply.state_behind, ← htold, ← happ]
    exact congrArg (fun s ↦ s.application.2) hm
  · rw [play_recorded app, hfrom]
    exact hleaves.of_merged_eq hm

theorem callback_upgrades_iff (t : τ) {cs : List Callback} (c : Callback)
    (h : ((protocol app responder limit).play { application := t } cs).state.isUpgraded = false) :
    ((protocol app responder limit).callback ((protocol app responder limit).play
        { application := t } cs).state c).state.isUpgraded = true ↔
      ∃ request, ((protocol app responder limit).play { application := t } cs).state.taken c =
        some (.ok request) ∧ Handshake.Valid request := by
  have hgoes := goesOn app responder limit t c h
  generalize ((protocol app responder limit).play { application := t } cs).state.taken c = x
    at hgoes
  generalize (protocol app responder limit).callback
    ((protocol app responder limit).play { application := t } cs).state c = r at hgoes
  cases hgoes with
  | http _ hpast =>
    refine ⟨nofun, ?_⟩
    intro ⟨request, hx, hvalid⟩
    rw [hx] at hpast
    exact absurd hvalid (hpast.plain request (List.mem_append_right _ List.mem_cons_self))
  | @greets request rest hvalid =>
    exact ⟨fun _ ↦ ⟨request, rfl, hvalid⟩, fun _ ↦ isUpgraded_greet app limit t _ rest⟩

theorem answered (t : τ) (cs : List Callback) {c : Callback} {x : Parsed}
    (hx : ((protocol app responder limit).play { application := t } cs).state.taken c = some x)
    (hplain : ∀ request, x = .ok request → ¬ Handshake.Valid request) :
    Answered (protocol app responder limit) responder
      ((protocol app responder limit).play { application := t } cs).state c x := by
  cases h : ((protocol app responder limit).play { application := t } cs).state.isUpgraded with
  | true =>
    rw [taken_of_isUpgraded h] at hx
    cases hx
  | false =>
    have hgoes := goesOn app responder limit t c h
    rw [hx] at hgoes
    generalize hr : (protocol app responder limit).callback
      ((protocol app responder limit).play { application := t } cs).state c = r at hgoes
    cases hgoes with
    | @http _ next out stays hturn hpast =>
      have hout := hpast.output
      rw [replies, replies, Option.toList_some, List.flatMap_append, List.flatMap_singleton] at hout
      refine ⟨?_, ?_, ?_⟩
      · rw [hr]
        rfl
      · rw [hr]
        exact List.append_cancel_left hout
      · rw [hr]
        exact decided_responding app responder limit t (hturn x rfl)
    | @greets request rest hvalid => exact absurd hvalid (hplain request rfl)

/-- A connection changes protocols once at most, and on a valid request for it. -/
structure ChangesOnce (t : τ) (cs : List Callback) : Prop where
  course :
    let p := protocol app responder limit
    let s : Session τ := { application := t }
    (Unchanged p responder s cs ∧ learned app responder limit t cs = []) ∨
      ∃ before c after request rest, cs = before ++ c :: after ∧
        let a := account limit none (rest ++ inputs after)
        Changed p responder s before c after request rest
          (dialogue app t a.1 ++ a.2.farewell.toList) ∧
        learned app responder limit t cs = .opened :: (a.1.filterMap Incident.message?).map .message
  opened : (learned app responder limit t cs).count .opened =
    ((protocol app responder limit).play { application := t } cs).state.isUpgraded.toNat
  upgrades (c : Callback) :
    let p := protocol app responder limit
    let s := (p.play { application := t } cs).state
    s.isUpgraded = false → ((p.callback s c).state.isUpgraded = true ↔
      ∃ request, s.taken c = some (.ok request) ∧ Handshake.Valid request)
  answers (c : Callback) (x : Parsed) :
    let p := protocol app responder limit
    let s := (p.play { application := t } cs).state
    s.taken c = some x → (∀ request, x = .ok request → ¬ Handshake.Valid request) →
      Answered p responder s c x
  accepts (x : Parsed) : (reply responder x).status = .switchingProtocols ↔
    ∃ request, x = .ok request ∧ Handshake.Valid request
  versioned (request : Request) : Handshake.Asks request → ¬ Handshake.Versioned request →
    (reply responder (.ok request)).status = .upgradeRequired
  keyed (request : Request) : Handshake.Asks request → Handshake.Versioned request →
    ¬ Handshake.Keyed request → (reply responder (.ok request)).status = .badRequest

/-- Whatever callbacks come, a responder that does not itself claim to change protocols leaves that
to the first valid request for it. -/
theorem changes_once (hr : ∀ request, (responder request).status ≠ .switchingProtocols) (t : τ)
    (cs : List Callback) : ChangesOnce app responder limit t cs := by
  constructor
  case course =>
    cases h : ((protocol app responder limit).play { application := t } cs).state.isUpgraded with
    | false =>
      exact .inl ⟨unchanged_of_not_isUpgraded app responder limit t h,
        learned_of_not_isUpgraded app responder limit t h⟩
    | true =>
      obtain ⟨before, c, after, request, rest, hcs, hchanged, htold, -⟩ :=
        changed_of_isUpgraded app responder limit t h
      exact .inr ⟨before, c, after, request, rest, hcs, hchanged, htold⟩
  case opened =>
    cases h : ((protocol app responder limit).play { application := t } cs).state.isUpgraded with
    | false =>
      rw [learned_of_not_isUpgraded app responder limit t h]
      rfl
    | true =>
      obtain ⟨_, _, after, _, rest, -, -, htold, -⟩ :=
        changed_of_isUpgraded app responder limit t h
      have hno : .opened ∉ ((account limit none (rest ++ inputs after)).1.filterMap
          Incident.message?).map Application.Notice.message := by
        intro hm
        obtain ⟨m, -, he⟩ := List.mem_map.1 hm
        cases he
      rw [htold, List.count_cons_self, List.count_eq_zero_of_not_mem hno]
      rfl
  case upgrades =>
    intro c
    exact callback_upgrades_iff app responder limit t c
  case answers =>
    intro c x
    exact answered app responder limit t cs
  case accepts => exact status_reply_iff hr
  case versioned =>
    intro request
    exact status_reply_of_not_versioned responder
  case keyed =>
    intro request
    exact status_reply_of_not_keyed responder

end

def lateUpgrade : List Callback :=
  [.read (Utf8.encode "GET / HTTP/1.1\r\nConnection: Upgrade\r\nUpgrade: WebSocket\r\n\r\n"),
    .read (Utf8.encode "GET / HTTP/1.1\r\nConnection: a, upgrade\r\nUpgrade: websocket\r\n"),
    .read (Utf8.encode "Sec-WebSocket-Version: 13\r\nSec-WebSocket-Key: a\r\n\r\n" ++ [129]),
    .write, .read [1, 97]]

theorem changes_once_lateUpgrade :
    (∀ request, (Responder.greeting request).status ≠ .switchingProtocols) ∧
      ((parsed (protocol .echo .greeting 16) { application := () } lateUpgrade).map fun x ↦
        (reply .greeting x).status) = [.upgradeRequired, .switchingProtocols] ∧
      ChangesOnce .echo .greeting 16 () lateUpgrade := by
  have hr : ∀ request, (Responder.greeting request).status ≠ .switchingProtocols :=
    fun request ↦ nofun
  exact ⟨hr, rfl, changes_once .echo .greeting 16 hr () lateUpgrade⟩

end WebSocket.Session

end Prefork
