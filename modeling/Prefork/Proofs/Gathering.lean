import Prefork.Proofs.Http.Transcript
import Prefork.Proofs.Offered

namespace Prefork

open Callback (inputs)
open Reading (Steady)

variable {σ : Type}

theorem Bytes.eq_nil_of_append_prefix {b data : Bytes} (h : b ++ data <+: b) : data = [] := by
  have hl := h.length_le
  rw [List.length_append] at hl
  exact List.length_eq_zero_iff.1 (by omega)

/-- How a handler takes in one message, part by part. In the states `waits b` it has the front `b`
and holds `held b` bytes. With the last part it outputs the `answer`, and then it `rests`. -/
structure Protocol.Gathers (p : Protocol σ) (message : Bytes) (held : Bytes → Nat) (answer : Bytes)
    (waits : Bytes → σ → Prop) (rests : σ → Prop) : Prop where
  short {b : Bytes} {s : σ} : waits b s → b ≠ message
  buffered {b : Bytes} {s : σ} : waits b s → p.buffered s = held b
  drained {b : Bytes} {s : σ} : waits b s → p.drained s = { state := s }
  front {b data : Bytes} {s : σ} : waits b s → b ++ data <+: message → b ++ data ≠ message →
    ∃ next, p.received data s = { state := next } ∧ waits (b ++ data) next
  whole {b data : Bytes} {s : σ} : waits b s → b ++ data = message →
    (p.received data s).output = answer ∧ (p.received data s).stays = true ∧
      rests (p.received data s).state
  idle {c : Callback} {s : σ} : rests s → c.input = [] →
    (p.callback s c).output = [] ∧ rests (p.callback s c).state

namespace Protocol.Gathers

variable {p : Protocol σ} {message answer : Bytes} {held : Bytes → Nat} {waits : Bytes → σ → Prop}
  {rests : σ → Prop} {s : σ} {cs : List Callback}

theorem play_idle (h : p.Gathers message held answer waits rests) (hs : rests s)
    (hc : inputs cs = []) : (p.play s cs).output = [] ∧ rests (p.play s cs).state := by
  induction cs generalizing s with
  | nil => exact ⟨rfl, hs⟩
  | cons c cs ih =>
    rw [Callback.inputs_cons, List.append_eq_nil_iff] at hc
    obtain ⟨ho, hr⟩ := h.idle hs hc.1
    obtain ⟨ho', hr'⟩ := ih hr hc.2
    rw [Protocol.play, Reply.output_behind, ho, ho']
    exact ⟨rfl, hr'⟩

/-- However the message is cut, before its last part the handler waits in silence, and behind it
the answer is out. -/
theorem play (h : p.Gathers message held answer waits rests) (cs : List Callback) {b : Bytes}
    (hs : waits b s) (ha : b ++ inputs cs <+: message) :
    (b ++ inputs cs ≠ message → (p.play s cs).output = [] ∧
      waits (b ++ inputs cs) (p.play s cs).state) ∧
    (b ++ inputs cs = message → (p.play s cs).output = answer ∧ rests (p.play s cs).state) := by
  induction cs generalizing b s with
  | nil =>
    rw [inputs, List.flatMap_nil, List.append_nil]
    exact ⟨fun _ ↦ ⟨rfl, hs⟩, fun he ↦ absurd he (h.short hs)⟩
  | cons c cs ih =>
    rw [Callback.inputs_cons] at ha ⊢
    rw [Protocol.play]
    cases c with
    | write =>
      rw [show p.callback s .write = _ from h.drained hs]
      exact ih hs ha
    | read data =>
      rw [Callback.input, ← List.append_assoc] at ha ⊢
      by_cases hd : b ++ data = message
      · -- The last part is here, so what follows is empty.
        have hnil : inputs cs = [] := Bytes.eq_nil_of_append_prefix (hd.symm ▸ ha)
        obtain ⟨ho, -, hr⟩ := h.whole hs hd
        obtain ⟨ho', hr'⟩ := h.play_idle hr hnil
        have hplay : (p.play (p.received data s).state cs).behind (p.received data s).output =
            { p.play (p.received data s).state cs with output := answer } := by
          rw [Reply.behind, ho, ho', List.append_nil]
        rw [hnil, List.append_nil, show p.callback s (.read data) = p.received data s from rfl,
          hplay]
        exact ⟨absurd hd, fun _ ↦ ⟨rfl, hr'⟩⟩
      · obtain ⟨next, hn, hw⟩ := h.front hs ((List.prefix_append ..).trans ha) hd
        rw [show p.callback s (.read data) = _ from hn]
        exact ih hw ha

structure Has (message : Bytes) (waits : Bytes → σ → Prop) (rests : σ → Prop) (b : Bytes) (s : σ) :
    Prop where
  waits : b ≠ message → waits b s
  rests : b = message → rests s

theorem has_play (h : p.Gathers message held answer waits rests) {b : Bytes}
    (hs : Has message waits rests b s) (ha : b ++ inputs cs <+: message) :
    Has message waits rests (b ++ inputs cs) (p.play s cs).state := by
  by_cases hb : b = message
  · have hnil : inputs cs = [] := Bytes.eq_nil_of_append_prefix (hb.symm ▸ ha)
    rw [hnil, List.append_nil]
    exact ⟨absurd hb, fun _ ↦ (h.play_idle (hs.rests hb) hnil).2⟩
  · obtain ⟨hfront, hwhole⟩ := h.play cs (hs.waits hb) ha
    exact ⟨fun hne ↦ (hfront hne).2, fun he ↦ (hwhole he).2⟩

end Protocol.Gathers

namespace Http

open Http.Parser (Holds Rests kept)

namespace Parser

theorem holds_nil {p : Parser} (h : Holds [] p) : p.buffered = 0 := by
  cases h with
  | text hb =>
    rw [buffered, ← Inbox.length_bytes, hb]
    rfl
  | body hr => cases hr

variable {message b data : Bytes} {p : Parser} {request : Request}

theorem Rests.next_front (h : Rests b p) (hs : Steady Head.read message)
    (hm : Request.read message = .complete request []) (hd : b ++ data <+: message)
    (hne : b ++ data ≠ message) :
    ∃ q, (p.push data).next = (.ok none, q) ∧ Rests (b ++ data) q :=
  (h.holds.push (hs.front hd)).next_rests
    ((Request.steady_read hs).isIncomplete_front hm hd hne)

theorem Rests.next_whole (h : Rests b p) (hs : Steady Head.read message)
    (hm : Request.read message = .complete request []) (hd : b ++ data = message) :
    (p.push data).next = (.ok (some request), {}) := by
  subst hd
  exact (h.holds.push hs).next_request hm

theorem Rests.buffered (h : Rests b p) : p.buffered = (Parser.kept b).2.length := by
  rw [Parser.buffered, ← Inbox.length_bytes]
  exact congrArg (·.2.length) h.kept

theorem Rests.ne (h : Rests b p) (hm : Request.read message = .complete request []) :
    b ≠ message := by
  rintro rfl
  have hw := h.waits
  rw [hm] at hw
  cases hw

theorem Holds.next_nil (h : Holds [] p) : ∃ q, p.next = (.ok none, q) ∧ Holds [] q := by
  obtain ⟨q, hn, hq⟩ := h.next_rests rfl
  exact ⟨q, hn, hq.holds⟩

theorem Holds.push_nil (h : Holds [] p) : Holds [] (p.push []) := by
  have hs : Steady Head.read ([] ++ []) := fun c more hc hd ↦ by
    obtain ⟨rfl, rfl⟩ := List.append_eq_nil_iff.1 (List.prefix_nil.1 hc)
    cases hd
  exact h.push hs

end Parser

namespace Session

def Collects (b : Bytes) (s : Session) : Prop := ∃ parser, s = { parser } ∧ Rests b parser

theorem gathers_request (responder : Responder) {message : Bytes} {request : Request}
    (hs : Steady Head.read message) (hm : Request.read message = .complete request []) :
    (protocol responder).Gathers message (fun b ↦ (kept b).2.length) (answer responder request)
      Collects fun s ↦ Holds [] s.parser where
  short := by
    rintro b _ ⟨parser, rfl, h⟩
    exact h.ne hm
  buffered := by
    rintro b _ ⟨parser, rfl, h⟩
    exact h.buffered
  drained := by
    rintro b _ ⟨parser, rfl, h⟩
    rfl
  front := by
    rintro b data _ ⟨parser, rfl, h⟩ hd hne
    obtain ⟨q, hn, hq⟩ := h.next_front hs hm hd hne
    refine ⟨{ parser := q }, ?_, q, rfl, hq⟩
    simp only [protocol, feed, pump, next, hn]
  whole := by
    rintro b data _ ⟨parser, rfl, h⟩ hd
    have hn := h.next_whole hs hm hd
    have hr : (protocol responder).received data { parser } =
        { state := { turn := .responding request.keepAlive }
          output := answer responder request } := by
      simp only [protocol, feed, pump, next, hn]
      rfl
    rw [hr]
    exact ⟨rfl, rfl, Parser.holds_front []⟩
  idle := by
    rintro c ⟨parser, turn⟩ h hc
    have hpump {q : Parser} (hq : Holds [] q) :
        (pump responder { parser := q }).output = [] ∧
          Holds [] (pump responder { parser := q }).state.parser := by
      obtain ⟨q', hn, hq'⟩ := hq.next_nil
      simp only [pump, next, hn]
      exact ⟨trivial, hq'⟩
    cases c with
    | read data =>
      obtain rfl : data = [] := hc
      cases turn with
      | reading => exact hpump h.push_nil
      | responding keepAlive => exact ⟨rfl, h.push_nil⟩
    | write =>
      cases turn with
      | reading => exact ⟨rfl, h⟩
      | responding keepAlive =>
        cases keepAlive with
        | false => exact ⟨rfl, h⟩
        | true => exact hpump h

end Session

end Http

namespace WebSocket

def Frame.message? (f : Frame) : Option Message :=
  if f.fin then
    match f.opcode with
    | .text => if Utf8.isValid f.payload then some ⟨.text, f.payload⟩ else none
    | .binary => some ⟨.binary, f.payload⟩
    | _ => none
  else none

namespace Session

open Http (Head Request Responder)
open Http.Parser (Holds Rests kept)

variable {τ : Type} {app : Application τ} {limit : Nat}

theorem buffered_merged (s : Session τ) : s.merged.buffered = s.buffered := by
  obtain ⟨phase, t⟩ := s
  cases phase with
  | http http => rfl
  | closing unfinished => rfl
  | frames inbox unfinished =>
    have hsize : ({ front := inbox.bytes } : Inbox).size = inbox.size := inbox.length_bytes
    show Inbox.size _ + Fragments.held unfinished = inbox.size + Fragments.held unfinished
    rw [hsize]

theorem pump_of_incomplete (app : Application τ) (t : τ) (unfinished : Option Fragments)
    {inbox : Inbox} (h : (Frame.read limit inbox.bytes).isIncomplete) :
    ∃ next : Inbox, next.bytes = inbox.bytes ∧ pump app limit t unfinished inbox =
      { state := { phase := .frames next unfinished, application := t } } := by
  cases hw : inbox.waits with
  | true => exact ⟨inbox, rfl, pump_of_waits hw⟩
  | false =>
    obtain ⟨n, hn⟩ := Reading.eq_incomplete h
    refine ⟨{ front := inbox.bytes, missing := n }, ?_, ?_⟩
    · rw [Inbox.bytes_eq]
      exact List.append_nil _
    · rw [pump_of_not_waits hw, exchange_incomplete hn]

theorem Awaits.callback_nil {s last : Session τ} {c : Callback} (h : Awaits app limit [] s [] last)
    (responder : Responder) (hc : c.input = []) :
    ((protocol app responder limit).callback s c).output = [] ∧
      Awaits app limit [] ((protocol app responder limit).callback s c).state [] last := by
  have ha : Awaits app limit (c.input ++ []) s [] last := by rwa [hc]
  obtain ⟨later, ho, hl⟩ := callback_awaits responder ha
  obtain ⟨hnil, rfl⟩ := List.append_eq_nil_iff.1 ho.symm
  exact ⟨hnil, hl⟩

def CollectsFrame (t : τ) (b : Bytes) (s : Session τ) : Prop :=
  ∃ inbox : Inbox, s = { phase := .frames inbox none, application := t } ∧ inbox.bytes = b

def CollectsRequest (t : τ) (b : Bytes) (s : Session τ) : Prop :=
  ∃ parser, s = { phase := .http { parser }, application := t } ∧ Rests b parser

/-- Such a message goes to the application, whose replies go out. -/
theorem proceed_message (app : Application τ) (limit : Nat) (t : τ) {f : Frame} {m : Message}
    (h : f.message? = some m) :
    proceed app limit t [] (onFrame app limit t none f) =
      { state :=
          { phase := .frames { missing := 2 } none, application := (app.received m t).1 }
        output := send (app.received m t).2 } := by
  have hdelivered : onFrame app limit t none f =
      .ok { application := (app.received m t).1, output := send (app.received m t).2 } := by
    rw [Frame.message?] at h
    split at h
    · next hfin =>
      split at h
      · next ho =>
        split at h
        · next hv =>
          cases h
          simp [onFrame, ho, begin, gather, hfin, deliver, hv, Fragments.message]
        · cases h
      · next ho =>
        cases h
        simp [onFrame, ho, begin, gather, hfin, deliver, Fragments.message]
      · cases h
    · cases h
  rw [hdelivered, proceed, if_pos rfl, exchange_incomplete (n := 2) rfl, Reply.behind,
    List.append_nil]

theorem gathers_frame (app : Application τ) (responder : Responder) (limit : Nat) (t : τ)
    {message : Bytes} {f : Frame} (hm : Frame.read limit message = .complete f []) :
    (protocol app responder limit).Gathers message List.length
      (proceed app limit t [] (onFrame app limit t none f)).output
      (fun b s ↦ s.phase.Settled limit ∧ CollectsFrame t b s)
      fun s ↦ Awaits app limit [] s []
        (proceed app limit t [] (onFrame app limit t none f)).state.merged where
  short := by
    rintro _ s ⟨hs, inbox, rfl, rfl⟩ rfl
    have hi := hs.1
    rw [hm] at hi
    cases hi
  buffered := by
    rintro _ s ⟨hs, inbox, rfl, rfl⟩
    exact inbox.length_bytes.symm
  drained := by
    rintro _ s ⟨hs, inbox, rfl, rfl⟩
    rfl
  front := by
    rintro _ data s ⟨hs, inbox, rfl, rfl⟩ hd hne
    rw [← Inbox.bytes_push] at hd hne
    obtain ⟨next, hn, hp⟩ := pump_of_incomplete app t none
      (((Frame.incremental_read limit).steady message).isIncomplete_front hm hd hne)
    have hsettled : (pump app limit t none (inbox.push data)).state.phase.Settled limit :=
      callback_settled app responder hs (.read data)
    rw [hp] at hsettled
    exact ⟨_, hp, hsettled, next, rfl, by rw [hn, Inbox.bytes_push]⟩
  whole := by
    rintro _ data s ⟨hs, inbox, rfl, rfl⟩ hd
    have hl : Leads app limit [] _ _ (pump app limit t none (inbox.push data)) :=
      pump_leads t none [] hs.2
    rw [List.append_nil, hd, exchange_complete hm] at hl
    obtain ⟨later, ho, ha⟩ := hl
    rw [stays_pump, if_pos rfl] at ha
    obtain ⟨rfl, -⟩ := ha.end_eq
    rw [List.append_nil] at ho
    exact ⟨ho.symm, stays_pump .., ha⟩
  idle h hc := h.callback_nil responder hc

def attend (app : Application τ) (responder : Responder) (limit : Nat) (t : τ) (request : Request) :
    Reply (Session τ) :=
  if Handshake.isUpgrade request then upgrade app limit t {} request
  else
    { state := { phase := .http { turn := .responding request.keepAlive }, application := t }
      output := Http.Session.answer responder request }

def Served (app : Application τ) (limit : Nat) (t : τ) (last s : Session τ) : Prop :=
  (∃ http : Http.Session, s = { phase := .http http, application := t } ∧ Holds [] http.parser) ∨
    last.buffered = 0 ∧ Awaits app limit [] s [] last

theorem Served.buffered {t : τ} {last s : Session τ} (h : Served app limit t last s) :
    s.buffered = 0 := by
  rcases h with ⟨http, rfl, hp⟩ | ⟨hl, ha⟩
  · exact Http.Parser.holds_nil hp
  · rw [← buffered_merged, ha.end_eq.2, hl]

theorem attend_served (app : Application τ) (responder : Responder) (limit : Nat) (t : τ)
    (request : Request) :
    (attend app responder limit t request).stays = true ∧
      Served app limit t (attend app responder limit t request).state.merged
        (attend app responder limit t request).state := by
  rw [attend]
  split
  · cases ha : Handshake.accept request with
    | error e =>
      rw [upgrade, ha]
      exact ⟨rfl, .inl ⟨_, rfl, Http.Parser.holds_front []⟩⟩
    | ok response =>
      rw [upgrade_eq ha]
      have hg : Leads app limit [] _ _ (greet app limit t response []) :=
        greet_leads t response [] []
      obtain ⟨later, ho, hl⟩ := hg
      rw [stays_greet, if_pos rfl] at hl
      obtain ⟨rfl, -⟩ := hl.end_eq
      refine ⟨stays_greet t response [], .inr ⟨?_, hl⟩⟩
      rw [buffered_merged]
      exact Nat.le_zero.1 (buffered_greet_le t response [])
  · exact ⟨rfl, .inl ⟨_, rfl, Http.Parser.holds_front []⟩⟩

theorem gathers_request (app : Application τ) (responder : Responder) (limit : Nat) (t : τ)
    {message : Bytes} {request : Request} (hs : Steady Head.read message)
    (hm : Request.read message = .complete request []) :
    (protocol app responder limit).Gathers message (fun b ↦ (kept b).2.length)
      (attend app responder limit t request).output (CollectsRequest t)
      (Served app limit t (attend app responder limit t request).state.merged) where
  short := by
    rintro b _ ⟨parser, rfl, h⟩
    exact h.ne hm
  buffered := by
    rintro b _ ⟨parser, rfl, h⟩
    exact h.buffered
  drained := by
    rintro b _ ⟨parser, rfl, h⟩
    rfl
  front := by
    rintro b data _ ⟨parser, rfl, h⟩ hd hne
    obtain ⟨q, hn, hq⟩ := h.next_front hs hm hd hne
    refine ⟨{ phase := .http { parser := q }, application := t }, ?_, q, rfl, hq⟩
    simp only [protocol, received, Http.Session.feed, pumpHttp, Http.Session.next, hn]
  whole := by
    rintro b data _ ⟨parser, rfl, h⟩ hd
    have hn := h.next_whole hs hm hd
    have hr : (protocol app responder limit).received data
        { phase := .http { parser }, application := t } = attend app responder limit t request := by
      simp only [protocol, received, Http.Session.feed, pumpHttp, Http.Session.next, hn, attend]
      rfl
    rw [hr]
    exact ⟨rfl, attend_served app responder limit t request⟩
  idle := by
    rintro c s (⟨http, rfl, h⟩ | ⟨hb, h⟩) hc
    · have hpump {q : Http.Parser} (hq : Holds [] q) :
          (pumpHttp app responder limit t { parser := q }).output = [] ∧
            Served app limit t (attend app responder limit t request).state.merged
              (pumpHttp app responder limit t { parser := q }).state := by
        obtain ⟨q', hn, hq'⟩ := hq.next_nil
        simp only [pumpHttp, Http.Session.next, hn]
        exact ⟨trivial, .inl ⟨_, rfl, hq'⟩⟩
      obtain ⟨parser, turn⟩ := http
      cases c with
      | read data =>
        obtain rfl : data = [] := hc
        cases turn with
        | reading => exact hpump h.push_nil
        | responding keepAlive => exact ⟨rfl, .inl ⟨_, rfl, h.push_nil⟩⟩
      | write =>
        cases turn with
        | reading => exact ⟨rfl, .inl ⟨_, rfl, h⟩⟩
        | responding keepAlive =>
          cases keepAlive with
          | false => exact ⟨rfl, .inl ⟨_, rfl, h⟩⟩
          | true => exact hpump h
    · obtain ⟨ho, hl⟩ := h.callback_nil responder hc
      exact ⟨ho, .inr ⟨hb, hl⟩⟩

end Session

end WebSocket

end Prefork
