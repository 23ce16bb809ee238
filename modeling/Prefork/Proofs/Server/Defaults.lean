import Prefork.Proofs.Server.Admission
import Prefork.Settings

namespace Prefork.Server

open Connection (delivered)
open Http (Head Request Responder)
open Reading (Steady)

variable {σ η : Type}

def Config.standard (protocol : Protocol σ) (start : σ) : Config σ where
  protocol := protocol
  build _ := .ok start
  maxBuffer := ({} : ServerSettings).maxBuffer

def arrival (data : Bytes) : Touch :=
  .react { token := 1, readable := true, reads := [.bytes data, .wouldBlock] }

theorem delivered_arrival {data : Bytes} (h : data ≠ []) :
    delivered [.bytes data, .wouldBlock] = { data } := by
  cases data with
  | nil => exact absurd rfl h
  | cons b data =>
    exact congrArg (fun d ↦ ({ data := d } : Connection.Received)) (List.append_nil _)

theorem calm_arrival {data : Bytes} (h : data ≠ []) : (arrival data).Calm := by
  refine ⟨rfl, by simp [ReadResult.isFailure], ?_, rfl, nofun⟩
  rw [delivered_arrival h]

structure Ready (hooks : Hooks η) (config : Config σ) (ready : σ → Prop) (l : Loop σ η)
    (c : Connection σ) : Prop where
  moment : ∃ past, Moment hooks config past l
  find : l.find? 1 = some c
  isOpen : c.closing = false
  state : ready c.state

/-- From `l` to `m`, these data arrive on the first connection, and nothing fails there. -/
structure Arrives (hooks : Hooks η) (config : Config σ) (l : Loop σ η) (parts : List Bytes)
    (h : History σ η) (m : Loop σ η) : Prop where
  passes : Passes hooks config l h m
  calm : ∀ part ∈ h.parts hooks config 1, part.Calm
  rounds : rounds (h.parts hooks config 1) = parts

def Completes (hooks : Hooks η) (config : Config σ) (ready : σ → Prop) (parts : List Bytes)
    (answer : Bytes) : Prop :=
  ∃ (l m : Loop σ η) (c : Connection σ) (h : History σ η),
    Ready hooks config ready l c ∧ Arrives hooks config l parts h m ∧
    passedTo 1 (h.acts hooks config) = parts.flatten ∧
    sentTo 1 (h.acts hooks config) ++ ((m.find? 1).map (·.output)).getD [] = c.output ++ answer

def Refuses (hooks : Hooks η) (config : Config σ) (ready : σ → Prop) (message : Bytes) : Prop :=
  ∃ (l m : Loop σ η) (c : Connection σ) (h : History σ η),
    Ready hooks config ready l c ∧ Arrives hooks config l [message] h m ∧ m.find? 1 = none ∧
    (∃ size limit, causeOf config (h.parts hooks config 1) =
      some (.unread (.bufferFull size limit))) ∧ passedTo 1 (h.acts hooks config) ≠ message

section Arrivals

variable {hooks : Hooks η} {config : Config σ} {ready rests : σ → Prop} {message answer : Bytes}
  {fits : List Bytes → Prop} {parts : List Bytes} {h : History σ η} {l m : Loop σ η}
  {c : Connection σ}

theorem Arrives.refl (l : Loop σ η) : Arrives hooks config l [] [] l :=
  ⟨.refl, fun _ hp ↦ absurd hp List.not_mem_nil, rfl⟩

theorem Arrives.concat (ha : Arrives hooks config l parts h m) (hm : (m.find? 1).isSome)
    {data : Bytes} (hne : data ≠ []) :
    Arrives hooks config l (parts ++ [data]) (h ++ [(m, .touch (arrival data))])
      ((arrival data).run config m).1 := by
  obtain ⟨d, hd⟩ := Option.isSome_iff_exists.1 hm
  have hpart : Step.part? hooks config 1 m (.touch (arrival data)) =
      some (.touched (arrival data) d) := by
    rw [Step.part?, if_pos (show (arrival data).token = 1 from rfl), hd]
    rfl
  have harriving : Part.arriving (.touched (arrival data) d) = data :=
    congrArg Connection.Received.data (delivered_arrival hne)
  constructor
  · exact ha.passes.step _
  · intro part hp
    rw [History.parts_step, hpart] at hp
    rcases List.mem_append.1 hp with hp | hp
    · exact ha.calm part hp
    · rw [List.mem_singleton.1 hp]
      exact calm_arrival hne
  · rw [History.parts_step, hpart, Option.toList_some, rounds_concat, ha.rounds, harriving,
      if_neg hne]

theorem Admits.heard (hadmits : Admits hooks config ready message answer rests fits)
    (hr : Ready hooks config ready l c) (ha : Arrives hooks config l parts h m)
    (hp : parts.flatten <+: message) :
    Heard config 1 message answer rests (fits parts) c (h.parts hooks config 1)
      (h.acts hooks config) (m.find? 1) := by
  obtain ⟨past, hm⟩ := hr.moment
  rw [← ha.rounds] at hp ⊢
  exact hadmits hm hr.find hr.isOpen hr.state ha.passes ha.calm hp

theorem Admits.completes (hadmits : Admits hooks config ready message answer rests fits)
    (hr : Ready hooks config ready l c) (ha : Arrives hooks config l parts h m)
    (hp : parts.flatten = message) (hf : fits parts) :
    Completes hooks config ready parts answer := by
  have hheard := hadmits.heard hr ha (hp ▸ List.prefix_rfl)
  have hall : (rounds (h.parts hooks config 1)).flatten = parts.flatten :=
    congrArg List.flatten ha.rounds
  exact ⟨l, m, c, h, hr, ha, (hheard.taken hf).2.trans hall,
    (hheard.answered hf (hall.trans hp)).1⟩

theorem Admits.refuses (hadmits : Admits hooks config ready message answer rests fits)
    (hr : Ready hooks config ready l c) (hne : message ≠ []) (hf : ¬ fits [message]) :
    Refuses hooks config ready message := by
  have hc : (l.find? 1).isSome := by rw [hr.find]; rfl
  have ha : Arrives hooks config l [message] _ _ := (Arrives.refl l).concat hc hne
  have hp : [message].flatten <+: message := by
    simp only [List.flatten_singleton, List.prefix_rfl]
  obtain ⟨hnone, hcause, hpassed, -⟩ := (hadmits.heard hr ha hp).refused hf
  exact ⟨l, _, c, _, hr, ha, hnone, hcause, hpassed⟩

end Arrivals

section Standard

open WebSocket (Application Frame)
open WebSocket.Session (CollectsFrame CollectsRequest onFrame proceed attend)

variable {τ : Type} {hooks : Hooks η}

/-- At any moment, bytes that wait for a frame are known to be too few. -/
theorem Moment.settled {app : Application τ} {t₀ : τ} {responder : Responder} {limit : Nat}
    {past : History (WebSocket.Session τ) η} {l : Loop (WebSocket.Session τ) η} {t : Token}
    {c : Connection (WebSocket.Session τ)}
    (hm : Moment hooks (.standard (WebSocket.Session.protocol app responder limit)
      { application := t₀ }) past l) (hc : l.find? t = some c) : c.state.phase.Settled limit := by
  have hany := WebSocket.Session.modest app responder limit
  have hmodest : (WebSocket.Session.protocol app responder limit).Modest
      fun s ↦ s.phase.Settled limit :=
    ⟨fun _ _ ↦ id, fun c _ h ↦ WebSocket.Session.callback_settled app responder h c,
      fun now _ _ ↦ hany.opened now trivial, fun data _ _ ↦ hany.received data trivial,
      fun _ ↦ hany.drained trivial, fun _ h ↦ hany.ends trivial h⟩
  refine (hm.life t).own hmodest (fun s hs ↦ ?_) hc
  obtain ⟨context, hb⟩ := (hm.life t).build_handlerOf hs
  cases hb
  trivial

theorem admits_frame (hooks : Hooks η) (app : Application τ) (responder : Responder) (t₀ t : τ)
    {message : Bytes} {frame : Frame}
    (hm : Frame.read Frame.maxPayload message = .complete frame []) :
    Admits hooks
      (.standard (WebSocket.Session.protocol app responder Frame.maxPayload) { application := t₀ })
      (CollectsFrame t []) message
      (proceed app Frame.maxPayload t [] (onFrame app Frame.maxPayload t none frame)).output
      (·.merged = (proceed app Frame.maxPayload t []
        (onFrame app Frame.maxPayload t none frame)).state.merged)
      (·.flatten.length ≤ ({} : ServerSettings).maxBuffer) := by
  have hg := WebSocket.Session.gathers_frame app responder Frame.maxPayload t hm
  refine (admits_of_gathers hooks hg (.websocket app responder Frame.maxPayload) ?_).imp ?_ ?_ ?_
  · intro context s hs
    cases hs
    exact ⟨t₀, rfl⟩
  · exact fun _ _ _ _ hm hc hs ↦ ⟨hm.settled hc, hs⟩
  · exact fun s hs ↦ hs.end_eq.2
  · exact fun rounds _ ↦ fits_length_iff

/-- All of a request is there, and all limits but that of the buffer are kept. -/
structure Whole (message : Bytes) (head : Head) (body : Bytes) : Prop where
  read : Head.read message = .complete head body
  length : body.length = head.contentLength
  steady : Steady Head.read message

namespace Whole

variable {message body : Bytes} {head : Head}

theorem request (h : Whole message head body) :
    Request.read message = .complete (head.withBody body) [] := by
  rw [Request.read_of_le h.read (Nat.le_of_eq h.length.symm), ← h.length, List.take_length,
    List.drop_length]

theorem fits_iff (h : Whole message head body) (rounds : List Bytes)
    (hr : rounds.flatten <+: message) :
    Fits (fun b ↦ (Http.Parser.kept b).2.length) ({} : ServerSettings).maxBuffer rounds ↔
      HeadFits ({} : ServerSettings).maxBuffer rounds :=
  fits_kept_iff h.steady h.read
    (Nat.le_trans (Nat.le_of_eq h.length) (Head.contentLength_le h.read)) hr

theorem admits (h : Whole message head body) (hooks : Hooks η) (responder : Responder) :
    Admits hooks (.standard (Http.Session.protocol responder) {})
      (Http.Session.Collects []) message (Http.Session.answer responder (head.withBody body))
      (·.buffered = 0) (HeadFits ({} : ServerSettings).maxBuffer) := by
  have hg := Http.Session.gathers_request responder h.steady h.request
  refine (admits_of_gathers hooks hg (.http responder) ?_).imp ?_ ?_ h.fits_iff
  · intro context s hs
    cases hs
    rfl
  · exact fun _ _ _ _ _ _ hs ↦ hs
  · exact fun s hs ↦ Http.Parser.holds_nil hs

theorem admits_upgradable (h : Whole message head body) (hooks : Hooks η) (app : Application τ)
    (responder : Responder) (t₀ t : τ) :
    Admits hooks
      (.standard (WebSocket.Session.protocol app responder Frame.maxPayload) { application := t₀ })
      (CollectsRequest t []) message
      (attend app responder Frame.maxPayload t (head.withBody body)).output
      (·.buffered = 0) (HeadFits ({} : ServerSettings).maxBuffer) := by
  have hg := WebSocket.Session.gathers_request app responder Frame.maxPayload t h.steady h.request
  refine (admits_of_gathers hooks hg (.websocket app responder Frame.maxPayload) ?_).imp ?_ ?_
    h.fits_iff
  · intro context s hs
    cases hs
    exact ⟨t₀, rfl⟩
  · exact fun _ _ _ _ _ _ hs ↦ hs
  · exact fun s hs ↦ hs.buffered

end Whole

def echoing : Config (WebSocket.Session Unit) :=
  .standard (WebSocket.Session.protocol .echo .greeting Frame.maxPayload) { application := () }

def greeting : Config Http.Session := .standard (Http.Session.protocol .greeting) {}

def upgrading : Surroundings where
  now := 0
  poll := .ok [.socket
    { token := 1, readable := true
      reads := [.bytes (Utf8.encode "GET /chat HTTP/1.1\r\nConnection: Upgrade\r\n"),
        .bytes (Utf8.encode "Upgrade: websocket\r\nSec-WebSocket-Version: 13\r\n"),
        .bytes (Utf8.encode "Sec-WebSocket-Key: a\r\n\r\n")] }]

def upgradedLoop : Loop (WebSocket.Session Unit) UInt64 :=
  ((Loop.pollOnce .standalone echoing acceptance { hooks := firstId }).2.1.pollOnce
    .standalone echoing upgrading).2.1

theorem Moment.pollOnce {hooks : Hooks η} {config : Config σ} {past : History σ η} {l : Loop σ η}
    (hm : Moment hooks config past l) (env : Surroundings) :
    ∃ past, Moment hooks config past (l.pollOnce hooks config env).2.1 := by
  obtain ⟨h, hp, -⟩ : Loop.Stepwise hooks config l (l.pollOnce hooks config env).2 :=
    .pollOnce env l
  exact ⟨_, hm.passes hp⟩

theorem ready_upgradedLoop :
    ∃ c, Ready .standalone echoing (CollectsFrame () []) upgradedLoop c := by
  have hstart : Moment .standalone echoing [] { hooks := firstId } := ⟨firstId, .refl⟩
  obtain ⟨accepted, haccepted⟩ := hstart.pollOnce acceptance
  obtain ⟨past, hm⟩ := haccepted.pollOnce upgrading
  have hstate : (upgradedLoop.find? 1).map (fun c ↦ (c.closing, c.state)) =
      some (false, { phase := .frames { missing := 2 } none, application := () }) := by
    decide +kernel
  obtain ⟨c, hc, hstate⟩ := Option.map_eq_some_iff.1 hstate
  rw [Prod.mk.injEq] at hstate
  exact ⟨c, ⟨past, hm⟩, hc, hstate.1, _, hstate.2, rfl⟩

theorem ready_accepted : Ready .standalone greeting (Http.Session.Collects [])
    (Loop.pollOnce .standalone greeting acceptance { hooks := firstId }).2.1
    { context := { id := 1, worker := none }, state := {} } where
  moment :=
    have hstart : Moment .standalone greeting [] { hooks := firstId } := ⟨firstId, .refl⟩
    hstart.pollOnce acceptance
  find := rfl
  isOpen := rfl
  state := ⟨{}, rfl, Http.Parser.rests_new⟩

/-- With default settings, a frame that the limit on payloads admits is received whole exactly if
it is not longer than that limit with all its bytes, and then its message is delivered. A request
that the limit on bodies admits is answered exactly if, on the arrival of the end of its head, no
more than that limit was received. What does not fit closes the connection. -/
theorem standard_admits (hooks : Hooks η) (app : Application τ) (responder : Responder) (t₀ t : τ) :
    let upgradable : Config (WebSocket.Session τ) :=
      .standard (WebSocket.Session.protocol app responder Frame.maxPayload) { application := t₀ }
    let plain : Config Http.Session := .standard (Http.Session.protocol responder) {}
    let limit := ({} : ServerSettings).maxBuffer
    (∀ message frame, Frame.read Frame.maxPayload message = .complete frame [] →
      let reply := proceed app Frame.maxPayload t [] (onFrame app Frame.maxPayload t none frame)
      Admits hooks upgradable
        (CollectsFrame t []) message reply.output (·.merged = reply.state.merged)
        (·.flatten.length ≤ limit) ∧
      ∀ m, frame.message? = some m → reply.output = WebSocket.Session.send (app.received m t).2 ∧
        reply.state.merged = { phase := .frames {} none, application := (app.received m t).1 }) ∧
    ∀ message head body, Whole message head body →
      Admits hooks upgradable
        (CollectsRequest t []) message
        (attend app responder Frame.maxPayload t (head.withBody body)).output
        (·.buffered = 0) (HeadFits limit) ∧
      Admits hooks plain (Http.Session.Collects []) message
        (Http.Session.answer responder (head.withBody body)) (·.buffered = 0) (HeadFits limit) := by
  intro upgradable plain limit
  constructor
  · intro message frame hm
    refine ⟨admits_frame hooks app responder t₀ t hm, fun m hmessage ↦ ?_⟩
    rw [WebSocket.Session.proceed_message app Frame.maxPayload t hmessage]
    exact ⟨rfl, rfl⟩
  · intro message head body h
    exact ⟨h.admits_upgradable hooks app responder t₀ t, h.admits hooks responder⟩

/-- A frame of two characters, cut within its mask, and a request, cut within its last line. -/
theorem standard_admits_cut :
    Completes .standalone echoing (CollectsFrame () []) [[0x81, 0x82, 1], [2, 3, 4, 105, 107]]
        [0x81, 2, 104, 105] ∧
      Completes .standalone greeting (Http.Session.Collects [])
        [Utf8.encode "GET / HTTP/1.1\r\n\r", [10]]
        (Http.Session.answer .greeting { method := .get, target := "/", version := .http11 }) := by
  have hadmits := standard_admits (.standalone : Hooks UInt64) .echo .greeting () ()
  constructor
  · obtain ⟨c, hr⟩ := ready_upgradedLoop
    have ha : Arrives .standalone echoing upgradedLoop [[0x81, 0x82, 1], [2, 3, 4, 105, 107]] _ _ :=
      ((Arrives.refl upgradedLoop).concat (by decide +kernel) (by decide)).concat
        (by decide +kernel) (by decide)
    have hread : Frame.read Frame.maxPayload [0x81, 0x82, 1, 2, 3, 4, 105, 107] =
        .complete { opcode := .text, mask := some ⟨1, 2, 3, 4⟩, payload := [104, 105] } [] := rfl
    exact (hadmits.1 _ _ hread).1.completes hr ha rfl (by decide)
  · have ha : Arrives .standalone greeting _ [Utf8.encode "GET / HTTP/1.1\r\n\r", [10]] _ _ :=
      ((Arrives.refl _).concat (by rw [ready_accepted.find]; rfl) (by decide +kernel)).concat
        (by decide +kernel) (by decide)
    have hwhole : Whole (Utf8.encode "GET / HTTP/1.1\r\n\r\n")
        { method := .get, target := "/", version := .http11, headers := {}, contentLength := 0 } [] :=
      ⟨by decide +kernel, rfl, Head.Clean.steady (by decide +kernel)⟩
    have hanswer := (hadmits.2 _ _ _ hwhole).2
    exact hanswer.completes ready_accepted ha (by decide +kernel)
      (.of_length_le (by decide +kernel))

def masked (opcode : WebSocket.Opcode) (payload : Bytes) : Frame :=
  { opcode, mask := some ⟨1, 2, 3, 4⟩, payload }

theorem read_masked {payload : Bytes} (h : payload.length ≤ Frame.maxPayload) :
    Frame.read Frame.maxPayload (masked .binary payload).pack =
      .complete (masked .binary payload) [] := by
  have hadmissible : (masked .binary payload).Admissible Frame.maxPayload :=
    ⟨nofun, h, Nat.lt_of_le_of_lt h (by decide)⟩
  have hr := Frame.read_pack hadmissible []
  rwa [List.append_nil] at hr

theorem refuses_masked {payload : Bytes} (h : payload.length = Frame.maxPayload) :
    Refuses .standalone echoing (CollectsFrame () []) (masked .binary payload).pack := by
  obtain ⟨c, hr⟩ := ready_upgradedLoop
  have ha := admits_frame (.standalone : Hooks UInt64) .echo .greeting () ()
    (read_masked (Nat.le_of_eq h))
  refine ha.refuses hr (List.cons_ne_nil _ _) ?_
  have hl : payload.length < (masked .binary payload).pack.length :=
    (masked .binary payload).length_payload_lt
  rw [h] at hl
  rw [List.flatten_singleton]
  exact Nat.not_le.2 hl

def announcement : Bytes := Utf8.encode "POST / HTTP/1.1\nContent-Length: 16777216\n\n"

theorem whole_announcement {body : Bytes} (hn : 13 ∉ body) (hl : body.length = Head.maxBody) :
    ∃ head, Whole (announcement ++ body) head body := by
  have hs : Steady Head.read (announcement ++ body) := by
    have hnone : 13 ∉ announcement ++ body := fun hm ↦
      (List.mem_append.1 hm).elim (by decide +kernel) hn
    exact Head.steady_read_of_notMem hnone fun e ↦ by cases e <;> decide
  have hr : Head.read announcement = .complete _ [] := rfl
  exact ⟨_, hs.complete hr, hl, hs⟩

theorem refuses_announcement {body : Bytes} (hn : 13 ∉ body) (hl : body.length = Head.maxBody) :
    Refuses .standalone greeting (Http.Session.Collects []) (announcement ++ body) := by
  obtain ⟨head, h⟩ := whole_announcement hn hl
  have hne : announcement ++ body ≠ [] := List.append_ne_nil_of_left_ne_nil (by decide +kernel) _
  refine (h.admits (.standalone : Hooks UInt64) .greeting).refuses ready_accepted hne fun hf ↦ ?_
  have hfits := hf [] (announcement ++ body) List.prefix_rfl rfl
  have hpos : 0 < announcement.length := by decide +kernel
  rw [List.flatten_nil, List.nil_append, List.length_append, hl] at hfits
  have hlimit : ({} : ServerSettings).maxBuffer = Head.maxBody := rfl
  omega

/-- A frame with the largest payload and a request with the largest body are too long if they come
at once. Without that, a request that ends lines in several ways can be cut so that it is not read,
and of frames that are admitted some carry no message. -/
theorem standard_refuses_largest :
    (Frame.read Frame.maxPayload (masked .binary (List.replicate Frame.maxPayload 0)).pack =
        .complete (masked .binary (List.replicate Frame.maxPayload 0)) [] ∧
      Refuses .standalone echoing (CollectsFrame () [])
        (masked .binary (List.replicate Frame.maxPayload 0)).pack) ∧
    ((∃ head, Whole (announcement ++ List.replicate Head.maxBody 0) head
        (List.replicate Head.maxBody 0)) ∧
      announcement.length ≤ 4096 ∧
      Refuses .standalone greeting (Http.Session.Collects [])
        (announcement ++ List.replicate Head.maxBody 0)) ∧
    (let first := Utf8.encode "GET / HTTP/1.1\r\nA: b\n\n"
      let second := Utf8.encode "c\r\n\r\n"
      (∃ head, Head.read (first ++ second) = .complete head [] ∧ head.contentLength = 0) ∧
        Http.Session.dispatched .greeting {} [.read first, .read second] = []) ∧
    (Frame.read Frame.maxPayload (masked .text [255]).pack = .complete (masked .text [255]) [] ∧
      onFrame .echo Frame.maxPayload () none (masked .text [255]) = .error .invalidUtf8) ∧
    let fragment : Frame := { masked .binary [255] with fin := false }
    Frame.read Frame.maxPayload fragment.pack = .complete fragment [] ∧
      onFrame .echo Frame.maxPayload () none fragment =
        .ok { unfinished := some ⟨.binary, .ofBytes [255]⟩, application := () } := by
  have hpayload : (List.replicate Frame.maxPayload (0 : UInt8)).length = Frame.maxPayload :=
    List.length_replicate
  have hbody : (List.replicate Head.maxBody (0 : UInt8)).length = Head.maxBody :=
    List.length_replicate
  have hnone : (13 : UInt8) ∉ List.replicate Head.maxBody 0 := fun hm ↦
    absurd (List.eq_of_mem_replicate hm) (by decide)
  have hunread : Http.Session.dispatched .greeting {}
      [.read (Utf8.encode "GET / HTTP/1.1\r\nA: b\n\n"), .read (Utf8.encode "c\r\n\r\n")] = [] := by
    decide +kernel
  exact ⟨⟨read_masked (Nat.le_of_eq hpayload), refuses_masked hpayload⟩,
    ⟨whole_announcement hnone hbody, by decide +kernel, refuses_announcement hnone hbody⟩,
    ⟨⟨_, rfl, rfl⟩, hunread⟩, ⟨rfl, rfl⟩, ⟨rfl, rfl⟩⟩

end Standard

end Prefork.Server
