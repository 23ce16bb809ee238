import Prefork.Proofs.WebSocket.Phases
import Prefork.Proofs.WebSocket.Unpacking
import Prefork.Service

namespace Prefork

structure Protocol.Embeds {σ υ : Type} (p : Protocol σ) (q : Protocol υ) (f : σ → υ) : Prop where
  opened (now : Time.Millis) (s : σ) : q.opened now (f s) = (p.opened now s).map f
  callback (s : σ) (c : Callback) : q.callback (f s) c = (p.callback s c).map f
  buffered (s : σ) : q.buffered (f s) = p.buffered s

/-- The protocols that handlers speak, with the states of connections that have such a handler and
those in which a handler is new. -/
inductive Offered : {σ : Type} → Protocol σ → (σ → Prop) → (σ → Prop) → Prop
  | http (responder : Http.Responder) :
      Offered (Http.Session.protocol responder) (fun _ ↦ True) (· = {})
  | websocket {τ : Type} (app : WebSocket.Application τ) (responder : Http.Responder)
      (limit : Nat) :
      Offered (WebSocket.Session.protocol app responder limit) (fun _ ↦ True)
        fun s ↦ ∃ t, s = { application := t }
  | echo : Offered Service.echoProtocol (fun _ ↦ True) fun _ ↦ True
  | greeting (text : Time.Millis → Bytes) :
      Offered (Service.greetingProtocol text) (fun _ ↦ True) fun _ ↦ True
  | null : Offered Service.nullProtocol (fun _ ↦ True) fun _ ↦ True
  /-- Where connections have handlers of several kinds, some of them are of this kind. -/
  | within {σ υ : Type} {p : Protocol σ} {own new : σ → Prop} (q : Protocol υ) (f : σ → υ) :
      Offered p own new → p.Embeds q f →
      Offered q (fun u ↦ ∃ s, own s ∧ f s = u) fun u ↦ ∃ s, new s ∧ f s = u

/-- Every service offers such a protocol, and starts with a new handler. -/
theorem Service.offered (responder : Http.Responder) (s : Service) :
    ∃ new, Offered (s.protocol responder) (fun _ ↦ True) new ∧ new s.start := by
  cases s with
  | http => exact ⟨_, .http responder, rfl⟩
  | websocket => exact ⟨_, .websocket .echo responder WebSocket.Frame.maxPayload, (), rfl⟩
  | echo => exact ⟨_, .echo, trivial⟩
  | daytime => exact ⟨_, .greeting daytimeGreeting, trivial⟩
  | time => exact ⟨_, .greeting timeGreeting, trivial⟩
  | null => exact ⟨_, .null, trivial⟩

/-- In states of its own, a handler never holds more than it was given, and its last word is not
followed by output. -/
structure Protocol.Modest {σ : Type} (p : Protocol σ) (own : σ → Prop) : Prop where
  own_opened (now : Time.Millis) {s : σ} : own s → own (p.opened now s).state
  own_callback (c : Callback) {s : σ} : own s → own (p.callback s c).state
  opened (now : Time.Millis) {s : σ} : own s → p.buffered (p.opened now s).state = p.buffered s
  received (data : Bytes) {s : σ} : own s →
    p.buffered (p.received data s).state ≤ p.buffered s + data.length
  drained {s : σ} : own s → p.buffered (p.drained s).state ≤ p.buffered s
  ends {s : σ} : own s → (p.drained s).stays = false → (p.drained s).output = []

theorem Protocol.Modest.own_play {σ : Type} {p : Protocol σ} {own : σ → Prop} (h : p.Modest own)
    (cs : List Callback) {s : σ} (hs : own s) : own (p.play s cs).state := by
  induction cs generalizing s with
  | nil => exact hs
  | cons c cs ih => exact ih (h.own_callback c hs)

theorem Protocol.Modest.buffered_play_le {σ : Type} {p : Protocol σ} {own : σ → Prop}
    (h : p.Modest own) (cs : List Callback) {s : σ} (hs : own s) :
    p.buffered (p.play s cs).state ≤ p.buffered s + (Callback.inputs cs).length := by
  induction cs generalizing s with
  | nil => exact Nat.le_refl _
  | cons c cs ih =>
    have hc := ih (h.own_callback c hs)
    show p.buffered (p.play (p.callback s c).state cs).state ≤ _
    rw [Callback.inputs_cons, List.length_append]
    cases c with
    | read data =>
      have hr := h.received data hs
      simp only [Protocol.callback, Callback.input] at hc ⊢
      omega
    | write =>
      have hd := h.drained hs
      simp only [Protocol.callback, Callback.input, List.length_nil] at hc ⊢
      omega

namespace Http

theorem Parser.buffered_next_le (p : Parser) : p.next.2.buffered ≤ p.buffered := by
  have h := p.suffix_next.length_le
  rwa [Inbox.length_bytes, Inbox.length_bytes] at h

namespace Session

theorem buffered_next_le (s : Session) : s.next.2.buffered ≤ s.buffered := by
  obtain ⟨parser, turn⟩ := s
  cases turn with
  | reading => exact parser.buffered_next_le
  | responding keepAlive => exact Nat.le_refl _

theorem buffered_feed (s : Session) (data : Bytes) :
    (s.feed data).buffered = s.buffered + data.length := by
  have h := congrArg List.length (s.parser.inbox.bytes_push data)
  rw [List.length_append, Inbox.length_bytes, Inbox.length_bytes] at h
  exact h

theorem buffered_pump_le (responder : Responder) (s : Session) :
    (pump responder s).state.buffered ≤ s.buffered := by
  have h := s.buffered_next_le
  rw [pump]
  generalize s.next = result at h
  obtain ⟨result, next⟩ := result
  match result with
  | .ok none => exact h
  | .ok (some request) => exact h
  | .error e => exact Nat.zero_le _

theorem modest (responder : Responder) : (protocol responder).Modest fun _ ↦ True where
  own_opened _ _ := id
  own_callback _ _ := id
  opened now s _ := rfl
  received data s _ := by
    have h := buffered_pump_le responder (s.feed data)
    rwa [buffered_feed] at h
  drained {s} _ := by
    obtain ⟨parser, turn⟩ := s
    match turn with
    | .reading => exact Nat.le_refl _
    | .responding false => exact Nat.le_refl _
    | .responding true => exact buffered_pump_le responder { parser }
  ends {s} _ h := by
    obtain ⟨parser, turn⟩ := s
    match turn with
    | .reading => rfl
    | .responding false => rfl
    | .responding true =>
      have hs : (pump responder { parser }).stays = true := by
        rw [pump]
        split <;> rfl
      exact absurd (hs.symm.trans h) (by decide)

end Session

end Http

namespace WebSocket

def Fragments.held (f : Option Fragments) : Nat := (f.map (·.payload.size)).getD 0

namespace Session

variable {τ : Type} {app : Application τ} {limit : Nat}

theorem unfinished_gather_le {t : τ} {f : Fragments} {fin : Bool} {effect : Effect τ}
    (h : gather app t f fin = .ok effect) :
    Fragments.held effect.unfinished ≤ f.payload.size := by
  rw [gather] at h
  split at h
  · rw [deliver] at h
    split at h
    · cases h
    · cases h
      exact Nat.zero_le _
  · cases h
    exact Nat.le_refl _

/-- A frame leaves all as it was, or fragments are gathered that have grown by its payload. -/
theorem gathers_of_onFrame {t : τ} {unfinished : Option Fragments} {f : Frame}
    {effect : Effect τ} (h : onFrame app limit t unfinished f = .ok effect) :
    effect.unfinished = unfinished ∧ effect.application = t ∨
      ∃ g : Fragments, gather app t g f.fin = .ok effect ∧
        g.payload.size ≤ Fragments.held unfinished + f.payload.length ∧
        (f.payload.length ≤ limit → g.payload.size ≤ limit) := by
  rw [onFrame] at h
  cases ho : f.opcode with
  | ping | pong | close =>
    rw [ho] at h
    cases h
    exact .inl ⟨rfl, rfl⟩
  | text | binary =>
    rw [ho] at h
    simp only [begin] at h
    split at h
    · cases h
    · exact .inr ⟨_, h, Nat.le_add_left .., id⟩
  | continuation =>
    rw [ho] at h
    simp only [extend] at h
    cases unfinished with
    | none => cases h
    | some g =>
      dsimp only at h
      split at h
      · cases h
      · next hsize => exact .inr ⟨_, h, Nat.le_refl _, fun _ ↦ Nat.le_of_not_lt hsize⟩

theorem unfinished_onFrame_le {t : τ} {unfinished : Option Fragments} {f : Frame}
    {effect : Effect τ} (h : onFrame app limit t unfinished f = .ok effect) :
    Fragments.held effect.unfinished ≤ Fragments.held unfinished + f.payload.length := by
  rcases gathers_of_onFrame h with ⟨hu, -⟩ | ⟨g, hg, hsize, -⟩
  · rw [hu]
    exact Nat.le_add_right ..
  · exact Nat.le_trans (unfinished_gather_le hg) hsize

theorem buffered_pumpUpTo_le (t : τ) (unfinished : Option Fragments) (b : Bytes) (fuel : Nat) :
    (pumpUpTo app limit t unfinished b fuel).state.buffered ≤
      b.length + Fragments.held unfinished := by
  induction fuel generalizing t unfinished b with
  | zero => exact Nat.le_refl _
  | succ fuel ih =>
    rw [pumpUpTo]
    cases hr : Frame.read limit b with
    | incomplete missing => exact Nat.le_refl _
    | invalid e => exact Nat.zero_le _
    | complete frame rest =>
      have hl := Frame.length_payload_le_of_read hr
      dsimp only
      cases hf : onFrame app limit t unfinished frame with
      | error e => exact Nat.zero_le _
      | ok effect =>
        have hu := unfinished_onFrame_le hf
        dsimp only
        split
        · have hrest := ih effect.application effect.unfinished rest
          dsimp only
          omega
        · show Fragments.held effect.unfinished ≤ _
          omega

theorem buffered_greet_le (t : τ) (response : Http.Response) (rest : Bytes) :
    (greet app limit t response rest).state.buffered ≤ rest.length := by
  rw [greet, Reply.state_behind, exchange]
  generalize rest.length + 1 = fuel
  exact buffered_pumpUpTo_le (app.opened t).1 none rest fuel

theorem buffered_pump_le (t : τ) (unfinished : Option Fragments) (inbox : Inbox) :
    (pump app limit t unfinished inbox).state.buffered ≤
      inbox.size + Fragments.held unfinished := by
  rw [pump]
  split
  · exact Nat.le_refl _
  · rw [← inbox.length_bytes]
    exact buffered_pumpUpTo_le ..

theorem buffered_pumpHttp_le (responder : Http.Responder) (t : τ) (http : Http.Session) :
    (pumpHttp app responder limit t http).state.buffered ≤ http.buffered := by
  have h := http.buffered_next_le
  unfold pumpHttp
  generalize http.next = result at h
  obtain ⟨result, next⟩ := result
  match result with
  | .ok none => exact h
  | .error e => exact Nat.zero_le _
  | .ok (some request) =>
    dsimp only
    split
    · cases ha : Handshake.accept request with
      | error e =>
        rw [upgrade, ha]
        exact h
      | ok response =>
        have hg : (greet app limit t response next.takeAll.1).state.buffered ≤
            next.takeAll.1.length := buffered_greet_le t response next.takeAll.1
        have hb : next.takeAll.1.length = next.buffered := next.parser.inbox.length_bytes
        rw [hb] at hg
        rw [upgrade_eq ha]
        exact Nat.le_trans hg h
    · exact h

theorem modest (app : Application τ) (responder : Http.Responder) (limit : Nat) :
    (protocol app responder limit).Modest fun _ ↦ True where
  own_opened _ _ := id
  own_callback _ _ := id
  opened now s _ := rfl
  received data s _ := by
    obtain ⟨phase, t⟩ := s
    cases phase with
    | http http =>
      have h : (pumpHttp app responder limit t (http.feed data)).state.buffered ≤
          (http.feed data).buffered := buffered_pumpHttp_le responder t _
      rwa [Http.Session.buffered_feed] at h
    | frames inbox unfinished =>
      have h : (pump app limit t unfinished (inbox.push data)).state.buffered ≤
          (inbox.push data).size + Fragments.held unfinished := buffered_pump_le t unfinished _
      have hs := congrArg List.length (inbox.bytes_push data)
      rw [List.length_append, Inbox.length_bytes, Inbox.length_bytes] at hs
      show (pump app limit t unfinished (inbox.push data)).state.buffered ≤
        inbox.size + Fragments.held unfinished + data.length
      omega
    | closing unfinished => exact Nat.le_add_right ..
  drained {s} _ := by
    obtain ⟨phase, t⟩ := s
    match phase with
    | .frames inbox unfinished => exact Nat.le_refl _
    | .closing unfinished => exact Nat.le_refl _
    | .http { parser, turn := .reading } => exact Nat.le_refl _
    | .http { parser, turn := .responding false } => exact Nat.le_refl _
    | .http { parser, turn := .responding true } =>
      exact buffered_pumpHttp_le responder t { parser }
  ends {s} _ h := by
    obtain ⟨phase, t⟩ := s
    match phase with
    | .frames inbox unfinished => rfl
    | .closing unfinished => rfl
    | .http { parser, turn := .reading } => rfl
    | .http { parser, turn := .responding false } => rfl
    | .http { parser, turn := .responding true } =>
      exact absurd ((stays_pumpHttp responder t { parser }).symm.trans h) (by decide)

end Session

end WebSocket

theorem Offered.modest {σ : Type} {p : Protocol σ} {own new : σ → Prop} (h : Offered p own new) :
    p.Modest own := by
  induction h with
  | http responder => exact Http.Session.modest responder
  | websocket app responder limit => exact WebSocket.Session.modest app responder limit
  | echo =>
    exact ⟨fun _ _ ↦ id, fun _ _ ↦ id, fun _ _ _ ↦ rfl, fun _ _ _ ↦ Nat.zero_le _,
      fun _ ↦ Nat.le_refl _, fun _ h ↦ by cases h⟩
  | greeting text =>
    exact ⟨fun _ _ ↦ id, fun _ _ ↦ id, fun _ _ _ ↦ rfl, fun _ _ _ ↦ Nat.zero_le _,
      fun _ ↦ Nat.le_refl _, fun _ _ ↦ rfl⟩
  | null =>
    exact ⟨fun _ _ ↦ id, fun _ _ ↦ id, fun _ _ _ ↦ rfl, fun _ _ _ ↦ Nat.zero_le _,
      fun _ ↦ Nat.le_refl _, fun _ _ ↦ rfl⟩
  | within q f _ he ih =>
    constructor
    · rintro now _ ⟨s, hs, rfl⟩
      rw [he.opened]
      exact ⟨_, ih.own_opened now hs, rfl⟩
    · rintro c _ ⟨s, hs, rfl⟩
      rw [he.callback]
      exact ⟨_, ih.own_callback c hs, rfl⟩
    · rintro now _ ⟨s, hs, rfl⟩
      rw [he.opened, Reply.map, he.buffered, he.buffered]
      exact ih.opened now hs
    · rintro data _ ⟨s, hs, rfl⟩
      have hc := he.callback s (.read data)
      rw [show q.received data (f s) = _ from hc, Reply.map, he.buffered, he.buffered]
      exact ih.received data hs
    · rintro _ ⟨s, hs, rfl⟩
      have hc := he.callback s .write
      rw [show q.drained (f s) = _ from hc, Reply.map, he.buffered, he.buffered]
      exact ih.drained hs
    · rintro _ ⟨s, hs, rfl⟩ h
      have hc := he.callback s .write
      rw [show q.drained (f s) = _ from hc] at h ⊢
      exact ih.ends hs h

theorem Offered.own_new {σ : Type} {p : Protocol σ} {own new : σ → Prop} (h : Offered p own new)
    {s : σ} (hs : new s) : own s ∧ p.buffered s = 0 := by
  induction h with
  | http responder =>
    subst hs
    exact ⟨trivial, rfl⟩
  | websocket app responder limit =>
    obtain ⟨t, rfl⟩ := hs
    exact ⟨trivial, rfl⟩
  | echo => exact ⟨trivial, rfl⟩
  | greeting text => exact ⟨trivial, rfl⟩
  | null => exact ⟨trivial, rfl⟩
  | within q f _ he ih =>
    obtain ⟨s, hs, rfl⟩ := hs
    exact ⟨⟨s, (ih hs).1, rfl⟩, (he.buffered s).trans (ih hs).2⟩

end Prefork
