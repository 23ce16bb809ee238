import Prefork.Proofs.Offered

namespace Prefork

inductive Event where
  | opened (now : Time.Millis)
  | callback (c : Callback)
  | closed

def Protocol.after {σ : Type} (p : Protocol σ) (s : σ) : Event → σ
  | .opened now => (p.opened now s).state
  | .callback c => (p.callback s c).state
  | .closed => p.closed s

namespace WebSocket

/-- A message that an application may be told of. -/
structure Message.Vetted (limit : Nat) (m : Message) : Prop where
  size : m.payload.length ≤ limit
  text : m.kind = .text → Utf8.isValid m.payload

def Phase.unfinished : Phase → Option Fragments
  | http _ => none
  | frames _ unfinished | closing unfinished => unfinished

namespace Application

variable {τ : Type}

structure Keeps (app : Application τ) (limit : Nat) (P : τ → Prop) : Prop where
  opened {t : τ} : P t → P (app.opened t).1
  received {t : τ} {m : Message} : P t → m.Vetted limit → P (app.received m t).1
  closed {t : τ} : P t → P (app.closed t)

theorem keeps_true (app : Application τ) (limit : Nat) : app.Keeps limit fun _ ↦ True :=
  ⟨id, fun h _ ↦ h, id⟩

theorem recorded_keeps (app : Application τ) (limit : Nat) :
    app.recorded.Keeps limit fun t ↦ ∀ m, Notice.message m ∈ t.2 → m.Vetted limit where
  opened {t} h m hm := by
    rcases List.mem_append.1 hm with hm | hm
    · exact h m hm
    · cases List.mem_singleton.1 hm
  received {t m} h hv other hm := by
    rcases List.mem_append.1 hm with hm | hm
    · exact h other hm
    · cases List.mem_singleton.1 hm
      exact hv
  closed h := h

end Application

namespace Session

open Application (Keeps Notice)
open Http (Responder Response)

variable {τ : Type} {app : Application τ} {limit : Nat} {P : τ → Prop}

theorem keeps_deliver (h : app.Keeps limit P) {t : τ} {m : Message} {effect : Effect τ} (ht : P t)
    (hl : m.payload.length ≤ limit) (he : deliver app t m = .ok effect) : P effect.application := by
  rw [deliver] at he
  split at he
  · cases he
  · next hv =>
    cases he
    refine h.received ht ⟨hl, fun hk ↦ ?_⟩
    simpa [hk] using hv

theorem keeps_gather (h : app.Keeps limit P) {t : τ} {f : Fragments} {fin : Bool}
    {effect : Effect τ} (ht : P t) (hl : f.payload.size ≤ limit)
    (he : gather app t f fin = .ok effect) :
    P effect.application ∧ Fragments.held effect.unfinished ≤ limit := by
  refine ⟨?_, Nat.le_trans (unfinished_gather_le he) hl⟩
  cases fin with
  | true =>
    rw [← Pieces.length_bytes] at hl
    exact keeps_deliver h ht hl he
  | false =>
    cases he
    exact ht

theorem keeps_onFrame (h : app.Keeps limit P) {t : τ} {unfinished : Option Fragments} {f : Frame}
    {effect : Effect τ} (ht : P t) (hu : Fragments.held unfinished ≤ limit)
    (hl : f.payload.length ≤ limit) (he : onFrame app limit t unfinished f = .ok effect) :
    P effect.application ∧ Fragments.held effect.unfinished ≤ limit := by
  rcases gathers_of_onFrame he with ⟨hsame, happ⟩ | ⟨g, hg, -, hsize⟩
  · rw [hsame, happ]
    exact ⟨ht, hu⟩
  · exact keeps_gather h ht (hsize hl) hg

/-- What is true of a connection at all times. -/
structure Keeping (limit : Nat) (P : τ → Prop) (s : Session τ) : Prop where
  application : P s.application
  held_le : Fragments.held s.phase.unfinished ≤ limit

theorem keeping_fail {t : τ} (ht : P t) (e : FrameError) : Keeping limit P (fail t e).state :=
  ⟨ht, Nat.zero_le _⟩

/-- After any number of frames. -/
theorem keeping_pumpUpTo (h : app.Keeps limit P) {t : τ} {unfinished : Option Fragments}
    (ht : P t) (hu : Fragments.held unfinished ≤ limit) (b : Bytes) (fuel : Nat) :
    Keeping limit P (pumpUpTo app limit t unfinished b fuel).state := by
  induction fuel generalizing t unfinished b with
  | zero => exact ⟨ht, hu⟩
  | succ fuel ih =>
    rw [pumpUpTo]
    cases hr : Frame.read limit b with
    | incomplete missing => exact ⟨ht, hu⟩
    | invalid e => exact keeping_fail ht e
    | complete frame rest =>
      dsimp only
      cases he : onFrame app limit t unfinished frame with
      | error e => exact keeping_fail ht e
      | ok effect =>
        obtain ⟨ht, hu⟩ := keeps_onFrame h ht hu (Frame.admissible_of_read hr).limit he
        dsimp only
        split
        · exact ih ht hu rest
        · exact ⟨ht, hu⟩

theorem keeping_greet (h : app.Keeps limit P) {t : τ} (ht : P t) (response : Response)
    (rest : Bytes) : Keeping limit P (greet app limit t response rest).state := by
  simp only [greet, Reply.state_behind, exchange]
  exact keeping_pumpUpTo h (h.opened ht) (Nat.zero_le _) rest _

theorem keeping_after (h : app.Keeps limit P) (responder : Responder) {s : Session τ}
    (hs : Keeping limit P s) (e : Event) :
    Keeping limit P ((protocol app responder limit).after s e) := by
  obtain ⟨phase, t⟩ := s
  obtain ⟨ht, hu⟩ := hs
  cases e with
  | opened now => exact ⟨ht, hu⟩
  | closed =>
    cases phase with
    | http http => exact ⟨ht, hu⟩
    | frames inbox unfinished | closing unfinished => exact ⟨h.closed ht, Nat.zero_le _⟩
  | callback c =>
    cases phase with
    | http http =>
      have hc := callback_serves app responder limit t http c
      show Keeping limit P ((protocol app responder limit).callback _ c).state
      generalize (protocol app responder limit).callback _ c = r at hc
      cases hc with
      | http => exact ⟨ht, Nat.zero_le _⟩
      | @greets rest request response => exact keeping_greet h ht response rest
    | frames inbox unfinished =>
      cases c with
      | read data =>
        show Keeping limit P (pump app limit t unfinished (inbox.push data)).state
        rw [pump]
        split
        · exact ⟨ht, hu⟩
        · exact keeping_pumpUpTo h ht hu _ _
      | write => exact ⟨ht, hu⟩
    | closing unfinished =>
      show Keeping limit P ((protocol app responder limit).callback _ c).state
      rw [callback_closing]
      exact ⟨ht, hu⟩

theorem settled_after (app : Application τ) (responder : Responder) {s : Session τ}
    (h : s.phase.Settled limit) (e : Event) :
    ((protocol app responder limit).after s e).phase.Settled limit := by
  cases e with
  | opened now => exact h
  | callback c => exact callback_settled app responder h c
  | closed =>
    obtain ⟨phase, t⟩ := s
    cases phase with
    | http http | closing unfinished => trivial
    | frames inbox unfinished => exact ⟨rfl, nofun⟩

theorem keeping_run (h : app.Keeps limit P) (responder : Responder) {s : Session τ}
    (hs : Keeping limit P s) (hp : s.phase.Settled limit) (events : List Event) :
    let last := events.foldl (protocol app responder limit).after s
    Keeping limit P last ∧ last.phase.Settled limit := by
  induction events generalizing s with
  | nil => exact ⟨hs, hp⟩
  | cons e events ih => exact ih (keeping_after h responder hs e) (settled_after app responder hp e)

theorem size_lt_of_settled {inbox : Inbox} {unfinished : Option Fragments}
    (h : (Phase.frames inbox unfinished).Settled limit) : inbox.size < limit + 14 := by
  obtain ⟨n, hn⟩ := Reading.eq_incomplete h.1
  rw [← inbox.length_bytes]
  exact Frame.length_lt_of_incomplete hn

def told (app : Application τ) (responder : Responder) (limit : Nat) (t : τ)
    (events : List Event) : List Notice :=
  (events.foldl (protocol app.recorded responder limit).after
    { application := (t, []) }).application.2

theorem foldl_after_recorded (app : Application τ) (responder : Responder) (limit : Nat)
    (s : Session (τ × List Notice)) (events : List Event) :
    events.foldl (protocol app responder limit).after (s.map Prod.fst) =
      (events.foldl (protocol app.recorded responder limit).after s).map Prod.fst := by
  induction events generalizing s with
  | nil => rfl
  | cons e events ih =>
    have he : (protocol app responder limit).after (s.map Prod.fst) e =
        ((protocol app.recorded responder limit).after s e).map Prod.fst := by
      cases e with
      | opened now => rfl
      | callback c => exact congrArg Reply.state (callback_map app.recorded_mirrors responder s c)
      | closed =>
        obtain ⟨phase, t⟩ := s
        cases phase <;> rfl
    rw [List.foldl_cons, he]
    exact ih _

/-- Whatever a peer sends, the application is told of no message beyond the limit and of no text
that is not valid. A message in fragments stays within the limit, also between the frames that one
callback handles. Between callbacks, fewer bytes wait than the longest frame within the limit has. -/
theorem input_bounded_and_vetted (app : Application τ) (responder : Responder) (limit : Nat)
    (t : τ) (events : List Event) :
    let s := events.foldl (protocol app responder limit).after { application := t }
    (∀ m, Notice.message m ∈ told app responder limit t events →
        m.payload.length ≤ limit ∧ (m.kind = .text → Utf8.isValid m.payload)) ∧
      Fragments.held s.phase.unfinished ≤ limit ∧
      (∀ t b n, Fragments.held
        (pumpUpTo app limit t s.phase.unfinished b n).state.phase.unfinished ≤ limit) ∧
      (∀ inbox unfinished, s.phase = .frames inbox unfinished → inbox.size < limit + 14) ∧
      (s.isUpgraded → s.buffered < 2 * limit + 14) := by
  intro s
  have hnew : Keeping limit (fun t : τ × List Notice ↦ ∀ m, Notice.message m ∈ t.2 → m.Vetted limit)
      { application := (t, []) } := ⟨nofun, Nat.zero_le _⟩
  obtain ⟨hkeeping, hsettled⟩ :=
    keeping_run (app.recorded_keeps limit) responder hnew trivial events
  have hs : s = _ := foldl_after_recorded app responder limit { application := (t, []) } events
  have hphase : s.phase = (events.foldl (protocol app.recorded responder limit).after
      { application := (t, []) }).phase := by rw [hs, map]
  have hheld := hkeeping.held_le
  rw [← hphase] at hheld hsettled
  have hsize {inbox : Inbox} {unfinished : Option Fragments}
      (hp : s.phase = .frames inbox unfinished) : inbox.size < limit + 14 := by
    rw [hp] at hsettled
    exact size_lt_of_settled hsettled
  refine ⟨fun m hm ↦ ?_, hheld, fun t b n ↦ ?_, fun _ _ ↦ hsize, fun hup ↦ ?_⟩
  · have hv := hkeeping.application m hm
    exact ⟨hv.size, hv.text⟩
  · exact (keeping_pumpUpTo (app.keeps_true limit) trivial hheld b n).held_le
  · rw [isUpgraded] at hup
    rw [buffered]
    cases hp : s.phase with
    | http http =>
      rw [hp] at hup
      cases hup
    | frames inbox unfinished =>
      rw [hp] at hheld
      have hlt := hsize hp
      show inbox.size + Fragments.held unfinished < _
      have hle : Fragments.held unfinished ≤ limit := hheld
      omega
    | closing unfinished =>
      rw [hp] at hheld
      show Fragments.held unfinished < _
      have hle : Fragments.held unfinished ≤ limit := hheld
      omega

end Session

end WebSocket

end Prefork
