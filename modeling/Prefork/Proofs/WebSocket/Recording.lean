import Prefork.Proofs.Callbacks
import Prefork.WebSocket.Session

namespace Prefork.WebSocket

open Http (Request Responder)

variable {τ υ : Type}

namespace Application

inductive Notice where
  | opened
  | message (message : Message)
  deriving DecidableEq, Repr

/-- The same application, with a list of what it was told. -/
def recorded (app : Application τ) : Application (τ × List Notice) where
  opened t := (((app.opened t.1).1, t.2 ++ [.opened]), (app.opened t.1).2)
  received m t := (((app.received m t.1).1, t.2 ++ [.message m]), (app.received m t.1).2)
  closed t := (app.closed t.1, t.2)

/-- An application replies like another one whose state is part of its own. -/
structure Mirrors (f : υ → τ) (app' : Application υ) (app : Application τ) : Prop where
  opened (t : υ) : app.opened (f t) = (f (app'.opened t).1, (app'.opened t).2)
  received (m : Message) (t : υ) :
    app.received m (f t) = (f (app'.received m t).1, (app'.received m t).2)

theorem recorded_mirrors (app : Application τ) : Mirrors Prod.fst app.recorded app :=
  ⟨fun _ ↦ rfl, fun _ _ ↦ rfl⟩

end Application

namespace Session

open Application (Mirrors Notice)

def map (f : υ → τ) (s : Session υ) : Session τ := { s with application := f s.application }

def Effect.map (f : υ → τ) (e : Effect υ) : Effect τ := { e with application := f e.application }

variable {f : υ → τ} {app' : Application υ} {app : Application τ} {limit : Nat}

theorem deliver_map (h : Mirrors f app' app) (t : υ) (m : Message) :
    deliver app (f t) m = (deliver app' t m).map (Effect.map f) := by
  rw [deliver, deliver]
  split
  · rfl
  · rw [h.received]
    rfl

theorem gather_map (h : Mirrors f app' app) (t : υ) (fragments : Fragments) (fin : Bool) :
    gather app (f t) fragments fin = (gather app' t fragments fin).map (Effect.map f) := by
  cases fin with
  | true => exact deliver_map h t fragments.message
  | false => rfl

theorem onFrame_map (h : Mirrors f app' app) (t : υ) (unfinished : Option Fragments)
    (frame : Frame) : onFrame app limit (f t) unfinished frame =
      (onFrame app' limit t unfinished frame).map (Effect.map f) := by
  rw [onFrame, onFrame]
  cases frame.opcode with
  | ping | pong | close => rfl
  | text | binary =>
    simp only [begin]
    split
    · rfl
    · exact gather_map h ..
  | continuation =>
    cases unfinished with
    | none => rfl
    | some fragments =>
      simp only [extend]
      split
      · rfl
      · exact gather_map h ..

theorem pumpUpTo_map (h : Mirrors f app' app) (t : υ) (unfinished : Option Fragments)
    (b : Bytes) (fuel : Nat) : pumpUpTo app limit (f t) unfinished b fuel =
      (pumpUpTo app' limit t unfinished b fuel).map (map f) := by
  induction fuel generalizing t unfinished b with
  | zero => rfl
  | succ fuel ih =>
    simp only [pumpUpTo]
    cases Frame.read limit b with
    | incomplete n | invalid e => rfl
    | complete frame rest =>
      simp only [onFrame_map h]
      cases onFrame app' limit t unfinished frame with
      | error e => rfl
      | ok effect =>
        simp only [Except.map, Effect.map, ih]
        cases effect.stays <;> rfl

theorem pump_map (h : Mirrors f app' app) (t : υ) (unfinished : Option Fragments) (inbox : Inbox) :
    pump app limit (f t) unfinished inbox = (pump app' limit t unfinished inbox).map (map f) := by
  rw [pump, pump]
  cases inbox.waits with
  | true => rfl
  | false => exact pumpUpTo_map h ..

theorem upgrade_map (h : Mirrors f app' app) (t : υ) (http : Http.Session) (request : Request) :
    upgrade app limit (f t) http request = (upgrade app' limit t http request).map (map f) := by
  rw [upgrade, upgrade]
  cases Handshake.accept request with
  | error e => rfl
  | ok response =>
    simp only [h.opened, pump_map h]
    rfl

theorem pumpHttp_map (h : Mirrors f app' app) (responder : Responder) (t : υ)
    (http : Http.Session) : pumpHttp app responder limit (f t) http =
      (pumpHttp app' responder limit t http).map (map f) := by
  rw [pumpHttp, pumpHttp]
  obtain ⟨result, next⟩ := http.next
  match result with
  | .ok none | .error e => rfl
  | .ok (some request) =>
    simp only
    split
    · exact upgrade_map h ..
    · rfl

theorem received_map (h : Mirrors f app' app) (responder : Responder) (data : Bytes)
    (s : Session υ) : received app responder limit data (s.map f) =
      (received app' responder limit data s).map (map f) := by
  obtain ⟨phase, t⟩ := s
  cases phase with
  | http http => exact pumpHttp_map h ..
  | frames inbox unfinished => exact pump_map h ..
  | closing unfinished => rfl

theorem drained_map (h : Mirrors f app' app) (responder : Responder) (s : Session υ) :
    drained app responder limit (s.map f) = (drained app' responder limit s).map (map f) := by
  obtain ⟨phase, t⟩ := s
  cases phase with
  | http http =>
    simp only [drained, map]
    obtain ⟨stays, next⟩ := http.complete
    match stays with
    | none | some false => rfl
    | some true => exact pumpHttp_map h ..
  | frames inbox unfinished | closing unfinished => rfl

theorem callback_map (h : Mirrors f app' app) (responder : Responder) (s : Session υ)
    (c : Callback) : (protocol app responder limit).callback (s.map f) c =
      ((protocol app' responder limit).callback s c).map (map f) := by
  cases c with
  | read data => exact received_map h responder data s
  | write => exact drained_map h responder s

theorem play_map (h : Mirrors f app' app) (responder : Responder) (s : Session υ)
    (cs : List Callback) : (protocol app responder limit).play (s.map f) cs =
      ((protocol app' responder limit).play s cs).map (map f) := by
  induction cs generalizing s with
  | nil => rfl
  | cons c cs ih =>
    rw [Protocol.play, callback_map h, Protocol.play]
    exact congrArg (Reply.behind · _) (ih _)

/-- What an application keeps for itself has no effect on its connection. -/
theorem run_map (h : Mirrors f app' app) (responder : Responder) (s : Session υ)
    (cs : List Callback) : (protocol app responder limit).run (s.map f) cs =
      ((protocol app' responder limit).run s cs).map (map f) := by
  induction cs generalizing s with
  | nil => rfl
  | cons c cs ih =>
    have hc : (protocol app responder limit).callback (s.map f) c = _ :=
      callback_map h responder s c
    cases hs : ((protocol app' responder limit).callback s c).stays with
    | true =>
      rw [Protocol.run_cons_of_stays _ (by rw [hc]; exact hs), Protocol.run_cons_of_stays _ hs, hc]
      exact congrArg (Reply.behind · _) (ih _)
    | false =>
      rw [Protocol.run_cons_of_ends _ (by rw [hc]; exact hs), Protocol.run_cons_of_ends _ hs, hc]

def notices (app : Application τ) (responder : Responder) (limit : Nat) (t : τ)
    (cs : List Callback) : List Notice :=
  ((protocol app.recorded responder limit).run { application := (t, []) } cs).state.application.2

theorem play_recorded (app : Application τ) (responder : Responder) (limit : Nat) (t : τ)
    (cs : List Callback) : (protocol app responder limit).play { application := t } cs =
      ((protocol app.recorded responder limit).play { application := (t, []) } cs).map
        (map Prod.fst) :=
  play_map app.recorded_mirrors responder { application := (t, []) } cs

/-- The connection of an application that is recorded goes as without that. -/
theorem run_recorded (app : Application τ) (responder : Responder) (limit : Nat) (t : τ)
    (cs : List Callback) : (protocol app responder limit).run { application := t } cs =
      ((protocol app.recorded responder limit).run { application := (t, []) } cs).map
        (map Prod.fst) :=
  run_map app.recorded_mirrors responder { application := (t, []) } cs

end Session

end Prefork.WebSocket
