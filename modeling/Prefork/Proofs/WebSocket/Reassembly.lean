import Prefork.Proofs.WebSocket.Packing
import Prefork.Proofs.WebSocket.Segmentation

namespace Prefork.WebSocket

/-- What frames bring that is answered. -/
inductive Incident where
  | ping (payload : Bytes)
  | message (message : Message)
  deriving DecidableEq, Repr

/-- Where frames lead: to a wait for more, behind which message in progress and which bytes, to a
close frame, or to a violation. -/
inductive Ending where
  | waiting (unfinished : Option Message) (rest : Bytes)
  | closed (code : Option Nat)
  | violated (error : FrameError)
  deriving DecidableEq, Repr

def Incident.message? : Incident → Option Message
  | ping _ => none
  | message m => some m

def Ending.farewell : Ending → Option Frame
  | waiting _ _ => none
  | closed code => some (Frame.close code "")
  | violated e => some (Frame.close (some e.closeCode) "")

def Message.grown (m : Message) (fin : Bool) : Except Ending (Option Message × Option Incident) :=
  if !fin then .ok (some m, none)
  else if m.kind = .text ∧ !Utf8.isValid m.payload then .error (.violated .invalidUtf8)
  else .ok (none, some (.message m))

def Frame.judge (limit : Nat) (unfinished : Option Message) (f : Frame) :
    Except Ending (Option Message × Option Incident) :=
  match f.opcode, unfinished with
  | .ping, _ => .ok (unfinished, some (.ping f.payload))
  | .pong, _ => .ok (unfinished, none)
  | .close, _ => .error (.closed f.closeCode)
  | .continuation, none => .error (.violated .unexpectedContinuation)
  | .continuation, some m =>
    let size := m.payload.length + f.payload.length
    if limit < size then .error (.violated (.payloadTooLarge size limit))
    else Message.grown { m with payload := m.payload ++ f.payload } f.fin
  | .text, some _ | .binary, some _ => .error (.violated .messageInterrupted)
  | .text, none => Message.grown ⟨.text, f.payload⟩ f.fin
  | .binary, none => Message.grown ⟨.binary, f.payload⟩ f.fin

def assemble (limit : Nat) (behind : Option FrameError × Bytes) :
    Option Message → List Frame → List Incident × Ending
  | unfinished, [] => match behind with
    | (none, rest) => ([], .waiting unfinished rest)
    | (some e, _) => ([], .violated e)
  | unfinished, f :: fs => match f.judge limit unfinished with
    | .error ending => ([], ending)
    | .ok (next, incident) =>
      (incident.toList ++ (assemble limit behind next fs).1, (assemble limit behind next fs).2)

/-- What a stream of frames brings and where it leads. -/
def account (limit : Nat) (unfinished : Option Message) (b : Bytes) : List Incident × Ending :=
  assemble limit (Frame.readAll limit b).2 unfinished (Frame.readAll limit b).1

variable {limit : Nat} {u next : Option Message} {incident : Option Incident} {b rest : Bytes}
  {f : Frame}

theorem account_incomplete {n : Nat} (h : Frame.read limit b = .incomplete n) :
    account limit u b = ([], .waiting u b) := by
  rw [account, Frame.readAll_incomplete h, assemble]

theorem account_invalid {e : FrameError} (h : Frame.read limit b = .invalid e) :
    account limit u b = ([], .violated e) := by
  rw [account, Frame.readAll_invalid h, assemble]

theorem account_ended {ending : Ending} (h : Frame.read limit b = .complete f rest)
    (hj : f.judge limit u = .error ending) : account limit u b = ([], ending) := by
  rw [account, Frame.readAll_complete h, assemble, hj]

theorem account_goes_on (h : Frame.read limit b = .complete f rest)
    (hj : f.judge limit u = .ok (next, incident)) :
    account limit u b =
      (incident.toList ++ (account limit next rest).1, (account limit next rest).2) := by
  rw [account, Frame.readAll_complete h, assemble, hj]
  rfl

def answer {τ : Type} (app : Application τ) (t : τ) : List Incident → τ × List Frame
  | [] => (t, [])
  | .ping payload :: is => ((answer app t is).1, { opcode := .pong, payload } :: (answer app t is).2)
  | .message m :: is =>
    let (t, replies) := app.received m t
    ((answer app t is).1, replies.map Message.frame ++ (answer app t is).2)

namespace Session

variable {τ : Type} {app : Application τ} {t : τ} {unfinished : Option Fragments}

theorem answer_append (app : Application τ) (t : τ) (is js : List Incident) :
    answer app t (is ++ js) = ((answer app (answer app t is).1 js).1,
      (answer app t is).2 ++ (answer app (answer app t is).1 js).2) := by
  induction is generalizing t with
  | nil => rfl
  | cons i is ih =>
    cases i with
    | ping payload => simp only [List.cons_append, answer, ih]
    | message m => simp only [List.cons_append, answer, ih, List.append_assoc]

theorem answer_recorded (app : Application τ) (t : τ) (told : List Application.Notice)
    (is : List Incident) :
    answer app.recorded (t, told) is = (((answer app t is).1,
      told ++ (is.filterMap Incident.message?).map .message), (answer app t is).2) := by
  induction is generalizing t told with
  | nil => simp [answer]
  | cons i is ih =>
    cases i with
    | ping payload => simp [answer, ih, List.filterMap_cons, Incident.message?]
    | message m =>
      have hr : app.recorded.received m (t, told) =
          (((app.received m t).1, told ++ [.message m]), (app.received m t).2) := rfl
      simp [answer, hr, ih, Incident.message?]

theorem isControl_frame (m : Message) : m.frame.opcode.isControl = false := by
  obtain ⟨kind, payload⟩ := m
  cases kind <;> rfl

theorem mem_answer {app : Application τ} {t : τ} {is : List Incident} {f : Frame}
    (h : f ∈ (answer app t is).2) :
    (∃ m : Message, f = m.frame) ∨ ∃ payload, .ping payload ∈ is ∧ f = { opcode := .pong, payload } := by
  induction is generalizing t with
  | nil => cases h
  | cons i is ih =>
    have hrest (t : τ) (h : f ∈ (answer app t is).2) : (∃ m : Message, f = m.frame) ∨
        ∃ payload, .ping payload ∈ i :: is ∧ f = { opcode := .pong, payload } := by
      rcases ih h with hm | ⟨payload, hp, hf⟩
      · exact .inl hm
      · exact .inr ⟨payload, List.mem_cons_of_mem i hp, hf⟩
    cases i with
    | ping payload =>
      rcases List.mem_cons.1 h with rfl | h
      · exact .inr ⟨payload, List.mem_cons_self, rfl⟩
      · exact hrest t h
    | message m =>
      rcases List.mem_append.1 h with h | h
      · obtain ⟨reply, -, rfl⟩ := List.mem_map.1 h
        exact .inl ⟨reply, rfl⟩
      · exact hrest _ h

theorem send_eq (messages : List Message) :
    send messages = (messages.map Message.frame).flatMap Frame.pack := by
  rw [send, List.flatMap_map]

inductive Agrees (app : Application τ) (t : τ) :
    Except Ending (Option Message × Option Incident) → Except FrameError (Effect τ) → Prop
  | goesOn (unfinished : Option Fragments) (incident : Option Incident) :
      Agrees app t (.ok (unfinished.map Fragments.message, incident))
        (.ok { unfinished, application := (answer app t incident.toList).1
               output := (answer app t incident.toList).2.flatMap Frame.pack })
  | closed (unfinished : Option Fragments) (code : Option Nat) :
      Agrees app t (.error (.closed code))
        (.ok { unfinished, application := t, output := (Frame.close code "").pack, stays := false })
  | violated (e : FrameError) : Agrees app t (.error (.violated e)) (.error e)

theorem agrees_deliver (app : Application τ) (t : τ) (m : Message) :
    Agrees app t (m.grown true) (deliver app t m) := by
  simp only [Message.grown, Bool.not_true, Bool.false_eq_true, if_false, deliver]
  by_cases hv : m.kind = .text ∧ (!Utf8.isValid m.payload) = true
  · rw [if_pos hv, if_pos hv]
    exact .violated _
  · have hd : Agrees app t _ _ := .goesOn none (some (.message m))
    simp only [Option.toList_some, answer, List.append_nil, ← send_eq] at hd
    rw [if_neg hv, if_neg hv]
    exact hd

theorem agrees_gather (app : Application τ) (t : τ) (fragments : Fragments) (fin : Bool) :
    Agrees app t (fragments.message.grown fin) (gather app t fragments fin) := by
  cases fin with
  | true => exact agrees_deliver app t fragments.message
  | false => exact .goesOn (some fragments) none

theorem agrees_begin (app : Application τ) (t : τ) (kind : Message.Kind) (payload : Bytes)
    (fin : Bool) :
    Agrees app t (Message.grown ⟨kind, payload⟩ fin) (begin app t none kind payload fin) := by
  have hg := agrees_gather app t ⟨kind, .ofBytes payload⟩ fin
  rwa [Fragments.message, Pieces.bytes_ofBytes] at hg

theorem agrees_extend (app : Application τ) (limit : Nat) (t : τ) (fragments : Fragments)
    (f : Frame) (hf : f.opcode = .continuation) :
    Agrees app t (f.judge limit (some fragments.message))
      (extend app limit t (some fragments) f.payload f.fin) := by
  have hsize : fragments.message.payload.length = fragments.payload.size :=
    Pieces.length_bytes fragments.payload
  simp only [Frame.judge, hf, extend, hsize]
  by_cases hl : limit < fragments.payload.size + f.payload.length
  · rw [if_pos hl, if_pos hl]
    exact .violated _
  · have hg := agrees_gather app t { fragments with payload := fragments.payload.push f.payload } f.fin
    rw [if_neg hl, if_neg hl]
    rwa [Fragments.message, Pieces.bytes_push] at hg

theorem agrees_onFrame (app : Application τ) (limit : Nat) (t : τ) (unfinished : Option Fragments)
    (f : Frame) :
    Agrees app t (f.judge limit (unfinished.map Fragments.message))
      (onFrame app limit t unfinished f) := by
  have hping : Agrees app t _ _ := .goesOn unfinished (some (.ping f.payload))
  have hpong : Agrees app t _ _ := .goesOn unfinished none
  simp only [Option.toList_some, Option.toList_none, answer, List.flatMap_cons, List.flatMap_nil,
    List.append_nil] at hping hpong
  rw [onFrame]
  cases ho : f.opcode with
  | ping => simpa only [Frame.judge, ho] using hping
  | pong => simpa only [Frame.judge, ho] using hpong
  | close => simpa only [Frame.judge, ho] using Agrees.closed unfinished f.closeCode
  | continuation =>
    cases unfinished with
    | none =>
      simp only [Frame.judge, ho, Option.map_none]
      exact .violated _
    | some fragments => exact agrees_extend app limit t fragments f ho
  | text | binary =>
    cases unfinished with
    | none => simpa only [Frame.judge, ho, Option.map_none] using agrees_begin app t ..
    | some fragments =>
      simp only [Frame.judge, ho, Option.map_some]
      exact .violated _

inductive Leaves : Ending → Phase → Prop
  | waiting (inbox : Inbox) (unfinished : Option Fragments) :
      Leaves (.waiting (unfinished.map Fragments.message) inbox.bytes) (.frames inbox unfinished)
  | closed (code : Option Nat) (unfinished : Option Fragments) :
      Leaves (.closed code) (.closing unfinished)
  | violated (e : FrameError) : Leaves (.violated e) (.closing none)

theorem leaves_merged {ending : Ending} {phase : Phase} :
    Leaves ending phase.merged ↔ Leaves ending phase := by
  cases phase with
  | http session => exact Iff.rfl
  | closing unfinished => exact Iff.rfl
  | frames inbox unfinished =>
    have hb : ({ front := inbox.bytes } : Inbox).bytes = inbox.bytes := by
      rw [Inbox.bytes_eq]
      exact List.append_nil _
    constructor
    · intro h
      cases h
      rw [hb]
      exact .waiting inbox unfinished
    · intro h
      cases h
      rw [← hb]
      exact .waiting _ unfinished

theorem Leaves.of_merged_eq {ending : Ending} {s s' : Session τ} (h : Leaves ending s'.phase)
    (hm : s.merged = s'.merged) : Leaves ending s.phase := by
  have hp : s.phase.merged = s'.phase.merged := congrArg Session.phase hm
  rwa [← leaves_merged, hp, leaves_merged]

theorem isUpgraded_of_leaves {ending : Ending} {s : Session τ} (h : Leaves ending s.phase) :
    s.isUpgraded = true := by
  obtain ⟨phase, application⟩ := s
  cases h <;> rfl

theorem exists_frames_of_leaves {phase : Phase} {rest : Bytes}
    (h : Leaves (.waiting none rest) phase) :
    ∃ inbox, phase = .frames inbox none ∧ inbox.bytes = rest := by
  generalize he : Ending.waiting none rest = ending at h
  cases h with
  | waiting inbox unfinished =>
    cases unfinished with
    | none =>
      cases he
      exact ⟨inbox, rfl, rfl⟩
    | some fragments => cases he
  | closed | violated => cases he

structure Answers (app : Application τ) (t : τ) (a : List Incident × Ending)
    (r : Reply (Session τ)) : Prop where
  output : r.output = ((answer app t a.1).2 ++ a.2.farewell.toList).flatMap Frame.pack
  application : r.state.application = (answer app t a.1).1
  phase : Leaves a.2 r.state.phase

theorem exchange_answers (app : Application τ) (limit : Nat) (t : τ) (unfinished : Option Fragments)
    (b : Bytes) :
    Answers app t (account limit (unfinished.map Fragments.message) b)
      (exchange app limit t unfinished b) := by
  cases hr : Frame.read limit b with
  | incomplete n =>
    rw [account_incomplete hr, exchange_incomplete hr]
    have hp := Leaves.waiting { front := b, missing := n } unfinished
    rw [Inbox.bytes_eq] at hp
    simp only [Pieces.bytes_empty, List.append_nil] at hp
    exact ⟨rfl, rfl, hp⟩
  | invalid e =>
    rw [account_invalid hr, exchange_invalid hr]
    exact ⟨(List.append_nil _).symm, rfl, .violated e⟩
  | complete f rest =>
    have hl := Frame.length_lt_of_read hr
    have ha := agrees_onFrame app limit t unfinished f
    rw [exchange_complete hr]
    generalize hj : f.judge limit (unfinished.map Fragments.message) = verdict at ha
    generalize onFrame app limit t unfinished f = result at ha
    cases ha with
    | violated e =>
      rw [account_ended hr hj]
      exact ⟨(List.append_nil _).symm, rfl, .violated e⟩
    | closed unfinished code =>
      rw [account_ended hr hj]
      exact ⟨(List.append_nil _).symm, rfl, .closed code unfinished⟩
    | goesOn next incident =>
      have ih := exchange_answers app limit (answer app t incident.toList).1 next rest
      rw [account_goes_on hr hj]
      refine ⟨?_, ?_, ?_⟩
      · simp only [proceed, if_true, Reply.output_behind, ih.output, answer_append,
          List.append_assoc, List.flatMap_append]
      · simp only [proceed, if_true, Reply.state_behind, ih.application, answer_append]
      · exact ih.phase
termination_by b.length

def dialogue (app : Application τ) (t : τ) (is : List Incident) : List Frame :=
  (app.opened t).2.map Message.frame ++ (answer app (app.opened t).1 is).2

theorem greet_answers (app : Application τ) (limit : Nat) (t : τ) (response : Http.Response)
    (b : Bytes) :
    let a := account limit none b
    let r := greet app limit t response b
    r.output = response.render ++ (dialogue app t a.1 ++ a.2.farewell.toList).flatMap Frame.pack ∧
      r.state.application = (answer app (app.opened t).1 a.1).1 ∧ Leaves a.2 r.state.phase := by
  have he := exchange_answers app limit (app.opened t).1 none b
  rw [Option.map_none] at he
  refine ⟨?_, he.application, he.phase⟩
  simp only [greet, Reply.output_behind, he.output, send_eq, dialogue, List.flatMap_append,
    List.append_assoc]

theorem dialogue_recorded (app : Application τ) (t : τ) (is : List Incident) :
    dialogue app.recorded (t, []) is = dialogue app t is ∧
      (answer app.recorded (app.recorded.opened (t, [])).1 is).1.2 =
        .opened :: (is.filterMap Incident.message?).map .message := by
  have ho : app.recorded.opened (t, []) = (((app.opened t).1, [.opened]), (app.opened t).2) := rfl
  rw [dialogue, dialogue, ho, answer_recorded]
  exact ⟨rfl, rfl⟩

end Session

end Prefork.WebSocket
