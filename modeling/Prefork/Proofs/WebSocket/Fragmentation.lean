import Prefork.Proofs.WebSocket.Phases
import Prefork.Proofs.WebSocket.Reassembly

namespace Prefork.WebSocket

open Application (Notice)
open Callback (inputs)
open Http (Responder)

structure Message.Deliverable (limit : Nat) (m : Message) : Prop where
  limit : m.payload.length ≤ limit
  size : m.payload.length < 0x8000000000000000
  valid : m.kind = .text → Utf8.isValid m.payload = true

/-- A message and where its payload is cut. -/
structure Cut where
  kind : Message.Kind
  first : Bytes
  others : List Bytes
  deriving DecidableEq, Repr

namespace Cut

def message (c : Cut) : Message := ⟨c.kind, c.first ++ c.others.flatten⟩

def continuations : List Bytes → List Frame
  | [] => []
  | part :: parts =>
    { fin := parts.isEmpty, opcode := .continuation, payload := part } :: continuations parts

def frames (c : Cut) : List Frame :=
  { Message.frame ⟨c.kind, c.first⟩ with fin := c.others.isEmpty } :: continuations c.others

end Cut

def Frame.bare (f : Frame) : Frame := { f with mask := none }

/-- Frames that carry messages in fragments, with pings and pongs anywhere between them. -/
structure Carries (limit : Nat) (cuts : List Cut) (frames : List Frame) : Prop where
  messages : ∀ c ∈ cuts, c.message.Deliverable limit
  data : (frames.filter (!·.opcode.isControl)).map Frame.bare = cuts.flatMap Cut.frames
  control : ∀ f ∈ frames, f.opcode.isControl = true →
    f.opcode ≠ .close ∧ f.fin = true ∧ f.payload.length ≤ Frame.maxControlPayload

/-- What is answered: the pings, and each message where the frame stands that ends it. -/
def incidents : List Frame → List Message → List Incident
  | [], _ => []
  | f :: fs, ms => match f.opcode with
    | .ping => .ping f.payload :: incidents fs ms
    | .pong | .close => incidents fs ms
    | .continuation | .text | .binary =>
      if f.fin then (ms.head?.map .message).toList ++ incidents fs ms.tail else incidents fs ms

inductive Remains (limit : Nat) : Option Message → List Frame → List Message → Prop
  | between {cuts : List Cut} : (∀ c ∈ cuts, c.message.Deliverable limit) →
      Remains limit none (cuts.flatMap Cut.frames) (cuts.map Cut.message)
  | within {kind : Message.Kind} {front part : Bytes} {parts : List Bytes} {cuts : List Cut} :
      Message.Deliverable limit ⟨kind, front ++ (part :: parts).flatten⟩ →
      (∀ c ∈ cuts, c.message.Deliverable limit) →
      Remains limit (some ⟨kind, front⟩)
        (Cut.continuations (part :: parts) ++ cuts.flatMap Cut.frames)
        (⟨kind, front ++ (part :: parts).flatten⟩ :: cuts.map Cut.message)

variable {limit : Nat}

theorem Cut.length_of_mem_continuations {parts : List Bytes} {f : Frame}
    (h : f ∈ continuations parts) : f.payload.length ≤ parts.flatten.length := by
  induction parts with
  | nil => cases h
  | cons part parts ih =>
    rw [List.flatten_cons, List.length_append]
    rcases List.mem_cons.1 h with rfl | h
    · exact Nat.le_add_right ..
    · have := ih h
      omega

theorem Cut.length_of_mem_frames {c : Cut} {f : Frame} (h : f ∈ c.frames) :
    f.payload.length ≤ c.message.payload.length := by
  rw [message, List.length_append]
  rcases List.mem_cons.1 h with rfl | h
  · exact Nat.le_add_right ..
  · have := length_of_mem_continuations h
    omega

theorem Message.grown_of_deliverable {m : Message} (h : m.Deliverable limit) :
    m.grown true = .ok (none, some (.message m)) := by
  have hv : ¬(m.kind = .text ∧ (!Utf8.isValid m.payload) = true) := by
    rintro ⟨hk, hi⟩
    rw [h.valid hk] at hi
    cases hi
  rw [grown, if_neg (by decide), if_neg hv]

theorem Remains.grown {kind : Message.Kind} {front : Bytes} {parts : List Bytes} {cuts : List Cut}
    (hm : Message.Deliverable limit ⟨kind, front ++ parts.flatten⟩)
    (hc : ∀ c ∈ cuts, c.message.Deliverable limit) :
    let m : Message := ⟨kind, front ++ parts.flatten⟩
    ∃ next, Message.grown ⟨kind, front⟩ parts.isEmpty =
        .ok (next, if parts.isEmpty then some (.message m) else none) ∧
      Remains limit next (Cut.continuations parts ++ cuts.flatMap Cut.frames)
        (if parts.isEmpty then cuts.map Cut.message else m :: cuts.map Cut.message) := by
  cases parts with
  | nil =>
    simp only [List.flatten_nil, List.append_nil] at hm ⊢
    exact ⟨none, Message.grown_of_deliverable hm, .between hc⟩
  | cons part parts => exact ⟨_, rfl, .within hm hc⟩

theorem Remains.judge {u : Option Message} {f : Frame} {data : List Frame} {ms : List Message}
    (h : Remains limit u (f.bare :: data) ms) :
    ∃ next, f.judge limit u = .ok (next, if f.fin then ms.head?.map .message else none) ∧
      Remains limit next data (if f.fin then ms.tail else ms) := by
  generalize hd : f.bare :: data = fs at h
  obtain ⟨fin, opcode, mask, payload⟩ := f
  cases h with
  | @between cuts hc =>
    cases cuts with
    | nil => cases hd
    | cons c cuts =>
      obtain ⟨hm, hcuts⟩ := List.forall_mem_cons.1 hc
      obtain ⟨kind, first, others⟩ := c
      obtain ⟨next, hg, hr⟩ := Remains.grown hm hcuts
      rw [List.flatMap_cons, Cut.frames, List.cons_append, List.cons.injEq] at hd
      obtain ⟨hf, rfl⟩ := hd
      cases kind <;> cases hf <;> exact ⟨next, hg, hr⟩
  | @within kind front part parts cuts hm hc =>
    rw [Cut.continuations, List.cons_append, List.cons.injEq] at hd
    obtain ⟨hf, rfl⟩ := hd
    cases hf
    have hsize : ¬limit < front.length + payload.length := by
      have := hm.limit
      simp only [List.flatten_cons, List.length_append] at this
      omega
    rw [List.flatten_cons, ← List.append_assoc] at hm ⊢
    obtain ⟨next, hg, hr⟩ := Remains.grown hm hc
    refine ⟨next, ?_, hr⟩
    simp only [Frame.judge]
    rw [if_neg hsize]
    exact hg

theorem Remains.ne_nil {u : Option Message} {f : Frame} {data : List Frame} {ms : List Message}
    (h : Remains limit u (f :: data) ms) : ms ≠ [] := by
  generalize hd : f :: data = fs at h
  cases h with
  | within => exact List.cons_ne_nil _ _
  | @between cuts =>
    cases cuts with
    | nil => cases hd
    | cons c cuts => exact List.cons_ne_nil _ _

/-- Frames that carry messages bring those, and the pings between them, and lead back to where
nothing is in progress. -/
theorem Remains.assemble {u : Option Message} {frames : List Frame} {ms : List Message}
    (h : Remains limit u ((frames.filter (!·.opcode.isControl)).map Frame.bare) ms)
    (hc : ∀ f ∈ frames, f.opcode.isControl = true → f.opcode ≠ .close) :
    WebSocket.assemble limit (none, []) u frames = (incidents frames ms, .waiting none []) ∧
      (incidents frames ms).filterMap Incident.message? = ms := by
  induction frames generalizing u ms with
  | nil =>
    generalize hd : (([] : List Frame).filter (!·.opcode.isControl)).map Frame.bare = fs at h
    cases h with
    | within => cases hd
    | @between cuts =>
      cases cuts with
      | nil => exact ⟨rfl, rfl⟩
      | cons c cuts => cases hd
  | cons f fs ih =>
    obtain ⟨hf, hfs⟩ := List.forall_mem_cons.1 hc
    rw [WebSocket.assemble, incidents]
    cases ho : f.opcode with
    | ping | pong =>
      rw [List.filter_cons_of_neg (by simp [ho, Opcode.isControl])] at h
      obtain ⟨ha, hm⟩ := ih h hfs
      simp only [Frame.judge, ho, ha]
      exact ⟨rfl, hm⟩
    | close => exact absurd ho (hf (by rw [ho]; rfl))
    | continuation | text | binary =>
      rw [List.filter_cons_of_pos (by simp [ho, Opcode.isControl]), List.map_cons] at h
      obtain ⟨next, hj, hr⟩ := h.judge
      obtain ⟨ha, hm⟩ := ih hr hfs
      simp only [hj, ha]
      cases hfin : f.fin with
      | false =>
        rw [hfin] at hm
        exact ⟨rfl, hm⟩
      | true =>
        obtain ⟨m, ms, rfl⟩ := List.exists_cons_of_ne_nil h.ne_nil
        rw [hfin] at hm
        exact ⟨rfl, congrArg (m :: ·) hm⟩

namespace Carries

variable {cuts : List Cut} {frames : List Frame}

theorem admissible (h : Carries limit cuts frames)
    (hl : ∀ f ∈ frames, f.opcode.isControl = true → f.payload.length ≤ limit) :
    ∀ f ∈ frames, f.Admissible limit := by
  intro f hf
  cases hc : f.opcode.isControl with
  | true =>
    obtain ⟨-, hfin, hp⟩ := h.control f hf hc
    exact ⟨fun _ ↦ ⟨hfin, hp⟩, hl f hf hc, Nat.lt_of_le_of_lt hp (by decide)⟩
  | false =>
    have hb : f.bare ∈ cuts.flatMap Cut.frames := by
      rw [← h.data]
      exact List.mem_map_of_mem (List.mem_filter.2 ⟨hf, by rw [hc]; rfl⟩)
    obtain ⟨c, hcut, hframe⟩ := List.mem_flatMap.1 hb
    have hm := h.messages c hcut
    have hp := Cut.length_of_mem_frames hframe
    exact ⟨fun h ↦ (Bool.false_ne_true (hc.symm.trans h)).elim, Nat.le_trans hp hm.limit,
      Nat.lt_of_le_of_lt hp hm.size⟩

theorem account (h : Carries limit cuts frames)
    (hl : ∀ f ∈ frames, f.opcode.isControl = true → f.payload.length ≤ limit) :
    WebSocket.account limit none (frames.flatMap Frame.pack) =
        (incidents frames (cuts.map Cut.message), .waiting none []) ∧
      (incidents frames (cuts.map Cut.message)).filterMap Incident.message? =
        cuts.map Cut.message := by
  rw [WebSocket.account, Frame.readAll_flatMap_pack (h.admissible hl)]
  refine Remains.assemble ?_ fun f hf hc ↦ (h.control f hf hc).1
  rw [h.data]
  exact .between h.messages

end Carries

namespace Session

variable {τ : Type}

theorem run_answer (app : Application τ) (responder : Responder) (t : τ) {inbox : Inbox}
    {cs : List Callback} {is : List Incident}
    (hs : (Phase.frames inbox none).Settled limit)
    (ha : account limit none (inbox.bytes ++ inputs cs) = (is, .waiting none [])) :
    let r := (protocol app responder limit).run { phase := .frames inbox none, application := t } cs
    r.stays = true ∧ r.output = (answer app t is).2.flatMap Frame.pack ∧
      ∃ rest : Inbox, r.state =
        { phase := .frames rest none, application := (answer app t is).1 } ∧ rest.bytes = [] := by
  obtain ⟨hout, happ, hphase⟩ := exchange_answers app limit t none (inbox.bytes ++ inputs cs)
  rw [Option.map_none, ha] at hout happ hphase
  have hw : Awaits app limit (inputs cs) _ _ _ := .frames t none hs.1 hs.2
  generalize exchange app limit t none (inbox.bytes ++ inputs cs) = whole at hout happ hphase hw
  rw [← List.append_nil (inputs cs)] at hw
  obtain ⟨ho, hm⟩ := (run_leads responder cs hw).end_eq
  have hopen : ∀ unfinished, whole.state.merged.phase ≠ .closing unfinished := by
    obtain ⟨rest, hrest, -⟩ := exists_frames_of_leaves (leaves_merged.2 hphase)
    intro unfinished hclosing
    cases hrest.symm.trans hclosing
  refine ⟨run_stays responder cs hw hopen, ?_, ?_⟩
  · rw [ho, hout]
    simp [Ending.farewell]
  · generalize ((protocol app responder limit).run
      { phase := .frames inbox none, application := t } cs).state = last at hm ⊢
    have ht : last.merged.application = whole.state.merged.application :=
      congrArg Session.application hm
    replace hphase := hphase.of_merged_eq hm
    obtain ⟨phase, application⟩ := last
    obtain ⟨rest, rfl, hrest⟩ := exists_frames_of_leaves hphase
    cases ht.trans happ
    exact ⟨rest, rfl, hrest⟩

theorem buffered_frames {inbox : Inbox} (h : inbox.bytes = []) (t : τ) :
    buffered { phase := .frames inbox none, application := t } = 0 := by
  simp [buffered, ← Inbox.length_bytes, h]

/-- Messages in fragments are put together, whatever the cuts, masks, pings and pongs between them
and reads. A connection on which frames are exchanged and no message is in progress delivers each
once, in order, and sends the pongs and the replies in the order of the frames. Nothing is left over
and the connection goes on. -/
theorem run_reassembles (app : Application τ) (responder : Responder) {t₀ t : τ}
    {before cs : List Callback} {inbox : Inbox} {cuts : List Cut} {frames : List Frame}
    (hs : ((protocol app responder limit).play { application := t₀ } before).state =
      { phase := .frames inbox none, application := t })
    (hc : Carries limit cuts frames)
    (hl : ∀ f ∈ frames, f.opcode.isControl = true → f.payload.length ≤ limit)
    (hi : inbox.bytes ++ inputs cs = frames.flatMap Frame.pack) :
    let messages := cuts.map Cut.message
    let sent := (answer app t (incidents frames messages)).2
    let r := (protocol app responder limit).run { phase := .frames inbox none, application := t } cs
    ((protocol app.recorded responder limit).run
        { phase := .frames inbox none, application := (t, []) } cs).state.application.2 =
        messages.map .message ∧
      r.output = sent.flatMap Frame.pack ∧
      (∀ f ∈ sent, f.fin = true ∧ f.mask = none ∧ f.opcode ≠ .close) ∧ r.stays = true ∧
      (∃ rest, r.state.phase = .frames rest none) ∧ buffered r.state = 0 := by
  have hnew : ({ application := t₀ } : Session τ).phase.Settled limit := trivial
  have hsettled := play_settled app responder hnew before
  rw [hs] at hsettled
  obtain ⟨haccount, hmessages⟩ := hc.account hl
  rw [← hi] at haccount
  obtain ⟨hstays, hout, rest, hstate, hrest⟩ := run_answer app responder t hsettled haccount
  obtain ⟨-, -, last, hlast, -⟩ := run_answer app.recorded responder (t, []) hsettled haccount
  refine ⟨?_, hout, fun f hf ↦ ?_, hstays, ⟨rest, by rw [hstate]⟩, ?_⟩
  · rw [hlast, answer_recorded, hmessages]
    rfl
  · rcases mem_answer hf with ⟨m, rfl⟩ | ⟨payload, -, rfl⟩
    · refine ⟨rfl, rfl, fun ho ↦ ?_⟩
      have hm := isControl_frame m
      rw [ho] at hm
      cases hm
    · exact ⟨rfl, rfl, nofun⟩
  · rw [hstate]
    exact buffered_frames hrest _

def chatRequest : Bytes :=
  Utf8.encode "GET /chat HTTP/1.1\r\nConnection: Upgrade\r\nUpgrade: websocket\r\n" ++
    Utf8.encode "Sec-WebSocket-Version: 13\r\nSec-WebSocket-Key: a\r\n\r\n"

def spreadFrames : List Frame :=
  [{ fin := false, opcode := .text, mask := some ⟨1, 2, 3, 4⟩, payload := [104] },
    { opcode := .ping, payload := [7] }, { fin := false, opcode := .continuation },
    { opcode := .pong, mask := some ⟨9, 9, 9, 9⟩ },
    { opcode := .continuation, mask := some ⟨0, 255, 0, 255⟩, payload := [105] },
    { opcode := .binary }]

def spreadCallbacks : List Callback :=
  [.read ((spreadFrames.flatMap Frame.pack).take 8), .write,
    .read ((spreadFrames.flatMap Frame.pack).drop 8)]

theorem run_spreadCallbacks :
    let cuts : List Cut := [⟨.text, [104], [[], [105]]⟩, ⟨.binary, [], []⟩]
    let p := protocol .echo .greeting 16
    let start : Session Unit := { phase := .frames { missing := 2 } none, application := () }
    let sent : List Frame := [{ opcode := .pong, payload := [7] },
      { opcode := .text, payload := [104, 105] }, { opcode := .binary }]
    (p.play { application := () } [.read chatRequest]).state = start ∧
      Carries 16 cuts spreadFrames ∧
      (∀ f ∈ spreadFrames, f.opcode.isControl = true → f.payload.length ≤ 16) ∧
      [] ++ inputs spreadCallbacks = spreadFrames.flatMap Frame.pack ∧
      ((protocol (Application.recorded .echo) .greeting 16).run
        { phase := .frames { missing := 2 } none, application := ((), []) }
        spreadCallbacks).state.application.2 =
        [.message ⟨.text, [104, 105]⟩, .message ⟨.binary, []⟩] ∧
      (p.run start spreadCallbacks).output = sent.flatMap Frame.pack ∧
      (∀ f ∈ sent, f.fin = true ∧ f.mask = none ∧ f.opcode ≠ .close) ∧
      (p.run start spreadCallbacks).stays = true ∧
      (∃ rest, (p.run start spreadCallbacks).state.phase = .frames rest none) ∧
      buffered (p.run start spreadCallbacks).state = 0 := by
  have hs : ((protocol .echo .greeting 16).play { application := () } [.read chatRequest]).state =
      { phase := .frames { missing := 2 } none, application := () } := rfl
  have hc : Carries 16 [⟨.text, [104], [[], [105]]⟩, ⟨.binary, [], []⟩] spreadFrames := by
    refine ⟨?_, by decide, by decide⟩
    simp only [List.forall_mem_cons]
    exact ⟨⟨by decide, by decide, fun _ ↦ by decide⟩, ⟨by decide, by decide, nofun⟩, nofun⟩
  have hl : ∀ f ∈ spreadFrames, f.opcode.isControl = true → f.payload.length ≤ 16 := by decide
  have hi : [] ++ inputs spreadCallbacks = spreadFrames.flatMap Frame.pack := by decide
  exact ⟨hs, hc, hl, hi, run_reassembles .echo .greeting hs hc hl hi⟩

/-- A ping that is longer than the limit is a violation, though it is not longer than a control
frame may be. -/
theorem run_long_ping :
    let ping : Frame := { opcode := .ping, payload := [1, 2, 3, 4, 5] }
    let p := protocol .echo .greeting 4
    let start : Session Unit := { phase := .frames { missing := 2 } none, application := () }
    let r := p.run start [.read ping.pack]
    (p.play { application := () } [.read chatRequest]).state = start ∧ Carries 4 [] [ping] ∧
      r.output = (Frame.close (some 1009) "").pack ∧
      r.output ≠ (answer .echo () (incidents [ping] [])).2.flatMap Frame.pack ∧
      r.state.phase = .closing none := by
  exact ⟨rfl, ⟨nofun, rfl, by decide⟩, rfl, by decide, rfl⟩

end Session

end Prefork.WebSocket
