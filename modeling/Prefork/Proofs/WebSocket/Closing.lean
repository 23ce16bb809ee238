import Prefork.Proofs.WebSocket.Switching

namespace Prefork.WebSocket

open Callback (inputs)
open Http (Responder)

def Ending.code : Ending → Option Nat
  | waiting _ _ => none
  | closed code => code
  | violated e => some e.closeCode

theorem Frame.closeCode_lt {f : Frame} {code : Nat} (h : f.closeCode = some code) :
    code < 0x10000 := by
  rw [closeCode] at h
  split at h
  · next a b rest _ _ =>
    cases h
    exact Bytes.toNat_lt [a, b]
  · cases h

theorem Frame.closeCode_close {code : Option Nat} (h : ∀ n, code = some n → n < 0x10000) :
    (close code "").closeCode = code := by
  cases code with
  | none => rfl
  | some n =>
    have hlt := h n rfl
    have hn : Bytes.toNat (Bytes.ofNat 2 n) = n := by
      rw [Bytes.toNat_ofNat, Bytes.span_two, Nat.mod_eq_of_lt hlt]
    exact congrArg some hn

theorem FrameError.closeCode_lt (e : FrameError) : e.closeCode < 0x10000 := by
  cases e <;> simp [closeCode]

theorem Frame.length_close_le (code : Option Nat) : (close code "").payload.length ≤ 2 := by
  cases code with
  | none => exact Nat.zero_le _
  | some n => exact Nat.le_refl _

section Assemble

variable {limit : Nat} {behind : Option FrameError × Bytes}

theorem Message.grown_cases (m : Message) (fin : Bool) :
    m.grown fin = .ok (some m, none) ∨ m.grown fin = .ok (none, some (.message m)) ∨
      m.grown fin = .error (.violated .invalidUtf8) := by
  rw [grown]
  split
  · exact .inl rfl
  · split
    · exact .inr (.inr rfl)
    · exact .inr (.inl rfl)

theorem Frame.judge_control (f : Frame) (u : Option Message) :
    (∀ next payload, f.judge limit u = .ok (next, some (.ping payload)) →
        f.opcode = .ping ∧ f.payload = payload) ∧
      ∀ code, f.judge limit u = .error (.closed code) → f.opcode = .close ∧ f.closeCode = code := by
  have hgrown (m : Message) : (∀ next payload, m.grown f.fin = .ok (next, some (.ping payload)) →
        f.opcode = .ping ∧ f.payload = payload) ∧
      ∀ code, m.grown f.fin = .error (.closed code) → f.opcode = .close ∧ f.closeCode = code := by
    rcases m.grown_cases f.fin with h | h | h <;> rw [h] <;> exact ⟨nofun, nofun⟩
  generalize hj : f.judge limit u = verdict
  unfold judge at hj
  split at hj
  · next ho =>
    subst hj
    refine ⟨fun next payload h ↦ ?_, nofun⟩
    cases h
    exact ⟨ho, rfl⟩
  · exact hj ▸ ⟨nofun, nofun⟩
  · next ho =>
    subst hj
    refine ⟨nofun, fun code h ↦ ?_⟩
    cases h
    exact ⟨ho, rfl⟩
  · exact hj ▸ ⟨nofun, nofun⟩
  · dsimp only at hj
    split at hj
    · exact hj ▸ ⟨nofun, nofun⟩
    · exact hj ▸ hgrown _
  · exact hj ▸ ⟨nofun, nofun⟩
  · exact hj ▸ ⟨nofun, nofun⟩
  · exact hj ▸ hgrown _
  · exact hj ▸ hgrown _

theorem assemble_frames (limit : Nat) (behind : Option FrameError × Bytes) (u : Option Message)
    (fs : List Frame) :
    (∀ payload, .ping payload ∈ (assemble limit behind u fs).1 →
        ∃ f ∈ fs, f.opcode = .ping ∧ f.payload = payload) ∧
      ∀ code, (assemble limit behind u fs).2 = .closed code →
        ∃ f ∈ fs, f.opcode = .close ∧ f.closeCode = code := by
  induction fs generalizing u with
  | nil =>
    obtain ⟨error, rest⟩ := behind
    cases error with
    | none => exact ⟨fun _ h ↦ absurd h List.not_mem_nil, nofun⟩
    | some e => exact ⟨fun _ h ↦ absurd h List.not_mem_nil, nofun⟩
  | cons f fs ih =>
    rw [assemble]
    cases hj : f.judge limit u with
    | error ending =>
      refine ⟨fun _ h ↦ absurd h List.not_mem_nil, fun code h ↦ ?_⟩
      obtain rfl : ending = .closed code := h
      exact ⟨f, List.mem_cons_self, (f.judge_control u).2 code hj⟩
    | ok verdict =>
      obtain ⟨next, incident⟩ := verdict
      obtain ⟨hpings, hclosed⟩ := ih next
      refine ⟨fun payload h ↦ ?_, fun code h ↦ ?_⟩
      · rcases List.mem_append.1 h with h | h
        · rw [Option.mem_toList] at h
          obtain rfl : incident = some (.ping payload) := h
          exact ⟨f, List.mem_cons_self, (f.judge_control u).1 next payload hj⟩
        · obtain ⟨g, hg, hp⟩ := hpings payload h
          exact ⟨g, List.mem_cons_of_mem f hg, hp⟩
      · obtain ⟨g, hg, hp⟩ := hclosed code h
        exact ⟨g, List.mem_cons_of_mem f hg, hp⟩

theorem account_frames (limit : Nat) (u : Option Message) (b : Bytes) :
    (∀ payload, .ping payload ∈ (account limit u b).1 → payload.length ≤ Frame.maxControlPayload) ∧
      ∀ code, (account limit u b).2 = .closed code → ∀ n, code = some n → n < 0x10000 := by
  obtain ⟨hpings, hclosed⟩ :=
    assemble_frames limit (Frame.readAll limit b).2 u (Frame.readAll limit b).1
  refine ⟨fun payload h ↦ ?_, fun code h n hn ↦ ?_⟩
  · obtain ⟨f, hf, ho, rfl⟩ := hpings payload h
    exact ((Frame.admissible_of_mem_readAll limit b hf).control (by rw [ho]; rfl)).2
  · obtain ⟨f, -, -, rfl⟩ := hclosed code h
    exact Frame.closeCode_lt hn

end Assemble

namespace Session

variable {τ : Type}

theorem mem_dialogue {app : Application τ} {t : τ} {is : List Incident} {f : Frame}
    (h : f ∈ dialogue app t is) :
    (∃ m : Message, f = m.frame) ∨ ∃ payload, .ping payload ∈ is ∧ f = { opcode := .pong, payload } := by
  rcases List.mem_append.1 h with h | h
  · obtain ⟨m, -, rfl⟩ := List.mem_map.1 h
    exact .inl ⟨m, rfl⟩
  · exact mem_answer h

/-- What is output behind a handshake where frames lead to this ending, and the session after it. -/
structure Disciplined (app : Application τ) (responder : Responder) (limit : Nat)
    (sent : List Frame) (ending : Ending) (output : Bytes) (s : Session τ) : Prop where
  packed : output = (sent ++ ending.farewell.toList).flatMap Frame.pack
  /-- Whatever limit these frames keep, they are what is decoded. -/
  splits (max : Nat) : (∀ f ∈ sent ++ ending.farewell.toList,
    f.payload.length ≤ max ∧ f.payload.length < 0x8000000000000000) →
    Frame.readAll max output = (sent ++ ending.farewell.toList, none, [])
  plain : ∀ f ∈ sent ++ ending.farewell.toList, f.fin = true ∧ f.mask = none
  notClose : ∀ f ∈ sent, f.opcode ≠ .close
  close : ∀ f, ending.farewell = some f → f.opcode = .close ∧ f.closeCode = ending.code
  goesOn : ending.farewell = none → ∃ inbox unfinished, s.phase = .frames inbox unfinished ∧
    ending = .waiting (unfinished.map Fragments.message) inbox.bytes
  quiet : ending.farewell.isSome → ∀ c, (protocol app responder limit).callback s c =
    { state := s, stays := c ≠ .write }

theorem disciplined_of_leaves (app : Application τ) (responder : Responder) (limit : Nat) (t : τ)
    (b : Bytes) {s : Session τ} (h : Leaves (account limit none b).2 s.phase) :
    Disciplined app responder limit (dialogue app t (account limit none b).1) (account limit none b).2
      ((dialogue app t (account limit none b).1 ++ (account limit none b).2.farewell.toList).flatMap
        Frame.pack) s := by
  obtain ⟨hpings, hclosed⟩ := account_frames limit none b
  generalize account limit none b = a at h hpings hclosed ⊢
  obtain ⟨is, ending⟩ := a
  have hclose : ∀ f, ending.farewell = some f →
      f = Frame.close ending.code "" ∧ f.closeCode = ending.code := by
    intro f hf
    cases ending with
    | waiting u rest => cases hf
    | closed code =>
      cases hf
      exact ⟨rfl, Frame.closeCode_close (hclosed code rfl)⟩
    | violated e =>
      cases hf
      exact ⟨rfl, Frame.closeCode_close fun n hn ↦ by cases hn; exact e.closeCode_lt⟩
  have hmem : ∀ f ∈ dialogue app t is ++ ending.farewell.toList,
      f.fin = true ∧ f.mask = none ∧
        (f.opcode.isControl = true → f.payload.length ≤ Frame.maxControlPayload) := by
    intro f hf
    rcases List.mem_append.1 hf with hf | hf
    · rcases mem_dialogue hf with ⟨m, rfl⟩ | ⟨payload, hp, rfl⟩
      · refine ⟨rfl, rfl, fun hc ↦ ?_⟩
        rw [isControl_frame] at hc
        cases hc
      · exact ⟨rfl, rfl, fun _ ↦ hpings payload hp⟩
    · obtain ⟨rfl, -⟩ := hclose f (Option.mem_toList.1 hf)
      exact ⟨rfl, rfl, fun _ ↦ Nat.le_trans (Frame.length_close_le _) (by decide)⟩
  refine ⟨rfl, fun max hmax ↦ ?_, fun f hf ↦ ⟨(hmem f hf).1, (hmem f hf).2.1⟩, fun f hf ↦ ?_,
    fun f hf ↦ ?_, fun hn ↦ ?_, fun hs c ↦ ?_⟩
  · refine Frame.readAll_flatMap_pack fun f hf ↦ ?_
    exact ⟨fun hc ↦ ⟨(hmem f hf).1, (hmem f hf).2.2 hc⟩, (hmax f hf).1, (hmax f hf).2⟩
  · rcases mem_dialogue hf with ⟨m, rfl⟩ | ⟨payload, -, rfl⟩
    · intro ho
      have hc := isControl_frame m
      rw [ho] at hc
      cases hc
    · exact nofun
  · obtain ⟨rfl, hc⟩ := hclose f hf
    exact ⟨rfl, hc⟩
  · obtain ⟨phase, application⟩ := s
    cases h with
    | waiting inbox unfinished => exact ⟨inbox, unfinished, rfl, rfl⟩
    | closed code unfinished => cases hn
    | violated e => cases hn
  · obtain ⟨phase, application⟩ := s
    cases h with
    | waiting inbox unfinished => cases hs
    | closed code unfinished => exact callback_closing responder application unfinished c
    | violated e => exact callback_closing responder application none c

/-- A connection that has changed protocols has greeted a request, and all that was received up to
then is what it and those before it were read from, and the bytes behind it. What the connection
outputs behind its answer, what its application was told and its phase are those that the frames in
these bytes and the later ones call for. -/
theorem play_disciplined (app : Application τ) (responder : Responder) (limit : Nat) (t : τ)
    (cs : List Callback)
    (h : ((protocol app responder limit).play { application := t } cs).state.isUpgraded = true) :
    let p := protocol app responder limit
    let s : Session τ := { application := t }
    ∃ before c after rest request response output, cs = before ++ c :: after ∧
      (p.play s before).state.isUpgraded = false ∧
      (p.play s (before ++ [c])).state.isUpgraded = true ∧
      (p.play s before).state.taken c = some (.ok request) ∧
      Http.Parsed.Spends (parsed p s before ++ [.ok request]) (inputs (before ++ [c])) rest ∧
      rest <:+ inputs (before ++ [c]) ∧ Handshake.isUpgrade request = true ∧
      Handshake.accept request = .ok response ∧
      (p.play s cs).output = (p.play s before).output ++ response.render ++ output ∧
      let a := account limit none (rest ++ inputs after)
      ((protocol app.recorded responder limit).play { application := (t, []) } cs).state.application.2 =
        .opened :: (a.1.filterMap Incident.message?).map .message ∧
      Disciplined app responder limit (dialogue app t a.1) a.2 output (p.play s cs).state := by
  obtain ⟨before, c, after, request, rest, rfl, hchanged, htold, hleaves⟩ :=
    changed_of_isUpgraded app responder limit t h
  obtain ⟨haccept, -⟩ := reply_valid responder hchanged.valid
  exact ⟨before, c, after, rest, request, reply responder (.ok request), _, rfl,
    hchanged.unchanged.http, hchanged.upgraded [], hchanged.taken, hchanged.spends,
    hchanged.spends.suffix, Handshake.isUpgrade_iff.2 hchanged.valid.toAsks, haccept,
    hchanged.output, htold,
    disciplined_of_leaves app responder limit t (rest ++ inputs after) hleaves⟩

def reservedRun : List Callback :=
  [.read (Utf8.encode "GET /chat HTTP/1.1\r\nConnection: Upgrade\r\nUpgrade: websocket\r\n"), .write,
    .read (Utf8.encode "Sec-WebSocket-Version: 13\r\nSec-WebSocket-Key: a\r\n\r\n" ++ [1, 1, 104, 137]),
    .read [0, 128, 1, 105, 131, 0, 129], .write, .read [0], .write]

theorem play_reservedRun :
    let p := protocol .echo .greeting 16
    let s : Session Unit := { application := () }
    (p.play s reservedRun).state.isUpgraded = true ∧
      ∃ before c after rest request response output, reservedRun = before ++ c :: after ∧
        (p.play s before).state.isUpgraded = false ∧
        (p.play s (before ++ [c])).state.isUpgraded = true ∧
        (p.play s before).state.taken c = some (.ok request) ∧
        Http.Parsed.Spends (parsed p s before ++ [.ok request]) (inputs (before ++ [c])) rest ∧
        rest <:+ inputs (before ++ [c]) ∧ Handshake.isUpgrade request = true ∧
        Handshake.accept request = .ok response ∧
        (p.play s reservedRun).output = (p.play s before).output ++ response.render ++ output ∧
        let a := account 16 none (rest ++ inputs after)
        ((protocol (Application.recorded .echo) .greeting 16).play { application := ((), []) }
            reservedRun).state.application.2 =
          .opened :: (a.1.filterMap Incident.message?).map .message ∧
        Disciplined .echo .greeting 16 (dialogue .echo () a.1) a.2 output
          (p.play s reservedRun).state := by
  have h : ((protocol .echo .greeting 16).play { application := () }
      reservedRun).state.isUpgraded = true := rfl
  exact ⟨h, play_disciplined .echo .greeting 16 () reservedRun h⟩

end Session

end Prefork.WebSocket
