import Prefork.Proofs.Http.Transcript

namespace Prefork.Http.Session

structure Fits (s : Session) (output : Bytes) : Prop where
  responding : output ≠ [] ↔ ∃ keepAlive, s.turn = .responding keepAlive
  rests : s.turn = .reading → s.next.1 = .ok none

theorem fits_new : Fits {} [] := ⟨⟨fun h ↦ absurd rfl h, fun ⟨_, h⟩ ↦ nomatch h⟩, fun _ ↦ rfl⟩

theorem fits_respond (s : Session) (response : Response) (keepAlive : Bool) :
    Fits (s.respond response keepAlive).state (s.respond response keepAlive).output :=
  ⟨⟨fun _ ↦ ⟨keepAlive, rfl⟩, fun _ ↦ render_ne_nil _⟩, nofun⟩

theorem fits_reading {s : Session} (hs : s.turn = .reading) (hn : s.next.1 = .ok none) :
    Fits s [] :=
  ⟨⟨fun h ↦ absurd rfl h, fun ⟨_, h⟩ ↦ nomatch hs.symm.trans h⟩, fun _ ↦ hn⟩

theorem fits_pump (responder : Responder) {s : Session} (h : s.turn = .reading) :
    Fits (pump responder s).state (pump responder s).output := by
  obtain ⟨parser, turn⟩ := s
  subst h
  rw [pump]
  simp only [next]
  generalize hn : parser.next = result
  obtain ⟨result, q⟩ := result
  cases result with
  | error e => exact fits_respond ..
  | ok request =>
    cases request with
    | none => exact fits_reading rfl (Parser.next_next hn)
    | some request => exact fits_respond ..

theorem fits_received (responder : Responder) {s : Session} {output : Bytes} (data : Bytes)
    (h : Fits s output) : Fits ((protocol responder).received data s).state
      (output ++ ((protocol responder).received data s).output) := by
  obtain ⟨parser, turn⟩ := s
  cases turn with
  | reading =>
    have hout : output = [] := by
      by_cases ho : output = []
      · exact ho
      · obtain ⟨_, ht⟩ := h.responding.1 ho
        cases ht
    subst hout
    exact fits_pump responder rfl
  | responding keepAlive =>
    show Fits _ (output ++ [])
    rw [List.append_nil]
    exact ⟨h.responding, nofun⟩

theorem fits_drained (responder : Responder) {s : Session} {output : Bytes} (h : Fits s output)
    (hs : ((protocol responder).drained s).stays = true) :
    Fits ((protocol responder).drained s).state ((protocol responder).drained s).output := by
  obtain ⟨parser, turn⟩ := s
  match turn with
  | .reading => exact fits_reading rfl (h.rests rfl)
  | .responding false => cases hs
  | .responding true => exact fits_pump responder rfl

end Prefork.Http.Session
