import Prefork.Proofs.Http.Parser

namespace Prefork.Http

open Text (find? find?_take add_length_le_of_find?)

namespace Head

theorem text_take (b : Bytes) (n : Nat) : text ((text b).take n) = (text b).take n := by
  cases n with
  | zero => rfl
  | succ n =>
    cases ht : text b with
    | nil => rfl
    | cons x xs =>
      have hx : ¬ isLineByte x := by
        have hhead := List.head?_dropWhile_not isLineByte b
        rw [← text, ht] at hhead
        simpa using hhead
      rw [List.take_succ_cons, text, List.dropWhile_cons_of_neg hx]

/-- The bytes of a head are a head by themselves, whatever stood behind them when it was found. -/
theorem read_slice {b rest : Bytes} {head : Head} (h : read b = .complete head rest) :
    ∃ slice, b = slice ++ rest ∧ read slice = .complete head [] := by
  rw [read] at h
  cases hf : findEnd (text b) with
  | none => simp [hf] at h
  | some p =>
    obtain ⟨e, i⟩ := p
    rw [hf] at h
    obtain ⟨hp, hrest⟩ := Reading.ofExcept_eq_complete h
    obtain ⟨hi, hd⟩ := (findEnd_eq_some_iff ..).1 hf
    have hb : b = b.takeWhile isLineByte ++ text b := List.takeWhile_append_dropWhile.symm
    generalize hn : i + e.terminator.length = n at hrest
    have hend : findEnd ((text b).take n) = some (e, i) := by
      rw [findEnd_eq_some_iff]
      refine ⟨hn ▸ find?_take e.terminator_ne_nil hi, fun d hm hinf ↦ hd d hm ?_⟩
      exact hinf.trans (List.take_prefix _ _).isInfix
    have htext : text (b.takeWhile isLineByte ++ (text b).take n) = (text b).take n := by
      have hblank : ∀ x ∈ b.takeWhile isLineByte, isLineByte x :=
        List.all_eq_true.1 List.all_takeWhile
      rw [text, List.dropWhile_append_of_pos hblank]
      exact text_take b n
    refine ⟨b.takeWhile isLineByte ++ (text b).take n, ?_, ?_⟩
    · rw [← hrest, List.append_assoc, List.take_append_drop]
      exact hb
    · have htake : ((text b).take n).take i = (text b).take i := by
        rw [List.take_take, Nat.min_eq_left (by omega)]
      have hdrop : ((text b).take n).drop n = [] := List.drop_eq_nil_of_le (List.length_take_le ..)
      rw [read, htext, hend]
      dsimp only
      rw [hn, htake, hdrop, hp, Reading.ofExcept]

end Head

namespace Parser

/-- The bytes of a request, with what its head alone is read as. -/
structure Slice where
  text : Bytes
  head : Head
  body : Bytes
  read_text : Head.read text = .complete head []
  length_body : body.length = head.contentLength

namespace Slice

def bytes (s : Slice) : Bytes := s.text ++ s.body

def request (s : Slice) : Request :=
  { method := s.head.method, target := s.head.target, version := s.head.version,
    headers := s.head.headers, body := s.body }

end Slice

def Opens (p : Parser) (opened : Bytes) : Prop :=
  match p.head with
  | none => opened = []
  | some head => Head.read opened = .complete head []

/-- What a parser knows of the bytes that it holds is right. -/
def Sound (p : Parser) : Prop :=
  match p.head with
  | none => Holds p.inbox.bytes p
  | some head => p.inbox.missing = head.contentLength - p.inbox.bytes.length

structure Starves (p : Parser) : Prop where
  text : p.awaitingBody = false → (Head.read p.takeAll.1).isIncomplete
  body {head : Head} : p.head = some head →
    p.buffered < head.contentLength ∧ head.contentLength ≤ Head.maxBody

inductive Gives (b : Bytes) : Except RequestError (Option Request) × Parser → Prop
  | nothing {opened : Bytes} {p : Parser} : b = opened ++ p.inbox.bytes → Opens p opened →
      Sound p → Starves p → Gives b (.ok none, p)
  | request (slice : Slice) {p : Parser} : b = slice.bytes ++ p.inbox.bytes → Opens p [] →
      Sound p → Gives b (.ok (some slice.request), p)
  | error (e : RequestError) : Gives b (.error e, {})

theorem sound_front (b : Bytes) : Sound { inbox := { front := b } } := by
  have hb : ({ front := b } : Inbox).bytes = b := by simp [Inbox.bytes_eq]
  show Holds ({ front := b } : Inbox).bytes _
  rw [hb]
  exact holds_front b

theorem Sound.push {p : Parser} (h : Sound p) (data : Bytes) : Sound (p.push data) := by
  obtain ⟨inbox, head, tail⟩ := p
  cases head with
  | none =>
    show Holds (inbox.push data).bytes _
    rw [Inbox.bytes_push]
    exact Holds.push_text h data
  | some head =>
    have hm : inbox.missing = head.contentLength - inbox.bytes.length := h
    show inbox.missing - data.length = head.contentLength - (inbox.push data).bytes.length
    rw [Inbox.bytes_push, List.length_append]
    omega

/-- With a head in front, a parser gives the request or keeps the head until its body is there. -/
theorem gives_finish {opened rest : Bytes} {head : Head}
    (h : Head.read opened = .complete head []) :
    Gives (opened ++ rest) (.ok (finish head rest).1, (finish head rest).2) := by
  rcases Nat.lt_or_ge rest.length head.contentLength with hl | hl
  · have hb : ({ front := rest, missing := head.contentLength - rest.length } : Inbox).bytes =
        rest := by
      simp [Inbox.bytes_eq]
    rw [finish_of_lt hl]
    refine .nothing (by rw [hb]) h (show _ = _ by rw [hb]) ⟨nofun, fun he ↦ ?_⟩
    cases he
    refine ⟨?_, Head.contentLength_le h⟩
    rw [buffered, ← Inbox.length_bytes, hb]
    exact hl
  · have hb : ({ front := rest.drop head.contentLength } : Inbox).bytes =
        rest.drop head.contentLength := by
      simp [Inbox.bytes_eq]
    rw [finish_of_le hl]
    let slice : Slice := ⟨opened, head, rest.take head.contentLength, h, List.length_take_of_le hl⟩
    refine .request slice ?_ rfl (sound_front _)
    rw [hb, Slice.bytes, List.append_assoc, List.take_append_drop]

theorem Sound.gives {opened : Bytes} {p : Parser} (h : Sound p) (ho : Opens p opened) :
    Gives (opened ++ p.inbox.bytes) p.next := by
  obtain ⟨inbox, head, tail⟩ := p
  cases head with
  | some head =>
    have hr : Head.read opened = .complete head [] := ho
    have hm : inbox.missing = head.contentLength - inbox.bytes.length := h
    cases hw : inbox.waits with
    | true =>
      have hn : next { inbox, head := some head, tail } = (.ok none, _) := next_of_waits hw
      rw [hn]
      refine .nothing rfl ho h ⟨fun ha ↦ absurd ha (by simp [awaitingBody]), fun he ↦ ?_⟩
      cases he
      refine ⟨?_, Head.contentLength_le hr⟩
      rw [Inbox.waits, decide_eq_true_eq] at hw
      rw [buffered, ← Inbox.length_bytes]
      show inbox.bytes.length < head.contentLength
      omega
    | false =>
      rw [next_body hw]
      exact gives_finish hr
  | none =>
    obtain rfl : opened = [] := ho
    cases tail with
    | some t =>
      rw [next_of_waits rfl]
      refine .nothing rfl rfl h ⟨fun _ ↦ ?_, fun he ↦ absurd he (by simp)⟩
      cases h with
      | text hb ht =>
        show (Head.read inbox.bytes).isIncomplete
        rw [Head.read_of_tail? (ht t rfl)]
        rfl
    | none =>
      rw [next_text, List.nil_append]
      cases hr : Head.read inbox.bytes with
      | incomplete n =>
        have hb : ({ front := inbox.bytes } : Inbox).bytes = inbox.bytes := by simp [Inbox.bytes_eq]
        refine .nothing hb.symm rfl (.text rfl ?_) ⟨fun _ ↦ ?_, fun he ↦ absurd he (by simp)⟩
        · intro t ht
          rw [hb]
          exact ht
        · show (Head.read ({ front := inbox.bytes } : Inbox).bytes).isIncomplete
          rw [hb, hr]
          rfl
      | invalid e => exact .error e
      | complete head rest =>
        obtain ⟨slice, hs, hread⟩ := Head.read_slice hr
        rw [hs]
        exact gives_finish hread

inductive Call where
  | push (data : Bytes)
  | next
  | takeAll
  | reset

/-- A parser, with the bytes pushed into it and the requests it gave since it was new or was
emptied, as it is after an error. -/
structure Stretch where
  parser : Parser := {}
  pushed : Bytes := []
  given : List Request := []

def Stretch.call (s : Stretch) : Call → Stretch
  | .push data => { s with parser := s.parser.push data, pushed := s.pushed ++ data }
  | .next => match s.parser.next with
    | (.ok request, parser) => { s with parser, given := s.given ++ request.toList }
    | (.error _, parser) => { parser }
  | .takeAll => { parser := s.parser.takeAll.2 }
  | .reset => {}

/-- The bytes pushed are those of the requests given, of a head that is opened, and those held. -/
structure Stretch.Accounts (s : Stretch) (slices : List Slice) (opened : Bytes) : Prop where
  pushed : s.pushed = slices.flatMap Slice.bytes ++ opened ++ s.parser.takeAll.1
  given : s.given = slices.map Slice.request
  opens : Opens s.parser opened

theorem Stretch.Accounts.call {s : Stretch} {slices : List Slice} {opened : Bytes}
    (h : s.Accounts slices opened) (hs : Sound s.parser) (c : Call) :
    Sound (s.call c).parser ∧ ∃ slices opened, (s.call c).Accounts slices opened := by
  have hnew : Sound {} ∧ ∃ slices opened, Stretch.Accounts {} slices opened :=
    ⟨sound_front [], [], [], rfl, rfl, rfl⟩
  cases c with
  | push data =>
    refine ⟨hs.push data, slices, opened, ?_, h.given, h.opens⟩
    show s.pushed ++ data = _ ++ (s.parser.inbox.push data).bytes
    rw [h.pushed, Inbox.bytes_push, List.append_assoc _ _ data]
    rfl
  | next =>
    have hg := hs.gives h.opens
    have hp : s.pushed = slices.flatMap Slice.bytes ++ (opened ++ s.parser.inbox.bytes) := by
      rw [← List.append_assoc]
      exact h.pushed
    rw [Stretch.call]
    generalize s.parser.next = r at hg
    cases hg with
    | @nothing later p hb hopens hsound =>
      refine ⟨hsound, slices, later, ?_, ?_, hopens⟩
      · show s.pushed = _ ++ later ++ p.inbox.bytes
        rw [hp, hb, List.append_assoc]
      · show s.given ++ [] = _
        rw [List.append_nil, h.given]
    | @request slice p hb hopens hsound =>
      refine ⟨hsound, slices ++ [slice], [], ?_, ?_, hopens⟩
      · show s.pushed = _ ++ [] ++ p.inbox.bytes
        rw [hp, hb, List.flatMap_append, List.flatMap_singleton, List.append_nil, List.append_assoc]
      · show s.given ++ [slice.request] = _
        rw [h.given, List.map_append, List.map_singleton]
    | error e => exact hnew
  | takeAll => exact hnew
  | reset => exact hnew

theorem Stretch.Accounts.calls {s : Stretch} {slices : List Slice} {opened : Bytes}
    (h : s.Accounts slices opened) (hs : Sound s.parser) (calls : List Call) :
    Sound (calls.foldl Stretch.call s).parser ∧
      ∃ slices opened, (calls.foldl Stretch.call s).Accounts slices opened := by
  induction calls generalizing s slices opened with
  | nil => exact ⟨hs, slices, opened, h⟩
  | cons c calls ih =>
    obtain ⟨hsound, _, _, hnext⟩ := h.call hs c
    exact ih hnext hsound

/-- Whatever calls were made, each byte pushed since a parser was last empty belongs to a request
that it gave, in order, to the head whose body it awaits, or is held. If it gives no request, it
has no complete one. -/
theorem accounts_for_all (calls : List Call) :
    let s := calls.foldl Stretch.call {}
    (∃ slices opened, s.Accounts slices opened) ∧ s.parser.buffered = s.parser.takeAll.1.length ∧
      (s.parser.next.1 = .ok none → Starves s.parser.next.2) := by
  have hnew : Stretch.Accounts {} [] [] := ⟨rfl, rfl, rfl⟩
  obtain ⟨hs, slices, opened, ha⟩ := hnew.calls (sound_front []) calls
  refine ⟨⟨slices, opened, ha⟩, (Inbox.length_bytes _).symm, fun hn ↦ ?_⟩
  have hg := hs.gives ha.opens
  generalize (calls.foldl Stretch.call {}).parser.next = r at hg hn
  cases hg with
  | nothing hb hopens hsound hstarves => exact hstarves
  | request slice => cases hn
  | error e => cases hn

end Parser

end Prefork.Http
