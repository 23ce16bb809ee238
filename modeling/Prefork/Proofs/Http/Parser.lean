import Prefork.Http.Parser
import Prefork.Proofs.Http.Requests

namespace Prefork.Http.Parser

open Reading (Steady)
open Request (Reads Regular Consistent readAll)

/-- A parser that was given the bytes `b` behind the last request that it gave. -/
inductive Holds (b : Bytes) : Parser → Prop
  | text {inbox : Inbox} {tail : Option Bytes} :
      inbox.bytes = b → (∀ t, tail = some t → Head.tail? (Head.text b) = some t) →
      Holds b { inbox, head := none, tail }
  | body {inbox : Inbox} {head : Head} {tail : Option Bytes} :
      Head.read b = .complete head inbox.bytes →
      inbox.missing = head.contentLength - inbox.bytes.length →
      Holds b { inbox, head := some head, tail }

def kept (b : Bytes) : Option Head × Bytes :=
  match Head.read b with
  | .complete head rest => (some head, rest)
  | .incomplete _ | .invalid _ => (none, b)

structure Rests (b : Bytes) (p : Parser) : Prop where
  holds : Holds b p
  waits : (Request.read b).isIncomplete
  kept : (p.head, p.inbox.bytes) = kept b

theorem holds_front (b : Bytes) : Holds b { inbox := { front := b } } :=
  .text (by simp [Inbox.bytes_eq]) nofun

theorem rests_new : Rests [] {} := ⟨holds_front [], rfl, rfl⟩

theorem Holds.push_text {b : Bytes} {inbox : Inbox} {tail : Option Bytes}
    (h : Holds b { inbox, head := none, tail }) (data : Bytes) :
    Holds (b ++ data) (push { inbox, head := none, tail } data) := by
  cases h with
  | text hb ht =>
    refine .text (by rw [Inbox.bytes_push, hb]) fun t h ↦ ?_
    obtain ⟨u, hu, hf⟩ := Option.bind_eq_some_iff.1 h
    rw [← hf, Head.follow_eq (ht u hu)]

theorem Holds.push {b data : Bytes} {p : Parser} (h : Holds b p)
    (hs : Steady Head.read (b ++ data)) : Holds (b ++ data) (p.push data) := by
  cases h with
  | text hb ht => exact (Holds.text hb ht).push_text data
  | @body inbox head tail hr hm =>
    refine .body (by rw [Inbox.bytes_push]; exact hs.complete hr) ?_
    show inbox.missing - data.length = head.contentLength - (inbox.push data).bytes.length
    rw [Inbox.bytes_push, List.length_append, hm]
    omega

theorem finish_of_lt {head : Head} {b : Bytes} (h : b.length < head.contentLength) :
    finish head b = (none,
      { inbox := { front := b, missing := head.contentLength - b.length }, head := some head }) := by
  simp only [finish, List.take_of_length_le (Nat.le_of_lt h), if_pos h]

theorem finish_of_le {head : Head} {b : Bytes} (h : head.contentLength ≤ b.length) :
    finish head b = (some (head.withBody (b.take head.contentLength)),
      { inbox := { front := b.drop head.contentLength } }) := by
  simp only [finish, List.length_take_of_le h, Nat.lt_irrefl, if_false]

theorem next_text (inbox : Inbox) :
    next { inbox } = match Head.read inbox.bytes with
      | .incomplete _ => (.ok none,
        { inbox := { front := inbox.bytes }, tail := Head.tail? (Head.text inbox.bytes) })
      | .invalid e => (.error e, {})
      | .complete head rest => (.ok (finish head rest).1, (finish head rest).2) := rfl

theorem next_body {inbox : Inbox} {head : Head} {tail : Option Bytes} (h : inbox.waits = false) :
    next { inbox, head := some head, tail } =
      (.ok (finish head inbox.bytes).1, (finish head inbox.bytes).2) := by
  rw [next, if_neg (by simpa [waits] using h)]

theorem next_of_waits {p : Parser} (h : p.waits) : p.next = (.ok none, p) := by rw [next, if_pos h]

theorem next_next {p q : Parser} (h : p.next = (.ok none, q)) : q.next.1 = .ok none := by
  have hfinish {head : Head} {b : Bytes}
      (hf : (Except.ok (finish head b).1, (finish head b).2) = p.next) : q.next.1 = .ok none := by
    rw [h] at hf
    rcases Nat.lt_or_ge b.length head.contentLength with hl | hl
    · rw [finish_of_lt hl] at hf
      cases hf
      have hm : 0 < head.contentLength - b.length := by omega
      rw [next_of_waits (by simpa [waits, Inbox.waits] using hm)]
    · rw [finish_of_le hl] at hf
      cases hf
  cases hw : p.waits with
  | true =>
    rw [next_of_waits hw] at h
    cases h
    rw [next_of_waits hw]
  | false =>
    obtain ⟨inbox, head, tail⟩ := p
    cases head with
    | some head => exact hfinish (next_body hw).symm
    | none =>
      cases tail with
      | some t => cases hw
      | none =>
        have hn := next_text inbox
        cases hr : Head.read inbox.bytes with
        | incomplete n =>
          rw [hr] at hn
          cases h.symm.trans hn
          cases ht : Head.tail? (Head.text inbox.bytes) with
          | some t => rw [next_of_waits rfl]
          | none =>
            have hb : ({ front := inbox.bytes } : Inbox).bytes = inbox.bytes := by
              rw [Inbox.bytes_eq]
              exact List.append_nil _
            rw [next_text, hb, hr]
        | invalid e =>
          rw [hr] at hn
          cases h.symm.trans hn
        | complete head rest =>
          rw [hr] at hn
          exact hfinish hn.symm

theorem finish_eq {b rest : Bytes} {head : Head} (hr : Head.read b = .complete head rest) :
    match Request.read b with
    | .incomplete _ => ∃ q, finish head rest = (none, q) ∧ Rests b q
    | .invalid _ => False
    | .complete request last => finish head rest = (some request, { inbox := { front := last } }) := by
  rcases Nat.lt_or_ge rest.length head.contentLength with hl | hl
  · have hq := Request.read_of_lt hr hl
    rw [hq]
    exact ⟨_, finish_of_lt hl, .body (by simpa [Inbox.bytes_eq] using hr)
      (by simp [Inbox.bytes_eq]), by rw [hq]; rfl, by simp [kept, hr, Inbox.bytes_eq]⟩
  · rw [Request.read_of_le hr hl]
    exact finish_of_le hl

theorem next_of_finish {b rest : Bytes} {head : Head} {p : Parser}
    (hr : Head.read b = .complete head rest)
    (hp : p.next = (.ok (finish head rest).1, (finish head rest).2)) :
    match Request.read b with
    | .incomplete _ => ∃ q, p.next = (.ok none, q) ∧ Rests b q
    | .invalid e => p.next = (.error e, {})
    | .complete request last => p.next = (.ok (some request), { inbox := { front := last } }) := by
  have h := finish_eq hr
  rw [hp]
  cases hq : Request.read b with
  | incomplete n =>
    rw [hq] at h
    obtain ⟨q, hf, hw⟩ := h
    exact ⟨q, by rw [hf], hw⟩
  | invalid e => simp [hq] at h
  | complete request last =>
    rw [hq] at h
    dsimp only at h ⊢
    rw [h]

/-- The bytes since the last request decide what is given next. -/
theorem Holds.next_eq {b : Bytes} {p : Parser} (h : Holds b p) :
    match Request.read b with
    | .incomplete _ => ∃ q, p.next = (.ok none, q) ∧ Rests b q
    | .invalid e => p.next = (.error e, {})
    | .complete request rest => p.next = (.ok (some request), { inbox := { front := rest } }) := by
  have hh := h
  cases h with
  | @text inbox tail hb ht =>
    cases tail with
    | some t =>
      have hn := ht t rfl
      have hr := Head.read_of_tail? hn
      have hq := Request.read_of_incomplete hr
      rw [hq]
      exact ⟨_, rfl, hh, by rw [hq]; rfl, by simp only [kept, hr, hb]⟩
    | none =>
      have hn := next_text inbox
      rw [hb] at hn
      cases hr : Head.read b with
      | incomplete n =>
        have hq := Request.read_of_incomplete hr
        rw [hq, hn, hr]
        exact ⟨_, rfl, .text (by simp [Inbox.bytes_eq]) fun t h ↦ h, by rw [hq]; rfl,
          by simp [kept, hr, Inbox.bytes_eq]⟩
      | invalid e => rw [Request.read_of_invalid hr, hn, hr]
      | complete head rest => exact next_of_finish hr (by rw [hn, hr])
  | @body inbox head tail hr hm =>
    cases hw : inbox.waits with
    | true =>
      have hq := Request.read_of_lt hr (by simp only [Inbox.waits, decide_eq_true_eq] at hw; omega)
      rw [hq]
      exact ⟨_, next_of_waits hw, hh, by rw [hq]; rfl, by simp only [kept, hr]⟩
    | false => exact next_of_finish hr (next_body hw)

theorem Holds.next_rests {b : Bytes} {p : Parser} (h : Holds b p)
    (hr : (Request.read b).isIncomplete) : ∃ q, p.next = (.ok none, q) ∧ Rests b q := by
  obtain ⟨n, hn⟩ := Reading.eq_incomplete hr
  simpa only [hn] using h.next_eq

theorem Holds.next_error {b : Bytes} {p : Parser} {e : RequestError} (h : Holds b p)
    (hr : Request.read b = .invalid e) : p.next = (.error e, {}) := by
  simpa only [hr] using h.next_eq

theorem Holds.next_request {b rest : Bytes} {p : Parser} {request : Request} (h : Holds b p)
    (hr : Request.read b = .complete request rest) :
    p.next = (.ok (some request), { inbox := { front := rest } }) := by
  simpa only [hr] using h.next_eq

def chances (p : Parser) : Nat := p.buffered + p.head.isSome.toNat + 1

theorem chances_front (b : Bytes) : chances { inbox := { front := b } } = b.length + 1 := rfl

theorem Holds.chances_lt {b rest : Bytes} {p : Parser} {request : Request} (h : Holds b p)
    (hr : Request.read b = .complete request rest) : rest.length + 1 < p.chances := by
  cases h with
  | @text inbox tail hb ht =>
    have hl := (Request.suffix_of_read hr).2
    rw [← hb, Inbox.length_bytes] at hl
    simp only [chances, buffered, Option.isSome_none, Bool.toNat_false]
    omega
  | @body inbox head tail hh hm =>
    have hl : rest.length ≤ inbox.bytes.length := by
      rcases Nat.lt_or_ge inbox.bytes.length head.contentLength with hlt | hle
      · rw [Request.read_of_lt hh hlt] at hr
        cases hr
      · rw [Request.read_of_le hh hle] at hr
        cases hr
        exact (List.drop_suffix ..).length_le
    rw [Inbox.length_bytes] at hl
    simp only [chances, buffered, Option.isSome_some, Bool.toNat_true]
    omega

/-- What is drained from bytes: requests up to a place where none is complete, or to the first
faulty one. -/
inductive Drained (b : Bytes) : List Request × Option RequestError × Parser → Prop
  | waits {requests : List Request} {rest : Bytes} {p : Parser} :
      Reads b requests rest → Rests rest p → Drained b (requests, none, p)
  | error {requests : List Request} {rest : Bytes} {e : RequestError} :
      Reads b requests rest → Request.read rest = .invalid e → Drained b (requests, some e, {})

theorem Drained.append {b rest : Bytes} {requests : List Request}
    {r : List Request × Option RequestError × Parser} (hs : Reads b requests rest)
    (h : Drained rest r) : Drained b (requests ++ r.1, r.2) := by
  cases h with
  | waits hr hq => exact .waits (hs.trans hr) hq
  | error hr he => exact .error (hs.trans hr) he

theorem Holds.drainUpTo {b : Bytes} {p : Parser} (h : Holds b p) {fuel : Nat}
    (hf : p.chances ≤ fuel) : Drained b (p.drainUpTo fuel) := by
  induction fuel generalizing b p with
  | zero => simp [chances] at hf
  | succ fuel ih =>
    rw [Parser.drainUpTo]
    cases hr : Request.read b with
    | incomplete n =>
      obtain ⟨q, hn, hq⟩ := h.next_rests (by rw [hr]; rfl)
      rw [hn]
      exact .waits (.nil b) hq
    | invalid e =>
      rw [h.next_error hr]
      exact .error (.nil b) hr
    | complete request rest =>
      have hl := h.chances_lt hr
      rw [h.next_request hr]
      exact .append (.cons hr (.nil rest)) (ih (holds_front rest) (by rw [chances_front]; omega))

theorem Holds.drain {b : Bytes} {p : Parser} (h : Holds b p) : Drained b p.drain := by
  rw [Parser.drain]
  split
  · next hw =>
    have hn := h.next_eq
    rw [next_of_waits hw] at hn
    cases hr : Request.read b with
    | incomplete n =>
      rw [hr] at hn
      obtain ⟨q, hq, hw⟩ := hn
      cases hq
      exact .waits (.nil b) hw
    | invalid e => simp [hr] at hn
    | complete request rest => simp [hr] at hn
  · refine h.drainUpTo ?_
    have hb := Bool.toNat_le p.head.isSome
    rw [chances]
    omega

/-- Pushes chunks one after another and drains behind each, up to the first error. -/
def feed (p : Parser) : List Bytes → List Request × Option RequestError × Parser
  | [] => ([], none, p)
  | chunk :: chunks =>
    match (p.push chunk).drain with
    | (requests, some e, p) => (requests, some e, p)
    | (requests, none, p) => (requests ++ (p.feed chunks).1, (p.feed chunks).2)

/-- Where the stream is cut does not change what is drained from it. -/
theorem Rests.feed {b : Bytes} {p : Parser} (h : Rests b p) {chunks : List Bytes}
    (hs : Regular (b ++ chunks.flatten)) : Drained (b ++ chunks.flatten) (p.feed chunks) := by
  induction chunks generalizing b p with
  | nil =>
    rw [List.flatten_nil, List.append_nil]
    exact .waits (.nil b) h
  | cons chunk chunks ih =>
    rw [List.flatten_cons, ← List.append_assoc] at hs ⊢
    have hp : Holds (b ++ chunk) (p.push chunk) :=
      h.holds.push ((hs [] _ (.nil _)).front (List.prefix_append ..))
    have hd := hp.drain
    rw [Parser.feed]
    generalize (p.push chunk).drain = r at hd
    cases hd with
    | waits hr hq =>
      have ha := hr.append hs
      exact .append ha (ih hq (hs.behind ha))
    | error hr he =>
      have ha := hr.append hs
      exact .error ha ((hs.behind ha).steady.invalid he)

theorem Drained.readAll_eq {b : Bytes} {r : List Request × Option RequestError × Parser}
    (h : Drained b r) : (r.1, r.2.1) = readAll b := by
  cases h with
  | waits hr hq => rw [hr.readAll_eq, Request.readAll_incomplete hq.waits, List.append_nil]
  | error hr he => rw [hr.readAll_eq, Request.readAll_invalid he, List.append_nil]

theorem Drained.unique {b : Bytes} {r r' : List Request × Option RequestError × Parser}
    (h : Drained b r) (h' : Drained b r') (he : r.2.1 = none) :
    (r.2.2.head, r.2.2.inbox.bytes) = (r'.2.2.head, r'.2.2.inbox.bytes) := by
  have ha := h.readAll_eq.trans h'.readAll_eq.symm
  cases h with
  | error hr hi => cases he
  | waits hr hq =>
    cases h' with
    | error hr' hi' => cases ha
    | waits hr' hq' =>
      cases ha
      rw [hq.kept, hq'.kept, hr.unique hr']

/-- However a stream with line endings of one kind is cut, the parser gives the requests of the
stream and its first error. Without an error it is left as if the stream came in one piece. -/
theorem feed_eq_readAll {chunks : List Bytes} (h : Consistent chunks.flatten) :
    ((feed {} chunks).1, (feed {} chunks).2.1) = readAll chunks.flatten ∧
      ((feed {} chunks).2.1 = none →
        (feed {} chunks).2.2.takeAll.1 = (push {} chunks.flatten).drain.2.2.takeAll.1 ∧
        (feed {} chunks).2.2.awaitingBody = (push {} chunks.flatten).drain.2.2.awaitingBody) := by
  have hs : Regular chunks.flatten := h.regular
  have hf : Drained chunks.flatten (feed {} chunks) := rests_new.feed hs
  have hp : Holds chunks.flatten (push {} chunks.flatten) := (holds_front []).push (hs [] _ (.nil _))
  refine ⟨hf.readAll_eq, fun he ↦ ?_⟩
  have hu := hf.unique hp.drain he
  rw [Prod.mk.injEq] at hu
  simp only [takeAll, awaitingBody, hu.1, hu.2, and_self]

def cutStream : List Bytes :=
  ["\r\nPOST /a HTTP/1.1\r\nContent-Le", "ngth: 4\r\n\r", "", "\n", "a\n\nbGET /b HT",
    "TP/1.1\r\n\r\nGET /c"].map Utf8.encode

theorem feed_cutStream :
    Consistent cutStream.flatten ∧
      ((feed {} cutStream).1, (feed {} cutStream).2.1) = readAll cutStream.flatten ∧
      ((feed {} cutStream).2.1 = none →
        (feed {} cutStream).2.2.takeAll.1 = (push {} cutStream.flatten).drain.2.2.takeAll.1 ∧
        (feed {} cutStream).2.2.awaitingBody =
          (push {} cutStream.flatten).drain.2.2.awaitingBody) := by
  have h : Consistent cutStream.flatten := by
    have hp : Request.read cutStream.flatten =
        .complete _ (Utf8.encode "GET /b HTTP/1.1\r\n\r\nGET /c") := rfl
    have hg : Request.read (Utf8.encode "GET /b HTTP/1.1\r\n\r\nGET /c") =
        .complete _ (Utf8.encode "GET /c") := rfl
    refine .inr (.inr (.cons ?_ hp (.cons ?_ hg (.last ?_ rfl))))
    all_goals decide +kernel
  exact ⟨h, feed_eq_readAll h⟩

example : (feed {} cutStream).1.map (·.body) = [Utf8.encode "a\n\nb", []] := by decide +kernel

end Prefork.Http.Parser
