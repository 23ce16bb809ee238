import Prefork.Http.Session
import Prefork.Proofs.Callbacks
import Prefork.Proofs.Http.Parser

namespace Prefork.Http.Session

open Http.Parser (Holds Rests)
open Request (Regular Consistent readAll)
open Callback (inputs)

def answer (responder : Responder) (request : Request) : Bytes :=
  ((responder request).announce request.keepAlive).render

def refusal (e : RequestError) : Bytes :=
  ((Response.text .http11 e.status (Utf8.encode (e.message ++ "\n"))).announce false).render

def served : List Request → List Request
  | [] => []
  | request :: requests => request :: if request.keepAlive then served requests else []

def responses (responder : Responder) : List Request × Option RequestError → Bytes
  | ([], none) => []
  | ([], some e) => refusal e
  | (request :: requests, error) => answer responder request ++
    if request.keepAlive then responses responder (requests, error) else []

/-- All that is sent in answer to a stream. -/
def transcript (responder : Responder) (s : Bytes) : Bytes := responses responder (readAll s)

def asked (s : Session) : Option Request :=
  match s.next.1 with
  | .ok request => request
  | .error _ => none

def handed (s : Session) : Callback → Option Request
  | .read data => asked (s.feed data)
  | .write => match s.complete with
    | (some true, s) => asked s
    | (some false, _) | (none, _) => none

def dispatched (responder : Responder) (s : Session) : List Callback → List Request
  | [] => []
  | c :: cs =>
    let r := (protocol responder).callback s c
    (handed s c).toList ++ if r.stays then dispatched responder r.state cs else []

theorem transcript_incomplete (responder : Responder) {b : Bytes}
    (h : (Request.read b).isIncomplete) : transcript responder b = [] := by
  rw [transcript, Request.readAll_incomplete h, responses]

theorem transcript_invalid (responder : Responder) {b : Bytes} {e : RequestError}
    (h : Request.read b = .invalid e) : transcript responder b = refusal e := by
  rw [transcript, Request.readAll_invalid h, responses]

theorem transcript_complete (responder : Responder) {b rest : Bytes} {request : Request}
    (h : Request.read b = .complete request rest) :
    transcript responder b =
      answer responder request ++ if request.keepAlive then transcript responder rest else [] := by
  rw [transcript, Request.readAll_complete h, responses]
  rfl

theorem render_ne_nil (r : Response) : r.render ≠ [] := by simp [Response.render]

/-- What a session is still to output, and the requests it is still to hand over, if the bytes
`unread` are yet to come. -/
inductive Owes (responder : Responder) (unread : Bytes) : Session → Bytes → List Request → Prop
  | reading {b : Bytes} {parser : Parser} :
      Rests b parser → Regular (b ++ unread) →
      Owes responder unread { parser } (transcript responder (b ++ unread))
        (served (readAll (b ++ unread)).1)
  | kept {b : Bytes} {parser : Parser} :
      Holds b parser → Regular (b ++ unread) →
      Owes responder unread { parser, turn := .responding true }
        (transcript responder (b ++ unread)) (served (readAll (b ++ unread)).1)
  | last (parser : Parser) : Owes responder unread { parser, turn := .responding false } [] []

/-- Of what was owed, a reply has output the first part and the first requests were handed over.
The rest is still owed, or nothing if the connection ends. -/
def Pays (responder : Responder) (unread owed : Bytes) (requests : List Request)
    (r : Reply Session) (done : List Request) : Prop :=
  ∃ later more, owed = r.output ++ later ∧ requests = done ++ more ∧
    if r.stays then Owes responder unread r.state later more else later = [] ∧ more = []

theorem pump_incomplete (responder : Responder) {b : Bytes} {parser : Parser}
    (h : Holds b parser) (hr : (Request.read b).isIncomplete) :
    asked { parser } = none ∧
      ∃ q, Rests b q ∧ pump responder { parser } = { state := { parser := q } } := by
  obtain ⟨q, hn, hq⟩ := h.next_rests hr
  exact ⟨by simp only [asked, next, hn], q, hq, by simp only [pump, next, hn]⟩

theorem pump_invalid (responder : Responder) {b : Bytes} {parser : Parser} {e : RequestError}
    (h : Holds b parser) (hr : Request.read b = .invalid e) :
    asked { parser } = none ∧ pump responder { parser } =
      { state := { turn := .responding false }, output := refusal e } := by
  have hn := h.next_error hr
  exact ⟨by simp only [asked, next, hn], by simp only [pump, next, hn]; rfl⟩

theorem pump_complete (responder : Responder) {b rest : Bytes} {parser : Parser}
    {request : Request} (h : Holds b parser) (hr : Request.read b = .complete request rest) :
    asked { parser } = some request ∧ pump responder { parser } =
      { state := { parser := { inbox := { front := rest } }, turn := .responding request.keepAlive }
        output := answer responder request } := by
  have hn := h.next_request hr
  exact ⟨by simp only [asked, next, hn], by simp only [pump, next, hn]; rfl⟩

theorem pump_pays (responder : Responder) {b unread : Bytes} {parser : Parser}
    (h : Holds b parser) (hs : Regular (b ++ unread)) :
    Pays responder unread (transcript responder (b ++ unread)) (served (readAll (b ++ unread)).1)
      (pump responder { parser }) (asked { parser }).toList := by
  cases hr : Request.read b with
  | incomplete n =>
    obtain ⟨ha, q, hq, hp⟩ := pump_incomplete responder h (by rw [hr]; rfl)
    rw [hp, ha]
    exact ⟨_, _, rfl, rfl, .reading hq hs⟩
  | invalid e =>
    obtain ⟨ha, hp⟩ := pump_invalid responder h hr
    have hi := hs.steady.invalid hr
    rw [hp, ha, transcript_invalid responder hi, Request.readAll_invalid hi]
    exact ⟨[], [], (List.append_nil _).symm, rfl, .last _⟩
  | complete request rest =>
    obtain ⟨ha, hp⟩ := pump_complete responder h hr
    have hc := hs.steady.complete hr
    rw [hp, ha, transcript_complete responder hc, Request.readAll_complete hc, served]
    refine ⟨_, _, rfl, rfl, ?_⟩
    dsimp only
    cases request.keepAlive with
    | true => exact .kept (Parser.holds_front rest) (hs.behind (.cons hc (.nil _)))
    | false => exact .last _

theorem callback_pays {responder : Responder} {c : Callback} {unread owed : Bytes}
    {requests : List Request} {s : Session}
    (h : Owes responder (c.input ++ unread) s owed requests) :
    Pays responder unread owed requests ((protocol responder).callback s c)
      (handed s c).toList := by
  cases c with
  | read data =>
    have hread {b : Bytes} (hs : Regular (b ++ (data ++ unread))) :
        Regular (b ++ data ++ unread) := by rwa [List.append_assoc]
    have hfront {b : Bytes} (hs : Regular (b ++ (data ++ unread))) :
        Reading.Steady Head.read (b ++ data) :=
      ((hread hs) [] _ (.nil _)).front (List.prefix_append ..)
    cases h with
    | @reading b parser hp hs =>
      have hh := hp.holds.push (hfront hs)
      have := pump_pays responder hh (hread hs)
      rwa [List.append_assoc] at this
    | @kept b parser hp hs =>
      have hh := hp.push (hfront hs)
      refine ⟨_, _, rfl, rfl, ?_⟩
      have hk : Owes responder unread _ _ _ := .kept hh (hread hs)
      rwa [List.append_assoc] at hk
    | last parser => exact ⟨_, _, rfl, rfl, .last _⟩
  | write =>
    cases h with
    | reading hp hs => exact ⟨_, _, rfl, rfl, .reading hp hs⟩
    | kept hp hs => exact pump_pays responder hp hs
    | last parser => exact ⟨[], [], rfl, rfl, rfl, rfl⟩

theorem run_pays {responder : Responder} (cs : List Callback) {unread owed : Bytes}
    {requests : List Request} {s : Session}
    (h : Owes responder (inputs cs ++ unread) s owed requests) :
    Pays responder unread owed requests ((protocol responder).run s cs)
      (dispatched responder s cs) := by
  induction cs generalizing s owed requests with
  | nil => exact ⟨_, _, rfl, rfl, h⟩
  | cons c cs ih =>
    rw [Callback.inputs_cons, List.append_assoc] at h
    obtain ⟨later, more, rfl, rfl, hl⟩ := callback_pays h
    rw [dispatched]
    cases hc : ((protocol responder).callback s c).stays with
    | true =>
      rw [hc, if_pos rfl] at hl
      obtain ⟨last, others, rfl, rfl, hk⟩ := ih hl
      rw [Protocol.run_cons_of_stays _ hc]
      exact ⟨last, others, (List.append_assoc ..).symm, (List.append_assoc ..).symm, hk⟩
    | false =>
      rw [hc] at hl
      obtain ⟨rfl, rfl⟩ := hl
      rw [Protocol.run_cons_of_ends _ hc]
      exact ⟨[], [], rfl, by simp, by rw [hc]; exact ⟨rfl, rfl⟩⟩

theorem owes_new (responder : Responder) {s : Bytes} (h : Regular s) :
    Owes responder s {} (transcript responder s) (served (readAll s).1) :=
  .reading Parser.rests_new h

theorem Owes.of_idle {responder : Responder} {owed : Bytes} {requests : List Request} {s : Session}
    (h : Owes responder [] s owed requests)
    (hw : ((protocol responder).callback s .write).output = []) : owed = [] ∧ requests = [] := by
  have hnone {b : Bytes} (hr : (Request.read b).isIncomplete) :
      transcript responder (b ++ []) = [] ∧ served (readAll (b ++ [])).1 = [] := by
    rw [List.append_nil, transcript_incomplete responder hr, Request.readAll_incomplete hr]
    exact ⟨rfl, rfl⟩
  cases h with
  | reading hp hs => exact hnone hp.waits
  | @kept b parser hp hs =>
    change (pump responder { parser }).output = [] at hw
    cases hr : Request.read b with
    | incomplete n => exact hnone (by rw [hr]; rfl)
    | invalid e =>
      rw [(pump_invalid responder hp hr).2] at hw
      exact absurd hw (render_ne_nil _)
    | complete request rest =>
      rw [(pump_complete responder hp hr).2] at hw
      exact absurd hw (render_ne_nil _)
  | last parser => exact ⟨rfl, rfl⟩

theorem inputs_append_writes (cs : List Callback) (n : Nat) :
    inputs (cs ++ List.replicate n .write) = inputs cs := by
  simp [inputs, Callback.input]

/-- What a run of callbacks makes of a stream that begins with what it reads. -/
structure Answers (responder : Responder) (s : Bytes) (cs : List Callback) : Prop where
  output : ((protocol responder).run {} cs).output <+: transcript responder s
  dispatched : dispatched responder {} cs <+: served (readAll s).1
  ended : ((protocol responder).run {} cs).stays = false →
    ((protocol responder).run {} cs).output = transcript responder s
  /-- Behind the whole stream, writes come to one that outputs nothing. -/
  settles : inputs cs = s →
    ∃ n, (protocol responder).written {} cs (n + 1) = (protocol responder).written {} cs n
  settled : inputs cs = s →
    ∀ n, (protocol responder).written {} cs (n + 1) = (protocol responder).written {} cs n →
      (protocol responder).written {} cs n = transcript responder s ∧
      Session.dispatched responder {} (cs ++ List.replicate n .write) = served (readAll s).1

/-- A stream with line endings of one kind is answered in the same way however it is cut into
reads, and wherever writes stand between them. -/
theorem run_answers (responder : Responder) {s : Bytes} (h : Consistent s) {cs : List Callback}
    (hc : inputs cs <+: s) : Answers responder s cs := by
  obtain ⟨unread, rfl⟩ := hc
  have hpays := run_pays cs (owes_new responder h.regular)
  have hnew (hs : inputs cs = inputs cs ++ unread) (n : Nat) :
      Owes responder (inputs (cs ++ List.replicate n .write) ++ []) {}
        (transcript responder (inputs cs ++ unread)) (served (readAll (inputs cs ++ unread)).1) := by
    rw [List.append_nil, inputs_append_writes, ← hs]
    exact owes_new responder (hs ▸ h.regular)
  obtain ⟨later, more, ho, hm, hl⟩ := hpays
  refine ⟨⟨later, ho.symm⟩, ⟨more, hm.symm⟩, fun he ↦ ?_, fun hs ↦ ?_, fun hs n hn ↦ ?_⟩
  · rw [he] at hl
    rw [ho, hl.1, List.append_nil]
  · refine Protocol.exists_idle_write _
      (transcript responder (inputs cs ++ unread)).length fun n ↦ ?_
    obtain ⟨later, more, ho, -, -⟩ := run_pays _ (hnew hs n)
    rw [ho, List.length_append]
    exact Nat.le_add_right ..
  · obtain ⟨later, more, ho, hm, hl⟩ := run_pays _ (hnew hs n)
    have hz : later = [] ∧ more = [] := by
      cases hr : ((protocol responder).run {} (cs ++ List.replicate n .write)).stays with
      | false => simpa [hr] using hl
      | true =>
        rw [hr, if_pos rfl] at hl
        rw [Protocol.written_succ _ hr] at hn
        exact hl.of_idle (List.append_right_eq_self.1 hn)
    rw [ho, hm, hz.1, hz.2, List.append_nil, List.append_nil]
    exact ⟨rfl, rfl⟩

def cutRun : List Callback :=
  [.read (Utf8.encode "POST /a HTTP/1.1\r\nContent-Length: 2\r\n\r"), .write,
    .read (Utf8.encode "\n\n"), .write, .read (Utf8.encode "\nGET /b HT"),
    .read (Utf8.encode "TP/2\r\n\r\nGET /c"), .write, .write]

theorem run_cutRun :
    Consistent (inputs cutRun ++ Utf8.encode " HTTP/1.1\r\n\r\n") ∧
      inputs cutRun <+: inputs cutRun ++ Utf8.encode " HTTP/1.1\r\n\r\n" ∧
      Answers .greeting (inputs cutRun ++ Utf8.encode " HTTP/1.1\r\n\r\n") cutRun := by
  have h : Consistent (inputs cutRun ++ Utf8.encode " HTTP/1.1\r\n\r\n") := by
    have hr : Request.read (inputs cutRun ++ Utf8.encode " HTTP/1.1\r\n\r\n") =
        .complete _ (Utf8.encode "GET /b HTTP/2\r\n\r\nGET /c HTTP/1.1\r\n\r\n") := rfl
    refine .inr (.inr (.cons ?_ hr (.last ?_ rfl)))
    all_goals decide +kernel
  exact ⟨h, List.prefix_append .., run_answers .greeting h (List.prefix_append ..)⟩

end Prefork.Http.Session
