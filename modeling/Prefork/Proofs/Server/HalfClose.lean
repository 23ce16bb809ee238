import Prefork.Proofs.Http.Transcript
import Prefork.Proofs.Server.Transfer
import Prefork.Proofs.Server.View

namespace Prefork.Server

open Http (Head Request Responder)
open Http.Parser (Holds Rests)
open Http.Request (Reads Regular Consistent readAll)
open Http.Session (answer)
open Connection (Received delivered)

variable {η : Type} {t : Token}

/-- Requests that all keep their connection alive, the stream they make up, and a loop that
answers them and can hold the stream. -/
structure Workload (config : Config Http.Session) (responder : Responder) (stream : Bytes)
    (requests : List Request) : Prop where
  protocol : config.protocol = Http.Session.protocol responder
  consistent : Consistent stream
  complete : Reads stream requests []
  keepAlive : ∀ request ∈ requests, request.keepAlive = true
  size : stream.length ≤ config.maxBuffer

namespace Workload

variable {config : Config Http.Session} {responder : Responder} {stream arrived b : Bytes}
  {requests served : List Request}

theorem split (w : Workload config responder stream requests) {more : Bytes}
    (ha : arrived ++ more = stream) (hr : Reads arrived served b) :
    ∃ others, requests = served ++ others ∧ Reads (b ++ more) others [] := by
  subst ha
  exact (hr.append w.consistent.regular).split w.complete rfl

theorem next (w : Workload config responder stream requests) (ha : arrived <+: stream)
    (hr : Reads arrived served b) :
    (Request.read b).isIncomplete ∨
      ∃ request rest, Request.read b = .complete request rest ∧ request.keepAlive = true := by
  obtain ⟨more, ha⟩ := ha
  obtain ⟨others, ho, hb⟩ := w.split ha hr
  have hs : Regular (b ++ more) := by
    subst ha
    exact w.consistent.regular.behind (hr.append w.consistent.regular)
  cases hd : Request.read b with
  | incomplete n => exact .inl rfl
  | invalid e =>
    have hi := hs.steady.invalid hd
    generalize b ++ more = x at hb hi
    cases hb with
    | nil => cases hi
    | cons hr' _ =>
      rw [hi] at hr'
      cases hr'
  | complete request rest =>
    have hc := hs.steady.complete hd
    refine .inr ⟨request, rest, rfl, w.keepAlive request ?_⟩
    generalize b ++ more = x at hb hc
    cases hb with
    | nil => cases hc
    | cons hr' _ =>
      rw [hc] at hr'
      cases hr'
      rw [ho]
      exact List.mem_append_right served List.mem_cons_self

theorem served_eq (w : Workload config responder stream requests) (hr : Reads stream served b)
    (hb : (Request.read b).isIncomplete) : served = requests := by
  obtain ⟨others, ho, hn⟩ := w.split (List.append_nil stream) hr
  rw [List.append_nil] at hn
  cases hn with
  | nil => rw [ho, List.append_nil]
  | cons hr' _ =>
    rw [hr'] at hb
    cases hb

end Workload

inductive Stage (responder : Responder) (arrived sent : Bytes) (served : List Request) :
    Connection Http.Session → Prop
  | reading {b : Bytes} {context : Context} {parser : Http.Parser} :
      Reads arrived served b → Rests b parser → sent = served.flatMap (answer responder) →
      Stage responder arrived sent served { context, state := { parser } }
  | responding {b output : Bytes} {context : Context} {parser : Http.Parser} (closing : Bool) :
      Reads arrived served b → Holds b parser → output ≠ [] →
      sent ++ output = served.flatMap (answer responder) →
      Stage responder arrived sent served
        { context, state := { parser, turn := .responding true }, output, closing,
          armed := .writable }

theorem Stage.interest_eq {responder : Responder} {arrived sent : Bytes} {served : List Request}
    {c : Connection Http.Session} (h : Stage responder arrived sent served c) :
    c.interest = c.armed := by
  cases h with
  | reading => rfl
  | responding closing hr hp hne => exact if_neg (by simpa using hne)

inductive Stands (responder : Responder) (requests : List Request) (arrived sent : Bytes)
    (quota : Option Nat) : Option (Connection Http.Session) → Prop
  | gone (n : Nat) : quota = some n → sent = (requests.take n).flatMap (answer responder) →
      Stands responder requests arrived sent quota none
  | stays {served : List Request} {c : Connection Http.Session} : c.closing = quota.isSome →
      Stage responder arrived sent served c → (∀ n, quota = some n → served = requests.take n) →
      Stands responder requests arrived sent quota (some c)

variable {config : Config Http.Session} {responder : Responder} {stream arrived sent b output : Bytes}
  {requests served : List Request} {quota : Option Nat} {context : Context} {parser : Http.Parser}

theorem stage_pump (w : Workload config responder stream requests) (ha : arrived <+: stream)
    (hr : Reads arrived served b) (hp : Holds b parser)
    (hs : sent = served.flatMap (answer responder)) (context : Context) :
    let r := Http.Session.pump responder { parser }
    r.stays = true ∧ ∃ later, Stage responder arrived sent later
      { context, state := r.state, output := r.output
        armed := if r.output.isEmpty then .readable else .writable } := by
  dsimp only
  rcases w.next ha hr with hi | ⟨request, rest, hd, hk⟩
  · obtain ⟨-, q, hq, hpump⟩ := Http.Session.pump_incomplete responder hp hi
    rw [hpump]
    exact ⟨rfl, served, .reading hr hq hs⟩
  · have hne := Http.Session.render_ne_nil ((responder request).announce request.keepAlive)
    have hl : Reads arrived (served ++ [request]) rest := hr.trans (.cons hd (.nil rest))
    rw [(Http.Session.pump_complete responder hp hd).2, hk]
    refine ⟨rfl, served ++ [request], ?_⟩
    rw [if_neg (by simpa [answer] using hne)]
    refine .responding false hl (Http.Parser.holds_front rest) hne ?_
    rw [hs, List.flatMap_append, List.flatMap_singleton]

/-- Output pending is written, and behind it comes the answer to the next request, unless the peer
has finished. -/
theorem stands_send (w : Workload config responder stream requests) (ha : arrived <+: stream)
    (hr : Reads arrived served b) (hp : Holds b parser)
    (ho : sent ++ output = served.flatMap (answer responder))
    (hq : ∀ n, quota = some n → served = requests.take n) {outcome : WriteOutcome}
    (hw : outcome.Sound) {c : Connection Http.Session}
    (hc : c.state = { parser, turn := .responding true } ∧ c.output = output ∧
      c.closing = quota.isSome) :
    Stands responder requests arrived (sent ++ sentTo t (c.send config t outcome).2) quota
      (c.send config t outcome).1 := by
  obtain ⟨context, state, o, closing, armed⟩ := c
  obtain ⟨rfl, rfl, rfl⟩ := hc
  obtain ⟨pending, hall, ⟨hne, hv⟩ | ⟨rfl, hq', hv⟩ | ⟨rfl, hq', hv⟩⟩ :=
    Connection.send_sound config t hw
      { context, state := { parser, turn := .responding true }, output := o,
        closing := quota.isSome, armed }
  · rw [hv]
    refine .stays rfl (.responding _ hr hp hne ?_) hq
    rw [List.append_assoc, hall, ho]
  · obtain ⟨n, hn⟩ := Option.isSome_iff_exists.1 hq'
    rw [hv]
    refine .gone n hn ?_
    rw [List.append_nil] at hall
    rw [hall, ho, hq n hn]
  · have hn : quota = none := by simpa using hq'
    subst hn
    have hdrained : config.protocol.drained { parser, turn := .responding true } =
        Http.Session.pump responder { parser } := by
      rw [w.protocol]
      rfl
    obtain ⟨hstays, later, hstage⟩ := stage_pump w ha hr hp rfl context
    rw [List.append_nil] at hall
    rw [hv, hall, ho, hdrained, hstays, if_pos rfl]
    exact .stays rfl hstage nofun

theorem send_idle (w : Workload config responder stream requests) (t : Token)
    {outcome : WriteOutcome} (hw : outcome.Sound) (context : Context) (parser : Http.Parser) :
    let v := Connection.send config t outcome { context, state := { parser } }
    v.1 = some { context, state := { parser } } ∧ sentTo t v.2 = [] := by
  have hdrained : config.protocol.drained { parser } = { state := { parser } } := by
    rw [w.protocol]
    rfl
  obtain ⟨pending, hall, ⟨hne, -⟩ | ⟨-, hc, -⟩ | ⟨rfl, -, hv⟩⟩ :=
    Connection.send_sound config t hw { context, state := { parser } }
  · exact absurd (List.append_eq_nil_iff.1 hall).2 hne
  · cases hc
  · rw [List.append_nil] at hall
    rw [hdrained] at hv
    exact ⟨hv, hall⟩

theorem stands_write (w : Workload config responder stream requests) (ha : arrived <+: stream)
    {outcome : WriteOutcome} (hw : outcome.Sound) {c : Connection Http.Session}
    (hc : Stands responder requests arrived sent quota (some c)) :
    Stands responder requests arrived (sent ++ sentTo t (c.send config t outcome).2) quota
      (c.send config t outcome).1 ∧
      (c.armed = .readable → (c.send config t outcome).1 = some c) := by
  obtain hc | ⟨hclosing, hs, hq⟩ := hc
  cases hs with
  | responding closing hr hp hne ho =>
    exact ⟨stands_send w ha hr hp ho hq hw ⟨rfl, rfl, hclosing⟩, nofun⟩
  | @reading b context parser hr hp hs =>
    obtain ⟨hv, hsent⟩ := send_idle w t hw context parser
    rw [hv, hsent, List.append_nil]
    exact ⟨.stays hclosing (.reading hr hp hs) hq, fun _ ↦ rfl⟩

theorem buffered_le (hr : Reads arrived served b) (hp : Rests b parser) :
    parser.buffered ≤ arrived.length := by
  have hk : parser.inbox.bytes = (Http.Parser.kept b).2 := congrArg Prod.snd hp.kept
  have hl : (Http.Parser.kept b).2.length ≤ b.length := by
    rw [Http.Parser.kept]
    cases hh : Head.read b with
    | incomplete n | invalid e => exact Nat.le_refl _
    | complete head rest => exact Nat.le_of_lt (Http.Head.suffix_of_read hh).2
  rw [Http.Parser.buffered, ← Inbox.length_bytes, hk]
  exact Nat.le_trans hl hr.suffix.length_le

def quotaOf (finished : Bool) (count : Nat) : Option Nat := if finished then some (count + 1) else none

theorem isSome_quotaOf (finished : Bool) (count : Nat) :
    (quotaOf finished count).isSome = finished := by
  cases finished <;> rfl

theorem stands_answer_none (hr : Reads arrived served b) (hp : Rests b parser)
    (hs : sent = served.flatMap (answer responder)) {finished : Bool}
    (he : finished = true → served = requests) {outcome : WriteOutcome} (hw : outcome.Sound)
    (context : Context) :
    let v := Connection.answer config t finished outcome { context, state := { parser } }
    Stands responder requests arrived (sent ++ sentTo t v.2) (quotaOf finished served.length)
      v.1 := by
  cases finished with
  | true =>
    refine .gone (served.length + 1) rfl ?_
    show sent ++ [] = _
    rw [List.append_nil, hs, ← he rfl, List.take_of_length_le (Nat.le_succ _)]
  | false =>
    simp only [Connection.answer, Connection.rearm, hw.rearmed]
    have hstage : Stage responder arrived (sent ++ []) served { context, state := { parser } } := by
      rw [List.append_nil]
      exact .reading hr hp hs
    exact .stays rfl hstage fun n hn ↦ by cases hn

theorem stands_answer_some (w : Workload config responder stream requests)
    (ha : arrived <+: stream) (hs : sent = served.flatMap (answer responder)) {request : Request}
    (hr : Reads arrived (served ++ [request]) b) (finished : Bool) {outcome : WriteOutcome}
    (hw : outcome.Sound) (context : Context) :
    let v := Connection.answer config t finished outcome
      { context, state := { parser := { inbox := { front := b } }, turn := .responding true }
        output := answer responder request }
    Stands responder requests arrived (sent ++ sentTo t v.2) (quotaOf finished served.length)
      v.1 := by
  have hne := Http.Session.render_ne_nil ((responder request).announce request.keepAlive)
  have htake : ∀ n, quotaOf finished served.length = some n →
      served ++ [request] = requests.take n := by
    intro n hn
    obtain ⟨more, hmore⟩ := ha
    obtain ⟨others, rfl, -⟩ := w.split hmore hr
    cases finished with
    | false => cases hn
    | true =>
      cases hn
      exact (List.take_left' (by simp)).symm
  simp only [Connection.answer]
  rw [if_neg (by simpa [answer] using hne)]
  refine stands_send w ha hr (Http.Parser.holds_front b) ?_ htake hw
    ⟨rfl, rfl, (isSome_quotaOf finished served.length).symm⟩
  rw [hs, List.flatMap_append, List.flatMap_singleton]

theorem Stands.behind {v : View Http.Session} {acts : List Act} (ha : sentTo t acts = [])
    (h : Stands responder requests arrived (sent ++ sentTo t v.2) quota v.1) :
    Stands responder requests arrived (sent ++ sentTo t (v.behind acts).2) quota
      (v.behind acts).1 := by
  rwa [View.behind, sentTo_append, ha, List.nil_append]

/-- One round of reading. If it sees that the peer has finished, one more request is answered than
had arrived before. -/
theorem stands_read (w : Workload config responder stream requests) {r : Readiness}
    (ha : arrived ++ (delivered r.reads).data <+: stream)
    (he : (delivered r.reads).finished = true → arrived ++ (delivered r.reads).data = stream)
    (hf : ∀ read ∈ r.reads, read.isFailure = false) (hw : r.reply.Sound) {c : Connection Http.Session}
    (hc : Stands responder requests arrived sent quota (some c)) (harmed : c.armed = .readable) :
    Stands responder requests (arrived ++ (delivered r.reads).data)
      (sent ++ sentTo r.token (c.receive config r).2)
      (quotaOf (delivered r.reads).finished (readAll arrived).1.length)
      (c.receive config r).1 := by
  obtain hc | @⟨served, _, hclosing, hs, hq⟩ := hc
  cases hs with
  | responding closing hr hp hne ho => cases harmed
  | @reading b context parser hr hp hs =>
    have hserved : (readAll arrived).1 = served := by
      rw [hr.readAll_eq, Http.Request.readAll_incomplete hp.waits, List.append_nil]
    have hheld : config.protocol.buffered { parser } = parser.buffered := by
      rw [w.protocol]
      rfl
    have hread : Connection.readFrom parser.buffered config.maxBuffer [] r.reads =
        .ok (delivered r.reads) := by
      have hb := buffered_le hr hp
      have hl := ha.length_le
      have hm := w.size
      rw [List.length_append] at hl
      rw [Connection.readFrom_eq hf (by rw [List.length_nil]; omega)]
      rfl
    rw [Connection.receive, if_neg (by simp), hheld, hread, hserved]
    generalize delivered r.reads = d at ha he ⊢
    obtain ⟨data, finished⟩ := d
    cases data with
    | nil =>
      rw [List.append_nil] at ha he ⊢
      exact stands_answer_none hr hp hs (fun h ↦ w.served_eq (he h ▸ hr) hp.waits) hw context
    | cons x data =>
      have hregular : Regular (arrived ++ x :: data) := by
        obtain ⟨more, rfl⟩ := ha
        exact w.consistent.regular.front
      have hr' := hr.append hregular
      have hh : Holds (b ++ x :: data) (parser.push (x :: data)) :=
        hp.holds.push (hregular _ _ hr')
      have hreceived : config.protocol.received (x :: data) { parser } =
          Http.Session.pump responder { parser := parser.push (x :: data) } := by
        rw [w.protocol]
        rfl
      rcases w.next ha hr' with hi | ⟨request, rest, hd, hk⟩
      · obtain ⟨-, q, hq, hpump⟩ := Http.Session.pump_incomplete responder hh hi
        simp only [hreceived, hpump, if_true, Connection.apply, List.append_nil]
        refine Stands.behind rfl ?_
        exact stands_answer_none hr' hq hs (fun h ↦ w.served_eq (he h ▸ hr') hi) hw context
      · have hpump := (Http.Session.pump_complete responder hh hd).2
        simp only [hreceived, hpump, hk, if_true, Connection.apply, List.nil_append]
        refine Stands.behind rfl ?_
        exact stands_answer_some w ha hs (hr'.trans (.cons hd (.nil rest))) finished hw context

structure Readiness.Orderly {σ : Type} (r : Readiness) (c : Connection σ) : Prop where
  error : r.error = false
  readable : r.readable = true → c.armed = .readable
  reads : ∀ read ∈ r.reads, read.isFailure = false
  pending : r.pending.Sound
  reply : r.reply.Sound

def Orderly {σ : Type} (t : Token) (c : Option (Connection σ)) (ready : List Readiness) : Prop :=
  ready.filter (·.token == t) = [] ∨
    ∃ r c', ready.filter (·.token == t) = [r] ∧ c = some c' ∧ r.Orderly c'

def roundsOf (t : Token) (ready : List Readiness) : List Received :=
  ((ready.filter (·.token == t)).filter (·.readable)).map (delivered ·.reads)

def arrivedIn (rounds : List Received) : Bytes := rounds.flatMap (·.data)

def finishedIn (rounds : List Received) : Bool := rounds.any (·.finished)

def earlier (rounds : List Received) : Nat := (readAll (arrivedIn rounds.dropLast)).1.length

/-- Rounds that read a stream from its front, and find its end only behind all of it. -/
structure Delivers (stream : Bytes) (rounds : List Received) : Prop where
  data : arrivedIn rounds <+: stream
  finish : ∀ front, front <+: rounds → finishedIn front = true → arrivedIn front = stream

theorem Delivers.front {rounds more : List Received} (h : Delivers stream (rounds ++ more)) :
    Delivers stream rounds := by
  refine ⟨?_, fun front hf ↦ h.finish front (hf.trans (List.prefix_append ..))⟩
  have hd := h.data
  rw [arrivedIn, List.flatMap_append] at hd
  exact (List.prefix_append ..).trans hd

theorem turn_nil {σ : Type} {config : Config σ} {ready : List Readiness}
    (h : ready.filter (·.token == t) = []) (v : View σ) : View.turn config t ready v = v := by
  rw [View.turn, h]
  rfl

theorem turn_singleton {σ : Type} {config : Config σ} {ready : List Readiness} {r : Readiness}
    (h : ready.filter (·.token == t) = [r]) (he : r.error = false) (c : Connection σ) :
    View.turn config t ready (some c, []) =
      let written := if r.writable then c.send config t r.pending else (some c, [])
      if r.readable then written.andThen (·.receive config r) else written := by
  have hm : r ∈ ready.filter (·.token == t) := by rw [h]; exact List.mem_cons_self
  obtain rfl : r.token = t := by simpa using (List.mem_filter.1 hm).2
  have hreact (v : View σ) : v.andThen (·.react config r) =
      if r.readable then v.andThen (·.receive config r) else v := by
    obtain ⟨c, acts⟩ := v
    cases c <;> cases hr : r.readable <;>
      simp [View.andThen, Connection.react, he, hr, View.behind]
  rw [View.turn, h]
  cases hw : r.writable with
  | true =>
    simp only [List.filter_cons, hw, he, Bool.not_false, Bool.and_true, if_true, List.filter_nil,
      List.foldl_cons, List.foldl_nil, hreact]
    rfl
  | false =>
    simp only [List.filter_cons, hw, Bool.false_and, Bool.false_eq_true, if_false, List.filter_nil,
      List.foldl_cons, List.foldl_nil, hreact]

theorem quota_concat {rounds : List Received} (h : finishedIn rounds = false) (d : Received) :
    quotaOf (finishedIn (rounds ++ [d])) (earlier (rounds ++ [d])) =
      quotaOf d.finished (readAll (arrivedIn rounds)).1.length := by
  have hf : finishedIn (rounds ++ [d]) = d.finished := by
    rw [finishedIn] at h ⊢
    simp [h]
  rw [hf, earlier, List.dropLast_concat]

theorem arrivedIn_concat (rounds : List Received) (d : Received) :
    arrivedIn (rounds ++ [d]) = arrivedIn rounds ++ d.data := by
  rw [arrivedIn, arrivedIn, List.flatMap_append, List.flatMap_singleton]

theorem stands_turn (w : Workload config responder stream requests) {rounds : List Received}
    {ready : List Readiness} {c : Option (Connection Http.Session)}
    (hd : Delivers stream (rounds ++ roundsOf t ready)) (ho : Orderly t c ready)
    (hc : Stands responder requests (arrivedIn rounds) sent
      (quotaOf (finishedIn rounds) (earlier rounds)) c) :
    let v := View.turn config t ready (c, [])
    Stands responder requests (arrivedIn (rounds ++ roundsOf t ready)) (sent ++ sentTo t v.2)
      (quotaOf (finishedIn (rounds ++ roundsOf t ready)) (earlier (rounds ++ roundsOf t ready)))
      v.1 := by
  dsimp only
  obtain hm | ⟨r, c, hm, rfl, hr⟩ := ho
  · have hn : roundsOf t ready = [] := by rw [roundsOf, hm]; rfl
    rw [turn_nil hm, hn, List.append_nil]
    show Stands responder requests (arrivedIn rounds) (sent ++ []) _ c
    rw [List.append_nil]
    exact hc
  · have ht : r.token = t := by
      have hmem : r ∈ ready.filter (·.token == t) := by rw [hm]; exact List.mem_cons_self
      simpa using (List.mem_filter.1 hmem).2
    have hrounds : roundsOf t ready = if r.readable then [delivered r.reads] else [] := by
      rw [roundsOf, hm]
      cases hr : r.readable <;> simp [hr]
    rw [turn_singleton hm hr.error]
    dsimp only
    generalize hv : (if r.writable then c.send config t r.pending else (some c, [])) = written
    have hwritten : Stands responder requests (arrivedIn rounds) (sent ++ sentTo t written.2)
        (quotaOf (finishedIn rounds) (earlier rounds)) written.1 ∧
          (c.armed = .readable → written.1 = some c) := by
      rw [← hv]
      split
      · exact stands_write w hd.front.data hr.pending hc
      · show Stands responder requests (arrivedIn rounds) (sent ++ []) _ (some c) ∧ _
        rw [List.append_nil]
        exact ⟨hc, fun _ ↦ rfl⟩
    cases hread : r.readable with
    | false =>
      rw [hrounds, hread, if_neg (by simp), if_neg (by simp), List.append_nil]
      exact hwritten.1
    | true =>
      have harmed := hr.readable hread
      obtain ⟨after, acts⟩ := written
      obtain ⟨hstands, hsame⟩ := hwritten
      obtain rfl : after = some c := hsame harmed
      -- Behind the end of the stream a connection is watched for writing only.
      have hfinished : finishedIn rounds = false := by
        obtain hc | ⟨hclosing, hs, -⟩ := hc
        rw [isSome_quotaOf] at hclosing
        cases hs with
        | reading => exact hclosing.symm
        | responding => cases harmed
      rw [hrounds, hread, if_pos rfl] at hd
      have hend : (delivered r.reads).finished = true →
          arrivedIn rounds ++ (delivered r.reads).data = stream := by
        intro h
        rw [← arrivedIn_concat]
        refine hd.finish _ List.prefix_rfl ?_
        rw [finishedIn, List.any_append, List.any_cons, h, Bool.true_or, Bool.or_true]
      have hstands' := stands_read w (arrivedIn_concat rounds _ ▸ hd.data) hend hr.reads hr.reply
        hstands harmed
      rw [hrounds, hread, if_pos rfl, if_pos rfl, quota_concat hfinished, arrivedIn_concat]
      rw [List.append_assoc, ht, ← sentTo_append] at hstands'
      exact hstands'

/-- Iterations that all succeed, in which nothing fails on the sockets of a connection, with the
rounds in which that one was read and the bytes that it was sent. -/
inductive Polls (hooks : Hooks η) (config : Config Http.Session) (t : Token)
    (l : Loop Http.Session η) : List Received → Bytes → Loop Http.Session η → Prop
  | start : Polls hooks config t l [] [] l
  | next {rounds : List Received} {sent : Bytes} {mid : Loop Http.Session η} {n : Nat}
      {r : Loop.Run Http.Session η} (env : Surroundings) :
      Polls hooks config t l rounds sent mid → mid.pollOnce hooks config env = (.ok n, r) →
      Orderly t (mid.find? t) env.ready →
      Polls hooks config t l (rounds ++ roundsOf t env.ready) (sent ++ sentTo t r.2)
        (r.1.tick hooks).1

theorem Polls.stands {hooks : Hooks η} {l last : Loop Http.Session η} {rounds : List Received}
    (w : Workload config responder stream requests) (h : Polls hooks config t l rounds sent last)
    (ht : t < l.nextToken) (hl : l.find? t = some { context, state := {} })
    (hd : Delivers stream rounds) :
    t < last.nextToken ∧ Stands responder requests (arrivedIn rounds) sent
      (quotaOf (finishedIn rounds) (earlier rounds)) (last.find? t) := by
  induction h with
  | start =>
    rw [hl]
    exact ⟨ht, .stays rfl (.reading (.nil []) Http.Parser.rests_new rfl) nofun⟩
  | @next rounds sent mid n r env _ hp ho ih =>
    obtain ⟨hm, hs⟩ := ih hd.front
    obtain ⟨hview, hnext⟩ := Loop.view_pollOnce hooks config env hp hm
    have hstands := stands_turn w hd ho hs
    rw [← hview] at hstands
    dsimp only at hstands
    rw [sentTo_view] at hstands
    exact ⟨Nat.lt_of_lt_of_le hm hnext, hstands⟩

/-- What a half-close leaves of the answers to requests that had been sent before. `earlier` of them
were complete before the round that sees the end. -/
structure HalfClosed (responder : Responder) (requests : List Request) (rounds : List Received)
    (sent : Bytes) (c : Option (Connection Http.Session)) : Prop where
  inOrder : sent <+: requests.flatMap (answer responder)
  watched {d : Connection Http.Session} : c = some d → d.armed = d.interest
  idle {d : Connection Http.Session} : c = some d → d.output = [] → finishedIn rounds = false ∧
    sent = (readAll (arrivedIn rounds)).1.flatMap (answer responder)
  closing {d : Connection Http.Session} : c = some d → finishedIn rounds = true → d.output ≠ [] ∧
    sent ++ d.output = (requests.take (earlier rounds + 1)).flatMap (answer responder)
  closed : c = none → finishedIn rounds = true ∧
    sent = (requests.take (earlier rounds + 1)).flatMap (answer responder)
  /-- All requests are answered if and only if at most one was completed in that round. -/
  whole : c = none →
    (sent = requests.flatMap (answer responder) ↔ requests.length ≤ earlier rounds + 1)

theorem isPrefix_flatMap_take (requests : List Request) (n : Nat) :
    (requests.take n).flatMap (answer responder) <+: requests.flatMap (answer responder) := by
  conv => rhs; rw [← List.take_append_drop n requests, List.flatMap_append]
  exact List.prefix_append ..

theorem flatMap_take_eq_iff (requests : List Request) (n : Nat) :
    (requests.take n).flatMap (answer responder) = requests.flatMap (answer responder) ↔
      requests.length ≤ n := by
  refine ⟨fun h ↦ ?_, fun h ↦ by rw [List.take_of_length_le h]⟩
  have hd : (requests.drop n).flatMap (answer responder) = [] := by
    conv at h => rhs; rw [← List.take_append_drop n requests, List.flatMap_append]
    exact List.append_right_eq_self.1 h.symm
  rw [List.flatMap_eq_nil_iff] at hd
  rw [← List.drop_eq_nil_iff, List.eq_nil_iff_forall_not_mem]
  exact fun request hr ↦ Http.Session.render_ne_nil _ (hd request hr)

/-- A peer sends requests that keep the connection alive and then finishes. However the kernel
spreads the bytes and the end over rounds of reading and takes the output, the requests complete
before the round that sees the end are answered, and one more. -/
theorem half_close_answers {hooks : Hooks η} {l last : Loop Http.Session η}
    {rounds : List Received} (w : Workload config responder stream requests)
    (h : Polls hooks config t l rounds sent last) (ht : t < l.nextToken)
    (hl : l.find? t = some { context, state := {} }) (hd : Delivers stream rounds) :
    HalfClosed responder requests rounds sent (last.find? t) := by
  obtain ⟨-, hs⟩ := h.stands w ht hl hd
  cases hlast : last.find? t with
  | none =>
    rw [hlast] at hs
    obtain ⟨n, hn, rfl⟩ := hs
    cases hf : finishedIn rounds with
    | false =>
      rw [hf] at hn
      cases hn
    | true =>
      rw [hf] at hn
      cases hn
      exact ⟨isPrefix_flatMap_take .., nofun, nofun, nofun, fun _ ↦ ⟨hf, rfl⟩,
        fun _ ↦ flatMap_take_eq_iff ..⟩
  | some c =>
    rw [hlast] at hs
    obtain hs | @⟨served, _, hclosing, hstage, hq⟩ := hs
    rw [isSome_quotaOf] at hclosing
    obtain ⟨more, hmore⟩ := hd.data
    have hwatched {d : Connection Http.Session} (h : some c = some d) : d.armed = d.interest := by
      cases h
      exact hstage.interest_eq.symm
    cases hstage with
    | reading hr hp hs =>
      obtain ⟨others, ho, -⟩ := w.split hmore hr
      refine ⟨?_, hwatched, fun _ _ ↦ ⟨hclosing.symm, ?_⟩, fun _ hf ↦ ?_, nofun, nofun⟩
      · rw [hs, ho, List.flatMap_append]
        exact List.prefix_append ..
      · rw [hr.readAll_eq, Http.Request.readAll_incomplete hp.waits, List.append_nil, hs]
      · rw [← hclosing] at hf
        cases hf
    | responding closing hr hp hne hs =>
      obtain ⟨others, ho, -⟩ := w.split hmore hr
      refine ⟨?_, hwatched, fun h hi ↦ ?_, fun h hf ↦ ?_, nofun, nofun⟩
      · rw [ho, List.flatMap_append, ← hs, List.append_assoc]
        exact List.prefix_append ..
      · cases h
        exact absurd hi hne
      · cases h
        rw [hf] at hq
        exact ⟨hne, by rw [hs, hq _ rfl]⟩

def pipelined : Bytes := Utf8.encode "GET /a HTTP/1.1\r\n\r\nGET /b HTTP/1.1\r\n\r\n"

def greetingConfig : Config Http.Session :=
  { protocol := Http.Session.protocol .greeting, build := fun _ ↦ .ok {}, maxBuffer := 4096 }

def acceptedLoop : Loop Http.Session UInt64 :=
  (({ hooks := firstId } : Loop Http.Session UInt64).pollOnce .standalone greetingConfig
    { now := 0, poll := .ok [.listener false], pending := true }).2.1

theorem workload_pipelined : Workload greetingConfig .greeting pipelined (readAll pipelined).1 := by
  have ha : Request.read pipelined =
      .complete _ (Utf8.encode "GET /b HTTP/1.1\r\n\r\n") := rfl
  have hb : Request.read (Utf8.encode "GET /b HTTP/1.1\r\n\r\n") = .complete _ [] := rfl
  refine ⟨rfl, .inr (.inr (.cons ?_ ha (.cons ?_ hb (.last ?_ rfl)))), ?_, ?_, ?_⟩
  case refine_4 =>
    rw [Http.Request.readAll_complete ha, Http.Request.readAll_complete hb,
      Http.Request.readAll_incomplete rfl]
    exact .cons ha (.cons hb (.nil []))
  all_goals decide +kernel

def readEvent (reads : List ReadResult) (results : List WriteResult) : Surroundings :=
  { now := 0, poll := .ok [.socket { token := 1, readable := true, reads, reply := { results } }] }

def writeEvent (results : List WriteResult) : Surroundings :=
  { now := 0, poll := .ok [.socket { token := 1, writable := true, pending := { results } }] }

theorem orderly_readEvent {σ : Type} {reads : List ReadResult} {results : List WriteResult}
    {c : Option (Connection σ)} (hc : c.map (·.armed) = some .readable)
    (hr : ∀ read ∈ reads, read.isFailure = false)
    (hw : ∀ result ∈ results, result.isFailure = false) :
    Orderly 1 c (readEvent reads results).ready := by
  obtain ⟨c, rfl, ha⟩ := Option.map_eq_some_iff.1 hc
  exact .inr ⟨_, c, rfl, rfl, rfl, fun _ ↦ ha, hr, ⟨rfl, nofun⟩, ⟨rfl, hw⟩⟩

theorem orderly_writeEvent {σ : Type} {results : List WriteResult} {c : Option (Connection σ)}
    (hc : c.isSome) (hw : ∀ result ∈ results, result.isFailure = false) :
    Orderly 1 c (writeEvent results).ready := by
  obtain ⟨c, rfl⟩ := Option.isSome_iff_exists.1 hc
  exact .inr ⟨_, c, rfl, rfl, rfl, nofun, nofun, ⟨rfl, hw⟩, ⟨rfl, nofun⟩⟩

theorem delivers_concat {rounds : List Received} {d : Received} (h : finishedIn rounds = false)
    (hd : arrivedIn (rounds ++ [d]) = stream) : Delivers stream (rounds ++ [d]) := by
  refine ⟨hd ▸ List.prefix_rfl, fun front hf hfin ↦ ?_⟩
  rcases List.prefix_concat_iff.1 hf with rfl | hf
  · exact hd
  · obtain ⟨more, rfl⟩ := hf
    rw [finishedIn, List.any_append, Bool.or_eq_false_iff] at h
    rw [finishedIn, h.1] at hfin
    cases hfin

/-- The first request arrives with a part of the second one, and its answer is taken in two parts.
The rest and the end are seen together. -/
theorem half_close_answers_spread :
    ∃ rounds sent last, Workload greetingConfig .greeting pipelined (readAll pipelined).1 ∧
      Polls .standalone greetingConfig 1 acceptedLoop rounds sent last ∧
      1 < acceptedLoop.nextToken ∧
      acceptedLoop.find? 1 = some { context := { id := 1, worker := none }, state := {} } ∧
      Delivers pipelined rounds ∧
      HalfClosed .greeting (readAll pipelined).1 rounds sent (last.find? 1) := by
  have hstart : Polls .standalone greetingConfig 1 acceptedLoop [] [] acceptedLoop := .start
  have hfirst := hstart.next
    (readEvent [.bytes (pipelined.take 30), .wouldBlock] [.taken 10, .wouldBlock]) rfl
    (orderly_readEvent rfl (by decide +kernel) (by decide))
  have hwritten := hfirst.next (writeEvent [.interrupted, .taken 4096]) rfl
    (orderly_writeEvent rfl (by decide))
  have hend := hwritten.next (readEvent [.bytes (pipelined.drop 30), .bytes []] [.taken 4096]) rfl
    (orderly_readEvent rfl (by decide +kernel) (by decide))
  have hd : Delivers pipelined
      ([{ data := pipelined.take 30 }] ++ [{ data := pipelined.drop 30, finished := true }]) :=
    delivers_concat rfl (by decide +kernel)
  exact ⟨_, _, _, workload_pipelined, hend, by decide, rfl, hd,
    half_close_answers workload_pipelined hend (by decide) rfl hd⟩

/-- Seen together with the end, of two requests only the first is answered. -/
theorem half_close_drops_second :
    ∃ rounds sent last, Workload greetingConfig .greeting pipelined (readAll pipelined).1 ∧
      Polls .standalone greetingConfig 1 acceptedLoop rounds sent last ∧
      Delivers pipelined rounds ∧ last.find? 1 = none ∧
      (readAll pipelined).1.length = 2 ∧
      sent ≠ (readAll pipelined).1.flatMap (answer .greeting) := by
  have hstart : Polls .standalone greetingConfig 1 acceptedLoop [] [] acceptedLoop := .start
  have hend := hstart.next (readEvent [.bytes pipelined, .bytes []] [.taken 4096]) rfl
    (orderly_readEvent rfl (by decide +kernel) (by decide))
  have hd : Delivers pipelined ([] ++ [{ data := pipelined, finished := true }]) :=
    delivers_concat rfl (by decide +kernel)
  exact ⟨_, _, _, workload_pipelined, hend, hd, rfl, by decide +kernel, by decide +kernel⟩

end Prefork.Server
