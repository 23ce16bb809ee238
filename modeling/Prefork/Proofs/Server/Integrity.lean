import Prefork.Proofs.Offered
import Prefork.Proofs.Server.Moments

namespace Prefork.Server

open Host (IoError)

variable {σ η : Type}

/-- Why a connection is closed. -/
inductive Cause where
  /-- Its handler wants no more behind output that was written. -/
  | done
  /-- Its handler wants no more behind data, or none at all. -/
  | declined
  | finished
  | unread (error : ConnectionError)
  | unwritten (error : IoError)
  | unwatched
  | broken
  | dismissed

def Cause.isPatient : Cause → Bool
  | done | finished => true
  | _ => false

abbrev Fate (σ : Type) := Except Cause (Connection σ)

def Connection.given (held max : Nat) : List ReadResult → Bytes
  | [] | .wouldBlock :: _ | .bytes [] :: _ | .failed _ :: _ => []
  | .interrupted :: rest => given held max rest
  | .bytes (x :: more) :: rest =>
    let held := (x :: more).length + held
    (x :: more) ++ if max < held then [] else given held max rest

namespace Connection

theorem readFrom_given {held max : Nat} {data : Bytes} {reads : List ReadResult} {d : Received}
    (h : readFrom held max data reads = .ok d) :
    d.data = data ++ given (data.length + held) max reads := by
  induction reads generalizing data with
  | nil =>
    cases h
    exact (List.append_nil data).symm
  | cons read reads ih =>
    match read with
    | .wouldBlock | .bytes [] =>
      cases h
      exact (List.append_nil data).symm
    | .failed e => cases h
    | .interrupted => exact ih h
    | .bytes (x :: more) =>
      simp only [readFrom] at h
      split at h
      · cases h
      · next hlt =>
        have hsum : (x :: more).length + (data.length + held) =
            (data ++ x :: more).length + held := by
          rw [List.length_append]
          omega
        rw [given]
        simp only [hsum, if_neg hlt, ← List.append_assoc]
        exact ih h

def rearmFate (rearmed : Bool) (c : Connection σ) : Fate σ :=
  if rearmed then .ok { c with armed := c.interest } else .error .unwatched

variable (config : Config σ)

def sendFate (outcome : WriteOutcome) (c : Connection σ) : Fate σ :=
  let flushed := flush c.output outcome.results
  match flushed.error with
  | some e => .error (.unwritten e)
  | none =>
    let c := { c with output := flushed.pending }
    if !c.output.isEmpty then c.rearmFate outcome.rearmed
    else if c.closing then .error .finished
    else
      let r := config.protocol.drained c.state
      if r.stays then (c.apply r).rearmFate outcome.rearmed else .error .done

def answerFate (finished : Bool) (outcome : WriteOutcome) (c : Connection σ) : Fate σ :=
  if c.output.isEmpty then if finished then .error .finished else c.rearmFate outcome.rearmed
  else ({ c with closing := finished } : Connection σ).sendFate config outcome

def receiveFate (r : Readiness) (c : Connection σ) : Fate σ :=
  if c.closing then .ok c
  else match readFrom (config.protocol.buffered c.state) config.maxBuffer [] r.reads with
    | .error e => .error (.unread e)
    | .ok ⟨[], finished⟩ => c.answerFate config finished r.reply
    | .ok ⟨data, finished⟩ =>
      let reply := config.protocol.received data c.state
      if reply.stays then (c.apply reply).answerFate config finished r.reply else .error .declined

end Connection

namespace Touch

variable (config : Config σ)

def fate (c : Connection σ) : Touch → Fate σ
  | send _ outcome => c.sendFate config outcome
  | react r =>
    if r.error then .error .broken else if r.readable then c.receiveFate config r else .ok c
  | close _ => .error .dismissed

def given (c : Connection σ) : Touch → Bytes
  | react r =>
    if r.error || !r.readable || c.closing then []
    else Connection.given (config.protocol.buffered c.state) config.maxBuffer r.reads
  | send .. | close _ => []

end Touch

def callbacksOn (t : Token) (acts : List Act) : List Callback :=
  acts.filterMap fun
    | .received u data _ => if u = t then some (.read data) else none
    | .drained u _ => if u = t then some .write else none
    | _ => none

def passedTo (t : Token) (acts : List Act) : Bytes := Callback.inputs (callbacksOn t acts)

theorem callbacksOn_append (t : Token) (acts more : List Act) :
    callbacksOn t (acts ++ more) = callbacksOn t acts ++ callbacksOn t more :=
  List.filterMap_append

theorem passedTo_append (t : Token) (acts more : List Act) :
    passedTo t (acts ++ more) = passedTo t acts ++ passedTo t more := by
  rw [passedTo, callbacksOn_append]
  exact List.flatMap_append

theorem callbacksOn_filter (t : Token) (acts : List Act) :
    callbacksOn t (acts.filter (·.token? == some t)) = callbacksOn t acts := by
  rw [callbacksOn, callbacksOn, List.filterMap_filter]
  congr 1
  funext a
  cases a with
  | received u data stays | drained u stays =>
    simp only [Act.token?, beq_iff_eq, Option.some.injEq]
    split <;> rfl
  | _ => exact ite_self none

def Act.isIdle : Act → Bool
  | .sent .. | .received .. | .drained .. => false
  | _ => true

/-- Nothing is lost. From `c`, a step reads `given` and shows `v`. -/
structure Balanced (config : Config σ) (t : Token) (c : Connection σ) (given : Bytes)
    (fate : Fate σ) (v : View σ) : Prop where
  view : v.1 = fate.toOption
  state {d : Connection σ} : fate = .ok d →
    d.state = (config.protocol.play c.state (callbacksOn t v.2)).state
  pending {d : Connection σ} : fate = .ok d → sentTo t v.2 ++ d.output =
    c.output ++ (config.protocol.play c.state (callbacksOn t v.2)).output
  complete {cause : Cause} : fate = .error cause → cause.isPatient → sentTo t v.2 =
    c.output ++ (config.protocol.play c.state (callbacksOn t v.2)).output
  front {acts : List Act} : acts <+: v.2 →
    sentTo t acts <+: c.output ++ (config.protocol.play c.state (callbacksOn t acts)).output
  passed : passedTo t v.2 <+: given
  whole : (∀ e, fate ≠ .error (.unread e)) → passedTo t v.2 = given
  gone {d : Connection σ} : fate = .ok d → .closed t ∉ v.2

namespace Balanced

variable {config : Config σ} {t : Token} {c d : Connection σ} {given more : Bytes} {fate : Fate σ}
  {v : View σ} {acts : List Act}

theorem fate_eq (h : Balanced config t c given fate v) (hd : v.1 = some d) : fate = .ok d := by
  cases fate with
  | error cause => cases h.view.symm.trans hd
  | ok e =>
    cases h.view.symm.trans hd
    rfl

theorem trans (h : Balanced config t c given (.ok d) (some d, acts))
    (h' : Balanced config t d more fate v) :
    Balanced config t c (given ++ more) fate (v.behind acts) where
  view := h'.view
  state {e} he := by
    rw [View.behind, callbacksOn_append, Protocol.play_append, ← h.state rfl]
    exact h'.state he
  pending {e} he := by
    rw [View.behind, sentTo_append, callbacksOn_append, Protocol.play_append, ← h.state rfl,
      List.append_assoc, h'.pending he, ← List.append_assoc, h.pending rfl, List.append_assoc]
    rfl
  complete {cause} he hp := by
    rw [View.behind, sentTo_append, callbacksOn_append, Protocol.play_append, ← h.state rfl,
      h'.complete he hp, ← List.append_assoc, h.pending rfl, List.append_assoc]
    rfl
  front {front} hf := by
    rcases List.prefix_or_prefix_of_prefix hf (List.prefix_append acts v.2) with hf | ⟨rest, rfl⟩
    · exact h.front hf
    · have hr := h'.front ((List.prefix_append_right_inj acts).1 hf)
      rw [sentTo_append, callbacksOn_append, Protocol.play_append, ← h.state rfl]
      show _ <+: c.output ++ ((config.protocol.play c.state (callbacksOn t acts)).output ++ _)
      rw [← List.append_assoc, ← h.pending rfl, List.append_assoc]
      exact (List.prefix_append_right_inj _).2 hr
  passed := by
    rw [View.behind, passedTo_append, h.whole (by simp)]
    exact (List.prefix_append_right_inj given).2 h'.passed
  whole hf := by
    rw [View.behind, passedTo_append, h.whole (by simp), h'.whole hf]
  gone {e} he hc := by
    rcases List.mem_append.1 hc with hc | hc
    · exact h.gone rfl hc
    · exact h'.gone he hc

theorem trans_nil (h : Balanced config t c given (.ok d) (some d, acts))
    (h' : Balanced config t d [] fate v) : Balanced config t c given fate (v.behind acts) := by
  have hall := h.trans h'
  rwa [List.append_nil] at hall

theorem idle (hv : v.1 = fate.toOption) (ha : ∀ a ∈ v.2, a.isIdle = true)
    (hd : ∀ d, fate = .ok d → d.state = c.state ∧ d.output = c.output)
    (hp : ∀ cause, fate = .error cause → cause.isPatient → c.output = [])
    (hg : (∀ e, fate ≠ .error (.unread e)) → given = [])
    (hc : ∀ d, fate = .ok d → .closed t ∉ v.2) : Balanced config t c given fate v := by
  have hsent {acts : List Act} (h : ∀ a ∈ acts, a.isIdle = true) : sentTo t acts = [] := by
    refine List.flatMap_eq_nil_iff.2 fun a hm ↦ ?_
    have hi := h a hm
    cases a with
    | sent u data => cases hi
    | _ => rfl
  have hcalls {acts : List Act} (h : ∀ a ∈ acts, a.isIdle = true) : callbacksOn t acts = [] := by
    refine List.filterMap_eq_nil_iff.2 fun a hm ↦ ?_
    have hi := h a hm
    cases a with
    | received u data stays | drained u stays => cases hi
    | _ => rfl
  constructor
  · exact hv
  · intro d he
    rw [hcalls ha]
    exact (hd d he).1
  · intro d he
    rw [hsent ha, hcalls ha, (hd d he).2]
    exact (List.append_nil _).symm
  · intro cause he hc
    rw [hsent ha, hcalls ha, hp cause he hc]
    rfl
  · intro front hf
    rw [hsent fun a hm ↦ ha a (hf.subset hm)]
    exact List.nil_prefix
  · rw [passedTo, hcalls ha]
    exact List.nil_prefix
  · intro he
    rw [passedTo, hcalls ha, hg he]
    rfl
  · exact fun he ↦ hc _ he

theorem close {cause : Cause} (hp : cause.isPatient → c.output = [])
    (hg : (∀ e, cause ≠ .unread e) → given = []) :
    Balanced config t c given (.error cause) (Connection.close t) :=
  .idle rfl (by simp [Connection.close, Act.isIdle]) nofun (fun _ he ↦ by cases he; exact hp)
    (fun h ↦ hg fun e he ↦ h e (congrArg _ he)) nofun

theorem cut {cause : Cause} (hp : cause.isPatient = false) :
    Balanced config t c [] (.error cause) (Connection.close t) :=
  .close (fun h ↦ absurd h (by simp [hp])) fun _ ↦ rfl

theorem rearm (rearmed : Bool) :
    Balanced config t c [] (c.rearmFate rearmed) (c.rearm t rearmed) := by
  cases rearmed with
  | false => exact .cut rfl
  | true =>
    exact .idle rfl (by simp [Connection.rearm, Act.isIdle])
      (fun d he ↦ by cases he; exact ⟨rfl, rfl⟩) nofun (fun _ ↦ rfl)
      fun _ _ ↦ by simp [Connection.rearm]

theorem single (ha : acts.length ≤ 1)
    (hs : d.state = (config.protocol.play c.state (callbacksOn t acts)).state)
    (ho : sentTo t acts ++ d.output =
      c.output ++ (config.protocol.play c.state (callbacksOn t acts)).output)
    (hp : passedTo t acts = given) (hc : .closed t ∉ acts) :
    Balanced config t c given (.ok d) (some d, acts) := by
  constructor
  · rfl
  · intro e he
    cases he
    exact hs
  · intro e he
    cases he
    exact ho
  · nofun
  · -- A single act has no fronts but itself.
    intro front hf
    cases front with
    | nil => exact List.nil_prefix
    | cons a front =>
      have hall : a :: front = acts := hf.eq_of_length_le (Nat.le_trans ha (Nat.le_add_left ..))
      rw [hall, ← ho]
      exact List.prefix_append ..
  · exact hp ▸ List.prefix_rfl
  · exact fun _ ↦ hp
  · exact fun _ ↦ hc

theorem flag (closing : Bool) :
    Balanced config t c [] (.ok { c with closing }) (some { c with closing }, []) :=
  .single (Nat.zero_le 1) rfl (List.append_nil _).symm rfl nofun

theorem flushed {out pending : Bytes} (h : out ++ pending = c.output) :
    Balanced config t c [] (.ok { c with output := pending })
      (some { c with output := pending }, if out.isEmpty then [] else [.sent t out]) := by
  cases out with
  | nil => exact .single (Nat.zero_le 1) rfl (h.trans (List.append_nil _).symm) rfl nofun
  | cons x out =>
    refine .single (Nat.le_refl 1) rfl ?_ rfl (by simp)
    show sentTo t [.sent t (x :: out)] ++ pending = c.output ++ []
    rw [List.append_nil, ← h]
    simp [sentTo]

theorem called {a : Act} {call : Callback} (hs : sentTo t [a] = [])
    (hc : callbacksOn t [a] = [call]) :
    Balanced config t c call.input (.ok (c.apply (config.protocol.callback c.state call)))
      (some (c.apply (config.protocol.callback c.state call)), [a]) := by
  refine .single (Nat.le_refl 1) ?_ ?_ ?_ ?_
  · rw [hc]
    rfl
  · rw [hs, hc]
    show c.output ++ _ = c.output ++ (_ ++ [])
    rw [List.append_nil]
  · rw [passedTo, hc]
    exact List.append_nil _
  · intro ha
    rw [← List.mem_singleton.1 ha] at hc
    cases hc

variable {own : σ → Prop} (hm : config.protocol.Modest own)
include hm

theorem send (outcome : WriteOutcome) (hc : own c.state) :
    Balanced config t c [] (c.sendFate config outcome) (c.send config t outcome) := by
  have hall := Connection.sent_append_pending c.output outcome.results
  rw [Connection.sendFate, Connection.send]
  generalize Connection.flush c.output outcome.results = result at hall ⊢
  obtain ⟨out, pending, error⟩ := result
  have hflushed : Balanced config t c [] _ _ := flushed hall
  cases error with
  | some e => exact hflushed.trans (.cut rfl)
  | none =>
    dsimp only
    simp only [Option.isSome_none, Bool.false_eq_true, if_false]
    split
    · exact hflushed.trans (.rearm outcome.rearmed)
    · next hp =>
      have hnil : pending = [] := by simpa using hp
      split
      · exact hflushed.trans (.close (fun _ ↦ hnil) fun _ ↦ rfl)
      · -- The handler has the last word: it ends the connection only without output.
        have hcall (stays : Bool) : callbacksOn t [.drained t stays] = [.write] := by
          simp [callbacksOn]
        have hcalled (stays : Bool) := hflushed.trans (called rfl (hcall stays))
        split
        · exact (hcalled _).trans (.rearm outcome.rearmed)
        · next hs =>
          refine (hcalled _).trans (.close (fun _ ↦ ?_) fun _ ↦ rfl)
          have hends := hm.ends hc (by simpa using hs)
          show pending ++ (config.protocol.drained c.state).output = []
          rw [hnil, hends]
          rfl

theorem answer (finished : Bool) (outcome : WriteOutcome) (hc : own c.state) :
    Balanced config t c [] (c.answerFate config finished outcome)
      (c.answer config t finished outcome) := by
  rw [Connection.answerFate, Connection.answer]
  split
  · next he =>
    split
    · exact .close (fun _ ↦ by simpa using he) fun _ ↦ rfl
    · exact .rearm outcome.rearmed
  · exact (flag finished).trans (send hm outcome hc)

theorem receive (r : Readiness) (hc : own c.state) :
    Balanced config r.token c
      (if c.closing then [] else
        Connection.given (config.protocol.buffered c.state) config.maxBuffer r.reads)
      (c.receiveFate config r) (c.receive config r) := by
  rw [Connection.receiveFate, Connection.receive]
  split
  · exact .flag c.closing
  · cases hr : Connection.readFrom (config.protocol.buffered c.state) config.maxBuffer []
        r.reads with
    | error e => exact .close (absurd · (by simp [Cause.isPatient])) fun h ↦ absurd rfl (h e)
    | ok read =>
      have hgiven := Connection.readFrom_given hr
      obtain ⟨data, finished⟩ := read
      rw [List.nil_append, List.length_nil, Nat.zero_add] at hgiven
      rw [← hgiven]
      cases data with
      | nil => exact answer hm finished r.reply hc
      | cons x data =>
        have hcall (stays : Bool) :
            callbacksOn r.token [.received r.token (x :: data) stays] = [.read (x :: data)] := by
          simp [callbacksOn]
        have hcalled (stays : Bool) :
            Balanced config r.token c (x :: data) _ _ := called rfl (hcall stays)
        dsimp only
        split
        · have hown := hm.own_callback (.read (x :: data)) hc
          exact (hcalled _).trans_nil (answer hm finished r.reply hown)
        · exact (hcalled _).trans_nil (.cut rfl)

theorem touch (x : Touch) (hc : own c.state) :
    Balanced config x.token c (x.given config c) (x.fate config c) (x.act config c) := by
  cases x with
  | send t outcome => exact send hm outcome hc
  | close t => exact .cut rfl
  | react r =>
    simp only [Touch.given, Touch.fate, Touch.act, Connection.react]
    cases r.error with
    | true => exact .cut rfl
    | false =>
      cases r.readable with
      | true => exact receive hm r hc
      | false => exact .flag c.closing

end Balanced

namespace Part

variable (config : Config σ)

def fate : Part σ → Fate σ
  | enters env context s =>
    let reply := config.protocol.opened env.now s
    let c := ({ context, state := s } : Connection σ).apply reply
    if reply.stays then c.rearmFate env.registered else .error .declined
  | touched x c => x.fate config c

def given : Part σ → Bytes
  | enters .. => []
  | touched x c => x.given config c

end Part

section Lives

variable (config : Config σ) (t : Token) (parts : List (Part σ))

def returned : Bytes := parts.flatMap (·.given config)

def appended (acts : List Act) : Bytes :=
  match parts.head? with
  | some (.enters env _ s) =>
    let r := config.protocol.opened env.now s
    r.output ++ (config.protocol.play r.state (callbacksOn t acts)).output
  | _ => []

def causeOf : Option Cause :=
  match parts.getLast?.map (Part.fate config) with
  | some (.error cause) => some cause
  | _ => none

/-- No byte of a connection is lost, doubled or moved. `c` is what became of it. -/
structure Intact (acts : List Act) (c : Option (Connection σ)) : Prop where
  passed : passedTo t acts <+: returned config parts
  whole : (∀ e, causeOf config parts ≠ some (.unread e)) →
    passedTo t acts = returned config parts
  pending {d : Connection σ} : c = some d → sentTo t acts ++ d.output = appended config t parts acts
  /-- Also in the middle of a step, the socket has taken the front of what was appended. -/
  front {front : List Act} : front <+: acts → sentTo t front <+: appended config t parts front
  complete {cause : Cause} : causeOf config parts = some cause → cause.isPatient →
    sentTo t acts = appended config t parts acts
  ended : parts ≠ [] → (c = none ↔ (causeOf config parts).isSome)

end Lives

section Moments

variable {hooks : Hooks η} {config : Config σ} {l : Loop σ η} {h : History σ η} {t : Token}
  {parts : List (Part σ)} {v : View σ}

theorem Balanced.enter (env : Surroundings) (context : Context) (s : σ) :
    Balanced config t (({ context, state := s } : Connection σ).apply
        (config.protocol.opened env.now s)) []
      (Part.fate config (.enters env context s))
      (Connection.enter config t env.now env.registered context s) := by
  have hopened (c : Connection σ) (stays : Bool) :
      Balanced config t c [] (.ok c) (some c, [.opened t stays]) :=
    .single (Nat.le_refl 1) rfl (List.append_nil _).symm rfl (by simp)
  simp only [Part.fate, Connection.enter]
  split
  · exact (hopened _ _).trans (.rearm env.registered)
  · exact (hopened _ _).trans (.cut rfl)

/-- From its first callback on, all that happens to a connection is balanced. -/
theorem Life.balanced {own : σ → Prop} (hm : config.protocol.Modest own)
    (h : Life config t parts v) (hs : ∀ s ∈ handlerOf parts, own s) (hp : parts ≠ []) :
    ∃ (born : Connection σ) (fate : Fate σ),
      (∀ acts, appended config t parts acts =
        born.output ++ (config.protocol.play born.state (callbacksOn t acts)).output) ∧
      own born.state ∧ parts.getLast?.map (Part.fate config) = some fate ∧
      Balanced config t born (returned config parts) fate v := by
  induction h with
  | new => exact absurd rfl hp
  | @enters context s env hb =>
    exact ⟨_, _, fun acts ↦ rfl, hm.own_opened env.now (hs s rfl), rfl, .enter env context s⟩
  | @touched parts c acts x ht h ih =>
    have hne : parts ≠ [] := h.ne_nil rfl
    obtain ⟨part, rest, rfl⟩ := List.exists_cons_of_ne_nil hne
    obtain ⟨born, fate, happ, hborn, -, hb⟩ := ih hs hne
    obtain rfl : fate = .ok c := hb.fate_eq rfl
    subst ht
    have hc : own c.state := by
      rw [hb.state rfl]
      exact hm.own_play _ hborn
    refine ⟨born, x.fate config c, fun acts ↦ ?_, hborn, ?_, ?_⟩
    · exact happ acts
    · rw [List.getLast?_concat]
      rfl
    · have ht := hb.trans (.touch hm x hc)
      rw [returned, List.flatMap_append, List.flatMap_singleton]
      exact ht

theorem Life.own {own : σ → Prop} (hm : config.protocol.Modest own) (h : Life config t parts v)
    (hs : ∀ s ∈ handlerOf parts, own s) {c : Connection σ} (hc : v.1 = some c) : own c.state := by
  obtain ⟨born, fate, -, hborn, -, hb⟩ := h.balanced hm hs (h.ne_nil hc)
  rw [hb.state (hb.fate_eq hc)]
  exact hm.own_play _ hborn

theorem Life.not_closed {own : σ → Prop} (hm : config.protocol.Modest own)
    (h : Life config t parts v) (hs : ∀ s ∈ handlerOf parts, own s) {c : Connection σ}
    (hc : v.1 = some c) : .closed t ∉ v.2 := by
  obtain ⟨born, fate, -, -, -, hb⟩ := h.balanced hm hs (h.ne_nil hc)
  exact hb.gone (hb.fate_eq hc)

theorem Life.intact {own : σ → Prop} (hm : config.protocol.Modest own)
    (h : Life config t parts v) (hs : ∀ s ∈ handlerOf parts, own s) :
    Intact config t parts v.2 v.1 := by
  by_cases hp : parts = []
  · subst hp
    obtain rfl := h.eq_of_nil
    refine ⟨List.prefix_rfl, fun _ ↦ rfl, nofun, fun hf ↦ ?_, nofun, absurd rfl⟩
    rw [List.prefix_nil.1 hf]
    exact List.prefix_rfl
  · obtain ⟨born, fate, happ, -, hlast, hb⟩ := h.balanced hm hs hp
    have hcause (cause : Cause) : causeOf config parts = some cause ↔ fate = .error cause := by
      rw [causeOf, hlast]
      cases fate with
      | ok c => exact ⟨nofun, nofun⟩
      | error e => exact ⟨fun h ↦ by cases h; rfl, fun h ↦ by cases h; rfl⟩
    constructor
    · exact hb.passed
    · intro he
      exact hb.whole fun e h ↦ he e ((hcause _).2 h)
    · intro d hd
      rw [happ]
      exact hb.pending (hb.fate_eq hd)
    · intro front hf
      rw [happ]
      exact hb.front hf
    · intro cause hc hpat
      rw [happ]
      exact hb.complete ((hcause _).1 hc) hpat
    · intro _
      rw [hb.view, causeOf, hlast]
      cases fate with
      | ok c => exact ⟨nofun, nofun⟩
      | error e => exact ⟨fun _ ↦ rfl, fun _ ↦ rfl⟩

/-- Whatever its socket answers, at every moment of a loop and for every connection whose handler
is an offered one: the data given to the handler are the bytes that the socket returned, in order,
all of them unless that failed or was too much; what the socket took and what is pending is all
that the handler appended; and nothing of that is pending when the connection is closed because
the handler is done or the peer has finished. -/
theorem Moment.streams_intact {own new : σ → Prop} (ho : Offered config.protocol own new)
    (hm : Moment hooks config h l) (hs : ∀ s ∈ handlerOf (h.parts hooks config t), own s) :
    Intact config t (h.parts hooks config t) (h.acts hooks config) (l.find? t) := by
  have hi := (hm.life t).intact ho.modest hs
  have hsent (acts : List Act) : sentTo t (acts.filter (·.token? == some t)) = sentTo t acts :=
    sentTo_view t (l, acts)
  have happ (acts : List Act) : appended config t (h.parts hooks config t)
      (acts.filter (·.token? == some t)) = appended config t (h.parts hooks config t) acts := by
    simp only [appended, callbacksOn_filter]
  constructor
  · have hp := hi.passed
    rwa [passedTo, Loop.view, callbacksOn_filter] at hp
  · have hw := hi.whole
    rwa [passedTo, Loop.view, callbacksOn_filter] at hw
  · intro d hd
    have hp := hi.pending hd
    rwa [Loop.view, hsent, happ] at hp
  · intro front hf
    have hp := hi.front (hf.filter (·.token? == some t))
    rwa [hsent, happ] at hp
  · intro cause hc hpat
    have hp := hi.complete hc hpat
    rwa [Loop.view, hsent, happ] at hp
  · exact hi.ended

/-- Half an answer is written when the loop ends. -/
theorem streams_intact_halfAnswer :
    let config : Config Http.Session :=
      { protocol := Http.Session.protocol .greeting, build := fun _ ↦ .ok {}, maxBuffer := 1024 }
    let r := (({ hooks := firstId } : Loop _ UInt64).run .standalone config
      [acceptance, halfAnswer]).2
    ∃ h, Moment .standalone config h r.1 ∧ h.acts .standalone config = r.2 ∧
      Intact config 1 (h.parts .standalone config 1) (h.acts .standalone config) (r.1.find? 1) ∧
      sentTo 1 r.2 = Utf8.encode "HTTP/1.1 " ∧
      passedTo 1 r.2 = Utf8.encode "GET / HTTP/1.1\r\n\r\nGET" := by
  intro config r
  obtain ⟨h, hp, ha⟩ : Loop.Stepwise .standalone config { hooks := firstId } r := .run _ _
  have hm : Moment .standalone config h r.1 := ⟨firstId, hp⟩
  refine ⟨h, hm, ha, ?_, by decide +kernel, by decide +kernel⟩
  exact hm.streams_intact (.http .greeting) fun _ _ ↦ trivial

end Moments

end Prefork.Server
