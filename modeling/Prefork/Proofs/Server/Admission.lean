import Prefork.Proofs.Gathering
import Prefork.Proofs.Server.Backpressure

namespace Prefork.Server

open Callback (inputs)
open Connection (delivered)
open Http (Head)
open Reading (Steady)

variable {σ η : Type}

structure Readiness.Calm (r : Readiness) : Prop where
  error : r.error = false
  reads : ∀ read ∈ r.reads, read.isFailure = false
  finished : (delivered r.reads).finished = false
  reply : r.reply.Sound

def Touch.Calm : Touch → Prop
  | send _ outcome => outcome.Sound
  | react r => r.Calm
  | close _ => False

def Touch.arriving : Touch → Bytes
  | react r => if r.readable then (delivered r.reads).data else []
  | send .. | close _ => []

namespace Part

def Calm : Part σ → Prop
  | enters .. => False
  | touched x _ => x.Calm

def arriving : Part σ → Bytes
  | enters .. => []
  | touched x _ => x.arriving

end Part

def rounds (parts : List (Part σ)) : List Bytes := (parts.map Part.arriving).filter (!·.isEmpty)

theorem rounds_concat (parts : List (Part σ)) (part : Part σ) :
    rounds (parts ++ [part]) =
      rounds parts ++ if part.arriving = [] then [] else [part.arriving] := by
  rw [rounds, List.map_append, List.filter_append]
  cases h : part.arriving <;> simp [rounds, h]

/-- With what is held behind those before, each round stays below the limit. -/
def Fits (held : Bytes → Nat) (max : Nat) (rounds : List Bytes) : Prop :=
  ∀ before data, before ++ [data] <+: rounds → held before.flatten + data.length ≤ max

theorem fits_nil (held : Bytes → Nat) (max : Nat) : Fits held max [] := fun _ _ h ↦
  absurd (List.prefix_nil.1 h) (List.concat_ne_nil _ _)

theorem fits_concat {held : Bytes → Nat} {max : Nat} {rounds : List Bytes} {data : Bytes} :
    Fits held max (rounds ++ [data]) ↔
      Fits held max rounds ∧ held rounds.flatten + data.length ≤ max := by
  constructor
  · intro h
    exact ⟨fun before d hp ↦ h before d (hp.trans (List.prefix_append ..)),
      h rounds data List.prefix_rfl⟩
  · rintro ⟨h, hd⟩ before d hp
    rcases List.prefix_concat_iff.1 hp with he | hp
    · obtain ⟨rfl, hlast⟩ := List.append_inj' he rfl
      cases hlast
      exact hd
    · exact h before d hp

namespace Connection

variable (config : Config σ) {c : Connection σ} {outcome : WriteOutcome}

theorem sendFate_sound (h : outcome.Sound) (hc : c.closing = false) :
    (∃ d, c.sendFate config outcome = .ok d ∧ d.closing = false) ∨
      c.sendFate config outcome = .error .done ∧
        (config.protocol.drained c.state).stays = false := by
  have herr : (flush c.output outcome.results).error = none := error_flush h.results
  simp only [sendFate, herr, hc, rearmFate, h.rearmed, if_true, Bool.false_eq_true, if_false]
  split
  · exact .inl ⟨_, rfl, rfl⟩
  · split
    · exact .inl ⟨_, rfl, rfl⟩
    · next hs => exact .inr ⟨rfl, by simpa using hs⟩

theorem answerFate_sound (h : outcome.Sound) (hc : c.closing = false) :
    (∃ d, c.answerFate config false outcome = .ok d ∧ d.closing = false) ∨
      c.answerFate config false outcome = .error .done ∧
        (config.protocol.drained c.state).stays = false := by
  rw [answerFate]
  split
  · refine .inl ⟨{ c with armed := c.interest }, ?_, hc⟩
    simp only [rearmFate, h.rearmed, Bool.false_eq_true, if_true, if_false]
  · exact sendFate_sound config h rfl

end Connection

namespace Touch.Calm

variable {config : Config σ} {c : Connection σ} {x : Touch}

/-- Too much at once closes a connection, and its handler sees nothing of it. -/
theorem overflows (hx : x.Calm) (hc : c.closing = false)
    (hle : config.protocol.buffered c.state ≤ config.maxBuffer)
    (hover : config.maxBuffer < config.protocol.buffered c.state + x.arriving.length) :
    (∃ size limit, x.fate config c = .error (.unread (.bufferFull size limit))) ∧
      x.act config c = Connection.close x.token := by
  cases x with
  | send t outcome => exact absurd hle (Nat.not_le.2 hover)
  | close t => exact hx.elim
  | react r =>
    have herror := hx.error
    cases hr : r.readable with
    | false =>
      simp only [arriving, hr, Bool.false_eq_true, if_false] at hover
      exact absurd hle (Nat.not_le.2 hover)
    | true =>
      simp only [arriving, hr, if_true] at hover
      obtain ⟨size, limit, hread⟩ : ∃ size limit, Connection.readFrom
          (config.protocol.buffered c.state) config.maxBuffer [] r.reads =
            .error (.bufferFull size limit) :=
        Connection.readFrom_bufferFull (by simpa using hle) (by rw [List.length_nil]; omega)
      refine ⟨⟨size, limit, ?_⟩, ?_⟩
      · simp only [fate, herror, hr, Connection.receiveFate, hc, hread, Bool.false_eq_true,
          if_true, if_false]
      · simp only [act, Connection.react, herror, hr, Connection.receive, hc, hread,
          Bool.false_eq_true, if_true, if_false]
        rfl

/-- Otherwise the handler gets all of it, and only the handler can end the connection. -/
theorem takes (hx : x.Calm) (hc : c.closing = false)
    (hfits : config.protocol.buffered c.state + x.arriving.length ≤ config.maxBuffer)
    (hstays : x.arriving ≠ [] → (config.protocol.received x.arriving c.state).stays = true) :
    x.given config c = x.arriving ∧
      ((∃ d, x.fate config c = .ok d ∧ d.closing = false) ∨
        x.fate config c = .error .done ∧ ∃ calls, inputs calls = x.arriving ∧
          (config.protocol.drained (config.protocol.play c.state calls).state).stays = false) := by
  cases x with
  | send t outcome =>
    exact ⟨rfl, (Connection.sendFate_sound config hx hc).imp_right
      (And.imp_right fun hd ↦ ⟨[], rfl, hd⟩)⟩
  | close t => exact hx.elim
  | react r =>
    obtain ⟨herror, hreads, hfinished, hreply⟩ : r.Calm := hx
    cases hr : r.readable with
    | false =>
      simp only [given, arriving, fate, herror, hr, Bool.not_false, Bool.or_true, Bool.true_or,
        if_true, Bool.false_eq_true, if_false]
      exact ⟨trivial, .inl ⟨c, rfl, hc⟩⟩
    | true =>
      simp only [arriving, hr, if_true] at hfits hstays
      have hread : Connection.readFrom (config.protocol.buffered c.state) config.maxBuffer []
          r.reads = .ok (delivered r.reads) :=
        Connection.readFrom_eq hreads (by rw [List.length_nil]; omega)
      have hgiven := Connection.readFrom_given hread
      rw [List.nil_append, List.length_nil, Nat.zero_add] at hgiven
      simp only [given, arriving, fate, herror, hr, hc, Bool.not_true, Bool.or_false,
        Bool.false_eq_true, if_true, if_false, ← hgiven, Connection.receiveFate, hread]
      generalize delivered r.reads = d at hfinished hstays
      obtain ⟨data, finished⟩ := d
      obtain rfl : finished = false := hfinished
      refine ⟨trivial, ?_⟩
      cases data with
      | nil =>
        exact (Connection.answerFate_sound config hreply hc).imp_right
          (And.imp_right fun hd ↦ ⟨[], rfl, hd⟩)
      | cons b data =>
        have hs := hstays (List.cons_ne_nil b data)
        have happ : (c.apply (config.protocol.received (b :: data) c.state)).closing = false := hc
        simp only [hs, if_true]
        exact (Connection.answerFate_sound config hreply happ).imp_right
          (And.imp_right fun hd ↦ ⟨[.read (b :: data)], List.append_nil _, hd⟩)

end Touch.Calm

inductive Verdict (p : Protocol σ) (message : Bytes) (rests : σ → Prop) (fits : Prop)
    (arrived passed : Bytes) : Fate σ → Prop
  | opened {c : Connection σ} : fits → passed = arrived → c.closing = false →
      Verdict p message rests fits arrived passed (.ok c)
  | done {s : σ} : fits → passed = arrived → arrived = message → rests s →
      (p.drained s).stays = false → Verdict p message rests fits arrived passed (.error .done)
  | overflow (size limit : Nat) : ¬ fits → passed <+: message → passed ≠ message →
      Verdict p message rests fits arrived passed (.error (.unread (.bufferFull size limit)))

section Runs

open Protocol.Gathers (Has)

variable {hooks : Hooks η} {config : Config σ} {own new : σ → Prop} {message answer given : Bytes}
  {held : Bytes → Nat} {waits : Bytes → σ → Prop} {rests : σ → Prop} {t : Token}
  {c d : Connection σ} {acts : List Act} {x : Touch}

theorem Balanced.has (hg : config.protocol.Gathers message held answer waits rests)
    (hw : waits [] c.state) (hb : Balanced config t c given (.ok d) (some d, acts))
    (ha : passedTo t acts <+: message) :
    Has message waits rests (passedTo t acts) d.state := by
  have hfirst : Has message waits rests [] c.state :=
    ⟨fun _ ↦ hw, fun he ↦ absurd he (hg.short hw)⟩
  rw [hb.state rfl]
  exact hg.has_play hfirst ha

theorem Touch.Calm.verdict (hg : config.protocol.Gathers message held answer waits rests)
    (hm : config.protocol.Modest own) (hx : x.Calm) (hown : own d.state)
    (hclosing : d.closing = false) {b : Bytes} (hd : Has message waits rests b d.state)
    (ha : b ++ x.arriving <+: message)
    (hfits : config.protocol.buffered d.state + x.arriving.length ≤ config.maxBuffer)
    {fits : Prop} (hf : fits) (hp : passedTo x.token acts = b) :
    Verdict config.protocol message rests fits (b ++ x.arriving)
      (passedTo x.token (acts ++ (x.act config d).2)) (x.fate config d) := by
  have hstays (hne : x.arriving ≠ []) :
      (config.protocol.received x.arriving d.state).stays = true := by
    have hb : b ≠ message := by
      rintro rfl
      exact hne (Bytes.eq_nil_of_append_prefix ha)
    by_cases he : b ++ x.arriving = message
    · exact (hg.whole (hd.waits hb) he).2.1
    · obtain ⟨next, hn, -⟩ := hg.front (hd.waits hb) ha he
      rw [hn]
  obtain ⟨hgiven, hfate⟩ := hx.takes hclosing hfits hstays
  have hb : Balanced config x.token d _ (x.fate config d) (x.act config d) := .touch hm x hown
  have hpassed : passedTo x.token (acts ++ (x.act config d).2) = b ++ x.arriving := by
    rw [passedTo_append, hp, ← hgiven, hb.whole]
    rcases hfate with ⟨e, he, -⟩ | ⟨he, -⟩ <;> rw [he] <;> nofun
  rcases hfate with ⟨e, he, hopen⟩ | ⟨he, calls, hcalls, hends⟩
  · rw [he]
    exact .opened hf hpassed hopen
  · rw [he]
    have hlast := hg.has_play hd (hcalls.symm ▸ ha)
    rw [hcalls] at hlast
    by_cases hall : b ++ x.arriving = message
    · exact .done hf hpassed hall (hlast.rests hall) hends
    · -- A handler that waits for more does not end the connection.
      rw [hg.drained (hlast.waits hall)] at hends
      cases hends

theorem rounds_touched (parts : List (Part σ)) (x : Touch) (d : Connection σ) :
    (rounds (parts ++ [.touched x d])).flatten = (rounds parts).flatten ++ x.arriving := by
  rw [rounds_concat, List.flatten_append]
  show _ ++ (if x.arriving = [] then [] else [x.arriving]).flatten = _
  split
  · next he => rw [he, List.flatten_nil]
  · rw [List.flatten_singleton]

theorem Verdict.touch {parts : List (Part σ)}
    (hv : Verdict config.protocol message rests (Fits held config.maxBuffer (rounds parts))
      (rounds parts).flatten (passedTo x.token acts) (.ok d))
    (hg : config.protocol.Gathers message held answer waits rests)
    (hm : config.protocol.Modest own) (hw : waits [] c.state)
    (hb : Balanced config x.token c given (.ok d) (some d, acts)) (hown : own d.state)
    (hle : config.protocol.buffered d.state ≤ config.maxBuffer) (hx : x.Calm)
    (ha : (rounds (parts ++ [.touched x d])).flatten <+: message) :
    Verdict config.protocol message rests
      (Fits held config.maxBuffer (rounds (parts ++ [.touched x d])))
      (rounds (parts ++ [.touched x d])).flatten
      (passedTo x.token (acts ++ (x.act config d).2)) (x.fate config d) := by
  rw [rounds_touched] at ha ⊢
  cases hv with
  | opened hfits hpassed hclosing =>
    have hd := hb.has hg hw (hpassed ▸ (List.prefix_append ..).trans ha)
    rw [hpassed] at hd
    by_cases harr : x.arriving = []
    · have hsame : rounds (parts ++ [.touched x d]) = rounds parts := by
        rw [rounds_concat, if_pos (show Part.arriving (.touched x d) = [] from harr),
          List.append_nil]
      rw [hsame]
      refine hx.verdict hg hm hown hclosing hd ha ?_ hfits hpassed
      rw [harr]
      exact hle
    · have hmore : rounds (parts ++ [.touched x d]) = rounds parts ++ [x.arriving] := by
        rw [rounds_concat]
        exact congrArg _ (if_neg harr)
      have hne : (rounds parts).flatten ≠ message := by
        intro he
        exact harr (Bytes.eq_nil_of_append_prefix (he.symm ▸ ha))
      have hheld := hg.buffered (hd.waits hne)
      rw [hmore, fits_concat, ← hheld]
      by_cases hfit : config.protocol.buffered d.state + x.arriving.length ≤ config.maxBuffer
      · exact hx.verdict hg hm hown hclosing hd ha hfit ⟨hfits, hfit⟩ hpassed
      · obtain ⟨⟨size, limit, hfate⟩, hact⟩ := hx.overflows hclosing hle (Nat.not_le.1 hfit)
        have hsame : passedTo x.token (acts ++ (x.act config d).2) = (rounds parts).flatten := by
          rw [passedTo_append, hpassed, hact]
          exact List.append_nil _
        rw [hfate, hsame]
        exact .overflow size limit (fun h ↦ hfit h.2) ((List.prefix_append ..).trans ha) hne

def fateOf (config : Config σ) (c : Connection σ) (parts : List (Part σ)) : Fate σ :=
  (parts.getLast?.map (Part.fate config)).getD (.ok c)

/-- From a moment when its handler waits for a message, a connection is judged by what arrives. -/
theorem Passes.verdict {past h : History σ η} {l m : Loop σ η}
    (hp : Passes hooks config l h m) (hg : config.protocol.Gathers message held answer waits rests)
    (ho : Offered config.protocol own new)
    (hn : ∀ context s, config.build context = .ok s → new s) (hm : Moment hooks config past l)
    (hc : l.find? t = some c) (hclosing : c.closing = false) (hw : waits [] c.state)
    (hcalm : ∀ part ∈ h.parts hooks config t, part.Calm)
    (ha : (rounds (h.parts hooks config t)).flatten <+: message) :
    Balanced config t c (returned config (h.parts hooks config t))
        (fateOf config c (h.parts hooks config t)) (Loop.view t (m, h.acts hooks config)) ∧
      Verdict config.protocol message rests
        (Fits held config.maxBuffer (rounds (h.parts hooks config t)))
        (rounds (h.parts hooks config t)).flatten
        (passedTo t (Loop.view t (m, h.acts hooks config)).2)
        (fateOf config c (h.parts hooks config t)) := by
  induction hp with
  | refl =>
    have hview : Loop.view t (l, History.acts hooks config []) = (some c, []) :=
      congrArg (·, []) hc
    rw [hview]
    exact ⟨.single (Nat.zero_le 1) rfl (List.append_nil _).symm rfl nofun,
      .opened (fits_nil _ _) rfl hclosing⟩
  | @step h m s hp ih =>
    have hm' : Moment hooks config (past ++ h) m := hm.passes hp
    rw [History.parts_step] at hcalm ha ⊢
    cases hpart : s.part? hooks config t m with
    | none =>
      rw [hpart, Option.toList_none, List.append_nil] at hcalm ha
      rw [History.view_step_none hm'.ordered hpart, Option.toList_none, List.append_nil]
      exact ih hcalm ha
    | some part =>
      rw [hpart] at hcalm ha
      rw [History.view_step_some hm'.ordered hpart]
      cases part with
      | enters env context state =>
        exact (hcalm _ (List.mem_append_right _ List.mem_cons_self)).elim
      | touched x d =>
        obtain ⟨rfl, rfl, hd⟩ := Step.part?_touched hpart
        have hx : x.Calm := hcalm _ (List.mem_append_right _ List.mem_cons_self)
        have hfront : (rounds (h.parts hooks config x.token)).flatten <+: message := by
          rw [Option.toList_some, rounds_touched] at ha
          exact (List.prefix_append ..).trans ha
        obtain ⟨hb, hv⟩ := ih (fun part hmem ↦ hcalm part (List.mem_append_left _ hmem)) hfront
        have hstart : ∀ s ∈ handlerOf ((past ++ h).parts hooks config x.token), new s := by
          intro s hs
          obtain ⟨context, hs⟩ := (hm'.life x.token).build_handlerOf hs
          exact hn context s hs
        obtain ⟨hown, hle⟩ := (hm'.life x.token).buffered_le ho hstart hd
        have hfate : fateOf config c (h.parts hooks config x.token) = .ok d := hb.fate_eq hd
        have hlast : fateOf config c (h.parts hooks config x.token ++ [.touched x d]) =
            x.fate config d := by
          rw [fateOf, List.getLast?_concat]
          rfl
        rw [hfate, Loop.view, hd] at hb hv
        rw [Option.toList_some, hlast, returned, List.flatMap_append, List.flatMap_singleton]
        exact ⟨hb.trans (.touch ho.modest x hown), hv.touch hg ho.modest hw hb hown hle hx ha⟩

/-- What comes of a message, or of a front of it, on the connection `c`. -/
structure Heard (config : Config σ) (t : Token) (message answer : Bytes) (rests : σ → Prop)
    (fits : Prop) (c : Connection σ) (parts : List (Part σ)) (acts : List Act)
    (last : Option (Connection σ)) : Prop where
  taken : fits → (∀ e, causeOf config parts ≠ some (.unread e)) ∧
    passedTo t acts = (rounds parts).flatten
  answered : fits → (rounds parts).flatten = message →
    sentTo t acts ++ (last.map (·.output)).getD [] = c.output ++ answer ∧
      (∀ d, last = some d → rests d.state) ∧
      (last = none → ∃ s, rests s ∧ (config.protocol.drained s).stays = false)
  refused : ¬ fits → last = none ∧
    (∃ size limit, causeOf config parts = some (.unread (.bufferFull size limit))) ∧
    passedTo t acts ≠ message ∧ sentTo t acts <+: c.output

/-- From any moment at which the handler of a connection is in a state that `ready` describes,
whatever happens on other connections, a message is heard if its rounds fit. -/
def Admits (hooks : Hooks η) (config : Config σ) (ready : σ → Prop) (message answer : Bytes)
    (rests : σ → Prop) (fits : List Bytes → Prop) : Prop :=
  ∀ ⦃past h : History σ η⦄ ⦃l m : Loop σ η⦄ ⦃t : Token⦄ ⦃c : Connection σ⦄,
    Moment hooks config past l → l.find? t = some c → c.closing = false → ready c.state →
    Passes hooks config l h m → (∀ part ∈ h.parts hooks config t, part.Calm) →
    (rounds (h.parts hooks config t)).flatten <+: message →
    Heard config t message answer rests (fits (rounds (h.parts hooks config t))) c
      (h.parts hooks config t) (h.acts hooks config) (m.find? t)

theorem causeOf_eq (config : Config σ) (c : Connection σ) (parts : List (Part σ)) :
    causeOf config parts = match fateOf config c parts with
      | .ok _ => none
      | .error cause => some cause := by
  rw [causeOf, fateOf]
  cases parts.getLast?.map (Part.fate config) with
  | none => rfl
  | some fate => cases fate <;> rfl

theorem Balanced.heard {v : View σ} {fate : Fate σ} {parts : List (Part σ)} {fits : Prop}
    (hb : Balanced config t c given fate v)
    (hg : config.protocol.Gathers message held answer waits rests)
    (hw : waits [] c.state) (hf : fateOf config c parts = fate)
    (hv : Verdict config.protocol message rests fits (rounds parts).flatten (passedTo t v.2) fate) :
    Heard config t message answer rests fits c parts v.2 v.1 := by
  have hcause := causeOf_eq config c parts
  rw [hf] at hcause
  have hplay (ha : passedTo t v.2 <+: message) := hg.play (callbacksOn t v.2) hw ha
  cases hv with
  | @opened d hfits hpassed hclosing =>
    refine ⟨fun _ ↦ ⟨?_, hpassed⟩, fun _ hall ↦ ?_, absurd hfits⟩
    · rw [hcause]
      nofun
    · obtain ⟨ho, hr⟩ := (hplay (hpassed.trans hall ▸ List.prefix_rfl)).2 (hpassed.trans hall)
      rw [hb.view, ← ho]
      refine ⟨hb.pending rfl, ?_, nofun⟩
      intro e he
      cases he
      rw [hb.state rfl]
      exact hr
  | @done s hfits hpassed hall hr hends =>
    refine ⟨fun _ ↦ ⟨?_, hpassed⟩, fun _ _ ↦ ?_, absurd hfits⟩
    · rw [hcause]
      nofun
    · obtain ⟨ho, -⟩ := (hplay (hpassed.trans hall ▸ List.prefix_rfl)).2 (hpassed.trans hall)
      rw [hb.view, ← ho]
      exact ⟨(List.append_nil _).trans (hb.complete rfl rfl), nofun, fun _ ↦ ⟨s, hr, hends⟩⟩
  | overflow size limit hfits hpre hne =>
    refine ⟨fun h ↦ absurd h hfits, fun h ↦ absurd h hfits, fun _ ↦ ?_⟩
    have hsent := hb.front List.prefix_rfl
    rw [((hplay hpre).1 hne).1, List.append_nil] at hsent
    exact ⟨hb.view, ⟨size, limit, hcause⟩, hne, hsent⟩

theorem admits_of_gathers (hooks : Hooks η)
    (hg : config.protocol.Gathers message held answer waits rests)
    (ho : Offered config.protocol own new)
    (hn : ∀ context s, config.build context = .ok s → new s) :
    Admits hooks config (waits []) message answer rests (Fits held config.maxBuffer) := by
  intro past h l m t c hm hc hclosing hw hp hcalm ha
  obtain ⟨hb, hv⟩ := hp.verdict hg ho hn hm hc hclosing hw hcalm ha
  have hheard := hb.heard hg hw rfl hv
  have hpassed : passedTo t (Loop.view t (m, h.acts hooks config)).2 =
      passedTo t (h.acts hooks config) := congrArg inputs (callbacksOn_filter t _)
  have hsent : sentTo t (Loop.view t (m, h.acts hooks config)).2 = sentTo t (h.acts hooks config) :=
    sentTo_view t (m, h.acts hooks config)
  obtain ⟨htaken, hanswered, hrefused⟩ := hheard
  rw [hpassed] at htaken hrefused
  rw [hsent] at hanswered hrefused
  exact ⟨htaken, hanswered, hrefused⟩

theorem fits_length_iff {max : Nat} {rounds : List Bytes} :
    Fits List.length max rounds ↔ rounds.flatten.length ≤ max := by
  constructor
  · intro h
    rcases List.eq_nil_or_concat rounds with rfl | ⟨before, data, rfl⟩
    · exact Nat.zero_le max
    · have hlast := h before data (List.concat_eq_append ▸ List.prefix_rfl)
      rw [List.concat_eq_append, List.flatten_append, List.length_append, List.flatten_singleton]
      exact hlast
  · rintro h before data ⟨more, rfl⟩
    rw [List.flatten_append, List.flatten_append, List.length_append, List.length_append,
      List.flatten_singleton] at h
    omega

def HeadFits (max : Nat) (rounds : List Bytes) : Prop :=
  ∀ before data, before ++ [data] <+: rounds → (Head.read before.flatten).isIncomplete →
    (before.flatten ++ data).length ≤ max

theorem HeadFits.of_length_le {max : Nat} {rounds : List Bytes}
    (h : rounds.flatten.length ≤ max) : HeadFits max rounds := by
  rintro before data ⟨more, rfl⟩ -
  rw [List.flatten_append, List.flatten_append, List.flatten_singleton, List.length_append] at h
  omega

/-- Behind the head, what is held and what arrives are the body. -/
theorem fits_kept_iff {max : Nat} {head : Head} {body : Bytes} {rounds : List Bytes}
    (hs : Steady Head.read message) (hm : Head.read message = .complete head body)
    (hbody : body.length ≤ max) (hr : rounds.flatten <+: message) :
    Fits (fun b ↦ (Http.Parser.kept b).2.length) max rounds ↔ HeadFits max rounds := by
  refine forall_congr' fun before ↦ forall_congr' fun data ↦ forall_congr' fun hp ↦ ?_
  obtain ⟨more, rfl⟩ := hp
  rw [List.flatten_append, List.flatten_append, List.flatten_singleton, List.append_assoc] at hr
  obtain ⟨last, rfl⟩ := hr
  rw [List.append_assoc] at hs hm
  dsimp only [Http.Parser.kept]
  cases hb : Head.read before.flatten with
  | incomplete n =>
    simp only [Reading.isIncomplete, List.length_append, forall_const]
  | invalid e => cases (hs.invalid hb).symm.trans hm
  | complete h rest =>
    cases (hs.complete hb).symm.trans hm
    simp only [List.length_append] at hbody
    exact iff_of_true (by dsimp only; omega) fun h ↦ absurd h Bool.false_ne_true

theorem Admits.imp {ready ready' rests rests' : σ → Prop} {fits fits' : List Bytes → Prop}
    (h : Admits hooks config ready message answer rests fits)
    (hready : ∀ ⦃past : History σ η⦄ ⦃l : Loop σ η⦄ ⦃t : Token⦄ ⦃c : Connection σ⦄,
      Moment hooks config past l → l.find? t = some c → ready' c.state → ready c.state)
    (hrests : ∀ s, rests s → rests' s)
    (hfits : ∀ rounds : List Bytes, rounds.flatten <+: message → (fits rounds ↔ fits' rounds)) :
    Admits hooks config ready' message answer rests' fits' := by
  intro past h' l m t c hm hc hclosing hw hp hcalm ha
  have hh := h hm hc hclosing (hready hm hc hw) hp hcalm ha
  rw [propext (hfits _ ha)] at hh
  refine ⟨hh.taken, fun hf hall ↦ ?_, hh.refused⟩
  obtain ⟨hsent, hlast, hends⟩ := hh.answered hf hall
  refine ⟨hsent, fun d hd ↦ hrests _ (hlast d hd), fun he ↦ ?_⟩
  obtain ⟨s, hs, hstays⟩ := hends he
  exact ⟨s, hrests s hs, hstays⟩

end Runs

end Prefork.Server
