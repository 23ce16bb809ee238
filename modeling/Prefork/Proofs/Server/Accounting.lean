import Prefork.Proofs.Server.Gating

namespace Prefork.Server

open Loop (Run)

variable {σ η : Type}

def Act.isCallback : Act → Bool
  | opened .. | received .. | drained .. | closed _ => true
  | _ => false

def Act.isService : Act → Bool
  | received .. | drained .. => true
  | _ => false

def callsOn (t : Token) (acts : List Act) : List Act :=
  (acts.filter (·.token? == some t)).filter Act.isCallback

def View.Serves (t : Token) (v : View σ) : Prop :=
  ∃ between, v.2.filter Act.isCallback = between ++ (if v.1.isSome then [] else [.closed t]) ∧
    ∀ a ∈ between, a.isService = true

theorem View.Serves.behind {t : Token} {v : View σ} {acts : List Act} (h : v.Serves t)
    (ha : ∀ a ∈ acts, a.isCallback = true → a.isService = true) : (v.behind acts).Serves t := by
  obtain ⟨between, he, hbetween⟩ := h
  refine ⟨acts.filter Act.isCallback ++ between, ?_, fun a hm ↦ ?_⟩
  · rw [View.behind, List.filter_append, he, List.append_assoc]
  · rcases List.mem_append.1 hm with hm | hm
    · obtain ⟨hm, hc⟩ := List.mem_filter.1 hm
      exact ha a hm hc
    · exact hbetween a hm

namespace Connection

open View (Serves)

variable (config : Config σ)

theorem serves_close (t : Token) : Serves t (close t : View σ) := ⟨[], rfl, List.forall_mem_nil _⟩

theorem serves_rearm (t : Token) (rearmed : Bool) (c : Connection σ) :
    Serves t (c.rearm t rearmed) := by
  cases rearmed with
  | false => exact serves_close t
  | true => exact ⟨[], rfl, List.forall_mem_nil _⟩

theorem serves_send (t : Token) (outcome : WriteOutcome) (c : Connection σ) :
    Serves t (c.send config t outcome) := by
  rw [send]
  dsimp only
  generalize hs : (if (flush c.output outcome.results).sent.isEmpty then []
    else [Act.sent t (flush c.output outcome.results).sent]) = sent
  have hsent : ∀ a ∈ sent, a.isCallback = true → a.isService = true := by
    rw [← hs]
    split <;> simp [Act.isCallback]
  have hdrained (stays : Bool) :
      ∀ a ∈ sent ++ [.drained t stays], a.isCallback = true → a.isService = true := by
    intro a ha
    rcases List.mem_append.1 ha with ha | ha
    · exact hsent a ha
    · rw [List.mem_singleton.1 ha]
      exact fun _ ↦ rfl
  split
  · exact (serves_close t).behind hsent
  · split
    · exact (serves_rearm t _ _).behind hsent
    · split
      · exact (serves_close t).behind hsent
      · split
        · exact (serves_rearm t _ _).behind (hdrained _)
        · exact (serves_close t).behind (hdrained _)

theorem serves_answer (t : Token) (finished : Bool) (outcome : WriteOutcome) (c : Connection σ) :
    Serves t (c.answer config t finished outcome) := by
  rw [answer]
  split
  · split
    · exact serves_close t
    · exact serves_rearm t _ c
  · exact serves_send config t outcome _

theorem serves_receive (r : Readiness) (c : Connection σ) :
    Serves r.token (c.receive config r) := by
  rw [receive]
  split
  · exact ⟨[], rfl, List.forall_mem_nil _⟩
  · split
    · exact serves_close _
    · exact serves_answer config ..
    · dsimp only
      split
      · exact (serves_answer config ..).behind (by simp [Act.isService])
      · exact (serves_close _).behind (by simp [Act.isService])

theorem serves_react (r : Readiness) (c : Connection σ) : Serves r.token (c.react config r) := by
  rw [react]
  split
  · exact serves_close _
  · split
    · exact serves_receive config r c
    · exact ⟨[], rfl, List.forall_mem_nil _⟩

end Connection

theorem Touch.serves (config : Config σ) (x : Touch) (c : Connection σ) :
    (x.act config c).Serves x.token := by
  cases x with
  | send t outcome => exact Connection.serves_send config t outcome c
  | react r => exact Connection.serves_react config r c
  | close t => exact Connection.serves_close t

/-- A handler is told first that its connection was opened, and last, unless it is still open, that
it was closed. -/
def Attended (t : Token) (stillOpen : Bool) (calls : List Act) : Prop :=
  ∃ stays between, calls = .opened t stays :: between ++ (if stillOpen then [] else [.closed t]) ∧
    ∀ a ∈ between, a.isService = true

theorem Life.attended {config : Config σ} {t : Token} {parts : List (Part σ)} {v : View σ}
    (h : Life config t parts v) (hp : parts ≠ []) :
    Attended t v.1.isSome (v.2.filter Act.isCallback) := by
  induction h with
  | new => exact absurd rfl hp
  | @enters context s env hb =>
    have hserves : View.Serves t (if (config.protocol.opened env.now s).stays then
        (({ context, state := s } : Connection σ).apply
          (config.protocol.opened env.now s)).rearm t env.registered
        else Connection.close t) := by
      split
      · exact Connection.serves_rearm t _ _
      · exact Connection.serves_close t
    obtain ⟨between, he, hbetween⟩ := hserves
    exact ⟨_, between, congrArg (fun acts ↦ Act.opened t _ :: acts) he, hbetween⟩
  | @touched parts c acts x ht h ih =>
    obtain ⟨stays, before, he, hbefore⟩ := ih (h.ne_nil rfl)
    obtain ⟨between, he', hbetween⟩ := ht ▸ x.serves config c
    refine ⟨stays, before ++ between, ?_, fun a ha ↦ ?_⟩
    · rw [Option.isSome_some, if_pos rfl, List.append_nil] at he
      rw [View.behind, List.filter_append, he, he']
      simp
    · exact (List.mem_append.1 ha).elim (hbefore a) (hbetween a)

section Histories

variable {hooks : Hooks η} {config : Config σ} {h : History σ η} {l : Loop σ η} {t : Token}

theorem Moment.attended (hm : Moment hooks config h l) (ht : t ≠ 0) (hl : t < l.nextToken) :
    Attended t (l.find? t).isSome (callsOn t (h.acts hooks config)) := by
  have hlife := hm.life t
  refine hlife.attended fun hp ↦ ?_
  obtain ⟨hpos, hopened⟩ := hm.openedIn_acts
  have hmem : t ∈ openedIn (h.acts hooks config) := by
    rw [hopened, List.mem_range'_1, Nat.add_sub_of_le hpos]
    exact ⟨Nat.pos_of_ne_zero ht, hl⟩
  obtain ⟨a, ha, hat⟩ := List.mem_filterMap.1 hmem
  rw [hp] at hlife
  have hnil : (h.acts hooks config).filter (·.token? == some t) = [] :=
    congrArg Prod.snd hlife.eq_of_nil
  cases a with
  | opened u stays =>
    cases hat
    exact List.filter_eq_nil_iff.1 hnil _ ha (beq_self_eq_true (some t))
  | _ => cases hat

end Histories

namespace Loop

variable {l l' m : Loop σ η} {t : Token} {removed : List Token}

def gone (l l' : Loop σ η) : List Token := l.tokens.filter fun t ↦ t ∉ l'.tokens

theorem gone_of_subset (h : l.tokens ⊆ l'.tokens) : l.gone l' = [] := by
  rw [gone, List.filter_eq_nil_iff]
  intro t ht
  simpa using h ht

theorem openCount_eq (l : Loop σ η) : l.openCount = l.tokens.length := (List.length_map _).symm

theorem Ordered.nodup (h : l.Ordered) : l.tokens.Nodup := h.increasing.imp Nat.ne_of_lt

/-- The counters stand as they should when these connections have left. -/
structure Counted (l : Loop σ η) (removed : List Token) : Prop where
  active : l.stats.active = UInt64.ofNat l.openCount
  accepted : l.stats.accepted = UInt64.ofNat (l.openCount + removed.length)
  overflowed : ∃ n ≤ removed.length, l.stats.overflowed = UInt64.ofNat n
  entered : l.openCount + removed.length < l.nextToken

theorem Counted.of_same (h : l.Counted removed) (hn : l.nextToken ≤ l'.nextToken)
    (ht : l'.tokens = l.tokens) (ha : l'.stats.active = l.stats.active)
    (hc : l'.stats.accepted = l.stats.accepted) (ho : l'.stats.overflowed = l.stats.overflowed) :
    l'.Counted (removed ++ l.gone l') := by
  have hgone : l.gone l' = [] := gone_of_subset (ht ▸ List.Subset.refl _)
  have hcount : l'.openCount = l.openCount := by rw [openCount_eq, openCount_eq, ht]
  rw [hgone, List.append_nil]
  exact ⟨by rw [ha, hcount, h.active], by rw [hc, hcount, h.accepted], ho ▸ h.overflowed,
    by rw [hcount]; exact Nat.lt_of_lt_of_le h.entered hn⟩

theorem Counted.enter (h : l.Counted removed) (hn : l'.nextToken = l.nextToken + 1)
    (ht : l'.tokens = l.tokens ++ [t]) (hs : l'.stats = l.stats.opened) :
    l'.Counted (removed ++ l.gone l') := by
  have hgone : l.gone l' = [] := gone_of_subset (ht ▸ List.subset_append_left ..)
  have hcount : l'.openCount = l.openCount + 1 := by
    rw [openCount_eq, openCount_eq, ht, List.length_append, List.length_singleton]
  rw [hgone, List.append_nil]
  constructor
  · rw [hs, hcount, UInt64.ofNat_add, ← h.active]
    rfl
  · rw [hs, hcount, Nat.add_right_comm, UInt64.ofNat_add, ← h.accepted]
    rfl
  · rw [hs]
    exact h.overflowed
  · rw [hn, hcount, Nat.add_right_comm]
    exact Nat.succ_lt_succ h.entered

theorem gone_of_filter (hn : l.tokens.Nodup) (ht : t ∈ l.tokens)
    (hl : l'.tokens = l.tokens.filter (· != t)) :
    l.gone l' = [t] ∧ l'.openCount + 1 = l.openCount := by
  have hcount : l.tokens.count t = 1 := by rw [hn.count, if_pos ht]
  have hself : l.tokens.filter (· == t) = [t] := by rw [List.filter_beq, hcount]; rfl
  constructor
  · rw [gone, ← hself]
    apply List.filter_congr
    intro u hu
    simp [hl, hu, beq_eq_decide]
  · have hsum := List.length_eq_length_filter_add (l := l.tokens) (· == t)
    rw [hself, List.length_singleton] at hsum
    rw [openCount_eq, openCount_eq, hsum, hl, Nat.add_comm]
    rfl

theorem Counted.leave {r : Run σ η} (h : l.Counted removed) (hd : l.tokens.Nodup)
    (hn : r.1.nextToken = l.nextToken) (hl : Leaves t l r) :
    r.1.Counted (removed ++ l.gone r.1) := by
  obtain ⟨hgone, hcount⟩ := gone_of_filter hd hl.mem hl.tokens
  rw [hgone]
  constructor
  · -- The connection was counted, so the gauge does not go below zero.
    rw [hl.active, h.active, ← hcount, UInt64.ofNat_add]
    exact UInt64.add_sub_cancel ..
  · rw [hl.accepted, h.accepted, ← hcount, List.length_append, List.length_singleton,
      Nat.add_right_comm, Nat.add_assoc]
  · obtain ⟨n, hle, heq⟩ := h.overflowed
    rw [List.length_append, List.length_singleton]
    rcases hl.overflowed with ho | ho
    · exact ⟨n, Nat.le_succ_of_le hle, ho.trans heq⟩
    · refine ⟨n + 1, Nat.succ_le_succ hle, ?_⟩
      rw [ho, heq, UInt64.ofNat_add]
      rfl
  · have hentered := h.entered
    rwa [← hcount, Nat.add_right_comm, Nat.add_assoc, ← List.length_singleton (a := t),
      ← List.length_append, ← hn] at hentered

theorem accept_tokens (hooks : Hooks η) (config : Config σ) (env : Surroundings) (l : Loop σ η) :
    (l.nextToken ≤ (l.accept hooks config env).1.nextToken ∧
        (l.accept hooks config env).1.tokens = l.tokens ∧
        (l.accept hooks config env).1.stats = l.stats) ∨
      ((l.accept hooks config env).1.nextToken = l.nextToken + 1 ∧
        (l.accept hooks config env).1.tokens = l.tokens ++ [l.nextToken] ∧
        (l.accept hooks config env).1.stats = l.stats.opened) := by
  simp only [accept]
  split
  · exact .inl ⟨Nat.le_refl _, rfl, rfl⟩
  · split
    · exact .inl ⟨Nat.le_refl _, rfl, rfl⟩
    · split
      · exact .inl ⟨Nat.le_succ _, rfl, rfl⟩
      · exact .inr ⟨rfl, List.map_append, rfl⟩

theorem Counted.step (hooks : Hooks η) (config : Config σ) (h : l.Counted removed)
    (ho : l.Ordered) (s : Step η) :
    (s.run hooks config l).1.Counted (removed ++ l.gone (s.run hooks config l).1) := by
  cases s with
  | aside state listening acts quiet => exact h.of_same (Nat.le_refl _) rfl rfl rfl rfl
  | accept env =>
    rcases accept_tokens hooks config env l with ⟨hn, ht, hs⟩ | ⟨hn, ht, hs⟩
    · exact h.of_same hn ht (congrArg _ hs) (congrArg _ hs) (congrArg _ hs)
    · exact h.enter hn ht hs
  | touch x =>
    have hn : (x.run config l).1.nextToken = l.nextToken := (x.concerns config l).nextToken
    cases x.confined config l with
    | stays hx =>
      exact h.of_same (Nat.le_of_eq hn.symm) hx.tokens hx.active hx.accepted hx.overflowed
    | leaves hx => exact h.leave ho.nodup hn hx

inductive Gauged (l l' : Loop σ η) : Prop
  | same : l'.stats.active = l.stats.active → l'.openCount = l.openCount → Gauged l l'
  | up : l'.stats.active = l.stats.active + 1 → l'.openCount = l.openCount + 1 → Gauged l l'
  | down : l'.stats.active = l.stats.active - 1 → l'.openCount + 1 = l.openCount → Gauged l l'

theorem Gauged.of_tokens (ha : l'.stats.active = l.stats.active) (ht : l'.tokens = l.tokens) :
    Gauged l l' :=
  .same ha (by rw [openCount_eq, openCount_eq, ht])

theorem Ordered.gauged (ho : l.Ordered) (hooks : Hooks η) (config : Config σ) (s : Step η) :
    Gauged l (s.run hooks config l).1 := by
  cases s with
  | aside state listening acts quiet => exact .same rfl rfl
  | accept env =>
    rcases accept_tokens hooks config env l with ⟨-, ht, hs⟩ | ⟨-, ht, hs⟩
    · exact .of_tokens (congrArg _ hs) ht
    · refine .up (congrArg _ hs) ?_
      rw [openCount_eq, openCount_eq, Step.run, ht, List.length_append, List.length_singleton]
  | touch x =>
    cases x.confined config l with
    | stays hx => exact .of_tokens hx.active hx.tokens
    | leaves hx => exact .down hx.active (gone_of_filter ho.nodup hx.mem hx.tokens).2

end Loop

section Histories

variable {hooks : Hooks η} {config : Config σ} {h : History σ η} {l : Loop σ η} {t : Token}

def History.removed (hooks : Hooks η) (config : Config σ) (h : History σ η) : List Token :=
  h.flatMap fun e ↦ e.1.gone (e.2.run hooks config e.1).1

theorem Moment.counted (hm : Moment hooks config h l) : l.Counted (h.removed hooks config) := by
  obtain ⟨state, hp⟩ := hm
  induction hp with
  | refl => exact ⟨rfl, rfl, ⟨0, Nat.le_refl 0, rfl⟩, Nat.one_pos⟩
  | @step h m s hp ih =>
    have ho : m.Ordered := Moment.ordered ⟨state, hp⟩
    have hstep := ih.step hooks config ho s
    rwa [History.removed, List.flatMap_append, List.flatMap_singleton]

def History.admitted (hooks : Hooks η) (config : Config σ) (h : History σ η) :
    List (Context × σ) :=
  h.filterMap fun e ↦ match e.2 with
    | .accept env => e.1.admits? hooks config env
    | .aside .. | .touch _ => none

structure Enrolled (hooks : Hooks η) (config : Config σ) (h : History σ η) (l : Loop σ η) :
    Prop where
  count : (h.admitted hooks config).length + 1 = l.nextToken
  fresh (t : Token) : l.nextToken ≤ t → h.parts hooks config t = []
  handler (n : Nat) : handlerOf (h.parts hooks config (n + 1)) =
    ((h.admitted hooks config)[n]?).map (·.2)

theorem History.admitted_step (hooks : Hooks η) (config : Config σ) (h : History σ η)
    (m : Loop σ η) (s : Step η) :
    History.admitted hooks config (h ++ [(m, s)]) =
      h.admitted hooks config ++ History.admitted hooks config [(m, s)] :=
  List.filterMap_append

theorem handlerOf_touched (parts : List (Part σ)) (x : Touch) (c : Connection σ) :
    handlerOf (parts ++ [.touched x c]) = handlerOf parts := by
  cases parts <;> rfl

/-- A step that admits no handler touches at most a connection that is there. -/
theorem Enrolled.step (he : Enrolled hooks config h l) {s : Step η}
    (hs : History.admitted hooks config [(l, s)] = [])
    (hn : (s.run hooks config l).1.nextToken = l.nextToken)
    (hp : ∀ t part, s.part? hooks config t l = some part →
      t < l.nextToken ∧ ∃ x c, part = .touched x c) :
    Enrolled hooks config (h ++ [(l, s)]) (s.run hooks config l).1 := by
  have hadmitted := History.admitted_step hooks config h l s
  rw [hs, List.append_nil] at hadmitted
  refine ⟨by rw [hadmitted, hn, he.count], fun t ht ↦ ?_, fun n ↦ ?_⟩
  · rw [hn] at ht
    rw [History.parts_step, he.fresh t ht]
    cases hpart : s.part? hooks config t l with
    | none => rfl
    | some part => exact absurd (hp t part hpart).1 (Nat.not_lt.2 ht)
  · rw [hadmitted, History.parts_step, ← he.handler n]
    cases hpart : s.part? hooks config (n + 1) l with
    | none => rw [Option.toList_none, List.append_nil]
    | some part =>
      obtain ⟨-, x, c, rfl⟩ := hp _ _ hpart
      exact handlerOf_touched ..

theorem Enrolled.admit (he : Enrolled hooks config h l) {env : Surroundings} {e : Context × σ}
    (ha : l.admits? hooks config env = some e) :
    Enrolled hooks config (h ++ [(l, .accept env)]) (l.accept hooks config env).1 := by
  have hone : History.admitted hooks config [(l, .accept env)] = [e] := by
    simp [History.admitted, ha]
  have hn : (l.accept hooks config env).1.nextToken = l.nextToken + 1 := by
    rw [Loop.nextToken_accept, ha]
    rfl
  have hpart (t : Token) : (Step.accept env).part? hooks config t l =
      if t = l.nextToken then some (.enters env e.1 e.2) else none := by
    rw [Step.part?, ha]
    rfl
  refine ⟨?_, fun t ht ↦ ?_, fun n ↦ ?_⟩
  · rw [History.admitted_step, hone, hn, ← he.count, List.length_append, List.length_singleton]
  · rw [hn] at ht
    rw [History.parts_step, hpart, if_neg (Nat.ne_of_gt ht), he.fresh t (Nat.le_of_succ_le ht)]
    rfl
  · rw [History.parts_step, History.admitted_step, hone, hpart]
    by_cases hlast : n + 1 = l.nextToken
    · have hlength : n = (h.admitted hooks config).length :=
        Nat.succ.inj (hlast.trans he.count.symm)
      rw [if_pos hlast, he.fresh _ (Nat.le_of_eq hlast.symm), hlength, List.getElem?_concat_length]
      rfl
    · rw [if_neg hlast, Option.toList_none, List.append_nil, he.handler n]
      have hlength : n ≠ (h.admitted hooks config).length := by
        rintro rfl
        exact hlast he.count
      congr 1
      grind

theorem Moment.enrolled (hm : Moment hooks config h l) : Enrolled hooks config h l := by
  obtain ⟨state, hp⟩ := hm
  induction hp with
  | refl => exact ⟨rfl, fun _ _ ↦ rfl, fun _ ↦ rfl⟩
  | @step h m s hp ih =>
    have ho : m.Ordered := Moment.ordered ⟨state, hp⟩
    cases s with
    | aside state listening acts quiet => exact ih.step rfl rfl nofun
    | accept env =>
      cases ha : m.admits? hooks config env with
      | some e => exact ih.admit ha
      | none =>
        refine ih.step (by simp [History.admitted, ha]) ?_ fun t part hpart ↦ ?_
        · rw [Step.run, Loop.nextToken_accept, ha]
          rfl
        · rw [Step.part?, ha] at hpart
          split at hpart <;> cases hpart
    | touch x =>
      refine ih.step rfl (x.concerns config m).nextToken fun t part hpart ↦ ?_
      rw [Step.part?] at hpart
      split at hpart
      · obtain ⟨c, hc, rfl⟩ := Option.map_eq_some_iff.1 hpart
        refine ⟨Nat.lt_of_not_le fun hle ↦ ?_, x, c, rfl⟩
        rw [ho.find?_of_le hle] at hc
        cases hc
      · cases hpart

/-- The accounts of a loop at a moment. The gauge goes with the table in every step, and no counter
wraps while the tokens fit in a word. -/
structure Accounts (hooks : Hooks η) (config : Config σ) (h : History σ η) (l : Loop σ η) :
    Prop where
  active : l.stats.active.toNat = l.openCount % UInt64.size
  accepted : l.stats.accepted.toNat =
    (l.openCount + (h.removed hooks config).length) % UInt64.size
  overflowed : l.stats.overflowed.toNat ≤ (h.removed hooks config).length
  entered : l.openCount + (h.removed hooks config).length < l.nextToken
  gauge (s : Step η) : l.Gauged (s.run hooks config l).1
  distinct : l.tokens.Nodup
  tokens : ∀ t ∈ l.tokens, t ≠ 0 ∧ t < l.nextToken
  handlers : (h.admitted hooks config).length + 1 = l.nextToken
  attended (n : Nat) (e : Context × σ) : (h.admitted hooks config)[n]? = some e →
    handlerOf (h.parts hooks config (n + 1)) = some e.2 ∧
      Attended (n + 1) (l.tokens.contains (n + 1)) (callsOn (n + 1) (h.acts hooks config))

theorem Loop.isSome_find? (l : Loop σ η) (t : Token) :
    (l.find? t).isSome = l.tokens.contains t := by
  rw [Bool.eq_iff_iff, find?, Option.isSome_map, List.find?_isSome, List.contains_iff_mem, tokens,
    List.mem_map]
  simp

theorem Moment.ne_zero (hm : Moment hooks config h l) (ht : t ∈ l.tokens) : t ≠ 0 := by
  have hsome : (l.find? t).isSome = true := by
    rw [l.isSome_find?]
    exact List.contains_iff_mem.2 ht
  obtain ⟨c, hc⟩ := Option.isSome_iff_exists.1 hsome
  have hlife := hm.life t
  obtain ⟨stays, between, he, -⟩ := hlife.attended (hlife.ne_nil hc)
  have hcalls : callsOn t (h.acts hooks config) = .opened t stays :: _ := he
  have hopened : .opened t stays ∈ callsOn t (h.acts hooks config) := by
    rw [hcalls]
    exact List.mem_cons_self
  have hmem : t ∈ openedIn (h.acts hooks config) :=
    List.mem_filterMap.2 ⟨_, (List.mem_filter.1 (List.mem_filter.1 hopened).1).1, rfl⟩
  rw [hm.openedIn_acts.2, List.mem_range'_1] at hmem
  exact Nat.ne_of_gt hmem.1

theorem Moment.accounts (hm : Moment hooks config h l) : Accounts hooks config h l := by
  have ho := hm.ordered
  obtain ⟨hactive, haccepted, ⟨n, hle, hoverflowed⟩, hentered⟩ := hm.counted
  have he := hm.enrolled
  constructor
  · rw [hactive, UInt64.toNat_ofNat']
  · rw [haccepted, UInt64.toNat_ofNat']
  · rw [hoverflowed, UInt64.toNat_ofNat']
    exact Nat.le_trans (Nat.mod_le ..) hle
  · exact hentered
  · exact ho.gauged hooks config
  · exact ho.nodup
  · exact fun t ht ↦ ⟨hm.ne_zero ht, ho.bounded t ht⟩
  · exact he.count
  · intro n e hn
    have hlt : n + 1 < l.nextToken := by
      rw [← he.count]
      exact Nat.succ_lt_succ (List.getElem?_eq_some_iff.1 hn).1
    refine ⟨by rw [he.handler, hn]; rfl, ?_⟩
    rw [← Loop.isSome_find?]
    exact hm.attended (Nat.succ_ne_zero n) hlt

theorem Loop.mem_tokens_close {r : Run σ η} {u : Token} (hu : u ∈ (r.1.close t).1.tokens) :
    u ∈ r.1.tokens ∧ u ≠ t := by
  cases hc : r.1.find? t with
  | some c =>
    rw [(leaves_close hc).tokens, List.mem_filter] at hu
    exact ⟨hu.1, by simpa using hu.2⟩
  | none =>
    rw [Loop.close, hc] at hu
    refine ⟨hu, ?_⟩
    rintro rfl
    have hsome := r.1.isSome_find? u
    rw [hc, List.contains_iff_mem.2 hu] at hsome
    cases hsome

theorem Loop.mem_tokens_foldl_close (ts : List Token) {r : Run σ η} {u : Token}
    (hu : u ∈ (ts.foldl (fun run t ↦ Run.andThen run (·.close t)) r).1.tokens) :
    u ∈ r.1.tokens ∧ u ∉ ts := by
  induction ts generalizing r with
  | nil => exact ⟨hu, nofun⟩
  | cons t ts ih =>
    obtain ⟨hclosed, hts⟩ := ih hu
    obtain ⟨hmem, hne⟩ := mem_tokens_close hclosed
    refine ⟨hmem, fun hin ↦ ?_⟩
    rcases List.mem_cons.1 hin with hin | hin
    · exact hne hin
    · exact hts hin

theorem Loop.connections_finish (hooks : Hooks η) (l : Loop σ η) :
    (l.finish hooks).1.connections = [] := by
  have hnone : (l.finish hooks).1.tokens = [] := by
    apply List.eq_nil_iff_forall_not_mem.2
    intro u hu
    obtain ⟨hmem, hnot⟩ := mem_tokens_foldl_close _ hu
    exact hnot hmem
  exact List.map_eq_nil_iff.1 hnone

/-- At every moment the accounts of a loop are in order, and once it has run to its end, no
connection is open and each handler was told of the end. -/
theorem Moment.accounts_in_order (hm : Moment hooks config h l) :
    Accounts hooks config h l ∧ ∀ envs, let r := (l.run hooks config envs).2
      r.1.connections = [] ∧ r.1.stats.active = 0 ∧
        ∃ later, Passes hooks config l later r.1 ∧ later.acts hooks config = r.2 ∧
          Accounts hooks config (h ++ later) r.1 ∧
          ∀ n < (History.admitted hooks config (h ++ later)).length, Attended (n + 1) false
            (callsOn (n + 1) (History.acts hooks config (h ++ later))) := by
  refine ⟨hm.accounts, fun envs ↦ ?_⟩
  intro r
  have hstart : Loop.Served hooks config l [] l := .start
  obtain ⟨before, n, -, hrun⟩ := hstart.run envs
  have hnone : r.1.connections = [] := by
    rw [show r = _ from hrun]
    exact n.connections_finish hooks
  obtain ⟨later, hp, ha⟩ : Loop.Stepwise hooks config l r := .run l envs
  have hend := hm.passes hp
  refine ⟨hnone, ?_, later, hp, ha, hend.accounts, fun n hn ↦ ?_⟩
  · rw [hend.counted.active, Loop.openCount, hnone]
    rfl
  · obtain ⟨-, hattended⟩ := hend.accounts.attended n _ (List.getElem?_eq_getElem hn)
    rwa [Loop.tokens, hnone] at hattended

/-- A connection is accepted, and the loop runs on to its end from there. -/
theorem accounts_in_order_accepted :
    let config : Config Http.Session :=
      { protocol := Http.Session.protocol .greeting, build := fun _ ↦ .ok {}, maxBuffer := 1024 }
    let l := (({ hooks := firstId } : Loop _ UInt64).pollOnce .standalone config acceptance).2.1
    ∃ h, Moment .standalone config h l ∧ Accounts .standalone config h l ∧
      l.openCount = 1 ∧ l.stats.active = 1 ∧
      let r := (l.run .standalone config [acceptance, halfAnswer]).2
      r.1.connections = [] ∧ r.1.stats.active = 0 ∧ r.1.stats.accepted = 2 ∧
        ∃ later, Passes .standalone config l later r.1 ∧ later.acts .standalone config = r.2 ∧
          Accounts .standalone config (h ++ later) r.1 ∧
          ∀ n < (History.admitted .standalone config (h ++ later)).length, Attended (n + 1) false
            (callsOn (n + 1) (History.acts .standalone config (h ++ later))) := by
  intro config l
  obtain ⟨h, hp, -⟩ : Loop.Stepwise .standalone config ({ hooks := firstId } : Loop _ UInt64)
    (Loop.pollOnce .standalone config acceptance { hooks := firstId }).2 := .pollOnce _ _
  have hm : Moment .standalone config h l := ⟨firstId, hp⟩
  obtain ⟨haccounts, hend⟩ := hm.accounts_in_order
  obtain ⟨hnone, hactive, hlater⟩ := hend [acceptance, halfAnswer]
  exact ⟨h, hm, haccounts, by decide, by decide, hnone, hactive, by decide +kernel, hlater⟩

end Histories

end Prefork.Server
