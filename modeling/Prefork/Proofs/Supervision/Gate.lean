import Prefork.Proofs.Supervision.Worker
import Prefork.Supervision.Pool

namespace Prefork.Supervision

open Coordination (Lock Store)
open Time (Clock Nanos)

inductive Turn : Bool → Bool → Bool → Bool → Prop
  | keeps (locked held : Bool) : Turn locked held locked held
  | takes : Turn false false true true
  | gives (locked : Bool) : Turn locked true false false

theorem turn_tryAcquire (locked held : Bool) :
    ∃ won locked', (Lock.flag locked).tryAcquire held none = ⟨.ok won, .flag locked', won⟩ ∧
      Turn locked held locked' won := by
  cases held with
  | true => exact ⟨true, locked, rfl, .keeps locked true⟩
  | false =>
    cases locked with
    | true => exact ⟨false, true, rfl, .keeps true false⟩
    | false => exact ⟨true, true, rfl, .takes⟩

theorem turn_release (locked held : Bool) :
    ∃ locked', ((Lock.flag locked).release held none).lock = .flag locked' ∧
      Turn locked held locked' ((Lock.flag locked).release held none).held := by
  cases held with
  | true => exact ⟨false, rfl, .gives locked⟩
  | false => exact ⟨locked, rfl, .keeps locked false⟩

namespace Worker

structure Turns (w : Worker) (c : Commons) (w' : Worker) (c' : Commons) : Prop where
  store : c'.store = c.store
  flag (locked : Bool) : c.lock = .flag locked →
    ∃ locked', c'.lock = .flag locked' ∧ Turn locked w.held locked' w'.held

variable {w w' : Worker} {c c' : Commons}

theorem Turns.of_eq (hs : c'.store = c.store) (hl : c'.lock = c.lock) (hw : w'.held = w.held) :
    Turns w c w' c' := by
  refine ⟨hs, fun locked h ↦ ⟨locked, hl.trans h, ?_⟩⟩
  rw [hw]
  exact .keeps locked w.held

theorem turns_tryEnter (now : Nanos) (w : Worker) {c : Commons} {locked : Bool}
    (h : c.lock = .flag locked) :
    Turns w c (w.tryEnter now c).2.1 (w.tryEnter now c).2.2 ∧
      ((w.tryEnter now c).1 = true → (w.tryEnter now c).2.1.held = true) := by
  cases hm : w.mayTry now with
  | false =>
    rw [tryEnter_of_not_mayTry hm]
    exact ⟨.of_eq rfl rfl rfl, nofun⟩
  | true =>
    rw [tryEnter_of_mayTry hm, ask]
    cases hf : c.faults.lock with
    | true => exact ⟨.of_eq rfl rfl rfl, nofun⟩
    | false =>
      obtain ⟨won, locked', he, ht⟩ := turn_tryAcquire locked w.held
      simp only [Bool.false_eq_true, if_false, h, he]
      refine ⟨⟨rfl, fun flag hflag ↦ ⟨locked', rfl, ?_⟩⟩, fun hwon ↦ hwon⟩
      cases h.symm.trans hflag
      exact ht

theorem turns_leave (w : Worker) (c : Commons) : Turns w c (w.leave c).1 (w.leave c).2 := by
  rw [leave]
  cases hf : c.faults.release with
  | true => exact .of_eq rfl rfl rfl
  | false =>
    refine ⟨rfl, fun locked h ↦ ?_⟩
    simp only [Bool.false_eq_true, if_false, h]
    exact turn_release locked w.held

theorem turns_tick (clock : Clock) (count : Nat) (w : Worker) (c : Commons) :
    Turns w c (w.tick clock count c).1 (w.tick clock count c).2 := by
  obtain ⟨hl, hs⟩ := w.tick_spares clock count c
  exact .of_eq hs hl (w.tick_keeps clock count c).2.2

theorem turns_shutdown (clock : Clock) (count : Nat) (w : Worker) (c : Commons) :
    Turns w c (w.shutdown clock count c).1 (w.shutdown clock count c).2 := by
  have hreport (w' : Worker) (c' : Commons) (h : Turns w c w' c') :
      Turns w c (w'.report clock.instant ⟨w'.id, none, reported count⟩ c').2.1
        (w'.report clock.instant ⟨w'.id, none, reported count⟩ c').2.2 := by
    obtain ⟨-, -, hh⟩ := w'.report_keeps clock.instant ⟨w'.id, none, reported count⟩ c'
    obtain ⟨hl, hs⟩ := w'.report_spares clock.instant ⟨w'.id, none, reported count⟩ c'
    exact ⟨hs.trans h.store, fun locked hlocked ↦ by rw [hl, hh]; exact h.flag locked hlocked⟩
  rw [shutdown, shutdownBy]
  cases w.held with
  | true => exact hreport _ _ (turns_leave w c)
  | false => exact hreport _ _ (.of_eq rfl rfl rfl)

end Worker

namespace Pool

def holds (p : Pool) (i : Nat) : Bool := (p.workers[i]?).any (·.held)

structure Turns (i : Nat) (p q : Pool) : Prop where
  store : q.commons.store = p.commons.store
  others (j : Nat) : j ≠ i → q.holds j = p.holds j
  flag (locked : Bool) : p.commons.lock = .flag locked →
    ∃ locked', q.commons.lock = .flag locked' ∧ Turn locked (p.holds i) locked' (q.holds i)

theorem Turns.refl (i : Nat) (p : Pool) : Turns i p p :=
  ⟨rfl, fun _ _ ↦ rfl, fun locked h ↦ ⟨locked, h, .keeps locked _⟩⟩

theorem Turns.of_worker {i : Nat} {p : Pool} {w w' : Worker} {c' : Commons}
    (hw : p.workers[i]? = some w) (h : w.Turns p.commons w' c') :
    Turns i p { p with workers := p.workers.set i w', commons := c' } ∧
      holds { p with workers := p.workers.set i w', commons := c' } i = w'.held := by
  have hi : i < p.workers.length := (List.getElem?_eq_some_iff.1 hw).1
  have hp : p.holds i = w.held := by rw [holds, hw]; rfl
  have hq : holds { p with workers := p.workers.set i w', commons := c' } i = w'.held := by
    rw [holds, List.getElem?_set_self hi]
    rfl
  refine ⟨⟨h.store, fun j hj ↦ ?_, fun locked hl ↦ ?_⟩, hq⟩
  · rw [holds, holds, List.getElem?_set_ne hj.symm]
  · rw [hp, hq]
    exact h.flag locked hl

theorem turns_act {i : Nat} {p : Pool} {f : Worker → Commons → Worker × Commons}
    (h : ∀ (w : Worker) c, w.Turns c (f w c).1 (f w c).2) : Turns i p (p.act i f) := by
  rw [act]
  cases hw : p.workers[i]? with
  | none => exact .refl i p
  | some w => exact (Turns.of_worker hw (h w p.commons)).1

theorem holds_act {i : Nat} {p : Pool} {f : Worker → Commons → Worker × Commons}
    (h : ∀ (w : Worker) c, (f w c).1.held = w.held) : (p.act i f).holds i = p.holds i := by
  rw [act]
  cases hw : p.workers[i]? with
  | none => rfl
  | some w =>
    have hi : i < p.workers.length := (List.getElem?_eq_some_iff.1 hw).1
    rw [holds, holds, List.getElem?_set_self hi, hw]
    exact h w p.commons

theorem turns_tryEnter (i : Nat) {p : Pool} {locked : Bool} (h : p.commons.lock = .flag locked) :
    Turns i p ((hooks i).tryEnter p).2 ∧
      (((hooks i).tryEnter p).1 = true → ((hooks i).tryEnter p).2.holds i = true) := by
  simp only [hooks]
  cases hw : p.workers[i]? with
  | none => exact ⟨.refl i p, nofun⟩
  | some w =>
    obtain ⟨ht, hwon⟩ := Worker.turns_tryEnter p.clock.instant w h
    obtain ⟨hturns, hheld⟩ := Turns.of_worker hw ht
    exact ⟨hturns, fun hw ↦ hheld.trans (hwon hw)⟩

structure Guarded (p : Pool) : Prop where
  flag : ∃ locked, p.commons.lock = .flag locked
  locked (i : Nat) : p.holds i = true → p.commons.lock = .flag true
  sole (i j : Nat) : p.holds i = true → p.holds j = true → i = j

theorem Guarded.turns {i : Nat} {p q : Pool} (h : Guarded p) (ht : Turns i p q) : Guarded q := by
  obtain ⟨locked, hl⟩ := h.flag
  obtain ⟨locked', hl', hturn⟩ := ht.flag locked hl
  have hothers (j : Nat) (hj : j ≠ i) (hq : q.holds j = true) : p.holds j = true :=
    (ht.others j hj).symm.trans hq
  generalize hp : p.holds i = before at hturn
  generalize hq : q.holds i = after at hturn
  cases hturn with
  | keeps =>
    have hsame (j : Nat) : q.holds j = p.holds j := by
      by_cases hj : j = i
      · rw [hj, hp, hq]
      · exact ht.others j hj
    refine ⟨⟨locked, hl'⟩, fun j hj ↦ ?_, fun j k hj hk ↦ ?_⟩
    · rw [hl', ← hl]
      exact h.locked j ((hsame j).symm.trans hj)
    · exact h.sole j k ((hsame j).symm.trans hj) ((hsame k).symm.trans hk)
  | takes =>
    have honly (j : Nat) (hj : q.holds j = true) : j = i := by
      by_cases hji : j = i
      · exact hji
      · have hlocked := h.locked j (hothers j hji hj)
        rw [hl] at hlocked
        cases hlocked
    exact ⟨⟨true, hl'⟩, fun _ _ ↦ hl', fun j k hj hk ↦ (honly j hj).trans (honly k hk).symm⟩
  | gives =>
    have hnone (j : Nat) (hj : q.holds j = true) : False := by
      have hji : j ≠ i := by
        rintro rfl
        rw [hq] at hj
        cases hj
      exact hji (h.sole j i (hothers j hji hj) hp)
    exact ⟨⟨false, hl'⟩, fun j hj ↦ (hnone j hj).elim, fun j _ hj ↦ (hnone j hj).elim⟩

theorem Guarded.of_lock {p q : Pool} (h : Guarded p) (hw : q.workers = p.workers)
    (hl : q.commons.lock = p.commons.lock) : Guarded q := by
  have hholds (i : Nat) : q.holds i = p.holds i := by rw [holds, holds, hw]
  obtain ⟨hflag, hlocked, hsole⟩ := h
  refine ⟨hl ▸ hflag, fun i hi ↦ hl ▸ hlocked i (hholds i ▸ hi), fun i j hi hj ↦ ?_⟩
  exact hsole i j (hholds i ▸ hi) (hholds j ▸ hj)

def facing (p : Pool) (clock : Clock) (faults : Faults) : Pool :=
  { p with clock, commons := { p.commons with faults } }

theorem Turns.of_facing {i : Nat} {p q : Pool} {clock : Clock} {faults : Faults}
    (h : Turns i (p.facing clock faults) q) : Turns i p q :=
  ⟨h.store, h.others, h.flag⟩

theorem turns_facing (i : Nat) (p : Pool) (clock : Clock) (faults : Faults) :
    Turns i p (p.facing clock faults) :=
  (Turns.refl i (p.facing clock faults)).of_facing

structure Counts (p : Pool) (n : Int64) : Prop where
  map : ∃ entries, p.commons.store = .map entries
  serial : p.commons.serial? = some n

theorem Counts.of_store {p q : Pool} {n : Int64} (h : p.Counts n)
    (hs : q.commons.store = p.commons.store) : q.Counts n := by
  obtain ⟨hmap, hserial⟩ := h
  rw [Commons.serial?, ← hs] at hserial
  exact ⟨hs ▸ hmap, hserial⟩

structure Fresh (p : Pool) : Prop where
  free : ∀ w ∈ p.workers, w.held = false
  flag : ∃ locked, p.commons.lock = .flag locked
  counts : p.Counts 1

end Pool

theorem increment_map {entries : Std.TreeMap String Int64} {n : Int64}
    (h : (Store.map entries).lookup Commons.serialKey = some n) :
    ∃ entries', (Store.map entries).increment Commons.serialKey 1 = (.ok (n + 1), .map entries') ∧
      (Store.map entries').lookup Commons.serialKey = some (n + 1) := by
  refine ⟨entries.insert Commons.serialKey (n + 1), ?_, Std.TreeMap.getElem?_insert_self⟩
  simp only [Store.increment, h, Option.getD_some, Store.run, Store.bind]
  rfl

def serialOf (n : Nat) : UInt64 :=
  let id := (Int64.ofNat n).toInt
  if id < 0 then 0 else UInt64.ofNat id.toNat

theorem toNat_serialOf {n : Nat} (h : n < 0x8000000000000000) : (serialOf n).toNat = n := by
  rw [serialOf, Int64.toInt_ofNat_of_lt h]
  simp only [Int.toNat_natCast]
  rw [if_neg (by omega), UInt64.toNat_ofNat', Nat.mod_eq_of_lt (by omega)]

theorem map_toNat_serialOf {n : Nat} (h : n < 0x8000000000000000) :
    ((List.range' 1 n).map serialOf).map UInt64.toNat = List.range' 1 n := by
  rw [List.map_map]
  refine (List.map_congr_left fun k hk ↦ ?_).trans (List.map_id _)
  obtain ⟨-, hlt⟩ := List.mem_range'_1.1 hk
  exact toNat_serialOf (by omega)

theorem Worker.lock_nextId (c : Commons) : (Worker.nextId c).2.lock = c.lock := by
  rw [nextId]
  split
  · rfl
  · split <;> rfl

theorem Pool.Counts.nextId_of_fault {p : Pool} {n : Int64} (h : p.Counts n) (i : Nat)
    (hf : p.commons.faults.store = true) : ((hooks i).nextId p).2.Counts n := by
  simp only [hooks, Worker.nextId, hf, if_true]
  exact h

theorem Pool.Counts.nextId {p : Pool} {n : Nat} (h : p.Counts (Int64.ofNat n)) (i : Nat)
    (hf : p.commons.faults.store = false) :
    ((hooks i).nextId p).1 = serialOf n ∧
      ((hooks i).nextId p).2.Counts (Int64.ofNat (n + 1)) := by
  obtain ⟨⟨entries, hs⟩, hn⟩ := h
  rw [Commons.serial?, hs] at hn
  obtain ⟨entries', hi, hl⟩ := increment_map hn
  simp only [hooks, Worker.nextId, hf, Bool.false_eq_true, if_false, hs, hi, Int64.add_sub_cancel]
  rw [Int64.ofNat_add]
  exact ⟨rfl, ⟨entries', rfl⟩, hl⟩

inductive Move where
  | enter | leave | look | take
  | tick (opened : Nat) | shutdown (opened : Nat)
  deriving DecidableEq, Repr

structure Act where
  worker : Nat
  move : Move
  clock : Clock
  faults : Faults := {}

/-- Where a worker stands: outside the gate, or inside, where its last look found something or not,
and it took something since then or not. -/
inductive Stand where
  | outside | inside | found | took
  deriving DecidableEq, Repr

namespace Stand

def enter (won : Bool) : Stand → Stand
  | outside => if won then inside else outside
  | s => if won then s else outside

def look (empty : Bool) : Stand → Stand
  | outside => outside
  | _ => if empty then inside else found

theorem won_of_enter {s : Stand} {won : Bool} (h : s.enter won ≠ .outside) : won = true := by
  cases won with
  | true => rfl
  | false => cases s <;> exact absurd rfl h

theorem found_of_enter {s : Stand} {won : Bool} (h : s.enter won = .found) : s = .found := by
  cases won <;> cases s <;> first | rfl | cases h

theorem ne_of_look {s : Stand} {empty : Bool} (h : s.look empty ≠ .outside) : s ≠ .outside := by
  rintro rfl
  exact h rfl

theorem found_of_look {s : Stand} {empty : Bool} (h : s.look empty = .found) : empty = false := by
  cases empty with
  | true => cases s <;> cases h
  | false => rfl

end Stand

structure Pop (κ : Type) where
  worker : Nat
  first : Bool
  connection : Option κ := none
  id : Option UInt64 := none

def ids {κ : Type} (pops : List (Pop κ)) : List UInt64 := pops.filterMap (·.id)

/-- From a backlog, connections were taken one after another up to the rest, and numbered from 1 on.
The first behind a look was there. -/
structure Tallied {κ : Type} (backlog : List κ) (pops : List (Pop κ)) (rest : List κ) : Prop where
  first : ∀ p ∈ pops, p.first = true → p.connection.isSome = true
  popped : pops.filterMap (·.connection) ++ rest = backlog
  numbered : ids pops = (List.range' 1 (ids pops).length).map serialOf

theorem ids_append {κ : Type} (pops : List (Pop κ)) (pop : Pop κ) :
    ids (pops ++ [pop]) = ids pops ++ pop.id.toList := by
  rw [ids, List.filterMap_append, ids]
  cases h : pop.id <;> simp [h]

theorem Tallied.append {κ : Type} {backlog rest : List κ} {pops : List (Pop κ)} {pop : Pop κ}
    (h : Tallied backlog pops (pop.connection.toList ++ rest))
    (hf : pop.first = true → pop.connection.isSome = true)
    (hid : ∀ id, pop.id = some id → id = serialOf ((ids pops).length + 1)) :
    Tallied backlog (pops ++ [pop]) rest := by
  refine ⟨fun p hp ↦ ?_, ?_, ?_⟩
  · rcases List.mem_append.1 hp with hp | hp
    · exact h.first p hp
    · cases List.mem_singleton.1 hp
      exact hf
  · rw [← h.popped, List.filterMap_append, List.append_assoc]
    cases hc : pop.connection <;> simp [hc]
  · rw [ids_append]
    cases hp : pop.id with
    | none =>
      rw [Option.toList_none, List.append_nil]
      exact h.numbered
    | some id =>
      rw [Option.toList_some, List.length_append, List.length_singleton, List.range'_1_concat,
        List.map_append, ← h.numbered, List.map_singleton, hid id hp, Nat.add_comm]

/-- Workers in front of a backlog of connections, and what they took from it so far. -/
structure Gate (κ : Type) where
  pool : Pool
  backlog : List κ
  stands : Nat → Stand := fun _ ↦ .outside
  pops : List (Pop κ) := []

namespace Gate

variable {κ : Type}

def put (g : Gate κ) (i : Nat) (s : Stand) (p : Pool) : Gate κ :=
  { g with pool := p, stands := fun j ↦ if j = i then s else g.stands j }

def record (g : Gate κ) (pop : Pop κ) (rest : List κ) (p : Pool) : Gate κ :=
  { g.put pop.worker .took p with backlog := rest, pops := g.pops ++ [pop] }

def take (g : Gate κ) (i : Nat) (p : Pool) : Gate κ :=
  let pop : Pop κ := { worker := i, first := g.stands i = .found }
  match g.backlog with
  | [] => g.record pop [] p
  | c :: rest =>
    let (id, q) := (Pool.hooks i).nextId p
    let id := if p.commons.faults.store then none else some id
    g.record { pop with connection := some c, id } rest q

def step (g : Gate κ) (a : Act) : Gate κ :=
  let p := g.pool.facing a.clock a.faults
  let hooks := Pool.hooks a.worker
  let s := g.stands a.worker
  match a.move with
  | .enter => g.put a.worker (s.enter (hooks.tryEnter p).1) (hooks.tryEnter p).2
  | .leave => g.put a.worker .outside (hooks.leave p)
  | .tick opened => g.put a.worker s (hooks.tick opened p)
  | .shutdown opened => g.put a.worker .outside (hooks.shutdown opened p)
  | .look => g.put a.worker (s.look g.backlog.isEmpty) p
  | .take => match s with
    | .outside | .inside => g
    | .found | .took => g.take a.worker p

structure Kept (backlog : List κ) (g : Gate κ) : Prop where
  guarded : g.pool.Guarded
  inside (i : Nat) : g.stands i ≠ .outside → g.pool.holds i = true
  found (i : Nat) : g.stands i = .found → g.backlog ≠ []
  counts : g.pool.Counts (Int64.ofNat ((ids g.pops).length + 1))
  tallied : Tallied backlog g.pops g.backlog

variable {backlog : List κ} {g : Gate κ} {i j : Nat}

theorem Kept.sole (h : Kept backlog g) (hi : g.stands i ≠ .outside) (hj : g.stands j ≠ .outside) :
    i = j :=
  h.guarded.sole i j (h.inside i hi) (h.inside j hj)

theorem Kept.put {p : Pool} {s : Stand} (h : Kept backlog g) (ht : Pool.Turns i g.pool p)
    (hs : s ≠ .outside → p.holds i = true) (hf : s = .found → g.backlog ≠ []) :
    Kept backlog (g.put i s p) := by
  refine ⟨h.guarded.turns ht, fun j hj ↦ ?_, fun j hj ↦ ?_, h.counts.of_store ht.store, h.tallied⟩
  · simp only [Gate.put] at hj ⊢
    split at hj
    · next hji =>
      subst hji
      exact hs hj
    · next hji => exact (ht.others j hji).trans (h.inside j hj)
  · simp only [Gate.put] at hj ⊢
    split at hj
    · exact hf hj
    · exact h.found j hj

theorem Kept.record {pop : Pop κ} {rest : List κ} {p : Pool} (h : Kept backlog g)
    (hi : g.stands pop.worker ≠ .outside) (hb : g.backlog = pop.connection.toList ++ rest)
    (hw : p.workers = g.pool.workers) (hl : p.commons.lock = g.pool.commons.lock)
    (hc : p.Counts (Int64.ofNat ((ids (g.pops ++ [pop])).length + 1)))
    (hf : pop.first = true → pop.connection.isSome = true)
    (hid : ∀ id, pop.id = some id → id = serialOf ((ids g.pops).length + 1)) :
    Kept backlog (g.record pop rest p) := by
  have hholds (j : Nat) : p.holds j = g.pool.holds j := by rw [Pool.holds, Pool.holds, hw]
  refine ⟨h.guarded.of_lock hw hl, fun j hj ↦ ?_, fun j hj ↦ ?_, hc,
    Tallied.append (hb ▸ h.tallied) hf hid⟩
  · simp only [Gate.record, Gate.put] at hj ⊢
    rw [hholds]
    split at hj
    · next hji => exact hji ▸ h.inside pop.worker hi
    · exact h.inside j hj
  · simp only [Gate.record, Gate.put] at hj
    split at hj
    · cases hj
    · next hji =>
      -- The others stand outside, so what a worker found is there until it takes it itself.
      exact absurd (h.sole (by rw [hj]; exact nofun) hi) hji

theorem Kept.take (h : Kept backlog g) (clock : Clock) (faults : Faults)
    (hi : g.stands i ≠ .outside) : Kept backlog (g.take i (g.pool.facing clock faults)) := by
  have hcounts : (g.pool.facing clock faults).Counts _ := h.counts.of_store rfl
  rw [Gate.take]
  cases hb : g.backlog with
  | nil =>
    refine h.record hi hb rfl rfl ?_ (fun hf ↦ ?_) nofun
    · rwa [ids_append, Option.toList_none, List.append_nil]
    · exact absurd hb (h.found i (of_decide_eq_true hf))
  | cons c rest =>
    have hlock := Worker.lock_nextId (g.pool.facing clock faults).commons
    cases hf : faults.store with
    | true =>
      refine h.record hi hb rfl hlock ?_ (fun _ ↦ rfl) ?_
      · simp only [ids_append, Pool.facing, hf, if_true, Option.toList_none, List.append_nil]
        exact hcounts.nextId_of_fault i hf
      · simp only [Pool.facing, hf, if_true]
        exact nofun
    | false =>
      obtain ⟨hid, hnext⟩ := hcounts.nextId i hf
      refine h.record hi hb rfl hlock ?_ (fun _ ↦ rfl) fun id hsome ↦ ?_
      · simp only [ids_append, Pool.facing, hf, Bool.false_eq_true, if_false, Option.toList_some,
          List.length_append, List.length_singleton]
        exact hnext
      · simp only [Pool.facing, hf, Bool.false_eq_true, if_false, Option.some.injEq] at hsome
        exact hsome.symm.trans hid

theorem Kept.step (h : Kept backlog g) (a : Act) : Kept backlog (g.step a) := by
  obtain ⟨i, move, clock, faults⟩ := a
  obtain ⟨locked, hl⟩ := h.guarded.flag
  cases move with
  | enter =>
    obtain ⟨ht, hwon⟩ := Pool.turns_tryEnter i (p := g.pool.facing clock faults) hl
    exact h.put ht.of_facing (fun hs ↦ hwon (Stand.won_of_enter hs))
      fun hs ↦ h.found i (Stand.found_of_enter hs)
  | leave =>
    have ht := Pool.turns_act (i := i) (p := g.pool.facing clock faults) Worker.turns_leave
    exact h.put ht.of_facing (fun hs ↦ absurd rfl hs) nofun
  | tick opened =>
    have ht := Pool.turns_act (i := i) (p := g.pool.facing clock faults)
      (Worker.turns_tick clock opened)
    have hh : ((g.pool.facing clock faults).act i (Worker.tick clock opened)).holds i =
        g.pool.holds i := Pool.holds_act fun w c ↦ (w.tick_keeps clock opened c).2.2
    exact h.put ht.of_facing (fun hs ↦ hh.trans (h.inside i hs)) (h.found i)
  | shutdown opened =>
    have ht := Pool.turns_act (i := i) (p := g.pool.facing clock faults)
      (Worker.turns_shutdown clock opened)
    exact h.put ht.of_facing (fun hs ↦ absurd rfl hs) nofun
  | look =>
    refine h.put (Pool.turns_facing i ..) (fun hs ↦ h.inside i (Stand.ne_of_look hs)) fun hs ↦ ?_
    exact List.isEmpty_eq_false_iff.1 (Stand.found_of_look hs)
  | take =>
    simp only [Gate.step]
    cases hs : g.stands i with
    | outside | inside => exact h
    | found | took => exact h.take clock faults (by rw [hs]; exact nofun)

theorem Kept.run (h : Kept backlog g) (acts : List Act) : Kept backlog (acts.foldl Gate.step g) := by
  induction acts generalizing g with
  | nil => exact h
  | cons a acts ih => exact ih (h.step a)

theorem kept_start {pool : Pool} (h : pool.Fresh) (backlog : List κ) :
    Kept backlog { pool, backlog } := by
  have hnone (i : Nat) : pool.holds i = false := by
    rw [Pool.holds]
    cases hw : pool.workers[i]? with
    | none => rfl
    | some w => exact h.free w (List.mem_of_getElem? hw)
  have hfree (i : Nat) (hi : pool.holds i = true) : False := by
    rw [hnone] at hi
    cases hi
  exact ⟨⟨h.flag, fun i hi ↦ (hfree i hi).elim, fun i _ hi ↦ (hfree i hi).elim⟩,
    fun _ hi ↦ absurd rfl hi, nofun, h.counts, ⟨nofun, rfl, rfl⟩⟩

/-- However the workers' moves interleave and whichever of their calls fail, at most one worker is
inside the gate, what it takes first behind a look is there, and each connection is taken once, in
order. The numbers of the connections are 1, 2, 3 and so on, as far as a signed word goes. -/
theorem takes_once {pool : Pool} (h : pool.Fresh) (backlog : List κ) (acts : List Act) :
    let g := acts.foldl Gate.step { pool, backlog }
    (∀ i j, g.stands i ≠ .outside → g.stands j ≠ .outside → i = j) ∧
      (∀ p ∈ g.pops, p.first = true → p.connection.isSome = true) ∧
      g.pops.filterMap (·.connection) ++ g.backlog = backlog ∧
      ids g.pops = (List.range' 1 (ids g.pops).length).map serialOf ∧
      ((ids g.pops).length < 0x8000000000000000 →
        (ids g.pops).map UInt64.toNat = List.range' 1 (ids g.pops).length) := by
  intro g
  have hg : Kept backlog g := (kept_start h backlog).run acts
  have hids := hg.tallied.numbered
  refine ⟨fun i j hi hj ↦ hg.sole hi hj, hg.tallied.first, hg.tallied.popped, hids, fun hl ↦ ?_⟩
  exact (congrArg (List.map UInt64.toNat) hids).trans (map_toNat_serialOf hl)

def contended : List Act :=
  let act (worker : Nat) (move : Move) : Act := { worker, move, clock := .after 0 0 }
  [act 0 .enter, act 1 .enter, act 0 .look, act 0 .take,
    { act 0 .leave with faults := { release := true } }, act 1 .enter, act 0 .enter, act 0 .look,
    { act 0 .take with faults := { store := true } }, act 0 (.shutdown 2), act 2 .enter,
    act 2 .look, act 2 .take, act 2 .take]

theorem takes_once_contended :
    let pool := Pool.starting 3 1000 (.after 0 0) (Commons.inProcess.setSerial 1)
    let g := contended.foldl Gate.step { pool, backlog := ["a", "b", "c"] }
    pool.Fresh ∧ (∀ i j, g.stands i ≠ .outside → g.stands j ≠ .outside → i = j) ∧
      (∀ p ∈ g.pops, p.first = true → p.connection.isSome = true) ∧
      g.pops.filterMap (·.connection) ++ g.backlog = ["a", "b", "c"] ∧
      ids g.pops = (List.range' 1 (ids g.pops).length).map serialOf ∧
      ((ids g.pops).length < 0x8000000000000000 →
        (ids g.pops).map UInt64.toNat = List.range' 1 (ids g.pops).length) ∧
      g.pops.map (·.worker) = [0, 0, 2, 2] ∧ ids g.pops = [1, 2] := by
  have h : (Pool.starting 3 1000 (.after 0 0) (Commons.inProcess.setSerial 1)).Fresh :=
    ⟨by decide, ⟨false, rfl⟩, ⟨_, rfl⟩, rfl⟩
  obtain ⟨hsole, hfirst, hpopped, hids, hnumbers⟩ := takes_once h ["a", "b", "c"] contended
  exact ⟨h, hsole, hfirst, hpopped, hids, hnumbers, rfl, rfl⟩

end Gate

end Prefork.Supervision
