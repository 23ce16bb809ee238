import Prefork.Proofs.Coordination.Table

namespace Prefork.Coordination

inductive Call where
  | get (key : String)
  | set (key : String) (value : Int64)
  | delete (key : String)
  | increment (key : String) (amount : Int64)
  deriving DecidableEq, Repr

inductive Answer where
  | found (value : Option Int64)
  | stored
  | deleted (wasThere : Bool)
  | counted (value : Int64)
  deriving DecidableEq, Repr

namespace Call

def key : Call → String
  | get key | set key _ | delete key | increment key _ => key

def inserts : Call → Bool
  | set _ _ | increment _ _ => true
  | get _ | delete _ => false

def on (call : Call) (s : Store) : Except Error Answer × Store :=
  match call with
  | get key => let (r, s) := s.get key; (r.map .found, s)
  | set key value => let (r, s) := s.set key value; (r.map fun _ ↦ .stored, s)
  | delete key => let (r, s) := s.delete key; (r.map .deleted, s)
  | increment key amount => let (r, s) := s.increment key amount; (r.map .counted, s)

def effect (call : Call) (s : Store) : Except Error (Answer × Store) :=
  match call with
  | get key => .ok (.found (s.lookup key), s)
  | set key value => (s.bind key value).map (.stored, ·)
  | delete key => .ok (.deleted (s.lookup key).isSome, s.unbind key)
  | increment key amount =>
    let value := (s.lookup key).getD 0 + amount
    (s.bind key value).map (.counted value, ·)

end Call

def isStoreFull : Except Error Answer → Bool
  | .error (.storeFull _) => true
  | _ => false

def Refused (slots : List Slot) (call : Call) : Prop :=
  call.inserts = true ∧ call.key.utf8ByteSize ≤ Store.maxKey ∧ Full slots call.key

variable {s : Store} {slots : List Slot} {entries : Std.TreeMap String Int64} {call : Call}

theorem Store.run_map {α β : Type} (s : Store) (key : String) (f : Except Error (α × Store))
    (g : α → β) :
    ((s.run key f).1.map g, (s.run key f).2) = s.run key (f.map fun (a, s) ↦ (g a, s)) := by
  unfold run
  cases s.access key <;> cases f <;> rfl

theorem Call.on_eq_run (call : Call) (s : Store) :
    call.on s = s.run call.key (call.effect s) := by
  cases call with
  | get key => exact s.run_map key _ _
  | delete key => exact s.run_map key _ _
  | set key value =>
    refine (s.run_map key _ _).trans (congrArg _ ?_)
    rw [effect]
    cases s.bind key value <;> rfl
  | increment key amount =>
    refine (s.run_map key _ _).trans (congrArg _ ?_)
    rw [effect]
    cases s.bind key _ <;> rfl

theorem Call.on_of_long (h : Store.maxKey < call.key.utf8ByteSize) :
    call.on s = (.error (.keyTooLong call.key.utf8ByteSize Store.maxKey), s) := by
  have haccess : s.access call.key = .error (.keyTooLong call.key.utf8ByteSize Store.maxKey) := by
    rw [Store.access, Store.checkKey, if_pos h]
    rfl
  simp only [on_eq_run, Store.run, haccess]

theorem Call.on_of_short (h : call.key.utf8ByteSize ≤ Store.maxKey) (hs : s.isLive = true) :
    call.on s = match call.effect s with
      | .ok (answer, s') => (.ok answer, s')
      | .error e => (.error e, s) := by
  have haccess : s.access call.key = .ok () := by
    rw [Store.access, Store.checkKey, if_neg (by omega), hs]
    rfl
  simp only [on_eq_run, Store.run, haccess]
  cases call.effect s <;> rfl

theorem Sound.effect (h : Sound slots) (hm : Mirrors slots entries)
    (hkey : call.key.utf8ByteSize ≤ Store.maxKey) :
    Refused slots call ∧ call.effect (.table slots true) = .error (.storeFull call.key) ∨
      ¬ Refused slots call ∧ ∃ answer slots' entries',
        call.effect (.table slots true) = .ok (answer, .table slots' true) ∧
        call.effect (.map entries) = .ok (answer, .map entries') ∧
        Sound slots' ∧ Mirrors slots' entries' := by
  cases hcall : call with
  | get key =>
    refine .inr ⟨nofun, .found entries[key]?, slots, entries, ?_, rfl, h, hm⟩
    rw [Call.effect, hm key]
  | delete key =>
    obtain ⟨slots', hunbind, hsound, hmirrors⟩ := h.unbind hm key
    refine .inr ⟨nofun, .deleted entries[key]?.isSome, slots', entries.erase key, ?_, rfl, hsound,
      hmirrors⟩
    rw [Call.effect, hm key, hunbind]
  | set key value =>
    subst hcall
    rcases h.bind hm hkey value with ⟨hfull, hbind⟩ | ⟨hfull, slots', hbind, hsound, hmirrors⟩
    · refine .inl ⟨⟨rfl, hkey, hfull⟩, ?_⟩
      exact congrArg (Except.map _) hbind
    · refine .inr ⟨fun hr ↦ hfull hr.2.2, .stored, slots', entries.insert key value, ?_, rfl,
        hsound, hmirrors⟩
      exact congrArg (Except.map _) hbind
  | increment key amount =>
    subst hcall
    have hvalue : (Store.table slots true).lookup key = entries[key]? := hm key
    rcases h.bind hm hkey (entries[key]?.getD 0 + amount) with
      ⟨hfull, hbind⟩ | ⟨hfull, slots', hbind, hsound, hmirrors⟩
    · refine .inl ⟨⟨rfl, hkey, hfull⟩, ?_⟩
      rw [Call.effect, hvalue]
      exact congrArg (Except.map _) hbind
    · refine .inr ⟨fun hr ↦ hfull hr.2.2, _, slots', _, ?_, rfl, hsound, hmirrors⟩
      rw [Call.effect, hvalue]
      exact congrArg (Except.map _) hbind

/-- A call on a table, which is refused and changes nothing, or is answered as by the map. -/
theorem Sound.on (h : Sound slots) (hm : Mirrors slots entries) (call : Call) :
    Refused slots call ∧
        call.on (.table slots true) = (.error (.storeFull call.key), .table slots true) ∨
      ¬ Refused slots call ∧ ∃ answer slots' entries', isStoreFull answer = false ∧
        call.on (.table slots true) = (answer, .table slots' true) ∧
        call.on (.map entries) = (answer, .map entries') ∧
        Sound slots' ∧ Mirrors slots' entries' ∧ ∀ e, answer = .error e → slots' = slots := by
  by_cases hkey : call.key.utf8ByteSize ≤ Store.maxKey
  · rw [Call.on_of_short hkey rfl, Call.on_of_short hkey rfl]
    rcases h.effect hm hkey with ⟨hr, he⟩ | ⟨hr, answer, slots', entries', he, hmap, hs', hm'⟩
    · rw [he]
      exact .inl ⟨hr, rfl⟩
    · rw [he, hmap]
      exact .inr ⟨hr, .ok answer, slots', entries', rfl, rfl, rfl, hs', hm', nofun⟩
  · have hlong : Store.maxKey < call.key.utf8ByteSize := by omega
    exact .inr ⟨fun hr ↦ hkey hr.2.1, _, slots, entries, rfl, Call.on_of_long hlong,
      Call.on_of_long hlong, h, hm, fun _ _ ↦ rfl⟩

def Store.play (s : Store) : List Call → List (Except Error Answer) × Store
  | [] => ([], s)
  | call :: calls =>
    let (answer, s) := call.on s
    let (answers, s) := s.play calls
    (answer :: answers, s)

/-- One call in a history: who made it and what it was answered. -/
structure Entry (processes : Nat) where
  process : Fin processes
  call : Call
  answer : Except Error Answer

namespace Handles

def forked (processes : Nat) (s : Store) : Handles Store Unit where
  objects := [s]
  handles := List.replicate processes (some (0, ()))
  named := none

def request (h : Handles Store Unit) (process : Nat) (call : Call) :
    Option (Except Error Answer) × Handles Store Unit :=
  match h.find? process with
  | some (place, s, own) =>
    let (answer, s) := call.on s
    (some answer, h.update process place s own)
  | none => (none, h)

/-- The calls of many processes, each of which has the store for itself. -/
def interleave {processes : Nat} (h : Handles Store Unit) :
    List (Fin processes × Call) → List (Entry processes) × Handles Store Unit
  | [] => ([], h)
  | (process, call) :: history =>
    let (answer, h) := h.request process call
    let (entries, h) := h.interleave history
    (answer.toList.map (Entry.mk process call) ++ entries, h)

variable {processes : Nat}

theorem request_forked (process : Fin processes) (call : Call) (s : Store) :
    (forked processes s).request process call =
      (some (call.on s).1, forked processes (call.on s).2) := by
  have hhandle : (forked processes s).find? process = some (0, s, ()) := by
    simp [forked, find?]
  have hset : (forked processes s).handles.set process (some (0, ())) =
      (forked processes s).handles := List.set_replicate_self
  rw [request, hhandle]
  simp only [update, hset]
  rfl

theorem interleave_cons (process : Fin processes) (call : Call)
    (history : List (Fin processes × Call)) (s : Store) :
    (forked processes s).interleave ((process, call) :: history) =
      (⟨process, call, (call.on s).1⟩ ::
          ((forked processes (call.on s).2).interleave history).1,
        ((forked processes (call.on s).2).interleave history).2) := by
  rw [interleave, request_forked]
  rfl

def accepted (entries : List (Entry processes)) : List (Entry processes) :=
  entries.filter fun e ↦ !isStoreFull e.answer

/-- What processes may rely on when they share a table. -/
structure Reliable (processes : Nat) (slots : List Slot) : Prop where
  distinct : (names slots).Nodup
  short : ∀ name ∈ names slots, name.length ≤ Store.maxKey
  live : ∀ key, (Store.table slots true).lookup key = none ↔ Utf8.encode key ∉ names slots
  full : ∀ (process : Fin processes) (call : Call) (key : String),
    ((forked processes (.table slots true)).request process call).1 =
        some (.error (.storeFull key)) ↔
      key = call.key ∧ Refused slots call
  unchanged : ∀ (process : Fin processes) (call : Call) (e : Error),
    ((forked processes (.table slots true)).request process call).1 = some (.error e) →
      ((forked processes (.table slots true)).request process call).2 =
        forked processes (.table slots true)

theorem reliable (h : Sound slots) (hm : Mirrors slots entries) : Reliable processes slots where
  distinct := h.nodup_names
  short name hn := h.length_le_of_mem_names hn
  live _ := lookup_eq_none_iff
  full process call key := by
    rw [request_forked]
    rcases h.on hm call with ⟨hr, hon⟩ | ⟨hr, answer, slots', entries', hanswer, hon, -⟩
    · rw [hon]
      simp only [Option.some.injEq, Except.error.injEq, Error.storeFull.injEq]
      exact ⟨fun hkey ↦ ⟨hkey.symm, hr⟩, fun hkey ↦ hkey.1.symm⟩
    · rw [hon]
      refine ⟨fun he ↦ ?_, fun hkey ↦ absurd hkey.2 hr⟩
      have hanswer' : isStoreFull (.error (.storeFull key)) = false := Option.some.inj he ▸ hanswer
      cases hanswer'
  unchanged process call e := by
    rw [request_forked]
    intro he
    rcases h.on hm call with ⟨hr, hon⟩ | ⟨hr, answer, slots', entries', -, hon, -, -, -, hsame⟩
    · rw [hon]
    · rw [hon] at he ⊢
      rw [hsame e (Option.some.inj he)]

theorem interleave_of_sound (h : Sound slots) (hm : Mirrors slots entries)
    (history : List (Fin processes × Call)) :
    let served := (forked processes (.table slots true)).interleave history
    served.1.map (fun e ↦ (e.process, e.call)) = history ∧
      (accepted served.1).map (·.answer) =
        ((Store.map entries).play ((accepted served.1).map (·.call))).1 ∧
      ∃ slots', served.2 = forked processes (.table slots' true) ∧ Reliable processes slots' := by
  induction history generalizing slots entries with
  | nil => exact ⟨rfl, rfl, slots, rfl, reliable h hm⟩
  | cons request history ih =>
    obtain ⟨process, call⟩ := request
    rw [interleave_cons]
    rcases h.on hm call with ⟨-, hon⟩ | ⟨-, answer, slots', entries', hanswer, hon, hmap, hs', hm', -⟩
    · obtain ⟨hcalls, hanswers, hlast⟩ := ih h hm
      rw [hon]
      refine ⟨congrArg (_ :: ·) hcalls, ?_, hlast⟩
      exact hanswers
    · obtain ⟨hcalls, hanswers, hlast⟩ := ih hs' hm'
      rw [hon]
      refine ⟨congrArg (_ :: ·) hcalls, ?_, hlast⟩
      have haccepted (rest : List (Entry processes)) :
          accepted (⟨process, call, answer⟩ :: rest) = ⟨process, call, answer⟩ :: accepted rest :=
        List.filter_cons_of_pos (by rw [hanswer]; rfl)
      rw [haccepted, List.map_cons, List.map_cons, Store.play, hmap, hanswers]

/-- A table is a map with room for `Store.slotCount` counters. However the calls of the processes
follow each other, those that were not refused for want of a free slot are answered as the map
answers them, and a call is so refused just if it would make one counter too many. -/
theorem interleave_serves_as_map (processes : Nat) (history : List (Fin processes × Call)) :
    let served := (forked processes .emptyTable).interleave history
    served.1.map (fun e ↦ (e.process, e.call)) = history ∧
      (accepted served.1).map (·.answer) =
        (Store.emptyMap.play ((accepted served.1).map (·.call))).1 ∧
      ∃ slots, served.2 = forked processes (.table slots true) ∧ Reliable processes slots :=
  interleave_of_sound sound_fresh mirrors_fresh history

/-- A key that is too long is told so, even by a full table. -/
theorem full_table_refuses_long_key :
    let fill : List (Fin 1 × Call) :=
      (List.range Store.slotCount).map fun i ↦ (0, .set (toString i) 0)
    let long := Call.set (String.ofList (List.replicate 57 'x')) 1
    let h := ((forked 1 .emptyTable).interleave fill).2
    (∃ s ∈ h.objects, Full s.slots long.key) ∧
      (h.request 0 long).1 = some (.error (.keyTooLong 57 56)) := by
  intro fill long h
  constructor
  · decide +kernel
  · obtain ⟨-, -, slots, hlast, -⟩ := interleave_of_sound sound_fresh mirrors_fresh fill
    have hlong : Store.maxKey < long.key.utf8ByteSize := by decide +kernel
    have hrequest := request_forked (0 : Fin 1) long (.table slots true)
    rw [Call.on_of_long hlong] at hrequest
    exact congrArg Prod.fst ((congrArg (request · 0 long) hlast).trans hrequest)

end Handles

end Prefork.Coordination
