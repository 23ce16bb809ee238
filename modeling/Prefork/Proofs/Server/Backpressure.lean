import Prefork.Proofs.Server.Integrity

namespace Prefork.Server

variable {σ η : Type}

namespace Connection

def pieces (size : Nat) (data : Bytes) : List Bytes :=
  if size = 0 ∨ data.length ≤ size then [data] else data.take size :: pieces size (data.drop size)
termination_by data.length
decreasing_by
  rw [List.length_drop]
  omega

def inChunks (readChunk : Nat) (reads : List ReadResult) : List ReadResult :=
  reads.flatMap fun
    | .bytes data => (pieces (max readChunk 1) data).map .bytes
    | read => [read]

theorem flatten_pieces (size : Nat) (data : Bytes) : (pieces size data).flatten = data := by
  induction data using pieces.induct size with
  | case1 data h =>
    rw [pieces, if_pos h]
    exact List.append_nil data
  | case2 data h ih => rw [pieces, if_neg h, List.flatten_cons, ih, List.take_append_drop]

theorem ne_nil_of_mem_pieces {size : Nat} {data piece : Bytes} (hd : data ≠ [])
    (h : piece ∈ pieces size data) : piece ≠ [] := by
  induction data using pieces.induct size with
  | case1 data hs =>
    rw [pieces, if_pos hs, List.mem_singleton] at h
    exact h ▸ hd
  | case2 data hs ih =>
    rw [pieces, if_neg hs, List.mem_cons] at h
    rcases h with rfl | h
    · simp only [ne_eq, List.take_eq_nil_iff, hd, or_false]
      omega
    · refine ih ?_ h
      simp only [ne_eq, List.drop_eq_nil_iff]
      omega

theorem data_delivered_bytes {chunks : List Bytes} (hc : ∀ chunk ∈ chunks, chunk ≠ [])
    (reads : List ReadResult) : delivered (chunks.map .bytes ++ reads) =
      { delivered reads with data := chunks.flatten ++ (delivered reads).data } := by
  induction chunks with
  | nil => rfl
  | cons chunk chunks ih =>
    obtain ⟨hne, hrest⟩ := List.forall_mem_cons.1 hc
    cases chunk with
    | nil => exact absurd rfl hne
    | cons x chunk =>
      rw [List.map_cons, List.cons_append, delivered, ih hrest, List.flatten_cons,
        List.append_assoc]

/-- The size of the buffer does not change what a socket gives. -/
theorem delivered_inChunks (readChunk : Nat) (reads : List ReadResult) :
    delivered (inChunks readChunk reads) = delivered reads := by
  induction reads with
  | nil => rfl
  | cons read reads ih =>
    match read with
    | .wouldBlock | .failed e => rfl
    | .interrupted => exact ih
    | .bytes [] =>
      have hp : pieces (max readChunk 1) [] = [[]] := by
        rw [pieces, if_pos (.inr (Nat.zero_le _))]
      rw [inChunks, List.flatMap_cons]
      dsimp only
      rw [hp]
      rfl
    | .bytes (x :: more) =>
      rw [inChunks, List.flatMap_cons]
      dsimp only
      rw [data_delivered_bytes fun _ ↦ ne_nil_of_mem_pieces (List.cons_ne_nil x more),
        flatten_pieces]
      show ({ delivered (inChunks readChunk reads) with data := _ } : Received) = _
      rw [← inChunks, ih]
      rfl

theorem readFrom_ne_bufferFull {held max : Nat} {data : Bytes} {reads : List ReadResult}
    (h : data.length + (delivered reads).data.length + held ≤ max) (size limit : Nat) :
    readFrom held max data reads ≠ .error (.bufferFull size limit) := by
  induction reads generalizing data with
  | nil => nofun
  | cons read reads ih =>
    match read with
    | .wouldBlock | .bytes [] | .failed e => nofun
    | .interrupted => exact ih h
    | .bytes (x :: more) =>
      have hl : (data ++ x :: more).length + (delivered reads).data.length + held ≤ max := by
        simp only [delivered, List.length_append] at h ⊢
        omega
      rw [readFrom, if_neg (by omega)]
      · exact ih hl
      · exact List.cons_ne_nil x more

theorem readFrom_bufferFull {held max : Nat} {data : Bytes} {reads : List ReadResult}
    (hd : data.length + held ≤ max)
    (h : max < data.length + (delivered reads).data.length + held) :
    ∃ size limit, readFrom held max data reads = .error (.bufferFull size limit) := by
  induction reads generalizing data with
  | nil => exact absurd hd (Nat.not_le.2 h)
  | cons read reads ih =>
    match read with
    | .wouldBlock | .bytes [] | .failed e => exact absurd hd (Nat.not_le.2 h)
    | .interrupted => exact ih hd h
    | .bytes (x :: more) =>
      have hl : max < (data ++ x :: more).length + (delivered reads).data.length + held := by
        simp only [delivered, List.length_append] at h ⊢
        omega
      rw [readFrom]
      · split
        · exact ⟨_, _, rfl⟩
        · next hfits => exact ih (Nat.not_lt.1 hfits) hl
      · exact List.cons_ne_nil x more

theorem length_le_of_readFrom {held max : Nat} {data : Bytes} {reads : List ReadResult}
    {d : Received} (hd : data.length + held ≤ max) (h : readFrom held max data reads = .ok d) :
    d.data.length + held ≤ max := by
  induction reads generalizing data with
  | nil =>
    cases h
    exact hd
  | cons read reads ih =>
    match read with
    | .wouldBlock | .bytes [] =>
      cases h
      exact hd
    | .failed e => cases h
    | .interrupted => exact ih hd h
    | .bytes (x :: more) =>
      simp only [readFrom] at h
      split at h
      · cases h
      · next hfits => exact ih (Nat.not_lt.1 hfits) h

theorem state_enter {config : Config σ} {t : Token} {now : Time.Millis} {registered : Bool}
    {context : Context} {s : σ} {c : Connection σ}
    (h : (enter config t now registered context s).1 = some c) :
    c.state = (config.protocol.opened now s).state := by
  simp only [enter] at h
  split at h
  · rw [rearm] at h
    split at h
    · cases h
      rfl
    · cases h
  · cases h

end Connection

theorem Touch.given_le {config : Config σ} {x : Touch} {c d : Connection σ}
    (hc : config.protocol.buffered c.state ≤ config.maxBuffer) (h : x.fate config c = .ok d) :
    config.protocol.buffered c.state + (x.given config c).length ≤ config.maxBuffer := by
  cases x with
  | send t outcome => exact hc
  | close t => exact hc
  | react r =>
    rw [given]
    split
    · exact hc
    · next hr =>
      simp only [Bool.or_eq_true, Bool.not_eq_true', not_or, Bool.not_eq_true,
        Bool.not_eq_false] at hr
      obtain ⟨⟨herror, hreadable⟩, hclosing⟩ := hr
      simp only [fate, herror, hreadable, Bool.false_eq_true, if_false, if_true,
        Connection.receiveFate, hclosing] at h
      cases hread : Connection.readFrom (config.protocol.buffered c.state) config.maxBuffer []
          r.reads with
      | error e =>
        rw [hread] at h
        cases h
      | ok read =>
        have hgiven := Connection.readFrom_given hread
        have hle := Connection.length_le_of_readFrom ((Nat.zero_add _).symm ▸ hc) hread
        rw [List.nil_append, List.length_nil, Nat.zero_add] at hgiven
        rw [← hgiven]
        omega

/-- At every moment of its life, what a handler holds is below the limit. -/
theorem Life.buffered_le {config : Config σ} {own new : σ → Prop} {t : Token}
    {parts : List (Part σ)} {v : View σ} (ho : Offered config.protocol own new)
    (h : Life config t parts v) (hs : ∀ s ∈ handlerOf parts, new s) {c : Connection σ}
    (hc : v.1 = some c) :
    own c.state ∧ config.protocol.buffered c.state ≤ config.maxBuffer := by
  have hm := ho.modest
  induction h generalizing c with
  | new => cases hc
  | @enters context s env hb =>
    obtain ⟨hown, hzero⟩ := ho.own_new (hs s rfl)
    rw [Connection.state_enter hc, hm.opened env.now hown, hzero]
    exact ⟨hm.own_opened env.now hown, Nat.zero_le _⟩
  | @touched parts d acts x ht h ih =>
    obtain ⟨part, rest, rfl⟩ := List.exists_cons_of_ne_nil (h.ne_nil rfl)
    obtain ⟨hown, hle⟩ := ih hs rfl
    have hb : Balanced config x.token d (x.given config d) (x.fate config d) (x.act config d) :=
      .touch hm x hown
    have hf : x.fate config d = .ok c := hb.fate_eq hc
    have hplay := hm.buffered_play_le (callbacksOn x.token (x.act config d).2) hown
    have hpassed := hb.passed.length_le
    have hgiven := Touch.given_le hle hf
    rw [hb.state hf]
    exact ⟨hm.own_play _ hown, by rw [passedTo] at hpassed; omega⟩

namespace Loop

variable {l : Loop σ η} {t : Token}

theorem overflowed_close (l : Loop σ η) (t : Token) :
    (l.close t).1.stats.overflowed = l.stats.overflowed := by
  rw [close]
  split <;> rfl

theorem overflowed_rearm (l : Loop σ η) (t : Token) (rearmed : Bool) :
    (l.rearm t rearmed).1.stats.overflowed = l.stats.overflowed := by
  rw [rearm]
  split
  · rfl
  · split
    · rfl
    · exact overflowed_close l t

theorem close_of_find? {c : Connection σ} (h : l.find? t = some c) :
    (l.close t).2 = [.closed t, .dropped t] ∧ (l.close t).1.find? t = none ∧
      ∀ u ≠ t, (l.close t).1.find? u = l.find? u := by
  have hs := Concerns.close t l
  refine ⟨?_, ?_, fun u hu ↦ congrArg Prod.fst (hs.other hu)⟩
  · rw [close, h]
  · have hown := hs.own
    rw [h] at hown
    exact congrArg Prod.fst hown

variable (config : Config σ)

theorem overflowed_send (l : Loop σ η) (t : Token) (outcome : WriteOutcome) :
    (l.send config t outcome).1.stats.overflowed = l.stats.overflowed := by
  rw [send]
  split
  · rfl
  · dsimp only
    split
    · exact overflowed_close _ t
    · split
      · exact overflowed_rearm _ t _
      · split
        · exact overflowed_close _ t
        · split
          · exact overflowed_rearm _ t _
          · exact overflowed_close _ t

theorem overflowed_answer (l : Loop σ η) (t : Token) (finished : Bool) (outcome : WriteOutcome) :
    (l.answer config t finished outcome).1.stats.overflowed = l.stats.overflowed := by
  rw [answer]
  split
  · rfl
  · split
    · split
      · exact overflowed_close l t
      · exact overflowed_rearm l t _
    · exact overflowed_send config _ t outcome

theorem overflowed_receive {r : Readiness} {c : Connection σ} (h : l.find? r.token = some c)
    (hr : ∀ size limit, Connection.readFrom (config.protocol.buffered c.state) config.maxBuffer []
      r.reads ≠ .error (.bufferFull size limit)) :
    (l.receive config r).1.stats.overflowed = l.stats.overflowed := by
  rw [receive, h]
  dsimp only
  split
  · rfl
  · split
    · next hread => exact absurd hread (hr _ _)
    · exact overflowed_close l _
    · exact overflowed_answer config l ..
    · split
      · exact overflowed_answer config _ ..
      · exact overflowed_close _ _

theorem receive_bufferFull {r : Readiness} {c : Connection σ} (h : l.find? r.token = some c)
    (hc : c.closing = false) (hr : ∃ size limit, Connection.readFrom
      (config.protocol.buffered c.state) config.maxBuffer [] r.reads =
        .error (.bufferFull size limit)) :
    l.receive config r = ({ l with stats := l.stats.overflow } : Loop σ η).close r.token := by
  obtain ⟨size, limit, hr⟩ := hr
  rw [receive, h]
  simp only [hc, hr, Bool.false_eq_true, if_false]

end Loop

open Connection (delivered inChunks)

/-- How far a peer can get with the connection `c` that has token `t`. -/
structure Loop.Bounds (config : Config σ) (l : Loop σ η) (t : Token) (c : Connection σ) :
    Prop where
  held : config.protocol.buffered c.state ≤ config.maxBuffer
  /-- Too many bytes at once, in chunks of any size, close it unseen, and no other connection.
  Nothing more is read from a connection that is closing. -/
  overflow {r : Readiness} (readChunk : Nat) : r.token = t → c.closing = false →
    config.maxBuffer < config.protocol.buffered c.state + (delivered r.reads).data.length →
    let last := l.receive config { r with reads := inChunks readChunk r.reads }
    last.1.stats.overflowed = l.stats.overflowed + 1 ∧ last.2 = [.closed t, .dropped t] ∧
      last.1.find? t = none ∧ ∀ u ≠ t, last.1.find? u = l.find? u
  fits {r : Readiness} (readChunk : Nat) : r.token = t →
    config.protocol.buffered c.state + (delivered r.reads).data.length ≤ config.maxBuffer →
    (l.receive config { r with reads := inChunks readChunk r.reads }).1.stats.overflowed =
      l.stats.overflowed

variable {hooks : Hooks η} {config : Config σ} {l : Loop σ η} {h : History σ η} {t : Token}

/-- A handler never holds more than it was given. So at every moment each connection holds less
than the limit, and is closed for overflow exactly if more than the rest becomes available to it
at once. -/
theorem Moment.backpressure {own new : σ → Prop} (ho : Offered config.protocol own new)
    (hm : Moment hooks config h l) (hs : ∀ s ∈ handlerOf (h.parts hooks config t), new s) :
    (∀ s, own s →
      (∀ data, config.protocol.buffered (config.protocol.received data s).state ≤
        config.protocol.buffered s + data.length) ∧
      config.protocol.buffered (config.protocol.drained s).state ≤ config.protocol.buffered s) ∧
    ∀ c, l.find? t = some c → l.Bounds config t c := by
  refine ⟨fun s hs ↦ ⟨fun data ↦ ho.modest.received data hs, ho.modest.drained hs⟩, fun c hc ↦ ?_⟩
  have hheld := ((hm.life t).buffered_le ho hs hc).2
  constructor
  · exact hheld
  · intro r readChunk ht hclosing hover
    subst ht
    have hfull : ∃ size limit, Connection.readFrom (config.protocol.buffered c.state)
        config.maxBuffer [] (inChunks readChunk r.reads) = .error (.bufferFull size limit) := by
      refine Connection.readFrom_bufferFull (by simpa using hheld) ?_
      rw [Connection.delivered_inChunks, List.length_nil]
      omega
    have hlast : l.receive config { r with reads := inChunks readChunk r.reads } =
        ({ l with stats := l.stats.overflow } : Loop σ η).close r.token :=
      Loop.receive_bufferFull config hc hclosing hfull
    have hc' : ({ l with stats := l.stats.overflow } : Loop σ η).find? r.token = some c := hc
    dsimp only
    rw [hlast]
    exact ⟨Loop.overflowed_close _ _, Loop.close_of_find? hc'⟩
  · intro r readChunk ht hfits
    subst ht
    refine Loop.overflowed_receive config hc (Connection.readFrom_ne_bufferFull ?_)
    rw [Connection.delivered_inChunks, List.length_nil]
    omega

/-- With a part of a request behind one that is being answered, a server holds 3 bytes. -/
theorem backpressure_halfAnswer :
    let config : Config Http.Session :=
      { protocol := Http.Session.protocol .greeting, build := fun _ ↦ .ok {}, maxBuffer := 1024 }
    let first := (({ hooks := firstId } : Loop _ UInt64).pollOnce .standalone config acceptance).2
    let second := (first.1.pollOnce .standalone config halfAnswer).2
    ∃ c, second.1.find? 1 = some c ∧ config.protocol.buffered c.state = 3 ∧
      second.1.Bounds config 1 c := by
  intro config first second
  obtain ⟨h₁, hp₁, -⟩ : Loop.Stepwise .standalone config { hooks := firstId } first :=
    .pollOnce acceptance _
  obtain ⟨h₂, hp₂, -⟩ : Loop.Stepwise .standalone config first.1 second := .pollOnce halfAnswer _
  have hm : Moment .standalone config (h₁ ++ h₂) second.1 := ⟨firstId, hp₁.trans hp₂⟩
  have hs : ∀ s ∈ handlerOf ((h₁ ++ h₂).parts .standalone config 1), s = {} := by
    intro s hs
    obtain ⟨context, hb⟩ := (hm.life 1).build_handlerOf hs
    cases hb
    rfl
  have hheld : (second.1.find? 1).map (config.protocol.buffered ·.state) = some 3 := by
    decide +kernel
  obtain ⟨c, hc, hheld⟩ := Option.map_eq_some_iff.1 hheld
  exact ⟨c, hc, hheld, (hm.backpressure (.http .greeting) hs).2 c hc⟩

end Prefork.Server
