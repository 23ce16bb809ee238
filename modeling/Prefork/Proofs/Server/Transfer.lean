import Prefork.Proofs.Server.View

namespace Prefork.Server

variable {σ η : Type}

def sentTo (t : Token) (acts : List Act) : Bytes :=
  acts.flatMap fun
    | .sent u data => if u = t then data else []
    | _ => []

theorem sentTo_append (t : Token) (acts more : List Act) :
    sentTo t (acts ++ more) = sentTo t acts ++ sentTo t more := List.flatMap_append

theorem sentTo_view (t : Token) (r : Loop.Run σ η) : sentTo t (Loop.view t r).2 = sentTo t r.2 := by
  have hf (acts : List Act) : sentTo t (acts.filter (·.token? == some t)) = sentTo t acts := by
    induction acts with
    | nil => rfl
    | cons a acts ih =>
      have hc (a : Act) (acts : List Act) : sentTo t (a :: acts) = sentTo t [a] ++ sentTo t acts :=
        sentTo_append t [a] acts
      by_cases ha : a.token? = some t
      · rw [List.filter_cons_of_pos (by simpa using ha), hc, ih, ← hc]
      · have hz : sentTo t [a] = [] := by
          cases a with
          | sent u data =>
            have hu : u ≠ t := fun h ↦ ha (congrArg some h)
            simp [sentTo, hu]
          | _ => rfl
        rw [List.filter_cons_of_neg (by simpa using ha), ih, hc, hz, List.nil_append]
  exact hf r.2

def Connection.delivered : List ReadResult → Connection.Received
  | [] | .wouldBlock :: _ | .failed _ :: _ => {}
  | .bytes [] :: _ => { finished := true }
  | .bytes (x :: more) :: rest =>
    { delivered rest with data := x :: more ++ (delivered rest).data }
  | .interrupted :: rest => delivered rest

def ReadResult.isFailure : ReadResult → Bool
  | .failed _ => true
  | .bytes _ | .wouldBlock | .interrupted => false

def WriteResult.isFailure : WriteResult → Bool
  | .taken 0 | .failed _ => true
  | .taken (_ + 1) | .wouldBlock | .interrupted => false

structure WriteOutcome.Sound (o : WriteOutcome) : Prop where
  rearmed : o.rearmed = true
  results : ∀ result ∈ o.results, result.isFailure = false

namespace Connection

/-- Without errors, and below the limit, reading gives what the socket gives. -/
theorem readFrom_eq {held max : Nat} {data : Bytes} {reads : List ReadResult}
    (hf : ∀ read ∈ reads, read.isFailure = false) (hm : data.length + (delivered reads).data.length + held ≤ max) :
    readFrom held max data reads =
      .ok { delivered reads with data := data ++ (delivered reads).data } := by
  induction reads generalizing data with
  | nil => simp only [readFrom, delivered, List.append_nil]
  | cons read reads ih =>
    obtain ⟨hread, hf'⟩ := List.forall_mem_cons.1 hf
    match read with
    | .wouldBlock | .bytes [] => simp only [readFrom, delivered, List.append_nil]
    | .interrupted => exact ih hf' hm
    | .failed e => cases hread
    | .bytes (x :: more) =>
      simp only [delivered, List.length_append] at hm
      have hl : (data ++ x :: more).length + (delivered reads).data.length + held ≤ max := by
        rw [List.length_append]
        omega
      have hlt : ¬ max < (data ++ x :: more).length + held := by omega
      simp only [readFrom, if_neg hlt, ih hf' hl, delivered, List.append_assoc]

theorem sent_append_pending (pending : Bytes) (results : List WriteResult) :
    (flush pending results).sent ++ (flush pending results).pending = pending := by
  induction results generalizing pending with
  | nil => rfl
  | cons result results ih =>
    cases pending with
    | nil => rfl
    | cons x pending =>
      match result with
      | .wouldBlock | .failed e | .taken 0 => rfl
      | .interrupted => exact ih _
      | .taken (n + 1) =>
        have ht := ih ((x :: pending).drop (n + 1))
        simp only [flush, List.isEmpty_cons, Bool.false_eq_true, if_false, List.append_assoc, ht,
          List.take_append_drop]

theorem error_flush {pending : Bytes} {results : List WriteResult}
    (hf : ∀ result ∈ results, result.isFailure = false) :
    (flush pending results).error = none := by
  induction results generalizing pending with
  | nil => rfl
  | cons result results ih =>
    obtain ⟨hresult, hf'⟩ := List.forall_mem_cons.1 hf
    cases pending with
    | nil => rfl
    | cons x pending =>
      match result with
      | .wouldBlock => rfl
      | .failed e | .taken 0 => cases hresult
      | .interrupted | .taken (n + 1) => exact ih hf'

/-- Writing without an error: the socket takes the front of the output, and if it takes all of it
the connection closes or the protocol says what comes next. -/
theorem send_sound (config : Config σ) (t : Token) {outcome : WriteOutcome} (h : outcome.Sound)
    (c : Connection σ) :
    ∃ pending, sentTo t (c.send config t outcome).2 ++ pending = c.output ∧
      (pending ≠ [] ∧ (c.send config t outcome).1 =
          some { c with output := pending, armed := .writable } ∨
        pending = [] ∧ c.closing = true ∧ (c.send config t outcome).1 = none ∨
        pending = [] ∧ c.closing = false ∧ (c.send config t outcome).1 =
          if (config.protocol.drained c.state).stays then
            let c := ({ c with output := [] } : Connection σ).apply
              (config.protocol.drained c.state)
            some { c with armed := c.interest }
          else none) := by
  have hall := sent_append_pending c.output outcome.results
  have herr : (flush c.output outcome.results).error = none := error_flush h.results
  rw [send]
  generalize flush c.output outcome.results = flushed at hall herr ⊢
  obtain ⟨out, pending, error⟩ := flushed
  have hsent (acts : List Act) : sentTo t acts = [] →
      sentTo t ((if out.isEmpty then [] else [Act.sent t out]) ++ acts) = out := by
    intro ha
    rw [sentTo_append, ha, List.append_nil]
    cases out with
    | nil => rfl
    | cons x out => simp [sentTo]
  subst herr
  refine ⟨pending, ?_⟩
  simp only [Option.isSome_none, Bool.false_eq_true, if_false]
  cases pending with
  | cons x pending =>
    simp only [List.isEmpty_cons, Bool.not_false, if_true, rearm, h.rearmed, View.behind, interest,
      Bool.false_eq_true, if_false]
    rw [hsent _ rfl]
    exact ⟨hall, .inl ⟨List.cons_ne_nil x pending, trivial⟩⟩
  | nil =>
    simp only [List.isEmpty_nil, Bool.not_true, Bool.false_eq_true, if_false]
    cases hc : c.closing with
    | true =>
      simp only [if_true, close, View.behind]
      rw [hsent _ rfl]
      exact ⟨hall, .inr (.inl ⟨trivial, trivial, trivial⟩)⟩
    | false =>
      simp only [Bool.false_eq_true, if_false]
      cases (config.protocol.drained c.state).stays with
      | true =>
        simp only [if_true, rearm, h.rearmed, View.behind, List.append_assoc]
        rw [hsent _ rfl]
        exact ⟨hall, .inr (.inr ⟨trivial, trivial, trivial⟩)⟩
      | false =>
        simp only [Bool.false_eq_true, if_false, close, View.behind, List.append_assoc]
        rw [hsent _ rfl]
        exact ⟨hall, .inr (.inr ⟨trivial, trivial, trivial⟩)⟩

end Connection

end Prefork.Server
