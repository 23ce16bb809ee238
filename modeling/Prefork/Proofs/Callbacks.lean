import Prefork.Protocol

namespace Prefork

/-- What happens on a connection: bytes arrive, or the peer's socket has taken all output. -/
inductive Callback where
  | read (data : Bytes)
  | write
  deriving DecidableEq, Repr

namespace Callback

def input : Callback → Bytes
  | read data => data
  | write => []

def inputs (cs : List Callback) : Bytes := cs.flatMap input

theorem inputs_cons (c : Callback) (cs : List Callback) : inputs (c :: cs) = c.input ++ inputs cs :=
  rfl

theorem inputs_concat (cs : List Callback) (c : Callback) :
    inputs (cs ++ [c]) = inputs cs ++ c.input := by
  rw [inputs, List.flatMap_append, List.flatMap_singleton]
  rfl

end Callback

variable {σ : Type}

def Reply.behind (r : Reply σ) (earlier : Bytes) : Reply σ :=
  { r with output := earlier ++ r.output }

@[simp] theorem Reply.output_behind (r : Reply σ) (earlier : Bytes) :
    (r.behind earlier).output = earlier ++ r.output := rfl

@[simp] theorem Reply.state_behind (r : Reply σ) (earlier : Bytes) :
    (r.behind earlier).state = r.state := rfl

@[simp] theorem Reply.behind_nil (r : Reply σ) : r.behind [] = r := rfl

theorem Reply.behind_behind (r : Reply σ) (first second : Bytes) :
    (r.behind second).behind first = r.behind (first ++ second) := by
  simp only [behind, List.append_assoc]

def Reply.map {υ : Type} (f : σ → υ) (r : Reply σ) : Reply υ := { r with state := f r.state }

namespace Protocol

def callback (p : Protocol σ) (s : σ) : Callback → Reply σ
  | .read data => p.received data s
  | .write => p.drained s

/-- Callbacks one after another, up to the first that ends the connection, with all they output. -/
def run (p : Protocol σ) (s : σ) : List Callback → Reply σ
  | [] => { state := s }
  | c :: cs =>
    let r := p.callback s c
    if r.stays then (p.run r.state cs).behind r.output else r

/-- Callbacks one after another, whatever they reply, with all they output. -/
def play (p : Protocol σ) (s : σ) : List Callback → Reply σ
  | [] => { state := s }
  | c :: cs => (p.play (p.callback s c).state cs).behind (p.callback s c).output

variable (p : Protocol σ) {s : σ} {c : Callback} {cs : List Callback}

theorem play_append (s : σ) (cs ds : List Callback) :
    p.play s (cs ++ ds) = (p.play (p.play s cs).state ds).behind (p.play s cs).output := by
  induction cs generalizing s with
  | nil => rfl
  | cons c cs ih =>
    rw [List.cons_append, play, ih, Reply.behind_behind]
    rfl

theorem play_append_cons (s : σ) (cs ds : List Callback) {r : Reply σ}
    (h : p.callback (p.play s cs).state c = r) :
    p.play s (cs ++ c :: ds) = (p.play r.state ds).behind ((p.play s cs).output ++ r.output) := by
  rw [play_append, play, h, Reply.behind_behind]

theorem state_play_concat (s : σ) (cs : List Callback) (c : Callback) :
    (p.play s (cs ++ [c])).state = (p.callback (p.play s cs).state c).state := by
  rw [play_append_cons p s cs [] rfl]
  rfl

theorem output_play_concat (s : σ) (cs : List Callback) (c : Callback) :
    (p.play s (cs ++ [c])).output =
      (p.play s cs).output ++ (p.callback (p.play s cs).state c).output := by
  rw [play_append_cons p s cs [] rfl]
  exact List.append_nil _

theorem run_cons_of_stays (h : (p.callback s c).stays = true) :
    p.run s (c :: cs) =
      (p.run (p.callback s c).state cs).behind (p.callback s c).output := by
  rw [run, if_pos h]

theorem run_cons_of_ends (h : (p.callback s c).stays = false) :
    p.run s (c :: cs) = p.callback s c := by
  rw [run, if_neg (by simp [h])]

theorem run_append_of_stays (h : (p.run s cs).stays = true) (ds : List Callback) :
    p.run s (cs ++ ds) = (p.run (p.run s cs).state ds).behind (p.run s cs).output := by
  induction cs generalizing s with
  | nil => rfl
  | cons c cs ih =>
    cases hc : (p.callback s c).stays with
    | true =>
      rw [run_cons_of_stays p hc] at h
      rw [List.cons_append, run_cons_of_stays p hc, run_cons_of_stays p hc, ih h,
        Reply.behind_behind]
      rfl
    | false =>
      rw [run_cons_of_ends p hc, hc] at h
      cases h

theorem run_append_of_ends (h : (p.run s cs).stays = false) (ds : List Callback) :
    p.run s (cs ++ ds) = p.run s cs := by
  induction cs generalizing s with
  | nil => cases h
  | cons c cs ih =>
    cases hc : (p.callback s c).stays with
    | true =>
      rw [run_cons_of_stays p hc] at h
      rw [List.cons_append, run_cons_of_stays p hc, run_cons_of_stays p hc, ih h]
    | false => rw [List.cons_append, run_cons_of_ends p hc, run_cons_of_ends p hc]

theorem stays_run_concat (s : σ) (cs : List Callback) (c : Callback) :
    (p.run s (cs ++ [c])).stays =
      ((p.run s cs).stays && (p.callback (p.play s cs).state c).stays) := by
  induction cs generalizing s with
  | nil =>
    rw [List.nil_append]
    cases hc : (p.callback s c).stays with
    | true =>
      rw [run_cons_of_stays p hc]
      exact hc.symm
    | false =>
      rw [run_cons_of_ends p hc, hc]
      exact hc.symm
  | cons d cs ih =>
    rw [List.cons_append]
    cases hd : (p.callback s d).stays with
    | true =>
      rw [run_cons_of_stays p hd, run_cons_of_stays p hd]
      exact ih (p.callback s d).state
    | false => rw [run_cons_of_ends p hd, run_cons_of_ends p hd, hd, Bool.false_and]

theorem output_run_singleton (s : σ) (c : Callback) :
    (p.run s [c]).output = (p.callback s c).output := by
  cases h : (p.callback s c).stays with
  | true =>
    rw [run_cons_of_stays p h]
    exact List.append_nil _
  | false => rw [run_cons_of_ends p h]

theorem output_prefix_append (cs ds : List Callback) :
    (p.run s cs).output <+: (p.run s (cs ++ ds)).output := by
  cases h : (p.run s cs).stays with
  | true =>
    rw [run_append_of_stays p h]
    exact List.prefix_append ..
  | false => exact (run_append_of_ends p h ds).symm ▸ List.prefix_rfl

def written (s : σ) (cs : List Callback) (n : Nat) : Bytes :=
  (p.run s (cs ++ List.replicate n .write)).output

theorem written_prefix (s : σ) (cs : List Callback) (n : Nat) :
    p.written s cs n <+: p.written s cs (n + 1) := by
  rw [written, written, List.replicate_succ', ← List.append_assoc]
  exact output_prefix_append p ..

theorem written_succ {n : Nat} (h : (p.run s (cs ++ List.replicate n .write)).stays = true) :
    p.written s cs (n + 1) = p.written s cs n ++
      (p.callback (p.run s (cs ++ List.replicate n .write)).state .write).output := by
  rw [written, written, List.replicate_succ', ← List.append_assoc, run_append_of_stays p h,
    ← output_run_singleton]
  rfl

/-- Writes that each output something do not go on forever if all output is bounded. -/
theorem exists_idle_write (bound : Nat) (h : ∀ n, (p.written s cs n).length ≤ bound) :
    ∃ n, p.written s cs (n + 1) = p.written s cs n := by
  -- Until then each write outputs at least a byte.
  have hn (n : Nat) : (∃ m, p.written s cs (m + 1) = p.written s cs m) ∨
      n ≤ (p.written s cs n).length := by
    induction n with
    | zero => exact .inr (Nat.zero_le _)
    | succ n ih =>
      refine ih.elim .inl fun hl ↦ ?_
      have hp := p.written_prefix s cs n
      rcases Nat.lt_or_ge (p.written s cs n).length (p.written s cs (n + 1)).length with hlt | hge
      · exact .inr (by omega)
      · exact .inl ⟨n, (hp.eq_of_length_le hge).symm⟩
  rcases hn (bound + 1) with hm | hl
  · exact hm
  · have := h (bound + 1)
    omega

end Protocol

end Prefork
