import Prefork.CommandLine

namespace Prefork

structure Settings.Admitted (s : Settings) : Prop where
  port : s.port ≤ 65535
  processes : minProcesses ≤ s.processes ∧ s.processes ≤ maxProcesses
  backlog : Int32.minValue.toInt ≤ s.backlog ∧ s.backlog ≤ Int32.maxValue.toInt
  pollTimeout : 100 ≤ s.pollTimeoutMillis ∧ s.pollTimeoutMillis ≤ 5000
  heartbeat : 1 ≤ s.heartbeatSeconds ∧ s.heartbeatSeconds ≤ Text.maxWord
  workerTimeout : 1 ≤ s.workerTimeoutSeconds ∧ s.workerTimeoutSeconds ≤ Text.maxWord
  maxBuffer : s.maxBuffer ≤ Text.maxWord

theorem Settings.admitted_default : ({} : Settings).Admitted := by
  constructor <;> decide

namespace Text

variable {cs : List Char}

theorem natural?_le {max n : Nat} (h : natural? max cs = some n) : n ≤ max := by
  rw [natural?.eq_def, Option.filter_eq_some_iff] at h
  exact of_decide_eq_true h.2

theorem integer?_mem {min max n : Int} (h : integer? min max cs = some n) : min ≤ n ∧ n ≤ max := by
  rw [integer?.eq_def, Option.filter_eq_some_iff, Bool.and_eq_true] at h
  exact ⟨of_decide_eq_true h.2.1, of_decide_eq_true h.2.2⟩

end Text

namespace CommandLine

variable {s s' : Settings}

theorem admitted_assign {o : Opt} {value : List Char} (hs : s.Admitted)
    (h : assign s o value = .ok s') : s'.Admitted := by
  cases o with
  | address =>
    cases h
    exact { hs with }
  | port =>
    simp only [assign] at h
    split at h
    · next n hn =>
      cases h
      exact { hs with port := Int.toNat_le.2 (Text.integer?_mem hn).2 }
    · cases h
  | processes =>
    simp only [assign] at h
    split at h
    · next n hn =>
      cases h
      have hmem := Text.integer?_mem hn
      have hrange : minProcesses ≤ n.toNat ∧ n.toNat ≤ maxProcesses := by omega
      exact { hs with processes := hrange }
    · cases h
  | service =>
    simp only [assign] at h
    split at h
    · next service _ =>
      cases h
      exact { hs with }
    · cases h
  | logLevel =>
    simp only [assign] at h
    split at h
    · next level _ =>
      cases h
      exact { hs with }
    · cases h
  | backlog =>
    simp only [assign] at h
    split at h
    · next n hn =>
      cases h
      exact { hs with backlog := Text.integer?_mem hn }
    · cases h
  | pollTimeout =>
    simp only [assign] at h
    split at h
    · next n hn =>
      cases h
      obtain ⟨-, hrange⟩ := Option.filter_eq_some_iff.1 hn
      exact { hs with pollTimeout := by simpa using hrange }
    · cases h
  | heartbeat =>
    simp only [assign] at h
    split at h
    · next n hn =>
      cases h
      obtain ⟨hread, hpos⟩ := Option.filter_eq_some_iff.1 hn
      exact { hs with heartbeat := ⟨of_decide_eq_true hpos, Text.natural?_le hread⟩ }
    · cases h
  | workerTimeout =>
    simp only [assign] at h
    split at h
    · next n hn =>
      cases h
      obtain ⟨hread, hpos⟩ := Option.filter_eq_some_iff.1 hn
      exact { hs with workerTimeout := ⟨of_decide_eq_true hpos, Text.natural?_le hread⟩ }
    · cases h
  | maxBuffer =>
    simp only [assign] at h
    split at h
    · next n hn =>
      cases h
      exact { hs with maxBuffer := Text.natural?_le hn }
    · cases h

theorem admitted_give {p p' : Progress} {o : Opt} {value : List Char} (hp : p.settings.Admitted)
    (h : p.give o value = .ok p') : p'.settings.Admitted := by
  rw [Progress.give] at h
  split at h
  · cases h
  · cases hassign : assign p.settings o value with
    | error e =>
      rw [hassign] at h
      cases h
    | ok s =>
      rw [hassign] at h
      cases h
      exact admitted_assign hp hassign

theorem admitted_settle {p p' : Progress} (hp : p.settings.Admitted) (h : p.settle = .ok p') :
    p'.settings.Admitted := by
  rw [Progress.settle] at h
  split at h
  · cases h
    exact hp
  · cases h
  · exact admitted_give hp h

theorem admitted_end {p : Progress} (hp : p.settings.Admitted)
    (h : p.settle.map (·.settings) = .ok s) : s.Admitted := by
  cases hsettle : p.settle with
  | error e =>
    rw [hsettle] at h
    cases h
  | ok p' =>
    rw [hsettle] at h
    cases h
    exact admitted_settle hp hsettle

theorem admitted_read {p : Progress} {args : List (List Char)} (hp : p.settings.Admitted)
    (h : read p args = .ok s) : s.Admitted := by
  fun_induction read p args with
  | case1 p | case2 p => exact admitted_end hp h
  | case5 p _ _ _ _ o p' hsettle _ ih =>
    have hp' := admitted_settle hp hsettle
    exact ih hp' h
  | case7 p _ _ _ _ o p' hsettle value p'' hgive _ ih =>
    exact ih (admitted_give (admitted_settle hp hsettle) hgive) h
  | case12 p _ _ _ _ _ o _ ih => exact ih hp h
  | case3 | case4 | case6 | case8 | case9 | case10 | case11 | case13 => cases h

theorem admitted_parse {args : List String} (h : parse args = .ok s) : s.Admitted :=
  admitted_read Settings.admitted_default h

section

variable {p p' : Progress} {arg value : List Char} {o : Opt}

theorem ne_dashes (h : switch? arg = none ∨ switch? arg = some (.opt o none)) :
    arg ≠ ['-', '-'] := by
  rintro rfl
  rcases h with h | h <;> cases h

/-- An option with its value behind it. The value is not judged yet. -/
theorem read_pair (ho : switch? arg = some (.opt o none)) (hv : switch? value = none)
    (hp : p.settle = .ok p') (rest : List (List Char)) :
    read p (arg :: value :: rest) = read { p' with pending := some (o, some value) } rest := by
  have harg := ne_dashes (.inr ho)
  have hvalue := ne_dashes (o := o) (.inl hv)
  rw [read, ho, hp]
  · simp only
    rw [read, hv]
    · exact fun h _ ↦ hvalue h
    · exact hvalue
  · exact fun h _ ↦ harg h
  · exact harg

theorem settle_pending (hnew : p.given.contains o = false) (h : assign p.settings o value = .ok s) :
    ({ p with pending := some (o, some value) } : Progress).settle =
      .ok { settings := s, given := o :: p.given } := by
  simp only [Progress.settle, Progress.give, hnew, h]
  rfl

end

theorem toDigits_eq_cons (n : Nat) :
    ∃ c cs, Nat.toDigits 10 n = c :: cs ∧ c ≠ '-' ∧ c ≠ '+' := by
  obtain ⟨c, cs, heq⟩ := List.exists_cons_of_ne_nil (Nat.toDigits_ne_nil (n := n) (b := 10))
  have hmem : c ∈ Nat.toDigits 10 n := by
    rw [heq]
    exact List.mem_cons_self
  have hdigit : c.isDigit = true := Nat.isDigit_of_mem_toDigits (by omega) (by omega) hmem
  refine ⟨c, cs, heq, ?_, ?_⟩ <;>
  · rintro rfl
    cases hdigit

theorem switch?_toDigits (n : Nat) : switch? (Nat.toDigits 10 n) = none := by
  obtain ⟨c, cs, heq, hdash, -⟩ := toDigits_eq_cons n
  rw [heq, switch?.eq_def]
  split
  · next h => exact absurd (List.cons.inj h).1 hdash
  · next h => exact absurd (List.cons.inj h).1 hdash
  · rfl

theorem natural?_toDigits {max n : Nat} (h : n ≤ max) :
    Text.natural? max (Nat.toDigits 10 n) = some n := by
  obtain ⟨c, cs, heq, -, hplus⟩ := toDigits_eq_cons n
  have hvalue := Text.digits?_toDigits n
  rw [heq] at hvalue ⊢
  rw [Text.natural?.eq_def]
  split
  · next h => exact absurd (List.cons.inj h).1 hplus
  · simp [hvalue, h]

def timings (heartbeat workerTimeout : Nat) : List String :=
  ["--heartbeat-secs", toString heartbeat, "--worker-timeout-secs", toString workerTimeout]

theorem parse_timings {n m : Nat} (hn : 1 ≤ n ∧ n ≤ Text.maxWord)
    (hm : 1 ≤ m ∧ m ≤ Text.maxWord) :
    parse (timings n m) = .ok { heartbeatSeconds := n, workerTimeoutSeconds := m } := by
  have hheartbeat : assign {} .heartbeat (Nat.toDigits 10 n) = .ok { heartbeatSeconds := n } := by
    simp [assign, natural?_toDigits hn.2, Option.filter, hn.1]
  have htimeout : assign { heartbeatSeconds := n } .workerTimeout (Nat.toDigits 10 m) =
      .ok { heartbeatSeconds := n, workerTimeoutSeconds := m } := by
    simp [assign, natural?_toDigits hm.2, Option.filter, hm.1]
  have hwords : (timings n m).map String.toList = ["--heartbeat-secs".toList, Nat.toDigits 10 n,
      "--worker-timeout-secs".toList, Nat.toDigits 10 m] := by
    simp [timings]
  have hfirst : switch? "--heartbeat-secs".toList = some (.opt .heartbeat none) := by decide
  have hsecond : switch? "--worker-timeout-secs".toList = some (.opt .workerTimeout none) := by
    decide
  rw [parse, hwords, read_pair hfirst (switch?_toDigits n) rfl,
    read_pair hsecond (switch?_toDigits m) (settle_pending rfl hheartbeat), read,
    settle_pending rfl htimeout]
  rfl

end CommandLine

end Prefork
