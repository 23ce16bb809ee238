import Prefork.Proofs.Http.LineEndings

namespace Prefork.Http

open Reading (Steady Incremental)

namespace Head

theorem of_bodySize {headers : Headers} {n : Nat} (h : bodySize headers = .ok n) :
    (match headers.get? "content-length" with
      | none => n = 0
      | some value => Text.natural? Text.maxWord value.toList = some n) ∧ n ≤ maxBody := by
  simp only [bodySize] at h
  split at h
  · next value hv =>
    rw [hv]
    split at h
    · next size hsize =>
      split at h
      · cases h
      · next hle =>
        cases h
        exact ⟨hsize, Nat.le_of_not_lt hle⟩
    · cases h
  · next hv =>
    cases h
    split
    · exact ⟨rfl, Nat.zero_le _⟩
    · next value hsome => exact absurd hsome (hv value)

def lines (ending : LineEnding) (text : List Char) : List (List Char) :=
  (Text.pieces ending.chars text).filter fun line ↦ !line.isEmpty

/-- A head is parsed from its lines. -/
theorem of_parse {ending : LineEnding} {b : Bytes} {head : Head} (h : parse ending b = .ok head) :
    ∃ text, requestLine ((lines ending text).headD []) =
        .ok (head.method, head.target, head.version) ∧
      ((lines ending text).drop 1).foldlM addField {} = .ok head.headers ∧
      bodySize head.headers = .ok head.contentLength := by
  simp only [parse, bind, Except.bind] at h
  split at h
  · cases h
  · next text _ =>
    split at h
    · cases h
    · next first hfirst =>
      split at h
      · cases h
      · next headers hheaders =>
        split at h
        · cases h
        · next size hsize =>
          cases h
          exact ⟨text, hfirst, hheaders, hsize⟩

theorem contentLength_le {b rest : Bytes} {head : Head} (h : read b = .complete head rest) :
    head.contentLength ≤ maxBody := by
  rw [read] at h
  split at h
  · cases h
  · obtain ⟨-, -, -, hsize⟩ := of_parse (Reading.ofExcept_eq_complete h).1
    exact (of_bodySize hsize).2

/-- Where the last bytes are known, no head ends in the text. -/
theorem read_of_tail? {b tail : Bytes} (h : tail? (text b) = some tail) : read b = .incomplete 1 := by
  rw [tail?] at h
  split at h
  · cases h
  · next hf => rw [read, Option.not_isSome_iff_eq_none.1 hf]

end Head

theorem Head.suffix_of_read {b rest : Bytes} {head : Head} (h : Head.read b = .complete head rest) :
    rest <:+ b ∧ rest.length < b.length := by
  rw [Head.read] at h
  cases hf : Head.findEnd (Head.text b) with
  | none => simp [hf] at h
  | some p =>
    obtain ⟨e, i⟩ := p
    have hl := Text.add_length_le_of_find? e.terminator_ne_nil
      ((Head.findEnd_eq_some_iff ..).1 hf).1
    have hpos := List.length_pos_iff.2 e.terminator_ne_nil
    have ht := List.dropWhile_suffix (l := b) Head.isLineByte
    rw [hf] at h
    cases hp : Head.parse e ((Head.text b).take i) with
    | error err => simp [hp, Reading.ofExcept] at h
    | ok a =>
      simp only [hp, Reading.ofExcept, Reading.complete.injEq] at h
      obtain ⟨-, rfl⟩ := h
      refine ⟨(List.drop_suffix ..).trans ht, ?_⟩
      have hle := ht.length_le
      rw [Head.text] at hl ⊢
      rw [List.length_drop]
      omega

namespace Request

theorem read_of_incomplete {b : Bytes} {n : Nat} (h : Head.read b = .incomplete n) :
    read b = .incomplete n := by
  rw [read, h, Reading.andThen]

theorem read_of_invalid {b : Bytes} {e : RequestError} (h : Head.read b = .invalid e) :
    read b = .invalid e := by
  rw [read, h, Reading.andThen]

theorem read_of_lt {b rest : Bytes} {head : Head} (h : Head.read b = .complete head rest)
    (hl : rest.length < head.contentLength) :
    read b = .incomplete (head.contentLength - rest.length) := by
  rw [read, h, Reading.andThen, Reading.take_of_lt hl, Reading.map]

theorem read_of_le {b rest : Bytes} {head : Head} (h : Head.read b = .complete head rest)
    (hl : head.contentLength ≤ rest.length) :
    read b = .complete (head.withBody (rest.take head.contentLength))
      (rest.drop head.contentLength) := by
  rw [read, h, Reading.andThen, Reading.take_of_le hl, Reading.map]

theorem suffix_of_read {b rest : Bytes} {request : Request}
    (h : read b = .complete request rest) : rest <:+ b ∧ rest.length < b.length := by
  cases hh : Head.read b with
  | incomplete n =>
    rw [read_of_incomplete hh] at h
    cases h
  | invalid e =>
    rw [read_of_invalid hh] at h
    cases h
  | complete head r =>
    obtain ⟨hs, hl⟩ := Head.suffix_of_read hh
    rcases Nat.lt_or_ge r.length head.contentLength with hlt | hle
    · rw [read_of_lt hh hlt] at h
      cases h
    · rw [read_of_le hh hle] at h
      cases h
      refine ⟨(List.drop_suffix ..).trans hs, ?_⟩
      rw [List.length_drop]
      omega

theorem steady_read {s : Bytes} (h : Steady Head.read s) : Steady read s :=
  h.andThen fun head ↦ (Incremental.take head.contentLength).map head.withBody

def readAll (b : Bytes) : List Request × Option RequestError :=
  match h : read b with
  | .incomplete _ => ([], none)
  | .invalid e => ([], some e)
  | .complete request rest =>
    have := (suffix_of_read h).2
    (request :: (readAll rest).1, (readAll rest).2)
termination_by b.length

inductive Reads : Bytes → List Request → Bytes → Prop
  | nil (b : Bytes) : Reads b [] b
  | cons {b next rest : Bytes} {request : Request} {requests : List Request} :
      read b = .complete request next → Reads next requests rest → Reads b (request :: requests) rest

theorem readAll_incomplete {b : Bytes} (h : (read b).isIncomplete) : readAll b = ([], none) := by
  obtain ⟨n, hn⟩ := Reading.eq_incomplete h
  rw [readAll]
  split <;> simp_all

theorem readAll_invalid {b : Bytes} {e : RequestError} (h : read b = .invalid e) :
    readAll b = ([], some e) := by
  rw [readAll]
  split <;> simp_all

theorem readAll_complete {b rest : Bytes} {request : Request} (h : read b = .complete request rest) :
    readAll b = (request :: (readAll rest).1, (readAll rest).2) := by
  rw [readAll]
  split <;> simp_all

namespace Reads

variable {b rest : Bytes} {requests : List Request}

theorem readAll_eq (h : Reads b requests rest) :
    readAll b = (requests ++ (readAll rest).1, (readAll rest).2) := by
  induction h with
  | nil b => rfl
  | cons hr _ ih => rw [readAll_complete hr, ih, List.cons_append]

theorem trans {last : Bytes} {more : List Request} (h : Reads b requests rest)
    (h' : Reads rest more last) : Reads b (requests ++ more) last := by
  induction h with
  | nil b => exact h'
  | cons hr _ ih => exact .cons hr (ih h')

theorem unique {other : Bytes} (h : Reads b requests rest) (h' : Reads b requests other) :
    rest = other := by
  induction h with
  | nil b => cases h'; rfl
  | cons hr _ ih =>
    cases h' with
    | cons hr' ht =>
      rw [hr] at hr'
      cases hr'
      exact ih ht

theorem split {last : Bytes} {all : List Request} (h : Reads b requests rest)
    (ha : Reads b all last) (hl : (read last).isIncomplete) :
    ∃ others, all = requests ++ others ∧ Reads rest others last := by
  induction h generalizing all with
  | nil b => exact ⟨all, rfl, ha⟩
  | cons hr _ ih =>
    cases ha with
    | nil =>
      rw [hr] at hl
      cases hl
    | cons hr' ht =>
      rw [hr] at hr'
      cases hr'
      obtain ⟨others, rfl, ho⟩ := ih ht
      exact ⟨others, rfl, ho⟩

theorem suffix (h : Reads b requests rest) : rest <:+ b := by
  induction h with
  | nil b => exact List.suffix_rfl
  | cons hr _ ih => exact ih.trans (suffix_of_read hr).1

end Reads

def Regular (s : Bytes) : Prop := ∀ requests b, Reads s requests b → Steady Head.read b

theorem Regular.steady {s : Bytes} (h : Regular s) : Steady read s := steady_read (h [] s (.nil s))

theorem Regular.behind {s b : Bytes} {requests : List Request} (h : Regular s)
    (hr : Reads s requests b) : Regular b := fun _ c hc ↦ h _ c (hr.trans hc)

theorem Reads.append {b rest more : Bytes} {requests : List Request} (h : Reads b requests rest)
    (hs : Regular (b ++ more)) : Reads (b ++ more) requests (rest ++ more) := by
  induction h with
  | nil b => exact .nil _
  | cons hr _ ih =>
    have hc := hs.steady.complete hr
    exact .cons hc (ih (hs.behind (.cons hc (.nil _))))

theorem Regular.front {b more : Bytes} (h : Regular (b ++ more)) : Regular b :=
  fun _ _ hc ↦ (h _ _ (hc.append h)).front (List.prefix_append ..)

def CleanHeads (s : Bytes) : Prop := ∀ requests b, Reads s requests b → Head.Clean b

theorem CleanHeads.cons {b rest : Bytes} {request : Request} (hb : Head.Clean b)
    (hr : read b = .complete request rest) (h : CleanHeads rest) : CleanHeads b := by
  intro requests c hc
  cases hc with
  | nil => exact hb
  | cons hn ht =>
    rw [hr] at hn
    cases hn
    exact h _ c ht

theorem CleanHeads.last {b : Bytes} (hb : Head.Clean b) (hr : (read b).isComplete = false) :
    CleanHeads b := by
  intro requests c hc
  cases hc with
  | nil => exact hb
  | cons hn ht =>
    rw [hn] at hr
    cases hr

/-- A stream with line endings of one kind: without carriage returns, without line feeds, or with
clean heads. -/
def Consistent (s : Bytes) : Prop := 13 ∉ s ∨ 10 ∉ s ∨ CleanHeads s

theorem Consistent.regular {s : Bytes} (h : Consistent s) : Regular s := by
  intro requests b hb
  rcases h with h | h | h
  · exact Head.steady_read_of_notMem (fun hm ↦ h (hb.suffix.subset hm)) fun e ↦ by cases e <;> decide
  · exact Head.steady_read_of_notMem (fun hm ↦ h (hb.suffix.subset hm)) fun e ↦ by cases e <;> decide
  · exact (h requests b hb).steady

end Request

end Prefork.Http
