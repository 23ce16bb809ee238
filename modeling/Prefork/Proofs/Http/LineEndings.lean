import Prefork.Http.Head
import Prefork.Proofs.Steady
import Prefork.Proofs.Text.Occurrence

namespace Prefork.Http

open Reading (Steady)
open Text (find? find?_append find?_eq_none_iff add_length_le_of_find?)

namespace LineEnding

def before (e : LineEnding) : List LineEnding := all.takeWhile (· != e)

theorem terminator_ne_nil (e : LineEnding) : e.terminator ≠ [] := by cases e <;> decide

end LineEnding

namespace Head

def upToCrlf (text : Bytes) : Bytes :=
  match find? LineEnding.crlf.terminator text with
  | some i => text.take (i + LineEnding.crlf.terminator.length)
  | none => text

/-- No terminator of another kind begins in front of the end of the first CRLF one. -/
def Clean (b : Bytes) : Prop :=
  ¬ LineEnding.lf.terminator <:+: upToCrlf (text b) ∧
    ¬ LineEnding.cr.terminator <:+: upToCrlf (text b)

instance (b : Bytes) : Decidable (Clean b) := inferInstanceAs (Decidable (_ ∧ _))

theorem findEnd_eq_some_iff (text : Bytes) (e : LineEnding) (i : Nat) :
    findEnd text = some (e, i) ↔
      find? e.terminator text = some i ∧ ∀ d ∈ e.before, ¬ d.terminator <:+: text := by
  simp only [← find?_eq_none_iff (LineEnding.terminator_ne_nil _)]
  cases hc : find? LineEnding.crlf.terminator text <;>
    cases hl : find? LineEnding.lf.terminator text <;>
      cases e <;> simp [findEnd, LineEnding.all, LineEnding.before, hc, hl]

theorem findEnd_append {text : Bytes} {e : LineEnding} {i : Nat} (h : findEnd text = some (e, i))
    {more : Bytes} (hm : ∀ d ∈ e.before, ¬ d.terminator <:+: text ++ more) :
    findEnd (text ++ more) = some (e, i) := by
  rw [findEnd_eq_some_iff] at h ⊢
  exact ⟨find?_append e.terminator_ne_nil h.1 more, hm⟩

theorem steady_read {s : Bytes}
    (h : ∀ b more e i, b ++ more <+: s → findEnd (text b) = some (e, i) →
      findEnd (text b ++ more) = some (e, i)) : Steady read s := by
  intro b more hb hd
  cases hf : findEnd (text b) with
  | none => simp [read, hf, Reading.isIncomplete] at hd
  | some p =>
    obtain ⟨e, i⟩ := p
    have hne : text b ≠ [] := by
      intro he
      rw [he] at hf
      cases hf
    have ht : text (b ++ more) = text b ++ more := by
      rw [text_append, if_neg (by simpa using hne)]
    have hl := add_length_le_of_find? e.terminator_ne_nil ((findEnd_eq_some_iff ..).1 hf).1
    simp only [read, ht, hf, h b more e i hb hf]
    rw [List.take_append_of_le_length (by omega), List.drop_append_of_le_length hl]
    cases parse e ((text b).take i) <;> rfl

theorem subset_of_findEnd {b : Bytes} {e : LineEnding} {i : Nat}
    (h : findEnd (text b) = some (e, i)) : e.terminator ⊆ b := by
  have hp := Text.prefix_of_find? e.terminator_ne_nil ((findEnd_eq_some_iff ..).1 h).1
  exact fun x hx ↦ (List.dropWhile_suffix isLineByte).subset (List.mem_of_mem_drop (hp.subset hx))

theorem steady_read_of_notMem {x : UInt8} {s : Bytes} (hx : x ∉ s)
    (hd : ∀ e : LineEnding, x ∉ e.terminator → ∀ d ∈ e.before, x ∈ d.terminator) :
    Steady read s := by
  refine steady_read fun b more e i hb hf ↦ findEnd_append hf fun d hdm hi ↦ ?_
  have hs : ∀ y ∈ b ++ more, y ∈ s := hb.subset
  have he : x ∉ e.terminator := fun h ↦
    hx (hs x (List.mem_append_left more (subset_of_findEnd hf h)))
  rcases List.mem_append.1 (hi.subset (hd e he d hdm)) with h | h
  · exact hx (hs x (List.mem_append_left more ((List.dropWhile_suffix isLineByte).subset h)))
  · exact hx (hs x (List.mem_append_right b h))

theorem prefix_upToCrlf {t : Bytes} (h : find? LineEnding.crlf.terminator t = none) (more : Bytes) :
    t <+: upToCrlf (t ++ more) := by
  rw [upToCrlf]
  cases hc : find? LineEnding.crlf.terminator (t ++ more) with
  | none => exact List.prefix_append t more
  | some i =>
    have hn := (find?_eq_none_iff (LineEnding.terminator_ne_nil _) t).1 h
    have hp := Text.prefix_of_find? (LineEnding.terminator_ne_nil _) hc
    have hl : t.length < i + LineEnding.crlf.terminator.length := by
      refine Nat.lt_of_not_le fun hle ↦ hn ?_
      rw [List.drop_append_of_le_length (by omega)] at hp
      have hi := List.prefix_of_prefix_length_le hp (List.prefix_append (t.drop i) more)
        (by rw [List.length_drop]; omega)
      exact hi.isInfix.trans (List.drop_suffix i t).isInfix
    exact List.prefix_take_iff.2 ⟨List.prefix_append t more, Nat.le_of_lt hl⟩

theorem Clean.ending {b more : Bytes} (h : Clean (b ++ more)) {e : LineEnding} {i : Nat}
    (hf : findEnd (text b) = some (e, i)) : e = .crlf := by
  have ht : text (b ++ more) = text b ++ more := by
    rw [text_append, if_neg]
    intro he
    rw [List.isEmpty_iff.1 he] at hf
    cases hf
  rw [Clean, ht] at h
  rw [findEnd_eq_some_iff] at hf
  have hi : e.terminator <:+: text b :=
    (Text.isSome_find? e.terminator_ne_nil _).1 (Option.isSome_of_eq_some hf.1)
  have hu (hc : .crlf ∈ e.before) : e.terminator <:+: upToCrlf (text b ++ more) :=
    hi.trans (prefix_upToCrlf
      ((find?_eq_none_iff (LineEnding.terminator_ne_nil _) _).2 (hf.2 .crlf hc)) more).isInfix
  cases e with
  | crlf => rfl
  | lf => exact absurd (hu (by decide)) h.1
  | cr => exact absurd (hu (by decide)) h.2

theorem Clean.steady {s : Bytes} (h : Clean s) : Steady read s := by
  refine steady_read fun b more e i ⟨x, hx⟩ hf ↦ findEnd_append hf fun d hd ↦ ?_
  rw [List.append_assoc] at hx
  obtain rfl := (hx ▸ h : Clean (b ++ (more ++ x))).ending hf
  exact absurd hd List.not_mem_nil

end Head

end Prefork.Http
