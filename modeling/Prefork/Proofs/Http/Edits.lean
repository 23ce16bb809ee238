import Mathlib.Data.List.Forall2
import Mathlib.Data.List.Induction
import Prefork.Proofs.Http.Headers

namespace Prefork.Http

open Text (sameFolded fold)

namespace Headers

inductive Edit where
  | set (name value : String)
  | append (name value : String)
  | remove (name : String)
  deriving DecidableEq, Repr

namespace Edit

def name : Edit → String
  | set name _ | append name _ | remove name => name

def clears : Edit → Bool
  | set .. | remove _ => true
  | append .. => false

def value? : Edit → Option String
  | set _ value | append _ value => some value
  | remove _ => none

def on (e : Edit) (h : Headers) : Headers :=
  match e with
  | set name value => h.set name value
  | append name value => h.append name value
  | remove name => (h.remove name).2

def sinceCleared : List Edit → List Edit
  | [] => []
  | e :: edits => if edits.any clears then sinceCleared edits else e :: edits

/-- The values that edits have put in for a name since it was last cleared. -/
def valuesOf (name : String) (edits : List Edit) : List String :=
  (sinceCleared (edits.filter fun e ↦ sameFolded e.name name)).filterMap value?

theorem sinceCleared_concat (edits : List Edit) (e : Edit) :
    sinceCleared (edits ++ [e]) = if e.clears then [e] else sinceCleared edits ++ [e] := by
  induction edits with
  | nil => cases e.clears <;> rfl
  | cons f edits ih =>
    rw [List.cons_append, sinceCleared, sinceCleared, List.any_append, ih]
    cases he : e.clears with
    | true => simp [he]
    | false =>
      cases hany : edits.any clears with
      | true => simp [he]
      | false => simp [he]

theorem valuesOf_concat (name : String) (edits : List Edit) (e : Edit) :
    valuesOf name (edits ++ [e]) =
      if sameFolded e.name name then
        (if e.clears then [] else valuesOf name edits) ++ e.value?.toList
      else valuesOf name edits := by
  rw [valuesOf, valuesOf, List.filter_append]
  cases hn : sameFolded e.name name with
  | false => simp [hn]
  | true =>
    have hone : [e].filter (fun e ↦ sameFolded e.name name) = [e] := by simp [hn]
    rw [hone, sinceCleared_concat]
    cases e with
    | set | append | remove => simp [clears, value?]

end Edit

def after (edits : List Edit) : Headers := edits.foldl (fun h e ↦ e.on h) {}

theorem after_concat (edits : List Edit) (e : Edit) :
    after (edits ++ [e]) = e.on (after edits) := List.foldl_concat ..

variable {h : Headers} {name other : String}

theorem getAll_on (e : Edit) (h : Headers) (other : String) :
    (e.on h).getAll other =
      if sameFolded e.name other then
        (if e.clears then [] else h.getAll other) ++ e.value?.toList
      else h.getAll other := by
  cases e with
  | set name value =>
    rw [Edit.on, getAll_set]
    rfl
  | append name value =>
    rw [Edit.on, getAll_append]
    cases hn : sameFolded name other with
    | false => simp [Edit.name, hn]
    | true => simp [Edit.name, Edit.clears, Edit.value?, hn]
  | remove name =>
    show (h.erase name).getAll other = _
    cases hn : sameFolded name other with
    | false => simp [Edit.name, hn, getAll_erase_of_ne h hn]
    | true =>
      rw [← getAll_congr _ hn, getAll_erase]
      simp [Edit.name, Edit.clears, Edit.value?, hn]

theorem getAll_after (edits : List Edit) (name : String) :
    (after edits).getAll name = Edit.valuesOf name edits := by
  induction edits using List.reverseRecOn with
  | nil => rfl
  | append_singleton edits e ih => rw [after_concat, getAll_on, Edit.valuesOf_concat, ih]

theorem contains_iff : h.contains name = true ↔ h.getAll name ≠ [] := by
  rw [contains, get?_eq_head?]
  cases h.getAll name <;> simp

theorem remove_iff : (h.remove name).1 = true ↔ h.getAll name ≠ [] := by
  have hlen := List.length_eq_length_filter_add (l := h.entries) fun e ↦ sameFolded e.1 name
  have hall : (h.getAll name).length = (h.entries.filter fun e ↦ sameFolded e.1 name).length :=
    List.length_map ..
  have herased : (h.erase name).entries.length =
      (h.entries.filter fun e ↦ !sameFolded e.1 name).length := rfl
  rw [remove, bne_iff_ne, ← List.length_pos_iff]
  omega

def beside (h : Headers) (name : String) : List (String × String) :=
  h.entries.filter fun e ↦ !sameFolded e.1 name

theorem beside_append (h : Headers) (name value : String) :
    (h.append name value).beside name = h.beside name := by
  have hself : sameFolded name name = true := sameFolded_iff.2 rfl
  rw [beside, append, List.filter_append]
  simp [beside, hself]

theorem beside_erase (h : Headers) (name : String) :
    (h.erase name).beside name = h.beside name := by
  rw [beside, erase, List.filter_filter]
  simp [beside]

theorem beside_on (e : Edit) (h : Headers) : (e.on h).beside e.name = h.beside e.name := by
  cases e with
  | set name value => exact (beside_append _ name value).trans (beside_erase h name)
  | append name value => exact beside_append h name value
  | remove name => exact beside_erase h name

/-- The same fields but for the case of their names. -/
def Recased (h h' : Headers) : Prop :=
  List.Forall₂ (fun e e' ↦ sameFolded e.1 e'.1 ∧ e.2 = e'.2) h.entries h'.entries

theorem Recased.getAll {h' : Headers} (hr : h.Recased h') (name : String) :
    h.getAll name = h'.getAll name := by
  obtain ⟨entries⟩ := h
  obtain ⟨entries'⟩ := h'
  change List.Forall₂ _ entries entries' at hr
  induction hr with
  | nil => rfl
  | @cons e e' entries entries' he _ ih =>
    have hname : sameFolded e.1 name = sameFolded e'.1 name := by
      rw [sameFolded_comm, sameFolded_congr he.1, sameFolded_comm]
    simp only [Headers.getAll, List.filter_cons, hname] at ih ⊢
    cases sameFolded e'.1 name with
    | true => exact congrArg₂ List.cons he.2 ih
    | false => exact ih

theorem Recased.hasToken {h' : Headers} {token token' : String} (hr : h.Recased h')
    (hn : sameFolded name other) (ht : sameFolded token token') :
    h.hasToken name token = h'.hasToken other token' := by
  rw [Headers.hasToken, Headers.hasToken, hr.getAll, getAll_congr h' hn, sameFolded_iff.1 ht]

/-- After any edits the values of a name, in whatever case it is written, are those put in since it
was last cleared. The first of them is found, and there are some just if the name is contained and
can be removed. A field that is set is the only one of its name and the last of all. No edit moves
or changes the fields of other names, and no token depends on the case of letters. -/
theorem values_after (edits : List Edit) (name : String) :
    let h := after edits
    let values := Edit.valuesOf name edits
    (∀ other, sameFolded name other → h.getAll other = values) ∧
      h.get? name = values.head? ∧
      (h.contains name = true ↔ values ≠ []) ∧
      ((h.remove name).1 = true ↔ values ≠ []) ∧
      (∀ value, ∃ rest, (h.set name value).entries = rest ++ [(name, value)] ∧
        ∀ e ∈ rest, sameFolded e.1 name = false) ∧
      (∀ e : Edit, (e.on h).beside e.name = h.beside e.name) ∧
      ∀ h' other token token', h.Recased h' → sameFolded name other → sameFolded token token' →
        h.hasToken name token = h'.hasToken other token' := by
  intro h values
  have hvalues : h.getAll name = values := getAll_after edits name
  refine ⟨?_, ?_, ?_, ?_, ?_, ?_, ?_⟩
  · intro other hn
    rw [← getAll_congr h hn, hvalues]
  · rw [get?_eq_head?, hvalues]
  · rw [contains_iff, hvalues]
  · rw [remove_iff, hvalues]
  · intro value
    refine ⟨h.beside name, entries_set h name value, ?_⟩
    intro e he
    have hkept := (List.mem_filter.1 he).2
    rwa [Bool.not_eq_true'] at hkept
  · intro e
    exact beside_on e h
  · intro h' other token token' hr hn ht
    exact hr.hasToken hn ht

example :
    let h := after [.append "Via" "a", .append "Host" "x", .append "VIA" "b", .set "via" "c",
      .append "Via" "d, E"]
    h.getAll "viA" = ["c", "d, E"] ∧ h.entries.map (·.1) = ["Host", "via", "Via"] ∧
      h.hasToken "VIA" "e" = true := by
  decide +kernel

end Headers

end Prefork.Http
