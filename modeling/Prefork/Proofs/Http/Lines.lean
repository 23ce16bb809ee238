import Prefork.Http.Head
import Prefork.Proofs.Text.Occurrence
import Prefork.Proofs.Text.Pieces
import Prefork.Proofs.Text.Utf8

namespace Prefork.Http

open String (utf8EncodeChar)
open Text (find? pieces)

def Unbroken (cs : List Char) : Prop := ∀ c ∈ cs, c ≠ '\r' ∧ c ≠ '\n'

instance (cs : List Char) : Decidable (Unbroken cs) := List.decidableBAll _ cs

/-- No line end is in a text. A carriage return or a line feed may be. -/
def Whole (cs : List Char) : Prop := ¬ ['\r', '\n'] <:+: cs

structure IsLine (line : String) : Prop where
  ne : line ≠ ""
  whole : Whole line.toList

theorem Unbroken.whole {cs : List Char} (h : Unbroken cs) : Whole cs :=
  fun hi ↦ (h '\r' (hi.subset List.mem_cons_self)).1 rfl

theorem Whole.of_infix {cs ds : List Char} (h : Whole ds) (hi : cs <:+: ds) : Whole cs :=
  fun hc ↦ h (hc.trans hi)

theorem Whole.append_cons {cs ds : List Char} {c : Char} (h : Whole cs) (hr : c ≠ '\r')
    (hn : c ≠ '\n') (h' : Whole ds) : Whole (cs ++ c :: ds) := by
  intro hi
  have hc : c ∉ ['\r', '\n'] := by simp [hr, hn]
  rcases Text.infix_append_cons hc hi with hf | hb
  · exact h hf
  · exact h' hb

theorem Unbroken.append {cs ds : List Char} (h : Unbroken cs) (h' : Unbroken ds) :
    Unbroken (cs ++ ds) := by
  intro c hc
  rcases List.mem_append.1 hc with hm | hm
  · exact h c hm
  · exact h' c hm

def block (lines : List String) : Bytes :=
  (lines.flatMap fun line ↦ Utf8.encode line ++ [13, 10]) ++ [13, 10]

def joined (lines : List String) : List Char := ['\r', '\n'].intercalate (lines.map String.toList)

theorem IsLine.of_toList {line : String} {cs : List Char} (h : line.toList = cs) (hne : cs ≠ [])
    (hw : Whole cs) : IsLine line where
  ne := by
    rintro rfl
    exact hne h.symm
  whole := h ▸ hw

theorem joined_cons_cons (first second : String) (lines : List String) :
    (joined (first :: second :: lines)).flatMap utf8EncodeChar =
      Utf8.encode first ++ 13 :: 10 :: (joined (second :: lines)).flatMap utf8EncodeChar := by
  have hends : ['\r', '\n'].flatMap utf8EncodeChar = [13, 10] := by decide
  rw [joined, List.map_cons, List.map_cons, List.intercalate_cons_cons, List.flatMap_append,
    List.flatMap_append, hends, List.append_assoc]
  rfl

theorem joined_singleton (line : String) :
    (joined [line]).flatMap utf8EncodeChar = Utf8.encode line := by
  rw [joined, List.map_singleton, List.intercalate_singleton, Utf8.encode]

theorem block_eq (first : String) (lines : List String) :
    block (first :: lines) =
      (joined (first :: lines)).flatMap utf8EncodeChar ++ LineEnding.crlf.terminator := by
  induction lines generalizing first with
  | nil =>
    rw [joined_singleton]
    simp [block, LineEnding.terminator, LineEnding.bytes]
  | cons second lines ih =>
    have hsecond := ih second
    rw [block] at hsecond ⊢
    rw [joined_cons_cons, List.flatMap_cons, List.append_assoc, hsecond]
    simp

section Block

variable {first : String} {lines : List String}

theorem pieces_joined (h : ∀ line ∈ first :: lines, IsLine line) :
    pieces ['\r', '\n'] (joined (first :: lines)) = (first :: lines).map String.toList := by
  have hw : ∀ piece ∈ (first :: lines).map String.toList, Whole piece := by
    rw [List.forall_mem_map]
    exact fun line hl ↦ (h line hl).whole
  exact Text.pieces_intercalate (by decide) hw

/-- Not even with the beginning of an empty line behind it a text of lines has an empty line. -/
theorem not_infix_joined (h : ∀ line ∈ first :: lines, IsLine line) :
    ¬ ['\r', '\n', '\r', '\n'] <:+: joined (first :: lines) ++ ['\r', '\n', '\r'] := by
  intro hi
  have hp : pieces ['\r', '\n'] (joined (first :: lines) ++ ['\r', '\n', '\r']) =
      pieces ['\r', '\n'] (joined (first :: lines)) ++ [['\r']] :=
    Text.pieces_append (by decide) (joined (first :: lines)) ['\r']
  have hnil : [] ∈ pieces ['\r', '\n'] (joined (first :: lines) ++ ['\r', '\n', '\r']) :=
    Text.nil_mem_pieces (by decide) hi
  rw [hp, pieces_joined h, List.mem_append, List.mem_map] at hnil
  rcases hnil with ⟨line, hl, he⟩ | he
  · exact (h line hl).ne (String.toList_eq_nil_iff.1 he)
  · exact absurd he (by decide)

/-- The empty line behind lines is the first one. -/
theorem find?_joined (h : ∀ line ∈ first :: lines, IsLine line) :
    find? [13, 10, 13, 10] ((joined (first :: lines)).flatMap utf8EncodeChar ++ [13, 10, 13, 10]) =
      some ((joined (first :: lines)).flatMap utf8EncodeChar).length := by
  have hends : ['\r', '\n', '\r'].flatMap utf8EncodeChar = [13, 10, 13] := by decide
  have hnone : ¬ [13, 10, 13, 10] <:+:
      (joined (first :: lines)).flatMap utf8EncodeChar ++ [13, 10, 13] := by
    rw [← hends, ← List.flatMap_append]
    exact fun hi ↦ not_infix_joined h (Utf8.infix_of_encoded (by decide) _ hi)
  generalize (joined (first :: lines)).flatMap utf8EncodeChar = bytes at hnone ⊢
  have hne : ([13, 10, 13, 10] : Bytes) ≠ [] := List.cons_ne_nil _ _
  obtain ⟨n, hn⟩ := Option.isSome_iff_exists.1
    ((Text.isSome_find? hne _).2 (List.suffix_append bytes [13, 10, 13, 10]).isInfix)
  have hl := Text.add_length_le_of_find? hne hn
  have hp := Text.prefix_of_find? hne hn
  simp only [List.length_append, List.length_cons, List.length_nil] at hl
  rcases Nat.lt_or_ge n bytes.length with hlt | hge
  · -- One that begins earlier ends before the last byte.
    have hsplit : bytes ++ [13, 10, 13, 10] = bytes ++ [13, 10, 13] ++ [10] := by simp
    rw [hsplit, List.drop_append_of_le_length (by rw [List.length_append]; omega)] at hp
    have hshort := List.prefix_of_prefix_length_le hp (List.prefix_append _ _)
      (by simp only [List.length_drop, List.length_append, List.length_cons, List.length_nil]; omega)
    exact absurd (hshort.isInfix.trans (List.drop_suffix n _).isInfix) hnone
  · rw [hn, Nat.le_antisymm (by omega) hge]

theorem find?_block (h : ∀ line ∈ first :: lines, IsLine line) (rest : Bytes) :
    ∃ n, find? [13, 10, 13, 10] (block (first :: lines) ++ rest) = some n ∧
      (block (first :: lines) ++ rest).take n = (joined (first :: lines)).flatMap utf8EncodeChar ∧
      (block (first :: lines) ++ rest).drop (n + 4) = rest := by
  have hf := Text.find?_append (List.cons_ne_nil _ _) (find?_joined h) rest
  have hb : block (first :: lines) =
      (joined (first :: lines)).flatMap utf8EncodeChar ++ [13, 10, 13, 10] := block_eq first lines
  rw [hb]
  generalize (joined (first :: lines)).flatMap utf8EncodeChar = bytes at hf ⊢
  refine ⟨bytes.length, hf, ?_, ?_⟩
  · rw [List.append_assoc, List.take_left]
  · rw [List.append_assoc, ← List.drop_drop, List.drop_left]
    rfl

end Block

end Prefork.Http
