import Prefork.Http.Response
import Prefork.Proofs.Http.Lines
import Prefork.Proofs.Text.Occurrence

namespace Prefork.Http

open Text (sameFolded cut? cut?_append)

/-- A response as a client reads it. -/
structure Received where
  version : Version
  code : Nat
  reason : String
  fields : List (String × String) := []
  body : Bytes := []
  deriving DecidableEq, Repr

def IsName (cs : List Char) : Prop := cs ≠ [] ∧ ∀ c ∈ cs, ¬ c.isWhitespace ∧ c ≠ ':'

instance (cs : List Char) : Decidable (IsName cs) :=
  @instDecidableAnd _ _ inferInstance (List.decidableBAll _ cs)

namespace Received

def isLength (field : String × String) : Bool := sameFolded field.1 "content-length"

def lines? (b : Bytes) : Option (List (List Char) × Bytes) := do
  let n ← Text.find? [13, 10, 13, 10] b
  let cs ← (Utf8.decode (b.take n)).toOption
  return (Text.pieces ['\r', '\n'] cs, b.drop (n + 4))

def status? (line : List Char) : Option (Version × Nat × String) := do
  let (version, rest) ← cut? ' ' line
  let (code, reason) ← cut? ' ' rest
  return (← Version.ofName? (String.ofList version), ← Text.digits? code, String.ofList reason)

def field? (line : List Char) : Option (String × String) := do
  let (name, rest) ← cut? ':' line
  if IsName name ∧ rest.head? = some ' ' then
    return (String.ofList name, String.ofList rest.tail)
  else none

def size? (fields : List (String × String)) : Option Nat :=
  match fields.filter isLength with
  | [] => some 0
  | [(_, value)] => Text.digits? value.toList
  | _ => none

def read? (b : Bytes) : Option (Received × Bytes) := do
  let (lines, rest) ← lines? b
  let (version, code, reason) ← status? (← lines.head?)
  let fields ← lines.tail.mapM field?
  let n ← size? fields
  if n ≤ rest.length then
    return ({ version, code, reason, fields, body := rest.take n }, rest.drop n)
  else none

theorem lines?_block {first : String} {lines : List String}
    (h : ∀ line ∈ first :: lines, IsLine line) (rest : Bytes) :
    lines? (block (first :: lines) ++ rest) =
      some ((first :: lines).map String.toList, rest) := by
  obtain ⟨n, hfind, htake, hdrop⟩ := find?_block h rest
  simp only [lines?, hfind, htake, hdrop, Option.bind_eq_bind, Option.bind_some,
    Utf8.decode_flatMap, Except.toOption, pieces_joined h]
  rfl

theorem length_lt_of_lines? {b rest : Bytes} {lines : List (List Char)}
    (h : lines? b = some (lines, rest)) : rest.length < b.length := by
  simp only [lines?, Option.bind_eq_bind, Option.bind_eq_some_iff] at h
  obtain ⟨n, hn, cs, -, h⟩ := h
  cases h
  have hl := Text.add_length_le_of_find? (List.cons_ne_nil _ _) hn
  simp only [List.length_cons, List.length_nil] at hl
  rw [List.length_drop]
  omega

theorem length_lt_of_read? {b rest : Bytes} {r : Received} (h : read? b = some (r, rest)) :
    rest.length < b.length := by
  simp only [read?, Option.bind_eq_bind, Option.bind_eq_some_iff] at h
  obtain ⟨⟨lines, behind⟩, hl, first, -, status, -, fields, -, n, -, h⟩ := h
  have hlt : behind.length < b.length := length_lt_of_lines? hl
  split at h
  · cases h
    show (behind.drop n).length < b.length
    rw [List.length_drop]
    omega
  · cases h

/-- All responses of a stream that ends behind a response. -/
def readAll? (b : Bytes) : Option (List Received) :=
  if b = [] then some []
  else match h : read? b with
    | none => none
    | some (r, rest) =>
      have := length_lt_of_read? h
      (readAll? rest).map (r :: ·)
termination_by b.length

theorem readAll?_of_read? {b rest : Bytes} {r : Received} (h : read? b = some (r, rest)) :
    readAll? b = (readAll? rest).map (r :: ·) := by
  have hne : b ≠ [] := by
    rintro rfl
    exact Nat.not_lt_zero _ (length_lt_of_read? h)
  rw [readAll?, if_neg hne]
  split
  · next hn => rw [h] at hn; cases hn
  · next hs => rw [h] at hs; cases hs; rfl

end Received

namespace Response

open Received

def statusLine (r : Response) : String :=
  s!"{r.version.name} {r.status.code} {r.reason.getD r.status.reason}"

def fieldLine (field : String × String) : String := s!"{field.1}: {field.2}"

def lengthFields (r : Response) : List (String × String) :=
  if r.status.allowsBody then [("Content-Length", toString r.body.length)] else []

def received (r : Response) : Received :=
  { version := r.version, code := r.status.code, reason := r.reason.getD r.status.reason
    fields := r.headers.entries.filter isWritten ++ r.lengthFields
    body := if r.status.allowsBody then r.body else [] }

structure Plain (r : Response) : Prop where
  reason : ∀ reason, r.reason = some reason → Unbroken reason.toList
  names {f : String × String} : f ∈ r.headers.entries → IsName f.1.toList
  values {f : String × String} : f ∈ r.headers.entries → Unbroken f.2.toList

theorem toList_statusLine (r : Response) :
    r.statusLine.toList = r.version.name.toList ++
      ' ' :: (Nat.toDigits 10 r.status.code ++
        ' ' :: (r.reason.getD r.status.reason).toList) := by
  show (r.version.name ++ " " ++ toString r.status.code ++ " " ++
    r.reason.getD r.status.reason).toList = _
  simp

theorem toList_fieldLine (f : String × String) :
    (fieldLine f).toList = f.1.toList ++ ':' :: ' ' :: f.2.toList := by
  show (f.1 ++ ": " ++ f.2).toList = _
  simp

theorem lines_eq (r : Response) : r.lines = r.statusLine :: r.received.fields.map fieldLine := by
  have hl : s!"Content-Length: {r.body.length}" =
      fieldLine ("Content-Length", toString r.body.length) := by
    rw [← String.toList_inj, toList_fieldLine]
    show ("Content-Length: " ++ toString r.body.length).toList = _
    simp
  rw [lines, hl, received, List.map_append, lengthFields]
  cases r.status.allowsBody <;> rfl

theorem render_eq (r : Response) :
    r.render = block (r.statusLine :: r.received.fields.map fieldLine) ++ r.received.body := by
  rw [render, lines_eq]
  rfl

theorem status?_statusLine (r : Response) :
    status? r.statusLine.toList =
      some (r.version, r.status.code, r.reason.getD r.status.reason) := by
  have hv : ' ' ∉ r.version.name.toList := by cases r.version <;> decide
  have hc : ' ' ∉ Nat.toDigits 10 r.status.code := by cases r.status <;> decide
  have hn : Version.ofName? r.version.name = some r.version := by cases r.version <;> rfl
  rw [status?, toList_statusLine]
  simp [cut?_append hv, cut?_append hc, hn, Text.digits?_toDigits]

theorem field?_fieldLine {f : String × String} (h : IsName f.1.toList) :
    field? (fieldLine f).toList = some f := by
  have hc : ':' ∉ f.1.toList := fun hm ↦ (h.2 _ hm).2 rfl
  rw [field?, toList_fieldLine]
  simp [cut?_append hc, h]

theorem mapM_field? {fields : List (String × String)} (h : ∀ f ∈ fields, IsName f.1.toList) :
    ((fields.map fieldLine).map String.toList).mapM field? = some fields := by
  induction fields with
  | nil => rfl
  | cons f fields ih =>
    have hf := field?_fieldLine (h f List.mem_cons_self)
    have hfields := ih fun g hg ↦ h g (List.mem_cons_of_mem f hg)
    simp only [List.map_cons, List.mapM_cons, hf, hfields]
    rfl

theorem filter_isLength (r : Response) : r.received.fields.filter isLength = r.lengthFields := by
  have hw : (r.headers.entries.filter isWritten).filter isLength = [] := by
    rw [List.filter_eq_nil_iff]
    intro f hf hl
    simp only [List.mem_filter, isWritten, Bool.not_eq_true'] at hf
    simp only [isLength, hf.2, Bool.false_eq_true] at hl
  have hl : r.lengthFields.filter isLength = r.lengthFields := by
    have hc : sameFolded "Content-Length" "content-length" = true := by decide
    rw [lengthFields]
    cases r.status.allowsBody <;> simp [isLength, hc]
  rw [received, List.filter_append, hw, hl, List.nil_append]

theorem size?_received (r : Response) : size? r.received.fields = some r.received.body.length := by
  rw [size?, filter_isLength, lengthFields, received]
  cases r.status.allowsBody with
  | false => rfl
  | true => simp [Text.digits?_toDigits]

theorem unbroken_toDigits (n : Nat) : Unbroken (Nat.toDigits 10 n) := by
  intro c hc
  have hd := Nat.isDigit_of_mem_toDigits (by omega) (by omega) hc
  constructor <;> (rintro rfl; cases hd)

theorem plain_received {r : Response} (h : r.Plain) {f : String × String}
    (hf : f ∈ r.received.fields) : IsName f.1.toList ∧ Unbroken f.2.toList := by
  rcases List.mem_append.1 hf with hf | hf
  · have he := (List.mem_filter.1 hf).1
    exact ⟨h.names he, h.values he⟩
  · rw [lengthFields] at hf
    split at hf
    · rw [List.mem_singleton.1 hf]
      have hn : IsName "Content-Length".toList := by decide
      refine ⟨hn, ?_⟩
      rw [Nat.toString_eq_ofList_toDigits, String.toList_ofList]
      exact unbroken_toDigits _
    · cases hf

theorem isLine_statusLine {r : Response} (h : r.Plain) : IsLine r.statusLine := by
  have hv : Unbroken r.version.name.toList := by cases r.version <;> decide
  have hs : Unbroken [' '] := by decide
  have hreason : Unbroken (r.reason.getD r.status.reason).toList := by
    cases hr : r.reason with
    | none => cases r.status <;> decide
    | some reason => exact h.reason reason hr
  refine .of_toList (toList_statusLine r) (by simp) ?_
  exact (hv.append (hs.append ((unbroken_toDigits _).append (hs.append hreason)))).whole

theorem isLine_fieldLine {f : String × String} (hn : IsName f.1.toList)
    (hv : Unbroken f.2.toList) : IsLine (fieldLine f) := by
  have hc : Unbroken [':', ' '] := by decide
  have hname : Unbroken f.1.toList := by
    intro c hc
    constructor <;> (rintro rfl; exact (hn.2 _ hc).1 (by decide))
  exact .of_toList (toList_fieldLine f) (by simp) (hname.append (hc.append hv)).whole

theorem isLine_lines {r : Response} (h : r.Plain) :
    ∀ line ∈ r.statusLine :: r.received.fields.map fieldLine, IsLine line := by
  rw [List.forall_mem_cons, List.forall_mem_map]
  refine ⟨isLine_statusLine h, fun f hf ↦ ?_⟩
  obtain ⟨hn, hv⟩ := plain_received h hf
  exact isLine_fieldLine hn hv

theorem read?_render {r : Response} (h : r.Plain) (rest : Bytes) :
    read? (r.render ++ rest) = some (r.received, rest) := by
  have hstatus := status?_statusLine r
  have hfields := mapM_field? fun f hf ↦ (plain_received h hf).1
  have hsize := size?_received r
  rw [read?, render_eq, List.append_assoc, lines?_block (isLine_lines h)]
  simp only [Option.bind_eq_bind, Option.bind_some, List.map_cons, List.head?_cons, hstatus,
    List.tail_cons, hfields, hsize]
  rw [if_pos (by rw [List.length_append]; omega), List.take_left, List.drop_left]
  rfl

/-- A client gets back every response of a stream, and of each just the length that it has. -/
theorem readAll_flatMap {responses : List Response} (h : ∀ r ∈ responses, r.Plain) :
    readAll? (responses.flatMap render) = some (responses.map received) ∧
      ∀ r ∈ responses, if r.status = .switchingProtocols then
        r.received.fields.filter isLength = [] ∧ r.received.body = []
      else
        r.received.fields.filter isLength = [("Content-Length", toString r.body.length)] ∧
          r.received.body = r.body := by
  constructor
  · induction responses with
    | nil =>
      rw [List.flatMap_nil, readAll?, if_pos rfl]
      rfl
    | cons r responses ih =>
      have hr := read?_render (h r List.mem_cons_self) (responses.flatMap render)
      rw [List.flatMap_cons, readAll?_of_read? hr, ih fun s hs ↦ h s (List.mem_cons_of_mem r hs)]
      rfl
  · intro r _
    rw [filter_isLength, lengthFields, received]
    cases r.status <;> exact ⟨rfl, rfl⟩

def deceptive : List Response :=
  [{ version := .http10, status := .ok, reason := some "Fine = \u00e4"
     headers := ⟨[("content-LENGTH", "7"), ("X-Tag", " a "), ("Content-Length", ""), ("x-tag", "")]⟩
     body := Utf8.encode "\r\n\r\nHTTP/1.1 200 OK\r\n" },
   { version := .http11, status := .switchingProtocols, headers := ⟨[("Content-Length", "3")]⟩
     body := [1, 2, 3] },
   { version := .http09, status := .badRequest, reason := some "" }]

theorem plain_deceptive : ∀ r ∈ deceptive, r.Plain := by
  have h : ∀ r ∈ deceptive, Unbroken (r.reason.getD "").toList ∧
      ∀ f ∈ r.headers.entries, IsName f.1.toList ∧ Unbroken f.2.toList := by decide +kernel
  intro r hr
  obtain ⟨hreason, hfields⟩ := h r hr
  refine ⟨?_, fun hf ↦ (hfields _ hf).1, fun hf ↦ (hfields _ hf).2⟩
  intro reason he
  rwa [he] at hreason

theorem readAll_deceptive :
    (∀ r ∈ deceptive, r.Plain) ∧ readAll? (deceptive.flatMap render) =
      some [{ version := .http10, code := 200, reason := "Fine = \u00e4"
              fields := [("X-Tag", " a "), ("x-tag", ""), ("Content-Length", "21")]
              body := Utf8.encode "\r\n\r\nHTTP/1.1 200 OK\r\n" },
            { version := .http11, code := 101, reason := "Switching Protocols" },
            { version := .http09, code := 400, reason := ""
              fields := [("Content-Length", "0")] }] := by
  refine ⟨plain_deceptive, (readAll_flatMap plain_deceptive).1.trans ?_⟩
  decide +kernel

end Response

end Prefork.Http
