import Mathlib.Data.List.Infix
import Prefork.Proofs.Http.Headers
import Prefork.Proofs.Http.Lines
import Prefork.Proofs.Http.Requests

namespace Prefork.Http

open String (utf8EncodeChar)
open Text (sameFolded trim)

/-- A request as a client writes it. Names of fields may repeat, and they and the values may have
blanks around them. -/
structure Draft where
  method : Method
  target : String
  version : Version
  fields : List (String × String) := []
  body : Bytes := []
  deriving DecidableEq, Repr

namespace Draft

def requestLine (d : Draft) : String := s!"{d.method.name} {d.target} {d.version.name}"

def fieldLine (field : String × String) : String := s!"{field.1}:{field.2}"

def render (d : Draft) : Bytes := block (d.requestLine :: d.fields.map fieldLine) ++ d.body

def plain (field : String × String) : String × String :=
  (String.ofList ((trim field.1.toList).map Char.toLower), String.ofList (trim field.2.toList))

/-- What the last field says that gives the size of the body. -/
def lengthValue (d : Draft) : Option String :=
  ((d.fields.map plain).filter fun f ↦ sameFolded f.1 "content-length").getLast?.map (·.2)

def head (d : Draft) : Head :=
  { method := d.method, target := d.target, version := d.version
    headers := ⟨Headers.latest (d.fields.map plain)⟩, contentLength := d.body.length }

def request (d : Draft) : Request :=
  { method := d.method, target := d.target, version := d.version,
    headers := ⟨Headers.latest (d.fields.map plain)⟩, body := d.body }

/-- No part of a request can be taken for the end of it, and its body has the size it says. -/
structure WellFormed (d : Draft) : Prop where
  target_ne : d.target ≠ ""
  target : Unbroken d.target.toList ∧ ' ' ∉ d.target.toList
  names {f : String × String} : f ∈ d.fields →
    Unbroken f.1.toList ∧ ':' ∉ f.1.toList ∧ trim f.1.toList ≠ []
  values {f : String × String} : f ∈ d.fields → Unbroken f.2.toList
  body : match d.lengthValue with
    | none => d.body = []
    | some value => Text.natural? Text.maxWord value.toList = some d.body.length ∧
      d.body.length ≤ Head.maxBody

/-- A request whose parts are told apart by a reader. Only a whole line end ends a line, so parts
of one may stand in it. -/
structure Legible (d : Draft) : Prop where
  target_ne : d.target ≠ ""
  target : Whole d.target.toList ∧ ' ' ∉ d.target.toList
  names {f : String × String} : f ∈ d.fields →
    Whole f.1.toList ∧ ':' ∉ f.1.toList ∧ trim f.1.toList ≠ []
  values {f : String × String} : f ∈ d.fields → Whole f.2.toList
  body : match d.lengthValue with
    | none => d.body = []
    | some value => Text.natural? Text.maxWord value.toList = some d.body.length ∧
      d.body.length ≤ Head.maxBody

theorem WellFormed.legible {d : Draft} (h : d.WellFormed) : d.Legible where
  target_ne := h.target_ne
  target := ⟨h.target.1.whole, h.target.2⟩
  names hf := ⟨(h.names hf).1.whole, (h.names hf).2⟩
  values hf := (h.values hf).whole
  body := h.body

theorem toList_requestLine (d : Draft) :
    d.requestLine.toList =
      [' '].intercalate [d.method.name.toList, d.target.toList, d.version.name.toList] := by
  show (d.method.name ++ " " ++ d.target ++ " " ++ d.version.name).toList = _
  simp [List.intercalate_cons_cons]

theorem toList_fieldLine (f : String × String) :
    (fieldLine f).toList = f.1.toList ++ ':' :: f.2.toList := by
  show (f.1 ++ ":" ++ f.2).toList = _
  simp

theorem parse_requestLine {d : Draft} (h : d.Legible) :
    Head.requestLine d.requestLine.toList = .ok (d.method, d.target, d.version) := by
  have hspace : ∀ piece ∈ [d.method.name.toList, d.target.toList, d.version.name.toList],
      ¬ [' '] <:+: piece := by
    have hm : ' ' ∉ d.method.name.toList := by cases d.method <;> decide
    have hv : ' ' ∉ d.version.name.toList := by cases d.version <;> decide
    simp [List.singleton_infix_iff, hm, hv, h.target.2]
  have ht : d.target.toList.isEmpty = false := by
    rw [List.isEmpty_eq_false_iff]
    exact fun he ↦ h.target_ne (String.toList_eq_nil_iff.1 he)
  have hm : Method.ofName? d.method.name = some d.method := by cases d.method <;> rfl
  have hv : Version.ofName? d.version.name = some d.version := by cases d.version <;> rfl
  rw [Head.requestLine, toList_requestLine, Text.pieces_intercalate List.not_mem_nil hspace]
  simp [ht, hm, hv]
  rfl

theorem addField_fieldLine {f : String × String} (hc : ':' ∉ f.1.toList)
    (hn : trim f.1.toList ≠ []) (headers : Headers) :
    Head.addField headers (fieldLine f).toList = .ok (headers.set (plain f).1 (plain f).2) := by
  have he : (trim f.1.toList).isEmpty = false := List.isEmpty_eq_false_iff.2 hn
  simp only [Head.addField, toList_fieldLine, Text.cut?_append hc, he]
  rfl

theorem foldlM_addField {fields : List (String × String)}
    (h : ∀ f ∈ fields, ':' ∉ f.1.toList ∧ trim f.1.toList ≠ []) (headers : Headers) :
    ((fields.map fieldLine).map String.toList).foldlM Head.addField headers =
      .ok ((fields.map plain).foldl (fun h f ↦ h.set f.1 f.2) headers) := by
  induction fields generalizing headers with
  | nil => rfl
  | cons f fields ih =>
    obtain ⟨hc, hn⟩ := h f List.mem_cons_self
    simp only [List.map_cons, List.foldlM_cons, addField_fieldLine hc hn, List.foldl_cons]
    exact ih (fun g hg ↦ h g (List.mem_cons_of_mem f hg)) _

theorem bodySize_head {d : Draft} (h : d.Legible) :
    Head.bodySize d.head.headers = .ok d.body.length := by
  have hb := h.body
  have hv : d.head.headers.get? "content-length" = d.lengthValue := Headers.get?_latest ..
  simp only [Head.bodySize, hv]
  cases hl : d.lengthValue with
  | none =>
    simp only [hl] at hb
    rw [hb]
    rfl
  | some value =>
    simp only [hl] at hb
    have hle : ¬ Head.maxBody < d.body.length := Nat.not_lt.2 hb.2
    simp only [hb.1, gt_iff_lt, if_neg hle]
    rfl

theorem isLine_requestLine {d : Draft} (h : d.Legible) : IsLine d.requestLine := by
  have hm : Unbroken d.method.name.toList := by cases d.method <;> decide
  have hv : Unbroken d.version.name.toList := by cases d.version <;> decide
  refine .of_toList (toList_requestLine d) (by simp [List.intercalate_cons_cons]) ?_
  simp only [List.intercalate_cons_cons, List.intercalate_singleton, List.append_assoc,
    List.singleton_append]
  exact hm.whole.append_cons (by decide) (by decide)
    (h.target.1.append_cons (by decide) (by decide) hv.whole)

theorem isLine_fieldLine {f : String × String} (hn : Whole f.1.toList) (hv : Whole f.2.toList) :
    IsLine (fieldLine f) :=
  .of_toList (toList_fieldLine f) (by simp) (hn.append_cons (by decide) (by decide) hv)

theorem isLine_lines {d : Draft} (h : d.Legible) :
    ∀ line ∈ d.requestLine :: d.fields.map fieldLine, IsLine line := by
  rw [List.forall_mem_cons, List.forall_mem_map]
  exact ⟨isLine_requestLine h, fun f hf ↦ isLine_fieldLine (h.names hf).1 (h.values hf)⟩

/-- The bytes of a request begin with its method. -/
theorem exists_block_cons (d : Draft) :
    ∃ b bytes, block (d.requestLine :: d.fields.map fieldLine) = b :: bytes ∧
      Head.isLineByte b = false := by
  have hm : ∃ b bytes, d.method.name.toList.flatMap utf8EncodeChar = b :: bytes ∧
      Head.isLineByte b = false := by
    cases d.method <;> exact ⟨_, _, rfl, rfl⟩
  obtain ⟨b, bytes, hb, hl⟩ := hm
  have hline : ∃ more, Utf8.encode d.requestLine = b :: more := by
    rw [Utf8.encode, toList_requestLine, List.intercalate_cons_cons, List.flatMap_append,
      List.flatMap_append, hb]
    exact ⟨_, rfl⟩
  obtain ⟨more, hline⟩ := hline
  rw [block, List.flatMap_cons, hline]
  exact ⟨b, _, rfl, hl⟩

/-- The lines of a request are parsed to its head. -/
theorem parse_joined {d : Draft} (h : d.Legible) :
    Head.parse .crlf ((joined (d.requestLine :: d.fields.map fieldLine)).flatMap utf8EncodeChar) =
      .ok d.head := by
  have hlines := isLine_lines h
  have hfull : ((d.requestLine :: d.fields.map fieldLine).map String.toList).filter
      (fun line ↦ !line.isEmpty) = (d.requestLine :: d.fields.map fieldLine).map String.toList := by
    rw [List.filter_eq_self]
    intro piece hp
    obtain ⟨line, hl, rfl⟩ := List.mem_map.1 hp
    rw [Bool.not_eq_true', List.isEmpty_eq_false_iff]
    exact fun he ↦ (hlines line hl).ne (String.toList_eq_nil_iff.1 he)
  have hfields := foldlM_addField (fun f hf ↦ (h.names hf).2) {}
  have hheaders : (d.fields.map plain).foldl (fun h f ↦ h.set f.1 f.2) {} = d.head.headers := by
    have hentries := Headers.entries_foldl_set (d.fields.map plain) {}
    rw [List.filter_nil, List.nil_append] at hentries
    exact congrArg Headers.mk hentries
  have hp : Text.pieces LineEnding.crlf.chars _ = _ := pieces_joined hlines
  have hdecode : (Utf8.decode ((joined (d.requestLine :: d.fields.map fieldLine)).flatMap
      utf8EncodeChar)).mapError RequestError.invalidUtf8 =
        .ok (joined (d.requestLine :: d.fields.map fieldLine)) := by
    rw [Utf8.decode_flatMap]
    rfl
  simp only [Head.parse, hdecode, hp, hfull, bind, Except.bind]
  rw [List.map_cons, List.headD_cons, parse_requestLine h, List.drop_one, List.tail_cons]
  simp only [hfields, hheaders, bodySize_head h]
  rfl

/-- A head is read off whatever follows it, past line ends in front of it. -/
theorem read_head {d : Draft} (h : d.Legible) {front : Bytes}
    (hf : ∀ b ∈ front, b = 13 ∨ b = 10) (rest : Bytes) :
    Head.read (front ++ block (d.requestLine :: d.fields.map fieldLine) ++ rest) =
      .complete d.head rest := by
  obtain ⟨b, bytes, hb, hfirst⟩ := d.exists_block_cons
  obtain ⟨n, hfind, htake, hdrop⟩ := find?_block (isLine_lines h) rest
  have hblank : ∀ b ∈ front, Head.isLineByte b := by
    intro b hm
    rcases hf b hm with rfl | rfl <;> rfl
  have htext : Head.text (front ++ block (d.requestLine :: d.fields.map fieldLine) ++ rest) =
      block (d.requestLine :: d.fields.map fieldLine) ++ rest := by
    rw [List.append_assoc, Head.text, List.dropWhile_append_of_pos hblank, hb, List.cons_append,
      List.dropWhile_cons_of_neg (by simp [hfirst])]
  have hend : Head.findEnd (block (d.requestLine :: d.fields.map fieldLine) ++ rest) =
      some (.crlf, n) := by
    rw [Head.findEnd_eq_some_iff]
    exact ⟨hfind, fun d hd ↦ absurd hd List.not_mem_nil⟩
  have hrest : (block (d.requestLine :: d.fields.map fieldLine) ++ rest).drop
      (n + LineEnding.crlf.terminator.length) = rest := hdrop
  simp only [Head.read, htext, hend, htake, parse_joined h, hrest, Reading.ofExcept]

theorem Legible.read {d : Draft} (h : d.Legible) {front : Bytes}
    (hf : ∀ b ∈ front, b = 13 ∨ b = 10) (rest : Bytes) :
    Request.read (front ++ d.render ++ rest) = .complete d.request rest := by
  have hr := read_head h hf (d.body ++ rest)
  have hbody : (Reading.take d.head.contentLength (d.body ++ rest) : Reading RequestError Bytes) =
      .complete d.body rest := Reading.take_append rfl rest
  rw [render, ← List.append_assoc, List.append_assoc _ d.body, Request.read, hr, Reading.andThen,
    hbody]
  rfl

/-- Reading gives the request that was meant, and leaves what is behind it. -/
theorem read_render {d : Draft} (h : d.WellFormed) {front : Bytes}
    (hf : ∀ b ∈ front, b = 13 ∨ b = 10) (rest : Bytes) :
    Request.read (front ++ d.render ++ rest) = .complete d.request rest :=
  h.legible.read hf rest

def untidy : Draft where
  method := .post
  target := "/ä?q=1#\t"
  version := .http10
  fields := [("Content-Length", "99"), ("X-Tag ", " a:b"), ("\tcontent-LENGTH", " +4\u00a0"),
    ("Host", ""), ("x-tag", "\t ü ")]
  body := [13, 10, 13, 10]

theorem wellFormed_untidy : untidy.WellFormed where
  target_ne := by decide
  target := by decide
  names {f} hf := by
    have h : ∀ f ∈ untidy.fields,
        Unbroken f.1.toList ∧ ':' ∉ f.1.toList ∧ trim f.1.toList ≠ [] := by decide +kernel
    exact h f hf
  values {f} hf := by
    have h : ∀ f ∈ untidy.fields, Unbroken f.2.toList := by decide +kernel
    exact h f hf
  body := by
    have h : untidy.lengthValue = some "+4" := by decide +kernel
    rw [h]
    decide +kernel

theorem read_untidy :
    untidy.WellFormed ∧ (∀ b ∈ ([13, 10, 10] : Bytes), b = 13 ∨ b = 10) ∧
      Request.read ([13, 10, 10] ++ untidy.render ++ Utf8.encode "\r\nGET") =
        .complete untidy.request (Utf8.encode "\r\nGET") :=
  ⟨wellFormed_untidy, by simp, read_render wellFormed_untidy (by simp) _⟩

example : untidy.request.headers.entries =
    [("content-length", "+4"), ("host", ""), ("x-tag", "ü")] := by decide +kernel

end Draft

end Prefork.Http
