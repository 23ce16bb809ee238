import Prefork.Proofs.Http.Rendering
import Prefork.Proofs.Text.Blank

namespace Prefork.Http

open Text (sameFolded trim)

theorem Whole.nil : Whole [] := Unbroken.whole (by decide)

theorem Whole.cons {cs : List Char} {c : Char} (hr : c ≠ '\r') (hn : c ≠ '\n') (h : Whole cs) :
    Whole (c :: cs) :=
  Whole.nil.append_cons hr hn h

theorem Whole.map_toLower {cs : List Char} (h : Whole cs) : Whole (cs.map Char.toLower) := by
  intro hi
  obtain ⟨part, hp, he⟩ := List.infix_map_iff.1 hi
  -- Neither of the two is what a letter becomes.
  have hpart : part = ['\r', '\n'] := by
    match part with
    | [] | [_] | _ :: _ :: _ :: _ => simp at he
    | [c, d] =>
      obtain ⟨hc, hd⟩ : c.toLower = '\r' ∧ d.toLower = '\n' := by simpa [eq_comm] using he
      rw [(Text.toLower_eq_iff (by decide) c).1 hc, (Text.toLower_eq_iff (by decide) d).1 hd]
  exact h (hpart ▸ hp)

namespace Headers

structure IsNormal (f : String × String) : Prop where
  name_ne : f.1 ≠ ""
  name : trim f.1.toList = f.1.toList ∧ Whole f.1.toList
  name_chars {c : Char} : c ∈ f.1.toList → c ≠ ':' ∧ c.isUpper = false
  value : trim f.2.toList = f.2.toList ∧ Whole f.2.toList

/-- Fields as they are kept, with one value for each name. -/
structure Normal (h : Headers) : Prop where
  fields {f : String × String} : f ∈ h.entries → IsNormal f
  distinct : h.entries.Pairwise fun e f ↦ sameFolded e.1 f.1 = false

theorem Normal.set {h : Headers} {f : String × String} (hh : h.Normal) (hf : IsNormal f) :
    (h.set f.1 f.2).Normal where
  fields {e} he := by
    rw [entries_set, List.mem_append, List.mem_singleton, List.mem_filter] at he
    rcases he with ⟨he, -⟩ | rfl
    · exact hh.fields he
    · exact hf
  distinct := by
    rw [entries_set, List.pairwise_append]
    refine ⟨hh.distinct.filter _, List.pairwise_singleton .., fun e he g hg ↦ ?_⟩
    obtain rfl := List.mem_singleton.1 hg
    simpa using (List.mem_filter.1 he).2

theorem latest_of_distinct {fields : List (String × String)}
    (h : fields.Pairwise fun e f ↦ sameFolded e.1 f.1 = false) : latest fields = fields := by
  induction fields with
  | nil => rfl
  | cons f fields ih =>
    obtain ⟨hf, hfields⟩ := List.pairwise_cons.1 h
    have hnone : fields.any (fun e ↦ sameFolded e.1 f.1) = false := by
      rw [List.any_eq_false]
      intro e he
      rw [sameFolded_comm, hf e he]
      exact Bool.false_ne_true
    rw [latest, hnone, if_neg Bool.false_ne_true, ih hfields]

end Headers

open Headers (IsNormal)

namespace Draft

theorem isNormal_plain {f : String × String} (hn : Whole f.1.toList) (hc : ':' ∉ f.1.toList)
    (hne : trim f.1.toList ≠ []) (hv : Whole f.2.toList) : IsNormal (plain f) where
  name_ne he := hne (by simpa [plain] using he)
  name := by
    rw [plain, String.toList_ofList]
    exact ⟨by rw [Text.trim_map_toLower, Text.trim_trim],
      (hn.of_infix (Text.infix_trim _)).map_toLower⟩
  name_chars {c} hm := by
    rw [plain, String.toList_ofList] at hm
    obtain ⟨d, hd, rfl⟩ := List.mem_map.1 hm
    refine ⟨fun he ↦ hc ?_, Text.isUpper_toLower d⟩
    rw [Text.toLower_eq_iff (by decide)] at he
    exact he ▸ (Text.infix_trim _).subset hd
  value := by
    rw [plain, String.toList_ofList]
    exact ⟨Text.trim_trim _, hv.of_infix (Text.infix_trim _)⟩

theorem plain_space {f : String × String} (h : IsNormal f) : plain (f.1, " " ++ f.2) = f := by
  have hn : (trim f.1.toList).map Char.toLower = f.1.toList := by
    rw [h.name.1]
    exact (List.map_congr_left fun c hc ↦
      Text.toLower_of_isUpper_eq_false (h.name_chars hc).2).trans (List.map_id _)
  have hv : trim (" " ++ f.2).toList = f.2.toList := by
    rw [String.toList_append]
    exact (Text.trim_cons (by decide) _).trans h.value.1
  rw [plain, hn, hv, String.ofList_toList, String.ofList_toList]

end Draft

namespace Head

theorem target_of_requestLine {line : List Char} {method : Method} {target : String}
    {version : Version} (h : requestLine line = .ok (method, target, version)) :
    target ≠ "" ∧ ' ' ∉ target.toList ∧ target.toList <:+: line := by
  rw [requestLine] at h
  split at h
  · next name part number hp =>
    have hm : part ∈ Text.pieces [' '] line := by simp [hp]
    obtain ⟨hpart, hspace⟩ := Text.mem_pieces List.not_mem_nil line hm
    have ht : part ≠ [] ∧ target = String.ofList part := by
      simp only [bind, Except.bind] at h
      split at h
      · cases h
      · next hne =>
        split at h
        · split at h
          · cases h
            exact ⟨by simpa using hne, rfl⟩
          · cases h
        · cases h
    obtain ⟨hne, rfl⟩ := ht
    rw [String.toList_ofList]
    exact ⟨by simpa using hne, by rwa [List.singleton_infix_iff] at hspace, hpart⟩
  · cases h

theorem set_of_addField {headers next : Headers} {line : List Char} (hw : Whole line)
    (h : addField headers line = .ok next) :
    ∃ f, IsNormal f ∧ next = headers.set f.1 f.2 := by
  simp only [addField, bind, Except.bind] at h
  split at h
  · next name value hc =>
    obtain ⟨rfl, hcolon⟩ := Text.eq_of_cut? hc
    split at h
    · cases h
    · next hne =>
      cases h
      have htrim : trim name ≠ [] := by simpa using hne
      have hname : Whole name := hw.of_infix (List.prefix_append ..).isInfix
      have hvalue : Whole value :=
        hw.of_infix ((List.suffix_cons ..).trans (List.suffix_append ..)).isInfix
      refine ⟨Draft.plain (String.ofList name, String.ofList value), ?_, ?_⟩
      · apply Draft.isNormal_plain <;> simpa
      · simp [Draft.plain]
  · cases h

theorem normal_of_foldlM {lines : List (List Char)} {headers last : Headers}
    (hl : ∀ line ∈ lines, Whole line) (hn : headers.Normal)
    (h : lines.foldlM addField headers = .ok last) : last.Normal := by
  induction lines generalizing headers with
  | nil =>
    cases h
    exact hn
  | cons line lines ih =>
    rw [List.foldlM_cons] at h
    cases hf : addField headers line with
    | error e =>
      rw [hf] at h
      cases h
    | ok next =>
      rw [hf] at h
      obtain ⟨f, hnormal, rfl⟩ := set_of_addField (hl line List.mem_cons_self) hf
      exact ih (fun other ho ↦ hl other (List.mem_cons_of_mem line ho)) (hn.set hnormal) h

theorem whole_of_mem_lines {ending : LineEnding} {text line : List Char}
    (h : line ∈ lines ending text) : Whole line := by
  have hm := (List.mem_filter.1 h).1
  have hnone : ¬ ending.chars <:+: line := by
    cases ending <;> exact (Text.mem_pieces (by decide) text hm).2
  have hpart : ending.chars <:+: ['\r', '\n'] := by cases ending <;> decide
  exact fun hi ↦ hnone (hpart.trans hi)

end Head

namespace Request

def render (r : Request) : Bytes :=
  block (s!"{r.method.name} {r.target} {r.version.name}" ::
    r.headers.entries.map fun f ↦ s!"{f.1}: {f.2}") ++ r.body

def draft (r : Request) : Draft where
  method := r.method
  target := r.target
  version := r.version
  fields := r.headers.entries.map fun f ↦ (f.1, " " ++ f.2)
  body := r.body

/-- A request as it is kept. -/
structure Normal (r : Request) : Prop where
  target_ne : r.target ≠ ""
  target : Whole r.target.toList ∧ ' ' ∉ r.target.toList
  headers : r.headers.Normal
  body : match r.headers.get? "content-length" with
    | none => r.body.length = 0
    | some value => Text.natural? Text.maxWord value.toList = some r.body.length
  length_le : r.body.length ≤ Head.maxBody

theorem render_draft (r : Request) : r.draft.render = r.render := by
  have hfield (f : String × String) : Draft.fieldLine (f.1, " " ++ f.2) = s!"{f.1}: {f.2}" := by
    rw [← String.toList_inj]
    show (f.1 ++ ":" ++ (" " ++ f.2)).toList = (f.1 ++ ": " ++ f.2).toList
    simp
  have hfields : r.draft.fields.map Draft.fieldLine =
      r.headers.entries.map fun f ↦ s!"{f.1}: {f.2}" := by
    rw [draft, List.map_map]
    exact List.map_congr_left fun f _ ↦ hfield f
  rw [Draft.render, hfields]
  rfl

theorem plain_draft {r : Request} (h : r.headers.Normal) :
    r.draft.fields.map Draft.plain = r.headers.entries := by
  rw [draft, List.map_map]
  exact (List.map_congr_left fun f hf ↦ Draft.plain_space (h.fields hf)).trans (List.map_id _)

theorem latest_draft {r : Request} (h : r.headers.Normal) :
    (⟨Headers.latest (r.draft.fields.map Draft.plain)⟩ : Headers) = r.headers := by
  rw [plain_draft h, Headers.latest_of_distinct h.distinct]

theorem request_draft {r : Request} (h : r.headers.Normal) : r.draft.request = r := by
  rw [Draft.request, latest_draft h]
  rfl

theorem Normal.legible {r : Request} (h : r.Normal) : r.draft.Legible where
  target_ne := h.target_ne
  target := h.target
  names {f} hf := by
    obtain ⟨g, hg, rfl⟩ := List.mem_map.1 hf
    have hn := h.headers.fields hg
    refine ⟨hn.name.2, fun hc ↦ (hn.name_chars hc).1 rfl, ?_⟩
    rw [hn.name.1]
    exact fun he ↦ hn.name_ne (String.toList_eq_nil_iff.1 he)
  values {f} hf := by
    obtain ⟨g, hg, rfl⟩ := List.mem_map.1 hf
    rw [String.toList_append]
    exact (h.headers.fields hg).value.2.cons (by decide) (by decide)
  body := by
    have hb := h.body
    have hv : r.draft.lengthValue = r.headers.get? "content-length" := by
      rw [Draft.lengthValue, ← Headers.get?_latest, latest_draft h.headers]
    rw [hv]
    cases hl : r.headers.get? "content-length" with
    | none =>
      rw [hl] at hb
      exact List.eq_nil_of_length_eq_zero hb
    | some value =>
      rw [hl] at hb
      exact ⟨hb, h.length_le⟩

/-- A request in normal form is read back, whatever is behind it. -/
theorem Normal.read_append {r : Request} (h : r.Normal) (rest : Bytes) :
    read (r.render ++ rest) = .complete r rest := by
  have hfront : ∀ b ∈ ([] : Bytes), b = 13 ∨ b = 10 := nofun
  have hr := h.legible.read hfront rest
  rwa [List.nil_append, render_draft, request_draft h.headers] at hr

theorem normal_of_read {b rest : Bytes} {r : Request} (h : read b = .complete r rest) :
    r.Normal := by
  rw [read] at h
  obtain ⟨head, behind, hhead, htake⟩ := Reading.andThen_eq_complete h
  obtain ⟨body, hbody, rfl⟩ := Reading.map_eq_complete htake
  have hlength : body.length = head.contentLength := Reading.length_of_take hbody
  rw [Head.read] at hhead
  split at hhead
  · cases hhead
  · next ending i hend =>
    obtain ⟨text, hfirst, hheaders, hsize⟩ := Head.of_parse (Reading.ofExcept_eq_complete hhead).1
    have hwhole : ∀ line ∈ Head.lines ending text, Whole line := fun _ ↦ Head.whole_of_mem_lines
    have hline : Whole ((Head.lines ending text).headD []) := by
      cases hl : Head.lines ending text with
      | nil => exact .nil
      | cons line lines => exact hwhole line (hl ▸ List.mem_cons_self)
    obtain ⟨hne, hspace, htarget⟩ := Head.target_of_requestLine hfirst
    obtain ⟨hvalue, hle⟩ := Head.of_bodySize hsize
    rw [← hlength] at hvalue hle
    have hnone : Headers.Normal {} := ⟨fun hf ↦ absurd hf List.not_mem_nil, .nil⟩
    exact {
      target_ne := hne
      target := ⟨hline.of_infix htarget, hspace⟩
      headers := Head.normal_of_foldlM (fun line hl ↦ hwhole line (List.mem_of_mem_drop hl)) hnone
        hheaders
      body := hvalue
      length_le := hle }

/-- Whatever bytes a request is read from, it is in normal form, and its canonical bytes are read
as the same request again. -/
theorem read_in_normal_form {b rest : Bytes} {r : Request} (h : read b = .complete r rest) :
    (∃ n ≤ b.length, rest = b.drop n) ∧ r.Normal ∧ read r.render = .complete r [] := by
  have hn := normal_of_read h
  have hagain := hn.read_append []
  rw [List.append_nil] at hagain
  refine ⟨?_, hn, hagain⟩
  obtain ⟨front, rfl⟩ := (suffix_of_read h).1
  exact ⟨front.length, by simp, List.drop_left.symm⟩

def returns : Request where
  method := .post
  target := "/a\rb"
  version := .http10
  headers := ⟨[("content-length", "+2"), ("x-\rtag", "a\r\r b")]⟩
  body := [13, 10]

theorem read_returns :
    let b := Utf8.encode "\r\nPOST /a\rb HTTP/1.0\nContent-Length: +2\r\n X-\rTag : a\r\r b\n\n\r\n!"
    read b = .complete returns (Utf8.encode "!") ∧
      (∃ n ≤ b.length, Utf8.encode "!" = b.drop n) ∧ returns.Normal ∧
      read returns.render = .complete returns [] := by
  intro b
  have hb : read b = .complete returns (Utf8.encode "!") := by decide +kernel
  exact ⟨hb, read_in_normal_form hb⟩

end Request

end Prefork.Http
