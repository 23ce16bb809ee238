import Prefork.Http.Request
import Prefork.Http.RequestError
import Prefork.Reading
import Prefork.Text.Numeral

namespace Prefork.Http

inductive LineEnding where
  | crlf | lf | cr
  deriving DecidableEq, Repr

namespace LineEnding

def all : List LineEnding := [crlf, lf, cr]

def bytes : LineEnding → Bytes
  | crlf => [13, 10]
  | lf => [10]
  | cr => [13]

def chars : LineEnding → List Char
  | crlf => ['\r', '\n']
  | lf => ['\n']
  | cr => ['\r']

def terminator (e : LineEnding) : Bytes := e.bytes ++ e.bytes

end LineEnding

/-- All of a request in front of its body. -/
structure Head where
  method : Method
  target : String
  version : Version
  headers : Headers
  contentLength : Nat
  deriving DecidableEq, Repr

namespace Head

def maxBody : Nat := 16 * 1024 * 1024

def withBody (h : Head) (body : Bytes) : Request :=
  { method := h.method, target := h.target, version := h.version, headers := h.headers, body }

def requestLine (line : List Char) : Except RequestError (Method × String × Version) :=
  match Text.pieces [' '] line with
  | [method, target, version] => do
    if target.isEmpty then throw (.malformedRequestLine (String.ofList line))
    let name := String.ofList method
    let some method := Method.ofName? name | throw (.unknownMethod name)
    let name := String.ofList version
    let some version := Version.ofName? name | throw (.unsupportedVersion name)
    return (method, String.ofList target, version)
  | _ => throw (.malformedRequestLine (String.ofList line))

/-- Adds one header line. A name that was there before loses its old value. -/
def addField (headers : Headers) (line : List Char) : Except RequestError Headers := do
  let some (name, value) := Text.cut? ':' line | throw (.malformedHeader (String.ofList line))
  let name := Text.trim name
  if name.isEmpty then throw (.malformedHeader (String.ofList line))
  return headers.set (String.ofList (name.map Char.toLower)) (String.ofList (Text.trim value))

def bodySize (headers : Headers) : Except RequestError Nat := do
  let some value := headers.get? "content-length" | return 0
  let some size := Text.natural? Text.maxWord value.toList | throw (.invalidContentLength value)
  if size > maxBody then throw (.bodyTooLarge size maxBody)
  return size

def parse (ending : LineEnding) (b : Bytes) : Except RequestError Head := do
  let text ← (Utf8.decode b).mapError .invalidUtf8
  let lines := (Text.pieces ending.chars text).filter fun line ↦ !line.isEmpty
  let (method, target, version) ← requestLine (lines.headD [])
  let headers ← (lines.drop 1).foldlM addField {}
  let contentLength ← bodySize headers
  return { method, target, version, headers, contentLength }

/-- The ending whose terminator occurs, and where. An ending earlier in the list wins, wherever it
stands. -/
def findEnd (b : Bytes) : Option (LineEnding × Nat) :=
  LineEnding.all.findSome? fun e ↦ (Text.find? e.terminator b).map fun i ↦ (e, i)

def isLineByte (b : UInt8) : Bool := b == 13 || b == 10

def text (b : Bytes) : Bytes := b.dropWhile isLineByte

def read (b : Bytes) : Reading RequestError Head :=
  match findEnd (text b) with
  | none => .incomplete 1
  | some (ending, i) =>
    Reading.ofExcept ((text b).drop (i + ending.terminator.length)) (parse ending ((text b).take i))

def lastBytes (text : Bytes) : Bytes := text.drop (text.length - 3)

/-- The last bytes of a text in which no head ends. -/
def tail? (text : Bytes) : Option Bytes :=
  if (findEnd text).isSome then none else some (lastBytes text)

def follow (tail data : Bytes) : Option Bytes :=
  tail? (if tail.isEmpty then text data else tail ++ data)

theorem isSome_findEnd (b : Bytes) :
    (findEnd b).isSome ↔ ∃ e ∈ LineEnding.all, e.terminator <:+: b := by
  have h (e : LineEnding) : e.terminator ≠ [] := by cases e <;> decide
  simp [findEnd, List.findSome?_isSome_iff, Text.isSome_find? (h _)]

theorem text_append (b data : Bytes) :
    text (b ++ data) = if (text b).isEmpty then text data else text b ++ data :=
  List.dropWhile_append ..

theorem lastBytes_append {front back : Bytes} (h : 3 ≤ back.length) :
    lastBytes (front ++ back) = lastBytes back := by
  have hl : (front ++ back).length - 3 = front.length + (back.length - 3) := by
    rw [List.length_append]
    omega
  rw [lastBytes, hl, List.drop_length_add_append, lastBytes]

theorem tail?_append {front back : Bytes} (hn : (findEnd (front ++ back)).isSome = false)
    (h : back.length = 3) (data : Bytes) :
    tail? (front ++ back ++ data) = tail? (back ++ data) := by
  have hs : (findEnd (front ++ back ++ data)).isSome = (findEnd (back ++ data)).isSome := by
    rw [Bool.eq_iff_iff, isSome_findEnd, isSome_findEnd]
    refine exists_congr fun e ↦ and_congr_right fun he ↦ Text.infix_append_iff (fun hi ↦ ?_) ?_
    · exact Bool.false_ne_true (hn.symm.trans ((isSome_findEnd _).2 ⟨e, he, hi⟩))
    · rw [h]
      cases e <;> decide
  rw [tail?, tail?, hs, List.append_assoc, lastBytes_append (by simp [h])]

/-- Where no head ends in the text so far, its last bytes are enough to go on from. -/
theorem follow_eq {b tail : Bytes} (h : tail? (text b) = some tail) (data : Bytes) :
    follow tail data = tail? (text (b ++ data)) := by
  obtain ⟨hn, rfl⟩ : (findEnd (text b)).isSome = false ∧ lastBytes (text b) = tail := by
    simpa [tail?] using h
  rw [text_append, follow]
  generalize text b = t at hn
  rcases Nat.lt_or_ge t.length 3 with hs | hl
  · rw [lastBytes, Nat.sub_eq_zero_of_le (Nat.le_of_lt hs), List.drop_zero]
  · have ht : t = t.take (t.length - 3) ++ lastBytes t := (List.take_append_drop ..).symm
    have hb : (lastBytes t).length = 3 := by
      rw [lastBytes, List.length_drop]
      omega
    have hne {s : Bytes} (hs : 3 ≤ s.length) : ¬ s.isEmpty := by
      cases s <;> simp at hs ⊢
    rw [if_neg (hne (Nat.le_of_eq hb.symm)), if_neg (hne hl)]
    rw [ht] at hn
    rw [← tail?_append hn hb, ← ht]

end Head

def Request.read (b : Bytes) : Reading RequestError Request :=
  (Head.read b).andThen fun head rest ↦
    (Reading.take head.contentLength rest).map head.withBody

end Prefork.Http
