import Mathlib.Data.List.TakeWhile
import Prefork.Http.Request
import Prefork.Proofs.Text.Occurrence

namespace Prefork

namespace Text

variable {α : Type} {p q : α → Bool} {xs : List α}

theorem before_cons (x : α) (xs : List α) :
    before p (x :: xs) = if p x then [] else x :: before p xs := by
  rw [before, List.takeWhile_cons]
  cases p x <;> rfl

theorem behind_cons (x : α) (xs : List α) :
    behind p (x :: xs) = if p x then xs else behind p xs := by
  rw [behind, List.dropWhile_cons]
  cases p x <;> rfl

theorem before_before (p q : α → Bool) (xs : List α) :
    before p (before q xs) = before (fun x ↦ p x || q x) xs := by
  induction xs with
  | nil => rfl
  | cons x xs ih =>
    rw [before_cons, before_cons]
    cases hq : q x with
    | true => simp [before]
    | false => cases hp : p x <;> simp [before_cons, hp, ih]

theorem behind_eq_nil (h : ∀ x ∈ xs, p x = false) : behind p xs = [] := by
  induction xs with
  | nil => rfl
  | cons x xs ih =>
    obtain ⟨hx, hxs⟩ := List.forall_mem_cons.1 h
    rw [behind_cons, hx, ih hxs]
    rfl

/-- Where the first mark stands in front of the other, it makes no difference which is looked for
first. -/
theorem before_behind (h : ∃ x ∈ before q xs, p x) :
    before q (behind p xs) = behind p (before q xs) := by
  induction xs with
  | nil =>
    obtain ⟨x, hx, -⟩ := h
    cases hx
  | cons x xs ih =>
    rw [before_cons] at h ⊢
    cases hq : q x with
    | true =>
      rw [hq] at h
      obtain ⟨y, hy, -⟩ := h
      cases hy
    | false =>
      rw [hq] at h
      cases hp : p x with
      | true => simp [behind_cons, hp]
      | false =>
        have hxs : ∃ y ∈ before q xs, p y := by
          obtain ⟨y, hy, hpy⟩ := h
          rcases List.mem_cons.1 hy with rfl | hy
          · rw [hp] at hpy
            cases hpy
          · exact ⟨y, hy, hpy⟩
        simp [behind_cons, hp, ih hxs]

theorem mem_before_or_behind (p : α → Bool) {x : α} (h : x ∈ xs) :
    x ∈ before p xs ∨ p x = true ∨ x ∈ behind p xs := by
  induction xs with
  | nil => cases h
  | cons y xs ih =>
    rw [before_cons, behind_cons]
    cases hy : p y with
    | true =>
      rcases List.mem_cons.1 h with rfl | h
      · exact .inr (.inl hy)
      · exact .inr (.inr h)
    | false =>
      rcases List.mem_cons.1 h with rfl | h
      · exact .inl List.mem_cons_self
      · exact (ih h).imp_left (List.mem_cons_of_mem y)

theorem length_before_behind (p : α → Bool) (xs : List α) :
    (before p xs).length + (behind p xs).length ≤ xs.length ∧
      xs.length ≤ (before p xs).length + (behind p xs).length + 1 := by
  induction xs with
  | nil => exact ⟨Nat.le_refl 0, Nat.zero_le _⟩
  | cons x xs ih =>
    rw [before_cons, behind_cons]
    cases p x with
    | true => simp
    | false =>
      simp only [Bool.false_eq_true, if_false, List.length_cons]
      omega

end Text

namespace Http

namespace Target

open Text (find? findFrom before behind)

structure Components where
  path : List Char
  query : List Char
  fragment : List Char
  deriving DecidableEq, Repr

def front (rest : List Char) : List Char := before (· == '#') rest

/-- The generic syntax behind an authority: the first number sign begins the fragment, and in front
of it the first question mark begins the query. -/
def components (rest : List Char) : Components where
  path := match before (· == '?') (front rest) with
    | [] => ['/']
    | cs => cs
  query := behind (· == '?') (front rest)
  fragment := behind (· == '#') rest

/-- A target in origin form, less its first slash, or in absolute form. -/
inductive Form where
  | origin (path : List Char)
  | absolute (scheme authority rest : List Char)

namespace Form

def isDelimiter (c : Char) : Bool := c == '/' || c == '?' || c == '#'

def rest : Form → List Char
  | origin path => '/' :: path
  | absolute _ _ rest => rest

def target : Form → String
  | origin path => String.ofList ('/' :: path)
  | absolute scheme authority rest =>
    String.ofList (scheme ++ separator ++ authority ++ rest)

def WellFormed : Form → Prop
  | origin _ => True
  | absolute scheme authority rest =>
    (∀ c ∈ scheme, isDelimiter c = false) ∧ (∀ c ∈ authority, isDelimiter c = false) ∧
      ∀ c ∈ rest.head?, isDelimiter c = true

/-- Nothing but the authority is taken for one, and it ends where the next slash is. -/
def Plain : Form → Prop
  | origin path => ¬ separator <:+: '/' :: path
  | absolute _ _ rest =>
    rest = [] ∨ rest.head? = some '/' ∨ '/' ∉ rest ∧ (front rest = [] ∨ front rest = ['?'])

instance : DecidablePred WellFormed
  | origin _ => .isTrue trivial
  | absolute scheme authority rest =>
    decidable_of_iff (scheme.all (!isDelimiter ·) = true ∧ authority.all (!isDelimiter ·) = true ∧
      rest.head?.all isDelimiter = true) (by simp [WellFormed, Option.all_eq_true])

end Form

theorem separator_ne_nil : separator ≠ [] := nofun

instance : DecidablePred Form.Plain
  | .origin _ => decidable_of_iff _ (Text.find?_eq_none_iff separator_ne_nil _)
  | .absolute _ _ _ => inferInstanceAs (Decidable (_ ∨ _ ∨ _))

/-- A scheme may have colons in it, but no slash behind them. -/
theorem findFrom_separator {scheme : List Char} (h : '/' ∉ scheme) (rest : List Char) (index : Nat) :
    findFrom separator index (scheme ++ separator ++ rest) = some (index + scheme.length) := by
  induction scheme generalizing index with
  | nil =>
    have hp : separator.isPrefixOf (separator ++ rest) = true :=
      List.isPrefixOf_iff_prefix.2 (List.prefix_append separator rest)
    exact (if_pos hp : findFrom separator index (separator ++ rest) = some index)
  | cons c scheme ih =>
    rw [List.mem_cons, not_or] at h
    obtain ⟨-, hs⟩ := h
    have hnext : ∀ d ∈ (scheme ++ separator ++ rest).head?, d ≠ '/' := by
      cases scheme with
      | nil => simp [separator]
      | cons d scheme =>
        rw [List.mem_cons, not_or] at hs
        simpa using Ne.symm hs.1
    have hno : separator.isPrefixOf (c :: (scheme ++ separator ++ rest)) = false := by
      cases hr : scheme ++ separator ++ rest with
      | nil => simp [separator, List.isPrefixOf]
      | cons d others =>
        rw [hr] at hnext
        have hd := hnext d rfl
        simp [separator, List.isPrefixOf, hd.symm]
    rw [List.cons_append, List.cons_append, findFrom, hno, if_neg Bool.false_ne_true, ih hs,
      List.length_cons]
    congr 1
    omega

theorem stripAuthority_absolute {scheme authority : List Char} (hs : '/' ∉ scheme)
    (ha : '/' ∉ authority) (rest : List Char) :
    stripAuthority (scheme ++ separator ++ authority ++ rest) = rest.dropWhile (· != '/') := by
  have hfind := findFrom_separator hs (authority ++ rest) 0
  rw [Nat.zero_add, ← List.append_assoc] at hfind
  have hdrop : (scheme ++ separator ++ authority ++ rest).drop (scheme.length + separator.length) =
      authority ++ rest := by
    rw [← List.length_append, List.append_assoc (scheme ++ separator), List.drop_left]
  have hpos : ∀ c ∈ authority, (c != '/') = true := by
    intro c hc
    rw [bne_iff_ne]
    rintro rfl
    exact ha hc
  have hstrip : stripAuthority (scheme ++ separator ++ authority ++ rest) =
      ((scheme ++ separator ++ authority ++ rest).drop
        (scheme.length + separator.length)).dropWhile (· != '/') := by
    rw [stripAuthority, find?, hfind]
  rw [hstrip, hdrop, List.dropWhile_append_of_pos hpos]

theorem stripAuthority_of_not_infix {target : List Char} (h : ¬ separator <:+: target) :
    stripAuthority target = target := by
  rw [stripAuthority, (Text.find?_eq_none_iff separator_ne_nil target).2 h]

/-- A separator that is found takes its own length and what is in front of it away. -/
theorem length_stripAuthority {path : List Char} (h : separator <:+: '/' :: path) :
    (stripAuthority ('/' :: path)).length + 4 ≤ ('/' :: path).length := by
  obtain ⟨i, hi⟩ := Option.isSome_iff_exists.1 ((Text.isSome_find? separator_ne_nil _).2 h)
  have hfits := Text.add_length_le_of_find? separator_ne_nil hi
  have hpos : i ≠ 0 := by
    rintro rfl
    have hfront := Text.prefix_of_find? separator_ne_nil hi
    simp [separator] at hfront
  have hlength : separator.length = 3 := rfl
  have hdrop : (stripAuthority ('/' :: path)).length ≤
      (('/' :: path).drop (i + separator.length)).length := by
    rw [stripAuthority, hi]
    exact (List.dropWhile_suffix _).length_le
  rw [List.length_drop] at hdrop
  omega

def readPath (rest : List Char) : List Char :=
  match before (fun c ↦ c == '?' || c == '#') rest with
  | [] => ['/']
  | cs => cs

def readQuery (rest : List Char) : List Char := before (· == '#') (behind (· == '?') rest)

theorem path_ofList (target : List Char) :
    path (String.ofList target) = String.ofList (readPath (stripAuthority target)) := by
  rw [path, readPath, String.toList_ofList]
  cases before (fun c ↦ c == '?' || c == '#') (stripAuthority target) <;> rfl

theorem query_ofList (target : List Char) :
    query (String.ofList target) = String.ofList (readQuery (stripAuthority target)) := by
  rw [query, readQuery, String.toList_ofList]

theorem readPath_eq (rest : List Char) : readPath rest = (components rest).path := by
  rw [readPath, components, front, Text.before_before]

theorem readQuery_eq {rest : List Char}
    (h : '?' ∈ front rest ∨ '?' ∉ (components rest).fragment) :
    readQuery rest = (components rest).query := by
  by_cases hq : '?' ∈ front rest
  · exact Text.before_behind ⟨'?', hq, rfl⟩
  · have hnone : ∀ c ∈ rest, (c == '?') = false := by
      intro c hc
      rw [beq_eq_false_iff_ne]
      rintro rfl
      rcases Text.mem_before_or_behind (· == '#') hc with hc | hc | hc
      · exact hq hc
      · cases hc
      · exact (h.resolve_left hq) hc
    have hfront : ∀ c ∈ front rest, (c == '?') = false :=
      fun c hc ↦ hnone c ((List.takeWhile_prefix _).subset hc)
    rw [readQuery, Text.behind_eq_nil hnone, components, Text.behind_eq_nil hfront]
    rfl

theorem length_readQuery_le (s : List Char) : (readQuery s).length ≤ s.length - 1 := by
  have hdrop : (s.dropWhile fun c ↦ !(c == '?')).length ≤ s.length :=
    (List.dropWhile_suffix _).length_le
  have hfront : (readQuery s).length ≤ (behind (· == '?') s).length :=
    (List.takeWhile_prefix _).length_le
  rw [behind, List.length_drop] at hfront
  omega

theorem length_read_le (s : List Char) :
    (readPath s).length + (readQuery s).length ≤ s.length + 1 := by
  have hsum := (Text.length_before_behind (· == '?') s).1
  have hquery : (readQuery s).length ≤ (behind (· == '?') s).length :=
    (List.takeWhile_prefix _).length_le
  have hpath : (before (fun c ↦ c == '?' || c == '#') s).length ≤
      (before (· == '?') s).length := by
    have hswap := Text.before_before (· == '#') (· == '?') s
    simp only [Bool.or_comm (_ == '#')] at hswap
    rw [← hswap]
    exact (List.takeWhile_prefix _).length_le
  rw [readPath]
  cases hcs : before (fun c ↦ c == '?' || c == '#') s with
  | nil =>
    simp only [List.length_singleton]
    omega
  | cons c cs =>
    rw [hcs] at hpath
    simp only
    omega

theorem front_eq {rest : List Char} (h : '#' ∉ rest) : front rest = rest := by
  apply List.takeWhile_eq_self_iff.2
  intro c hc
  simp only [Bool.not_eq_true', beq_eq_false_iff_ne]
  rintro rfl
  exact h hc

theorem fragment_eq_nil {rest : List Char} (h : '#' ∉ rest) : (components rest).fragment = [] := by
  apply Text.behind_eq_nil
  intro c hc
  rw [beq_eq_false_iff_ne]
  rintro rfl
  exact h hc

theorem length_le_components {rest : List Char} (h : '#' ∉ rest) :
    rest.length ≤ (components rest).path.length + (components rest).query.length + 1 := by
  have hsum := (Text.length_before_behind (· == '?') rest).2
  simp only [components, front_eq h]
  cases hcs : before (· == '?') rest with
  | nil =>
    rw [hcs, List.length_nil] at hsum
    simp only [List.length_singleton]
    omega
  | cons c cs =>
    rw [hcs] at hsum
    exact hsum

theorem components_of_plain {s rest : List Char} (hs : '/' ∉ rest)
    (hf : front rest = [] ∨ front rest = ['?']) (hd : rest.dropWhile (· != '/') = s) :
    readPath s = (components rest).path ∧ readQuery s = (components rest).query := by
  have hnil : s = [] := by
    rw [← hd, List.dropWhile_eq_nil_iff]
    intro c hc
    rw [bne_iff_ne]
    rintro rfl
    exact hs hc
  subst hnil
  rcases hf with hf | hf <;> simp [components, hf, readPath, readQuery, before, behind]

namespace Form

variable {f : Form}

theorem WellFormed.slash_notMem {cs : List Char} (h : ∀ c ∈ cs, isDelimiter c = false) :
    '/' ∉ cs ∧ '?' ∉ cs ∧ '#' ∉ cs := by
  have hno {c : Char} (hc : isDelimiter c = true) : c ∉ cs := by
    intro hm
    rw [h c hm] at hc
    cases hc
  exact ⟨hno rfl, hno rfl, hno rfl⟩

theorem stripAuthority_of_plain (h : f.WellFormed) (hp : f.Plain) :
    readPath (stripAuthority f.target.toList) = (components f.rest).path ∧
      ('?' ∈ front f.rest ∨ '?' ∉ (components f.rest).fragment →
        readQuery (stripAuthority f.target.toList) = (components f.rest).query) := by
  cases f with
  | origin path =>
    rw [target, String.toList_ofList, stripAuthority_of_not_infix hp]
    exact ⟨readPath_eq _, readQuery_eq⟩
  | absolute scheme authority rest =>
    obtain ⟨hscheme, hauthority, -⟩ := h
    rw [target, String.toList_ofList, stripAuthority_absolute
      (WellFormed.slash_notMem hscheme).1 (WellFormed.slash_notMem hauthority).1]
    rcases hp with hnil | hslash | ⟨hs, hf⟩
    · obtain rfl : rest = [] := hnil
      exact ⟨readPath_eq _, readQuery_eq⟩
    · obtain ⟨others, rfl⟩ := List.head?_eq_some_iff.1 hslash
      exact ⟨readPath_eq _, readQuery_eq⟩
    · obtain ⟨hpath, hquery⟩ := components_of_plain hs hf rfl
      exact ⟨hpath, fun _ ↦ hquery⟩

/-- Without a fragment, what a separator or a missing path hides from the reader is not made up
for. -/
theorem plain_of_read (h : f.WellFormed) (hn : '#' ∉ f.rest)
    (hpath : readPath (stripAuthority f.target.toList) = (components f.rest).path)
    (hquery : readQuery (stripAuthority f.target.toList) = (components f.rest).query) :
    f.Plain := by
  cases f with
  | origin path =>
    intro hs
    have hlong := length_le_components hn
    have hread := length_read_le (stripAuthority ('/' :: path))
    have hstrip := length_stripAuthority hs
    rw [target, String.toList_ofList] at hpath hquery
    rw [← hpath, ← hquery] at hlong
    simp only [rest] at hlong
    omega
  | absolute scheme authority rest =>
    obtain ⟨hscheme, hauthority, hrest⟩ := h
    rw [target, String.toList_ofList, stripAuthority_absolute
      (WellFormed.slash_notMem hscheme).1 (WellFormed.slash_notMem hauthority).1] at hquery
    cases rest with
    | nil => exact .inl rfl
    | cons c others =>
      have hc : c = '/' ∨ c = '?' := by
        have hd := hrest c rfl
        simp only [isDelimiter, Bool.or_eq_true, beq_iff_eq, or_assoc] at hd
        rcases hd with hd | hd | rfl
        · exact .inl hd
        · exact .inr hd
        · exact absurd List.mem_cons_self hn
      rcases hc with rfl | rfl
      · exact .inr (.inl rfl)
      · -- All of the query would have to be found behind a slash in it.
        have hl := length_readQuery_le (('?' :: others).dropWhile (· != '/'))
        have hdrop : (others.dropWhile (· != '/')).length ≤ others.length :=
          (List.dropWhile_suffix _).length_le
        change _ ≤ (others.dropWhile (· != '/')).length - 1 at hl
        have hall : (components ('?' :: others)).query = others := by
          have hfront : front ('?' :: others) = '?' :: others := front_eq hn
          rw [components, hfront, Text.behind_cons]
          rfl
        rw [hquery] at hl
        simp only [rest] at hl
        rw [hall] at hl
        have hnil : others = [] := List.length_eq_zero_iff.1 (by omega)
        subst hnil
        exact .inr (.inr ⟨by decide, .inr rfl⟩)

theorem behind_target (h : f.WellFormed) :
    behind (· == '#') f.target.toList = behind (· == '#') f.rest := by
  cases f with
  | origin path => rw [target, String.toList_ofList, rest]
  | absolute scheme authority rest =>
    obtain ⟨hscheme, hauthority, -⟩ := h
    have hpos : ∀ c ∈ scheme ++ separator ++ authority, (!(c == '#')) = true := by
      intro c hc
      simp only [Bool.not_eq_true', beq_eq_false_iff_ne]
      rintro rfl
      rcases List.mem_append.1 hc with hc | hc
      · rcases List.mem_append.1 hc with hc | hc
        · exact (WellFormed.slash_notMem hscheme).2.2 hc
        · exact absurd hc (by decide)
      · exact (WellFormed.slash_notMem hauthority).2.2 hc
    rw [target, String.toList_ofList, behind, List.dropWhile_append_of_pos hpos]
    rfl

end Form

end Target

/-- Whatever the target of a request in one of the two forms, its fragment is found. So is the path
of a plain target, and so is its query unless the only question mark is in the fragment. Of the
targets without a fragment, the plain ones are those whose path and query are both found. -/
theorem Request.components_of_form (r : Request) (f : Target.Form) (hr : r.target = f.target)
    (h : f.WellFormed) :
    r.fragment = String.ofList (Target.components f.rest).fragment ∧
      (f.Plain → r.path = String.ofList (Target.components f.rest).path ∧
        ('?' ∈ Target.front f.rest ∨ '?' ∉ (Target.components f.rest).fragment →
          r.query = String.ofList (Target.components f.rest).query)) ∧
      ('#' ∉ f.rest → ((r.path = String.ofList (Target.components f.rest).path ∧
        r.query = String.ofList (Target.components f.rest).query) ↔ f.Plain)) := by
  have hpath := Target.path_ofList f.target.toList
  have hquery := Target.query_ofList f.target.toList
  rw [String.ofList_toList] at hpath hquery
  rw [Request.fragment, Request.path, Request.query, hr, hpath, hquery, String.ofList_inj,
    String.ofList_inj, Target.fragment, Target.Form.behind_target h]
  refine ⟨rfl, Target.Form.stripAuthority_of_plain h, ?_⟩
  intro hn
  refine ⟨fun ⟨hp, hq⟩ ↦ Target.Form.plain_of_read h hn hp hq, fun hp ↦ ?_⟩
  obtain ⟨hp, hq⟩ := Target.Form.stripAuthority_of_plain h hp
  refine ⟨hp, hq (.inr ?_)⟩
  rw [Target.fragment_eq_nil hn]
  exact List.not_mem_nil

/-- An address in the query of a target with a path does no harm, and a query behind a missing path
is lost. -/
theorem Request.components_of_form_absolute :
    let r : Request := ⟨.get, "http://h/a?u=http://x/#y?z", .http11, {}, []⟩
    let lost : Request := { r with target := "http://h?x=1" }
    r.path = "/a" ∧ r.query = "u=http://x/" ∧ r.fragment = "y?z" ∧
      ¬ (lost.path = "/" ∧ lost.query = "x=1") := by
  intro r lost
  let f : Target.Form := .absolute "http".toList "h".toList "/a?u=http://x/#y?z".toList
  let g : Target.Form := .absolute "http".toList "h".toList "?x=1".toList
  obtain ⟨hfragment, hplain, -⟩ := Request.components_of_form r f (by decide) (by decide)
  obtain ⟨hpath, hquery⟩ := hplain (by decide)
  obtain ⟨-, -, hlost⟩ := Request.components_of_form lost g (by decide) (by decide)
  have hnot := mt (hlost (by decide)).1 (by decide)
  exact ⟨hpath, hquery (by decide), hfragment, hnot⟩

/-- An address in the query gives the path of the request, and a question mark in the fragment gives
its query. -/
theorem Request.components_misread :
    (∃ f : Target.Form, f.WellFormed ∧ f.target = "/r?u=http://h/x" ∧
      Target.path f.target = "/x" ∧ (Target.components f.rest).path = "/r".toList) ∧
    ∃ f : Target.Form, f.WellFormed ∧ f.target = "/a#b?c" ∧
      Target.query f.target = "c" ∧ (Target.components f.rest).query = [] := by
  refine ⟨⟨.origin "r?u=http://h/x".toList, trivial, ?_⟩, ⟨.origin "a#b?c".toList, trivial, ?_⟩⟩
  · decide
  · decide

end Http

end Prefork
