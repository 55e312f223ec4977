/-
  What the text of a token looks like.

  The forms of names, numbers, strings and of characters that begin no token are stated
  here without the functions that cut them off.  A string is read as characters of which
  each is escaped or not; no other notion of an escape is needed to say where a string
  ends.  There are three ways in which a lexeme comes about: as an operator or a mark with
  one spelling, as a number that starts with a point, and as what starts with none of
  these.  That is settled once, and every form follows from it.
-/
import Verbatim.Proofs.Lookahead

set_option autoImplicit false

namespace Verbatim

open Text

/-! ## Forms -/

/-- A name: a character that starts names, and characters that go on with them. -/
def IsName (t : Text) : Prop :=
  ∃ first rest, t = first :: rest ∧ isNameStart first = true ∧ ∀ c ∈ rest, isNamePart c = true

/-- An exponent, or nothing. -/
inductive IsExponent : Text → Prop where
  | none : IsExponent []
  | plain {e : Char} {digits : Text} :
      e = 'e' ∨ e = 'E' → (∀ c ∈ digits, isDigitPart c = true) → IsExponent (e :: digits)
  | signed {e sign : Char} {digits : Text} :
      e = 'e' ∨ e = 'E' → sign = '+' ∨ sign = '-' → (∀ c ∈ digits, isDigitPart c = true) →
        IsExponent (e :: sign :: digits)

/-- A fraction, or nothing. -/
inductive IsFraction : Text → Prop where
  | none : IsFraction []
  | point {digits : Text} : (∀ c ∈ digits, isDigitPart c = true) → IsFraction ('.' :: digits)

/-- The four forms of a number. -/
inductive IsNumber : Text → Prop where
  | hexadecimal {x : Char} {digits : Text} :
      x = 'x' ∨ x = 'X' → (∀ c ∈ digits, isHexPart c = true) → IsNumber ('0' :: x :: digits)
  | radix {r : Char} {digits : Text} :
      r ∈ ['b', 'B', 'o', 'O'] → (∀ c ∈ digits, isDigitPart c = true) →
        IsNumber ('0' :: r :: digits)
  | decimal {first : Char} {digits fraction exponent : Text} :
      first.isDigit = true → (∀ c ∈ digits, isDigitPart c = true) → IsFraction fraction →
        IsExponent exponent → IsNumber (first :: (digits ++ (fraction ++ exponent)))
  | point {first : Char} {digits exponent : Text} :
      first.isDigit = true → (∀ c ∈ digits, isDigitPart c = true) → IsExponent exponent →
        IsNumber ('.' :: first :: (digits ++ exponent))

/-- The characters of a text, each with whether a backslash escapes it.  A carriage return
is escaped together with the line feed behind it. -/
def escapes : Text → List (Char × Bool)
  | [] => []
  | '\\' :: '\r' :: '\n' :: rest => ('\\', false) :: ('\r', true) :: ('\n', true) :: escapes rest
  | '\\' :: c :: rest => ('\\', false) :: (c, true) :: escapes rest
  | c :: rest => (c, false) :: escapes rest

/-- The text ends with the quote that it starts with, and that one is not escaped. -/
def isClosed : Text → Bool
  | [] => false
  | quote :: body => (escapes body).getLast? == some (quote, false)

/-- The text ends, or a line ends. -/
def AtLineEnd (t : Text) : Prop :=
  t = [] ∨ ∃ c rest, t = c :: rest ∧ isLineBreak c = true

/-- A string literal in front of some text.  Behind the quote no line break stands without
an escape, and the same quote only as the last character.  A string that is not closed goes
on to the end of its line.  No escape goes on behind the string. -/
structure IsString (text after : Text) (quote : Char) (body : Text) : Prop where
  text_eq : text = quote :: body
  quote_eq : quote = '"' ∨ quote = '\''
  oneLine : ∀ c, (c, false) ∈ escapes body → isLineBreak c = false
  noQuote : (quote, false) ∉ (escapes body).dropLast
  open_atLineEnd : isClosed text = false → AtLineEnd after
  escapes_append : escapes (body ++ after) = escapes body ++ escapes after

/-- A character in front of some text that begins no other token there, and no trivia. -/
structure BeginsNothing (c : Char) (after : Text) : Prop where
  not_blank : isBlank c = false
  not_nameStart : isNameStart c = false
  not_digit : c.isDigit = false
  not_quote : c ≠ '"' ∧ c ≠ '\''
  not_fixed : ∀ (k : Kind) (spelling : Text), k.fixedText = some spelling →
    ¬ spelling <+: c :: after

/-- The text of a token, in front of some text, fits the kind of the token. -/
structure LexicalForm (kind : Kind) (text after : Text) : Prop where
  fixed : ∀ spelling, kind.fixedText = some spelling → text = spelling
  name : kind = .identifier →
    IsName text ∧ ∀ k : Kind, k.isKeyword = true → k.fixedText ≠ some text
  word_ends : kind = .identifier ∨ kind.isKeyword = true →
    ∀ c ∈ after.head?, isNamePart c = false
  number : kind = .numericLiteral → IsNumber text
  string : kind = .stringLiteral → ∃ quote body, IsString text after quote body
  unknown : kind = .unknown → ∃ c, text = [c] ∧ BeginsNothing c after
  eof : kind = .eof → text = [] ∧ after = []

namespace Scan

/-! ## Numbers -/

theorem of_mem_span {p : Char → Bool} {t : Text} : ∀ c ∈ (Cut.span p t).front, p c = true :=
  fun c hc => List.all_eq_true.mp List.all_takeWhile c hc

/-- Behind the longest front a character comes that does not belong to it. -/
theorem head?_span_back {p : Char → Bool} {t : Text} :
    ∀ c ∈ (Cut.span p t).back.head?, p c = false := by
  intro c hc
  have hnot := List.head?_dropWhile_not p t
  simp only [Cut.span] at hc
  rw [hc] at hnot
  simpa using hnot

theorem isExponent_exponentCut (t : Text) : IsExponent (exponentCut t).front := by
  fun_cases exponentCut t with
  | case1 => exact .signed (.inl rfl) (.inr rfl) of_mem_span
  | case2 => exact .signed (.inl rfl) (.inl rfl) of_mem_span
  | case3 => exact .plain (.inl rfl) of_mem_span
  | case4 => exact .signed (.inr rfl) (.inr rfl) of_mem_span
  | case5 => exact .signed (.inr rfl) (.inl rfl) of_mem_span
  | case6 => exact .plain (.inr rfl) of_mem_span
  | case7 => exact .none

theorem isFraction_fractionCut (t : Text) : IsFraction (fractionCut t).front := by
  fun_cases fractionCut t with
  | case1 => exact .none
  | case2 => exact .point of_mem_span
  | case3 => exact .none

/-- A number in decimal notation that starts with a digit. -/
theorem isNumber_decimalCut {first : Char} (h : first.isDigit = true) (t : Text) :
    IsNumber (first :: (decimalCut first t).front) := by
  have hpoint : first ≠ '.' := by
    rintro rfl
    exact absurd h (by decide)
  rw [decimalCut, if_neg hpoint]
  simp only [Cut.andThen, Cut.after, List.append_assoc]
  exact .decimal h of_mem_span (isFraction_fractionCut _) (isExponent_exponentCut _)

/-- A number that starts with a digit. -/
theorem isNumber_numberCut {first : Char} (h : first.isDigit = true) (t : Text) :
    IsNumber (first :: (numberCut first t).front) := by
  fun_cases numberCut first t with
  | case1 hzero => exact hzero ▸ .hexadecimal (.inl rfl) of_mem_span
  | case2 hzero => exact hzero ▸ .hexadecimal (.inr rfl) of_mem_span
  | case3 hzero | case4 hzero | case5 hzero | case6 hzero =>
      exact hzero ▸ .radix (by decide) of_mem_span
  | case7 | case8 => exact isNumber_decimalCut h t

/-- A number that starts with a point and a digit. -/
theorem isNumber_pointCut {d : Char} (h : d.isDigit = true) (tail : Text) :
    IsNumber ('.' :: (numberCut '.' (d :: tail)).front) := by
  have hpart : isDigitPart d = true := by simp [isDigitPart, h]
  have hspan : digitsCut (d :: tail) = (digitsCut tail).after [d] := by
    simp [digitsCut, Cut.span, Cut.after, hpart]
  have hcut : numberCut '.' (d :: tail) = (digitsCut (d :: tail)).andThen exponentCut := by
    unfold numberCut
    rw [if_neg (by decide)]
    rfl
  rw [hcut, hspan]
  exact .point h of_mem_span (isExponent_exponentCut _)

/-! ## Strings -/

theorem escapes_cons {c : Char} {t : Text} (h : c = '\\' → t = []) :
    escapes (c :: t) = (c, false) :: escapes t := by
  rw [escapes]
  · rintro rest hc rfl
    cases h hc
  · rintro d rest hc rfl
    cases h hc

theorem escapes_escape {c : Char} {t : Text} (h : c = '\r' → t.head? ≠ some '\n') :
    escapes ('\\' :: c :: t) = ('\\', false) :: (c, true) :: escapes t := by
  rw [escapes]
  rintro rest rfl rfl
  exact h rfl rfl

/-- What a string literal takes off: it has no line break without an escape, and the quote
without an escape as its last character if it is closed and nowhere else.  If it is not
closed, its line ends there. -/
structure StringParts (quote : Char) (t : Text) (cut : Cut) (closed : Bool) : Prop where
  oneLine : ∀ c, (c, false) ∈ escapes cut.front → isLineBreak c = false
  of_closed : closed = true →
    ∃ inner, escapes cut.front = inner ++ [(quote, false)] ∧ (quote, false) ∉ inner
  of_open : closed = false → (quote, false) ∉ escapes cut.front ∧ AtLineEnd cut.back
  escapes_eq : escapes t = escapes cut.front ++ escapes cut.back

/-- Characters that go in front of a string, none of them an unescaped quote or line break. -/
theorem StringParts.after {quote : Char} {t : Text} {cut : Cut} {closed : Bool}
    (h : StringParts quote t cut closed) (front : Text) (marks : List (Char × Bool))
    (hmarks : ∀ c, (c, false) ∈ marks → isLineBreak c = false ∧ c ≠ quote)
    (hfront : escapes (front ++ cut.front) = marks ++ escapes cut.front)
    (hwhole : escapes (front ++ t) = marks ++ escapes t) :
    StringParts quote (front ++ t) (cut.after front) closed := by
  have hquote : (quote, false) ∉ marks := fun hmem => (hmarks quote hmem).2 rfl
  constructor
  case oneLine =>
    intro c hc
    rw [Cut.after, hfront, List.mem_append] at hc
    exact hc.elim (fun hc => (hmarks c hc).1) (h.oneLine c)
  case of_closed =>
    intro hclosed
    obtain ⟨inner, hinner, hnone⟩ := h.of_closed hclosed
    refine ⟨marks ++ inner, ?_, ?_⟩
    · rw [Cut.after, hfront, hinner, List.append_assoc]
    · rw [List.mem_append]
      exact fun hmem => hmem.elim hquote hnone
  case of_open =>
    intro hopen
    obtain ⟨hnone, hback⟩ := h.of_open hopen
    refine ⟨?_, hback⟩
    rw [Cut.after, hfront, List.mem_append]
    exact fun hmem => hmem.elim hquote hnone
  case escapes_eq => rw [hwhole, h.escapes_eq, Cut.after, hfront, List.append_assoc]

/-- What is taken off a text starts like the text. -/
theorem head?_front {cut : Cut} {t : Text} (h : cut.whole = t) {c : Char}
    (hfront : cut.front.head? = some c) : t.head? = some c := by
  rw [← h, Cut.whole, List.head?_append, hfront]
  rfl

theorem front_eq_nil {cut : Cut} {t : Text} (h : cut.whole = t) (ht : t = []) : cut.front = [] := by
  rw [ht] at h
  exact (List.append_eq_nil_iff.mp h).1

/-- At the end of a line nothing is taken off. -/
theorem stringParts_none (quote : Char) {t : Text} (h : AtLineEnd t) :
    StringParts quote t (.none t) false :=
  ⟨nofun, nofun, fun _ => ⟨List.not_mem_nil, h⟩, rfl⟩

theorem stringParts_stringCut {quote : Char} (hquote : quote ≠ '\\') (t : Text) :
    StringParts quote t (stringCut quote t).1 (stringCut quote t).2 := by
  have hbackslash : isLineBreak '\\' = false ∧ '\\' ≠ quote := ⟨by decide, Ne.symm hquote⟩
  have hwhole := whole_stringCut quote
  fun_induction stringCut quote t with
  | case1 => exact stringParts_none quote (.inl rfl)
  | case2 tail cut closed hcut ih =>
      rw [hcut] at ih
      refine ih.after ['\\', '\r', '\n'] [('\\', false), ('\r', true), ('\n', true)] ?_ rfl rfl
      simpa using hbackslash
  | case3 c tail hbreak cut closed hcut ih =>
      have hrest := hwhole tail
      rw [hcut] at ih hrest
      have hhead : c = '\r' → tail.head? ≠ some '\n' := by
        intro hc hhead
        obtain ⟨rest, rfl⟩ := List.head?_eq_some_iff.mp hhead
        exact hbreak rest hc rfl
      refine ih.after ['\\', c] [('\\', false), (c, true)] ?_
        (escapes_escape fun hc hfront => hhead hc (head?_front hrest hfront))
        (escapes_escape hhead)
      simpa using hbackslash
  | case4 c tail _ _ hbreak => exact stringParts_none quote (.inr ⟨c, tail, rfl, hbreak⟩)
  | case5 tail _ _ hbreak =>
      have hone : escapes [quote] = [(quote, false)] := escapes_cons fun hc => absurd hc hquote
      refine ⟨?_, fun _ => ⟨[], hone, List.not_mem_nil⟩, fun hopen => Bool.noConfusion hopen, ?_⟩
      · intro c hc
        rw [hone, List.mem_singleton, Prod.mk.injEq] at hc
        rw [hc.1]
        simpa using hbreak
      · rw [hone]
        exact escapes_cons fun hc => absurd hc hquote
  | case6 c tail _ hescape hbreak hne cut closed hcut ih =>
      have hrest := hwhole tail
      rw [hcut] at ih hrest
      have hlast : c = '\\' → tail = [] := by
        intro hc
        cases tail with
        | nil => rfl
        | cons d tail => exact (hescape d tail hc rfl).elim
      refine ih.after [c] [(c, false)] ?_
        (escapes_cons fun hc => front_eq_nil hrest (hlast hc)) (escapes_cons hlast)
      intro d hd
      rw [List.mem_singleton, Prod.mk.injEq] at hd
      rw [hd.1]
      exact ⟨by simpa using hbreak, hne⟩

/-- A string literal has the form of one, and its closing quote is told right. -/
theorem isString_stringCut {quote : Char} (h : quote = '"' ∨ quote = '\'') (t : Text) :
    IsString (quote :: (stringCut quote t).1.front) (stringCut quote t).1.back quote
        (stringCut quote t).1.front ∧
      isClosed (quote :: (stringCut quote t).1.front) = (stringCut quote t).2 := by
  have hquote : quote ≠ '\\' := by
    rcases h with rfl | rfl <;> decide
  have hparts := stringParts_stringCut hquote t
  have hwhole := whole_stringCut quote t
  generalize stringCut quote t = found at *
  obtain ⟨cut, closed⟩ := found
  have hclosed : isClosed (quote :: cut.front) = closed := by
    cases closed with
    | true =>
        obtain ⟨inner, hinner, _⟩ := hparts.of_closed rfl
        simp [isClosed, hinner]
    | false =>
        obtain ⟨hnone, _⟩ := hparts.of_open rfl
        have hlast : (escapes cut.front).getLast? ≠ some (quote, false) :=
          fun hlast => hnone (List.mem_of_getLast? hlast)
        simpa [isClosed] using hlast
  refine ⟨⟨rfl, h, hparts.oneLine, ?_, ?_, ?_⟩, hclosed⟩
  · cases closed with
    | true =>
        obtain ⟨inner, hinner, hnone⟩ := hparts.of_closed rfl
        rwa [hinner, List.dropLast_concat]
    | false => exact fun hmem => (hparts.of_open rfl).1 ((List.dropLast_sublist _).subset hmem)
  · intro hopen
    exact (hparts.of_open (hclosed.symm.trans hopen)).2
  · rw [← hparts.escapes_eq, ← hwhole]
    rfl

/-! ## The three ways to a lexeme -/

/-- The characters of which each, whatever follows it, begins a token of fixed spelling
or a number. -/
def markStarts : Text :=
  ['\x7b', '\x7d', '(', ')', '[', ']', ';', ',', ':', '?', '.', '=', '!', '<', '>', '+', '-', '*',
    '/', '%']

/-- A lexeme is an operator or a mark with one spelling, or a number that starts with a
point, or it starts with none of their characters. -/
theorem lexeme_cases (c : Char) (t : Text) :
    ((lexeme c t).kind.fixedText = some (c :: (lexeme c t).cut.front) ∧
        (lexeme c t).kind.isKeyword = false ∧ (lexeme c t).complete = true) ∨
      (c = '.' ∧ (∃ d tail, t = d :: tail ∧ d.isDigit = true) ∧
        lexeme c t = ⟨.numericLiteral, numberCut '.' t, true⟩) ∨
      (lexeme c t = otherLexeme c t ∧ c ∉ markStarts ∧
        (c = '&' → t.head? ≠ some '&') ∧ (c = '|' → t.head? ≠ some '|')) := by
  fun_cases lexeme c t
  case case11 d tail hdigit => exact .inr (.inl ⟨rfl, ⟨d, tail, rfl, hdigit⟩, rfl⟩)
  case case31 =>
    rename_i hcons hnil _ _ _ _ _ _ hand hbar
    have hpoint : c = '.' → False := by
      intro hc
      cases t with
      | nil => exact hnil hc rfl
      | cons d tail => exact hcons d tail hc rfl
    refine .inr (.inr ⟨rfl, ?_, ?_, ?_⟩)
    · simp only [markStarts, List.mem_cons, List.not_mem_nil, or_false, not_or]
      and_intros <;> assumption
    · intro hc hhead
      obtain ⟨rest, rfl⟩ := List.head?_eq_some_iff.mp hhead
      exact hand rest hc rfl
    · intro hc hhead
      obtain ⟨rest, rfl⟩ := List.head?_eq_some_iff.mp hhead
      exact hbar rest hc rfl
  all_goals exact .inl ⟨rfl, rfl, rfl⟩

/-- What a fixed spelling starts with. -/
theorem exists_first_of_fixedText {k : Kind} {spelling : Text} (h : k.fixedText = some spelling) :
    ∃ c rest, spelling = c :: rest ∧
      (c ∈ markStarts ∨ (c = '&' ∧ rest = ['&']) ∨ (c = '|' ∧ rest = ['|']) ∨
        isNameStart c = true) := by
  cases k
  all_goals
    first
    | exact ⟨_, _, (Option.some.inj h).symm, by decide⟩
    | cases h

theorem mem_keywords_of_isKeyword {k : Kind} (h : k.isKeyword = true) : k ∈ Kind.keywords := by
  revert h
  cases k <;> decide

/-! ## The form of each lexeme -/

theorem beginsNothing {c : Char} {t : Text} (htrivia : trivia? (c :: t) = none)
    (hquote : ¬(c = '"' ∨ c = '\'')) (hdigit : ¬c.isDigit = true) (hname : ¬isNameStart c = true)
    (hmark : c ∉ markStarts) (hand : c = '&' → t.head? ≠ some '&')
    (hbar : c = '|' → t.head? ≠ some '|') : BeginsNothing c t where
  not_blank := (trivia?_cons_eq_none_iff.mp htrivia).1
  not_nameStart := by simpa using hname
  not_digit := by simpa using hdigit
  not_quote := not_or.mp hquote
  not_fixed := by
    intro k spelling hspelling hprefix
    obtain ⟨d, rest, rfl, hfirst⟩ := exists_first_of_fixedText hspelling
    obtain ⟨rfl, hrest⟩ := List.cons_prefix_cons.mp hprefix
    rcases hfirst with hfirst | ⟨hd, rfl⟩ | ⟨hd, rfl⟩ | hfirst
    · exact hmark hfirst
    · obtain ⟨tail, rfl⟩ := hrest
      exact hand hd rfl
    · obtain ⟨tail, rfl⟩ := hrest
      exact hbar hd rfl
    · exact hname hfirst

/-- Text with the one spelling of its kind, which is no keyword. -/
theorem lexicalForm_of_fixed {kind : Kind} {text after : Text} (h : kind.fixedText = some text)
    (hkeyword : kind.isKeyword = false) : LexicalForm kind text after := by
  have hvaries {k : Kind} (hk : k.fixedText = none) : kind ≠ k := by
    rintro rfl
    rw [hk] at h
    cases h
  constructor
  case fixed =>
    intro spelling hspelling
    exact Option.some.inj (h.symm.trans hspelling)
  case name => exact fun hkind => absurd hkind (hvaries rfl)
  case word_ends =>
    rintro (hkind | hkind)
    · exact absurd hkind (hvaries rfl)
    · rw [hkeyword] at hkind
      cases hkind
  case number => exact fun hkind => absurd hkind (hvaries rfl)
  case string => exact fun hkind => absurd hkind (hvaries rfl)
  case unknown => exact fun hkind => absurd hkind (hvaries rfl)
  case eof => exact fun hkind => absurd hkind (hvaries rfl)

theorem lexicalForm_of_number {text after : Text} (h : IsNumber text) :
    LexicalForm .numericLiteral text after :=
  ⟨nofun, nofun, fun hkind => hkind.elim nofun nofun, fun _ => h, nofun,
    nofun, nofun⟩

theorem lexicalForm_of_string {text after : Text}
    (h : ∃ quote body, IsString text after quote body) :
    LexicalForm .stringLiteral text after :=
  ⟨nofun, nofun, fun hkind => hkind.elim nofun nofun, nofun, fun _ => h,
    nofun, nofun⟩

theorem lexicalForm_of_name {text after : Text} (h : IsName text)
    (hnone : ∀ k : Kind, k.isKeyword = true → k.fixedText ≠ some text)
    (hends : ∀ c ∈ after.head?, isNamePart c = false) : LexicalForm .identifier text after :=
  ⟨nofun, fun _ => ⟨h, hnone⟩, fun _ => hends, nofun, nofun, nofun, nofun⟩

theorem lexicalForm_of_unknown {c : Char} {after : Text} (h : BeginsNothing c after) :
    LexicalForm .unknown [c] after :=
  ⟨nofun, nofun, fun hkind => hkind.elim nofun nofun, nofun, nofun,
    fun _ => ⟨c, rfl, h⟩, nofun⟩

theorem wordLexeme_kind (c : Char) (t : Text) :
    (wordLexeme c t).kind = .identifier ∨ (wordLexeme c t).kind.isKeyword = true := by
  simp only [wordLexeme]
  cases hword : Kind.ofKeyword? (c :: (Cut.span isNamePart t).front) with
  | none => exact .inl rfl
  | some k => exact .inr (Kind.isKeyword_of_ofKeyword? hword)

/-- A word is a keyword with its spelling, or a name that no keyword has as its spelling. -/
theorem lexicalForm_wordLexeme {c : Char} (h : isNameStart c = true) (t : Text) :
    LexicalForm (wordLexeme c t).kind (c :: (wordLexeme c t).cut.front)
      (wordLexeme c t).cut.back := by
  have hends : ∀ d ∈ (Cut.span isNamePart t).back.head?, isNamePart d = false := head?_span_back
  simp only [wordLexeme]
  cases hword : Kind.ofKeyword? (c :: (Cut.span isNamePart t).front) with
  | none =>
      have hnone : ∀ k : Kind, k.isKeyword = true →
          k.fixedText ≠ some (c :: (Cut.span isNamePart t).front) := by
        intro k hk hfixed
        have hnot := List.find?_eq_none.mp hword k (mem_keywords_of_isKeyword hk)
        rw [hfixed, beq_self_eq_true] at hnot
        exact hnot rfl
      exact lexicalForm_of_name ⟨c, _, rfl, h, of_mem_span⟩ hnone hends
  | some k =>
      have hfixed : k.fixedText = some (c :: (Cut.span isNamePart t).front) := by
        simpa using List.find?_some hword
      have hkeyword := Kind.isKeyword_of_ofKeyword? hword
      have hother {k' : Kind} (hk : k'.isKeyword = false) : k ≠ k' := by
        rintro rfl
        rw [hk] at hkeyword
        cases hkeyword
      exact ⟨fun spelling hspelling => Option.some.inj (hfixed.symm.trans hspelling),
        fun hkind => absurd hkind (hother rfl), fun _ => hends,
        fun hkind => absurd hkind (hother rfl), fun hkind => absurd hkind (hother rfl),
        fun hkind => absurd hkind (hother rfl), fun hkind => absurd hkind (hother rfl)⟩

/-- Where no trivia starts, a lexeme fits its kind, and it is whole unless it is a string
that is not closed. -/
theorem lexicalForm_lexeme {c : Char} {t : Text} (htrivia : trivia? (c :: t) = none) :
    LexicalForm (lexeme c t).kind (c :: (lexeme c t).cut.front) (lexeme c t).cut.back ∧
      ((lexeme c t).complete = false ↔
        (lexeme c t).kind = .stringLiteral ∧ isClosed (c :: (lexeme c t).cut.front) = false) := by
  rcases lexeme_cases c t with ⟨hfixed, hkeyword, hcomplete⟩ |
    ⟨rfl, ⟨d, tail, rfl, hdigit⟩, hpoint⟩ |
    ⟨hother, hmark, hand, hbar⟩
  · refine ⟨lexicalForm_of_fixed hfixed hkeyword, ?_⟩
    rw [hcomplete]
    refine ⟨nofun, fun h => ?_⟩
    rw [h.1] at hfixed
    cases hfixed
  · rw [hpoint]
    exact ⟨lexicalForm_of_number (isNumber_pointCut hdigit tail), nofun, nofun⟩
  · rw [hother]
    unfold otherLexeme
    split
    · rename_i hquote
      obtain ⟨hstring, hclosed⟩ := isString_stringCut hquote t
      generalize stringCut c t = found at *
      obtain ⟨cut, closed⟩ := found
      refine ⟨lexicalForm_of_string ⟨c, _, hstring⟩, ?_⟩
      rw [hclosed]
      exact ⟨fun h => ⟨rfl, h⟩, And.right⟩
    · rename_i hquote
      split
      · rename_i hdigit
        exact ⟨lexicalForm_of_number (isNumber_numberCut hdigit t), nofun, nofun⟩
      · rename_i hdigit
        split
        · rename_i hname
          refine ⟨lexicalForm_wordLexeme hname t, nofun, fun h => ?_⟩
          have hkind := wordLexeme_kind c t
          rw [h.1] at hkind
          exact hkind.elim nofun nofun
        · rename_i hname
          have hnothing := beginsNothing htrivia hquote hdigit hname hmark hand hbar
          exact ⟨lexicalForm_of_unknown hnothing, nofun, nofun⟩

end Scan

end Verbatim
