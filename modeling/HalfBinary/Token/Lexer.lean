import HalfBinary.Token
import HalfBinary.ClauseError
import HalfBinary.Text.Bytes
import HalfBinary.Text.Identifier

/-!
# Lexing

Characters to tokens. A scan of one token splits the text into the token's characters and the rest
without losing any (`scanToken_append`), so positions are the sizes of what has been taken.
-/

namespace HalfBinary.Token

open Text (startsIdentifier inIdentifier)

/-- A token, the characters it was read from and the characters after them. -/
structure Scan where
  token : Token
  lexeme : List Char
  rest : List Char

/-- A fault and the characters of the token before it. -/
abbrev Stop := LexFault × List Char

/-! ## Characters -/

/-- The blanks that may stand between tokens. -/
def isBlank (c : Char) : Bool := c == ' ' || c == '\t' || c == '\n' || c == '\r'

/-- The character that an escape stands for. -/
def unescape? : Char → Option Char
  | '\\' => some '\\'
  | '"' => some '"'
  | '\'' => some '\''
  | 'n' => some '\n'
  | 't' => some '\t'
  | 'r' => some '\r'
  | _ => none

/-! ## One token -/

/-- The token of a word: a keyword literal or a path. -/
def ofWord : List String → Token
  | ["true"] => literal (.boolean true)
  | ["false"] => literal (.boolean false)
  | ["null"] => literal .null
  | segments => accessor segments

/-- Reads a word after its first character. `taken` and `segment` hold the characters of the word
and of its last segment so far, last first, and `segments` the segments before it. -/
def scanWord (taken segment : List Char) (segments : List String) : List Char → Except Stop Scan
  | [] => .ok ⟨ofWord (String.ofList segment.reverse :: segments).reverse, taken.reverse, []⟩
  | c :: rest =>
    if inIdentifier c then scanWord (c :: taken) (c :: segment) segments rest
    else if c = '.' then
      match rest with
      | d :: rest' =>
        if startsIdentifier d then
          scanWord (d :: c :: taken) [d] (String.ofList segment.reverse :: segments) rest'
        else .error (.emptyPathSegment, taken.reverse)
      | [] => .error (.emptyPathSegment, taken.reverse)
    else .ok ⟨ofWord (String.ofList segment.reverse :: segments).reverse, taken.reverse, c :: rest⟩

/-- Reads a string after its opening quote. `taken` holds its characters and `value` the text they
stand for, both last first. -/
def scanText (quote : Char) (taken value : List Char) : List Char → Except Stop Scan
  | [] => .error (.unterminatedString, [])
  | c :: rest =>
    if c = quote then
      .ok ⟨literal (.text (String.ofList value.reverse)), (c :: taken).reverse, rest⟩
    else if c = '\\' then
      match rest with
      | [] => .error (.unterminatedString, [])
      | e :: rest' =>
        match unescape? e with
        | some d => scanText quote (e :: c :: taken) (d :: value) rest'
        | none => .error (.invalidEscape e, taken.reverse)
    else scanText quote (c :: taken) (c :: value) rest

def scanNumber (cs : List Char) : Except Stop Scan :=
  match Numeral.scan cs with
  | .error taken => .error (.invalidNumber (String.ofList taken), [])
  | .ok s =>
    match Literal.ofNumeral? s.numeral with
    | some value => .ok ⟨literal value, s.lexeme, s.rest⟩
    | none => .error (.invalidNumber (String.ofList s.lexeme), [])

/-- Reads a token of two characters after the first. -/
def scanPair (token : Token) (first second : Char) : List Char → Except Stop Scan
  | d :: rest =>
    if d = second then .ok ⟨token, [first, second], rest⟩
    else .error (.incompleteOperator (String.ofList [first, second]), [])
  | [] => .error (.incompleteOperator (String.ofList [first, second]), [])

/-- Reads an ordering operator after its first character. -/
def scanOrder (strict inclusive : Operator) (first : Char) : List Char → Scan
  | '=' :: rest => ⟨operator inclusive, [first, '='], rest⟩
  | rest => ⟨operator strict, [first], rest⟩

/-- Reads the token that starts with `c`. -/
def scanToken (c : Char) (rest : List Char) : Except Stop Scan :=
  if c = '(' then .ok ⟨openParen, [c], rest⟩
  else if c = ')' then .ok ⟨closeParen, [c], rest⟩
  else if c = '=' then scanPair (operator .eq) c '=' rest
  else if c = '!' then scanPair (operator .ne) c '=' rest
  else if c = '&' then scanPair (connective .and) c '&' rest
  else if c = '|' then scanPair (connective .or) c '|' rest
  else if c = '<' then .ok (scanOrder .lt .le c rest)
  else if c = '>' then .ok (scanOrder .gt .ge c rest)
  else if c = '"' ∨ c = '\'' then scanText c [c] [] rest
  else if c.isDigit ∨ (c = '-' ∧ rest.head?.any Char.isDigit) then scanNumber (c :: rest)
  else if startsIdentifier c then scanWord [c] [c] [] rest
  else .error (.unknownSymbol c, [])

/-! ## Nothing is lost -/

private theorem scanWord_append {taken segment cs : List Char} {segments : List String} {s : Scan}
    (h : scanWord taken segment segments cs = .ok s) :
    s.lexeme ++ s.rest = taken.reverse ++ cs ∧ taken.length ≤ s.lexeme.length := by
  fun_induction scanWord taken segment segments cs with
  | case1 => cases h; simp
  | case2 taken segment segments c rest _ ih =>
    have ⟨lossless, longer⟩ := ih h
    exact ⟨by simpa using lossless, Nat.le_of_succ_le longer⟩
  | case3 taken segment segments _ d rest' _ ih =>
    have ⟨lossless, longer⟩ := ih h
    exact ⟨by simpa using lossless, Nat.le_of_succ_le (Nat.le_of_succ_le longer)⟩
  | case4 => cases h
  | case5 => cases h
  | case6 => cases h; simp

private theorem scanText_append {quote : Char} {taken value cs : List Char} {s : Scan}
    (h : scanText quote taken value cs = .ok s) :
    s.lexeme ++ s.rest = taken.reverse ++ cs ∧ taken.length ≤ s.lexeme.length := by
  fun_induction scanText quote taken value cs with
  | case1 => cases h
  | case2 => cases h; simp
  | case3 => cases h
  | case4 taken value _ e rest' d _ ih =>
    have ⟨lossless, longer⟩ := ih h
    exact ⟨by simpa using lossless, Nat.le_of_succ_le (Nat.le_of_succ_le longer)⟩
  | case5 => cases h
  | case6 taken value c rest _ _ ih =>
    have ⟨lossless, longer⟩ := ih h
    exact ⟨by simpa using lossless, Nat.le_of_succ_le longer⟩

private theorem scanNumber_append {cs : List Char} {s : Scan} (h : scanNumber cs = .ok s) :
    s.lexeme ++ s.rest = cs := by
  unfold scanNumber at h
  split at h
  · cases h
  · next n hn =>
    split at h
    · cases h; exact Numeral.scan_append hn
    · cases h

private theorem scanNumber_ne_nil {c : Char} {rest : List Char} {s : Scan}
    (h : scanNumber (c :: rest) = .ok s)
    (start : c.isDigit ∨ (c = '-' ∧ rest.head?.any Char.isDigit)) : s.lexeme ≠ [] := by
  have lossless := scanNumber_append h
  intro empty
  unfold scanNumber at h
  split at h
  · cases h
  · next n hn =>
    have shorter := Numeral.scan_shorter hn (Numeral.whole_ne_nil hn start)
    split at h
    · cases h
      dsimp only at lossless empty
      rw [empty, List.nil_append] at lossless
      rw [lossless] at shorter
      exact absurd shorter (Nat.lt_irrefl _)
    · cases h

private theorem scanPair_append {token : Token} {first second : Char} {cs : List Char} {s : Scan}
    (h : scanPair token first second cs = .ok s) :
    s.lexeme ++ s.rest = first :: cs ∧ s.lexeme ≠ [] := by
  unfold scanPair at h
  split at h
  · split at h
    · next same => cases h; simp [same]
    · cases h
  · cases h

private theorem scanOrder_append (strict inclusive : Operator) (first : Char) (cs : List Char) :
    (scanOrder strict inclusive first cs).lexeme ++ (scanOrder strict inclusive first cs).rest =
      first :: cs ∧ (scanOrder strict inclusive first cs).lexeme ≠ [] := by
  unfold scanOrder; split <;> simp

/-- A token takes at least one character, and its characters and the rest are the text. -/
theorem scanToken_append {c : Char} {rest : List Char} {s : Scan} (h : scanToken c rest = .ok s) :
    s.lexeme ++ s.rest = c :: rest ∧ s.lexeme ≠ [] := by
  unfold scanToken at h
  by_cases opening : c = '('
  · rw [if_pos opening] at h; cases h; simp
  rw [if_neg opening] at h
  by_cases closing : c = ')'
  · rw [if_pos closing] at h; cases h; simp
  rw [if_neg closing] at h
  by_cases equal : c = '='
  · rw [if_pos equal] at h; exact scanPair_append h
  rw [if_neg equal] at h
  by_cases bang : c = '!'
  · rw [if_pos bang] at h; exact scanPair_append h
  rw [if_neg bang] at h
  by_cases ampersand : c = '&'
  · rw [if_pos ampersand] at h; exact scanPair_append h
  rw [if_neg ampersand] at h
  by_cases bar : c = '|'
  · rw [if_pos bar] at h; exact scanPair_append h
  rw [if_neg bar] at h
  by_cases less : c = '<'
  · rw [if_pos less] at h; cases h; exact scanOrder_append ..
  rw [if_neg less] at h
  by_cases greater : c = '>'
  · rw [if_pos greater] at h; cases h; exact scanOrder_append ..
  rw [if_neg greater] at h
  by_cases quote : c = '"' ∨ c = '\''
  · rw [if_pos quote] at h
    have ⟨lossless, taken⟩ := scanText_append h
    exact ⟨lossless, List.ne_nil_of_length_pos taken⟩
  rw [if_neg quote] at h
  by_cases number : c.isDigit ∨ (c = '-' ∧ rest.head?.any Char.isDigit)
  · rw [if_pos number] at h
    exact ⟨scanNumber_append h, scanNumber_ne_nil h number⟩
  rw [if_neg number] at h
  by_cases word : startsIdentifier c = true
  · rw [if_pos word] at h
    have ⟨lossless, taken⟩ := scanWord_append h
    exact ⟨lossless, List.ne_nil_of_length_pos taken⟩
  · rw [if_neg word] at h; cases h

private theorem length_rest_lt {c : Char} {rest : List Char} {s : Scan}
    (h : scanToken c rest = .ok s) : s.rest.length < (c :: rest).length := by
  have ⟨lossless, taken⟩ := scanToken_append h
  have := List.length_pos_iff.2 taken
  rw [← lossless, List.length_append]
  omega

/-! ## All tokens -/

/-- Reads the tokens of a text that starts at a byte position; `done` holds the tokens before it,
last first. -/
def scanAll (done : List Located) (offset : Nat) (cs : List Char) :
    Except ClauseError TokenStream :=
  match cs with
  | [] => .ok ⟨done.reverse, offset⟩
  | c :: rest =>
    if isBlank c then scanAll done (offset + c.utf8Size) rest
    else
      match _h : scanToken c rest with
      | .error (fault, before) => .error (.lex fault (offset + Text.byteLength before))
      | .ok s => scanAll (⟨s.token, offset⟩ :: done) (offset + Text.byteLength s.lexeme) s.rest
termination_by cs.length
decreasing_by
  · simp
  · exact length_rest_lt _h

/-- The tokens of a clause; a clause without any is empty. -/
def ofClause (clause : String) : Except ClauseError TokenStream := do
  let stream ← scanAll [] 0 clause.toList
  if stream.tokens.isEmpty then .error .emptyExpression else return stream

end HalfBinary.Token
