import HalfBinary.Text.Rest
import HalfBinary.Toml

/-!
# Tokens of a document

A text is read character by character. Quoted texts are decoded here: a basic text has escapes, a
literal one has none, and both may span lines between triple quotes.
-/

namespace HalfBinary.Toml

open Text (NotLonger Shorter length_dropWhile_le)

/-- A control character, apart from the tab. -/
def isControl (c : Char) : Bool := (c.val < 0x20 && c ≠ '\t') || c.val == 0x7F

def isBlank (c : Char) : Bool := c == ' ' || c == '\t'

/-- A character that continues an atom. -/
def inAtom (c : Char) : Bool := !isBlank c && !"\r\n#,=.[]\x7b\x7d\"'".toList.contains c

/-! ## Escapes -/

/-- The character with a code point in hexadecimal digits. -/
def codePoint? (ds : List Char) : Option Char := do
  let values ← ds.mapM Text.hexValue?
  let code := values.foldl (fun code value => code * 16 + value) 0
  if code.isValidChar then some (Char.ofNat code) else none

/-- How many hexadecimal digits follow a letter after a backslash. -/
def codeLength? : Char → Option Nat
  | 'x' => some 2
  | 'u' => some 4
  | 'U' => some 8
  | _ => none

/-- The character that a letter after a backslash stands for. -/
def simpleEscape? : Char → Option Char
  | 'b' => some '\x08'
  | 't' => some '\t'
  | 'n' => some '\n'
  | 'f' => some '\x0c'
  | 'r' => some '\r'
  | 'e' => some '\x1b'
  | '"' => some '"'
  | '\\' => some '\\'
  | _ => none

/-- The character of an escape after its backslash. -/
def readEscape : (cs : List Char) → Option (Char × NotLonger cs)
  | [] => none
  | c :: rest =>
    match codeLength? c with
    | some count => do
      if (rest.take count).length < count then none
      else return (← codePoint? (rest.take count), ⟨rest.drop count, by
        simp only [List.length_drop, List.length_cons]; omega⟩)
    | none => (simpleEscape? c).map (·, ⟨rest, by simp only [List.length_cons]; omega⟩)

/-! ## Quoted texts -/

/-- Reads the rest of a text on one line; `quote` ends it, and only a basic text has escapes. -/
def readLine (quote : Char) (whole done cs : List Char) (h : cs.length ≤ whole.length) :
    Except Fault (String × Shorter whole) :=
  match cs with
  | [] => .error .unterminatedText
  | c :: rest =>
    if c = quote then .ok (String.ofList done.reverse, ⟨rest, h⟩)
    else if isControl c then .error (.controlCharacter c)
    else if c = '\\' ∧ quote = '"' then
      match readEscape rest with
      | none => .error .invalidEscape
      | some (e, ⟨after, shorter⟩) =>
        readLine quote whole (e :: done) after (by simp only [List.length_cons] at h; omega)
    else readLine quote whole (c :: done) rest (Nat.le_of_succ_le h)
termination_by cs.length
decreasing_by all_goals simp only [List.length_cons]; omega

/-- The number of quotes at the front, up to five. -/
def quoteRun (quote : Char) (cs : List Char) : Nat := ((cs.take 5).takeWhile (· == quote)).length

/-- Whether a character before others ends a line; a carriage return does so only before a line
feed. -/
def atLineEnd (c : Char) (rest : List Char) : Bool :=
  c == '\n' || (c == '\r' && rest.head? == some '\n')

/-- The text after blanks and line ends. -/
def skipSpace : List Char → List Char
  | [] => []
  | c :: rest => if isBlank c ∨ atLineEnd c rest then skipSpace rest else c :: rest

theorem length_skipSpace_le (cs : List Char) : (skipSpace cs).length ≤ cs.length := by
  induction cs with
  | nil => exact Nat.le_refl _
  | cons c rest ih =>
    rw [skipSpace]
    split
    · exact Nat.le_succ_of_le ih
    · exact Nat.le_refl _

/-- The text after a backslash at the end of a line: the blanks and line ends that follow do not
count. None if the backslash is not at the end of a line. -/
def continueLine? (cs : List Char) : Option (List Char) :=
  match cs.dropWhile isBlank with
  | c :: rest => if atLineEnd c rest then some (skipSpace rest) else none
  | [] => none

private theorem length_continueLine {cs rest : List Char} (h : continueLine? cs = some rest) :
    rest.length < cs.length := by
  have blanks := length_dropWhile_le isBlank cs
  unfold continueLine? at h
  split at h
  · next c r e =>
    split at h
    · cases h
      have := length_skipSpace_le r
      rw [e, List.length_cons] at blanks
      omega
    · cases h
  · cases h

/-- Reads the rest of a text that may span lines and that three quotes end. Up to two more quotes
before them belong to the text, and line ends are kept as they are written. -/
def readLines (quote : Char) (whole done cs : List Char) (h : cs.length ≤ whole.length) :
    Except Fault (String × Shorter whole) :=
  match cs with
  | [] => .error .unterminatedText
  | c :: rest =>
    if atLineEnd c rest then readLines quote whole (c :: done) rest (Nat.le_of_succ_le h)
    else if c = quote then
      if 3 ≤ quoteRun quote (c :: rest) then
        let inner := List.replicate (quoteRun quote (c :: rest) - 3) quote
        .ok (String.ofList (done.reverse ++ inner),
          ⟨rest.drop (quoteRun quote (c :: rest) - 1), by
            simp only [List.length_cons, List.length_drop] at h ⊢; omega⟩)
      else readLines quote whole (c :: done) rest (Nat.le_of_succ_le h)
    else if isControl c then .error (.controlCharacter c)
    else if c = '\\' ∧ quote = '"' then
      match hr : continueLine? rest with
      | some after =>
        readLines quote whole done after
          (by have := length_continueLine hr; simp only [List.length_cons] at h; omega)
      | none =>
        match readEscape rest with
        | none => .error .invalidEscape
        | some (e, ⟨after, shorter⟩) =>
          readLines quote whole (e :: done) after (by simp only [List.length_cons] at h; omega)
    else readLines quote whole (c :: done) rest (Nat.le_of_succ_le h)
termination_by cs.length
decreasing_by
  all_goals simp only [List.length_cons]
  all_goals try omega
  have := length_continueLine hr
  omega

/-- A quoted text as a token. -/
private def quoted {whole : List Char} (multiline : Bool)
    (read : Except Fault (String × Shorter whole)) : Except Fault (Token × Shorter whole) :=
  read.map fun (value, rest) => (.text value multiline, rest)

/-- The text after a line end, if it starts with one. -/
def dropLineEnd : List Char → List Char
  | '\n' :: rest => rest
  | '\r' :: '\n' :: rest => rest
  | cs => cs

theorem length_dropLineEnd_le (cs : List Char) : (dropLineEnd cs).length ≤ cs.length := by
  unfold dropLineEnd
  split
  · exact Nat.le_succ _
  · exact Nat.le_add_right _ 2
  · exact Nat.le_refl _

/-- Reads the rest of a quoted text after its first quote. A line end right after three quotes does
not belong to the text. -/
def readQuoted (quote : Char) (cs : List Char) : Except Fault (Token × Shorter (quote :: cs)) :=
  match cs with
  | c :: d :: rest =>
    if c = quote ∧ d = quote then
      quoted true (readLines quote _ [] (dropLineEnd rest) (by
        have := length_dropLineEnd_le rest
        simp only [List.length_cons]; omega))
    else quoted false (readLine quote _ [] (c :: d :: rest) (Nat.le_succ _))
  | cs => quoted false (readLine quote _ [] cs (Nat.le_succ _))

/-! ## Documents -/

def single? : Char → Option Token
  | '[' => some .openBracket
  | ']' => some .closeBracket
  | '\x7b' => some .openBrace
  | '\x7d' => some .closeBrace
  | ',' => some .comma
  | '=' => some .equals
  | '.' => some .dot
  | '\n' => some .newline
  | _ => none

/-- The rest after a comment, whose characters are no control characters. -/
def skipComment (cs : List Char) : Except Fault (List Char) :=
  match cs.dropWhile fun c => !isControl c with
  | [] => .ok []
  | '\n' :: rest => .ok ('\n' :: rest)
  | '\r' :: '\n' :: rest => .ok ('\n' :: rest)
  | c :: _ => .error (.controlCharacter c)

private theorem length_skipComment_le {cs rest : List Char} (h : skipComment cs = .ok rest) :
    rest.length ≤ cs.length := by
  unfold skipComment at h
  have := length_dropWhile_le (fun c => !isControl c) cs
  split at h
  · cases h; simp
  · next e => cases h; rwa [e] at this
  · next e => cases h; rw [e] at this; simp at this ⊢; omega
  · cases h

/-- Reads the tokens of a text; `done` holds those before it, last first. -/
def tokensFrom (done : List Token) (cs : List Char) : Except Fault (List Token) :=
  match cs with
  | [] => .ok done.reverse
  | '\r' :: '\n' :: rest => tokensFrom (.newline :: done) rest
  | c :: rest =>
    match single? c with
    | some token => tokensFrom (token :: done) rest
    | none =>
      if isBlank c then
        tokensFrom (.blank (c :: rest.takeWhile isBlank) :: done) (rest.dropWhile isBlank)
      else if c = '#' then
        match _hc : skipComment rest with
        | .error fault => .error fault
        | .ok after => tokensFrom done after
      else if c = '"' ∨ c = '\'' then
        match readQuoted c rest with
        | .error fault => .error fault
        | .ok (token, ⟨after, _shorter⟩) => tokensFrom (token :: done) after
      else
        tokensFrom (.atom (c :: rest.takeWhile inAtom) :: done) (rest.dropWhile inAtom)
termination_by cs.length
decreasing_by
  · simp only [List.length_cons]; omega
  · exact Nat.lt_succ_self _
  · have := length_dropWhile_le isBlank rest
    simp only [List.length_cons]; omega
  · have := length_skipComment_le _hc
    simp only [List.length_cons]; omega
  · simpa using _shorter
  · have := length_dropWhile_le inAtom rest
    simp only [List.length_cons]; omega

/-- The tokens of a document; a byte order mark at its start does not count. -/
def tokens (document : String) : Except Fault (List Token) :=
  match document.toList with
  | '\ufeff' :: cs => tokensFrom [] cs
  | cs => tokensFrom [] cs

end HalfBinary.Toml
