import HalfBinary.Json
import HalfBinary.Named
import HalfBinary.Text.Digits
import HalfBinary.Text.Rest

/-!
# Reading JSON

One value with blanks around it. Nesting is bounded, a number must not overflow a double, an
escaped surrogate must be one of a pair, and of two fields with one name the later one counts.
-/

namespace HalfBinary.Json

/-- Why a text is not a JSON value. -/
inductive ReadFault where
  | unexpectedEnd
  | unexpected (c : Char)
  | controlCharacter (c : Char)
  | invalidEscape
  | loneSurrogate
  | invalidNumber
  | numberOutOfRange
  | tooDeep
  | trailing (c : Char)
  deriving DecidableEq, Repr

def ReadFault.message : ReadFault → String
  | unexpectedEnd => "unexpected end of text"
  | unexpected c => s!"unexpected character `{c}`"
  | controlCharacter c => s!"control character {c.toNat} in a string"
  | invalidEscape => "invalid escape"
  | loneSurrogate => "lone surrogate in an escape"
  | invalidNumber => "invalid number"
  | numberOutOfRange => "number out of range"
  | tooDeep => "nesting too deep"
  | trailing c => s!"unexpected `{c}` after the value"

/-- Arrays and objects may be nested to this depth. -/
def maxDepth : Nat := 127

def isBlank (c : Char) : Bool := c == ' ' || c == '\n' || c == '\t' || c == '\r'

/-- The text after its leading blanks. -/
def skipBlanks (cs : List Char) : List Char := cs.dropWhile isBlank

theorem length_skipBlanks_le (cs : List Char) : (skipBlanks cs).length ≤ cs.length :=
  (List.dropWhile_sublist _).length_le

private theorem length_of_skipBlanks {cs rest : List Char} {c : Char}
    (h : skipBlanks cs = c :: rest) : rest.length < cs.length := by
  have := length_skipBlanks_le cs
  rw [h] at this
  exact this

/-! ## Strings -/

def hexUnit? (a b c d : Char) : Option Nat := do
  let values ← [a, b, c, d].mapM Text.hexValue?
  return values.foldl (fun unit value => unit * 16 + value) 0

/-- The character after a backslash that stands for one character by itself. -/
def simpleEscape? : Char → Option Char
  | '"' => some '"'
  | '\\' => some '\\'
  | '/' => some '/'
  | 'b' => some '\x08'
  | 'f' => some '\x0c'
  | 'n' => some '\n'
  | 'r' => some '\r'
  | 't' => some '\t'
  | _ => none

/-- The character of a surrogate pair. -/
def pairedChar (high low : Nat) : Char :=
  Char.ofNat (0x10000 + (high - 0xD800) * 0x400 + (low - 0xDC00))

/-- Reads a string after its opening quote; `done` holds the characters read so far, last first, and
`whole` the text to which the rest is compared. -/
def readText (whole : List Char) (done : List Char) :
    (cs : List Char) → cs.length ≤ whole.length → Except ReadFault (String × Text.Shorter whole)
  | [], _ => .error .unexpectedEnd
  | '"' :: rest, h => .ok (String.ofList done.reverse, ⟨rest, h⟩)
  | '\\' :: 'u' :: a :: b :: c :: d :: rest, h =>
    match hexUnit? a b c d with
    | none => .error .invalidEscape
    | some unit =>
      if 0xD800 ≤ unit ∧ unit < 0xDC00 then
        match rest, h with
        | '\\' :: 'u' :: a :: b :: c :: d :: rest, h =>
          match hexUnit? a b c d with
          | none => .error .invalidEscape
          | some low =>
            if 0xDC00 ≤ low ∧ low < 0xE000 then
              readText whole (pairedChar unit low :: done) rest (by simp at h; omega)
            else .error .loneSurrogate
        | _, _ => .error .loneSurrogate
      else if 0xDC00 ≤ unit ∧ unit < 0xE000 then .error .loneSurrogate
      else readText whole (Char.ofNat unit :: done) rest (by simp at h; omega)
  | '\\' :: c :: rest, h =>
    match simpleEscape? c with
    | none => .error .invalidEscape
    | some e => readText whole (e :: done) rest (by simp at h; omega)
  | c :: rest, h =>
    if c.toNat < 0x20 then .error (.controlCharacter c)
    else readText whole (c :: done) rest (by simp at h; omega)

/-! ## Values -/

/-- Reads a number at the front: no superfluous zero in front, no point or mark without digits. -/
def readNumber (whole cs : List Char) (h : cs.length ≤ whole.length) :
    Except ReadFault (Number × Text.Shorter whole) :=
  match hs : Numeral.scan cs with
  | .error _ => .error .invalidNumber
  | .ok s =>
    if hw : s.numeral.whole = [] then .error .invalidNumber
    else if s.numeral.whole.head? = some '0' ∧ s.numeral.whole.length ≠ 1 then .error .invalidNumber
    else
      match Number.ofNumeral? s.numeral with
      | none => .error .numberOutOfRange
      | some value => .ok (value, ⟨s.rest, Nat.lt_of_lt_of_le (Numeral.scan_shorter hs hw) h⟩)

/-- The value of a word at the front: the null and the two booleans. -/
def readWord? : (cs : List Char) → Option (Json × Text.Shorter cs)
  | 'n' :: 'u' :: 'l' :: 'l' :: rest =>
    some (.null, ⟨rest, by simp only [List.length_cons]; omega⟩)
  | 't' :: 'r' :: 'u' :: 'e' :: rest =>
    some (.boolean true, ⟨rest, by simp only [List.length_cons]; omega⟩)
  | 'f' :: 'a' :: 'l' :: 's' :: 'e' :: rest =>
    some (.boolean false, ⟨rest, by simp only [List.length_cons]; omega⟩)
  | _ => none

mutual

/-- Reads a value whose first character is not blank. -/
def readValue (depth : Nat) (whole cs : List Char) (h : cs.length ≤ whole.length) :
    Except ReadFault (Json × Text.Shorter whole) :=
  match cs, h with
  | [], _ => .error .unexpectedEnd
  | '"' :: rest, h => do
    let (value, rest) ← readText whole [] rest (Nat.le_of_succ_le h)
    return (.text value, rest)
  | '[' :: rest, h =>
    match depth with
    | 0 => .error .tooDeep
    | depth + 1 =>
      match hr : skipBlanks rest with
      | ']' :: rest' =>
        .ok (.array [], ⟨rest', by have := length_of_skipBlanks hr; simp at h; omega⟩)
      | _ => readItems depth whole [] (skipBlanks rest)
          (by have := length_skipBlanks_le rest; simp at h; omega)
  | '{' :: rest, h =>
    match depth with
    | 0 => .error .tooDeep
    | depth + 1 =>
      match hr : skipBlanks rest with
      | '}' :: rest' =>
        .ok (.object [], ⟨rest', by have := length_of_skipBlanks hr; simp at h; omega⟩)
      | _ => readFields depth whole [] (skipBlanks rest)
          (by have := length_skipBlanks_le rest; simp at h; omega)
  | c :: rest, h =>
    if c = '-' ∨ c.isDigit then do
      let (value, rest) ← readNumber whole (c :: rest) h
      return (.number value, rest)
    else
      match readWord? (c :: rest) with
      | some (value, ⟨rest, hw⟩) => .ok (value, ⟨rest, Nat.lt_of_lt_of_le hw h⟩)
      | none => .error (.unexpected c)
termination_by (cs.length, 0)
decreasing_by
  all_goals
    have := length_skipBlanks_le rest
    simp only [Prod.lex_def, List.length_cons]; omega

/-- Reads the items of an array up to its end; `done` holds the items so far, last first. -/
def readItems (depth : Nat) (whole : List Char) (done : List Json) (cs : List Char)
    (h : cs.length ≤ whole.length) : Except ReadFault (Json × Text.Shorter whole) := do
  let (item, ⟨rest, hi⟩) ← readValue depth cs cs (Nat.le_refl _)
  match hr : skipBlanks rest with
  | ',' :: rest' =>
    readItems depth whole (item :: done) (skipBlanks rest')
      (by have := length_skipBlanks_le rest'; have := length_of_skipBlanks hr; omega)
  | ']' :: rest' =>
    return (.array (item :: done).reverse, ⟨rest', by have := length_of_skipBlanks hr; omega⟩)
  | c :: _ => .error (.unexpected c)
  | [] => .error .unexpectedEnd
termination_by (cs.length, 1)
decreasing_by
  · exact Prod.Lex.right _ Nat.zero_lt_one
  · have := length_skipBlanks_le rest'
    have := length_of_skipBlanks hr
    simp only [Prod.lex_def]; omega

/-- Reads the fields of an object up to its end. -/
def readFields (depth : Nat) (whole : List Char) (done : List (String × Json)) (cs : List Char)
    (h : cs.length ≤ whole.length) : Except ReadFault (Json × Text.Shorter whole) :=
  match cs, h with
  | '"' :: cs, h => do
    let (name, ⟨rest, hn⟩) ← readText cs [] cs (Nat.le_refl _)
    match hr : skipBlanks rest with
    | ':' :: rest' =>
      let (value, ⟨after, hv⟩) ← readValue depth (skipBlanks rest') (skipBlanks rest')
        (Nat.le_refl _)
      match ha : skipBlanks after with
      | ',' :: more =>
        readFields depth whole (Named.put done name value) (skipBlanks more) (by
          have := length_skipBlanks_le more; have := length_of_skipBlanks ha
          have := length_skipBlanks_le rest'; have := length_of_skipBlanks hr
          simp at h; omega)
      | '}' :: more =>
        return (.object (Named.put done name value), ⟨more, by
          have := length_of_skipBlanks ha
          have := length_skipBlanks_le rest'; have := length_of_skipBlanks hr
          simp at h; omega⟩)
      | c :: _ => .error (.unexpected c)
      | [] => .error .unexpectedEnd
    | c :: _ => .error (.unexpected c)
    | [] => .error .unexpectedEnd
  | c :: _, _ => .error (.unexpected c)
  | [], _ => .error .unexpectedEnd
termination_by (cs.length, 1)
decreasing_by
  · have := length_skipBlanks_le rest'
    have := length_of_skipBlanks hr
    simp only [Prod.lex_def, List.length_cons]; omega
  · have := length_skipBlanks_le rest'
    have := length_of_skipBlanks hr
    have := length_skipBlanks_le more
    have := length_of_skipBlanks ha
    simp only [Prod.lex_def, List.length_cons]; omega

end

/-- Reads a text that is one value and blanks, with containers nested at most `depth` deep. -/
def readWithin (depth : Nat) (text : String) : Except ReadFault Json := do
  let cs := skipBlanks text.toList
  let (value, rest) ← readValue depth cs cs (Nat.le_refl _)
  match skipBlanks rest.1 with
  | [] => return value
  | c :: _ => .error (.trailing c)

def read (text : String) : Except ReadFault Json := readWithin maxDepth text

end HalfBinary.Json
