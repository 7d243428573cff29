import HalfBinary.Toml.Lexer
import HalfBinary.Toml.Scalar

/-!
# The grammar of documents

Tokens to sections. A function returns what is left of the tokens, which is less than it was given,
and this ends the recursion; arrays and inline tables are also bounded in depth.
-/

namespace HalfBinary.Toml

open Text (Shorter)

/-- Arrays and inline tables may be nested to this depth. -/
def maxNesting : Nat := 80

/-- The most tables that a dotted key may lead through, its own included. -/
def maxKeyLength : Nat := 80

/-- The tokens after blanks. -/
def skipBlanks : List Token → List Token
  | .blank _ :: rest => rest
  | ts => ts

/-- The tokens after blanks and ends of lines. -/
def skipLines (ts : List Token) : List Token :=
  ts.dropWhile fun t => t matches .blank _ | .newline

private theorem length_skipBlanks_le (ts : List Token) : (skipBlanks ts).length ≤ ts.length := by
  unfold skipBlanks
  split
  · exact Nat.le_succ _
  · exact Nat.le_refl _

private theorem length_skipLines_le (ts : List Token) : (skipLines ts).length ≤ ts.length :=
  (List.dropWhile_sublist _).length_le

private theorem length_of_skipBlanks {ts rest : List Token} {t : Token}
    (h : skipBlanks ts = t :: rest) : rest.length < ts.length := by
  have := length_skipBlanks_le ts
  rw [h] at this
  exact this

private theorem length_of_skipLines {ts rest : List Token} {t : Token}
    (h : skipLines ts = t :: rest) : rest.length < ts.length := by
  have := length_skipLines_le ts
  rw [h] at this
  exact this

/-! ## Keys -/

/-- A character of a bare key. -/
def isBare (c : Char) : Bool := c.isAlphanum || c == '_' || c == '-'

/-- The name that a token is as a part of a key. -/
def Token.name? : Token → Option String
  | atom cs => if cs.all isBare then some (String.ofList cs) else none
  | text value false => some value
  | _ => none

/-- Reads a key; `path` holds the names before this one, last first. -/
def readKey (whole : List Token) (path : List String) (ts : List Token)
    (h : ts.length ≤ whole.length) :
    Except Fault (Key × Shorter whole) :=
  match ts with
  | [] => .error .unexpectedEnd
  | t :: rest =>
    match t.name? with
    | none => .error (.unexpected t.render)
    | some name =>
      match hr : skipBlanks rest with
      | .dot :: more =>
        readKey whole (name :: path) (skipBlanks more) (by
          have := length_skipBlanks_le more; have := length_of_skipBlanks hr
          simp at h; omega)
      | more =>
        if maxKeyLength ≤ path.length then .error .tooDeep
        else .ok (⟨path.reverse, name⟩, ⟨more, by
          have := length_skipBlanks_le rest; rw [hr] at this; simp at h; omega⟩)
termination_by ts.length
decreasing_by
  have := length_skipBlanks_le more
  have := length_of_skipBlanks hr
  simp only [List.length_cons]; omega

/-! ## Values -/

/-- The characters of a token that is a part of an unquoted value. -/
def Token.part? : Token → Option (List Char)
  | atom cs => some cs
  | dot => some ['.']
  | _ => none

/-- The characters of the parts at the front, and the tokens after them. -/
def spanParts (ts : List Token) : List Char × List Token :=
  let isPart (t : Token) := t.part?.isSome
  ((ts.takeWhile isPart).flatMap fun t => t.part?.getD [], ts.dropWhile isPart)

private theorem length_spanParts_le (ts : List Token) : (spanParts ts).2.length ≤ ts.length :=
  (List.dropWhile_sublist _).length_le

/-- Reads an unquoted value. A date may be followed by one space and a time of day. -/
def readScalar (whole : List Token) (first : List Char) (rest : List Token)
    (h : rest.length < whole.length) :
    Except Fault (Expression × Shorter whole) :=
  let decode (cs : List Char) (rest : Shorter whole) :=
    match Scalar.ofChars? cs with
    | some value => .ok (.scalar value, rest)
    | none => .error (.invalidValue (String.ofList cs))
  let cs := (spanParts rest).1
  match ha : (spanParts rest).2 with
  | .blank [' '] :: .atom (c :: time) :: more =>
    if skipDate (first ++ cs) == some [] && c.isDigit then
      decode (first ++ cs ++ ' ' :: c :: time ++ (spanParts more).1) ⟨(spanParts more).2, by
        have rests := length_spanParts_le rest
        have := length_spanParts_le more
        rw [ha] at rests; simp at rests; omega⟩
    else decode (first ++ cs) ⟨(spanParts rest).2, by
      have := length_spanParts_le rest; omega⟩
  | _ => decode (first ++ cs) ⟨(spanParts rest).2, by have := length_spanParts_le rest; omega⟩

mutual

def readValue (depth : Nat) (whole ts : List Token) (h : ts.length ≤ whole.length) :
    Except Fault (Expression × Shorter whole) :=
  match ts, h with
  | .text value _ :: rest, h => .ok (.scalar (.text value), ⟨rest, h⟩)
  | .atom cs :: rest, h => readScalar whole cs rest h
  | .openBracket :: rest, h =>
    match depth with
    | 0 => .error .tooDeep
    | depth + 1 => readItems depth whole [] rest (Nat.le_of_succ_le h)
  | .openBrace :: rest, h =>
    match depth with
    | 0 => .error .tooDeep
    | depth + 1 => readEntries depth whole [] rest (Nat.le_of_succ_le h)
  | ts, _ => .error (.at ts)
termination_by (ts.length, 0)

/-- Reads the items of an array up to its end; `done` holds those before, last first. -/
def readItems (depth : Nat) (whole : List Token) (done : List Expression) (ts : List Token)
    (h : ts.length ≤ whole.length) :
    Except Fault (Expression × Shorter whole) :=
  match hs : skipLines ts with
  | .closeBracket :: rest =>
    .ok (.array done.reverse, ⟨rest, by have := length_of_skipLines hs; omega⟩)
  | start => do
    let (item, ⟨rest, hi⟩) ← readValue depth start start (Nat.le_refl _)
    have : start.length ≤ ts.length := hs ▸ length_skipLines_le ts
    match hr : skipLines rest with
    | .comma :: rest' =>
      readItems depth whole (item :: done) rest' (by have := length_of_skipLines hr; omega)
    | .closeBracket :: rest' =>
      return (.array (item :: done).reverse, ⟨rest', by have := length_of_skipLines hr; omega⟩)
    | ts => .error (.at ts)
termination_by (ts.length, 1)
decreasing_by
  · rcases Nat.lt_or_eq_of_le (hs ▸ length_skipLines_le ts : start.length ≤ ts.length) with h | h
    · exact Prod.Lex.left _ _ h
    · exact h ▸ Prod.Lex.right _ Nat.zero_lt_one
  · have := length_of_skipLines hr
    exact Prod.Lex.left _ _ (by omega)

/-- Reads the entries of an inline table up to its end; `done` holds those before, last first. -/
def readEntries (depth : Nat) (whole : List Token) (done : List (Key × Expression))
    (ts : List Token) (h : ts.length ≤ whole.length) : Except Fault (Expression × Shorter whole) :=
  match hs : skipLines ts with
  | .closeBrace :: rest =>
    .ok (.inlineTable done.reverse, ⟨rest, by have := length_of_skipLines hs; omega⟩)
  | start => do
    let (key, ⟨rest, hk⟩) ← readKey start [] start (Nat.le_refl _)
    have : start.length ≤ ts.length := hs ▸ length_skipLines_le ts
    match he : skipLines rest with
    | .equals :: right =>
      let (value, ⟨after, hv⟩) ← readValue depth (skipLines right) (skipLines right)
        (Nat.le_refl _)
      have := length_of_skipLines he
      have := length_skipLines_le right
      match ha : skipLines after with
      | .comma :: more =>
        readEntries depth whole ((key, value) :: done) more
          (by have := length_of_skipLines ha; omega)
      | .closeBrace :: more =>
        return (.inlineTable ((key, value) :: done).reverse, ⟨more, by
          have := length_of_skipLines ha; omega⟩)
      | ts => .error (.at ts)
    | ts => .error (.at ts)
termination_by (ts.length, 1)
decreasing_by
  · have := length_of_skipLines he
    have := length_skipLines_le right
    exact Prod.Lex.left _ _ (by omega)
  · have := length_of_skipLines ha
    have := length_of_skipLines he
    have := length_skipLines_le right
    exact Prod.Lex.left _ _ (by omega)

end

/-! ## Lines -/

/-- The tokens after the end of a line, at which nothing but blanks may be left. -/
def endLine (ts : List Token) : Except Fault (List Token) :=
  match skipBlanks ts with
  | [] => .ok []
  | .newline :: rest => .ok rest
  | ts => .error (.at ts)

private theorem length_endLine_le {ts rest : List Token} (h : endLine ts = .ok rest) :
    rest.length ≤ ts.length := by
  have := length_skipBlanks_le ts
  unfold endLine at h
  split at h
  · cases h; exact Nat.zero_le _
  · next e => cases h; rw [e] at this; exact Nat.le_of_succ_le this
  · cases h

/-- Reads the header of a section after its first bracket. -/
def readHeader (whole ts : List Token) (h : ts.length ≤ whole.length) :
    Except Fault (Header × Shorter whole) :=
  match ts, h with
  | .openBracket :: inner, h => do
    let (key, ⟨rest, hk⟩) ← readKey _ [] (skipBlanks inner) (length_skipBlanks_le inner)
    match rest, hk with
    | .closeBracket :: .closeBracket :: rest, hk =>
      return (.element key, ⟨rest, by simp at h hk; omega⟩)
    | ts, _ => .error (.at ts)
  | inner, h => do
    let (key, ⟨rest, hk⟩) ← readKey _ [] (skipBlanks inner) (length_skipBlanks_le inner)
    match rest, hk with
    | .closeBracket :: rest, hk => return (.table key, ⟨rest, by simp at hk; omega⟩)
    | ts, _ => .error (.at ts)

def readAssignment (ts : List Token) : Except Fault ((Key × Expression) × Shorter ts) := do
  let (key, ⟨rest, hk⟩) ← readKey ts [] ts (Nat.le_refl _)
  match rest, hk with
  | .equals :: rest, hk =>
    let (value, ⟨after, hv⟩) ← readValue maxNesting _ (skipBlanks rest) (Nat.le_refl _)
    have := length_skipBlanks_le rest
    match he : endLine after with
    | .error fault => .error fault
    | .ok next =>
      return ((key, value), ⟨next, by have := length_endLine_le he; simp at hk; omega⟩)
  | ts, _ => .error (.at ts)

/-- Reads sections line by line. `done` holds those before the present one, last first, and
`assignments` those of the present one, last first. -/
def readSections (done : List Section) (header : Option Header)
    (assignments : List (Key × Expression)) (ts : List Token) : Except Fault (List Section) :=
  match _hs : skipLines ts with
  | [] => .ok (⟨header, assignments.reverse⟩ :: done).reverse
  | .openBracket :: rest =>
    match readHeader _ rest (Nat.le_refl _) with
    | .error fault => .error fault
    | .ok (next, ⟨after, _hh⟩) =>
      match _he : endLine after with
      | .error fault => .error fault
      | .ok body =>
        readSections (⟨header, assignments.reverse⟩ :: done) (some next) [] body
  | start =>
    match readAssignment start with
    | .error fault => .error fault
    | .ok (assignment, ⟨after, _ha⟩) =>
      readSections done header (assignment :: assignments) after
termination_by ts.length
decreasing_by
  · have := length_of_skipLines _hs
    have := length_endLine_le _he
    omega
  · have : start.length ≤ ts.length := _hs ▸ length_skipLines_le ts
    omega

def sections (document : String) : Except Fault (List Section) := do
  readSections [] none [] (← tokens document)

end HalfBinary.Toml
