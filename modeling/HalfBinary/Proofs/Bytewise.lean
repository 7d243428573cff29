import Mathlib
import HalfBinary.Proofs.FaultSites
import HalfBinary.Proofs.Utf8

/-!
# Lexing by bytes

A clause is read byte by byte, and the text of words, strings and faults is sliced out of it between
two byte positions. Every such slice is between two characters, so that lexing by bytes is lexing
(`lex_eq`).
-/

namespace HalfBinary.Bytewise

open Text (inIdentifier startsIdentifier symbols cut?)
open Token (isBlank unescape?)

/-! ### Reading by positions -/

/-- Why reading by positions ends without tokens. -/
inductive Halt where
  | error (e : ClauseError)
  /-- A byte is taken outside of the text, or a slice ends there or inside a character. -/
  | misplaced
  /-- A token takes nothing, so that the same position would be read for ever. -/
  | endless
  deriving DecidableEq, Repr

/-- A token and the position after it. -/
abbrev Reading := Except Halt (Token × Nat)

def fault (fault : LexFault) (offset : Nat) : Except Halt α := .error (.error (.lex fault offset))

section

variable (source : String)

/-- The bytes of the text, each as the character of its value. -/
def bytes : List Char := source.toUTF8.data.toList.map Char.ofUInt8

/-- The byte at a position. -/
def symbol? (offset : Nat) : Option Char := (bytes source)[offset]?

/-- Whether there is a byte at a position, and it meets a condition. -/
def sees (p : Char → Bool) (offset : Nat) : Bool := (symbol? source offset).any p

/-- The text between two positions. -/
def slice (start stop : Nat) : Except Halt (List Char) :=
  match if start ≤ stop then cut? start source.toList else none with
  | none => .error .misplaced
  | some (_, tail) =>
    match cut? (stop - start) tail with
    | none => .error .misplaced
    | some (text, _) => .ok text

/-- The position after the bytes that meet a condition. -/
def skip (p : Char → Bool) (offset : Nat) : Nat :=
  offset + (((bytes source).drop offset).takeWhile p).length

/-- Reads an operator of two bytes. -/
def pair (token : Token) (second : Char) (expected : String) (offset : Nat) : Reading :=
  if sees source (· == second) (offset + 1) then .ok (token, offset + 2)
  else fault (.incompleteOperator expected) offset

/-- Reads an ordering operator of one byte or two. -/
def order (strict inclusive : Operator) (offset : Nat) : Reading :=
  if sees source (· == '=') (offset + 1) then .ok (.operator inclusive, offset + 2)
  else .ok (.operator strict, offset + 1)

/-- Reads the characters of a string up to its closing quote. `value` holds the text so far, last
first. -/
def textFrom (quote : Char) (start : Nat) (place : Nat) (value : List Char) : List Char → Reading
  | [] => fault .unterminatedString start
  | c :: rest =>
    if c = quote then .ok (.literal (.text (String.ofList value.reverse)), place + 1)
    else if c = '\\' then
      match rest with
      | [] => fault .unterminatedString start
      | e :: rest' =>
        match unescape? e with
        | some d => textFrom quote start (place + c.utf8Size + e.utf8Size) (d :: value) rest'
        | none => fault (.invalidEscape e) place
    else textFrom quote start (place + c.utf8Size) (c :: value) rest

def text (quote : Char) (start : Nat) : Reading := do
  let rest ← slice source (start + 1) source.utf8ByteSize
  textFrom quote start (start + 1) [] rest

/-- The position after an optional sign. -/
def sign (signs : List Char) (offset : Nat) : Nat :=
  if sees source (fun c => c ∈ signs) offset then offset + 1 else offset

/-- The position after digits, of which there is one at least; else where they are missing. -/
def digits (offset : Nat) : Except Nat Nat :=
  let stop := skip source Char.isDigit offset
  if stop = offset then .error stop else .ok stop

/-- The position after an optional fraction. -/
def fraction (offset : Nat) : Except Nat Nat :=
  if sees source (· == '.') offset then digits source (offset + 1) else .ok offset

/-- The position after an optional power of ten. -/
def power (offset : Nat) : Except Nat Nat :=
  if sees source (fun c => c = 'e' ∨ c = 'E') offset then
    digits source (sign source ['+', '-'] (offset + 1))
  else .ok offset

/-- The position after a number; else where a digit is missing. -/
def numberEnd (start : Nat) : Except Nat Nat := do
  let whole := skip source Char.isDigit (sign source ['-'] start)
  power source (← fraction source whole)

/-- The literal of a number's text. -/
def literal? (raw : List Char) : Option Literal :=
  match Numeral.scan raw with
  | .ok s => Literal.ofNumeral? s.numeral
  | .error _ => none

def number (start : Nat) : Reading :=
  -- The first byte is taken without a look at the size.
  if (symbol? source start).isNone then .error .misplaced
  else
    match numberEnd source start with
    | .error stop => do
      let raw ← slice source start (min stop source.utf8ByteSize)
      fault (.invalidNumber (String.ofList raw)) start
    | .ok stop => do
      let raw ← slice source start stop
      match literal? raw with
      | some l => return (.literal l, stop)
      | none => fault (.invalidNumber (String.ofList raw)) start

/-- The position after identifiers with points between them; else that of a point which no
identifier comes after. -/
def wordEnd (offset : Nat) : List Char → Except Nat Nat
  | [] => .ok offset
  | c :: rest =>
    if inIdentifier c then wordEnd (offset + 1) rest
    else if c = '.' then
      if rest.head?.any startsIdentifier then wordEnd (offset + 1) rest else .error offset
    else .ok offset

def word (start : Nat) : Reading :=
  match wordEnd start ((bytes source).drop start) with
  | .error point => fault .emptyPathSegment point
  | .ok stop => do
    let raw ← slice source start stop
    return (Token.ofWord ((raw.splitOn '.').map String.ofList), stop)

/-- Refuses the character at a position. -/
def unknown (offset : Nat) : Reading := do
  let rest ← slice source offset source.utf8ByteSize
  fault (.unknownSymbol (rest.head?.getD '\ufffd')) offset

/-- Reads the token whose first byte is at a position. -/
def token (c : Char) (offset : Nat) : Reading :=
  if c = '(' then .ok (.openParen, offset + 1)
  else if c = ')' then .ok (.closeParen, offset + 1)
  else if c = '=' then pair source (.operator .eq) '=' "==" offset
  else if c = '!' then pair source (.operator .ne) '=' "!=" offset
  else if c = '&' then pair source (.connective .and) '&' "&&" offset
  else if c = '|' then pair source (.connective .or) '|' "||" offset
  else if c = '<' then order source .lt .le offset
  else if c = '>' then order source .gt .ge offset
  else if c = '"' ∨ c = '\'' then text source c offset
  else if c.isDigit ∨ (c = '-' ∧ sees source Char.isDigit (offset + 1)) then
    number source offset
  else if startsIdentifier c then word source offset
  else unknown source offset

/-- Reads tokens from a position on; `done` holds the tokens before it, last first. -/
def tokensFrom (done : List Located) (offset : Nat) : Except Halt TokenStream :=
  match _h : symbol? source offset with
  | none => .ok ⟨done.reverse, offset⟩
  | some c =>
    if isBlank c then tokensFrom done (offset + 1)
    else
      match token source c offset with
      | .error halt => .error halt
      | .ok (t, next) =>
        if offset < next then tokensFrom (⟨t, offset⟩ :: done) next else .error .endless
termination_by (bytes source).length - offset
decreasing_by
  all_goals
    have inside := (List.getElem?_eq_some_iff.1 _h).1
    omega

/-- The tokens of a clause. -/
def lex : Except Halt TokenStream := do
  let stream ← tokensFrom source [] 0
  if stream.tokens.isEmpty then .error (.error .emptyExpression) else return stream

end

/-! ### Bytes where characters start -/

theorem isAscii_isDigit : Text.IsAscii Char.isDigit := by
  intro c digit
  simp only [Char.isDigit, Bool.and_eq_true, decide_eq_true_eq, UInt32.le_iff_toNat_le] at digit ⊢
  simp at digit ⊢
  omega

theorem isAscii_startsIdentifier : Text.IsAscii startsIdentifier := by
  intro c start
  simp only [startsIdentifier, Char.isAlpha, Char.isUpper, Char.isLower, Bool.or_eq_true,
    Bool.and_eq_true, decide_eq_true_eq, beq_iff_eq, UInt32.le_iff_toNat_le] at start ⊢
  rcases start with letter | rfl
  · simp at letter ⊢
    omega
  · decide

theorem isAscii_inIdentifier : Text.IsAscii inIdentifier := by
  intro c inside
  simp only [inIdentifier, Char.isAlphanum, Bool.or_eq_true] at inside
  rcases inside with (letter | digit) | under
  · exact isAscii_startsIdentifier c (by simp [startsIdentifier, letter])
  · exact isAscii_isDigit c digit
  · exact isAscii_startsIdentifier c (by simpa [startsIdentifier] using Or.inr under)

theorem isAscii_beq {c : Char} (ascii : c.val ≤ 127) : Text.IsAscii (· == c) := by
  intro d same
  rwa [beq_iff_eq.1 same]

section

variable {source : String} {before rest : List Char}

theorem bytes_eq (split : source.toList = before ++ rest) :
    bytes source = symbols before ++ symbols rest := by
  rw [bytes, ← Text.symbols_toList, split, Text.symbols_append]

theorem drop_bytes (split : source.toList = before ++ rest) :
    (bytes source).drop (Text.byteLength before) = symbols rest := by
  rw [bytes_eq split, ← Text.length_symbols, List.drop_left]

theorem symbol?_eq_head? (split : source.toList = before ++ rest) :
    symbol? source (Text.byteLength before) = (symbols rest).head? := by
  rw [symbol?, ← drop_bytes split, List.head?_drop]

theorem sees_eq {p : Char → Bool} (ascii : Text.IsAscii p) (split : source.toList = before ++ rest) :
    sees source p (Text.byteLength before) = rest.head?.any p := by
  rw [sees, symbol?_eq_head? split, Text.head?_symbols_any ascii]

theorem skip_eq {p : Char → Bool} (ascii : Text.IsAscii p) (split : source.toList = before ++ rest) :
    skip source p (Text.byteLength before) = Text.byteLength (before ++ rest.takeWhile p) := by
  rw [skip, drop_bytes split, Text.takeWhile_symbols ascii, Text.byteLength_append,
    Text.byteLength_takeWhile ascii]

theorem utf8ByteSize_eq (split : source.toList = before ++ rest) :
    source.utf8ByteSize = Text.byteLength (before ++ rest) := by
  rw [← split, Text.byteLength_toList]

theorem slice_eq {text after : List Char} (split : source.toList = before ++ (text ++ after)) :
    slice source (Text.byteLength before) (Text.byteLength (before ++ text)) = .ok text := by
  rw [slice, if_pos (by simp), split, Text.cut?_byteLength]
  dsimp only
  rw [Text.byteLength_append, Nat.add_sub_cancel_left, Text.cut?_byteLength]

theorem slice_end (split : source.toList = before ++ rest) :
    slice source (Text.byteLength before) source.utf8ByteSize = .ok rest := by
  have whole : source.toList = before ++ (rest ++ []) := by rwa [List.append_nil]
  rw [utf8ByteSize_eq split, slice_eq whole]

/-! ### Tokens -/

/-- What a scan from a position on comes to. -/
def placed (offset : Nat) : Except Token.Stop Token.Scan → Reading
  | .ok s => .ok (s.token, offset + Text.byteLength s.lexeme)
  | .error (why, taken) => fault why (offset + Text.byteLength taken)

theorem split_concat {c : Char} (split : source.toList = before ++ c :: rest) :
    source.toList = (before ++ [c]) ++ rest := by
  rw [split, List.append_assoc, List.singleton_append]

theorem byteLength_concat {c : Char} (ascii : c.val ≤ 127) (cs : List Char) :
    Text.byteLength (cs ++ [c]) = Text.byteLength cs + 1 := by
  rw [Text.byteLength_append, Text.byteLength_cons, Text.byteLength_nil,
    Char.utf8Size_eq_one_iff.2 ascii]

theorem sees_next {c : Char} (ascii : c.val ≤ 127) {p : Char → Bool} (ascii' : Text.IsAscii p)
    (split : source.toList = before ++ c :: rest) :
    sees source p (Text.byteLength before + 1) = rest.head?.any p := by
  rw [← byteLength_concat ascii, sees_eq ascii' (split_concat split)]

theorem pair_eq {c second : Char} (ascii : c.val ≤ 127) (ascii' : second.val ≤ 127)
    (split : source.toList = before ++ c :: rest) (t : Token) :
    pair source t second (String.ofList [c, second]) (Text.byteLength before) =
      placed (Text.byteLength before) (Token.scanPair t c second rest) := by
  have size : Text.byteLength [c, second] = 2 := by
    rw [Text.byteLength_of_ascii (by simp [ascii, ascii'])]
    rfl
  rw [pair, sees_next ascii (isAscii_beq ascii') split]
  cases rest with
  | nil => rfl
  | cons d rest =>
    rw [Token.scanPair, List.head?_cons, Option.any_some]
    by_cases same : d = second
    · rw [if_pos (by simp [same]), if_pos same, placed, size]
    · rw [if_neg (by simp [same]), if_neg same]
      rfl

theorem order_eq {c : Char} (ascii : c.val ≤ 127) (split : source.toList = before ++ c :: rest)
    (strict inclusive : Operator) :
    order source strict inclusive (Text.byteLength before) =
      placed (Text.byteLength before) (.ok (Token.scanOrder strict inclusive c rest)) := by
  rw [order, sees_next ascii (isAscii_beq (by decide)) split]
  by_cases equal : rest.head? = some '='
  · obtain ⟨tail, rfl⟩ := List.head?_eq_some_iff.1 equal
    have size : Text.byteLength [c, '='] = 2 := Text.byteLength_of_ascii (by simp [ascii])
    rw [Token.scanOrder, placed, size]
    rfl
  · have size : Text.byteLength [c] = 1 := Text.byteLength_of_ascii (by simp [ascii])
    have stops : Stops (· == '=') rest := fun d head => by
      rw [beq_eq_false_iff_ne]
      rintro rfl
      exact equal head
    have other : rest.head?.any (· == '=') = false := (Option.any_eq_false ..).2 stops
    rw [other, Token.scanOrder_complete stops, placed, size]
    rfl

/-! #### Strings -/

theorem textFrom_eq {quote : Char} (ascii : quote.val ≤ 127) {start : Nat}
    (taken value cs : List Char) :
    textFrom quote start (start + Text.byteLength taken.reverse) value cs =
      placed start (Token.scanText quote taken value cs) := by
  -- The position and what the scan has taken stay in step.
  have step (c : Char) (taken : List Char) :
      start + Text.byteLength taken.reverse + c.utf8Size =
        start + Text.byteLength (c :: taken).reverse := by
    rw [List.reverse_cons, Text.byteLength_append, Text.byteLength_cons, Text.byteLength_nil,
      Nat.add_assoc, Nat.add_zero]
  fun_induction Token.scanText quote taken value cs with
  | case1 => rfl
  | case2 taken value rest =>
    rw [textFrom.eq_def]
    simp only [if_true]
    rw [placed, ← step, Char.utf8Size_eq_one_iff.2 ascii]
  | case3 taken value other =>
    rw [textFrom.eq_def]
    simp only [other, if_false, if_true]
    rfl
  | case4 taken value e rest d escaped other ih =>
    rw [textFrom.eq_def]
    simp only [other, if_false, if_true, escaped]
    rw [step, step, ih]
  | case5 taken value e rest invalid other =>
    rw [textFrom.eq_def]
    simp only [other, if_false, if_true, invalid]
    rfl
  | case6 taken value c rest other unescaped ih =>
    rw [textFrom.eq_def]
    simp only [other, if_false, unescaped]
    rw [step, ih]

theorem text_eq {quote : Char} (ascii : quote.val ≤ 127)
    (split : source.toList = before ++ quote :: rest) :
    text source quote (Text.byteLength before) =
      placed (Text.byteLength before) (Token.scanText quote [quote] [] rest) := by
  rw [text, ← byteLength_concat ascii, slice_end (split_concat split), Text.byteLength_append]
  exact textFrom_eq ascii [quote] [] rest

/-! #### Numbers -/

/-- Where the scan of a number after some characters ends. -/
def ended (before : List Char) : Except (List Char) Numeral.Scan → Except Nat Nat
  | .ok s => .ok (Text.byteLength (before ++ s.lexeme))
  | .error taken => .error (Text.byteLength (before ++ taken))

theorem digits_eq (split : source.toList = before ++ rest) :
    digits source (Text.byteLength before) =
      if (rest.takeWhile Char.isDigit).isEmpty then .error (Text.byteLength before)
      else .ok (Text.byteLength (before ++ rest.takeWhile Char.isDigit)) := by
  rw [digits, skip_eq isAscii_isDigit split]
  by_cases none : (rest.takeWhile Char.isDigit).isEmpty = true
  · rw [if_pos none, List.isEmpty_iff.1 none, List.append_nil, if_pos rfl]
  · have taken := Text.byteLength_pos (mt List.isEmpty_iff.2 none)
    rw [if_neg none, if_neg (by rw [Text.byteLength_append]; omega)]

theorem ascii_of_mem_signs {c : Char} (mem : c ∈ ['+', '-']) : c.val ≤ 127 := by
  rcases List.mem_pair.1 mem with rfl | rfl <;> decide

theorem sign_eq {signs : List Char} (among : signs ⊆ ['+', '-'])
    (split : source.toList = before ++ rest) :
    sign source signs (Text.byteLength before) =
      Text.byteLength (before ++ (Numeral.scanSign signs rest).1) := by
  have ascii (c : Char) (mem : c ∈ signs) : c.val ≤ 127 := ascii_of_mem_signs (among mem)
  rw [sign, sees_eq (fun c mem => ascii c (by simpa using mem)) split]
  cases rest with
  | nil => simp [Numeral.scanSign]
  | cons c rest =>
    rw [Numeral.scanSign, List.head?_cons, Option.any_some]
    by_cases mem : c ∈ signs
    · rw [if_pos (by simpa using mem), if_pos mem, byteLength_concat (ascii c mem)]
    · rw [if_neg (by simpa using mem), if_neg mem, List.append_nil]

theorem power_eq {taken cs : List Char} (n : Numeral)
    (split : source.toList = (before ++ taken) ++ cs) :
    power source (Text.byteLength (before ++ taken)) =
      ended before (Numeral.scanExponent n taken cs) := by
  have ascii (c : Char) (mark : c = 'e' ∨ c = 'E') : c.val ≤ 127 := by
    rcases mark with rfl | rfl <;> decide
  rw [power, sees_eq (fun c mark => ascii c (by simpa using mark)) split]
  cases cs with
  | nil => rfl
  | cons c rest =>
    rw [Numeral.scanExponent, List.head?_cons, Option.any_some]
    by_cases mark : c = 'e' ∨ c = 'E'
    · rw [if_pos (by simpa using mark), if_pos mark, ← byteLength_concat (ascii c mark),
        sign_eq (by simp) (split_concat split)]
      rcases signed : Numeral.scanSign ['+', '-'] rest with ⟨sign, rest'⟩
      dsimp only
      have here : source.toList = (before ++ taken ++ [c] ++ sign) ++ rest' := by
        rw [split, (Numeral.scanSign_eq signed).2]
        simp
      rw [digits_eq here]
      split
      · simp [ended]
      · simp [ended]
    · rw [if_neg (by simpa using mark), if_neg mark]
      rfl

theorem fraction_eq {taken cs : List Char} (n : Numeral)
    (split : source.toList = (before ++ taken) ++ cs) :
    (fraction source (Text.byteLength (before ++ taken)) >>= power source) =
      ended before (Numeral.scanFraction n taken cs) := by
  rw [fraction, sees_eq (isAscii_beq (by decide)) split]
  cases cs with
  | nil => exact power_eq n split
  | cons c rest =>
    rw [Numeral.scanFraction, List.head?_cons, Option.any_some]
    by_cases point : c = '.'
    · subst point
      rw [if_pos (by decide), if_pos rfl, ← byteLength_concat (c := '.') (by decide),
        digits_eq (split_concat split)]
      by_cases none : (rest.takeWhile Char.isDigit).isEmpty = true
      · rw [if_pos none]
        dsimp only
        rw [if_pos none, ended, ← List.append_assoc]
        rfl
      · rw [if_neg none]
        dsimp only
        have here : source.toList = (before ++ (taken ++ '.' :: rest.takeWhile Char.isDigit)) ++
            rest.dropWhile Char.isDigit := by
          rw [split]
          simp
        rw [if_neg none, ← power_eq _ here]
        simp [bind, Except.bind]
    · rw [if_neg (by simpa using point), if_neg point]
      exact power_eq n split

theorem numberEnd_eq (split : source.toList = before ++ rest) :
    numberEnd source (Text.byteLength before) = ended before (Numeral.scan rest) := by
  rw [numberEnd, Numeral.scan, sign_eq (by simp) split]
  rcases signed : Numeral.scanSign ['-'] rest with ⟨sign, rest'⟩
  dsimp only
  obtain ⟨-, rfl⟩ := Numeral.scanSign_eq signed
  rw [skip_eq isAscii_isDigit (split.trans (List.append_assoc ..).symm), List.append_assoc]
  refine fraction_eq _ ?_
  rw [split]
  simp

/-- The text of a number is the whole of a number. -/
theorem scan_lexeme {c : Char} {s : Numeral.Scan} (start : Token.StartsNumber c rest)
    (scanned : Numeral.scan (c :: rest) = .ok s) :
    Numeral.scan s.lexeme = .ok ⟨s.numeral, s.lexeme, []⟩ := by
  obtain ⟨spelled, -⟩ := Numeral.scan_sound scanned (Numeral.whole_ne_nil scanned start)
  simpa using Numeral.scan_complete spelled (.nil _)

theorem number_eq {c : Char} (start : Token.StartsNumber c rest)
    (split : source.toList = before ++ c :: rest) :
    number source (Text.byteLength before) =
      placed (Text.byteLength before) (Token.scanNumber (c :: rest)) := by
  have first : ¬ (symbol? source (Text.byteLength before)).isNone = true := by
    obtain ⟨d, ds, same, -⟩ := Text.exists_symbols_cons c rest
    simp [symbol?_eq_head? split, same]
  rw [number, if_neg first, numberEnd_eq split, Token.scanNumber]
  rcases scanned : Numeral.scan (c :: rest) with lexeme | s
  · obtain ⟨after, taken⟩ := Numeral.scan_error scanned
    rw [taken] at split
    have inside : Text.byteLength (before ++ lexeme) ≤ source.utf8ByteSize := by
      rw [utf8ByteSize_eq split, ← List.append_assoc, Text.byteLength_append (before ++ lexeme)]
      exact Nat.le_add_right _ _
    dsimp only [ended]
    rw [min_eq_left inside, slice_eq split]
    rfl
  · rw [← Numeral.scan_append scanned] at split
    have value : literal? s.lexeme = Literal.ofNumeral? s.numeral := by
      rw [literal?, scan_lexeme start scanned]
    dsimp only [ended]
    rw [slice_eq split, Text.byteLength_append]
    simp only [bind, Except.bind, value]
    cases Literal.ofNumeral? s.numeral with
    | none => rfl
    | some l => rfl

/-! #### Words -/

/-- Where the scan of a word from a position on ends. -/
def wordEnded (offset : Nat) : Except Token.Stop Token.Scan → Except Nat Nat
  | .ok s => .ok (offset + Text.byteLength s.lexeme)
  | .error (_, taken) => .error (offset + Text.byteLength taken)

theorem wordEnd_eq {offset : Nat} {taken segment cs : List Char} {segments : List String} :
    wordEnd (offset + Text.byteLength taken.reverse) (symbols cs) =
      wordEnded offset (Token.scanWord taken segment segments cs) := by
  have step {c : Char} (ascii : c.val ≤ 127) (taken : List Char) :
      offset + Text.byteLength taken.reverse + 1 =
        offset + Text.byteLength (c :: taken).reverse := by
    rw [List.reverse_cons, byteLength_concat ascii, Nat.add_assoc]
  have point : inIdentifier '.' = false := by decide
  fun_induction Token.scanWord taken segment segments cs with
  | case1 => rfl
  | case2 taken segment segments c rest inside ih =>
    have ascii := isAscii_inIdentifier c inside
    rw [Text.symbols_of_ascii ascii, wordEnd, if_pos inside, step ascii, ih]
  | case3 taken segment segments d rest start outside ih =>
    have ascii := isAscii_startsIdentifier d start
    have inside := Text.inIdentifier_of_startsIdentifier start
    rw [Text.symbols_of_ascii (by decide), Text.symbols_of_ascii ascii, wordEnd, if_neg outside,
      if_pos rfl, List.head?_cons, Option.any_some, if_pos start, wordEnd, if_pos inside,
      step (c := '.') (by decide), step ascii, ih]
  | case4 taken segment segments d rest noWord outside =>
    rw [Text.symbols_of_ascii (by decide), wordEnd, if_neg outside, if_pos rfl,
      Text.head?_symbols_any isAscii_startsIdentifier, List.head?_cons, Option.any_some,
      if_neg noWord]
    rfl
  | case5 taken segment segments outside => rfl
  | case6 taken segment segments c rest outside other =>
    obtain ⟨d, ds, same, alike⟩ := Text.exists_symbols_cons c rest
    have inside : inIdentifier d = inIdentifier c := alike _ isAscii_inIdentifier
    have pointed : (d == '.') = (c == '.') := alike _ (isAscii_beq (by decide))
    rw [same, wordEnd, if_neg (by rwa [inside]), if_neg (by simpa [other] using pointed)]
    rfl

theorem point_not_mem_of_isIdentifier {cs : List Char} (identifier : Text.isIdentifier cs = true) :
    '.' ∉ cs := by
  cases cs with
  | nil => cases identifier
  | cons c cs =>
    simp only [Text.isIdentifier, Bool.and_eq_true, List.all_eq_true] at identifier
    intro mem
    rcases List.mem_cons.1 mem with rfl | mem
    · exact absurd identifier.1 (by decide)
    · exact absurd (identifier.2 _ mem) (by decide)

/-- The segments of a path are what is between its points. -/
theorem splitOn_pointed {first : List Char} {others : List (List Char)}
    (identifiers : ∀ o ∈ first :: others, Text.isIdentifier o = true) :
    (first ++ Token.pointed others).splitOn '.' = first :: others := by
  have joined : first ++ Token.pointed others = ['.'].intercalate (first :: others) :=
    (intercalate_cons ['.'] first others).symm
  rw [joined, List.splitOn_intercalate '.'
    (fun o mem => point_not_mem_of_isIdentifier (identifiers o mem)) (List.cons_ne_nil _ _)]

theorem word_eq {c : Char} (start : startsIdentifier c = true)
    (split : source.toList = before ++ c :: rest) :
    word source (Text.byteLength before) =
      placed (Text.byteLength before) (Token.scanWord [c] [c] [] rest) := by
  have ascii := isAscii_startsIdentifier c start
  have inside := Text.inIdentifier_of_startsIdentifier start
  have stop : wordEnd (Text.byteLength before) ((bytes source).drop (Text.byteLength before)) =
      wordEnded (Text.byteLength before) (Token.scanWord [c] [c] [] rest) := by
    rw [drop_bytes split, Text.symbols_of_ascii ascii, wordEnd, if_pos inside, ← wordEnd_eq]
    simp [Char.utf8Size_eq_one_iff.2 ascii]
  rw [word, stop]
  rcases scanned : Token.scanWord [c] [c] [] rest with ⟨why, taken⟩ | s
  · obtain ⟨rfl, -⟩ := Token.scanWord_error scanned
    rfl
  · obtain ⟨lossless, -⟩ :=
      Token.scanToken_append ((Token.scanToken_of_startsIdentifier start rest).trans scanned)
    obtain ⟨more, others, all, identifiers, lexeme, token, -⟩ := Token.scanWord_sound scanned
    have first : Text.isIdentifier (c :: more) = true := by
      simpa [Text.isIdentifier, start] using all
    have segments : s.lexeme.splitOn '.' = (c :: more) :: others := by
      rw [lexeme]
      exact splitOn_pointed (List.forall_mem_cons.2 ⟨first, identifiers⟩)
    rw [← lossless] at split
    dsimp only [wordEnded]
    rw [← Text.byteLength_append, slice_eq split, placed, token, Text.byteLength_append]
    simp only [bind, Except.bind, segments]
    rfl

theorem unknown_eq {c : Char} (split : source.toList = before ++ c :: rest) :
    unknown source (Text.byteLength before) =
      fault (.unknownSymbol c) (Text.byteLength before) := by
  rw [unknown, slice_end split]
  rfl

/-! #### All tokens -/

theorem token_of_not_mark {d : Char} (other : d ∉ Token.marks) (offset : Nat) :
    token source d offset =
      if d.isDigit ∨ (d = '-' ∧ sees source Char.isDigit (offset + 1)) then number source offset
      else if startsIdentifier d then word source offset
      else unknown source offset := by
  simp only [Token.marks, List.mem_cons, List.not_mem_nil, or_false, not_or] at other
  simp [token, other]

theorem ascii_of_mem_marks {c : Char} (mark : c ∈ Token.marks) : c.val ≤ 127 := by
  revert mark
  simp only [Token.marks, List.mem_cons, List.not_mem_nil, or_false]
  rintro (rfl | rfl | rfl | rfl | rfl | rfl | rfl | rfl | rfl | rfl) <;> decide

/-- The token that starts with a character is read where the character starts. -/
theorem token_eq {c d : Char} (alike : ∀ p, Text.IsAscii p → p d = p c)
    (split : source.toList = before ++ c :: rest) :
    token source d (Text.byteLength before) =
      placed (Text.byteLength before) (Token.scanToken c rest) := by
  by_cases mark : c ∈ Token.marks
  · obtain rfl : d = c := by
      simpa using alike (· == c) (isAscii_beq (ascii_of_mem_marks mark))
    simp only [Token.marks, List.mem_cons, List.not_mem_nil, or_false] at mark
    have parenthesis : Text.byteLength ['('] = 1 ∧ Text.byteLength [')'] = 1 := by decide
    rcases mark with rfl | rfl | rfl | rfl | rfl | rfl | rfl | rfl | rfl | rfl
    · exact congrArg (fun n => Except.ok (Token.openParen, _ + n)) parenthesis.1.symm
    · exact congrArg (fun n => Except.ok (Token.closeParen, _ + n)) parenthesis.2.symm
    · exact pair_eq (by decide) (by decide) split _
    · exact pair_eq (by decide) (by decide) split _
    · exact pair_eq (by decide) (by decide) split _
    · exact pair_eq (by decide) (by decide) split _
    · exact order_eq (by decide) split _ _
    · exact order_eq (by decide) split _ _
    · exact text_eq (by decide) split
    · exact text_eq (by decide) split
  · have unmarked : d ∉ Token.marks := by
      have same := alike (fun c => c ∈ Token.marks) fun c mem =>
        ascii_of_mem_marks (by simpa using mem)
      simpa [mark] using same
    have digit : d.isDigit = c.isDigit := alike _ isAscii_isDigit
    have minus : d = '-' ↔ c = '-' := by
      simpa using alike (· == '-') (isAscii_beq (by decide))
    have start : startsIdentifier d = startsIdentifier c := alike _ isAscii_startsIdentifier
    have number : d.isDigit = true ∨ d = '-' ∧
        sees source Char.isDigit (Text.byteLength before + 1) = true ↔
          c.isDigit = true ∨ c = '-' ∧ rest.head?.any Char.isDigit = true := by
      rw [digit, minus]
      refine or_congr_right (and_congr_right ?_)
      rintro rfl
      rw [sees_next (c := '-') (by decide) isAscii_isDigit split]
    rw [token_of_not_mark unmarked, Token.scanToken_of_not_mark mark, start]
    by_cases starts : c.isDigit = true ∨ c = '-' ∧ rest.head?.any Char.isDigit = true
    · rw [if_pos (number.2 starts), if_pos starts, number_eq starts split]
    · rw [if_neg (mt number.1 starts), if_neg starts]
      by_cases word : startsIdentifier c = true
      · rw [if_pos word, if_pos word, word_eq word split]
      · rw [if_neg word, if_neg word, unknown_eq split]
        rfl

theorem isAscii_isBlank : Text.IsAscii isBlank := by
  intro c blank
  simp only [isBlank, Bool.or_eq_true, beq_iff_eq] at blank
  rcases blank with ((rfl | rfl) | rfl) | rfl <;> decide

theorem tokensFrom_of_some {d : Char} {offset : Nat} (next : symbol? source offset = some d)
    (done : List Located) :
    tokensFrom source done offset =
      if isBlank d then tokensFrom source done (offset + 1)
      else
        match token source d offset with
        | .error halt => .error halt
        | .ok (t, stop) =>
          if offset < stop then tokensFrom source (⟨t, offset⟩ :: done) stop
          else .error .endless := by
  rw [tokensFrom]
  split
  · next ended => cases next.symm.trans ended
  · next d' same =>
    obtain rfl := Option.some.inj (next.symm.trans same)
    rfl

theorem tokensFrom_eq {done : List Located} {offset : Nat} {cs : List Char}
    (here : offset = Text.byteLength before) (split : source.toList = before ++ cs) :
    tokensFrom source done offset = (Token.scanAll done offset cs).mapError Halt.error := by
  have next {c d : Char} {rest ds : List Char} {before : List Char}
      (split : source.toList = before ++ c :: rest) (first : symbols (c :: rest) = d :: ds) :
      symbol? source (Text.byteLength before) = some d := by
    rw [symbol?_eq_head? split, first, List.head?_cons]
  fun_induction Token.scanAll done offset cs generalizing before with
  | case1 done offset =>
    have ended : symbol? source offset = none := by
      rw [here, symbol?_eq_head? split, Text.symbols_nil, List.head?_nil]
    rw [tokensFrom]
    split
    · rfl
    · next more => cases ended.symm.trans more
  | case2 done offset c rest blank ih =>
    have ascii := isAscii_isBlank c blank
    have size : Text.byteLength before + c.utf8Size = Text.byteLength (before ++ [c]) := by
      rw [byteLength_concat ascii, Char.utf8Size_eq_one_iff.2 ascii]
    subst here
    rw [tokensFrom_of_some (next split (Text.symbols_of_ascii ascii rest)), if_pos blank,
      ← ih size (split_concat split), Char.utf8Size_eq_one_iff.2 ascii]
  | case3 done offset c rest blank why taken failed =>
    obtain ⟨d, ds, first, alike⟩ := Text.exists_symbols_cons c rest
    subst here
    rw [tokensFrom_of_some (next split first), alike _ isAscii_isBlank, if_neg blank,
      token_eq alike split, failed]
    rfl
  | case4 done offset c rest blank s scanned ih =>
    obtain ⟨d, ds, first, alike⟩ := Text.exists_symbols_cons c rest
    obtain ⟨lossless, taken⟩ := Token.scanToken_append scanned
    have progress := Text.byteLength_pos taken
    have later : source.toList = (before ++ s.lexeme) ++ s.rest := by
      rw [split, ← lossless, List.append_assoc]
    subst here
    rw [tokensFrom_of_some (next split first), alike _ isAscii_isBlank, if_neg blank,
      token_eq alike split, scanned, placed]
    dsimp only
    rw [if_pos (Nat.lt_add_of_pos_right progress), ih (Text.byteLength_append ..).symm later]

/-- Reading a clause by its bytes slices it between characters only and always goes on, and comes to
what reading it by its characters does. -/
theorem lex_eq (source : String) : lex source = (Token.ofClause source).mapError Halt.error := by
  have read : tokensFrom source [] 0 = (Token.scanAll [] 0 source.toList).mapError Halt.error :=
    tokensFrom_eq Text.byteLength_nil.symm (List.nil_append _).symm
  rw [lex, Token.ofClause, read]
  rcases Token.scanAll [] 0 source.toList with e | stream
  · rfl
  · show (if stream.tokens.isEmpty then _ else _) = Except.mapError _ (if _ then _ else _)
    split <;> rfl

end

end HalfBinary.Bytewise
