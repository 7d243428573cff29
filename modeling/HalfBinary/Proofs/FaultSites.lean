import HalfBinary.Proofs.Segments

/-!
# Where lexing stops

A clause that is not lexed has legible pieces up to a token that goes wrong. Each kind of fault has
its place in that token, and the reported position is that of the first character there
(`scanAll_fault`).
-/

namespace HalfBinary

open Text (inIdentifier startsIdentifier)
open Token (Quoted isBlank unescape?)

/-! ### Places of faults -/

namespace Token

/-- The operators of two characters that are none without the second. -/
def twins : List (Char × Char) := [('=', '='), ('!', '='), ('&', '&'), ('|', '|')]

/-- A number starts here: with a digit, or with a minus sign and a digit. -/
def StartsNumber (c : Char) (rest : List Char) : Prop :=
  c.isDigit = true ∨ c = '-' ∧ rest.head?.any Char.isDigit = true

end Token

/-- A fault is at the first of some characters, after those of its token that have been taken. -/
inductive LexFault.At : LexFault → List Char → List Char → Prop
  /-- No token starts with the symbol. -/
  | unknownSymbol {c : Char} {rest : List Char} (noMark : c ∉ Token.marks)
      (noNumber : ¬ Token.StartsNumber c rest) (noWord : startsIdentifier c = false) :
      At (.unknownSymbol c) [] (c :: rest)
  /-- The first character of an operator stands without the second. -/
  | incompleteOperator {first second : Char} (twin : (first, second) ∈ Token.twins)
      {rest : List Char} (lone : rest.head? ≠ some second) :
      At (.incompleteOperator (String.ofList [first, second])) [] (first :: rest)
  /-- After a path comes a point, but no identifier. -/
  | emptyPathSegment {path : List Char} (word : IsWord path) {rest : List Char}
      (noWord : rest.head?.any startsIdentifier = false) : At .emptyPathSegment path ('.' :: rest)
  /-- After the characters of a string comes a backslash that escapes no character. -/
  | invalidEscape {quote : Char} (mark : quote = '"' ∨ quote = '\'') {body text : List Char}
      (quoted : Quoted quote body text) {e : Char} (unknown : unescape? e = none)
      (rest : List Char) : At (.invalidEscape e) (quote :: body) ('\\' :: e :: rest)
  /-- A quote is not closed. -/
  | unterminatedString {quote : Char} (mark : quote = '"' ∨ quote = '\'') {rest : List Char}
      (unclosed : ∀ body text after, Quoted quote body text → rest ≠ body ++ quote :: after) :
      At .unterminatedString [] (quote :: rest)
  /-- A number that lacks digits, or is too long, starts here. -/
  | invalidNumber {c : Char} {rest lexeme after : List Char} (start : Token.StartsNumber c rest)
      (split : c :: rest = lexeme ++ after) :
      At (.invalidNumber (String.ofList lexeme)) [] (c :: rest)

theorem LexFault.At.here_ne_nil {fault : LexFault} {taken here : List Char}
    (found : fault.At taken here) : here ≠ [] := by
  cases found <;> exact List.cons_ne_nil _ _

/-! ### Faults of tokens -/

namespace Numeral

theorem scanExponent_error {n : Numeral} {taken cs lexeme : List Char}
    (h : scanExponent n taken cs = .error lexeme) :
    ∃ more after, lexeme = taken ++ more ∧ cs = more ++ after := by
  unfold scanExponent at h
  split at h
  · cases h
  · next c rest =>
    split at h
    · rcases signed : scanSign ['+', '-'] rest with ⟨sign, rest'⟩
      rw [signed] at h
      dsimp only at h
      split at h
      · cases h
        exact ⟨c :: sign, rest', rfl, congrArg (c :: ·) (scanSign_eq signed).2⟩
      · cases h
    · cases h

theorem scanFraction_error {n : Numeral} {taken cs lexeme : List Char}
    (h : scanFraction n taken cs = .error lexeme) :
    ∃ more after, lexeme = taken ++ more ∧ cs = more ++ after := by
  unfold scanFraction at h
  split at h
  · cases h
  · next c rest =>
    split at h
    · next point =>
      dsimp only at h
      split at h
      · cases h
        exact ⟨['.'], rest, rfl, by rw [point]; rfl⟩
      · obtain ⟨more, after, rfl, digits⟩ := scanExponent_error h
        refine ⟨'.' :: rest.takeWhile Char.isDigit ++ more, after, by simp, ?_⟩
        rw [point, List.append_assoc, ← digits, List.cons_append, List.takeWhile_append_dropWhile]
    · exact scanExponent_error h

/-- The characters that a failed scan has taken are those in front. -/
theorem scan_error {cs lexeme : List Char} (h : scan cs = .error lexeme) :
    ∃ after, cs = lexeme ++ after := by
  rw [scan] at h
  rcases signed : scanSign ['-'] cs with ⟨sign, rest⟩
  simp only [signed] at h
  obtain ⟨more, after, rfl, digits⟩ := scanFraction_error h
  refine ⟨after, ?_⟩
  rw [(scanSign_eq signed).2, List.append_assoc, List.append_assoc, ← digits,
    List.takeWhile_append_dropWhile]

end Numeral

namespace Token

theorem scanPair_error {token : Token} {first second : Char} {cs taken : List Char}
    {fault : LexFault} (h : scanPair token first second cs = .error (fault, taken)) :
    fault = .incompleteOperator (String.ofList [first, second]) ∧ taken = [] ∧
      cs.head? ≠ some second := by
  unfold scanPair at h
  split at h
  · next d rest =>
    split at h
    · cases h
    · next other =>
      cases h
      exact ⟨rfl, rfl, fun same => other (Option.some.inj same)⟩
  · cases h
    exact ⟨rfl, rfl, nofun⟩

theorem scanText_error {quote : Char} {taken value cs before : List Char} {fault : LexFault}
    (h : scanText quote taken value cs = .error (fault, before)) :
    fault = .unterminatedString ∧ before = [] ∨
      ∃ body text e rest, fault = .invalidEscape e ∧ unescape? e = none ∧ Quoted quote body text ∧
        before = taken.reverse ++ body ∧ cs = body ++ '\\' :: e :: rest := by
  fun_induction scanText quote taken value cs with
  | case1 =>
    cases h
    exact .inl ⟨rfl, rfl⟩
  | case2 => cases h
  | case3 =>
    cases h
    exact .inl ⟨rfl, rfl⟩
  | case4 taken value e rest d escaped other ih =>
    rcases ih h with unclosed | ⟨body, text, e', rest', rfl, unknown, quoted, rfl, rfl⟩
    · exact .inl unclosed
    · exact .inr ⟨'\\' :: e :: body, d :: text, e', rest', rfl, unknown, .escape escaped quoted,
        by simp, rfl⟩
  | case5 taken value e rest unknown other =>
    cases h
    exact .inr ⟨[], [], e, rest, rfl, unknown, .nil, by simp, rfl⟩
  | case6 taken value c rest other unescaped ih =>
    rcases ih h with unclosed | ⟨body, text, e', rest', rfl, unknown, quoted, rfl, rfl⟩
    · exact .inl unclosed
    · exact .inr ⟨c :: body, c :: text, e', rest', rfl, unknown, .plain other unescaped quoted,
        by simp, rfl⟩

/-- A word goes wrong at a point, and is a word up to there. -/
theorem scanWord_error {taken segment cs before : List Char} {segments : List String}
    {fault : LexFault} (h : scanWord taken segment segments cs = .error (fault, before)) :
    fault = .emptyPathSegment ∧ ∃ more rest, cs = more ++ '.' :: rest ∧
      before = taken.reverse ++ more ∧ rest.head?.any startsIdentifier = false ∧
      ∃ token, scanWord taken segment segments more = .ok ⟨token, before, []⟩ := by
  fun_induction scanWord taken segment segments cs with
  | case1 => cases h
  | case2 taken segment segments c rest inside ih =>
    obtain ⟨rfl, more, rest', rfl, rfl, noWord, token, scanned⟩ := ih h
    refine ⟨rfl, c :: more, rest', rfl, by simp, noWord, token, ?_⟩
    rw [scanWord.eq_def]
    simp only [inside, if_true]
    exact scanned
  | case3 taken segment segments d rest start outside ih =>
    obtain ⟨rfl, more, rest', rfl, rfl, noWord, token, scanned⟩ := ih h
    refine ⟨rfl, '.' :: d :: more, rest', rfl, by simp, noWord, token, ?_⟩
    rw [scanWord.eq_def]
    simp only [outside, start, if_true]
    exact scanned
  | case4 taken segment segments d rest noWord outside =>
    cases h
    exact ⟨rfl, [], d :: rest, rfl, by simp, by simpa using noWord, _, rfl⟩
  | case5 taken segment segments outside =>
    cases h
    exact ⟨rfl, [], [], rfl, by simp, rfl, _, rfl⟩
  | case6 => cases h

theorem at_of_scanPair (token : Token) {first : Char} (second : Char) {rest taken : List Char}
    {fault : LexFault} (twin : (first, second) ∈ twins)
    (h : scanPair token first second rest = .error (fault, taken)) :
    ∃ here, first :: rest = taken ++ here ∧ fault.At taken here := by
  obtain ⟨rfl, rfl, lone⟩ := scanPair_error h
  exact ⟨_, rfl, .incompleteOperator twin lone⟩

theorem at_of_scanText {quote : Char} {rest taken : List Char} {fault : LexFault}
    (mark : quote = '"' ∨ quote = '\'')
    (h : scanText quote [quote] [] rest = .error (fault, taken)) :
    ∃ here, quote :: rest = taken ++ here ∧ fault.At taken here := by
  rcases scanText_error h with ⟨rfl, rfl⟩ | ⟨body, text, e, after, rfl, unknown, quoted, rfl, rfl⟩
  · refine ⟨_, rfl, .unterminatedString mark ?_⟩
    rintro body text after quoted rfl
    rw [scanText_complete quoted (by rcases mark with rfl | rfl <;> decide)] at h
    cases h
  · exact ⟨'\\' :: e :: after, rfl, .invalidEscape mark quoted unknown after⟩

theorem at_of_scanNumber {c : Char} {rest taken : List Char} {fault : LexFault}
    (start : StartsNumber c rest) (h : scanNumber (c :: rest) = .error (fault, taken)) :
    ∃ here, c :: rest = taken ++ here ∧ fault.At taken here := by
  rw [scanNumber] at h
  split at h
  · next lexeme failed =>
    obtain ⟨after, split⟩ := Numeral.scan_error failed
    cases h
    exact ⟨_, rfl, .invalidNumber start split⟩
  · next s scanned =>
    split at h
    · cases h
    · cases h
      exact ⟨_, rfl, .invalidNumber start (Numeral.scan_append scanned).symm⟩

theorem at_of_scanWord {c : Char} {rest taken : List Char} {fault : LexFault}
    (start : startsIdentifier c = true) (h : scanWord [c] [c] [] rest = .error (fault, taken)) :
    ∃ here, c :: rest = taken ++ here ∧ fault.At taken here := by
  obtain ⟨rfl, more, after, rfl, rfl, noWord, token, scanned⟩ := scanWord_error h
  refine ⟨'.' :: after, rfl, .emptyPathSegment ?_ noWord⟩
  obtain ⟨inside, others, all, identifiers, lexeme, -, -⟩ := scanWord_sound scanned
  have first : Text.isIdentifier (c :: inside) = true := by
    simpa [Text.isIdentifier, start] using all
  dsimp only at lexeme
  rw [lexeme]
  exact ⟨_, isPath_cons first identifiers⟩

/-- A token that fails is taken up to its fault. -/
theorem at_of_scanToken {c : Char} {rest taken : List Char} {fault : LexFault}
    (h : scanToken c rest = .error (fault, taken)) :
    ∃ here, c :: rest = taken ++ here ∧ fault.At taken here := by
  by_cases mark : c ∈ marks
  · simp only [marks, List.mem_cons, List.not_mem_nil, or_false] at mark
    rcases mark with rfl | rfl | rfl | rfl | rfl | rfl | rfl | rfl | rfl | rfl
    · cases h
    · cases h
    · exact at_of_scanPair (.operator .eq) '=' (by decide) h
    · exact at_of_scanPair (.operator .ne) '=' (by decide) h
    · exact at_of_scanPair (.connective .and) '&' (by decide) h
    · exact at_of_scanPair (.connective .or) '|' (by decide) h
    · cases h
    · cases h
    · exact at_of_scanText (.inl rfl) h
    · exact at_of_scanText (.inr rfl) h
  · rw [scanToken_of_not_mark mark] at h
    split at h
    · next number => exact at_of_scanNumber (by simpa [StartsNumber] using number) h
    · next noNumber =>
      split at h
      · next start => exact at_of_scanWord start h
      · next noWord =>
        cases h
        exact ⟨_, rfl, .unknownSymbol mark noNumber (by simpa using noWord)⟩

end Token

/-! ### Whole clauses -/

/-- Blanks and tokens are read in front of some characters. -/
def Piece.ReadBefore (rest : List Char) : List Piece → Prop
  | [] => True
  | blank c :: ps => isBlank c = true ∧ ReadBefore rest ps
  | word token lexeme :: ps => token.Reads lexeme (text ps ++ rest) ∧ ReadBefore rest ps

/-- A text that is not lexed is read up to a token that goes wrong, and the fault is reported where
it is in that token. -/
theorem Token.scanAll_fault {done : List Located} {offset position : Nat} {cs : List Char}
    {fault : LexFault} (h : scanAll done offset cs = .error (.lex fault position)) :
    ∃ ps taken here, cs = Piece.text ps ++ (taken ++ here) ∧ Piece.ReadBefore (taken ++ here) ps ∧
      fault.At taken here ∧ position = offset + Text.byteLength (Piece.text ps ++ taken) := by
  fun_induction scanAll done offset cs with
  | case1 => cases h
  | case2 done offset c rest blank ih =>
    obtain ⟨ps, taken, here, rfl, read, found, rfl⟩ := ih h
    exact ⟨.blank c :: ps, taken, here, rfl, ⟨blank, read⟩, found, by simp [Nat.add_assoc]⟩
  | case3 done offset c rest blank why before failed =>
    cases h
    obtain ⟨here, split, found⟩ := at_of_scanToken failed
    exact ⟨[], _, here, split, trivial, found, rfl⟩
  | case4 done offset c rest blank s scanned ih =>
    obtain ⟨ps, taken, here, split, read, found, rfl⟩ := ih h
    obtain ⟨lossless, more, spelled, stops⟩ := scanToken_eq_ok_iff.1 scanned
    refine ⟨.word s.token s.lexeme :: ps, taken, here, ?_, ⟨?_, read⟩, found, ?_⟩
    · rw [Piece.text_word, List.append_assoc, ← split, lossless]
    · rw [← split]
      exact spelled.reads stops
    · simp [Nat.add_assoc]

end HalfBinary
