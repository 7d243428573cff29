import HalfBinary.Proofs.PathTexts

/-!
# Literals read again

A literal that is rendered and lexed is the one token of its clause, and nothing of its value is lost
(`rereads`). The text between quotes may stand in single quotes as well: what has to be escaped is
the quote that is used, never the other one.
-/

namespace HalfBinary

namespace Literal

/-! ### Texts in quotes -/

/-- A character between two quotes: escaped as between double quotes, but for the quotes themselves,
of which the one that is used is escaped. -/
def escapeWithin (quote c : Char) : List Char :=
  if c = quote then ['\\', c] else if c = '"' then [c] else escapeChar c

/-- A text as it stands in a clause between two quotes. -/
def quoted (quote : Char) (text : String) : String :=
  String.ofList (quote :: text.toList.flatMap (escapeWithin quote) ++ [quote])

theorem escapeWithin_doubleQuote (c : Char) : escapeWithin '"' c = escapeChar c := by
  by_cases same : c = '"'
  · rw [escapeWithin, if_pos same, same]
    rfl
  · rw [escapeWithin, if_neg same, if_neg same]

example : quoted '\'' "it's \"so\"" = "'it\\'s \"so\"'" := by decide

/-- Texts are rendered in double quotes. -/
theorem render_text (text : String) : (Literal.text text).render = quoted '"' text := by
  rw [quoted, funext escapeWithin_doubleQuote]
  rfl

theorem unescape?_of_mark {quote : Char} (mark : quote = '"' ∨ quote = '\'') :
    Token.unescape? quote = some quote := by
  rcases mark with rfl | rfl <;> rfl

theorem quoted_escapeWithin {quote : Char} (mark : quote = '"' ∨ quote = '\'') (cs : List Char) :
    Token.Quoted quote (cs.flatMap (escapeWithin quote)) cs := by
  induction cs with
  | nil => exact .nil
  | cons c cs ih =>
    rw [List.flatMap_cons, escapeWithin]
    by_cases same : c = quote
    · subst same
      rw [if_pos rfl]
      exact .escape (unescape?_of_mark mark) ih
    rw [if_neg same]
    by_cases double : c = '"'
    · subst double
      rw [if_pos rfl]
      exact .plain same (by decide) ih
    rw [if_neg double]
    unfold escapeChar
    split
    · contradiction
    · exact .escape rfl ih
    · exact .escape rfl ih
    · exact .escape rfl ih
    · exact .escape rfl ih
    · next backslash _ _ _ => exact .plain same backslash ih

theorem ofClause_quoted {quote : Char} (mark : quote = '"' ∨ quote = '\'') (text : String) :
    Token.ofClause (quoted quote text) =
      .ok ⟨[⟨.literal (.text text), 0⟩], (quoted quote text).utf8ByteSize⟩ := by
  have spelled := Token.Spelling.text mark (quoted_escapeWithin mark text.toList)
  have written : (quoted quote text).toList =
      quote :: text.toList.flatMap (escapeWithin quote) ++ [quote] := String.toList_ofList
  rw [String.ofList_toList, ← written] at spelled
  exact Token.ofClause_of_spelling spelled

/-! ### Literals in clauses -/

theorem inRange_of_mem {source : String} {stream : TokenStream}
    {l : Literal} (lexed : Token.ofClause source = .ok stream)
    (mem : Token.literal l ∈ stream.words) : l.InRange := by
  obtain ⟨lexeme, more, spelled⟩ := Token.exists_spelling_of_mem lexed mem
  exact inRange_of_spelling spelled rfl

theorem ofClause_render {l : Literal} (range : l.InRange) :
    Token.ofClause l.render = .ok ⟨[⟨.literal l.reread, 0⟩], l.render.utf8ByteSize⟩ := by
  obtain ⟨more, spelled⟩ := spelling_chars range
  have written : l.render.toList = l.chars := String.toList_ofList
  rw [← written] at spelled
  exact Token.ofClause_of_spelling spelled

theorem render_reread (l : Literal) : l.reread.render = l.render := by
  rw [render, chars_reread, render]

theorem isNumeric_of_toRat? {l : Literal} {q : ℚ} (value : l.toRat? = some q) :
    l.isNumeric = true := by
  cases l with
  | integer _ | decimal _ => rfl
  | null | boolean _ | text _ => cases value

theorem toRat?_reread (d : Decimal) : (decimal d).reread.toRat? = some d.toRat := by
  rcases same_reread (decimal d) with same | ⟨q, value, value'⟩
  · rw [← same]
    rfl
  · rw [value', ← value]
    rfl

theorem reread_of_not_decimal {l : Literal} (other : ∀ d, l ≠ decimal d) : l.reread = l := by
  cases l with
  | null | boolean _ | integer _ | text _ => rfl
  | decimal d => exact absurd rfl (other d)

/-- What a clause holds is in range. The text of a literal in range is one token, that of a literal
with the same text: the literal itself, or for a decimal a number of the same value. A text in
single quotes is one token as well. -/
theorem rereads :
    (∀ (source : String) (stream : TokenStream) (l : Literal),
      Token.ofClause source = .ok stream → Token.literal l ∈ stream.words → l.InRange) ∧
    (∀ l : Literal, l.InRange → ∃ l' : Literal,
      Token.ofClause l.render = .ok ⟨[⟨.literal l', 0⟩], l.render.utf8ByteSize⟩ ∧
        l'.render = l.render ∧ ((∀ d, l ≠ decimal d) → l' = l) ∧
        ∀ d, l = decimal d → l'.isNumeric = true ∧ l'.toRat? = some d.toRat) ∧
    ∀ text : String, Token.ofClause (quoted '\'' text) =
      .ok ⟨[⟨.literal (.text text), 0⟩], (quoted '\'' text).utf8ByteSize⟩ := by
  refine ⟨fun _ _ _ => inRange_of_mem, fun l range => ?_, ofClause_quoted (.inr rfl)⟩
  refine ⟨l.reread, ofClause_render range, render_reread l, reread_of_not_decimal, ?_⟩
  rintro d rfl
  have value := toRat?_reread d
  exact ⟨isNumeric_of_toRat? value, value⟩

/-- Five tens of thousands are written out, and read as a whole number. -/
theorem rereads_fifty_thousand :
    (decimal ⟨50, -3⟩).InRange ∧ ∃ l' : Literal,
      Token.ofClause "50000" = .ok ⟨[⟨.literal l', 0⟩], 5⟩ ∧ l'.InRange ∧ l'.render = "50000" ∧
        l'.isNumeric = true ∧ l'.toRat? = some (Decimal.toRat ⟨50, -3⟩) := by
  have range : (decimal ⟨50, -3⟩).InRange := by
    constructor <;> decide
  have text : (decimal ⟨50, -3⟩).render = "50000" := by decide +kernel
  obtain ⟨l', lexed, same, -, value⟩ := rereads.2.1 _ range
  rw [text] at lexed same
  have inside := rereads.1 _ _ l' lexed List.mem_cons_self
  exact ⟨range, l', lexed, inside, same, value _ rfl⟩

end Literal

end HalfBinary
