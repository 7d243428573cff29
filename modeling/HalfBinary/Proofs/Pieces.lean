import HalfBinary.Proofs.Grammar
import HalfBinary.Proofs.Spelling

/-!
# The pieces of a clause

A clause that is lexed is a sequence of pieces: blanks, and spellings of tokens that the next
character does not go on with. Every such sequence is lexed to its tokens (`ofClause_eq_ok_iff`).
-/

namespace HalfBinary

open Token (Spelling isBlank)

/-- A blank, or a token with the characters that it is written with. -/
inductive Piece where
  | blank (c : Char)
  | word (token : Token) (lexeme : List Char)
  deriving DecidableEq, Repr

namespace Piece

def chars : Piece → List Char
  | blank c => [c]
  | word _ lexeme => lexeme

def token? : Piece → Option Token
  | blank _ => none
  | word token _ => some token

/-- The text that pieces are written as. -/
def text (ps : List Piece) : List Char := ps.flatMap chars

/-- The tokens of pieces. -/
def words (ps : List Piece) : List Token := ps.filterMap token?

/-- The tokens of pieces that start at a byte position. -/
def located (offset : Nat) : List Piece → List Located
  | [] => []
  | blank c :: ps => located (offset + c.utf8Size) ps
  | word token lexeme :: ps => ⟨token, offset⟩ :: located (offset + Text.byteLength lexeme) ps

/-- Every token is spelled, and the next character does not go on with it. -/
def Legible : List Piece → Prop
  | [] => True
  | blank c :: ps => isBlank c = true ∧ Legible ps
  | word token lexeme :: ps =>
    (∃ more, Spelling lexeme token more ∧ Stops more (text ps)) ∧ Legible ps

@[simp] theorem text_nil : text [] = [] := rfl

@[simp] theorem text_blank (c : Char) (ps : List Piece) : text (blank c :: ps) = c :: text ps := rfl

@[simp] theorem text_word (token : Token) (lexeme : List Char) (ps : List Piece) :
    text (word token lexeme :: ps) = lexeme ++ text ps := rfl

@[simp] theorem text_append (ps qs : List Piece) : text (ps ++ qs) = text ps ++ text qs :=
  List.flatMap_append

@[simp] theorem words_nil : words [] = [] := rfl

@[simp] theorem words_blank (c : Char) (ps : List Piece) : words (blank c :: ps) = words ps := rfl

@[simp] theorem words_word (token : Token) (lexeme : List Char) (ps : List Piece) :
    words (word token lexeme :: ps) = token :: words ps := rfl

@[simp] theorem words_append (ps qs : List Piece) : words (ps ++ qs) = words ps ++ words qs :=
  List.filterMap_append

theorem map_token_located (offset : Nat) (ps : List Piece) :
    (located offset ps).map (·.token) = words ps := by
  induction ps generalizing offset with
  | nil => rfl
  | cons p ps ih =>
    cases p with
    | blank c => exact ih _
    | word token lexeme => exact congrArg (token :: ·) (ih _)

theorem length_located (offset : Nat) (ps : List Piece) :
    (located offset ps).length = (words ps).length := by
  rw [← map_token_located offset, List.length_map]

theorem located_append (offset : Nat) (ps qs : List Piece) :
    located offset (ps ++ qs) =
      located offset ps ++ located (offset + Text.byteLength (text ps)) qs := by
  induction ps generalizing offset with
  | nil => rfl
  | cons p ps ih => cases p <;> simp [located, ih, Nat.add_assoc]

theorem le_offset_of_mem_located {offset : Nat} {ps : List Piece} {l : Located}
    (mem : l ∈ located offset ps) : offset ≤ l.offset := by
  induction ps generalizing offset with
  | nil => cases mem
  | cons p ps ih =>
    cases p with
    | blank c => exact Nat.le_trans (Nat.le_add_right _ _) (ih mem)
    | word token lexeme =>
      rcases List.mem_cons.1 mem with rfl | mem
      · exact Nat.le_refl _
      · exact Nat.le_trans (Nat.le_add_right _ _) (ih mem)

/-! ### Blanks -/

@[simp] theorem text_map_blank (cs : List Char) : text (cs.map blank) = cs := by
  simp [text, List.flatMap_map, chars]

@[simp] theorem words_map_blank (cs : List Char) : words (cs.map blank) = [] := by
  simp [words, List.filterMap_map, Function.comp_def, token?]

theorem legible_map_blank_append {cs : List Char} {ps : List Piece} :
    Legible (cs.map blank ++ ps) ↔ (∀ c ∈ cs, isBlank c = true) ∧ Legible ps := by
  induction cs with
  | nil => simp
  | cons c cs ih => simp [Legible, ih, and_assoc]

/-- Pieces without a token are blanks. -/
theorem eq_map_blank_of_words_eq_nil {ps : List Piece} (none : words ps = []) :
    ps = (text ps).map blank := by
  induction ps with
  | nil => rfl
  | cons p ps ih =>
    cases p with
    | blank c => exact congrArg (blank c :: ·) (ih none)
    | word token lexeme => cases none

/-! ### Legible pieces -/

theorem Legible.of_append_right {ps qs : List Piece} (legible : Legible (ps ++ qs)) :
    Legible qs := by
  induction ps with
  | nil => exact legible
  | cons p ps ih =>
    cases p with
    | blank c | word token lexeme => exact ih legible.2

theorem Legible.of_append_left {ps qs : List Piece} (legible : Legible (ps ++ qs)) :
    Legible ps := by
  induction ps with
  | nil => trivial
  | cons p ps ih =>
    cases p with
    | blank c => exact ⟨legible.1, ih legible.2⟩
    | word token lexeme =>
      obtain ⟨⟨more, spelled, stops⟩, legible⟩ := legible
      have split : Stops more (text ps ++ text qs) := text_append ps qs ▸ stops
      exact ⟨⟨more, spelled, split.of_append⟩, ih legible⟩

theorem Legible.append {ps qs : List Piece} (legible : Legible ps) (legible' : Legible qs)
    (pause : ∀ c ∈ (text qs).head?, isBlank c = true) : Legible (ps ++ qs) := by
  induction ps with
  | nil => exact legible'
  | cons p ps ih =>
    cases p with
    | blank c => exact ⟨legible.1, ih legible.2⟩
    | word token lexeme =>
      obtain ⟨⟨more, spelled, stops⟩, legible⟩ := legible
      have joined : Stops more (text ps ++ text qs) := spelled.stops_append stops pause
      exact ⟨⟨more, spelled, (text_append ps qs).symm ▸ joined⟩, ih legible⟩

theorem Legible.eq_blank_cons {ps : List Piece} (legible : Legible ps) {c : Char} {rest : List Char}
    (blank : isBlank c = true) (written : text ps = c :: rest) :
    ∃ qs, ps = .blank c :: qs ∧ Legible qs ∧ text qs = rest := by
  rcases ps with _ | ⟨_ | ⟨token, lexeme⟩, ps⟩
  · cases written
  · cases written
    exact ⟨ps, rfl, legible.2, rfl⟩
  · obtain ⟨⟨more, spelled, -⟩, -⟩ := legible
    obtain ⟨d, tail, rfl⟩ := List.exists_cons_of_ne_nil spelled.ne_nil
    cases written
    rw [spelled.not_isBlank] at blank
    cases blank

theorem Legible.eq_word_cons {ps : List Piece} (legible : Legible ps) {token : Token}
    {lexeme rest : List Char} {more : Char → Bool} (spelled : Spelling lexeme token more)
    (stops : Stops more rest) (written : text ps = lexeme ++ rest) :
    ∃ qs, ps = .word token lexeme :: qs ∧ Legible qs ∧ text qs = rest := by
  rcases ps with _ | ⟨c | ⟨token', lexeme'⟩, ps⟩
  · exact absurd (List.append_eq_nil_iff.1 written.symm).1 spelled.ne_nil
  · obtain ⟨d, tail, rfl⟩ := List.exists_cons_of_ne_nil spelled.ne_nil
    obtain ⟨rfl, -⟩ := List.cons.inj written
    have blank := legible.1
    rw [spelled.not_isBlank] at blank
    cases blank
  · obtain ⟨⟨more', spelled', stops'⟩, legible⟩ := legible
    obtain ⟨rfl, rfl, rfl⟩ := spelled'.unique stops' spelled stops written
    exact ⟨ps, rfl, legible, rfl⟩

/-- There is one way to cut a text into pieces. -/
theorem Legible.eq_of_text_eq {ps qs : List Piece} (legible : Legible ps) (legible' : Legible qs)
    (same : text ps = text qs) : ps = qs := by
  induction qs generalizing ps with
  | nil =>
    rcases ps with _ | ⟨_ | ⟨token, lexeme⟩, ps⟩
    · rfl
    · cases same
    · obtain ⟨⟨more, spelled, -⟩, -⟩ := legible
      exact absurd (List.append_eq_nil_iff.1 same).1 spelled.ne_nil
  | cons q qs ih =>
    cases q with
    | blank c =>
      obtain ⟨ps, rfl, legible, same⟩ := legible.eq_blank_cons legible'.1 same
      rw [ih legible legible'.2 same]
    | word token lexeme =>
      obtain ⟨⟨more, spelled, stops⟩, legible'⟩ := legible'
      obtain ⟨ps, rfl, legible, same⟩ := legible.eq_word_cons spelled stops same
      rw [ih legible legible' same]

/-- Each token starts to the right of the one before it, and the text ends after the last. -/
theorem Legible.pairwise_offset {ps : List Piece} (legible : Legible ps) (offset : Nat) :
    ((located offset ps).map (·.offset) ++ [offset + Text.byteLength (text ps)]).Pairwise
      (· < ·) := by
  induction ps generalizing offset with
  | nil => exact List.pairwise_singleton _ _
  | cons p ps ih =>
    cases p with
    | blank c => simpa [located, Nat.add_assoc] using ih legible.2 (offset + c.utf8Size)
    | word token lexeme =>
      obtain ⟨⟨more, spelled, -⟩, legible⟩ := legible
      have taken := Text.byteLength_pos spelled.ne_nil
      have later := ih legible (offset + Text.byteLength lexeme)
      rw [Nat.add_assoc, ← Text.byteLength_append] at later
      refine List.pairwise_cons.2 ⟨fun position mem => ?_, later⟩
      rcases List.mem_append.1 mem with mem | mem
      · obtain ⟨l, among, rfl⟩ := List.mem_map.1 mem
        have := le_offset_of_mem_located among
        dsimp only
        omega
      · rw [List.mem_singleton.1 mem, text_word, Text.byteLength_append]
        dsimp only
        omega

end Piece

namespace Token

open Piece (located text words Legible)

theorem scanAll_sound {done : List Located} {offset : Nat} {cs : List Char} {stream : TokenStream}
    (h : scanAll done offset cs = .ok stream) :
    ∃ ps, Legible ps ∧ text ps = cs ∧
      stream = ⟨done.reverse ++ located offset ps, offset + Text.byteLength cs⟩ := by
  fun_induction scanAll done offset cs with
  | case1 done offset =>
    cases h
    exact ⟨[], trivial, rfl, by simp [located]⟩
  | case2 done offset c rest blank ih =>
    obtain ⟨ps, legible, rfl, rfl⟩ := ih h
    refine ⟨.blank c :: ps, ⟨blank, legible⟩, rfl, ?_⟩
    simp [located, Nat.add_assoc]
  | case3 => cases h
  | case4 done offset c rest blank s scanned ih =>
    obtain ⟨ps, legible, same, rfl⟩ := ih h
    obtain ⟨lossless, more, spelled, stops⟩ := scanToken_eq_ok_iff.1 scanned
    refine ⟨.word s.token s.lexeme :: ps, ⟨⟨more, spelled, same ▸ stops⟩, legible⟩, ?_, ?_⟩
    · rw [Piece.text_word, same, lossless]
    · rw [← lossless]
      simp [located, Nat.add_assoc]

/-- The scan of pieces comes to what follows them, if no token can go on there. -/
theorem scanAll_append {ps : List Piece} (legible : Legible ps) {rest : List Char}
    (pause : ∀ c ∈ rest.head?, isBlank c = true) (done : List Located) (offset : Nat) :
    scanAll done offset (text ps ++ rest) =
      scanAll ((located offset ps).reverse ++ done) (offset + Text.byteLength (text ps)) rest := by
  induction ps generalizing done offset with
  | nil => rfl
  | cons p ps ih =>
    cases p with
    | blank c =>
      obtain ⟨blank, legible⟩ := legible
      rw [Piece.text_blank, List.cons_append, scanAll, if_pos blank, ih legible]
      simp [located, Nat.add_assoc]
    | word token lexeme =>
      obtain ⟨⟨more, spelled, stops⟩, legible⟩ := legible
      obtain ⟨c, tail, rfl, scanned⟩ := scanToken_complete spelled (spelled.stops_append stops pause)
      rw [Piece.text_word, List.append_assoc, List.cons_append, scanAll,
        if_neg (by simp [spelled.not_isBlank])]
      split
      · next fault => rw [scanned] at fault; cases fault
      · next s same =>
        cases scanned.symm.trans same
        rw [ih legible]
        simp [located, Nat.add_assoc]

theorem scanAll_complete {ps : List Piece} (legible : Legible ps) (done : List Located)
    (offset : Nat) :
    scanAll done offset (text ps) =
      .ok ⟨done.reverse ++ located offset ps, offset + Text.byteLength (text ps)⟩ := by
  have ended := @scanAll_append ps legible [] (by simp) done offset
  rw [List.append_nil] at ended
  rw [ended, scanAll, List.reverse_append, List.reverse_reverse]

theorem ofClause_eq_ok_iff_scanAll {clause : String} {stream : TokenStream} :
    ofClause clause = .ok stream ↔
      scanAll [] 0 clause.toList = .ok stream ∧ stream.tokens ≠ [] := by
  rw [ofClause, bind_eq_ok_iff]
  constructor
  · rintro ⟨stream', scanned, h⟩
    split at h
    · cases h
    · next some =>
      cases h
      exact ⟨scanned, by simpa using some⟩
  · rintro ⟨scanned, some⟩
    refine ⟨stream, scanned, ?_⟩
    rw [if_neg (by simpa using some)]
    rfl

/-- A clause is lexed exactly if it is written in pieces with a token among them. -/
theorem ofClause_eq_ok_iff {clause : String} {stream : TokenStream} :
    ofClause clause = .ok stream ↔ ∃ ps, Legible ps ∧ text ps = clause.toList ∧ words ps ≠ [] ∧
      stream = ⟨located 0 ps, clause.utf8ByteSize⟩ := by
  have size := (Text.byteLength_toList clause).symm
  have empty (ps : List Piece) : located 0 ps = [] ↔ words ps = [] := by
    rw [← Piece.map_token_located 0 ps, List.map_eq_nil_iff]
  rw [ofClause_eq_ok_iff_scanAll]
  constructor
  · rintro ⟨scanned, some⟩
    obtain ⟨ps, legible, same, rfl⟩ := scanAll_sound scanned
    exact ⟨ps, legible, same, mt (empty ps).2 some, by simp [size]⟩
  · rintro ⟨ps, legible, same, some, rfl⟩
    have scanned := scanAll_complete legible [] 0
    rw [same, Nat.zero_add, ← size] at scanned
    exact ⟨scanned, mt (empty ps).1 some⟩

/-- A clause that is one spelling is lexed to its token. -/
theorem ofClause_of_spelling {s : String} {token : Token} {more : Char → Bool}
    (spelled : Spelling s.toList token more) :
    ofClause s = .ok ⟨[⟨token, 0⟩], s.utf8ByteSize⟩ :=
  ofClause_eq_ok_iff.2 ⟨[.word token s.toList], ⟨⟨more, spelled, .nil more⟩, trivial⟩,
    List.append_nil _, List.cons_ne_nil _ _, rfl⟩

theorem scanAll_error {done : List Located} {offset : Nat} {cs : List Char} {e : ClauseError}
    (h : scanAll done offset cs = .error e) : ∃ fault position, e = .lex fault position := by
  fun_induction scanAll done offset cs with
  | case1 => cases h
  | case2 done offset c rest blank ih => exact ih h
  | case3 done offset c rest blank fault before scanned =>
    cases h
    exact ⟨_, _, rfl⟩
  | case4 done offset c rest blank s scanned ih => exact ih h

theorem ofClause_eq_lex_iff {clause : String} {fault : LexFault} {position : Nat} :
    ofClause clause = .error (.lex fault position) ↔
      scanAll [] 0 clause.toList = .error (.lex fault position) := by
  rw [ofClause]
  rcases scanAll [] 0 clause.toList with e | stream
  · rfl
  · show (if stream.tokens.isEmpty then _ else _) = _ ↔ _
    split <;> simp [pure, Except.pure]

/-- A clause is not lexed because it is empty, or for a fault. -/
theorem ofClause_error {clause : String} {e : ClauseError} (h : ofClause clause = .error e) :
    e = .emptyExpression ∨ ∃ fault position, e = .lex fault position := by
  rcases bind_eq_error_iff.1 h with fault | ⟨stream, -, h⟩
  · exact .inr (scanAll_error fault)
  · split at h
    · cases h
      exact .inl rfl
    · cases h

theorem scanAll_blanks {blanks : List Char} (blank : ∀ c ∈ blanks, isBlank c = true)
    (done : List Located) (offset : Nat) (rest : List Char) :
    scanAll done offset (blanks ++ rest) =
      scanAll done (offset + Text.byteLength blanks) rest := by
  induction blanks generalizing offset with
  | nil => rfl
  | cons c blanks ih =>
    obtain ⟨first, others⟩ := List.forall_mem_cons.1 blank
    rw [List.cons_append, scanAll, if_pos first, ih others, Text.byteLength_cons, Nat.add_assoc]

/-- A clause counts as empty exactly if it has blanks only. -/
theorem ofClause_eq_emptyExpression_iff {clause : String} :
    ofClause clause = .error .emptyExpression ↔ ∀ c ∈ clause.toList, isBlank c = true := by
  constructor
  · intro h
    rw [ofClause] at h
    rcases scanned : scanAll [] 0 clause.toList with e | stream
    · obtain ⟨fault, position, rfl⟩ := scanAll_error scanned
      rw [scanned] at h
      cases h
    · obtain ⟨ps, legible, same, rfl⟩ := scanAll_sound scanned
      have none : words ps = [] := by
        by_contra some
        rw [← ofClause, ofClause_eq_ok_iff.2 ⟨ps, legible, same, some, rfl⟩] at h
        cases h
      rw [Piece.eq_map_blank_of_words_eq_nil none, ← List.append_nil (List.map _ _),
        Piece.legible_map_blank_append, same] at legible
      exact legible.1
  · intro blank
    have scanned := scanAll_blanks blank [] 0 []
    rw [List.append_nil, scanAll] at scanned
    rw [ofClause, scanned]
    rfl

end Token

end HalfBinary
