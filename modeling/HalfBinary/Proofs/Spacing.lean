import HalfBinary.Proofs.Segments

/-!
# Blanks between clauses

What stands behind a clause and some blanks is lexed as if it stood alone, only further to the right
(`ofClause_spaced`).
-/

namespace HalfBinary

open Token (isBlank)
open Segment (pieces)

/-- A token that starts some bytes further to the right. -/
def Located.shift (bytes : Nat) (l : Located) : Located := { l with offset := l.offset + bytes }

namespace Token

/-- The scan of a text that starts further to the right finds the same there, or fails with the same
fault, whatever tokens are before it. -/
theorem scanAll_shift (bytes : Nat) (before : List Located) (done : List Located) (offset : Nat)
    (cs : List Char) :
    (∀ stream, scanAll done offset cs = .ok stream →
      scanAll (done.map (·.shift bytes) ++ before) (offset + bytes) cs =
        .ok ⟨before.reverse ++ stream.tokens.map (·.shift bytes), stream.stop + bytes⟩) ∧
    (∀ fault position, scanAll done offset cs = .error (.lex fault position) →
      scanAll (done.map (·.shift bytes) ++ before) (offset + bytes) cs =
        .error (.lex fault (position + bytes))) := by
  fun_induction scanAll done offset cs with
  | case1 done offset =>
    constructor
    · intro stream h
      cases h
      simp [scanAll]
    · intro fault position h
      cases h
  | case2 done offset c rest blank ih =>
    rwa [scanAll, if_pos blank, Nat.add_right_comm]
  | case3 done offset c rest blank fault taken scanned =>
    constructor
    · intro stream h
      cases h
    · intro fault position h
      cases h
      rw [scanAll, if_neg blank]
      split
      · next same =>
        cases scanned.symm.trans same
        rw [Nat.add_right_comm]
      · next same => cases scanned.symm.trans same
  | case4 done offset c rest blank s scanned ih =>
    rw [scanAll, if_neg blank]
    split
    · next same => cases scanned.symm.trans same
    · next same =>
      cases scanned.symm.trans same
      rw [Nat.add_right_comm] at ih
      exact ih

variable {a w : String} {s : TokenStream}

/-- The scan of a clause and blanks comes to the text behind them with the tokens of the clause. -/
theorem scanAll_spaced (lexed : ofClause a = .ok s) (blank : Blanks w.toList) (some : w ≠ "")
    (b : String) : scanAll [] 0 (a ++ w ++ b).toList =
      scanAll s.tokens.reverse (0 + (a ++ w).utf8ByteSize) b.toList := by
  obtain ⟨ps, legible, same, -, rfl⟩ := ofClause_eq_ok_iff.1 lexed
  have blank := blanks_iff.1 blank
  have pause : ∀ c ∈ (w.toList ++ b.toList).head?, isBlank c = true := by
    intro c next
    have nonempty : w.toList ≠ [] := by simpa using some
    rw [List.head?_append_of_ne_nil _ nonempty] at next
    exact blank c (List.mem_of_mem_head? next)
  have size : 0 + Text.byteLength (Piece.text ps) + Text.byteLength w.toList =
      0 + (a ++ w).utf8ByteSize := by
    rw [same, Nat.add_assoc, ← Text.byteLength_append, ← String.toList_append,
      ← Text.utf8ByteSize_ofList, String.ofList_toList]
  rw [String.toList_append, String.toList_append, ← same, List.append_assoc,
    scanAll_append legible pause, scanAll_blanks blank, size, List.append_nil]

/-- The blanks after a token may be any others. -/
theorem words_respaced {clause : String} {first gap : List Char} {before after : List Segment}
    {t : Segment} (segmented : Segmented clause.toList first (before ++ t :: after))
    (blank : Blanks gap) (some : gap ≠ []) :
    ∃ stream stream', ofClause clause = .ok stream ∧
      ofClause (String.ofList (first ++ Segment.text (before ++ { t with gap } :: after))) =
        .ok stream' ∧
      stream'.tokens.map (·.token) = stream.tokens.map (·.token) := by
  obtain ⟨legible, same, -⟩ := segmented_iff.1 segmented
  let left := first.map .blank ++ (pieces before ++ [.word t.token t.lexeme])
  have split (gap : List Char) :
      first.map .blank ++ pieces (before ++ { t with gap } :: after) =
        left ++ (gap.map .blank ++ pieces after) := by
    simp [left, Segment.pieces_append, Segment.pieces_cons]
  rw [split t.gap] at legible same
  have pause : ∀ c ∈ (Piece.text (gap.map .blank ++ pieces after)).head?, isBlank c = true := by
    intro c next
    rw [Piece.text_append, Piece.text_map_blank, List.head?_append_of_ne_nil _ some] at next
    exact blanks_iff.1 blank c (List.mem_of_mem_head? next)
  have legible' : Piece.Legible (left ++ (gap.map .blank ++ pieces after)) :=
    legible.of_append_left.append
      (Piece.legible_map_blank_append.2
        ⟨blanks_iff.1 blank, legible.of_append_right.of_append_right⟩) pause
  have nonempty (gap : List Char) : Piece.words (left ++ (gap.map .blank ++ pieces after)) ≠ [] := by
    simp [left]
  have same' : Piece.text (left ++ (gap.map .blank ++ pieces after)) =
      (String.ofList (first ++ Segment.text (before ++ { t with gap } :: after))).toList := by
    rw [← split]
    simp
  refine ⟨_, _, ofClause_eq_ok_iff.2 ⟨_, legible, same, nonempty t.gap, rfl⟩,
    ofClause_eq_ok_iff.2 ⟨_, legible', same', nonempty gap, rfl⟩, ?_⟩
  simp [Piece.map_token_located]

/-- A clause, blanks and another text are lexed to the tokens of the clause and then those of the
text, which start further to the right, as a fault of the text does; a blank text adds nothing. So
the blanks between tokens may be any others. -/
theorem ofClause_spaced {w : String} (blank : Blanks w.toList) (some : w ≠ "") :
    (∀ a s, ofClause a = .ok s →
      (∀ b t, ofClause b = .ok t → ofClause (a ++ w ++ b) =
        .ok ⟨s.tokens ++ t.tokens.map (·.shift (a ++ w).utf8ByteSize),
          t.stop + (a ++ w).utf8ByteSize⟩) ∧
      (∀ b, Blanks b.toList →
        ofClause (a ++ w ++ b) = .ok ⟨s.tokens, (a ++ w ++ b).utf8ByteSize⟩) ∧
      (∀ b fault position, ofClause b = .error (.lex fault position) →
        ofClause (a ++ w ++ b) = .error (.lex fault (position + (a ++ w).utf8ByteSize)))) ∧
    ∀ (clause : String) first before t after,
      Segmented clause.toList first (before ++ t :: after) →
      ∃ stream stream', ofClause clause = .ok stream ∧
        ofClause (String.ofList
          (first ++ Segment.text (before ++ { t with gap := w.toList } :: after))) = .ok stream' ∧
        stream'.tokens.map (·.token) = stream.tokens.map (·.token) := by
  refine ⟨fun a s lexed => ⟨?_, ?_, ?_⟩, ?_⟩
  · intro b t lexed'
    obtain ⟨-, nonempty⟩ := ofClause_eq_ok_iff_scanAll.1 lexed
    obtain ⟨scanned, -⟩ := ofClause_eq_ok_iff_scanAll.1 lexed'
    have shifted := (scanAll_shift (a ++ w).utf8ByteSize s.tokens.reverse [] 0 _).1 t scanned
    rw [List.map_nil, List.nil_append, List.reverse_reverse] at shifted
    refine ofClause_eq_ok_iff_scanAll.2 ⟨(scanAll_spaced lexed blank some b).trans shifted, ?_⟩
    simp [nonempty]
  · intro b blank'
    obtain ⟨-, nonempty⟩ := ofClause_eq_ok_iff_scanAll.1 lexed
    have scanned := scanAll_blanks (blanks_iff.1 blank') s.tokens.reverse
      (0 + (a ++ w).utf8ByteSize) []
    have size : 0 + (a ++ w).utf8ByteSize + Text.byteLength b.toList =
        (a ++ w ++ b).utf8ByteSize := by
      rw [Nat.zero_add, ← Text.utf8ByteSize_ofList, String.ofList_toList]
      exact String.utf8ByteSize_append.symm
    rw [List.append_nil, scanAll, List.reverse_reverse, size] at scanned
    exact ofClause_eq_ok_iff_scanAll.2 ⟨(scanAll_spaced lexed blank some b).trans scanned, nonempty⟩
  · intro b fault position failed
    have shifted := (scanAll_shift (a ++ w).utf8ByteSize s.tokens.reverse [] 0 _).2 fault position
      (ofClause_eq_lex_iff.1 failed)
    exact ofClause_eq_lex_iff.2 ((scanAll_spaced lexed blank some b).trans shifted)
  · intro clause first before t after segmented
    exact words_respaced segmented blank (by simpa using some)

theorem ofClause_spaced_comparison :
    ofClause "a <=  \t\n 1 #" = .error (.lex (.unknownSymbol '#') 11) ∧
      ofClause "a <=  \t\n  " = .ok ⟨[⟨.accessor ["a"], 0⟩, ⟨.operator .le, 2⟩], 10⟩ ∧
      ofClause "a <=  \t\n 1 " =
        .ok ⟨[⟨.accessor ["a"], 0⟩, ⟨.operator .le, 2⟩, ⟨.literal (.integer 1), 9⟩], 11⟩ := by
  have lexed : ofClause "a <=" = .ok ⟨[⟨.accessor ["a"], 0⟩, ⟨.operator .le, 2⟩], 4⟩ := by cbv
  have blank : Blanks "  \t\n ".toList := blanks_iff.2 (by simp [isBlank])
  obtain ⟨joined, ended, failed⟩ := (ofClause_spaced blank (by simp)).1 _ _ lexed
  exact ⟨failed "1 #" _ _ (by cbv), ended " " (blanks_iff.2 (by simp [isBlank])),
    joined "1 " ⟨[⟨.literal (.integer 1), 0⟩], 2⟩ (by cbv)⟩

end Token

end HalfBinary
