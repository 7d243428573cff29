import Mathlib
import HalfBinary.Facts
import HalfBinary.Text.Bytes

/-!
# Reading fact files

A text of facts is read line by line. It is accepted if every line that is not blank is a fact to
the reader, and then holds one for each of these lines (`ofText_eq_ok_iff`). Otherwise the first line
that is none is at fault, under its number among all lines (`ofText_eq_error_iff`).
-/

namespace HalfBinary.Facts

/-- The lines that facts are on. -/
def factLines (text : String) : List String := (lines text).filter fun line => !isBlankLine line

/-! ### Lines -/

/-- The texts between the line feeds. -/
def pieces (text : String) : List String := (text.toList.splitOn '\n').map String.ofList

theorem lines_eq (text : String) : lines text =
    (pieces text).dropLast.map withoutReturn ++ (pieces text).getLast?.toList.filter (· ≠ "") := by
  rw [lines, String.toList_split_char]
  rfl

/-- A line is made of characters of its piece. -/
theorem toList_withoutReturn_subset (line : String) : (withoutReturn line).toList ⊆ line.toList := by
  unfold withoutReturn
  split
  · rw [String.toList_ofList]
    exact List.dropLast_subset _
  · exact List.Subset.refl _

theorem exists_piece_of_mem_lines {text line : String} (mem : line ∈ lines text) :
    ∃ piece ∈ pieces text, line.toList ⊆ piece.toList := by
  rw [lines_eq, List.mem_append, List.mem_map, List.mem_filter, Option.mem_toList] at mem
  rcases mem with ⟨piece, mem, rfl⟩ | ⟨last, -⟩
  · exact ⟨piece, List.mem_of_mem_dropLast mem, toList_withoutReturn_subset piece⟩
  · exact ⟨line, List.mem_of_getLast? last, List.Subset.refl _⟩

theorem mem_of_mem_splitOn {α : Type} [BEq α] {x y : α} {xs ys : List α}
    (piece : ys ∈ xs.splitOn x) (mem : y ∈ ys) : y ∈ xs := by
  rw [List.splitOn_eq_splitOnP] at piece
  induction xs generalizing ys with
  | nil =>
    rw [List.splitOnP_nil, List.mem_singleton] at piece
    rwa [piece] at mem
  | cons first xs ih =>
    rw [List.splitOnP_cons_eq_if_modifyHead] at piece
    split at piece
    · rcases List.mem_cons.1 piece with rfl | piece
      · cases mem
      · exact List.mem_cons_of_mem _ (ih piece mem)
    · obtain ⟨head, others, split⟩ := List.exists_cons_of_ne_nil (List.splitOnP_ne_nil (· == x) xs)
      rw [split, List.modifyHead_cons] at piece
      have inside {zs : List α} (later : zs ∈ head :: others) (mem : y ∈ zs) : y ∈ first :: xs :=
        List.mem_cons_of_mem _ (ih (split ▸ later) mem)
      rcases List.mem_cons.1 piece with rfl | piece
      · rcases List.mem_cons.1 mem with rfl | mem
        · exact List.mem_cons_self
        · exact inside List.mem_cons_self mem
      · exact inside (List.mem_cons_of_mem _ piece) mem

/-- A text of blanks has blank lines only. -/
theorem isBlankLine_of_blank {text line : String} (blank : text.all Text.isBlank = true)
    (mem : line ∈ lines text) : isBlankLine line = true := by
  rw [String.all_bool_eq, List.all_eq_true] at blank
  obtain ⟨piece, mem, inside⟩ := exists_piece_of_mem_lines mem
  obtain ⟨cs, piece, rfl⟩ := List.mem_map.1 mem
  rw [String.toList_ofList] at inside
  rw [isBlankLine, String.all_bool_eq, List.all_eq_true]
  exact fun c mem => blank c (mem_of_mem_splitOn piece (inside mem))

theorem length_splitOn_le {α : Type} [BEq α] (x : α) (xs : List α) :
    (xs.splitOn x).length ≤ xs.length + 1 := by
  induction xs with
  | nil => simp
  | cons y xs ih =>
    rw [List.splitOn_cons_eq_if_modifyHead, List.length_cons]
    split
    · rw [List.length_cons]
      omega
    · rw [List.length_modifyHead]
      omega

/-- A text has no more lines than bytes, but for one. -/
theorem length_factLines_le (text : String) :
    (factLines text).length ≤ text.utf8ByteSize + 1 := by
  have last : ((pieces text).getLast?.toList.filter (· ≠ "")).length ≤ 1 :=
    (List.length_filter_le _ _).trans Option.length_toList_le
  have ended : ((pieces text).dropLast.map withoutReturn).length = (pieces text).length - 1 := by
    rw [List.length_map, List.length_dropLast]
  calc
    (factLines text).length ≤ (lines text).length := List.length_filter_le _ _
    _ ≤ (pieces text).length - 1 + 1 := by
      rw [lines_eq, List.length_append, ended]
      exact Nat.add_le_add_left last _
    _ ≤ text.toList.length + 1 := by
      have few := length_splitOn_le '\n' text.toList
      rw [pieces, List.length_map]
      omega
    _ ≤ text.utf8ByteSize + 1 := by
      rw [← Text.byteLength_toList]
      exact Nat.succ_le_succ (Text.length_le_byteLength _)

/-! ### One line -/

variable {readFact : String → Except String Json}

variable (readFact) in
/-- A line is blank, or there is a fact on it. -/
def Readable (line : String) : Prop :=
  isBlankLine line = true ∨ ∃ fact, readFact line = .ok fact

theorem Progress.addLine_of_blank {line : String} (blank : isBlankLine line = true)
    (p : Progress) : p.addLine readFact line = .ok ⟨p.lines + 1, p.found⟩ := by
  rw [addLine, if_pos blank]

theorem Progress.addLine_of_fact {line : String} {fact : Json} (plain : ¬ isBlankLine line = true)
    (read : readFact line = .ok fact) (p : Progress) :
    p.addLine readFact line = .ok ⟨p.lines + 1, p.found.push fact⟩ := by
  rw [addLine, if_neg plain, read]

theorem Progress.addLine_of_fault {line : String} {fault : String}
    (plain : ¬ isBlankLine line = true) (read : readFact line = .error fault) (p : Progress) :
    p.addLine readFact line = .error ⟨p.lines + 1, fault⟩ := by
  rw [addLine, if_neg plain, read]

theorem readable_or_fault (line : String) :
    Readable readFact line ∨ ∃ fault, isBlankLine line = false ∧ readFact line = .error fault := by
  by_cases blank : isBlankLine line = true
  · exact .inl (.inl blank)
  · rcases read : readFact line with fault | fact
    · exact .inr ⟨fault, by simpa using blank, rfl⟩
    · exact .inl (.inr ⟨fact, read⟩)

theorem not_readable {line : String} {fault : String} (plain : isBlankLine line = false)
    (read : readFact line = .error fault) : ¬ Readable readFact line := by
  rintro (blank | ⟨fact, read'⟩)
  · rw [plain] at blank
    cases blank
  · cases read.symm.trans read'

/-- A readable line is counted. -/
theorem Progress.exists_addLine_of_readable {line : String} (readable : Readable readFact line)
    (p : Progress) : ∃ q, p.addLine readFact line = .ok q ∧ q.lines = p.lines + 1 := by
  by_cases blank : isBlankLine line = true
  · exact ⟨_, addLine_of_blank blank p, rfl⟩
  · obtain ⟨fact, read⟩ := readable.resolve_left blank
    exact ⟨_, addLine_of_fact blank read p, rfl⟩

/-! ### All lines -/

/-- Lines that are all readable add a fact for each that is not blank. -/
theorem foldlM_addLine_eq_ok_iff {lines : List String} {p q : Progress} :
    lines.foldlM (Progress.addLine readFact) p = .ok q ↔ ∃ facts,
      List.Forall₂ (fun line fact => readFact line = .ok fact)
        (lines.filter fun line => !isBlankLine line) facts ∧
      q = ⟨p.lines + lines.length, p.found ++ facts⟩ := by
  induction lines generalizing p with
  | nil =>
    simp only [List.filter_nil, List.forall₂_nil_left_iff, exists_eq_left, Array.appendList_nil]
    constructor
    · intro h
      cases h
      rfl
    · rintro rfl
      rfl
  | cons line lines ih =>
    rw [List.foldlM_cons]
    by_cases blank : isBlankLine line = true
    · rw [Progress.addLine_of_blank blank, List.filter_cons_of_neg (by simp [blank])]
      refine ih.trans ?_
      simp only [List.length_cons, Nat.add_assoc, Nat.add_comm 1]
    · rw [List.filter_cons_of_pos (by simp [blank])]
      rcases read : readFact line with fault | fact
      · rw [Progress.addLine_of_fault blank read]
        constructor
        · intro h
          cases h
        · rintro ⟨facts, each, -⟩
          cases each with
          | cons first _ => cases read.symm.trans first
      · rw [Progress.addLine_of_fact blank read]
        refine ih.trans ?_
        constructor
        · rintro ⟨facts, each, rfl⟩
          refine ⟨fact :: facts, .cons read each, ?_⟩
          rw [Array.appendList_cons, List.length_cons, Nat.add_assoc, Nat.add_comm 1]
        · rintro ⟨_, each, rfl⟩
          cases each with
          | cons first each =>
            cases read.symm.trans first
            refine ⟨_, each, ?_⟩
            rw [Array.appendList_cons, List.length_cons, Nat.add_assoc, Nat.add_comm 1]

/-- The first element of its kind is the first of all, or the first of the others if that one may
come before it. -/
theorem exists_first_cons_iff {α : Type} {P : α → Prop} {Q : Nat → α → Prop} {x : α}
    {xs : List α} :
    (∃ before y after, x :: xs = before ++ y :: after ∧ (∀ b ∈ before, P b) ∧
        Q before.length y) ↔
      Q 0 x ∨ P x ∧ ∃ before y after, xs = before ++ y :: after ∧ (∀ b ∈ before, P b) ∧
        Q (before.length + 1) y := by
  constructor
  · rintro ⟨before, y, after, split, earlier, holds⟩
    cases before with
    | nil =>
      cases split
      exact .inl holds
    | cons _ before =>
      cases split
      obtain ⟨first, earlier⟩ := List.forall_mem_cons.1 earlier
      exact .inr ⟨first, before, y, after, rfl, earlier, holds⟩
  · rintro (holds | ⟨first, before, y, after, rfl, earlier, holds⟩)
    · exact ⟨[], x, xs, rfl, by simp, holds⟩
    · exact ⟨x :: before, y, after, rfl, List.forall_mem_cons.2 ⟨first, earlier⟩, holds⟩

/-- Reading stops at the first line that is not readable. -/
theorem foldlM_addLine_eq_error_iff {lines : List String} {p : Progress} {e : LineFault} :
    lines.foldlM (Progress.addLine readFact) p = .error e ↔ ∃ before line after,
      lines = before ++ line :: after ∧ (∀ l ∈ before, Readable readFact l) ∧ isBlankLine line = false ∧
        readFact line = .error e.fault ∧ e.line = p.lines + before.length + 1 := by
  induction lines generalizing p with
  | nil =>
    constructor
    · intro h
      cases h
    · rintro ⟨before, line, after, split, -⟩
      simp at split
  | cons line lines ih =>
    have first := @exists_first_cons_iff _ (Readable readFact) (fun n l => isBlankLine l = false ∧
      readFact l = .error e.fault ∧ e.line = p.lines + n + 1) line lines
    rw [List.foldlM_cons, first]
    rcases readable_or_fault line with readable | ⟨fault, plain, read⟩
    · obtain ⟨q, step, counted⟩ := Progress.exists_addLine_of_readable readable p
      have other : ¬ (isBlankLine line = false ∧ readFact line = .error e.fault ∧
          e.line = p.lines + 0 + 1) := by
        rintro ⟨plain, read, -⟩
        exact not_readable plain read readable
      rw [step, or_iff_right other, and_iff_right readable]
      refine ih.trans ?_
      simp only [counted, Nat.add_assoc, Nat.add_comm 1]
    · have unread := not_readable plain read
      obtain ⟨number, fault'⟩ := e
      rw [Progress.addLine_of_fault (by simp [plain]) read]
      constructor
      · intro h
        cases h
        exact .inl ⟨plain, read, rfl⟩
      · rintro (⟨-, read', counted⟩ | ⟨readable, -⟩)
        · cases read.symm.trans read'
          obtain rfl : number = _ := counted
          rfl
        · exact absurd readable unread

/-! ### Texts -/

theorem ofText_of_blank {text : String} (blank : text.all Text.isBlank = true) :
    ofText readFact text = .ok #[] := by
  rw [ofText, if_pos blank]

theorem ofText_of_not_blank {text : String} (plain : ¬ text.all Text.isBlank = true) :
    ofText readFact text = ((lines text).foldlM (Progress.addLine readFact) {}).map (·.found) := by
  rw [ofText, if_neg plain]

/-- A text is accepted with a fact for each line that is not blank, in their order. -/
theorem ofText_eq_ok_iff {text : String} {facts : Array Json} :
    ofText readFact text = .ok facts ↔
      List.Forall₂ (fun line fact => readFact line = .ok fact) (factLines text) facts.toList := by
  by_cases blank : text.all Text.isBlank = true
  · have none : factLines text = [] := by
      rw [factLines, List.filter_eq_nil_iff]
      intro line mem
      simp [isBlankLine_of_blank blank mem]
    rw [ofText_of_blank blank, none, List.forall₂_nil_left_iff, Array.toList_eq_nil_iff]
    exact ⟨fun h => by cases h; rfl, fun h => by rw [h]⟩
  · rw [ofText_of_not_blank blank]
    constructor
    · intro h
      rcases read : (lines text).foldlM (Progress.addLine readFact) {} with fault | q
      · rw [read] at h
        cases h
      · rw [read] at h
        cases h
        obtain ⟨found, each, rfl⟩ := foldlM_addLine_eq_ok_iff.1 read
        simpa [factLines] using each
    · intro each
      rw [foldlM_addLine_eq_ok_iff.2 ⟨facts.toList, each, rfl⟩]
      simp [Except.map]

/-- The first line that is not blank and no fact either is at fault, under its number among all
lines. -/
theorem ofText_eq_error_iff {text : String} {e : LineFault} :
    ofText readFact text = .error e ↔ ∃ before line after, lines text = before ++ line :: after ∧
      (∀ l ∈ before, Readable readFact l) ∧ isBlankLine line = false ∧
        readFact line = .error e.fault ∧ e.line = before.length + 1 := by
  by_cases blank : text.all Text.isBlank = true
  · rw [ofText_of_blank blank]
    constructor
    · intro h
      cases h
    · rintro ⟨before, line, after, split, -, plain, -⟩
      have mem : line ∈ lines text := by simp [split]
      rw [isBlankLine_of_blank blank mem] at plain
      cases plain
  · have same : ((lines text).foldlM (Progress.addLine readFact) {}).map (·.found) = .error e ↔
        (lines text).foldlM (Progress.addLine readFact) {} = .error e := by
      rcases (lines text).foldlM (Progress.addLine readFact) {} with e' | q
      · simp [Except.map]
      · simp [Except.map]
    rw [ofText_of_not_blank blank, same, foldlM_addLine_eq_error_iff]
    simp only [Nat.zero_add]

end HalfBinary.Facts
