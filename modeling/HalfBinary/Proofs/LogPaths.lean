import HalfBinary.Proofs.Acceptance

/-!
# Paths of logs

A log is opened at its path as it is configured, but the path is checked without the blanks around
it. These blanks count when the log is opened: they may make the path too long, or its first part or
its last one, and nothing else (`log_path_within_iff`).
-/

namespace HalfBinary

namespace Text

/-! ### Trimming -/

/-- Trimming takes away blanks only. -/
theorem exists_toList_eq_trim (text : String) : ∃ before after : List Char,
    text.toList = before ++ (trim text).toList ++ after ∧
      (∀ c ∈ before, isBlank c = true) ∧ ∀ c ∈ after, isBlank c = true := by
  let core := text.toList.dropWhile isBlank
  refine ⟨text.toList.takeWhile isBlank, (core.reverse.takeWhile isBlank).reverse, ?_, ?_, ?_⟩
  · have split : core = (core.reverse.dropWhile isBlank).reverse ++
        (core.reverse.takeWhile isBlank).reverse := by
      rw [← List.reverse_append, List.takeWhile_append_dropWhile, List.reverse_reverse]
    rw [trim, String.toList_ofList, List.append_assoc, ← split, List.takeWhile_append_dropWhile]
  · exact List.all_eq_true.1 List.all_takeWhile
  · intro c mem
    exact List.all_eq_true.1 List.all_takeWhile c (List.mem_reverse.1 mem)

theorem trim_ne_empty_iff {text : String} :
    trim text ≠ "" ↔ ∃ c ∈ text.toList, isBlank c = false := by
  constructor
  · intro some
    by_contra none
    push Not at none
    refine some ?_
    have all : text.toList.dropWhile isBlank = [] :=
      List.dropWhile_eq_nil_iff.2 fun c mem => Bool.eq_true_of_not_eq_false (none c mem)
    rw [trim, all]
    rfl
  · rintro ⟨c, mem, other⟩ empty
    obtain ⟨before, after, split, blank, blank'⟩ := exists_toList_eq_trim text
    rw [split, empty, String.toList_empty, List.append_nil] at mem
    rcases List.mem_append.1 mem with front | back
    · exact absurd (blank c front) (Bool.eq_false_iff.1 other)
    · exact absurd (blank' c back) (Bool.eq_false_iff.1 other)

/-! ### Parts between separators -/

/-- Where two lists meet, the last part of the first and the first part of the second become one. -/
theorem splitOn_append {α : Type} [BEq α] [LawfulBEq α] {sep : α} {xs ys last head : List α}
    (init : List (List α)) {others : List (List α)} (front : xs.splitOn sep = init ++ [last])
    (back : ys.splitOn sep = head :: others) :
    (xs ++ ys).splitOn sep = init ++ (last ++ head) :: others := by
  simp only [List.splitOn_eq_splitOnP] at front back ⊢
  induction xs generalizing init last with
  | nil =>
    obtain ⟨rfl, rfl⟩ : init = [] ∧ last = [] := by
      cases init <;> simp_all
    exact back
  | cons x xs ih =>
    rw [List.splitOnP_cons_eq_if_modifyHead] at front
    rw [List.cons_append, List.splitOnP_cons_eq_if_modifyHead]
    split at front
    · next same =>
      rw [if_pos same]
      cases init with
      | nil =>
        rw [List.nil_append, List.cons.injEq] at front
        exact absurd front.2 (List.splitOnP_ne_nil _ xs)
      | cons part init =>
        rw [List.cons_append, List.cons.injEq] at front
        rw [ih init front.2, ← front.1, List.cons_append]
    · next other =>
      rw [if_neg other]
      obtain ⟨first, more, parts⟩ := List.exists_cons_of_ne_nil (List.splitOnP_ne_nil (· == sep) xs)
      rw [parts, List.modifyHead_cons] at front
      cases init with
      | nil =>
        rw [List.nil_append, List.cons.injEq] at front
        obtain ⟨rfl, rfl⟩ := front
        rw [ih [] parts]
        rfl
      | cons part init =>
        rw [List.cons_append, List.cons.injEq] at front
        obtain ⟨rfl, rfl⟩ := front
        rw [ih (first :: init) parts]
        rfl

theorem splitOn_of_blank {cs : List Char} (blank : ∀ c ∈ cs, isBlank c = true) :
    cs.splitOn '/' = [cs] := by
  rw [List.splitOn_eq_splitOnP, List.splitOnP_eq_singleton]
  intro c mem
  rw [beq_eq_false_iff_ne]
  rintro rfl
  exact absurd (blank '/' mem) (by decide)

/-- A part of a path between slashes is its first or its last one, or a part of what is left when
blanks are taken away from the two ends. -/
theorem first_or_last_or_mem {before core after component : List Char}
    (blank : ∀ c ∈ before, isBlank c = true) (blank' : ∀ c ∈ after, isBlank c = true)
    (mem : component ∈ (before ++ core ++ after).splitOn '/') :
    ((before ++ core ++ after).splitOn '/').head? = some component ∨
      ((before ++ core ++ after).splitOn '/').getLast? = some component ∨
        component ∈ core.splitOn '/' := by
  obtain ⟨head, others, parts⟩ := List.exists_cons_of_ne_nil (List.splitOn_ne_nil '/' core)
  have front : (before ++ core).splitOn '/' = (before ++ head) :: others :=
    splitOn_append [] (splitOn_of_blank blank) parts
  have back := splitOn_of_blank blank'
  rcases List.eq_nil_or_concat' others with rfl | ⟨middle, last, rfl⟩
  · have whole := splitOn_append [] front back
    rw [whole, List.nil_append, List.mem_singleton] at mem
    rw [whole, mem]
    exact .inl rfl
  · have whole := splitOn_append ((before ++ head) :: middle) front back
    rw [whole] at mem ⊢
    rw [parts]
    rcases List.mem_append.1 mem with early | final
    · rcases List.mem_cons.1 early with rfl | between
      · exact .inl rfl
      · exact .inr (.inr (by simp [between]))
    · rw [List.mem_singleton.1 final]
      exact .inr (.inl List.getLast?_concat)

end Text

/-! ### Bounds -/

/-- The bounds of a path with the blanks around it. -/
structure WithinBounds (path : String) : Prop where
  present : ∃ c ∈ path.toList, Text.isBlank c = false
  short : path.utf8ByteSize ≤ 4096
  components : ∀ component ∈ path.toList.splitOn '/', Text.byteLength component ≤ 255

namespace IsLogPath

variable {path : String}

/-- Only the first and the last part of a path that was checked may be too long. -/
theorem withinBounds_iff (checked : IsLogPath path) :
    WithinBounds path ↔ path.utf8ByteSize ≤ 4096 ∧
      (∀ first ∈ (path.toList.splitOn '/').head?, Text.byteLength first ≤ 255) ∧
      ∀ last ∈ (path.toList.splitOn '/').getLast?, Text.byteLength last ≤ 255 := by
  constructor
  · intro bounds
    refine ⟨bounds.short, ?_, ?_⟩
    · intro first head
      exact bounds.components first (List.mem_of_head? head)
    · intro last final
      exact bounds.components last (List.mem_of_getLast? final)
  · rintro ⟨short, first, last⟩
    refine ⟨Text.trim_ne_empty_iff.1 checked.present, short, ?_⟩
    intro component mem
    obtain ⟨before, after, split, blank, blank'⟩ := Text.exists_toList_eq_trim path
    rw [split] at first last mem
    rcases Text.first_or_last_or_mem blank blank' mem with head | final | inside
    · exact first component head
    · exact last component final
    · exact checked.components component inside

theorem withinBounds_of_trim_eq (checked : IsLogPath path) (bare : Text.trim path = path) :
    WithinBounds path := by
  refine ⟨Text.trim_ne_empty_iff.1 checked.present, ?_, ?_⟩
  · simpa only [bare] using checked.short
  · simpa only [bare] using checked.components

end IsLogPath

namespace Config

variable {c : Config}

/-- A valid configuration opens its log at the path that it has, which is not blank. The path is
within bounds exactly if it is short enough as a whole, in its first part and in its last; it is if no
blanks stand around it. -/
theorem log_path_within_iff (valid : c.validate = .ok ()) (file : c.audit.sink = .file) :
    ∃ path, c.audit.path = some path ∧
      (∀ (m : Type → Type) [Monad m] (host : Host m), Program.openSink host c.audit = do
        match ← host.openLog path with
        | .ok () => return .ok ()
        | .error detail => return .error (.io s!"audit log {path}: {detail}")) ∧
      (∃ ch ∈ path.toList, Text.isBlank ch = false) ∧
      (WithinBounds path ↔ path.utf8ByteSize ≤ 4096 ∧
        (∀ first ∈ (path.toList.splitOn '/').head?, Text.byteLength first ≤ 255) ∧
        ∀ last ∈ (path.toList.splitOn '/').getLast?, Text.byteLength last ≤ 255) ∧
      (Text.trim path = path → WithinBounds path) := by
  obtain ⟨path, present, checked⟩ := (validate_eq_ok_iff_valid.1 valid).logged file
  refine ⟨path, present, ?_, Text.trim_ne_empty_iff.1 checked.present, checked.withinBounds_iff,
    checked.withinBounds_of_trim_eq⟩
  intro m _ host
  exact openSink_of_file host file present

/-- The log of the employments is within bounds, although a blank stands before its name. -/
theorem log_path_within_employments :
    employments.validate = .ok () ∧ WithinBounds " clauses.jsonl" := by
  have accepted : employments.validate = .ok () := rfl
  obtain ⟨path, present, -, -, within, -⟩ := log_path_within_iff accepted rfl
  cases present
  exact ⟨accepted, within.2 (by decide +kernel)⟩

/-- A name with 255 blanks behind it. -/
def paddedName : List Char := 'x' :: List.replicate 255 ' '

/-- A log whose path is such a name. -/
def padded : Config where
  audit := ⟨.file, some (String.ofList paddedName)⟩

theorem valid_padded : padded.Valid where
  clauseBytes := by decide
  nesting := by decide
  comparisons := by decide
  logged _ := by
    have bare : Text.trim (String.ofList paddedName) = "x" := by
      rw [Text.trim, String.toList_ofList]
      rfl
    refine ⟨_, rfl, ?_, ?_, ?_⟩
    · rw [bare]
      decide
    · rw [bare]
      decide
    · rw [bare]
      decide
  unlogged other := absurd rfl other
  few := Nat.zero_le _
  named := by simp [padded]
  records := by simp [padded]

/-- Blanks behind the name of a log are not counted, and it is opened with them. -/
theorem log_path_not_within : padded.validate = .ok () ∧ padded.audit.sink = .file ∧
    ∃ path, padded.audit.path = some path ∧ ¬ WithinBounds path := by
  refine ⟨validate_eq_ok_iff_valid.2 valid_padded, rfl, _, rfl, ?_⟩
  intro bounds
  have single : (String.ofList paddedName).toList.splitOn '/' = [paddedName] := by
    rw [String.toList_ofList, List.splitOn_eq_splitOnP, List.splitOnP_eq_singleton]
    intro c mem
    rcases List.mem_cons.1 mem with rfl | blank
    · decide
    · rw [List.eq_of_mem_replicate blank]
      decide
  have component := bounds.components paddedName (by rw [single]; exact List.mem_cons_self)
  exact absurd component (by decide +kernel)

end Config

end HalfBinary
