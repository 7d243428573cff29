import HalfBinary.Proofs.Blocks
import HalfBinary.Proofs.Disks
import HalfBinary.Proofs.FactFiles

/-!
# Matching facts

The command that tests every fact of a file prints the indices of those that satisfy the predicate
and their number, or fails and prints nothing (`run_match`).
-/

namespace HalfBinary.Program

open Disk (Keeps)

variable {readFact : String → Except String Json}

/-! ### Facts -/

/-- Reading facts changes nothing. -/
theorem keeps_readFacts {γ : Type} {part : Disk → γ} (path : String) :
    Keeps part (readFacts Disk.host readFact path) := by
  rw [readFacts]
  apply (Disk.keeps_readFile path Facts.maxBytes).bind
  intro r
  split
  · exact Disk.keeps_pure _
  · exact Disk.keeps_pure _
  · split <;> exact Disk.keeps_pure _

theorem run_readFacts_of_content {d : Disk} {path text : String}
    (content : d.content? path = some text.toUTF8) (small : text.utf8ByteSize ≤ Facts.maxBytes) :
    (readFacts Disk.host readFact path).run d = ((Facts.ofText readFact text).mapError .badFact, d) := by
  have read : d.readFile path Facts.maxBytes = .ok text.toUTF8 :=
    Disk.readFile_eq_ok_iff.2 ⟨content, small⟩
  have step : (Disk.host.readFile path Facts.maxBytes).run d =
      (.ok text.toUTF8, d) := congrArg (·, d) read
  rw [readFacts, StateT.run_bind, step]
  dsimp only [bind]
  rw [fromUTF8?_eq_some_iff.2 rfl]
  rfl

/-- Facts come from a text that is small enough. -/
theorem exists_content_of_run_readFacts {d : Disk} {path : String} {facts : Array Json}
    (h : ((readFacts Disk.host readFact path).run d).1 = .ok facts) : ∃ text : String,
      d.content? path = some text.toUTF8 ∧ text.utf8ByteSize ≤ Facts.maxBytes ∧
        Facts.ofText readFact text = .ok facts := by
  have step : (Disk.host.readFile path Facts.maxBytes).run d =
      (d.readFile path Facts.maxBytes, d) := rfl
  rcases read : d.readFile path Facts.maxBytes with e | bytes
  · rw [readFacts, StateT.run_bind, step, read] at h
    cases e <;> cases h
  rcases decoded : String.fromUTF8? bytes with _ | text
  · rw [readFacts, StateT.run_bind, step, read] at h
    dsimp only [bind] at h
    rw [decoded] at h
    cases h
  obtain rfl := fromUTF8?_eq_some_iff.1 decoded
  obtain ⟨content, small⟩ := Disk.readFile_eq_ok_iff.1 read
  rw [run_readFacts_of_content content small] at h
  rcases found : Facts.ofText readFact text with fault | facts'
  · rw [found] at h
    cases h
  · rw [found] at h
    cases h
    exact ⟨text, content, small, found⟩

/-! ### The command -/

theorem run_matchFacts (d : Disk) (env : Option String) {arguments : List String}
    {o : ClauseOptions} {path : String}
    (asked : Command.ofArguments? arguments = some (.matchFacts o path)) :
    (run Disk.host readFact env arguments).run d =
      match (compile Disk.host env o).run d with
      | (.error failure, after) =>
        (exitFailure, { after with err := after.err ++ (failure.message ++ "\n") })
      | (.ok p, after) =>
        match ((readFacts Disk.host readFact path).run after).1.bind (matchReport p) with
        | .error failure =>
          (exitFailure, { after with err := after.err ++ (failure.message ++ "\n") })
        | .ok report => (exitSuccess, { after with out := after.out ++ joinLines report }) := by
  rw [run, asked]
  dsimp only
  rw [output, bind_assoc, StateT.run_bind]
  rcases (compile Disk.host env o).run d with ⟨failure | p, after⟩
  · rfl
  · have kept : ((readFacts Disk.host readFact path).run after).2 = after :=
      @keeps_readFacts readFact _ id path after
    show StateT.run ((readFacts Disk.host readFact path >>= _) >>= _) after = _
    rw [bind_assoc, StateT.run_bind]
    rcases read : (readFacts Disk.host readFact path).run after with ⟨r, after'⟩
    rw [read] at kept
    obtain rfl : after' = after := kept
    dsimp only
    rw [read]
    rcases r with failure | facts
    · rfl
    · dsimp only [bind, Except.bind]
      rcases matchReport p facts with failure | report
      · rfl
      · rfl

/-- Facts that a machine can number have a report: the indices of those that satisfy the predicate,
and how many they are. -/
theorem exists_matchReport (p : Predicate) (facts : List Json) (size : facts.length < 2 ^ 64) :
    ∃ indices : List Nat, indices.Pairwise (· < ·) ∧
      (∀ i, i ∈ indices ↔ ∃ fact, facts[i]? = some fact ∧ p.evaluate fact = true) ∧
      matchReport p facts.toArray =
        .ok (indices.map toString ++ [s!"matched {indices.length} of {facts.length}"]) := by
  obtain ⟨indices, found⟩ :=
    (Batch.exists_matchingIndices_iff p.evaluate facts.toArray).2 (by simpa using size)
  refine ⟨indices, Batch.pairwise_of_matchingIndices found, fun i => ?_, ?_⟩
  · simpa using Batch.mem_iff_of_matchingIndices found (i := i)
  · rw [matchReport, found, List.size_toArray]

/-- What the command needs to succeed: a predicate, a file of at most 64 MiB of text, and a fact on
each of its lines that is not blank. -/
structure Answers (readFact : String → Except String Json) (d : Disk) (env : Option String)
    (o : ClauseOptions) (path : String) (p : Predicate) (after : Disk) (text : String)
    (facts : List Json) : Prop where
  compiles : Compiles d env o p after
  content : after.content? path = some text.toUTF8
  small : text.utf8ByteSize ≤ 64 * 1024 * 1024
  facts : List.Forall₂ (fun line fact => readFact line = .ok fact) (Facts.factLines text) facts

/-- The command that tests all facts of a file prints the indices of those that satisfy the
predicate, in their order, each on a line, and then how many they are of how many facts. If the
configuration does not load, the clause does not compile, or the file is too large, no text or has a
line that is neither blank nor a fact, it fails and prints nothing; and the first such line is named
by its number among all lines. All this holds whatever the reader takes for a fact. -/
theorem run_match (readFact : String → Except String Json) (d : Disk) (env : Option String)
    {arguments : List String} {o : ClauseOptions} {path : String}
    (asked : Command.ofArguments? arguments = some (.matchFacts o path)) :
    (∀ p after text facts, Answers readFact d env o path p after text facts →
      ∃ indices : List Nat, indices.Pairwise (· < ·) ∧
        (∀ i, i ∈ indices ↔ ∃ fact, facts[i]? = some fact ∧ p.evaluate fact = true) ∧
        (run Disk.host readFact env arguments).run d = (exitSuccess, { after with
          out := d.out ++ joinLines (indices.map toString ++
            [s!"matched {indices.length} of {(Facts.factLines text).length}"]) })) ∧
    ((¬ ∃ p after text facts, Answers readFact d env o path p after text facts) →
      ((run Disk.host readFact env arguments).run d).1 = exitFailure ∧
        ((run Disk.host readFact env arguments).run d).2.out = d.out) ∧
    ∀ p after text before line later fault, Compiles d env o p after →
      after.content? path = some text.toUTF8 → text.utf8ByteSize ≤ 64 * 1024 * 1024 →
      Facts.lines text = before ++ line :: later → (∀ l ∈ before, Facts.Readable readFact l) →
      Facts.isBlankLine line = false → readFact line = .error fault →
        (run Disk.host readFact env arguments).run d = (exitFailure, { after with
          out := d.out
          err := after.err ++
            s!"facts line {before.length + 1} is not valid JSON: {fault}\n" }) := by
  rw [run_matchFacts d env asked]
  refine ⟨?_, ?_, ?_⟩
  · rintro p after text facts ⟨compiles, content, small, each⟩
    have accepted : Facts.ofText readFact text = .ok facts.toArray := Facts.ofText_eq_ok_iff.2 each
    have count : (Facts.factLines text).length = facts.length := each.length_eq
    have few := Facts.length_factLines_le text
    obtain ⟨indices, ordered, satisfied, report⟩ := exists_matchReport p facts (by omega)
    refine ⟨indices, ordered, satisfied, ?_⟩
    have kept : after.out = d.out := compiles.out_eq
    rw [run_compile_eq_ok_iff.2 compiles]
    dsimp only
    rw [run_readFacts_of_content content small, accepted]
    show (match matchReport p facts.toArray with
      | .error failure => _
      | .ok report => _) = _
    rw [report, count, kept]
  · intro unanswered
    rcases compiled : (compile Disk.host env o).run d with ⟨failure | p, after⟩
    · have kept := keeps_compile env o d
      rw [compiled] at kept
      exact ⟨rfl, kept⟩
    · have compiles := run_compile_eq_ok_iff.1 compiled
      dsimp only
      rcases read : ((readFacts Disk.host readFact path).run after).1 with failure | facts
      · exact ⟨rfl, compiles.out_eq⟩
      · obtain ⟨text, content, small, found⟩ := exists_content_of_run_readFacts read
        exact absurd ⟨p, after, text, _, compiles, content, small, Facts.ofText_eq_ok_iff.1 found⟩
          unanswered
  · intro p after text before line later fault compiles content small split readable plain read
    have refused : Facts.ofText readFact text = .error ⟨before.length + 1, fault⟩ :=
      Facts.ofText_eq_error_iff.2 ⟨before, line, later, split, readable, plain, read, rfl⟩
    rw [run_compile_eq_ok_iff.2 compiles]
    dsimp only
    rw [run_readFacts_of_content content small, refused]
    have kept : after.out = d.out := compiles.out_eq
    rw [← kept]
    rfl

/-- The second of two facts is six at least. A line that is no fact is the third, as blank ones are
counted. -/
theorem run_match_lines :
    let readFact (line : String) : Except String Json :=
      (Json.read line).mapError fun _ => "expected value at line 1 column 1"
    let d (text : String) : Disk := Disk.ofEntries [(["facts"], .file text.toUTF8)]
    let arguments := ["match", "--type", "Integer", "--clause", ">= 6", "--facts", "facts"]
    (run Disk.host readFact none arguments).run (d "5\r\n \n7\n") =
        (exitSuccess, { d "5\r\n \n7\n" with out := "1\nmatched 1 of 2\n" }) ∧
      (run Disk.host readFact none arguments).run (d "5\r\n \nx\n]") =
        (exitFailure, { d "5\r\n \nx\n]" with
          err := "facts line 3 is not valid JSON: expected value at line 1 column 1\n" }) := by
  intro readFact d arguments
  have reads {line : String} {fact : Json} (read : Json.read line = .ok fact) :
      readFact line = .ok fact := congrArg (Except.mapError _) read
  have fault : readFact "x" = .error "expected value at line 1 column 1" := by
    have refused : Json.read "x" = .error (.unexpected 'x') := by cbv
    exact congrArg (Except.mapError _) refused
  have asked : Command.ofArguments? arguments =
      some (.matchFacts ⟨none, "Integer", ">= 6"⟩ "facts") := by cbv
  let p : Predicate := ⟨">= 6", ⟨⟨[]⟩, "Integer", [], ⟨"Integer", .scalar .integer⟩⟩,
    .leaf ⟨.ge, .integer 6, 0⟩, .leaf ⟨.ge, .integer 6⟩⟩
  have compiled : Predicate.compile .builtin "Integer" {} ">= 6" = .ok p := by cbv
  have compiles (text : String) : Compiles (d text) none ⟨none, "Integer", ">= 6"⟩ p (d text) := by
    have absent : (d text).isPresent defaultConfig = false := by
      rw [Disk.isPresent, Disk.resolve_of_name _ (by decide) (by decide) (by decide)]
      rfl
    exact compiles_of_absent absent compiled
  have content (text : String) : (d text).content? "facts" = some text.toUTF8 := by
    rw [Disk.content?, Disk.resolve_of_name _ (by decide) (by decide) (by decide)]
    rfl
  constructor
  · have lines : Facts.factLines "5\r\n \n7\n" = ["5", "7"] := by
      rw [Facts.factLines, Facts.lines_eq]
      cbv
    have each : List.Forall₂ (fun line fact => readFact line = .ok fact)
        (Facts.factLines "5\r\n \n7\n") [.whole 5, .whole 7] := by
      rw [lines]
      exact .cons (reads (by cbv)) (.cons (reads (by cbv)) .nil)
    obtain ⟨indices, ordered, satisfied, printed⟩ :=
      (run_match readFact _ none asked).1 p _ _ _ ⟨compiles _, content _, by cbv, each⟩
    obtain rfl : indices = [1] := by
      refine ordered.eq_of_mem_iff (List.pairwise_singleton _ _) fun i => ?_
      rw [satisfied]
      rcases i with _ | _ | i
      · simpa using show p.evaluate (.whole 5) = false by decide
      · simpa using show p.evaluate (.whole 7) = true by decide
      · simp
    rw [printed, lines]
    rfl
  · have split : Facts.lines "5\r\n \nx\n]" = ["5", " "] ++ "x" :: ["]"] := by
      rw [Facts.lines_eq]
      cbv
    refine (run_match readFact _ none asked).2.2 p _ _ _ _ _ _ (compiles _) (content _) (by cbv)
      split ?_ (by cbv) fault
    intro line mem
    rcases List.mem_pair.1 mem with rfl | rfl
    · exact .inr ⟨.whole 5, reads (by cbv)⟩
    · exact .inl (by cbv)

end HalfBinary.Program
