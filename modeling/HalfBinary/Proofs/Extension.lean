import HalfBinary.Proofs.Likeness
import HalfBinary.Proofs.Resolution
import HalfBinary.Predicate

/-!
# More types

The result of a clause depends on nothing in a registry but what it has under the names that the
path of the clause leads to. Types that are added change nothing for a clause that compiles, or that
fails for another reason than that a type is missing (`compile_extended`).
-/

namespace HalfBinary

namespace Registry

variable {r r' : Registry}

/-- The names that a path is looked up under: the subject, and what the segments lead to up to the
one where the path does not go on. -/
inductive Consults (r : Registry) (subject : String) (segments : List String) : String → Prop
  | subject : Consults r subject segments subject
  | target {start reached : TypeDescriptor} {before after : List String} {segment target : String}
      {access : SegmentAccess} (found : r.get? subject = some start)
      (split : segments = before ++ segment :: after) (reaches : r.Reaches start before reached)
      (offers : reached.property? segment = some (access, target)) :
      Consults r subject segments target

/-- Another registry has all types of the first, under the same names. -/
def Extends (r r' : Registry) : Prop := ∀ name d, r.get? name = some d → r'.get? name = some d

theorem get_congr {name : String} (same : r'.get? name = r.get? name) :
    r'.get name = r.get name := by
  rw [get, get, same]

theorem walk_congr {d : TypeDescriptor} {segments : List String}
    (same : ∀ before segment after reached access target, segments = before ++ segment :: after →
      r.Reaches d before reached → reached.property? segment = some (access, target) →
      r'.get? target = r.get? target) :
    r'.walk d segments = r.walk d segments := by
  induction segments generalizing d with
  | nil => rfl
  | cons segment segments ih =>
    rcases offers : d.property? segment with _ | ⟨access, target⟩
    · rw [walk_of_stuck (.unoffered offers), walk_of_stuck (.unoffered offers)]
    have first := same [] segment segments d access target rfl (.here d) offers
    rcases found : r.get? target with _ | next
    · rw [walk_of_stuck (.missing offers found),
        walk_of_stuck (.missing offers (first.trans found))]
    · -- What the other segments consult after the first one, the whole path consults.
      rw [walk_of_offers offers found, walk_of_offers offers (first.trans found), ih]
      rintro before segment' after reached access' target' rfl reaches offers'
      exact same (segment :: before) segment' after reached access' target' rfl
        (.onward offers found reaches) offers'

/-- A path resolves the same under a registry that has the same under the names that are looked
up. -/
theorem resolve_congr {subject : String} {path : AccessorPath}
    (same : ∀ name, r.Consults subject path.segments name → r'.get? name = r.get? name) :
    r'.resolve subject path = r.resolve subject path := by
  have start := same subject .subject
  rw [resolve, resolve, get_congr start]
  rcases found : r.get subject with e | d
  · rfl
  · have walked : r'.walk d path.segments = r.walk d path.segments := by
      apply walk_congr
      intro before segment after reached access target split reaches offers
      exact same target (.target (get_eq_ok_iff.1 found) split reaches offers)
    simp only [bind, Except.bind, walked]

/-- All names are found of a path that fails for no missing type. -/
theorem exists_get?_of_consults {subject : String} {path : AccessorPath} {name : String}
    (typed : ∀ missing, r.resolve subject path ≠ .error (.unknownType missing))
    (consults : r.Consults subject path.segments name) : ∃ d, r.get? name = some d := by
  rw [← Option.ne_none_iff_exists']
  intro absent
  apply typed name
  cases consults with
  | subject =>
    rw [resolve, get_eq_error_iff.2 ⟨absent, rfl⟩]
    rfl
  | target found split reaches offers =>
    rw [resolve_eq_error_iff_walk found, walk_eq_error_iff]
    exact ⟨_, _, _, _, split, reaches, .missing offers absent⟩

theorem Extends.resolve_eq (larger : r.Extends r') {subject : String} {path : AccessorPath}
    (typed : ∀ missing, r.resolve subject path ≠ .error (.unknownType missing)) :
    r'.resolve subject path = r.resolve subject path := by
  apply resolve_congr
  intro name consults
  obtain ⟨d, found⟩ := exists_get?_of_consults typed consults
  rw [found, larger name d found]

end Registry

/-! ### Clauses -/

namespace Constraint

mutual

theorem map_mask_id : (t : Constraint) → t.map (Comparison.mask id) = t
  | leaf c => rfl
  | chain _ parts => by rw [map, mapAll_mask_id parts]

theorem mapAll_mask_id : (parts : List Constraint) → mapAll (Comparison.mask id) parts = parts
  | [] => rfl
  | part :: parts => by rw [mapAll, map_mask_id part, mapAll_mask_id parts]

end

end Constraint

/-- Nothing is hidden, and some errors are excused. -/
def Likeness.strict (excused : ClauseError → Prop) : Likeness where
  shown := id
  same := Eq
  excused := excused
  refl _ := rfl
  found := by
    rintro _ l _ _ rfl
    rfl

theorem Likeness.Results.eq_or_excused {α : Type} {excused : ClauseError → Prop}
    {r r' : Except ClauseError α} (alike : (Likeness.strict excused).Results Eq r r') :
    r' = r ∨ ∃ e, r = .error e ∧ excused e := by
  cases alike with
  | ok same => exact .inl (congrArg _ same.symm)
  | error same => exact .inl (congrArg _ same.symm)
  | excused excuse => exact .inr ⟨_, rfl, excuse⟩

theorem Clause.Alike.eq {excused : ClauseError → Prop} {c c' : Clause}
    (alike : c.Alike (.strict excused) c') : c = c' := by
  obtain ⟨accessor, root⟩ := c
  obtain ⟨accessor', root'⟩ := c'
  obtain ⟨rfl, roots⟩ := alike
  have roots : root.map (Comparison.mask id) = root'.map (Comparison.mask id) := roots
  rw [Constraint.map_mask_id, Constraint.map_mask_id] at roots
  rw [roots]

namespace Predicate

variable {registry registry' : Registry} {subject source : String} {limits : Limits}
  {excused : ClauseError → Prop}

/-- Registries that resolve the path of a clause alike compile the clause alike. -/
theorem strict_compile
    (resolved : ∀ stream, Token.ofClause source = .ok stream →
      (Likeness.strict excused).Results Eq
        (registry.resolve subject (Token.clausePath stream.words))
        (registry'.resolve subject (Token.clausePath stream.words))) :
    (Likeness.strict excused).Results Eq (compile registry subject limits source)
      (compile registry' subject limits source) := by
  have parsed : (Likeness.strict excused).Results (Clause.Alike (.strict excused))
      (Clause.parse registry subject limits source)
      (Clause.parse registry' subject limits source) := by
    apply Clause.parse_alike limits rfl
    rcases lexed : Token.ofClause source with e | stream
    · exact .error rfl
    · exact .ok ⟨rfl, rfl, resolved stream lexed⟩
  apply parsed.bind
  intro c c' _ alike
  rw [alike.eq]
  exact .of_eq (fun _ => rfl) _

/-- Where the path of a clause is looked up, the registries have the same types. -/
theorem compile_congr
    (same : ∀ stream, Token.ofClause source = .ok stream → ∀ name,
      registry.Consults subject (Token.clausePath stream.words).segments name →
        registry'.get? name = registry.get? name) :
    compile registry' subject limits source = compile registry subject limits source := by
  have alike : (Likeness.strict fun _ => False).Results Eq (compile registry subject limits source)
      (compile registry' subject limits source) := by
    apply strict_compile
    intro stream lexed
    rw [Registry.resolve_congr (same stream lexed)]
    exact .of_eq (fun _ => rfl) _
  obtain same | ⟨_, _, excuse⟩ := alike.eq_or_excused
  · exact same
  · exact excuse.elim

/-- Under more types a clause has the same result, or its path missed a type before. -/
theorem compile_eq_or_untyped (larger : registry.Extends registry') :
    compile registry' subject limits source = compile registry subject limits source ∨
      ∃ missing, compile registry subject limits source = .error (.unknownType missing) := by
  have alike : (Likeness.strict fun e => ∃ missing, e = .unknownType missing).Results Eq
      (compile registry subject limits source) (compile registry' subject limits source) := by
    apply strict_compile
    intro stream _
    by_cases untyped : ∃ missing, registry.resolve subject (Token.clausePath stream.words) =
        .error (.unknownType missing)
    · obtain ⟨missing, fails⟩ := untyped
      rw [fails]
      exact .excused ⟨missing, rfl⟩
    · rw [larger.resolve_eq (not_exists.1 untyped)]
      exact .of_eq (fun _ => rfl) _
  obtain same | ⟨e, fails, missing, rfl⟩ := alike.eq_or_excused
  · exact .inl same
  · exact .inr ⟨missing, fails⟩

/-- Types that are added to a registry change no predicate and no error but that of a missing type.
What a clause compiles to depends on nothing but the types, or their absence, under the names of its
subject and of what the segments of its path lead to. -/
theorem compile_extended (registry registry' : Registry) (subject : String) (limits : Limits)
    (source : String) :
    (registry.Extends registry' →
      (∀ p, compile registry subject limits source = .ok p →
        compile registry' subject limits source = .ok p) ∧
      (∀ e, compile registry subject limits source = .error e →
        (∀ missing, e ≠ .unknownType missing) →
        compile registry' subject limits source = .error e)) ∧
    ((∀ stream, Token.ofClause source = .ok stream → ∀ name,
        registry.Consults subject (Token.clausePath stream.words).segments name →
          registry'.get? name = registry.get? name) →
      compile registry' subject limits source = compile registry subject limits source) := by
  refine ⟨?_, compile_congr⟩
  intro larger
  have outcome : compile registry' subject limits source = compile registry subject limits source ∨
      ∃ missing, compile registry subject limits source = .error (.unknownType missing) :=
    compile_eq_or_untyped larger
  obtain same | ⟨missing, fails⟩ := outcome
  · rw [same]
    exact ⟨fun _ => id, fun _ h _ => h⟩
  · rw [fails]
    constructor
    · rintro p ⟨⟩
    · rintro e ⟨⟩ typed
      exact (typed missing rfl).elim

/-- A type more changes no clause on long integers, and neither does another type in place of the
short ones, which the path does not lead to. -/
theorem compile_extended_long :
    let more := Registry.builtin.register ⟨"Person", .atom⟩
    let others := Registry.builtin.register ⟨"Short", .atom⟩
    (∃ p, compile .builtin "Long" {} "intValue == 1" = .ok p ∧
      compile more "Long" {} "intValue == 1" = .ok p) ∧
    compile more "Long" {} "intValue > true" =
      .error (.incomparableTypes .gt "Integer" "Boolean") ∧
    compile others "Long" {} "intValue == 1" = compile .builtin "Long" {} "intValue == 1" := by
  intro more others
  have larger : Registry.builtin.Extends more := by
    intro name d found
    rw [Registry.get?_register]
    split
    · next person =>
      rw [person] at found
      have absent : Registry.builtin.get? "Person" = none := by cbv
      cases absent.symm.trans found
    · exact found
  have lexed : Token.ofClause "intValue == 1" =
      .ok ⟨[⟨.accessor ["intValue"], 0⟩, ⟨.operator .eq, 9⟩, ⟨.literal (.integer 1), 12⟩], 13⟩ := by
    cbv
  let accessor : ResolvedAccessor :=
    ⟨⟨["intValue"]⟩, "Long", [⟨"intValue", .view, "Integer"⟩], ⟨"Integer", .scalar .integer⟩⟩
  have compiled : compile .builtin "Long" {} "intValue == 1" =
      .ok ⟨"intValue == 1", accessor, .leaf ⟨.eq, .integer 1, 9⟩, .leaf ⟨.eq, .integer 1⟩⟩ := by cbv
  have rejected : compile .builtin "Long" {} "intValue > true" =
      .error (.incomparableTypes .gt "Integer" "Boolean") := by cbv
  obtain ⟨kept, -⟩ := compile_extended .builtin more "Long" {} "intValue == 1"
  obtain ⟨kept', -⟩ := compile_extended .builtin more "Long" {} "intValue > true"
  obtain ⟨-, unread⟩ := compile_extended .builtin others "Long" {} "intValue == 1"
  have typed (missing : String) :
      ClauseError.incomparableTypes .gt "Integer" "Boolean" ≠ .unknownType missing := by simp
  refine ⟨⟨_, compiled, (kept larger).1 _ compiled⟩, (kept' larger).2 _ rejected typed, ?_⟩
  apply unread
  intro stream lexed' name consults
  cases lexed.symm.trans lexed'
  have consults : Registry.builtin.Consults "Long" ["intValue"] name := consults
  have other : name ≠ "Short" := by
    cases consults with
    | subject => decide
    | @target start _ before _ _ _ _ found split reaches offers =>
      have long : Registry.builtin.get? "Long" = some ⟨"Long", .scalar .integer⟩ := by cbv
      cases long.symm.trans found
      cases before with
      | nil =>
        cases split
        cases reaches
        cases offers
        decide
      | cons first others => simp at split
  rw [Registry.get?_register, if_neg other]

end Predicate

end HalfBinary
