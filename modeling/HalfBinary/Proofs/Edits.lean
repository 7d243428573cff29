import Mathlib
import HalfBinary.Proofs.Parsing
import HalfBinary.Proofs.Pieces

/-!
# Edits that leave a clause's meaning

Accessors may be left out and repeated, and parentheses may be put around every part of a clause:
the clause stays one, with the same tree up to positions.
-/

namespace HalfBinary

/-! ### Which tokens follow which -/

namespace Token

def isAccessor : Token → Bool
  | accessor _ => true
  | operator _ | connective _ | openParen | closeParen | literal _ => false

/-- Whether a token may stand after an accessor. -/
def takesAccessor : Token → Bool
  | operator _ | openParen => true
  | accessor _ | connective _ | closeParen | literal _ => false

/-- Whether a term may start after a token. -/
def opens : Token → Bool
  | connective _ | openParen => true
  | accessor _ | operator _ | closeParen | literal _ => false

/-- What may stand before a token: an accessor starts a term, and a token that takes an accessor
starts one or stands after its accessor. -/
def Precedes (before after : Token) : Prop :=
  (after.isAccessor = true → before.opens = true) ∧
    (after.takesAccessor = true → before.opens = true ∨ before.isAccessor = true)

theorem precedes_of_opens {before : Token} (opens : before.opens = true) (after : Token) :
    Precedes before after := ⟨fun _ => opens, fun _ => .inl opens⟩

theorem precedes_of_other (before : Token) {after : Token} (accessor : after.isAccessor = false)
    (takes : after.takesAccessor = false) : Precedes before after := by
  simp [Precedes, accessor, takes]

end Token

namespace Derivation

open Token (Precedes precedes_of_opens precedes_of_other)

theorem isChain_cons_of_opens {w : Token} (opens : w.opens = true) {ws : List Token}
    (chain : ws.IsChain Precedes) : (w :: ws).IsChain Precedes :=
  List.isChain_cons.2 ⟨fun next _ => precedes_of_opens opens next, chain⟩

theorem isChain_append_others {n m : Symbol} {d : Derivation n} (others : Derivation m)
    (list : ¬ m.IsExpression) (chain : d.words.IsChain Precedes)
    (chain' : others.words.IsChain Precedes) : (d.words ++ others.words).IsChain Precedes := by
  refine List.isChain_append.2 ⟨chain, chain', fun before _ after head => ?_⟩
  cases others with
  | or | and | comparison | group => exact absurd trivial list
  | orEnd | andEnd => cases head
  | orMore | andMore =>
    cases head
    exact precedes_of_other before rfl rfl

theorem isChain_lead (lead : Lead) {w : Token} {ws : List Token} (takes : w.takesAccessor = true)
    (chain : (w :: ws).IsChain Precedes) : (lead.words ++ w :: ws).IsChain Precedes := by
  rcases lead with _ | ⟨segments, offset⟩
  · exact chain
  · refine List.isChain_cons_cons.2 ⟨⟨fun accessor => ?_, fun _ => .inr rfl⟩, chain⟩
    cases w <;> simp [Token.isAccessor, Token.takesAccessor] at accessor takes

/-- In a derivation every token stands where it may. -/
theorem isChain_words {n : Symbol} (d : Derivation n) : d.words.IsChain Precedes := by
  induction d with
  | or first others firstIh othersIh =>
    rw [words_or]
    exact isChain_append_others others id firstIh othersIh
  | and first others firstIh othersIh =>
    rw [words_and]
    exact isChain_append_others others id firstIh othersIh
  | orEnd | andEnd => exact .nil
  | orMore offset part others partIh othersIh =>
    rw [words_orMore]
    exact isChain_cons_of_opens rfl (isChain_append_others others id partIh othersIh)
  | andMore offset part others partIh othersIh =>
    rw [words_andMore]
    exact isChain_cons_of_opens rfl (isChain_append_others others id partIh othersIh)
  | comparison lead op offset literal literalOffset =>
    rw [words_comparison]
    exact isChain_lead lead rfl (List.isChain_pair.2 (precedes_of_other _ rfl rfl))
  | group lead start inner stop ih =>
    have chain : (inner.words ++ [Token.closeParen]).IsChain Precedes := by
      refine List.isChain_append.2 ⟨ih, .singleton _, fun before _ after head => ?_⟩
      cases head
      exact precedes_of_other before rfl rfl
    rw [words_group]
    exact isChain_lead lead rfl (isChain_cons_of_opens rfl chain)

/-! ### Leaving accessors out -/

/-- The derivation without its accessors. -/
def elided : Derivation n → Derivation n
  | or first others => or first.elided others.elided
  | orEnd => orEnd
  | orMore offset part others => orMore offset part.elided others.elided
  | and first others => and first.elided others.elided
  | andEnd => andEnd
  | andMore offset part others => andMore offset part.elided others.elided
  | comparison _ op offset literal literalOffset => comparison none op offset literal literalOffset
  | group _ start inner stop => group none start inner.elided stop

theorem tree_elided {n : Symbol} (d : Derivation n) : d.elided.tree = d.tree := by
  induction d with
  | or first others firstIh othersIh | and first others firstIh othersIh =>
    simp only [elided, tree, firstIh, othersIh]
  | orMore _ part others partIh othersIh | andMore _ part others partIh othersIh =>
    simp only [elided, tree, partIh, othersIh]
  | orEnd | andEnd | comparison => rfl
  | group lead start inner stop ih => exact ih

theorem filter_words_lead (lead : Lead) : lead.words.filter (fun w => !w.isAccessor) = [] := by
  rcases lead with _ | ⟨segments, offset⟩ <;> rfl

theorem words_elided {n : Symbol} (d : Derivation n) :
    d.elided.words = d.words.filter fun w => !w.isAccessor := by
  induction d with
  | or first others firstIh othersIh | and first others firstIh othersIh =>
    simp [elided, firstIh, othersIh]
  | orEnd | andEnd => rfl
  | orMore _ part others partIh othersIh | andMore _ part others partIh othersIh =>
    simp [elided, Token.isAccessor, partIh, othersIh]
  | comparison lead op offset literal literalOffset =>
    rw [elided, words_comparison, words_comparison, List.filter_append, filter_words_lead]
    rfl
  | group lead start inner stop ih =>
    rw [elided, words_group, words_group, List.filter_append, filter_words_lead, ih]
    simp [Token.isAccessor]

/-- Derivations that differ in accessors only have one tree. -/
theorem plain_tree_eq_of_filter_eq {n : Symbol} {d d' : Derivation n}
    (same : d.words.filter (fun w => !w.isAccessor) = d'.words.filter fun w => !w.isAccessor) :
    d.plain.tree = d'.plain.tree := by
  have plain : d.elided.plain = d'.elided.plain := by
    refine plain_eq_of_words_eq ?_
    rw [words_elided, words_elided, same]
  have tree := congrArg Derivation.tree plain
  simpa only [tree_plain, tree_elided] using tree

end Derivation

/-! ### Repeating an accessor -/

namespace Token

/-- A token is put in front of some tokens that take an accessor and have none. The flag tells
whether the token before is an accessor. -/
inductive Repeats (copy : Token) : Bool → List Token → List Token → Prop
  | nil {after : Bool} : Repeats copy after [] []
  | keep {after : Bool} {w : Token} {ws zs : List Token} (more : Repeats copy w.isAccessor ws zs) :
      Repeats copy after (w :: ws) (w :: zs)
  | insert {w : Token} {ws zs : List Token} (takes : w.takesAccessor = true)
      (more : Repeats copy false ws zs) : Repeats copy false (w :: ws) (copy :: w :: zs)

theorem Repeats.of_not_takes {copy w : Token} {ws zs : List Token} {after : Bool}
    (h : Repeats copy after (w :: ws) zs) (other : w.takesAccessor = false) :
    ∃ zs', zs = w :: zs' ∧ Repeats copy w.isAccessor ws zs' := by
  cases h with
  | keep more => exact ⟨_, rfl, more⟩
  | insert takes => rw [other] at takes; cases takes

theorem Repeats.after_accessor {copy w : Token} {ws zs : List Token}
    (h : Repeats copy true (w :: ws) zs) : ∃ zs', zs = w :: zs' ∧ Repeats copy w.isAccessor ws zs' := by
  cases h with
  | keep more => exact ⟨_, rfl, more⟩

theorem Repeats.filter_eq {copy : Token} {ws zs : List Token} {after : Bool}
    (h : Repeats copy after ws zs) (accessor : copy.isAccessor = true) :
    zs.filter (fun w => !w.isAccessor) = ws.filter fun w => !w.isAccessor := by
  induction h with
  | nil => rfl
  | keep _ ih => rw [List.filter_cons, List.filter_cons, ih]
  | insert _ _ ih =>
    rw [List.filter_cons_of_neg (by simp [accessor]), List.filter_cons, List.filter_cons, ih]

end Token

namespace Derivation

open Token (Repeats)

/-- With an accessor repeated, a term starts with an accessor, or as it did. -/
theorem exists_lead_of_repeats {segments : List String} {lead : Lead} {w : Token}
    {ws zs : List Token} (other : w.isAccessor = false)
    (h : Repeats (.accessor segments) false (lead.words ++ w :: ws) zs) :
    ∃ (lead' : Lead) (zs' : List Token), zs = lead'.words ++ w :: zs' ∧
      Repeats (.accessor segments) false ws zs' := by
  rcases lead with _ | ⟨segments', offset⟩
  · cases h with
    | keep more => exact ⟨none, _, rfl, other ▸ more⟩
    | insert _ more => exact ⟨some (segments, 0), _, rfl, more⟩
  · obtain ⟨tail, rfl, more⟩ := h.of_not_takes rfl
    obtain ⟨zs', rfl, last⟩ := Repeats.after_accessor more
    exact ⟨some (segments', offset), _, rfl, other ▸ last⟩

theorem exists_of_repeats {n : Symbol} {segments : List String} (d : Derivation n)
    {rest zs : List Token} (h : Repeats (.accessor segments) false (d.words ++ rest) zs) :
    ∃ (d' : Derivation n) (zs' : List Token), zs = d'.words ++ zs' ∧
      Repeats (.accessor segments) false rest zs' := by
  induction d generalizing rest zs with
  | or first others firstIh othersIh =>
    rw [words_or, List.append_assoc] at h
    obtain ⟨first', tail, rfl, more⟩ := firstIh h
    obtain ⟨others', zs', rfl, last⟩ := othersIh more
    exact ⟨or first' others', zs', by simp, last⟩
  | and first others firstIh othersIh =>
    rw [words_and, List.append_assoc] at h
    obtain ⟨first', tail, rfl, more⟩ := firstIh h
    obtain ⟨others', zs', rfl, last⟩ := othersIh more
    exact ⟨and first' others', zs', by simp, last⟩
  | orEnd => exact ⟨orEnd, zs, rfl, h⟩
  | andEnd => exact ⟨andEnd, zs, rfl, h⟩
  | orMore offset part others partIh othersIh =>
    rw [words_orMore, List.cons_append, List.append_assoc] at h
    obtain ⟨chain, rfl, first⟩ := h.of_not_takes rfl
    obtain ⟨part', tail, rfl, more⟩ := partIh first
    obtain ⟨others', zs', rfl, last⟩ := othersIh more
    exact ⟨orMore offset part' others', zs', by simp, last⟩
  | andMore offset part others partIh othersIh =>
    rw [words_andMore, List.cons_append, List.append_assoc] at h
    obtain ⟨chain, rfl, first⟩ := h.of_not_takes rfl
    obtain ⟨part', tail, rfl, more⟩ := partIh first
    obtain ⟨others', zs', rfl, last⟩ := othersIh more
    exact ⟨andMore offset part' others', zs', by simp, last⟩
  | comparison lead op offset literal literalOffset =>
    rw [words_comparison, List.append_assoc] at h
    obtain ⟨lead', tail, rfl, more⟩ := exists_lead_of_repeats rfl h
    obtain ⟨zs', rfl, last⟩ := more.of_not_takes rfl
    exact ⟨comparison lead' op offset literal literalOffset, zs', by simp, last⟩
  | group lead start inner stop ih =>
    rw [words_group, List.append_assoc, List.cons_append, List.append_assoc] at h
    obtain ⟨lead', content, rfl, more⟩ := exists_lead_of_repeats rfl h
    obtain ⟨inner', tail, rfl, closing⟩ := ih more
    obtain ⟨zs', rfl, last⟩ := closing.of_not_takes rfl
    exact ⟨group lead' start inner' stop, zs', by simp, last⟩

/-! ### Parentheses around a part -/

/-- A derivation is a part of another, between some tokens. -/
inductive Part {m : Symbol} (e : Derivation m) :
    {n : Symbol} → Derivation n → List Token → List Token → Prop
  | self : Part e e [] []
  | orFirst {first : Derivation .andExpression} (others : Derivation .orOthers)
      {before after : List Token} (part : Part e first before after) :
      Part e (or first others) before (after ++ others.words)
  | orRest (first : Derivation .andExpression) {others : Derivation .orOthers}
      {before after : List Token} (part : Part e others before after) :
      Part e (or first others) (first.words ++ before) after
  | orNext (offset : Nat) {next : Derivation .andExpression} (others : Derivation .orOthers)
      {before after : List Token} (part : Part e next before after) :
      Part e (orMore offset next others) (.connective .or :: before) (after ++ others.words)
  | orLater (offset : Nat) (next : Derivation .andExpression) {others : Derivation .orOthers}
      {before after : List Token} (part : Part e others before after) :
      Part e (orMore offset next others) (.connective .or :: (next.words ++ before)) after
  | andFirst {first : Derivation .term} (others : Derivation .andOthers)
      {before after : List Token} (part : Part e first before after) :
      Part e (and first others) before (after ++ others.words)
  | andRest (first : Derivation .term) {others : Derivation .andOthers}
      {before after : List Token} (part : Part e others before after) :
      Part e (and first others) (first.words ++ before) after
  | andNext (offset : Nat) {next : Derivation .term} (others : Derivation .andOthers)
      {before after : List Token} (part : Part e next before after) :
      Part e (andMore offset next others) (.connective .and :: before) (after ++ others.words)
  | andLater (offset : Nat) (next : Derivation .term) {others : Derivation .andOthers}
      {before after : List Token} (part : Part e others before after) :
      Part e (andMore offset next others) (.connective .and :: (next.words ++ before)) after
  | inner (lead : Lead) (start : Nat) {content : Derivation .orExpression} (stop : Nat)
      {before after : List Token} (part : Part e content before after) :
      Part e (group lead start content stop) (lead.words ++ .openParen :: before)
        (after ++ [.closeParen])

theorem Part.words_eq {m n : Symbol} {e : Derivation m} {d : Derivation n}
    {before after : List Token} (part : Part e d before after) :
    d.words = before ++ e.words ++ after := by
  induction part with
  | self => simp
  | orFirst _ _ ih | orRest _ _ ih | orNext _ _ _ ih | orLater _ _ _ ih | andFirst _ _ ih
  | andRest _ _ ih | andNext _ _ _ ih | andLater _ _ _ ih | inner _ _ _ _ ih => simp [ih]

/-- Another derivation with the same tree may stand in the place of a part. -/
theorem Part.exists_replaced {m n : Symbol} {e : Derivation m} {d : Derivation n}
    {before after : List Token} (part : Part e d before after) {e' : Derivation m}
    (same : e'.tree = e.tree) :
    ∃ d' : Derivation n, d'.words = before ++ e'.words ++ after ∧ d'.tree = d.tree := by
  induction part with
  | self => exact ⟨e', by simp, same⟩
  | orFirst others _ ih =>
    obtain ⟨first', words, tree⟩ := ih
    exact ⟨or first' others, by simp [words], by simp [Derivation.tree, tree]⟩
  | orRest first _ ih =>
    obtain ⟨others', words, tree⟩ := ih
    exact ⟨or first others', by simp [words], by simp [Derivation.tree, tree]⟩
  | orNext offset others _ ih =>
    obtain ⟨next', words, tree⟩ := ih
    exact ⟨orMore offset next' others, by simp [words], by simp [Derivation.tree, tree]⟩
  | orLater offset next _ ih =>
    obtain ⟨others', words, tree⟩ := ih
    exact ⟨orMore offset next others', by simp [words], by simp [Derivation.tree, tree]⟩
  | andFirst others _ ih =>
    obtain ⟨first', words, tree⟩ := ih
    exact ⟨and first' others, by simp [words], by simp [Derivation.tree, tree]⟩
  | andRest first _ ih =>
    obtain ⟨others', words, tree⟩ := ih
    exact ⟨and first others', by simp [words], by simp [Derivation.tree, tree]⟩
  | andNext offset others _ ih =>
    obtain ⟨next', words, tree⟩ := ih
    exact ⟨andMore offset next' others, by simp [words], by simp [Derivation.tree, tree]⟩
  | andLater offset next _ ih =>
    obtain ⟨others', words, tree⟩ := ih
    exact ⟨andMore offset next others', by simp [words], by simp [Derivation.tree, tree]⟩
  | inner lead start stop _ ih =>
    obtain ⟨content', words, tree⟩ := ih
    exact ⟨group lead start content' stop, by simp [words], tree⟩

/-- Every expression may stand in parentheses, which leave its tree. -/
theorem exists_parenthesized {n : Symbol} (d : Derivation n) (expression : n.IsExpression) :
    ∃ d' : Derivation n, d'.words = .openParen :: (d.words ++ [.closeParen]) ∧ d'.tree = d.tree := by
  cases n with
  | orOthers | andOthers => exact expression.elim
  | orExpression => exact ⟨or (and (group none 0 d 0) andEnd) orEnd, by simp, rfl⟩
  | andExpression => exact ⟨and (group none 0 (or d orEnd) 0) andEnd, by simp, rfl⟩
  | term => exact ⟨group none 0 (or (and d andEnd) orEnd) 0, by simp, rfl⟩

end Derivation

/-! ### What the edits leave -/

namespace Token

theorem operatorCount_filter (ws : List Token) :
    operatorCount (ws.filter fun w => !w.isAccessor) = operatorCount ws := by
  rw [operatorCount, List.countP_filter, operatorCount]
  refine List.countP_congr fun w _ => ?_
  cases w <;> simp [isOperator, isAccessor]

theorem deepest_filter (depth : Nat) (ws : List Token) :
    deepest depth (ws.filter fun w => !w.isAccessor) = deepest depth ws := by
  induction ws generalizing depth with
  | nil => rfl
  | cons w ws ih =>
    cases w with
    | openParen => exact ih (depth + 1)
    | closeParen => exact congrArg (max depth) (ih (depth - 1))
    | accessor _ | operator _ | connective _ | literal _ => exact ih depth

theorem paths_filter (ws : List Token) : paths (ws.filter fun w => !w.isAccessor) = [] := by
  rw [paths, List.filterMap_eq_nil_iff]
  intro w mem
  have other := (List.mem_filter.1 mem).2
  cases w <;> simp_all [isAccessor, path?]

/-- Without accessors the clause is about the fact itself. -/
theorem clausePath_of_paths_eq_nil {ws : List Token} (none : paths ws = []) :
    clausePath ws = ⟨[]⟩ := by
  induction ws with
  | nil => rfl
  | cons w ws ih =>
    cases w with
    | accessor segments => cases none
    | operator op => rfl
    | connective _ | openParen | closeParen | literal _ => exact ih none

theorem mem_paths_of_mem {segments : List String} {ws : List Token} (mem : accessor segments ∈ ws) :
    AccessorPath.ofSegments segments ∈ paths ws :=
  List.mem_filterMap.2 ⟨_, mem, rfl⟩

theorem Repeats.clausePath_eq {segments : List String} {ws zs : List Token} {after : Bool}
    (h : Repeats (accessor segments) after ws zs)
    (own : AccessorPath.ofSegments segments = clausePath ws) : clausePath zs = clausePath ws := by
  induction h with
  | nil => rfl
  | @keep after w ws zs _ ih =>
    cases w with
    | accessor _ | operator _ => rfl
    | connective _ | openParen | closeParen | literal _ => exact ih own
  | insert => exact own

theorem Repeats.mem_or {copy : Token} {ws zs : List Token} {after : Bool}
    (h : Repeats copy after ws zs) {w : Token} (mem : w ∈ zs) : w = copy ∨ w ∈ ws := by
  induction h with
  | nil => cases mem
  | keep _ ih =>
    rcases List.mem_cons.1 mem with rfl | mem
    · exact .inr List.mem_cons_self
    · exact (ih mem).imp_right (List.mem_cons_of_mem _)
  | insert _ _ ih =>
    rcases List.mem_cons.1 mem with rfl | mem
    · exact .inl rfl
    rcases List.mem_cons.1 mem with rfl | mem
    · exact .inr List.mem_cons_self
    · exact (ih mem).imp_right (List.mem_cons_of_mem _)

theorem Repeats.path_of_mem {segments : List String} {ws zs : List Token} {after : Bool}
    (h : Repeats (accessor segments) after ws zs) {path : AccessorPath} (mem : path ∈ paths zs) :
    path = .ofSegments segments ∨ path ∈ paths ws := by
  obtain ⟨w, mem, path'⟩ := List.mem_filterMap.1 mem
  rcases h.mem_or mem with rfl | mem
  · exact .inl (Option.some.inj path').symm
  · exact .inr (List.mem_filterMap.2 ⟨w, mem, path'⟩)

theorem clausePath_insert {w : Token} (other : w.isBinding = false) (before after : List Token) :
    clausePath (before ++ w :: after) = clausePath (before ++ after) := by
  induction before with
  | nil => cases w <;> first | rfl | cases other
  | cons v before ih =>
    cases v with
    | accessor _ | operator _ => rfl
    | connective _ | openParen | closeParen | literal _ => exact ih

theorem paths_insert {w : Token} (other : w.isBinding = false) (before after : List Token) :
    paths (before ++ w :: after) = paths (before ++ after) := by
  cases w with
  | accessor _ | operator _ => cases other
  | connective _ | openParen | closeParen | literal _ =>
    rw [paths, paths, List.filterMap_append, List.filterMap_append, List.filterMap_cons_none rfl]

theorem operatorCount_insert {w : Token} (other : w.isBinding = false)
    (before after : List Token) :
    operatorCount (before ++ w :: after) = operatorCount (before ++ after) := by
  cases w with
  | accessor _ | operator _ => cases other
  | connective _ | openParen | closeParen | literal _ => simp [operatorCount, isOperator]

/-! ### What the characters of a token are -/

theorem ofWord_cases (segments : List String) :
    ofWord segments = accessor segments ∨ ∃ l, ofWord segments = literal l := by
  unfold ofWord
  split
  · exact .inr ⟨_, rfl⟩
  · exact .inr ⟨_, rfl⟩
  · exact .inr ⟨_, rfl⟩
  · exact .inl rfl

/-- Nothing goes on with a token after which a term may start. -/
theorem Spelling.more_of_opens {cs : List Char} {t : Token} {more : Char → Bool}
    (spelled : Spelling cs t more) (opens : t.opens = true) : more = fun _ => false := by
  cases spelled with
  | openParen | connective => rfl
  | closeParen | operator | text | number => cases opens
  | @word first others =>
    rcases ofWord_cases (String.ofList first :: others.map String.ofList) with word | ⟨l, word⟩ <;>
      rw [word] at opens <;> cases opens

theorem Spelling.more_of_isAccessor {cs : List Char} {t : Token} {more : Char → Bool}
    (spelled : Spelling cs t more) (accessor : t.isAccessor = true) : more = continuesWord := by
  cases spelled with
  | word => rfl
  | openParen | connective | closeParen | operator | text | number => cases accessor

/-- A word ends where a token starts that takes an accessor. -/
theorem Spelling.stops_word {cs : List Char} {t : Token} {more : Char → Bool}
    (spelled : Spelling cs t more) (takes : t.takesAccessor = true) (rest : List Char) :
    Stops continuesWord (cs ++ rest) := by
  cases spelled with
  | openParen => exact stops_cons_iff.2 rfl
  | operator op => cases op <;> exact stops_cons_iff.2 rfl
  | connective | closeParen | text | number => cases takes
  | @word first others =>
    rcases ofWord_cases (String.ofList first :: others.map String.ofList) with word | ⟨l, word⟩ <;>
      rw [word] at takes <;> cases takes

end Token

namespace Piece

open Token (Precedes Spelling continuesWord)

def isAccessor : Piece → Bool
  | blank _ => false
  | word token _ => token.isAccessor

/-- A piece is put in front of some operators and opening parentheses that have no accessor. The
flag tells whether the token before is an accessor. -/
inductive Repeats (copy : Piece) : Bool → List Piece → List Piece → Prop
  | nil {after : Bool} : Repeats copy after [] []
  | blank {after : Bool} {c : Char} {ps qs : List Piece} (more : Repeats copy after ps qs) :
      Repeats copy after (blank c :: ps) (blank c :: qs)
  | keep {after : Bool} {token : Token} {lexeme : List Char} {ps qs : List Piece}
      (more : Repeats copy token.isAccessor ps qs) :
      Repeats copy after (word token lexeme :: ps) (word token lexeme :: qs)
  | insert {token : Token} {lexeme : List Char} {ps qs : List Piece}
      (takes : token.takesAccessor = true) (more : Repeats copy false ps qs) :
      Repeats copy false (word token lexeme :: ps) (copy :: word token lexeme :: qs)

theorem Repeats.words {token : Token} {lexeme : List Char} {after : Bool} {ps qs : List Piece}
    (h : Repeats (word token lexeme) after ps qs) :
    Token.Repeats token after (words ps) (words qs) := by
  induction h with
  | nil => exact .nil
  | blank _ ih => exact ih
  | keep _ ih => exact .keep ih
  | insert takes _ ih => exact .insert takes ih

theorem mem_words_of_mem {token : Token} {lexeme : List Char} {ps : List Piece}
    (mem : word token lexeme ∈ ps) : token ∈ Piece.words ps :=
  List.mem_filterMap.2 ⟨_, mem, rfl⟩

theorem Legible.exists_spelling {ps : List Piece} (legible : Legible ps) {token : Token}
    {lexeme : List Char} (mem : word token lexeme ∈ ps) : ∃ more, Spelling lexeme token more := by
  induction ps with
  | nil => cases mem
  | cons p ps ih =>
    rcases List.mem_cons.1 mem with rfl | later
    · obtain ⟨⟨more, spelled, -⟩, -⟩ := legible
      exact ⟨more, spelled⟩
    · cases p with
      | blank c => exact ih legible.2 later
      | word _ _ => exact ih legible.2 later

theorem words_filter (ps : List Piece) :
    words (ps.filter fun p => !p.isAccessor) = (words ps).filter fun w => !w.isAccessor := by
  induction ps with
  | nil => rfl
  | cons p ps ih =>
    cases p with
    | blank c => exact ih
    | word token lexeme =>
      rcases accessor : token.isAccessor with _ | _
      · rw [List.filter_cons_of_pos (by simp [isAccessor, accessor]), words_word, words_word, ih,
          List.filter_cons_of_pos (by simp [accessor])]
      · rw [List.filter_cons_of_neg (by simp [isAccessor, accessor]), words_word, ih,
          List.filter_cons_of_neg (by simp [accessor])]

theorem stops_append_congr {more : Char → Bool} {cs : List Char} (some : cs ≠ [])
    {rest : List Char} (stops : Stops more (cs ++ rest)) (rest' : List Char) : Stops more (cs ++ rest') := by
  cases cs with
  | nil => exact absurd rfl some
  | cons c cs => exact stops

/-- Without its accessors a clause is lexed to the other tokens. -/
theorem legible_filter {ps : List Piece} (legible : Legible ps)
    (chain : (words ps).IsChain Precedes) : Legible (ps.filter fun p => !p.isAccessor) := by
  induction ps with
  | nil => trivial
  | cons p ps ih =>
    cases p with
    | blank c => exact ⟨legible.1, ih legible.2 chain⟩
    | word token lexeme =>
      obtain ⟨⟨more, spelled, stops⟩, legible⟩ := legible
      have others := ih legible (List.isChain_of_isChain_cons chain)
      rcases accessor : token.isAccessor with _ | _
      · rw [List.filter_cons_of_pos (by simp [isAccessor, accessor])]
        refine ⟨⟨more, spelled, ?_⟩, others⟩
        cases ps with
        | nil => exact stops
        | cons p ps =>
          cases p with
          | blank c => exact stops
          | word token' lexeme' =>
            rcases accessor' : token'.isAccessor with _ | _
            · rw [List.filter_cons_of_pos (by simp [isAccessor, accessor'])]
              obtain ⟨⟨_, spelled', -⟩, -⟩ := legible
              exact stops_append_congr spelled'.ne_nil stops _
            · have precedes := (List.isChain_cons_cons.1 chain).1
              rw [spelled.more_of_opens (precedes.1 accessor')]
              exact stops_false _
      · rw [List.filter_cons_of_neg (by simp [isAccessor, accessor])]
        exact others

theorem Repeats.stops {copy : Piece} {token : Token} {lexeme : List Char} {more : Char → Bool}
    {ps qs : List Piece} (h : Repeats copy token.isAccessor ps qs)
    (spelled : Spelling lexeme token more) (stops : Stops more (text ps)) (legible : Legible ps)
    (chain : (token :: Piece.words ps).IsChain Precedes) : Stops more (text qs) := by
  generalize flag : token.isAccessor = after at h
  cases h with
  | nil => exact stops
  | blank => exact stops
  | keep =>
    obtain ⟨⟨_, spelled', -⟩, -⟩ := legible
    exact stops_append_congr spelled'.ne_nil stops _
  | insert takes =>
    have precedes := (List.isChain_cons_cons.1 chain).1
    rcases precedes.2 takes with opens | accessor
    · rw [spelled.more_of_opens opens]
      exact stops_false _
    · rw [flag] at accessor
      cases accessor

/-- With an accessor repeated, a clause is lexed to its tokens and the copies. -/
theorem Repeats.legible {token : Token} {lexeme : List Char} {after : Bool} {ps qs : List Piece}
    (h : Repeats (word token lexeme) after ps qs) (spelled : Spelling lexeme token continuesWord)
    (legible : Legible ps) (chain : (Piece.words ps).IsChain Precedes) : Legible qs := by
  induction h with
  | nil => trivial
  | blank _ ih => exact ⟨legible.1, ih legible.2 chain⟩
  | keep h ih =>
    obtain ⟨⟨more, spelled', stops⟩, legible⟩ := legible
    exact ⟨⟨more, spelled', h.stops spelled' stops legible chain⟩,
      ih legible (List.isChain_of_isChain_cons chain)⟩
  | @insert w _ _ _ takes h ih =>
    obtain ⟨⟨more, spelled', stops⟩, legible⟩ := legible
    have other : w.isAccessor = false := by cases w <;> first | rfl | cases takes
    have stops' := Repeats.stops (other ▸ h) spelled' stops legible chain
    exact ⟨⟨_, spelled, spelled'.stops_word takes _⟩, ⟨more, spelled', stops'⟩,
      ih legible (List.isChain_of_isChain_cons chain)⟩

/-- A parenthesis may be put between any two pieces. -/
theorem legible_insert {token : Token} {c : Char} (spelled : Spelling [c] token fun _ => false)
    (paren : c = '(' ∨ c = ')') {before after : List Piece} (legible : Legible (before ++ after)) :
    Legible (before ++ word token [c] :: after) := by
  induction before with
  | nil => exact ⟨⟨_, spelled, stops_false _⟩, legible⟩
  | cons p before ih =>
    cases p with
    | blank c => exact ⟨legible.1, ih legible.2⟩
    | word token' lexeme' =>
      obtain ⟨⟨more, spelled', stops⟩, legible⟩ := legible
      refine ⟨⟨more, spelled', ?_⟩, ih legible⟩
      cases before with
      | nil =>
        refine stops_cons_iff.2 ?_
        rcases paren with rfl | rfl
        · exact spelled'.more_paren.1
        · exact spelled'.more_paren.2
      | cons p before =>
        cases p with
        | blank c => exact stops
        | word token'' lexeme'' =>
          obtain ⟨⟨_, spelled'', -⟩, -⟩ := legible
          have stops : Stops more (lexeme'' ++ text (before ++ after)) := stops
          exact stops_append_congr spelled''.ne_nil stops _

end Piece

/-! ### Edited clauses -/

namespace Clause

open Piece (Legible text words located)

variable {registry : Registry} {subject : String} {limits : Limits}

/-- Pieces that are accepted: their tokens have a derivation and pass all checks. -/
structure Reading (registry : Registry) (subject : String) (limits : Limits)
    (a : ResolvedAccessor) (ps : List Piece) (d : Derivation .orExpression) : Prop where
  legible : Legible ps
  small : Text.byteLength (text ps) ≤ limits.maxClauseBytes
  derived : d.words = words ps
  shallow : Token.parenDepth (words ps) ≤ limits.maxNesting
  few : Token.operatorCount (words ps) ≤ limits.maxComparisons
  resolved : registry.resolve subject (Token.clausePath (words ps)) = .ok a
  agree : ∀ path ∈ Token.paths (words ps), path = Token.clausePath (words ps)

theorem Reading.chain {a : ResolvedAccessor} {ps : List Piece} {d : Derivation .orExpression}
    (h : Reading registry subject limits a ps d) : (words ps).IsChain Token.Precedes :=
  h.derived ▸ d.isChain_words

theorem exists_reading_of_parse {clause : String} {c : Clause}
    (h : parse registry subject limits clause = .ok c) :
    ∃ ps d, Reading registry subject limits c.accessor ps d ∧ text ps = clause.toList ∧
      Token.ofClause clause = .ok ⟨located 0 ps, clause.utf8ByteSize⟩ ∧
      d.tokens = located 0 ps ∧ d.tree = c.root := by
  obtain ⟨small, stream, lexed, accepted⟩ := parse_eq_ok_iff.1 h
  obtain ⟨ps, legible, same, -, rfl⟩ := Token.ofClause_eq_ok_iff.1 lexed
  obtain ⟨d, spelled, shallow, few, resolved, agree, root⟩ := ofTokens_eq_ok_iff.1 accepted
  rw [Piece.map_token_located] at shallow few resolved agree
  refine ⟨ps, d, ⟨legible, ?_, ?_, shallow, few, resolved, agree⟩, same, lexed, spelled, root⟩
  · rw [← Text.utf8ByteSize_ofList, same, String.ofList_toList]
    exact small
  · rw [Derivation.words, spelled, Piece.map_token_located]

theorem Reading.exists_parse {a : ResolvedAccessor} {ps : List Piece} {d : Derivation .orExpression}
    (h : Reading registry subject limits a ps d) :
    ∃ c, parse registry subject limits (String.ofList (text ps)) = .ok c ∧ c.accessor = a ∧
      c.root.plain = d.plain.tree := by
  have some : words ps ≠ [] := by
    rw [← h.derived]
    obtain ⟨w, mem, -⟩ := d.exists_isBinding trivial
    exact List.ne_nil_of_mem mem
  have lexed : Token.ofClause (String.ofList (text ps)) =
      .ok ⟨located 0 ps, (String.ofList (text ps)).utf8ByteSize⟩ :=
    Token.ofClause_eq_ok_iff.2 ⟨ps, h.legible, String.toList_ofList.symm, some, rfl⟩
  obtain ⟨d', spelled⟩ : ∃ d' : Derivation .orExpression, d'.tokens = located 0 ps :=
    d.exists_tokens_eq (by rw [Piece.map_token_located, h.derived])
  have accepted : ofTokens ⟨registry, subject, limits, (String.ofList (text ps)).utf8ByteSize⟩
      (located 0 ps) = .ok ⟨a, d'.tree⟩ := by
    refine ofTokens_eq_ok_iff.2 ⟨d', spelled, ?_⟩
    rw [Piece.map_token_located]
    exact ⟨h.shallow, h.few, h.resolved, h.agree, rfl⟩
  refine ⟨⟨a, d'.tree⟩, parse_eq_ok_iff.2 ⟨?_, _, lexed, accepted⟩, rfl, ?_⟩
  · rw [Text.utf8ByteSize_ofList]
    exact h.small
  · have same : d'.plain = d.plain := by
      refine Derivation.plain_eq_of_words_eq ?_
      rw [Derivation.words, spelled, Piece.map_token_located, h.derived]
    rw [← same, d'.tree_plain]
    rfl

theorem byteLength_filter_le (keep : Piece → Bool) (ps : List Piece) :
    Text.byteLength (text (ps.filter keep)) ≤ Text.byteLength (text ps) := by
  induction ps with
  | nil => exact Nat.le_refl _
  | cons p ps ih =>
    have whole : text (p :: ps) = p.chars ++ text ps := List.flatMap_cons
    rcases kept : keep p with _ | _
    · rw [List.filter_cons_of_neg (by simp [kept]), whole, Text.byteLength_append]
      exact Nat.le_trans ih (Nat.le_add_left _ _)
    · have part : text (p :: ps.filter keep) = p.chars ++ text (ps.filter keep) := List.flatMap_cons
      rw [List.filter_cons_of_pos kept, whole, part, Text.byteLength_append, Text.byteLength_append]
      exact Nat.add_le_add_left ih _

/-- Every path of a subject starts at the fact itself. -/
theorem exists_resolve_self {path : AccessorPath} {a : ResolvedAccessor}
    (h : registry.resolve subject path = .ok a) : ∃ a', registry.resolve subject ⟨[]⟩ = .ok a' := by
  simp only [Registry.resolve, bind_eq_ok_iff] at h ⊢
  obtain ⟨start, found, -⟩ := h
  exact ⟨_, start, found, ([], start), rfl, rfl⟩

theorem Reading.elided {a : ResolvedAccessor} {ps : List Piece} {d : Derivation .orExpression}
    (h : Reading registry subject limits a ps d) :
    ∃ a', a'.path = ⟨[]⟩ ∧
      Reading registry subject limits a' (ps.filter fun p => !p.isAccessor) d.elided := by
  have paths : Token.paths (words (ps.filter fun p => !p.isAccessor)) = [] := by
    rw [Piece.words_filter, Token.paths_filter]
  have path := Token.clausePath_of_paths_eq_nil paths
  obtain ⟨a', resolved⟩ := exists_resolve_self h.resolved
  refine ⟨a', resolve_path resolved, Piece.legible_filter h.legible h.chain, ?_, ?_, ?_, ?_, ?_, ?_⟩
  · exact Nat.le_trans (byteLength_filter_le _ ps) h.small
  · rw [d.words_elided, h.derived, Piece.words_filter]
  · rw [Piece.words_filter, Token.parenDepth, Token.deepest_filter]
    exact h.shallow
  · rw [Piece.words_filter, Token.operatorCount_filter]
    exact h.few
  · rw [path]
    exact resolved
  · rw [paths]
    exact List.forall_mem_nil _

/-- The piece that may be repeated in a clause: an accessor of its own, or `this` if it has none. -/
def Own (ps : List Piece) (copy : Piece) : Prop :=
  (copy ∈ ps ∧ copy.isAccessor = true) ∨
    ((∀ p ∈ ps, p.isAccessor = false) ∧ copy = .word (.accessor ["this"]) "this".toList)

theorem Reading.own {a : ResolvedAccessor} {ps : List Piece} {d : Derivation .orExpression}
    (h : Reading registry subject limits a ps d) {copy : Piece} (own : Own ps copy) :
    ∃ segments lexeme, copy = .word (.accessor segments) lexeme ∧
      Token.Spelling lexeme (.accessor segments) Token.continuesWord ∧
      AccessorPath.ofSegments segments = Token.clausePath (words ps) := by
  rcases own with ⟨mem, accessor⟩ | ⟨none, rfl⟩
  · cases copy with
    | blank c => cases accessor
    | word token lexeme =>
      obtain ⟨more, spelled⟩ := h.legible.exists_spelling mem
      cases token with
      | accessor segments =>
        have more := spelled.more_of_isAccessor rfl
        have path := Token.mem_paths_of_mem (Piece.mem_words_of_mem mem)
        exact ⟨segments, lexeme, rfl, more ▸ spelled, h.agree _ path⟩
      | operator _ | connective _ | openParen | closeParen | literal _ => cases accessor
  · have paths : Token.paths (words ps) = [] := by
      rw [← Token.paths_filter (words ps), ← Piece.words_filter]
      rw [List.filter_eq_self.2 fun p mem => by simp [none p mem]]
    have spelled := @Token.Spelling.word "this".toList [] rfl (List.forall_mem_nil _)
    exact ⟨_, _, rfl, spelled, (Token.clausePath_of_paths_eq_nil paths).symm⟩

theorem Reading.repeated {a : ResolvedAccessor} {ps qs : List Piece} {d : Derivation .orExpression}
    (h : Reading registry subject limits a ps d) {copy : Piece} (own : Own ps copy)
    (repeats : Piece.Repeats copy false ps qs)
    (small : Text.byteLength (text qs) ≤ limits.maxClauseBytes) :
    ∃ d', Reading registry subject limits a qs d' ∧ d'.plain.tree = d.plain.tree := by
  obtain ⟨segments, lexeme, rfl, spelled, path⟩ := h.own own
  have words' := repeats.words
  obtain ⟨d', zs, derived, last⟩ : ∃ (d' : Derivation .orExpression) (zs : List Token),
      words qs = d'.words ++ zs ∧ Token.Repeats (.accessor segments) false [] zs := by
    refine d.exists_of_repeats ?_
    rw [List.append_nil, h.derived]
    exact words'
  cases last
  rw [List.append_nil] at derived
  have filter := words'.filter_eq rfl
  have clausePath := words'.clausePath_eq path
  refine ⟨d', ⟨repeats.legible spelled h.legible h.chain, small, derived.symm, ?_, ?_, ?_, ?_⟩, ?_⟩
  · rw [Token.parenDepth, ← Token.deepest_filter, filter, Token.deepest_filter]
    exact h.shallow
  · rw [← Token.operatorCount_filter, filter, Token.operatorCount_filter]
    exact h.few
  · rw [clausePath]
    exact h.resolved
  · intro path' mem
    rw [clausePath]
    rcases words'.path_of_mem mem with rfl | mem
    · exact path
    · exact h.agree path' mem
  · refine Derivation.plain_tree_eq_of_filter_eq ?_
    rw [← derived, filter, h.derived]

theorem Reading.parenthesized {a : ResolvedAccessor} {before mid after : List Piece}
    {d : Derivation .orExpression}
    (h : Reading registry subject limits a (before ++ mid ++ after) d) {m : Symbol}
    {e : Derivation m} (expression : m.IsExpression)
    (part : Derivation.Part e d (words before) (words after)) {qs : List Piece}
    (enclosed : qs = before ++ .word .openParen ['('] ::
      (mid ++ .word .closeParen [')'] :: after))
    (small : Text.byteLength (text qs) ≤ limits.maxClauseBytes)
    (shallow : Token.parenDepth (words qs) ≤ limits.maxNesting) :
    ∃ d', Reading registry subject limits a qs d' ∧ d'.tree = d.tree := by
  obtain ⟨e', around, same⟩ := e.exists_parenthesized expression
  obtain ⟨d', derived, tree⟩ := part.exists_replaced same
  have inside : words mid = e.words := by
    have whole := h.derived.symm.trans part.words_eq
    simpa using whole
  have words' : words qs = words before ++ .openParen ::
      (words mid ++ .closeParen :: words after) := by
    subst enclosed
    simp
  have legible : Legible qs := by
    subst enclosed
    refine Piece.legible_insert .openParen (.inl rfl) ?_
    rw [← List.append_assoc]
    exact Piece.legible_insert .closeParen (.inr rfl) h.legible
  refine ⟨d', ⟨legible, small, ?_, shallow, ?_, ?_, ?_⟩, tree⟩
  · rw [derived, around, words', inside]
    simp
  · have few := h.few
    rw [words', Token.operatorCount_insert rfl, ← List.append_assoc, Token.operatorCount_insert rfl]
    simpa using few
  · have resolved := h.resolved
    rw [words', Token.clausePath_insert rfl, ← List.append_assoc, Token.clausePath_insert rfl]
    simpa using resolved
  · have agree := h.agree
    rw [words', Token.clausePath_insert rfl, Token.paths_insert rfl, ← List.append_assoc,
      Token.clausePath_insert rfl, Token.paths_insert rfl]
    simpa using agree

/-- Leaving all accessors out of a clause that is accepted, repeating one of its accessors where
none is, and putting parentheses around a part of it gives clauses that are accepted with the same
tree up to positions: without accessors about the fact itself, otherwise with the same accessor. -/
theorem parse_edited {clause : String} {c : Clause}
    (h : parse registry subject limits clause = .ok c) :
    ∃ ps, Legible ps ∧ text ps = clause.toList ∧
      Token.ofClause clause = .ok ⟨located 0 ps, clause.utf8ByteSize⟩ ∧
      ∃ d : Derivation .orExpression, d.tokens = located 0 ps ∧
        (∃ c', parse registry subject limits
            (String.ofList (text (ps.filter fun p => !p.isAccessor))) = .ok c' ∧
          c'.accessor.path = ⟨[]⟩ ∧ c'.root.plain = c.root.plain) ∧
        (∀ copy qs, Own ps copy → Piece.Repeats copy false ps qs →
          Text.byteLength (text qs) ≤ limits.maxClauseBytes →
          ∃ c', parse registry subject limits (String.ofList (text qs)) = .ok c' ∧
            c'.accessor = c.accessor ∧ c'.root.plain = c.root.plain) ∧
        (∀ (m : Symbol) (e : Derivation m) (before mid after qs : List Piece), m.IsExpression →
          ps = before ++ mid ++ after → Derivation.Part e d (words before) (words after) →
          qs = before ++ .word .openParen ['('] :: (mid ++ .word .closeParen [')'] :: after) →
          Text.byteLength (text qs) ≤ limits.maxClauseBytes →
          Token.parenDepth (words qs) ≤ limits.maxNesting →
          ∃ c', parse registry subject limits (String.ofList (text qs)) = .ok c' ∧
            c'.accessor = c.accessor ∧ c'.root.plain = c.root.plain) := by
  obtain ⟨ps, d, reading, same, lexed, spelled, root⟩ := exists_reading_of_parse h
  have plain : d.plain.tree = c.root.plain := by
    rw [d.tree_plain, root]
    rfl
  refine ⟨ps, reading.legible, same, lexed, d, spelled, ?_, ?_, ?_⟩
  · obtain ⟨a', path, elided⟩ := reading.elided
    obtain ⟨c', accepted, rfl, tree⟩ := elided.exists_parse
    refine ⟨c', accepted, path, ?_⟩
    rw [tree, d.elided.tree_plain, d.tree_elided, ← d.tree_plain, plain]
  · intro copy qs own repeats small
    obtain ⟨d', reading', tree'⟩ := reading.repeated own repeats small
    obtain ⟨c', accepted, accessor, tree⟩ := reading'.exists_parse
    exact ⟨c', accepted, accessor, by rw [tree, tree', plain]⟩
  · intro m e before mid after qs expression pieces part enclosed small shallow
    obtain ⟨d', reading', tree'⟩ := (pieces ▸ reading).parenthesized expression part enclosed small shallow
    obtain ⟨c', accepted, accessor, tree⟩ := reading'.exists_parse
    refine ⟨c', accepted, accessor, ?_⟩
    rw [tree, d'.tree_plain, tree', ← d.tree_plain, plain]

/-- The pieces of `this == 1 || == 2`. -/
def oneOrTwo : List Piece :=
  [.word (.accessor ["this"]) "this".toList, .blank ' ', .word (.operator .eq) "==".toList,
    .blank ' ', .word (.literal (.integer 1)) "1".toList, .blank ' ',
    .word (.connective .or) "||".toList, .blank ' ', .word (.operator .eq) "==".toList,
    .blank ' ', .word (.literal (.integer 2)) "2".toList]

theorem legible_oneOrTwo : Legible oneOrTwo := by
  have this := @Token.Spelling.word "this".toList [] rfl (List.forall_mem_nil _)
  have digit {c : Char} (digit : c.isDigit = true) :
      Numeral.Spelling [c] ⟨false, [c], [], none⟩ :=
    ⟨⟨List.cons_ne_nil _ _, by simpa using digit⟩, .inl rfl, [], .absent, rfl⟩
  have one := Token.Spelling.number (l := .integer 1) (digit (c := '1') rfl) (by decide +kernel)
  have two := Token.Spelling.number (l := .integer 2) (digit (c := '2') rfl) (by decide +kernel)
  exact ⟨⟨_, this, stops_cons_iff.2 rfl⟩, rfl, ⟨_, .operator .eq, stops_cons_iff.2 rfl⟩, rfl,
    ⟨_, one, stops_cons_iff.2 rfl⟩, rfl, ⟨_, .connective .or, stops_cons_iff.2 rfl⟩, rfl,
    ⟨_, .operator .eq, stops_cons_iff.2 rfl⟩, rfl, ⟨_, two, .nil _⟩, trivial⟩

theorem parse_one_or_two_edited :
    ∃ c, parse .builtin "Integer" {} "this == 1 || == 2" = .ok c ∧
      (∃ c', parse .builtin "Integer" {} " == 1 || == 2" = .ok c' ∧
        c'.accessor.path = ⟨[]⟩ ∧ c'.root.plain = c.root.plain) ∧
      (∃ c', parse .builtin "Integer" {} "this == 1 || this== 2" = .ok c' ∧
        c'.accessor = c.accessor ∧ c'.root.plain = c.root.plain) ∧
      ∃ c', parse .builtin "Integer" {} "(this == 1) || == 2" = .ok c' ∧
        c'.accessor = c.accessor ∧ c'.root.plain = c.root.plain := by
  let tree := Constraint.chain .or [.leaf ⟨.eq, .integer 1, 5⟩, .leaf ⟨.eq, .integer 2, 13⟩]
  let accessor : ResolvedAccessor := ⟨⟨[]⟩, "Integer", [], ⟨"Integer", .scalar .integer⟩⟩
  have parsed : parse .builtin "Integer" {} "this == 1 || == 2" = .ok ⟨accessor, tree⟩ := by cbv
  obtain ⟨ps, legible, same, -, d, spelled, elided, repeated, enclosed⟩ := parse_edited parsed
  obtain rfl := legible.eq_of_text_eq legible_oneOrTwo same
  let first : Derivation .andExpression :=
    .and (.comparison (some (["this"], 0)) .eq 5 (.integer 1) 8) .andEnd
  let others : Derivation .orOthers :=
    .orMore 10 (.and (.comparison none .eq 13 (.integer 2) 16) .andEnd) .orEnd
  obtain rfl : d = .or first others := Derivation.eq_of_tokens_eq spelled
  refine ⟨_, parsed, elided, ?_, ?_⟩
  · let copy : Piece := .word (.accessor ["this"]) "this".toList
    exact repeated copy (oneOrTwo.take 8 ++ copy :: oneOrTwo.drop 8) (.inl ⟨by decide, rfl⟩)
      (.keep <| .blank <| .keep <| .blank <| .keep <| .blank <| .keep <| .blank <| .insert rfl <|
        .blank <| .keep .nil) (by decide)
  · exact enclosed .andExpression first [] (oneOrTwo.take 5) (oneOrTwo.drop 5) _ trivial rfl
      (.orFirst others .self) rfl (by decide) (by decide)

end Clause

end HalfBinary
