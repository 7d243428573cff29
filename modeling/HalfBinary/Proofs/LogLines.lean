import HalfBinary.Proofs.AuditTrail
import HalfBinary.Proofs.Disks
import HalfBinary.Proofs.JsonTexts
import HalfBinary.Proofs.Positions
import HalfBinary.Proofs.Utf8

/-!
# Log lines

Each clause that a compiler with a log is given adds one line to the log, whatever its text and its
subject are: the bytes that are added split at the newlines into the lines, and each line is read as
the event of its clause (`compileAll_lines`).
-/

namespace HalfBinary

/-! ### Bytes of lines -/

namespace Text

theorem toUTF8_append (s t : String) : (s ++ t).toUTF8 = s.toUTF8 ++ t.toUTF8 := ByteArray.ext rfl

/-- No byte of a longer character is one of a character of one byte. -/
theorem le_of_mem_utf8EncodeChar {c : Char} (wide : ¬ c.val ≤ 127) {b : UInt8}
    (mem : b ∈ String.utf8EncodeChar c) : 128 ≤ b.toNat := by
  have large : ¬ c.val.toNat ≤ 127 := fun small => wide (UInt32.le_iff_toNat_le.2 small)
  unfold String.utf8EncodeChar at mem
  simp only [large, if_false] at mem
  split at mem
  · simp at mem
    rcases mem with rfl | rfl <;> simp <;> omega
  split at mem
  · simp at mem
    rcases mem with rfl | rfl | rfl <;> simp <;> omega
  · simp at mem
    rcases mem with rfl | rfl | rfl | rfl <;> simp <;> omega

/-- The byte of the newline. -/
def newline : UInt8 := 10

theorem newline_notMem_toUTF8 {s : String} (single : '\n' ∉ s.toList) :
    newline ∉ s.toUTF8.data.toList := by
  rw [toUTF8_toList]
  intro mem
  obtain ⟨c, among, byte⟩ := List.mem_flatMap.1 mem
  by_cases small : c.val ≤ 127
  · have encoded := String.utf8EncodeChar_eq_singleton (Char.utf8Size_eq_one_iff.2 small)
    rw [encoded, List.mem_singleton] at byte
    have code : 10 = c.val.toNat % 256 := congrArg UInt8.toNat byte
    have same : c = '\n' := by
      have small' : c.val.toNat ≤ 127 := UInt32.le_iff_toNat_le.1 small
      apply Char.ext
      rw [← UInt32.toNat_inj]
      show c.val.toNat = 10
      omega
    exact single (same ▸ among)
  · exact absurd (le_of_mem_utf8EncodeChar small byte) (by decide)

end Text

theorem splitOn_flatMap {α : Type} [BEq α] [LawfulBEq α] {x : α} {ls : List (List α)}
    (pieces : ∀ l ∈ ls, x ∉ l) : (ls.flatMap (· ++ [x])).splitOn x = ls ++ [[]] := by
  have joined : ls.flatMap (· ++ [x]) = [x].intercalate (ls ++ [[]]) := by
    induction ls with
    | nil => rfl
    | cons l ls ih =>
      rw [List.flatMap_cons, ih fun l' mem => pieces l' (List.mem_cons_of_mem l mem), List.cons_append,
        List.intercalate_cons_of_ne_nil (by simp)]
  rw [joined, List.splitOn_intercalate x (by simpa [or_imp, forall_and] using pieces) (by simp)]

theorem Program.toUTF8_joinLines (lines : List String) :
    (joinLines lines).toUTF8.data.toList =
      (lines.map (·.toUTF8.data.toList)).flatMap (· ++ [Text.newline]) := by
  have newline : "\n".toList.flatMap String.utf8EncodeChar = [Text.newline] := rfl
  simp only [Text.toUTF8_toList, joinLines, String.toList_join, List.flatMap_map, List.flatMap_assoc,
    String.toList_append, List.flatMap_append, newline]

/-! ### Sizes -/

theorem Piece.length_words_le {ps : List Piece} (legible : Legible ps) :
    (words ps).length ≤ Text.byteLength (text ps) := by
  induction ps with
  | nil => exact Nat.le_refl _
  | cons p ps ih =>
    cases p with
    | blank c =>
      have later := ih legible.2
      rw [words_blank, text_blank, Text.byteLength_cons]
      omega
    | word token lexeme =>
      obtain ⟨⟨more, spelled, -⟩, legible⟩ := legible
      have taken := Text.byteLength_pos spelled.ne_nil
      have later := ih legible
      rw [words_word, text_word, Text.byteLength_append, List.length_cons]
      omega

/-- A clause has no more operators than bytes. -/
theorem Token.operatorCount_le {source : String} {stream : TokenStream}
    (lexed : ofClause source = .ok stream) : operatorCount stream.words ≤ source.utf8ByteSize := by
  obtain ⟨ps, legible, same, -, rfl⟩ := ofClause_eq_ok_iff.1 lexed
  calc
    operatorCount (TokenStream.words ⟨Piece.located 0 ps, source.utf8ByteSize⟩) ≤
        (Piece.words ps).length := by
      rw [TokenStream.words, Piece.map_token_located]
      exact List.countP_le_length
    _ ≤ Text.byteLength (Piece.text ps) := Piece.length_words_le legible
    _ = source.utf8ByteSize := by rw [same, Text.byteLength_toList]

namespace Predicate

variable {registry : Registry} {subject source : String} {limits : Limits}

theorem leafCount_le {p : Predicate} (h : compile registry subject limits source = .ok p) :
    p.leafCount ≤ source.utf8ByteSize := by
  obtain ⟨stream, lexed, count⟩ := exists_leafCount_eq h
  rw [count]
  exact Token.operatorCount_le lexed

theorem offset_le {e : ClauseError} (h : compile registry subject limits source = .error e)
    {offset : Nat} (reported : e.offset? = some offset) : offset ≤ source.utf8ByteSize := by
  rcases compile_error h with rfl | unlexed | ⟨stream, lexed, among⟩
  · cases reported
  · rcases Token.ofClause_error unlexed with rfl | ⟨why, position, rfl⟩
    · cases reported
    · cases reported
      exact (Token.occurs_of_ofClause unlexed).isValid.1.le
  · cases among with
    | unplaced noOffset => cases noOffset.symm.trans reported
    | token mem names =>
      cases names.offset?_eq.symm.trans reported
      exact (Token.isValid_offset lexed mem).1
    | ended expected =>
      cases reported
      exact (Token.isValid_stop lexed).1

end Predicate

/-! ### Reading an event -/

namespace AuditEvent

/-- The numbers of the event, but for its time, have 64 bits. -/
def Fits (e : AuditEvent) : Prop :=
  e.clauseBytes < 2 ^ 64 ∧
    match e.outcome with
    | .compiled _ leafCount => leafCount < 2 ^ 64
    | .rejected _ offset => ∀ position ∈ offset, position < 2 ^ 64

theorem fits_ofResult {registry : Registry} {subject source : String} {limits : Limits}
    (size : source.utf8ByteSize < 2 ^ 64) :
    (ofResult subject source (Predicate.compile registry subject limits source)).Fits := by
  rcases answered : Predicate.compile registry subject limits source with e | p
  · refine ⟨size, fun position reported => ?_⟩
    exact lt_of_le_of_lt (Predicate.offset_le answered reported) size
  · exact ⟨size, lt_of_le_of_lt (Predicate.leafCount_le answered) size⟩

/-- The fields of the event, those after its time being read as they are. -/
theorem exists_fields (e : AuditEvent) : ∃ others : List (String × Json),
    (∀ time, e.toJson time =
      .object (("event", .text e.outcome.event) :: ("timestamp_ms", .nat time) :: others)) ∧
    ("event" :: "timestamp_ms" :: others.map Prod.fst).Nodup ∧
    (e.Fits → ∀ depth, Json.rereadFields? others (depth + 1) = some others) := by
  obtain ⟨subject, digest, size, outcome⟩ := e
  refine ⟨_, fun _ => rfl, ?_, ?_⟩
  · have distinct : ["event", "timestamp_ms", "subject_type", "clause_digest", "clause_bytes",
        "outcome", "accessor", "leaf_count", "error_kind", "error_offset"].Nodup := by decide
    cases outcome <;> exact distinct
  · rintro ⟨small, small'⟩ depth
    refine Json.rereadFields?_of_kept ?_
    have size' := Json.reread?_nat small (depth + 1)
    have digest' : Json.rereadFields? [("algorithm", .text digest.algorithm.label),
        ("value", .text digest.value)] depth = some _ := rfl
    cases outcome with
    | compiled accessor leafCount =>
      have leaves := Json.reread?_nat small' (depth + 1)
      simp [Outcome.fields, Json.reread?, size', digest', leaves]
    | rejected kind offset =>
      have position : (Json.ofOption .nat offset).reread? (depth + 1) =
          some (.ofOption .nat offset) := by
        cases offset with
        | none => rfl
        | some n => exact Json.reread?_nat (small' n rfl) (depth + 1)
      simp [Outcome.fields, Json.reread?, size', digest', position]

/-- The line of the event is read as the event, but for a time past 64 bits. -/
theorem exists_read_compact {e : AuditEvent} (fits : e.Fits) {time : Nat} (clock : time < 2 ^ 128) :
    ∃ row, Json.read (e.toJson time).compact = .ok row ∧
      (∀ name, name ≠ "timestamp_ms" → row.field? name = (e.toJson time).field? name) ∧
      (time < 2 ^ 64 → row = e.toJson time) := by
  obtain ⟨others, fields, distinct, kept⟩ := e.exists_fields
  obtain ⟨stamp, meant⟩ := Number.exists_ofNumeral?_ofInt (v := time) (by simpa using clock)
  have reread : (e.toJson time).reread? Json.maxDepth = some (.object
      (("event", .text e.outcome.event) :: ("timestamp_ms", .number stamp) :: others)) := by
    have later : Json.rereadFields? others 126 = some others := kept fits 125
    rw [fields, Json.maxDepth, Json.reread?, List.map_cons, List.map_cons, if_pos distinct]
    simp [Json.rereadFields?, Json.reread?, Json.nat, Json.whole, meant, later]
  refine ⟨_, Json.read_compact reread, ?_, ?_⟩
  · intro name other
    have apart : (name == "timestamp_ms") = false := by simpa using other
    rw [fields, Json.field?, Json.field?]
    simp only [List.lookup_cons, apart]
  · intro small
    rw [Number.ofNumeral?_ofInt (by omega) (by omega)] at meant
    cases meant
    exact (fields time).symm

end AuditEvent

/-! ### Writing a log -/

/-- The time that the clock of a host shows. -/
def Host.time {σ : Type} (host : Host (StateM σ)) (s : σ) : Nat := (host.clock.run s).1

/-- The writes of a host to a log succeed: what is appended comes after the bytes that are there.
The clock leaves the log as it is and shows a number of 128 bits. -/
structure Host.Appends {σ : Type} (host : Host (StateM σ)) (path : String)
    (log? : σ → Option ByteArray) : Prop where
  append : ∀ {s bytes}, log? s = some bytes → ∀ text,
    log? ((host.appendLog path text).run s).2 = some (bytes ++ text.toUTF8)
  clock : ∀ s, log? (host.clock.run s).2 = log? s
  time : ∀ s, host.time s < 2 ^ 128

/-- The line of an event at a time that the clock shows. -/
def AuditEvent.IsLine {σ : Type} (host : Host (StateM σ)) (e : AuditEvent) (line : String) : Prop :=
  ∃ s, line = (e.toJson (host.time s)).compact

namespace Disk

/-- The bytes of the file of a name in the working directory. -/
def log? (name : String) (d : Disk) : Option ByteArray :=
  match d.entries[[name]]? with
  | some (.file bytes) => some bytes
  | _ => none

theorem log?_eq_some_iff {name : String} {d : Disk} {bytes : ByteArray} :
    d.log? name = some bytes ↔ d.entries[[name]]? = some (.file bytes) := by
  unfold log?
  split
  · next found => simp [found]
  · next other =>
    exact ⟨nofun, fun found => absurd found (other bytes)⟩

/-- A file in the working directory can be appended to. -/
theorem host_appends {name : String} (short : name.utf8ByteSize ≤ maxNameBytes)
    (special : name ≠ "" ∧ name ≠ "." ∧ name ≠ "..")
    (plain : '/' ∉ name.toList ∧ '\x00' ∉ name.toList) : host.Appends name (log? name) where
  append {d bytes} present text := by
    rw [log?_eq_some_iff] at present ⊢
    show (d.appendLog name text).entries[[name]]? = _
    simp only [appendLog, resolve_of_name d short special plain, present]
    exact Std.TreeMap.getElem?_insert_self
  clock _ := rfl
  time _ := Nat.two_pow_pos 128

end Disk

namespace Program

variable {σ : Type} {host : Host (StateM σ)} {path : String} {log? : σ → Option ByteArray}

/-- An event adds its line to the log. -/
theorem exists_run_record (appends : host.Appends path log?) {s : σ} {bytes : ByteArray}
    (present : log? s = some bytes) (e : AuditEvent) : ∃ line s',
      (record host ⟨.file, some path⟩ e).run s = ((), s') ∧ e.IsLine host line ∧
        log? s' = some (bytes ++ (line ++ "\n").toUTF8) := by
  let s₁ := (host.clock.run s).2
  have kept : log? s₁ = some bytes := (appends.clock s).trans present
  refine ⟨_, ((host.appendLog path (e.line (host.time s))).run s₁).2, ?_, ⟨s, rfl⟩, ?_⟩
  · rw [record, StateT.run_bind]
    rfl
  · exact appends.append kept (e.line (host.time s))

/-- Events add their lines to the log in their order. -/
theorem exists_run_forM_record (appends : host.Appends path log?) (events : List AuditEvent) {s : σ}
    {bytes : ByteArray} (present : log? s = some bytes) : ∃ lines s',
      (events.forM (record host ⟨.file, some path⟩)).run s = ((), s') ∧
        List.Forall₂ (AuditEvent.IsLine host) events lines ∧
        log? s' = some (bytes ++ (joinLines lines).toUTF8) := by
  induction events generalizing s bytes with
  | nil =>
    refine ⟨[], s, rfl, .nil, ?_⟩
    rw [present]
    exact congrArg some ByteArray.append_empty.symm
  | cons e events ih =>
    obtain ⟨line, s₁, step, isLine, written⟩ := exists_run_record appends present e
    obtain ⟨lines, s', run, areLines, written'⟩ := ih written
    refine ⟨line :: lines, s', ?_, .cons isLine areLines, ?_⟩
    · show (record host ⟨.file, some path⟩ e >>= fun _ => events.forM _).run s = _
      rw [StateT.run_bind, step]
      exact run
    · have joined : joinLines (line :: lines) = line ++ "\n" ++ joinLines lines := by
        simp [joinLines]
      rw [written', joined, Text.toUTF8_append (line ++ "\n"), ByteArray.append_assoc]

end Program

namespace Compiler

/-- The event of a clause as a line of a log: the line has no newline, and it is read as an object
that says all of the event, its time included if that has 64 bits. -/
structure Call.Line {σ : Type} (host : Host (StateM σ)) (call : Call) (registry : Registry)
    (limits : Limits) (line : String) : Prop where
  single : Text.newline ∉ line.toUTF8.data.toList
  read : ∃ s row, line = ((call.event registry limits).toJson (host.time s)).compact ∧
    Json.read line = .ok row ∧ call.Logged (call.answer registry limits) row ∧
    (host.time s < 2 ^ 64 → row = (call.event registry limits).toJson (host.time s))

/-- What is logged of a clause is independent of the time. -/
theorem Call.Logged.congr {call : Call} {answer : Except ClauseError Predicate} {row row' : Json}
    (logged : call.Logged answer row)
    (same : ∀ name, name ≠ "timestamp_ms" → row'.field? name = row.field? name) :
    call.Logged answer row' where
  subject := (same _ (by decide)).trans logged.subject
  size := (same _ (by decide)).trans logged.size
  digest := (same _ (by decide)).trans logged.digest
  compiled p answered := by simpa [same] using logged.compiled p answered
  rejected e answered := by simpa [same] using logged.rejected e answered

theorem Call.line_of_isLine {σ : Type} {host : Host (StateM σ)} {call : Call}
    (clock : ∀ s, host.time s < 2 ^ 128) (size : call.source.utf8ByteSize < 2 ^ 64)
    {registry : Registry} {limits : Limits} {line : String}
    (isLine : (call.event registry limits).IsLine host line) :
    call.Line host registry limits line := by
  obtain ⟨s, rfl⟩ := isLine
  obtain ⟨row, read, same, whole⟩ :=
    AuditEvent.exists_read_compact (e := call.event registry limits) (AuditEvent.fits_ofResult size)
      (clock s)
  exact ⟨Text.newline_notMem_toUTF8 (Json.newline_notMem_compact _),
    s, row, rfl, read, (call.logged_event registry limits _).congr same, whole⟩

/-- Clauses that are compiled with a log, whatever their texts and subjects are, are answered as
each would be alone, and the log holds afterwards what it held before and one line for each of them,
in their order. The bytes that were added split at the newlines into these lines. Each is read as
the event of its clause. -/
theorem compileAll_lines {σ : Type} {host : Host (StateM σ)} {path : String}
    {log? : σ → Option ByteArray} (appends : host.Appends path log?) (registry : Registry)
    (limits : Limits) {s : σ} {bytes : ByteArray} (present : log? s = some bytes)
    (calls : List Call) (sizes : ∀ call ∈ calls, call.source.utf8ByteSize < 2 ^ 64) :
    ∃ lines s',
      ((⟨registry, limits, Program.record host ⟨.file, some path⟩⟩ : Compiler (StateM σ)).compileAll
          calls).run s =
        (calls.map fun call => Predicate.compile registry call.subject limits call.source, s') ∧
      log? s' = some (bytes ++ (Program.joinLines lines).toUTF8) ∧
      (Program.joinLines lines).toUTF8.data.toList.splitOn Text.newline =
        lines.map (·.toUTF8.data.toList) ++ [[]] ∧
      List.Forall₂ (fun call line => call.Line host registry limits line) calls lines := by
  obtain ⟨lines, s', run, areLines, written⟩ :=
    Program.exists_run_forM_record appends (calls.map (·.event registry limits)) present
  have each : List.Forall₂ (fun call line => call.Line host registry limits line) calls lines := by
    rw [List.forall₂_map_left_iff] at areLines
    refine ((List.forall₂_and_left calls lines).2 ⟨sizes, areLines⟩).imp ?_
    rintro call line ⟨size, isLine⟩
    exact call.line_of_isLine appends.time size isLine
  refine ⟨lines, s', ?_, written, ?_, each⟩
  · rw [compileAll_eq, StateT.run_bind, run]
    rfl
  · rw [Program.toUTF8_joinLines]
    refine splitOn_flatMap fun piece mem => ?_
    obtain ⟨line, among, rfl⟩ := List.mem_map.1 mem
    obtain ⟨call, isLine⟩ := exists_of_forall₂ each among
    exact isLine.single

/-- A subject that closes its string and starts another line makes one line only, and so does a
clause of two lines. -/
theorem compileAll_lines_forged :
    let forged : Call := ⟨"Integer\",\"outcome\":\"compiled\"\n\\", "== 1"⟩
    let wrapped : Call := ⟨"Integer", "== 1 ||\n== 2"⟩
    let sink := Program.record Disk.host ⟨.file, some "audit.jsonl"⟩
    let disk := Disk.ofEntries [(["audit.jsonl"], .file "seen\n".toUTF8)]
    ∃ first second after p,
      (compileAll ⟨.builtin, {}, sink⟩ [forged, wrapped]).run disk =
        ([.error (.unknownType forged.subject), .ok p], after) ∧
      after.log? "audit.jsonl" = some ("seen\n" ++ first ++ "\n" ++ second ++ "\n").toUTF8 ∧
      forged.Line Disk.host .builtin {} first ∧ wrapped.Line Disk.host .builtin {} second := by
  intro forged wrapped sink disk
  have unknown : forged.answer .builtin {} = .error (.unknownType forged.subject) := by cbv
  obtain ⟨p, compiled⟩ : ∃ p, wrapped.answer .builtin {} = .ok p := ⟨_, by cbv⟩
  have present : disk.log? "audit.jsonl" = some "seen\n".toUTF8 := rfl
  have appends : Disk.host.Appends "audit.jsonl" (Disk.log? "audit.jsonl") :=
    Disk.host_appends (by decide) (by decide) (by decide)
  have sizes : ∀ call ∈ [forged, wrapped], call.source.utf8ByteSize < 2 ^ 64 := by decide
  obtain ⟨lines, after, run, written, -, each⟩ :=
    compileAll_lines appends .builtin {} present [forged, wrapped] sizes
  obtain ⟨first, others, isFirst, later, rfl⟩ := List.forall₂_cons_left_iff.1 each
  obtain ⟨second, last, isSecond, none, rfl⟩ := List.forall₂_cons_left_iff.1 later
  obtain rfl := List.forall₂_nil_left_iff.1 none
  refine ⟨first, second, after, p, ?_, ?_, isFirst, isSecond⟩
  · rw [run, ← unknown, ← compiled]
    rfl
  · have joined : Program.joinLines [first, second] = first ++ "\n" ++ (second ++ "\n") := by
      simp [Program.joinLines]
    rw [written, joined, ← Text.toUTF8_append]
    simp only [String.append_assoc]

end Compiler

end HalfBinary
