import MonkeyLang.CommandLine
import MonkeyLang.Proofs.FirstError
import MonkeyLang.Proofs.Lines

/-!
# Reports of syntax errors

A script with syntax errors is not run.  Its errors are joined to one text, and that text is split
into lines again for the report.

## Main Statements

* `SyntaxError.oneLine_message_iff` — what text a message can quote that has line breaks
* `Reads.fits_and_found_mem` — an error of a source fits, and is about one of its tokens
* `complaintLines_eq` — the report has the lines of one message after those of another
* `script_report` — **the report of a script with syntax errors**

## Design Notes

A message names a file, asks for a name or a symbol, and quotes the offending token.  Illegal text
is made visible, and names, numbers, keywords and symbols have no line breaks.  The text of a string
is quoted as it is, and that is the only way for a message to have more than one line.
-/

namespace MonkeyLang

open Text

/-! ### Messages -/

theorem Location.oneLine_describe {l : Location} (h : ∀ file ∈ l.file, OneLine file.toList) :
    OneLine l.describe.toList := by
  unfold describe
  split
  · simp [isLineBreak]
  · next file hfile => simp [isLineBreak, h file hfile]

theorem isLineBreak_of_isWordPart {c : Char} (h : isWordPart c = true) : isLineBreak c = false :=
  isLineBreak_of_all (by decide) h

/-- The only lexemes that are described on several lines are strings that have several lines. -/
theorem Lexeme.oneLine_describe_iff {lexeme : Lexeme} (h : lexeme ≠ .eof → lexeme.Legible) :
    OneLine lexeme.describe.toList ↔ ∀ text, lexeme = .string text → OneLine text.toList := by
  cases lexeme with
  | eof => exact iff_of_true (by decide) nofun
  | illegal text =>
    refine iff_of_true ?_ nofun
    rw [describe, String.toList_ofList]
    intro d hd
    obtain ⟨c, -, hc⟩ := List.mem_flatMap.1 hd
    exact oneLine_visible c d hc
  | identifier name =>
    obtain ⟨hword, -⟩ := h nofun
    exact iff_of_true (fun c hc => isLineBreak_of_isWordPart (hword.isWordPart c hc)) nofun
  | integer digits =>
    obtain ⟨-, hdigits⟩ := h nofun
    refine iff_of_true (fun c hc => ?_) nofun
    exact isLineBreak_of_isWordPart (isWordPart_of_isDigit (hdigits c hc))
  | string text =>
    constructor
    · rintro htext _ ⟨⟩
      exact htext
    · exact fun htext => htext text rfl
  | keyword k => exact iff_of_true (by cases k <;> decide) nofun
  | symbol s => exact iff_of_true (by cases s <;> decide) nofun

namespace SyntaxError

variable {e : SyntaxError}

theorem oneLine_reason_iff (h : e.Fits) :
    OneLine e.reason.toList ↔ OneLine e.found.lexeme.describe.toList := by
  have hwhat (what : Expected) : OneLine what.text.toList := by
    cases what with
    | identifier => decide
    | symbol s => cases s <;> decide
  obtain ⟨cause, found⟩ := e
  cases cause with
  | expected what => simp [reason, hwhat, isLineBreak]
  | noExpression => simp [reason, isLineBreak]
  | integerTooLarge =>
    obtain ⟨digits, hdigits⟩ := h
    simp only at hdigits
    simp [reason, hdigits, Lexeme.describe, isLineBreak]
  | duplicateParameter =>
    obtain ⟨name, hname⟩ := h
    simp only at hname
    simp [reason, hname, Lexeme.describe, isLineBreak]

theorem closesLine_message (e : SyntaxError) : ClosesLine e.message.toList := by
  have hreason : ClosesLine e.reason.toList := by
    unfold reason
    split
    · rw [String.toList_append]
      exact (closesLine_quote _).append _
    · rw [String.toList_append]
      exact .append ⟨'d', rfl, rfl⟩ _
    · rw [String.toList_append]
      exact .append ⟨'r', rfl, rfl⟩ _
    · rw [String.toList_append]
      exact (closesLine_quote _).append _
  unfold message
  split
  · exact hreason
  · rw [String.toList_append]
    exact hreason.append _

/-- **The only messages of several lines** are those that quote a string of several lines. -/
theorem oneLine_message_iff (hfits : e.Fits)
    (hfound : e.found.lexeme ≠ .eof → e.found.lexeme.Legible)
    (hfile : ∀ l ∈ e.found.location, ∀ file ∈ l.file, OneLine file.toList) :
    OneLine e.message.toList ↔
      ∀ text, e.found.lexeme = .string text → OneLine text.toList := by
  rw [← Lexeme.oneLine_describe_iff hfound, ← oneLine_reason_iff hfits]
  unfold message
  split
  · rfl
  · next l hl => simp [Location.oneLine_describe (hfile l hl), isLineBreak]

/-- The lines that report one error. -/
def complaints (e : SyntaxError) : List String :=
  (splitLines e.message.toList).map fun line => "error: " ++ String.ofList line ++ "\n"

/-- A message on one line is reported on one line. -/
theorem complaints_of_oneLine (h : OneLine e.message.toList) :
    e.complaints = ["error: " ++ e.message ++ "\n"] := by
  rw [complaints, splitLines_of_oneLine e.closesLine_message.ne_nil h, List.map_singleton,
    String.ofList_toList]

end SyntaxError

theorem closesLine_of_mem_messages {errors : List SyntaxError} :
    ∀ text ∈ errors.map SyntaxError.message, ClosesLine text.toList := by
  intro text htext
  obtain ⟨e, -, rfl⟩ := List.mem_map.1 htext
  exact e.closesLine_message

/-- **The report of syntax errors** has the lines for each of them, in order. -/
theorem complaintLines_eq (errors : List SyntaxError) :
    complaintLines errors = String.join (errors.flatMap SyntaxError.complaints) := by
  rw [complaintLines, joinMessages, splitLines_intercalate closesLine_of_mem_messages,
    List.map_flatMap, List.flatMap_map]
  rfl

/-- Messages on one line each are reported on one line each. -/
theorem complaintLines_of_oneLine {errors : List SyntaxError}
    (h : ∀ e ∈ errors, OneLine e.message.toList) :
    complaintLines errors = String.join (errors.map fun e => "error: " ++ e.message ++ "\n") := by
  have hcomplaints : ∀ e ∈ errors, e.complaints = ["error: " ++ e.message ++ "\n"] :=
    fun e he => e.complaints_of_oneLine (h e he)
  rw [complaintLines_eq, List.map_eq_flatMap]
  exact congrArg (String.join ·.flatten) (List.map_congr_left hcomplaints)

/-- Splitting the joined messages yields the messages again exactly when each of them is one
line. -/
theorem splitLines_joinMessages_iff (errors : List SyntaxError) :
    splitLines (joinMessages errors).toList = errors.map (fun e => e.message.toList) ↔
      ∀ e ∈ errors, OneLine e.message.toList := by
  have h := splitLines_intercalate_eq_map_iff (@closesLine_of_mem_messages errors)
  rwa [List.map_map, List.forall_mem_map] at h

/-! ### The errors of a source -/

variable {eof : Token} {ts : List Token} {p : Parsed}

/-- Every error of a source fits, and the offending token is one of its tokens or its end. -/
theorem Reads.fits_and_found_mem (h : Reads eof ts p) :
    ∀ e ∈ p.errors, e.Fits ∧ e.found ∈ ts ++ [eof] := by
  induction h with
  | nil => exact List.forall_mem_nil _
  | @done ts rest s p hread hrest ih =>
    intro e he
    obtain ⟨hfits, hfound⟩ := ih e he
    have hsuffix : rest ++ [eof] <:+ ts ++ [eof] :=
      List.suffix_append_self_iff.2 (suffix_of_done hread)
    exact ⟨hfits, hsuffix.subset hfound⟩
  | @failed ts rest cause p hne hread hrest ih =>
    have hsuffix : rest ++ [eof] <:+ ts ++ [eof] :=
      List.suffix_append_self_iff.2 (suffix_of_failed hread)
    refine List.forall_mem_cons.2 ⟨⟨?_, hsuffix.subset ?_⟩, fun e he => ?_⟩
    · obtain ⟨-, -, -, hfits⟩ := Grammar.begins_of_readStatement_failed hread
      exact hfits eof
    · cases rest with
      | nil => exact List.mem_singleton_self eof
      | cons t rest => exact List.mem_append_left _ List.mem_cons_self
    · obtain ⟨hfits, hfound⟩ := ih e he
      have hmore : recover rest ++ [eof] <:+ rest ++ [eof] :=
        List.suffix_append_self_iff.2 (recover_suffix rest)
      exact ⟨hfits, hsuffix.subset (hmore.subset hfound)⟩

/-- Every token of a source, its end included, is in the file in which the source begins. -/
theorem exists_prefix_of_mem_toList {source : String} {start : Option Location} {t : Token}
    (h : t ∈ (lex source start).toList) :
    ∃ front, t.location = start.map fun l => l.after front := by
  rcases List.mem_append.1 h with htokens | hend
  · obtain ⟨front, -, hlocation⟩ := exists_prefix_of_mem_tokens htokens
    exact ⟨front, hlocation⟩
  · have heof := (lexesFrom_iff.2 rfl : LexesFrom source.toList start (lex source start)).eof_eq
    rw [List.mem_singleton.1 hend, heof]
    exact ⟨source.toList, rfl⟩

/-- **Messages of several lines** are those that quote a string of several lines, if the name of the
file is one line. -/
theorem oneLine_message_of_parse_iff {source name : String} (hname : OneLine name.toList)
    {line : Int} (h : parse source (some ⟨some name, line⟩) = .ok p) {e : SyntaxError}
    (he : e ∈ p.errors) :
    OneLine e.message.toList ↔
      ∀ text, e.found.lexeme = .string text → OneLine text.toList := by
  have hlegible := isLegible_lex source (some ⟨some name, line⟩)
  obtain ⟨hfits, hfound⟩ := (parseTokens_eq_ok_iff.1 h).fits_and_found_mem e he
  refine e.oneLine_message_iff hfits (fun hne => ?_) fun l hl file hfile => ?_
  · rcases List.mem_append.1 hfound with htokens | hend
    · exact hlegible.tokens _ htokens
    · rw [List.mem_singleton.1 hend] at hne
      exact absurd hlegible.eof hne
  · obtain ⟨front, hlocation⟩ := exists_prefix_of_mem_toList hfound
    rw [hlocation] at hl
    cases hl
    cases hfile
    exact hname

/-! ### Scripts -/

variable {files : String → Except PathFailure ByteArray} {name source : String} {bytes : ByteArray}

/-- A file with syntax errors is not run. -/
theorem runFile_of_errors (hdecode : decodeFile bytes = some source)
    (h : parse source (some ⟨some name, 1⟩) = .ok p) (herrors : p.errors ≠ []) (scope : ScopeId)
    (m : Machine) (limit : Nat) :
    runFile name (.ok bytes) scope m limit = (.error (.rejected (.syntaxErrors p.errors)), m) := by
  have hread : readProgram source (some ⟨some name, 1⟩) = .error (.syntaxErrors p.errors) := by
    rw [readProgram, h]
    exact if_neg (by rwa [List.isEmpty_iff])
  rw [runFile]
  dsimp only
  rw [hdecode]
  dsimp only
  rw [runSource, hread]
  rfl

/-- **The report of a script with syntax errors.**  Let the script be a file of UTF-8 text whose
name is one line, without overlong literals.  It is read with recovery from its errors.  If there
are any, nothing is evaluated, nothing is written to the output, and the exit status is one.  What
is reported are the lines of the messages, in order, each of them after `error: `.  These lines are
the messages themselves exactly when each string that is quoted in one of them is one line.  In that
case each error is reported on a line of its own. -/
theorem script_report (hfile : files name = .ok bytes) (hdecode : decodeFile bytes = some source)
    (hname : OneLine name.toList)
    (hshort : ∀ t ∈ (lex source (some ⟨some name, 1⟩)).tokens, ¬t.IsOverlong) (typed : String)
    (limit : Nat) :
    ∃ p, parse source (some ⟨some name, 1⟩) = .ok p ∧ (p.errors ≠ [] →
      let report := perform files typed (.script name) limit
      let quotesOneLine :=
        ∀ e ∈ p.errors, ∀ text, e.found.lexeme = .string text → OneLine text.toList
      (∀ scope m, runFile name (files name) scope m limit =
        (.error (.rejected (.syntaxErrors p.errors)), m)) ∧
      report.output = "" ∧ report.ending = .exit 1 ∧
      report.complaints = String.join (p.errors.flatMap SyntaxError.complaints) ∧
      (splitLines (joinMessages p.errors).toList = p.errors.map (fun e => e.message.toList) ↔
        quotesOneLine) ∧
      (quotesOneLine → report.complaints =
        String.join (p.errors.map fun e => "error: " ++ e.message ++ "\n"))) := by
  obtain ⟨p, hreads⟩ := exists_reads_of_not_isOverlong hshort (lex source _).eof
  have hparse : parse source (some ⟨some name, 1⟩) = .ok p := parseTokens_eq_ok_iff.2 hreads
  refine ⟨p, hparse, fun herrors => ?_⟩
  intro report quotesOneLine
  have hmessages : quotesOneLine ↔ ∀ e ∈ p.errors, OneLine e.message.toList :=
    forall₂_congr fun e he => (oneLine_message_of_parse_iff hname hparse he).symm
  have hrun (scope : ScopeId) (m : Machine) :=
    runFile_of_errors hdecode hparse herrors scope m limit
  have hreport : report = ⟨.exit 1, "", complaintLines p.errors⟩ := by
    show scriptReport name (files name) limit = _
    rw [hfile, scriptReport, hrun]
  rw [hreport, hfile]
  refine ⟨hrun, rfl, rfl, complaintLines_eq p.errors, ?_, fun hquotes => ?_⟩
  · rw [hmessages, splitLines_joinMessages_iff]
  · exact complaintLines_of_oneLine (hmessages.1 hquotes)

/-- A script with an error on each of its two lines.  The first one quotes a string. -/
theorem script_report_two :
    let files : String → Except PathFailure ByteArray := fun _ => .ok "let \"a b\";\n)".toUTF8
    let report := perform files "" (.script "s.monkey") 0
    report.ending = .exit 1 ∧ report.output = "" ∧
      report.complaints = "error: [s.monkey, line 1] expected `identifier`, found `a b`\n" ++
        "error: [s.monkey, line 2] no prefix parse function for `)` found\n" := by
  intro files report
  have hdecode : decodeFile "let \"a b\";\n)".toUTF8 = some "let \"a b\";\n)" := by decide +kernel
  have hname : OneLine "s.monkey".toList := by decide
  have hshort : ∀ t ∈ (lex "let \"a b\";\n)" (some ⟨some "s.monkey", 1⟩)).tokens,
      ¬t.IsOverlong := by
    decide +kernel
  have hfile : files "s.monkey" = .ok "let \"a b\";\n)".toUTF8 := rfl
  obtain ⟨p, hparse, hreport⟩ := script_report hfile hdecode hname hshort "" 0
  have herrors :
      (parse "let \"a b\";\n)" (some ⟨some "s.monkey", 1⟩)).toOption.map Parsed.errors =
        some [⟨.expected .identifier, ⟨.string "a b", some ⟨some "s.monkey", 1⟩⟩⟩,
          ⟨.noExpression, ⟨.symbol .rightParen, some ⟨some "s.monkey", 2⟩⟩⟩] := by
    decide +kernel
  rw [hparse] at herrors
  obtain ⟨-, houtput, hending, -, -, hcomplaints⟩ := hreport (by simp [Option.some.inj herrors])
  refine ⟨hending, houtput, (hcomplaints ?_).trans ?_⟩
  · rw [Option.some.inj herrors]
    simp [isLineBreak]
  · rw [Option.some.inj herrors]
    decide +kernel

/-- **A string of two lines in a message** breaks the line of the report, although there is but one
error. -/
theorem script_report_broken :
    let source := "let \"a\x0bb\""
    let report := perform (fun _ => .ok source.toUTF8) "" (.script "s.monkey")
    decodeFile source.toUTF8 = some source ∧ OneLine "s.monkey".toList ∧
      (∀ t ∈ (lex source (some ⟨some "s.monkey", 1⟩)).tokens, ¬t.IsOverlong) ∧
      ((parse source (some ⟨some "s.monkey", 1⟩)).toOption.map fun p =>
        p.errors.map SyntaxError.message) =
          some ["[s.monkey, line 1] expected `identifier`, found `a\x0bb`"] ∧
      report.complaints = "error: [s.monkey, line 1] expected `identifier`, found `a\n" ++
        "error: b`\n" := by
  decide +kernel

end MonkeyLang
