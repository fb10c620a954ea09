import Mathlib.Data.List.Chain
import Mathlib.Data.List.Forall2
import MonkeyLang.Proofs.Lexing.Tiling
import MonkeyLang.Proofs.Recovery

/-!
# Errors are noticed at the first wrong token

The errors of a source come in the order of its tokens.  Between the token at which reading resumed
and the offending one, everything could still have become a program; with the offending token it
cannot.

## Main Definitions

* `Extendable` — the tokens begin a list of tokens that is read without errors
* `ErrorSpan` — where reading resumed, and where the error was noticed
* `ErrorSpan.Explains` — the span is that of the given error
* `ErrorSpan.Precedes` — recovery from one error leads up to another one
* `Diagnosed` — the same for a list of tokens, read from its beginning

## Main Statements

* `Reads.diagnosed` — the course of a reading is one of errors at the first wrong token
* `parse_errors` — **the errors of a source**, each with its span

## Design Notes

That the tokens in front of an error can be completed is what the parsers track (`Begins`).  That
the offending token leaves no way out is a matter of looking ahead: a statement that leaves this
token has seen no further, so it comes to the same error whatever stands behind it.  A statement in
front of the error is read in the same way for the same reason.
-/

namespace MonkeyLang

open Grammar (NoTokens Passage PassageBefore)

variable {eof : Token} {ts rest : List Token} {p q : Parsed} {s : Statement Token}
  {errors : List SyntaxError}

/-! ### Errors of a list of tokens -/

/-- The tokens yield these errors.  In front of the offending token something is begun that could
have been read without errors.  With that token, or with the end of the text in its place, it
cannot.  The other errors are those of the tokens behind the next semicolon. -/
inductive Diagnosed (eof : Token) : List Token → List SyntaxError → Prop
  | clean (ts : List Token) : Diagnosed eof ts []
  | error {front rest : List Token} {cause : SyntaxError.Cause} {errors : List SyntaxError}
      (hbegins : Begins (PassageBefore NoTokens) front)
      (hwrong : ∀ rest', rest'.head? = rest.head? → ∀ program, ¬Passage program (front ++ rest'))
      (hmore : Diagnosed eof (recover rest) errors) :
      Diagnosed eof (front ++ rest) (⟨cause, rest.headD eof⟩ :: errors)

/-- Without tokens there are no errors. -/
theorem Diagnosed.eq_nil (h : Diagnosed eof [] errors) : errors = [] := by
  generalize hts : ([] : List Token) = ts at h
  cases h with
  | clean => rfl
  | @error front rest cause errors hbegins hwrong hmore =>
    obtain ⟨rfl, rfl⟩ := List.append_eq_nil_iff.1 hts.symm
    exact absurd .nil (hwrong [] rfl [])

/-- A source whose first statement can be read is read on behind it. -/
theorem Reads.of_done (h : Reads eof ts p) (hread : readStatement ts = .done s rest) :
    ∃ q, Reads eof rest q ∧ p = { q with statements := s :: q.statements } := by
  cases h with
  | nil => cases hread
  | done hread' hrest =>
    obtain ⟨rfl, rfl⟩ := Reading.done.inj (hread.symm.trans hread')
    exact ⟨_, hrest, rfl⟩
  | failed _ hread' => cases hread.symm.trans hread'

/-- A source that begins with an error has it among its errors. -/
theorem Reads.of_failed {cause : SyntaxError.Cause} (h : Reads eof ts p) (hne : ts ≠ [])
    (hread : readStatement ts = .failed cause rest) :
    ∃ q, Reads eof (recover rest) q ∧
      p = { q with errors := ⟨cause, rest.headD eof⟩ :: q.errors } := by
  cases h with
  | nil => exact absurd rfl hne
  | done hread' => cases hread.symm.trans hread'
  | failed _ hread' hrest =>
    obtain ⟨rfl, rfl⟩ := Reading.failed.inj (hread.symm.trans hread')
    exact ⟨_, hrest, rfl⟩

theorem passage_iff_reads {program : Program Token} (eof : Token) :
    Passage program ts ↔ Reads eof ts ⟨program, []⟩ :=
  ⟨fun h => reads_of_parseWithin (parseWithin_of_passage eof _ h (Nat.le_refl _)),
    fun h => passage_of_parseWithin (h.parseWithin _ (Nat.le_refl _))⟩

/-- Behind the first statement of a passage stands a passage. -/
theorem exists_passage_of_done {program : Program Token} (h : Passage program ts)
    (hread : readStatement ts = .done s rest) : ∃ others, Passage others rest := by
  have eof : Token := ⟨.eof, none⟩
  obtain ⟨⟨others, errors⟩, hrest, heq⟩ := ((passage_iff_reads eof).1 h).of_done hread
  obtain ⟨-, rfl⟩ := Parsed.mk.inj heq
  exact ⟨others, (passage_iff_reads eof).2 hrest⟩

/-- No passage begins with an error. -/
theorem not_passage_of_failed {program : Program Token} {cause : SyntaxError.Cause} (hne : ts ≠ [])
    (hread : readStatement ts = .failed cause rest) : ¬Passage program ts := by
  intro h
  obtain ⟨q, -, heq⟩ := ((passage_iff_reads ⟨.eof, none⟩).1 h).of_failed hne hread
  cases (Parsed.mk.inj heq).2

theorem head?_append_of_eq {α : Type} {front us vs : List α} (h : us.head? = vs.head?) :
    (front ++ us).head? = (front ++ vs).head? := by
  cases front with
  | nil => exact h
  | cons t front => rfl

/-- **The course of a reading is one of errors at the first wrong token.** -/
theorem Reads.diagnosed (h : Reads eof ts p) : Diagnosed eof ts p.errors := by
  induction h with
  | nil => exact .clean []
  | @done ts rest s p hread hrest ih =>
    generalize p.errors = errors at ih
    cases ih with
    | clean => exact .clean _
    | @error front rest cause errors hbegins hwrong hmore =>
      obtain ⟨taken, rfl, htaken⟩ := Grammar.begins_passage_of_done hread hbegins
      rw [← List.append_assoc]
      refine .error htaken ?_ hmore
      intro rest' hhead program hprogram
      -- The statement in front is read as before, so what stands behind it would be a passage.
      rw [List.append_assoc] at hprogram
      have hread' := readStatement_done_of_head?_eq (head?_append_of_eq hhead) hread
      obtain ⟨others, hothers⟩ := exists_passage_of_done hprogram hread'
      exact hwrong rest' hhead others hothers
  | @failed ts rest cause p hne hread hrest ih =>
    obtain ⟨front, rfl, hbegins, -⟩ := Grammar.begins_of_readStatement_failed hread
    refine .error hbegins (fun rest' hhead program => ?_) ih
    refine not_passage_of_failed ?_ (readStatement_failed_of_head?_eq hhead hread)
    rintro heq
    obtain ⟨rfl, rfl⟩ := List.append_eq_nil_iff.1 heq
    obtain rfl := List.head?_eq_none_iff.1 hhead.symm
    exact hne rfl

/-! ### Tokens that can be completed -/

/-- The tokens could be those of a text: each of them is legible, and the end stands behind them. -/
structure Lexed.IsLegible (l : Lexed) : Prop where
  tokens : ∀ t ∈ l.tokens, t.lexeme.Legible
  eof : l.eof.lexeme = .eof

/-- The tokens begin a list of tokens that is read without errors. -/
def Extendable (front : List Token) : Prop :=
  ∃ l : Lexed, l.IsLegible ∧ front <+: l.toList ∧ ∃ program, parseTokens l = .ok ⟨program, []⟩

theorem extendable_of_begins {front : List Token} (h : Begins (PassageBefore NoTokens) front)
    (hlegible : ∀ t ∈ front, t.lexeme.Legible) : Extendable front := by
  obtain ⟨program, behind, hbehind, hpassage⟩ := h
  generalize hts : front ++ behind = ts at hpassage
  obtain ⟨hpassage, rfl⟩ := hpassage
  rw [List.append_nil] at hts
  refine ⟨⟨front ++ behind, ⟨.eof, none⟩⟩, ⟨fun t ht => ?_, rfl⟩, ?_, program, ?_⟩
  · exact (List.mem_append.1 ht).elim (hlegible t) (hbehind t)
  · exact (List.prefix_append front behind).trans (List.prefix_append _ _)
  · rw [parseTokens_eq_ok_iff, ← passage_iff_reads, hts]
    exact hpassage

/-- No token of a text is its end. -/
theorem Lexed.IsLegible.ne_eof {l : Lexed} (h : l.IsLegible) {t : Token} (ht : t ∈ l.tokens) :
    t.lexeme ≠ .eof := by
  intro heof
  have hlegible := h.tokens t ht
  rw [heof] at hlegible
  exact hlegible

/-- A text that begins with these tokens and the token in front of `rest`, or with these tokens
alone when there is none. -/
theorem Lexed.IsLegible.exists_append {l : Lexed} (h : l.IsLegible) {front : List Token}
    (hsource : Lexed.IsLegible ⟨rest, eof⟩) (hfront : front ++ [rest.headD eof] <+: l.toList) :
    ∃ rest', l.tokens = front ++ rest' ∧ rest'.head? = rest.head? := by
  rw [Lexed.toList, List.prefix_concat_iff] at hfront
  rcases hfront with heq | ⟨behind, heq⟩
  · obtain ⟨htokens, hend⟩ := List.append_inj' heq rfl
    cases rest with
    | nil => exact ⟨[], by rw [List.append_nil, htokens], rfl⟩
    | cons t us =>
      obtain rfl : t = l.eof := List.singleton_inj.1 hend
      exact absurd h.eof (hsource.ne_eof List.mem_cons_self)
  · cases rest with
    | nil =>
      have hmem : eof ∈ l.tokens := by
        rw [← heq]
        simp
      exact absurd hsource.eof (h.ne_eof hmem)
    | cons t us => exact ⟨t :: behind, by rw [← heq]; simp, rfl⟩

theorem not_extendable_of_wrong {front : List Token} (hsource : Lexed.IsLegible ⟨rest, eof⟩)
    (hwrong : ∀ rest', rest'.head? = rest.head? → ∀ program, ¬Passage program (front ++ rest')) :
    ¬Extendable (front ++ [rest.headD eof]) := by
  rintro ⟨l, hl, hfront, program, hprogram⟩
  rw [parseTokens_eq_ok_iff, ← passage_iff_reads] at hprogram
  obtain ⟨rest', hsplit, hhead⟩ := hl.exists_append hsource hfront
  rw [hsplit] at hprogram
  exact hwrong rest' hhead program hprogram

/-! ### Spans -/

/-- The span of an error: the place of the token at which reading resumed in front of it, and the
place of the offending token. -/
structure ErrorSpan where
  resume : Nat
  stop : Nat

namespace ErrorSpan

/-- The tokens from the place where reading resumed up to the offending one, without it. -/
def before (tokens : List Token) (span : ErrorSpan) : List Token :=
  (tokens.take span.stop).drop span.resume

/-- The same tokens and the offending one. -/
def through (tokens : List Token) (span : ErrorSpan) : List Token :=
  (tokens.take (span.stop + 1)).drop span.resume

/-- The error was noticed at the end of the span: at the first token that makes the tokens of the
span wrong.  If this token has a location, the message begins with it. -/
structure Explains (tokens : List Token) (span : ErrorSpan) (e : SyntaxError) : Prop where
  le : span.resume ≤ span.stop
  found : tokens[span.stop]? = some e.found
  message : ∀ l, e.found.location = some l →
    ∃ reason, e.message = "[" ++ l.describe ++ "] " ++ reason
  extendable : Extendable (span.before tokens)
  wrong : ¬Extendable (span.through tokens)

/-- Reading resumed behind the first semicolon that is not in front of the offending token of `a`.
This is where `b` begins. -/
structure Precedes (tokens : List Token) (a b : ErrorSpan) : Prop where
  lt : a.stop < b.resume
  semicolon : ∃ t, tokens[b.resume - 1]? = some t ∧ t.lexeme = .symbol .semicolon
  first : ∀ i t, a.stop ≤ i → i < b.resume - 1 → tokens[i]? = some t →
    t.lexeme ≠ .symbol .semicolon

end ErrorSpan

/-- What recovery drops: everything, or the tokens up to the next semicolon. -/
theorem exists_recover_append (ts : List Token) :
    recover ts = [] ∨ ∃ skipped semicolon, ts = skipped ++ semicolon :: recover ts ∧
      semicolon.lexeme = .symbol .semicolon ∧ ∀ t ∈ skipped, t.lexeme ≠ .symbol .semicolon := by
  induction ts with
  | nil => exact .inl rfl
  | cons t ts ih =>
    by_cases ht : t.lexeme = .symbol .semicolon
    · refine .inr ⟨[], t, ?_, ht, by simp⟩
      rw [recover_cons_of_eq ht, List.nil_append]
    · rw [recover_cons_of_ne ht]
      refine ih.imp id ?_
      rintro ⟨skipped, semicolon, heq, hsemicolon, hskipped⟩
      exact ⟨t :: skipped, semicolon, congrArg (t :: ·) heq, hsemicolon,
        List.forall_mem_cons.2 ⟨ht, hskipped⟩⟩

namespace ErrorSpan

variable {taken front behind : List Token}

/-- The span of the tokens `front`, with an error at the next token. -/
def ofLength (taken front : List Token) : ErrorSpan := ⟨taken.length, (taken ++ front).length⟩

theorem before_ofLength : (ofLength taken front).before (taken ++ front ++ behind) = front := by
  rw [before, ofLength, List.take_left, List.drop_left]

theorem through_ofLength (t : Token) :
    (ofLength taken front).through (taken ++ front ++ t :: behind) = front ++ [t] := by
  rw [through, ofLength, List.take_length_add_append, List.append_assoc, List.drop_left]
  rfl

theorem precedes_ofLength {skipped : List Token} {semicolon : Token}
    (hsemicolon : semicolon.lexeme = .symbol .semicolon)
    (hskipped : ∀ t ∈ skipped, t.lexeme ≠ .symbol .semicolon) {b : ErrorSpan}
    (hb : b.resume = (taken ++ front ++ skipped ++ [semicolon]).length) :
    (ofLength taken front).Precedes (taken ++ front ++ skipped ++ semicolon :: behind) b := by
  rw [List.length_append, List.length_singleton] at hb
  refine ⟨?_, ⟨semicolon, ?_, hsemicolon⟩, fun i t hstop hi ht => ?_⟩
  · rw [hb]
    simp only [ofLength, List.length_append]
    omega
  · rw [hb, Nat.add_sub_cancel, List.getElem?_append_right (Nat.le_refl _), Nat.sub_self]
    rfl
  · rw [hb, Nat.add_sub_cancel] at hi
    rw [List.getElem?_append_left hi, List.getElem?_append_right hstop] at ht
    exact hskipped t (List.mem_of_getElem? ht)

end ErrorSpan

theorem message_of_location {e : SyntaxError} {l : Location} (h : e.found.location = some l) :
    e.message = "[" ++ l.describe ++ "] " ++ e.reason := by
  rw [SyntaxError.message, h]

theorem Lexed.IsLegible.of_suffix {us : List Token} (h : Lexed.IsLegible ⟨ts, eof⟩)
    (hus : us <:+ ts) : Lexed.IsLegible ⟨us, eof⟩ :=
  ⟨fun t ht => h.tokens t (hus.subset ht), h.eof⟩

/-- The span of the first error. -/
theorem explains_ofLength (taken : List Token) (cause : SyntaxError.Cause) {front : List Token}
    (hlegible : Lexed.IsLegible ⟨front ++ rest, eof⟩)
    (hbegins : Begins (PassageBefore NoTokens) front)
    (hwrong : ∀ rest', rest'.head? = rest.head? → ∀ program, ¬Passage program (front ++ rest')) :
    (ErrorSpan.ofLength taken front).Explains (taken ++ (front ++ rest) ++ [eof])
      ⟨cause, rest.headD eof⟩ := by
  obtain ⟨behind, hbehind⟩ : ∃ behind, rest ++ [eof] = rest.headD eof :: behind := by
    cases rest with
    | nil => exact ⟨[], rfl⟩
    | cons t us => exact ⟨us ++ [eof], rfl⟩
  have htokens : taken ++ (front ++ rest) ++ [eof] =
      taken ++ front ++ rest.headD eof :: behind := by
    rw [← hbehind]
    simp
  rw [htokens]
  refine ⟨?_, ?_, fun l hl => ⟨_, message_of_location hl⟩, ?_, ?_⟩
  · rw [ErrorSpan.ofLength, List.length_append]
    exact Nat.le_add_right _ _
  · rw [ErrorSpan.ofLength, List.getElem?_append_right (Nat.le_refl _), Nat.sub_self]
    rfl
  · rw [ErrorSpan.before_ofLength]
    exact extendable_of_begins hbegins fun t ht => hlegible.tokens t (List.mem_append_left _ ht)
  · rw [ErrorSpan.through_ofLength]
    exact not_extendable_of_wrong (hlegible.of_suffix (List.suffix_append front rest)) hwrong

/-- **Errors have spans**, wherever in a text the tokens stand. -/
theorem Diagnosed.exists_spans (h : Diagnosed eof ts errors)
    (hlegible : Lexed.IsLegible ⟨ts, eof⟩) :
    ∀ taken : List Token, ∃ spans : List ErrorSpan,
      List.Forall₂ (ErrorSpan.Explains (taken ++ ts ++ [eof])) spans errors ∧
        (∀ span ∈ spans.head?, span.resume = taken.length) ∧
          spans.IsChain (ErrorSpan.Precedes (taken ++ ts ++ [eof])) := by
  induction h with
  | clean ts => exact fun taken => ⟨[], .nil, by simp, .nil⟩
  | @error front rest cause errors hbegins hwrong hmore ih =>
    intro taken
    have hfirst := explains_ofLength taken cause hlegible hbegins hwrong
    have hrest := hlegible.of_suffix (List.suffix_append front rest)
    rcases exists_recover_append rest with hnone |
      ⟨skipped, semicolon, hsplit, hsemicolon, hskipped⟩
    · rw [hnone] at hmore
      obtain rfl := hmore.eq_nil
      refine ⟨[.ofLength taken front], .cons hfirst .nil, ?_, .singleton _⟩
      rintro span ⟨⟩
      rfl
    · have htokens : taken ++ (front ++ rest) ++ [eof] =
          taken ++ front ++ skipped ++ semicolon :: (recover rest ++ [eof]) := by
        conv_lhs => rw [hsplit]
        simp
      have hbehind : taken ++ front ++ skipped ++ [semicolon] ++ recover rest ++ [eof] =
          taken ++ front ++ skipped ++ semicolon :: (recover rest ++ [eof]) := by
        simp
      obtain ⟨spans, hexplains, hresume, hchain⟩ := ih (hrest.of_suffix (recover_suffix rest))
        (taken ++ front ++ skipped ++ [semicolon])
      rw [hbehind] at hexplains hchain
      rw [htokens] at hfirst ⊢
      refine ⟨.ofLength taken front :: spans, .cons hfirst hexplains, ?_, ?_⟩
      · rintro span ⟨⟩
        rfl
      · exact List.isChain_cons.2 ⟨fun b hb =>
          ErrorSpan.precedes_ofLength hsemicolon hskipped (hresume b hb), hchain⟩

/-- At most one error for each semicolon, and one more. -/
theorem Diagnosed.length_le (h : Diagnosed eof ts errors) :
    errors.length ≤ (ts.countP fun t => t.lexeme = .symbol .semicolon) + 1 := by
  induction h with
  | clean ts => exact Nat.zero_le _
  | @error front rest cause errors hbegins hwrong hmore ih =>
    rw [List.countP_append, List.length_cons]
    rcases exists_recover_append rest with hnone | ⟨skipped, semicolon, hsplit, hsemicolon, -⟩
    · rw [hnone] at hmore
      obtain rfl := hmore.eq_nil
      simp
    · have hcount : (recover rest).countP (fun t => t.lexeme = .symbol .semicolon) + 1 ≤
          rest.countP fun t => t.lexeme = .symbol .semicolon := by
        conv_rhs => rw [hsplit]
        rw [List.countP_append, List.countP_cons_of_pos (by simpa using hsemicolon)]
        omega
      omega

theorem isLegible_lex (source : String) (start : Option Location) :
    (lex source start).IsLegible :=
  ⟨fun _ => legible_of_mem_tokens, by rw [(lexesFrom_iff.2 rfl).eof_eq]⟩

/-- **Syntax errors are noticed at the first wrong token**, and come in the order of the tokens.
Let no integer literal be overlong.  Then each error of the source has a span: the first one begins
at the first token, and each of the others behind the semicolon at which the recovery from the
previous error stopped.  The offending token stands at the end of the span or is the end of the
text, and a located message begins with its place.  The tokens of the span in front of it can be
completed to a text without errors, and with it they cannot.  There is at most one error for each
semicolon, and one more. -/
theorem parse_errors {source : String} {start : Option Location}
    (hshort : ∀ t ∈ (lex source start).tokens, ¬t.IsOverlong) :
    ∃ (p : Parsed) (spans : List ErrorSpan), parse source start = .ok p ∧
      List.Forall₂ (ErrorSpan.Explains (lex source start).toList) spans p.errors ∧
        (∀ span ∈ spans.head?, span.resume = 0) ∧
          spans.IsChain (ErrorSpan.Precedes (lex source start).toList) ∧
            p.errors.length ≤ ((lex source start).tokens.countP fun t =>
              t.lexeme = .symbol .semicolon) + 1 := by
  obtain ⟨p, hreads⟩ := exists_reads_of_not_isOverlong hshort (lex source start).eof
  have hdiagnosed := hreads.diagnosed
  obtain ⟨spans, hexplains, hresume, hchain⟩ :=
    hdiagnosed.exists_spans (isLegible_lex source start) []
  exact ⟨p, spans, parseTokens_eq_ok_iff.2 hreads, hexplains, hresume, hchain,
    hdiagnosed.length_le⟩

/-- A binding without its name, and an expression that does not begin. -/
theorem parse_errors_two :
    (∀ t ∈ (lex "let 1; )" (some ⟨none, 1⟩)).tokens, ¬t.IsOverlong) ∧
      ∃ (p : Parsed) (spans : List ErrorSpan), parse "let 1; )" (some ⟨none, 1⟩) = .ok p ∧
        p.errors.map SyntaxError.message = ["[line 1] expected `identifier`, found `1`",
          "[line 1] no prefix parse function for `)` found"] ∧
          List.Forall₂ (ErrorSpan.Explains (lex "let 1; )" (some ⟨none, 1⟩)).toList) spans
            p.errors := by
  have hshort : ∀ t ∈ (lex "let 1; )" (some ⟨none, 1⟩)).tokens, ¬t.IsOverlong := by
    decide +kernel
  obtain ⟨p, spans, hparse, hexplains, -, -, -⟩ := parse_errors hshort
  have hmessages : ((parse "let 1; )" (some ⟨none, 1⟩)).toOption.map fun p =>
      p.errors.map SyntaxError.message) = some ["[line 1] expected `identifier`, found `1`",
        "[line 1] no prefix parse function for `)` found"] := by
    decide +kernel
  rw [hparse] at hmessages
  exact ⟨hshort, p, spans, hparse, Option.some.inj hmessages, hexplains⟩

end MonkeyLang
