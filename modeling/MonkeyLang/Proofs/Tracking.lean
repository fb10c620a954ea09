import MonkeyLang.Proofs.Lexing
import MonkeyLang.Proofs.ParserLaws

/-!
# Tracking a spelling

What a parser has taken off a list of tokens is a spelling of what it returns, and what it has taken
up to an error can be completed to a spelling of something.

## Main Definitions

* `SyntaxError.Fits` — the cause of an error suits the offending token
* `Spelling` — which tokens spell a value, in front of which others
* `Begins` — the tokens can be completed to a spelling
* `Then`, `Either`, `Closed` and their kin — spellings put together from spellings
* `Reading.Tracks`, `Parser.Tracks` — what is read is a spelling, and what stands in front of a
  fitting error begins one

## Main Statements

* `Parser.Tracks.bind` — the rule for sequences
* `Parser.tracks_symbol`, `Parser.tracks_accept_bind` — the basic parsers

## Design Notes

The tokens behind a spelling are part of it, for some things end only in front of certain tokens.
But a part of a sequence may rely on that only if the rest of the sequence is already known, so the
rule for sequences forgets what stands behind the first part.

The rule also needs that the second part can spell something at all, whatever the first part has
read: an error in the first part leaves all of the second one to be completed.  Hence a parser
tracks a spelling only if there is one.
-/

namespace MonkeyLang

variable {α β : Type}

/-- Which tokens spell a value, in front of which others. -/
abbrev Spelling (α : Type) := α → List Token → List Token → Prop

/-- The tokens begin a spelling: legible tokens behind them complete it, at the end of a text. -/
def Begins (L : Spelling α) (front : List Token) : Prop :=
  ∃ value behind, (∀ t ∈ behind, t.lexeme.Legible) ∧ L value (front ++ behind) []

/-! ### Spellings -/

/-- One spelling behind another one. -/
inductive Then (L : Spelling α) (M : α → Spelling β) : Spelling β
  | mk {value : α} {result : β} {front back rest rest' : List Token}
      (hfront : L value front rest') (hback : M value result back rest) :
      Then L M result (front ++ back) rest

/-- A token that decides whether one spelling follows, or another spelling without it. -/
inductive Either (lexeme : Lexeme) (L M : Spelling α) : Spelling α
  | yes {value : α} {t : Token} {ts rest : List Token} (ht : t.lexeme = lexeme)
      (hts : L value ts rest) : Either lexeme L M value (t :: ts) rest
  | no {value : α} {ts rest : List Token} (hts : M value ts rest) : Either lexeme L M value ts rest

/-- A spelling with a closing symbol behind it. -/
inductive Closed (L : α → List Token → Prop) (close : Symbol) : Spelling α
  | mk {value : α} {front rest : List Token} {closing : Token} (hfront : L value front)
      (hclosing : closing.lexeme = .symbol close) : Closed L close value (front ++ [closing]) rest

/-- Nothing in front of the closing symbol. -/
theorem Closed.of_nil {L : α → List Token → Prop} {close : Symbol} {value : α} {closing : Token}
    {rest : List Token} (h : L value []) (hclosing : closing.lexeme = .symbol close) :
    Closed L close value [closing] rest :=
  .mk h hclosing

/-- No tokens spell the value. -/
inductive Blank (value : α) : Spelling α
  | mk {rest : List Token} : Blank value value [] rest

/-- A single token spells itself. -/
inductive Single (lexeme : Lexeme) : Spelling Token
  | mk {t : Token} {rest : List Token} (ht : t.lexeme = lexeme) : Single lexeme t [t] rest

/-- A token that was accepted or not. -/
inductive Accepted (lexeme : Lexeme) : Spelling Bool
  | yes {t : Token} {rest : List Token} (ht : t.lexeme = lexeme) : Accepted lexeme true [t] rest
  | no {rest : List Token} : Accepted lexeme false [] rest

namespace Begins

variable {L L' : Spelling α} {M : α → Spelling β} {front : List Token}

theorem of_spelling {value : α} (h : L value front []) : Begins L front :=
  ⟨value, [], List.forall_mem_nil _, by rwa [List.append_nil]⟩

/-- A legible token completes what stands in front of it. -/
theorem of_token {value : α} (t : Token) (ht : t.lexeme.Legible) (h : L value (front ++ [t]) []) :
    Begins L front :=
  ⟨value, [t], by simpa using ht, h⟩

/-- What begins a part begins the whole. -/
theorem map {N : Spelling β} (h : Begins L front) (f : α → β)
    (hL : ∀ value ts, L value ts [] → N (f value) ts []) : Begins N front := by
  obtain ⟨value, behind, hlegible, hvalue⟩ := h
  exact ⟨f value, behind, hlegible, hL _ _ hvalue⟩

/-- What begins a spelling begins every spelling that allows for more. -/
theorem mono (h : Begins L front) (hL : ∀ value ts, L value ts [] → L' value ts []) :
    Begins L' front :=
  h.map id hL

/-- The whole second part is still to come. -/
theorem then_left (h : Begins L front) (hM : ∀ value, Begins (M value) []) :
    Begins (Then L M) front := by
  obtain ⟨value, behind, hlegible, hvalue⟩ := h
  obtain ⟨result, behind', hlegible', hresult⟩ := hM value
  refine ⟨result, behind ++ behind', fun t ht => ?_, ?_⟩
  · exact (List.mem_append.1 ht).elim (hlegible t) (hlegible' t)
  · rw [← List.append_assoc]
    exact .mk hvalue hresult

/-- The first part is spelled already. -/
theorem then_right {value : α} {back rest : List Token} (h : L value front rest)
    (hback : Begins (M value) back) : Begins (Then L M) (front ++ back) := by
  obtain ⟨result, behind, hlegible, hresult⟩ := hback
  refine ⟨result, behind, hlegible, ?_⟩
  rw [List.append_assoc]
  exact .mk h hresult

end Begins

/-! ### Readings -/

/-- An error about a number was noticed at a number, and one about a parameter at a name. -/
def SyntaxError.Fits (e : SyntaxError) : Prop :=
  match e.cause with
  | .integerTooLarge => ∃ digits, e.found.lexeme = .integer digits
  | .duplicateParameter => ∃ name, e.found.lexeme = .identifier name
  | .expected _ | .noExpression => True

/-- The cause suits the token in front, whatever token stands for the end of the text. -/
def SyntaxError.Cause.Fits (cause : SyntaxError.Cause) (ts : List Token) : Prop :=
  ∀ eof : Token, (SyntaxError.mk cause (ts.headD eof)).Fits

/-- What was read is a spelling in front of what is left.  The tokens in front of an error begin
one, and the error fits. -/
def Reading.Tracks (L : Spelling α) (ts : List Token) : Reading α → Prop
  | .done value rest => ∃ front, ts = front ++ rest ∧ L value front rest
  | .failed cause rest => ∃ front, ts = front ++ rest ∧ Begins L front ∧ cause.Fits rest
  | .overlong | .exhausted => True

namespace Reading.Tracks

variable {L L' : Spelling α} {ts : List Token} {r : Reading α}

theorem imp (h : r.Tracks L ts)
    (hdone : ∀ value front rest, ts = front ++ rest → L value front rest → L' value front rest)
    (hfailed : ∀ front, Begins L front → Begins L' front) : r.Tracks L' ts := by
  cases r with
  | done value rest =>
    obtain ⟨front, hsplit, hvalue⟩ := h
    exact ⟨front, hsplit, hdone value front rest hsplit hvalue⟩
  | failed cause rest =>
    obtain ⟨front, hsplit, hfront, hfits⟩ := h
    exact ⟨front, hsplit, hfailed front hfront, hfits⟩
  | overlong | exhausted => trivial

theorem mono (h : r.Tracks L ts) (hL : ∀ value us rest, L value us rest → L' value us rest) :
    r.Tracks L' ts :=
  h.imp (fun _ _ _ _ => hL _ _ _) fun _ hfront => hfront.mono fun _ _ => hL _ _ _

/-- Tokens that have been taken belong to the spelling. -/
theorem append (taken : List Token)
    (h : r.Tracks (fun value us rest => L value (taken ++ us) rest) ts) :
    r.Tracks L (taken ++ ts) := by
  cases r with
  | done value rest =>
    obtain ⟨front, rfl, hvalue⟩ := h
    exact ⟨taken ++ front, by simp, hvalue⟩
  | failed cause rest =>
    obtain ⟨front, rfl, ⟨value, behind, hlegible, hvalue⟩, hfits⟩ := h
    exact ⟨taken ++ front, by simp, ⟨value, behind, hlegible, by simpa using hvalue⟩, hfits⟩
  | overlong | exhausted => trivial

theorem cons {t : Token} (h : r.Tracks (fun value us rest => L value (t :: us) rest) ts) :
    r.Tracks L (t :: ts) :=
  append [t] h

theorem done {value : α} (h : L value [] ts) : (Reading.done value ts).Tracks L ts :=
  ⟨[], rfl, h⟩

theorem failed {cause : SyntaxError.Cause} (h : Begins L []) (hfits : cause.Fits ts) :
    (Reading.failed cause ts : Reading α).Tracks L ts :=
  ⟨[], rfl, h, hfits⟩

end Reading.Tracks

/-! ### Parsers -/

/-- The parser tracks the spelling: there is one, and whatever the parser makes of a list of tokens
is one or begins one. -/
structure Parser.Tracks (p : Parser α) (L : Spelling α) : Prop where
  begins : Begins L []
  reading (ts : List Token) : (p ts).Tracks L ts

namespace Parser

namespace Tracks

variable {p q : Parser α} {f : α → Parser β} {L L' : Spelling α} {M : α → Spelling β}
  {ts rest : List Token}

/-- What was read is a spelling, in front of what is left. -/
theorem of_done {value : α} (hp : p.Tracks L) (h : p ts = .done value rest) :
    ∃ front, ts = front ++ rest ∧ L value front rest := by
  have hreading := hp.reading ts
  rw [h] at hreading
  exact hreading

/-- What stands in front of an error begins a spelling, and the error fits. -/
theorem of_failed {cause : SyntaxError.Cause} (hp : p.Tracks L) (h : p ts = .failed cause rest) :
    ∃ front, ts = front ++ rest ∧ Begins L front ∧ cause.Fits rest := by
  have hreading := hp.reading ts
  rw [h] at hreading
  exact hreading

theorem mono (h : p.Tracks L) (hL : ∀ value us rest, L value us rest → L' value us rest) :
    p.Tracks L' :=
  ⟨h.begins.mono fun _ _ => hL _ _ _, fun ts => (h.reading ts).mono hL⟩

theorem pure (value : α) : (Pure.pure value : Parser α).Tracks (Blank value) :=
  ⟨.of_spelling .mk, fun _ => .done .mk⟩

/-- **The rule for sequences.** -/
theorem bind (hp : p.Tracks L) (hf : ∀ value, (f value).Tracks (M value)) :
    (p >>= f).Tracks (Then L M) := by
  refine ⟨hp.begins.then_left fun value => (hf value).begins, fun ts => ?_⟩
  rw [bind_apply]
  cases h : p ts with
  | done value middle =>
    obtain ⟨front, rfl, hvalue⟩ := hp.of_done h
    dsimp only
    cases h' : f value middle with
    | done result rest =>
      obtain ⟨back, rfl, hresult⟩ := (hf value).of_done h'
      exact ⟨front ++ back, by simp, .mk hvalue hresult⟩
    | failed cause rest =>
      obtain ⟨back, rfl, hback, hfits⟩ := (hf value).of_failed h'
      exact ⟨front ++ back, by simp, .then_right hvalue hback, hfits⟩
    | overlong | exhausted => trivial
  | failed cause rest =>
    obtain ⟨front, rfl, hfront, hfits⟩ := hp.of_failed h
    exact ⟨front, rfl, hfront.then_left fun value => (hf value).begins, hfits⟩
  | overlong | exhausted => trivial

/-- A parser that only changes the value leaves what the first one has left. -/
theorem map {N : Spelling β} (hp : p.Tracks L) (g : α → β)
    (hL : ∀ value us rest, L value us rest → N (g value) us rest) :
    (p >>= fun value => Pure.pure (g value)).Tracks N := by
  refine ⟨hp.begins.map g fun _ _ => hL _ _ _, fun ts => ?_⟩
  rw [bind_apply]
  cases h : p ts with
  | done value rest =>
    obtain ⟨front, hsplit, hvalue⟩ := hp.of_done h
    exact ⟨front, hsplit, hL _ _ _ hvalue⟩
  | failed cause rest =>
    obtain ⟨front, hsplit, hfront, hfits⟩ := hp.of_failed h
    exact ⟨front, hsplit, hfront.map g fun _ _ => hL _ _ _, hfits⟩
  | overlong | exhausted => trivial

theorem ite {condition : Prop} [Decidable condition] (hp : p.Tracks L) (hq : q.Tracks L) :
    (if condition then p else q).Tracks L := by
  split
  · exact hp
  · exact hq

theorem bounded {p : Nat → Parser α} (h : ∀ budget, (p budget).Tracks L) :
    (Parser.bounded p).Tracks L :=
  ⟨(h 0).begins, fun ts => (h _).reading ts⟩

theorem exhausted (h : Begins L []) : Parser.Tracks (fun _ => .exhausted) L :=
  ⟨h, fun _ => trivial⟩

theorem fail {cause : SyntaxError.Cause} (h : Begins L []) (hfits : ∀ ts, cause.Fits ts) :
    (Parser.fail cause : Parser α).Tracks L :=
  ⟨h, fun ts => .failed h (hfits ts)⟩

/-- A parser that fails at the end of the text and otherwise looks at the first token. -/
theorem of_cons {cause : SyntaxError.Cause} (hbegins : Begins L []) (hnil : p [] = .failed cause [])
    (hfits : cause.Fits []) (hcons : ∀ t ts, (p (t :: ts)).Tracks L (t :: ts)) : p.Tracks L := by
  refine ⟨hbegins, fun ts => ?_⟩
  cases ts with
  | nil =>
    rw [hnil]
    exact .failed hbegins hfits
  | cons t ts => exact hcons t ts

end Tracks

/-! ### Basic parsers -/

theorem tracks_symbol (s : Symbol) : (symbol s).Tracks (Single (.symbol s)) := by
  have hbegins : Begins (Single (.symbol s)) [] := .of_token ⟨.symbol s, none⟩ trivial (.mk rfl)
  refine .of_cons hbegins rfl (fun _ => trivial) fun t ts => ?_
  rw [symbol]
  split
  · next ht => exact ⟨[t], rfl, .mk ht⟩
  · exact .failed hbegins fun _ => trivial

theorem tracks_accept (lexeme : Lexeme) : (accept lexeme).Tracks (Accepted lexeme) := by
  refine ⟨.of_spelling .no, fun ts => ?_⟩
  cases ts with
  | nil => exact .done .no
  | cons t ts =>
    rw [accept]
    split
    · next ht => exact ⟨[t], rfl, .yes ht⟩
    · exact .done .no

/-- A token that is accepted or not decides between two spellings. -/
theorem tracks_accept_bind {lexeme : Lexeme} {yes no : Parser α} {L M : Spelling α}
    (hyes : yes.Tracks L) (hno : no.Tracks M) :
    (do if ← accept lexeme then yes else no : Parser α).Tracks (Either lexeme L M) := by
  have hbranch (found : Bool) :
      (if found then yes else no).Tracks (if found then L else M) := by
    cases found with
    | true => exact hyes
    | false => exact hno
  refine ((tracks_accept lexeme).bind hbranch).mono ?_
  rintro _ _ _ ⟨⟨ht⟩ | ⟨⟩, h⟩
  · exact .yes ht h
  · exact .no h

theorem tracks_atEnd_bind {f : Bool → Parser α} {L : Spelling α}
    (hf : ∀ found, (f found).Tracks L) : (atEnd >>= f).Tracks L :=
  ⟨(hf true).begins, fun ts => (hf _).reading ts⟩

end Parser

end MonkeyLang
