import Mathlib.Data.List.Infix
import MonkeyLang.Console
import MonkeyLang.Proofs.Concatenation

/-!
# Conversations chunk by chunk

The lines of a conversation fall into chunks, and a console answers each chunk as a source of its
own.

## Main Definitions

* `joined` — the source that lines make up together
* `IsComplete`, `IsOpen`, `IsChunk` — whether a console answers lines, or waits for more
* `Splits` — lines fall into chunks and a rest that waits
* `answer` — what the answer to a chunk does to a machine
* `Console.pushAll` — hands lines to a console, one after the other

## Main Statements

* `Splits.exists_of_lines`, `Splits.unique` — lines fall into chunks, in one way only
* `Console.pushAll_of_isChunk` — what a console does with a chunk
* `Console.pushAll_eq_foldl` — **a conversation is a fold over its chunks**

## Design Notes

Nothing here mentions the lines that wait inside a console, apart from the step lemmas: chunks are a
matter of the lines alone.  An empty line ends the chunk that it stands in, unless it stands there
alone; then it is a chunk too, for the empty source is read without errors.
-/

namespace MonkeyLang

/-! ### Chunks -/

/-- The source that lines make up together. -/
def joined (lines : List String) : String := "\n".intercalate lines

/-- The last of the lines ends them: together they are a source without errors, or it is an empty
line behind others. -/
def IsComplete (lines : List String) : Prop :=
  (∃ program, readProgram (joined lines) none = .ok program) ∨
    (2 ≤ lines.length ∧ lines.getLast? = some "")

/-- None of the lines ends those up to it. -/
def IsOpen (lines : List String) : Prop :=
  ∀ front, front <+: lines → front ≠ [] → ¬IsComplete front

/-- The last of the lines is the first one that ends those up to it. -/
structure IsChunk (lines : List String) : Prop where
  ne_nil : lines ≠ []
  isComplete : IsComplete lines
  isOpen : IsOpen lines.dropLast

/-- **The lines fall into chunks**, and behind them is a rest that no line ends. -/
structure Splits (lines : List String) (chunks : List (List String)) (rest : List String) :
    Prop where
  lines_eq : lines = chunks.flatten ++ rest
  isChunk : ∀ chunk ∈ chunks, IsChunk chunk
  isOpen : IsOpen rest

/-- What a console has read when it takes the last of the lines in `block`: these begin where a
chunk ends, and none before the last one ends them. -/
def IsRead (lines block : List String) : Prop :=
  ∃ (chunks : List (List String)) (behind : List String),
    lines = chunks.flatten ++ block ++ behind ∧ (∀ chunk ∈ chunks, IsChunk chunk) ∧
      IsOpen block.dropLast

instance (lines : List String) : Decidable (IsComplete lines) :=
  decidable_of_iff ((readProgram (joined lines) none).isOk = true ∨
    (2 ≤ lines.length ∧ lines.getLast? = some "")) (or_congr isOk_readProgram_iff Iff.rfl)

instance (lines : List String) : Decidable (IsOpen lines) :=
  decidable_of_iff (∀ front ∈ lines.inits, front ≠ [] → ¬IsComplete front)
    (forall_congr' fun _ => imp_congr (List.mem_inits _ _) Iff.rfl)

instance (lines : List String) : Decidable (IsChunk lines) :=
  decidable_of_iff (lines ≠ [] ∧ IsComplete lines ∧ IsOpen lines.dropLast)
    ⟨fun ⟨hne, h, hopen⟩ => ⟨hne, h, hopen⟩, fun ⟨hne, h, hopen⟩ => ⟨hne, h, hopen⟩⟩

instance (lines : List String) (chunks : List (List String)) (rest : List String) :
    Decidable (Splits lines chunks rest) :=
  decidable_of_iff
    (lines = chunks.flatten ++ rest ∧ (∀ chunk ∈ chunks, IsChunk chunk) ∧ IsOpen rest)
    ⟨fun ⟨heq, h, hopen⟩ => ⟨heq, h, hopen⟩, fun ⟨heq, h, hopen⟩ => ⟨heq, h, hopen⟩⟩

variable {lines chunk rest rest' block front : List String} {chunks chunks' : List (List String)}
  {line : String}

theorem IsOpen.of_prefix (h : IsOpen lines) (hfront : front <+: lines) : IsOpen front :=
  fun _ hpart => h _ (hpart.trans hfront)

theorem isOpen_nil : IsOpen [] := by
  intro front hfront hne
  exact absurd (List.prefix_nil.1 hfront) hne

/-- One more line either ends the lines or not. -/
theorem isOpen_concat_iff :
    IsOpen (front ++ [line]) ↔ IsOpen front ∧ ¬IsComplete (front ++ [line]) := by
  constructor
  · intro h
    exact ⟨h.of_prefix (List.prefix_append _ _), h _ (List.prefix_refl _) (by simp)⟩
  · rintro ⟨hopen, hwhole⟩ part hpart hne
    rcases List.prefix_concat_iff.1 hpart with rfl | hfront
    · exact hwhole
    · exact hopen part hfront hne

theorem isChunk_concat (hopen : IsOpen front) (h : IsComplete (front ++ [line])) :
    IsChunk (front ++ [line]) where
  ne_nil := by simp
  isComplete := h
  isOpen := by rwa [List.dropLast_concat]

/-- Lines of which one ends those up to it begin with a chunk. -/
theorem exists_isChunk_of_not_isOpen (h : ¬IsOpen lines) :
    ∃ chunk rest, lines = chunk ++ rest ∧ IsChunk chunk := by
  induction lines using List.reverseRecOn with
  | nil => exact absurd isOpen_nil h
  | append_singleton front line ih =>
    by_cases hfront : IsOpen front
    · have hwhole : IsComplete (front ++ [line]) := by
        by_contra hwhole
        exact h (isOpen_concat_iff.2 ⟨hfront, hwhole⟩)
      exact ⟨front ++ [line], [], (List.append_nil _).symm, isChunk_concat hfront hwhole⟩
    · obtain ⟨chunk, rest, rfl, hchunk⟩ := ih hfront
      exact ⟨chunk, rest ++ [line], List.append_assoc _ _ _, hchunk⟩

namespace IsChunk

/-- Lines that begin with a chunk do not wait. -/
theorem not_isOpen (h : IsChunk chunk) (hbegins : chunk <+: lines) : ¬IsOpen lines :=
  fun hopen => hopen chunk hbegins h.ne_nil h.isComplete

/-- A chunk that begins another one is all of it. -/
theorem eq_of_prefix {other : List String} (h : IsChunk chunk) (hother : IsChunk other)
    (hbegins : chunk <+: other) : chunk = other := by
  rw [← List.dropLast_append_getLast hother.ne_nil] at hbegins ⊢
  rcases List.prefix_concat_iff.1 hbegins with hwhole | hpart
  · exact hwhole
  · exact absurd hother.isOpen (h.not_isOpen hpart)

/-- Lines begin with one chunk at most. -/
theorem eq_of_append_eq {other : List String} (h : IsChunk chunk) (hother : IsChunk other)
    (heq : chunk ++ rest = other ++ rest') : chunk = other := by
  have hchunk : chunk <+: other ++ rest' := heq ▸ List.prefix_append _ _
  rcases List.prefix_or_prefix_of_prefix hchunk (List.prefix_append other rest') with hle | hle
  · exact h.eq_of_prefix hother hle
  · exact (hother.eq_of_prefix h hle).symm

end IsChunk

namespace Splits

theorem of_isOpen (h : IsOpen rest) : Splits rest [] rest where
  lines_eq := rfl
  isChunk := by simp
  isOpen := h

theorem cons (hchunk : IsChunk chunk) (h : Splits lines chunks rest) :
    Splits (chunk ++ lines) (chunk :: chunks) rest where
  lines_eq := by rw [List.flatten_cons, List.append_assoc, ← h.lines_eq]
  isChunk := List.forall_mem_cons.2 ⟨hchunk, h.isChunk⟩
  isOpen := h.isOpen

theorem tail (h : Splits lines (chunk :: chunks) rest) :
    Splits (chunks.flatten ++ rest) chunks rest where
  lines_eq := rfl
  isChunk := fun other hother => h.isChunk other (List.mem_cons_of_mem _ hother)
  isOpen := h.isOpen

/-- **All lines fall into chunks** and a rest. -/
theorem exists_of_lines (lines : List String) : ∃ chunks rest, Splits lines chunks rest := by
  by_cases hopen : IsOpen lines
  · exact ⟨[], lines, of_isOpen hopen⟩
  · obtain ⟨chunk, behind, rfl, hchunk⟩ := exists_isChunk_of_not_isOpen hopen
    obtain ⟨chunks, rest, h⟩ := exists_of_lines behind
    exact ⟨chunk :: chunks, rest, h.cons hchunk⟩
termination_by lines.length
decreasing_by
  subst_vars
  have := List.length_pos_iff.2 hchunk.ne_nil
  rw [List.length_append]
  omega

/-- **There is one way only** in which lines fall into chunks and a rest. -/
theorem unique (h : Splits lines chunks rest) (h' : Splits lines chunks' rest') :
    chunks = chunks' ∧ rest = rest' := by
  induction chunks generalizing lines chunks' with
  | nil =>
    obtain rfl : lines = rest := h.lines_eq
    cases chunks' with
    | nil => exact ⟨rfl, h'.lines_eq⟩
    | cons other others =>
      refine absurd h.isOpen ((h'.isChunk other List.mem_cons_self).not_isOpen ?_)
      rw [h'.lines_eq, List.flatten_cons, List.append_assoc]
      exact List.prefix_append _ _
  | cons chunk chunks ih =>
    have hchunk := h.isChunk chunk List.mem_cons_self
    have hlines := h.lines_eq
    rw [List.flatten_cons, List.append_assoc] at hlines
    cases chunks' with
    | nil =>
      obtain rfl : lines = rest' := h'.lines_eq
      exact absurd h'.isOpen (hchunk.not_isOpen (hlines ▸ List.prefix_append _ _))
    | cons other others =>
      have hlines' := h'.lines_eq
      rw [List.flatten_cons, List.append_assoc] at hlines'
      have heq := hlines.symm.trans hlines'
      obtain rfl := hchunk.eq_of_append_eq (h'.isChunk other List.mem_cons_self) heq
      have hbehind := List.append_cancel_left heq
      obtain ⟨rfl, rfl⟩ := ih h.tail (hbehind ▸ h'.tail)
      exact ⟨rfl, rfl⟩

end Splits

/-! ### What is read -/

/-- Of lines that wait, every first part has been read. -/
theorem IsOpen.isRead (h : IsOpen lines) (hblock : block <+: lines) : IsRead lines block := by
  obtain ⟨behind, rfl⟩ := hblock
  refine ⟨[], behind, rfl, by simp, h.of_prefix ?_⟩
  exact (List.dropLast_prefix _).trans (List.prefix_append _ _)

/-- Of a chunk too. -/
theorem IsChunk.isRead (h : IsChunk chunk) (hblock : block <+: chunk) (behind : List String) :
    IsRead (chunk ++ behind) block := by
  have hopen : IsOpen block.dropLast := by
    rw [← List.dropLast_append_getLast h.ne_nil] at hblock
    rcases List.prefix_concat_iff.1 hblock with rfl | hpart
    · rw [List.dropLast_concat]
      exact h.isOpen
    · exact h.isOpen.of_prefix ((List.dropLast_prefix _).trans hpart)
  obtain ⟨others, rfl⟩ := hblock
  exact ⟨[], others ++ behind, List.append_assoc _ _ _, by simp, hopen⟩

/-- What is read behind a chunk is what is read without it. -/
theorem IsRead.behind (h : IsRead lines block) (hchunk : IsChunk chunk) :
    IsRead (chunk ++ lines) block := by
  obtain ⟨chunks, others, rfl, hchunks, hopen⟩ := h
  refine ⟨chunk :: chunks, others, ?_, List.forall_mem_cons.2 ⟨hchunk, hchunks⟩, hopen⟩
  simp only [List.flatten_cons, List.append_assoc]

/-! ### Answers -/

/-- What a console shows of the ending of a program: its result on a line, if it has one. -/
def Outcome.shown : Outcome (Option Value) → String
  | .tooDeep => "error: " ++ Fault.tooDeep.message ++ "\n"
  | outcome => match outcome.result with
    | some v => v.render ++ "\n"
    | none => ""

/-- Syntax errors, each on an indented line. -/
def indented (errors : List SyntaxError) : String :=
  String.join (errors.map fun e => "\t" ++ e.message ++ "\n")

/-- **What the answer to a chunk does.**  If the chunk is a source without errors, it is run as a
source in the scope and within the limit of the conversation, and what it came to is shown.
Otherwise its errors are shown, and the machine changes in nothing but that output. -/
def answer (limit : Nat) (scope : ScopeId) (m : Machine) (chunk : List String) : Machine :=
  match readProgram (joined chunk) none with
  | .ok program =>
    (runSource (joined chunk) none scope m limit).2.write (runProgram limit scope program m).1.shown
  | .error (.syntaxErrors errors) => m.write (indented errors)
  | .error (.unreadable _) => m

namespace Console

variable {c : Console}

/-- Hands lines to a console, one after the other, and gathers what comes of them. -/
def pushAll (c : Console) : List String → List Turn × Console
  | [] => ([], c)
  | line :: lines =>
    let (turn, c) := c.push line
    let (turns, c) := pushAll c lines
    (turn :: turns, c)

theorem pushAll_cons (c : Console) (line : String) (lines : List String) :
    c.pushAll (line :: lines) =
      ((c.push line).1 :: ((c.push line).2.pushAll lines).1,
        ((c.push line).2.pushAll lines).2) := rfl

theorem pushAll_append (c : Console) (first second : List String) :
    c.pushAll (first ++ second) =
      ((c.pushAll first).1 ++ ((c.pushAll first).2.pushAll second).1,
        ((c.pushAll first).2.pushAll second).2) := by
  induction first generalizing c with
  | nil => rfl
  | cons line first ih =>
    rw [List.cons_append, pushAll_cons, ih, pushAll_cons]
    rfl

/-! ### One line -/

/-- The lines end in a newline exactly if the last of several lines is empty. -/
theorem endsInNewline_joined (hline : '\n' ∉ line.toList) :
    endsInNewline (joined (front ++ [line])) = true ↔ front ≠ [] ∧ line = "" := by
  have hlast : line.toList.getLast? ≠ some '\n' := fun h => hline (List.mem_of_getLast? h)
  by_cases hfront : front = []
  · subst hfront
    rw [joined, List.nil_append, String.intercalate_singleton]
    simp [endsInNewline, hlast]
  · rw [joined, String.intercalate_append_of_ne_nil hfront (by simp), String.intercalate_singleton]
    by_cases hempty : line = ""
    · simp [endsInNewline, hfront, hempty]
    · have hne : line.toList ≠ [] := fun h => hempty (String.toList_inj.1 h)
      obtain ⟨c, hc⟩ := Option.isSome_iff_exists.1 (List.getLast?_isSome.2 hne)
      have hnewline : c ≠ '\n' := fun h => hlast (h ▸ hc)
      simp [endsInNewline, List.getLast?_cons, hc, hnewline, hempty]

/-- Lines that are no source are ended by an empty one behind others, and only so. -/
theorem isComplete_iff_endsInNewline (hline : '\n' ∉ line.toList)
    (hprogram : ∀ program, readProgram (joined (front ++ [line])) none ≠ .ok program) :
    IsComplete (front ++ [line]) ↔ endsInNewline (joined (front ++ [line])) = true := by
  rw [endsInNewline_joined hline]
  constructor
  · rintro (⟨program, h⟩ | ⟨hlength, hlast⟩)
    · exact absurd h (hprogram program)
    · rw [List.getLast?_concat, Option.some_inj] at hlast
      refine ⟨?_, hlast⟩
      rintro rfl
      simp at hlength
  · rintro ⟨hfront, rfl⟩
    have := List.length_pos_iff.2 hfront
    exact .inr ⟨by rw [List.length_append, List.length_singleton]; omega, List.getLast?_concat⟩

theorem run_eq (c : Console) (program : Program Token) :
    c.run program = { c with
      machine := (runProgram c.limit c.scope program c.machine).2.write
        (runProgram c.limit c.scope program c.machine).1.shown } := by
  unfold run
  generalize runProgram c.limit c.scope program c.machine = ending
  obtain ⟨outcome, m⟩ := ending
  cases outcome with
  | tooDeep => rfl
  | interrupt i => rfl
  | value result =>
    cases result with
    | some v => rfl
    | none => simp [Outcome.result, Outcome.shown, Machine.write]

theorem complain_eq (c : Console) (errors : List SyntaxError) :
    c.complain errors = { c with machine := c.machine.write (indented errors) } := by
  unfold complain
  induction errors generalizing c with
  | nil => simp [indented, Machine.write]
  | cons e errors ih =>
    rw [List.foldl_cons, ih]
    simp [say, indented, Machine.write, String.append_assoc]

variable {parsed : Parsed}

/-- **A line that ends the lines** is answered, and no line waits then. -/
theorem push_of_isComplete (hline : '\n' ∉ line.toList)
    (hparse : parse (joined (c.pending ++ [line])) none = .ok parsed)
    (h : IsComplete (c.pending ++ [line])) :
    c.push line = (.answered, { c with
      machine := answer c.limit c.scope c.machine (c.pending ++ [line]), pending := [] }) := by
  have hread := readProgram_of_parse hparse
  unfold push answer
  simp only
  rw [← joined, hparse, hread]
  dsimp only
  split
  · next herrors =>
    rw [if_pos herrors] at hread
    rw [run_eq, runSource_of_readProgram hread]
  · next herrors =>
    rw [if_neg herrors] at hread
    rw [if_pos ((isComplete_iff_endsInNewline hline (by simp [hread])).1 h), complain_eq]

/-- **Any other line** waits with those before it, and nothing else changes. -/
theorem push_of_not_isComplete (hline : '\n' ∉ line.toList)
    (hparse : parse (joined (c.pending ++ [line])) none = .ok parsed)
    (h : ¬IsComplete (c.pending ++ [line])) :
    c.push line = (.waiting, { c with pending := c.pending ++ [line] }) := by
  have hread := readProgram_of_parse hparse
  have herrors : ¬parsed.errors.isEmpty = true := by
    intro herrors
    rw [if_pos herrors] at hread
    exact h (.inl ⟨_, hread⟩)
  rw [if_neg herrors] at hread
  unfold push
  simp only
  rw [← joined, hparse]
  dsimp only
  rw [if_neg herrors, if_neg]
  exact fun hends => h ((isComplete_iff_endsInNewline hline (by simp [hread])).2 hends)

/-! ### Chunks -/

/-- **Lines that none of them ends** all wait. -/
theorem pushAll_of_isOpen (hnew : c.pending = []) (hlines : ∀ line ∈ lines, '\n' ∉ line.toList)
    (hparse : ∀ block, block <+: lines → ∃ parsed, parse (joined block) none = .ok parsed)
    (hopen : IsOpen lines) :
    c.pushAll lines = (List.replicate lines.length .waiting, { c with pending := lines }) := by
  induction lines using List.reverseRecOn with
  | nil => simp [pushAll, ← hnew]
  | append_singleton front line ih =>
    obtain ⟨hfront, hwhole⟩ := isOpen_concat_iff.1 hopen
    obtain ⟨parsed, hparsed⟩ := hparse _ (List.prefix_refl _)
    have hwaiting := ih (fun l hl => hlines l (List.mem_append_left _ hl))
      (fun block hblock => hparse block (hblock.trans (List.prefix_append _ _))) hfront
    have hpush := push_of_not_isComplete (c := { c with pending := front })
      (hlines line (by simp)) hparsed hwhole
    rw [pushAll_append, hwaiting, pushAll_cons, hpush, List.length_append, List.replicate_add]
    rfl

/-- What comes of the lines of a chunk: the last one is answered. -/
def turns (chunk : List String) : List Turn :=
  List.replicate (chunk.length - 1) .waiting ++ [.answered]

/-- **A chunk is answered** with its last line, and no line waits then. -/
theorem pushAll_of_isChunk (hnew : c.pending = []) (hlines : ∀ line ∈ chunk, '\n' ∉ line.toList)
    (hparse : ∀ block, block <+: chunk → ∃ parsed, parse (joined block) none = .ok parsed)
    (hchunk : IsChunk chunk) :
    c.pushAll chunk =
      (turns chunk, { c with machine := answer c.limit c.scope c.machine chunk }) := by
  obtain ⟨front, line, rfl⟩ := (List.eq_nil_or_concat' chunk).resolve_left hchunk.ne_nil
  obtain ⟨parsed, hparsed⟩ := hparse _ (List.prefix_refl _)
  have hopen := hchunk.isOpen
  rw [List.dropLast_concat] at hopen
  have hwaiting := pushAll_of_isOpen hnew (fun l hl => hlines l (List.mem_append_left _ hl))
    (fun block hblock => hparse block (hblock.trans (List.prefix_append _ _))) hopen
  have hpush := push_of_isComplete (c := { c with pending := front })
    (hlines line (by simp)) hparsed hchunk.isComplete
  rw [pushAll_append, hwaiting, pushAll_cons, hpush, turns]
  simp [pushAll, hnew]

/-! ### Conversations -/

/-- What a console does with lines that fall into these chunks and this rest. -/
theorem pushAll_of_splits (h : Splits lines chunks rest) (hnew : c.pending = [])
    (hlines : ∀ line ∈ lines, '\n' ∉ line.toList)
    (hparse : ∀ block, IsRead lines block → ∃ parsed, parse (joined block) none = .ok parsed) :
    c.pushAll lines = (chunks.flatMap turns ++ List.replicate rest.length .waiting,
      { c with machine := chunks.foldl (answer c.limit c.scope) c.machine, pending := rest }) := by
  induction chunks generalizing lines c with
  | nil =>
    obtain rfl : lines = rest := h.lines_eq
    exact pushAll_of_isOpen hnew hlines (fun block hblock => hparse block (h.isOpen.isRead hblock))
      h.isOpen
  | cons chunk chunks ih =>
    have hchunk := h.isChunk chunk List.mem_cons_self
    obtain rfl : lines = chunk ++ (chunks.flatten ++ rest) := by
      rw [h.lines_eq, List.flatten_cons, List.append_assoc]
    have hfirst := pushAll_of_isChunk hnew (fun l hl => hlines l (List.mem_append_left _ hl))
      (fun block hblock => hparse block (hchunk.isRead hblock _)) hchunk
    have hothers := ih (c := { c with machine := answer c.limit c.scope c.machine chunk }) h.tail
      hnew (fun l hl => hlines l (List.mem_append_right _ hl))
      (fun block hblock => hparse block (hblock.behind hchunk))
    rw [pushAll_append, hfirst, hothers, List.flatMap_cons, List.append_assoc, List.foldl_cons]

/-- **A conversation is a fold over its chunks.**  Hand lines without newlines to a console in which
no line waits, and let no text that it reads on the way have an overlong literal.  There is one way
only in which the lines fall into chunks and a rest.  Of each chunk the console answers the last
line and no other one, and the rest waits.  Beginning with the machine of the console, each answer
acts on the machine that the one before has left, in the one scope of the console and within its
limit. -/
theorem pushAll_eq_foldl (hnew : c.pending = []) (hlines : ∀ line ∈ lines, '\n' ∉ line.toList)
    (hshort : ∀ block, IsRead lines block → ∀ t ∈ (lex (joined block) none).tokens, ¬t.IsOverlong) :
    ∃ chunks rest, Splits lines chunks rest ∧
      (∀ chunks' rest', Splits lines chunks' rest' → chunks' = chunks ∧ rest' = rest) ∧
      c.pushAll lines =
        (chunks.flatMap turns ++ List.replicate rest.length .waiting,
          { c with
            machine := chunks.foldl (answer c.limit c.scope) c.machine
            pending := rest }) := by
  obtain ⟨chunks, rest, h⟩ := Splits.exists_of_lines lines
  refine ⟨chunks, rest, h, fun chunks' rest' h' => h'.unique h, ?_⟩
  refine pushAll_of_splits h hnew hlines fun block hblock => ?_
  obtain ⟨parsed, hreads⟩ := exists_reads_of_not_isOverlong (hshort block hblock) _
  exact ⟨parsed, parseTokens_eq_ok_iff.2 hreads⟩

/-- Two chunks and a rest: an expression on two lines, a binding that lacks its name, and a
beginning.  An empty line gives up the second chunk. -/
theorem pushAll_eq_foldl_three :
    ∃ m, m.output = "3\n\texpected `identifier`, found `5`\n" ∧
      (start 2).pushAll ["1 +", "2", "let 5", "", "if"] =
        ([.waiting, .answered, .waiting, .answered, .waiting],
          { start 2 with machine := m, pending := ["if"] }) := by
  have hlines : ∀ line ∈ ["1 +", "2", "let 5", "", "if"], '\n' ∉ line.toList := by decide
  have hshort : ∀ behind ∈ ["1 +", "2", "let 5", "", "if"].tails, ∀ block ∈ behind.inits,
      ∀ t ∈ (lex (joined block) none).tokens, ¬t.IsOverlong := by decide +kernel
  obtain ⟨chunks, rest, -, hunique, hending⟩ := pushAll_eq_foldl (c := start 2) rfl hlines
      fun block hblock => by
    obtain ⟨chunks, behind, heq, -, -⟩ := hblock
    refine hshort (block ++ behind) ?_ block ?_
    · rw [List.mem_tails, heq, List.append_assoc]
      exact List.suffix_append _ _
    · rw [List.mem_inits]
      exact List.prefix_append _ _
  obtain ⟨rfl, rfl⟩ := hunique [["1 +", "2"], ["let 5", ""]] ["if"] (by decide +kernel)
  exact ⟨_, by decide +kernel, hending⟩

end Console

end MonkeyLang
