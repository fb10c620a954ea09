import MonkeyLang.Text.Lines
import MonkeyLang.Text.Quoted

/-!
# Texts on one line

Where a text is split into lines, and what joining lines and splitting them again yields.

## Main Definitions

* `OneLine` — the text has no line breaks
* `ClosesLine` — the text is not empty, and no line break is its last character

## Main Statements

* `oneLine_of_mem_splitLines` — no line has a break
* `splitLines_append_newline` — the lines of a text that a newline separates from another one
* `splitLines_intercalate` — the lines of texts that are joined by newlines
* `splitLines_intercalate_eq_map_iff` — **splitting undoes joining** exactly when each of the texts
  is one line
* `oneLine_visible`, `oneLine_quote_iff` — characters and quotations in a message

## Design Notes

A break at the end of a text begins no further line, so that a newline behind it would make a line
of its own.  That is why the laws ask for texts that close their last line.
-/

namespace MonkeyLang.Text

/-- The text has no line breaks. -/
def OneLine (text : List Char) : Prop := ∀ c ∈ text, isLineBreak c = false

instance (text : List Char) : Decidable (OneLine text) :=
  List.decidableBAll (fun c => isLineBreak c = false) text

/-- The text is not empty, and no line break is its last character. -/
def ClosesLine (text : List Char) : Prop := ∃ c ∈ text.getLast?, isLineBreak c = false

variable {c : Char} {text rest : List Char}

@[simp] theorem oneLine_nil : OneLine [] := List.forall_mem_nil _

/-- Two texts are one line together exactly when each of them is one line. -/
@[simp] theorem oneLine_append {s t : List Char} : OneLine (s ++ t) ↔ OneLine s ∧ OneLine t :=
  List.forall_mem_append

@[simp] theorem oneLine_cons : OneLine (c :: text) ↔ isLineBreak c = false ∧ OneLine text :=
  List.forall_mem_cons

theorem ClosesLine.ne_nil (h : ClosesLine text) : text ≠ [] := by
  rintro rfl
  obtain ⟨c, hc, -⟩ := h
  cases hc

theorem ClosesLine.of_cons (h : ClosesLine (c :: text)) (hc : isLineBreak c = true) :
    ClosesLine text := by
  obtain ⟨d, hd, hbreak⟩ := h
  cases text with
  | nil =>
    obtain rfl : c = d := Option.some.inj hd
    cases hc.symm.trans hbreak
  | cons e text => exact ⟨d, by rwa [List.getLast?_cons_cons] at hd, hbreak⟩

theorem ClosesLine.tail (h : ClosesLine (c :: text)) (hne : text ≠ []) : ClosesLine text := by
  obtain ⟨d, hd, hbreak⟩ := h
  obtain ⟨e, text, rfl⟩ := List.exists_cons_of_ne_nil hne
  exact ⟨d, by rwa [List.getLast?_cons_cons] at hd, hbreak⟩

/-! ### Lines -/

/-- A carriage return and a newline are one break. -/
theorem splitLines_pair (rest : List Char) :
    splitLines ('\r' :: '\n' :: rest) = [] :: splitLines rest := rfl

theorem splitLines_cons_of_not_pair (hpair : ∀ tail, c = '\r' → rest = '\n' :: tail → False) :
    splitLines (c :: rest) =
      if isLineBreak c then [] :: splitLines rest else growFirst c (splitLines rest) := by
  rw [splitLines.eq_def]
  split
  · next h => cases h
  · next tail h =>
    obtain ⟨hc, hrest⟩ := List.cons.inj h
    exact (hpair tail hc hrest).elim
  · next h =>
    cases h
    rfl

theorem splitLines_cons (hc : isLineBreak c = false) (rest : List Char) :
    splitLines (c :: rest) = growFirst c (splitLines rest) := by
  rw [splitLines_cons_of_not_pair, hc]
  · rfl
  · rintro _ rfl
    cases hc

/-- A line break in front makes an empty line, unless it is the first half of a pair. -/
theorem splitLines_cons_of_isLineBreak (hc : isLineBreak c = true)
    (hpair : ∀ tail, c = '\r' → rest = '\n' :: tail → False) :
    splitLines (c :: rest) = [] :: splitLines rest := by
  rw [splitLines_cons_of_not_pair hpair, if_pos hc]

theorem splitLines_ne_nil (hne : text ≠ []) : splitLines text ≠ [] := by
  cases text using splitLines.fun_cases with
  | case1 => exact absurd rfl hne
  | case2 rest => exact List.cons_ne_nil _ _
  | case3 c rest hpair hbreak => simp [splitLines_cons_of_isLineBreak hbreak hpair]
  | case4 c rest hpair hbreak =>
    rw [splitLines_cons (by simpa using hbreak)]
    unfold growFirst
    split <;> simp

/-- **No line has a break.** -/
theorem oneLine_of_mem_splitLines {line : List Char} (h : line ∈ splitLines text) :
    OneLine line := by
  induction text using splitLines.induct generalizing line with
  | case1 => cases h
  | case2 rest ih =>
    rw [splitLines_pair] at h
    rcases List.mem_cons.1 h with rfl | h
    · exact oneLine_nil
    · exact ih h
  | case3 c rest hpair hbreak ih =>
    rw [splitLines_cons_of_isLineBreak hbreak hpair] at h
    rcases List.mem_cons.1 h with rfl | h
    · exact oneLine_nil
    · exact ih h
  | case4 c rest hpair hbreak ih =>
    rw [Bool.not_eq_true] at hbreak
    rw [splitLines_cons hbreak] at h
    cases hlines : splitLines rest with
    | nil =>
      rw [hlines, growFirst, List.mem_singleton] at h
      rw [h, oneLine_cons]
      exact ⟨hbreak, oneLine_nil⟩
    | cons first others =>
      rw [hlines] at h ih
      rcases List.mem_cons.1 h with rfl | h
      · exact oneLine_cons.2 ⟨hbreak, ih List.mem_cons_self⟩
      · exact ih (List.mem_cons_of_mem _ h)

/-- A text without breaks is one line. -/
theorem splitLines_of_oneLine (hne : text ≠ []) (h : OneLine text) : splitLines text = [text] := by
  induction text with
  | nil => exact absurd rfl hne
  | cons c rest ih =>
    obtain ⟨hc, hrest⟩ := oneLine_cons.1 h
    rw [splitLines_cons hc]
    cases rest with
    | nil => rfl
    | cons d rest =>
      rw [ih (List.cons_ne_nil d rest) hrest]
      rfl

/-- **A newline between two texts** separates their lines. -/
theorem splitLines_append_newline (h : ClosesLine text) (rest : List Char) :
    splitLines (text ++ '\n' :: rest) = splitLines text ++ splitLines rest := by
  induction text using splitLines.induct with
  | case1 => exact absurd rfl h.ne_nil
  | case2 tail ih =>
    have htail : ClosesLine tail := (h.of_cons rfl).of_cons rfl
    simp only [List.cons_append, splitLines_pair, ih htail]
  | case3 c tail hpair hbreak ih =>
    have htail := h.of_cons hbreak
    have hpair' : ∀ us, c = '\r' → tail ++ '\n' :: rest = '\n' :: us → False := by
      -- The break is not the last character, so that the one behind it is the same in both texts.
      rintro us rfl heq
      obtain ⟨d, tail, rfl⟩ := List.exists_cons_of_ne_nil htail.ne_nil
      obtain ⟨rfl, -⟩ := List.cons.inj heq
      exact hpair tail rfl rfl
    rw [splitLines_cons_of_isLineBreak hbreak hpair, List.cons_append, List.cons_append,
      splitLines_cons_of_isLineBreak hbreak hpair', ih htail]
  | case4 c tail hpair hbreak ih =>
    rw [Bool.not_eq_true] at hbreak
    rw [List.cons_append, splitLines_cons hbreak, splitLines_cons hbreak]
    by_cases hne : tail = []
    · rw [hne]
      rfl
    · rw [ih (h.tail hne)]
      obtain ⟨line, lines, hlines⟩ := List.exists_cons_of_ne_nil (splitLines_ne_nil hne)
      rw [hlines]
      rfl

example : splitLines "a\r\nb\n\nc".toList = ["a".toList, "b".toList, [], "c".toList] := by decide

/-! ### Texts joined by newlines -/

variable {texts : List String}

/-- **The lines of texts joined by newlines** are the lines of each of them, in order. -/
theorem splitLines_intercalate (h : ∀ text ∈ texts, ClosesLine text.toList) :
    splitLines ("\n".intercalate texts).toList =
      texts.flatMap fun text => splitLines text.toList := by
  induction texts with
  | nil => rfl
  | cons text texts ih =>
    obtain ⟨htext, htexts⟩ := List.forall_mem_cons.1 h
    cases texts with
    | nil => simp [String.intercalate_singleton]
    | cons text' texts =>
      rw [String.intercalate_cons_cons, String.toList_append, String.toList_append,
        List.append_assoc, show "\n".toList = ['\n'] from rfl, List.singleton_append,
        splitLines_append_newline htext, ih htexts]
      rfl

/-- **Splitting undoes joining** exactly when each of the texts is one line. -/
theorem splitLines_intercalate_eq_map_iff (h : ∀ text ∈ texts, ClosesLine text.toList) :
    splitLines ("\n".intercalate texts).toList = texts.map String.toList ↔
      ∀ text ∈ texts, OneLine text.toList := by
  rw [splitLines_intercalate h]
  constructor
  · intro heq text htext
    have hmem : text.toList ∈ texts.flatMap fun text => splitLines text.toList := by
      rw [heq]
      exact List.mem_map_of_mem htext
    obtain ⟨_, -, hline⟩ := List.mem_flatMap.1 hmem
    exact oneLine_of_mem_splitLines hline
  · intro hone
    have hlines : ∀ text ∈ texts, splitLines text.toList = [text.toList] := fun text htext =>
      splitLines_of_oneLine (h text htext).ne_nil (hone text htext)
    rw [List.map_eq_flatMap]
    exact congrArg List.flatten (List.map_congr_left hlines)

/-! ### Pieces of messages -/

/-- A condition that no line break meets is one on other characters. -/
theorem isLineBreak_of_all {p : Char → Bool}
    (h : ['\n', '\r', '\x0b', '\x0c', '\x1c', '\x1d', '\x1e', '\x85', '\u2028', '\u2029'].all
      (fun d => !p d) = true) (hc : p c = true) : isLineBreak c = false := by
  refine Bool.eq_false_iff.2 fun hbreak => ?_
  have hmem : c ∈ ['\n', '\r', '\x0b', '\x0c', '\x1c', '\x1d', '\x1e', '\x85', '\u2028',
      '\u2029'] := by
    simpa [isLineBreak, or_assoc] using hbreak
  have hnot := List.all_eq_true.1 h c hmem
  rw [hc] at hnot
  cases hnot

/-- No visible character breaks a line. -/
theorem isLineBreak_of_isVisible (h : isVisible c = true) : isLineBreak c = false :=
  isLineBreak_of_all (by decide) h

theorem oneLine_toDigits {base : Nat} (hlow : 1 < base) (hhigh : base ≤ 16) (n : Nat) :
    OneLine (Nat.toDigits base n) := by
  have hdigit : ∀ d < 16, isLineBreak (Nat.digitChar d) = false := by decide
  induction n using Nat.strongRecOn with
  | ind n ih =>
    by_cases hn : n < base
    · rw [Nat.toDigits_of_lt_base hn, oneLine_cons]
      exact ⟨hdigit n (Nat.lt_of_lt_of_le hn hhigh), oneLine_nil⟩
    · have hbase : base ≤ n := Nat.le_of_not_lt hn
      rw [Nat.toDigits_of_base_le hlow hbase, oneLine_append, oneLine_cons]
      refine ⟨ih _ (Nat.div_lt_self (by omega) hlow), hdigit _ ?_, oneLine_nil⟩
      exact Nat.lt_of_lt_of_le (Nat.mod_lt n (by omega)) hhigh

@[simp] theorem oneLine_repr (n : Int) : OneLine n.repr.toList := by
  have hnat (n : Nat) : OneLine n.repr.toList := by
    rw [Nat.repr, String.toList_ofList]
    exact oneLine_toDigits (by decide) (by decide) n
  cases n with
  | ofNat n => exact hnat n
  | negSucc n =>
    show OneLine ("-" ++ (n + 1).repr).toList
    rw [String.toList_append, oneLine_append]
    exact ⟨by decide, hnat (n + 1)⟩

/-- What a message shows of a character has no breaks, whatever the character. -/
theorem oneLine_visible (c : Char) : OneLine (visible c) := by
  unfold visible
  split
  · next h => exact oneLine_cons.2 ⟨isLineBreak_of_isVisible h, oneLine_nil⟩
  · rw [hexCode, oneLine_cons, oneLine_cons, paddedHex, oneLine_append]
    refine ⟨by decide, by decide, fun d hd => ?_, oneLine_toDigits (by decide) (by decide) _⟩
    rw [List.eq_of_mem_replicate hd]
    rfl

example : visible '\x0b' = "0x0b".toList := by decide

/-- A quotation has the breaks of what is quoted. -/
@[simp] theorem oneLine_quote_iff {text : String} :
    OneLine (quote text).toList ↔ OneLine text.toList := by
  unfold quote
  split <;> simp [isLineBreak]

theorem ClosesLine.append {t : List Char} (h : ClosesLine t) (s : List Char) :
    ClosesLine (s ++ t) := by
  obtain ⟨c, hc, hbreak⟩ := h
  exact ⟨c, by rw [List.getLast?_append, hc]; rfl, hbreak⟩

theorem closesLine_quote (text : String) : ClosesLine (quote text).toList := by
  have hmarks : ClosesLine "\x60".toList ∧ ClosesLine "\"".toList :=
    ⟨⟨'\x60', rfl, rfl⟩, '"', rfl, rfl⟩
  unfold quote
  split
  · rw [String.toList_append]
    exact hmarks.2.append _
  · rw [String.toList_append]
    exact hmarks.1.append _

end MonkeyLang.Text
