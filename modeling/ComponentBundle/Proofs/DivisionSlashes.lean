import ComponentBundle.Proofs.Bytewise
import ComponentBundle.Proofs.CommentRemoval
import ComponentBundle.Proofs.Compaction
import ComponentBundle.Proofs.Declarations
import ComponentBundle.Proofs.ReachedPlaces

/-!
Slashes behind operands. Such a slash divides, so no pattern starts at it. The lexer decides by the
characters before the slash, and takes three things there for the start of an expression: how a
comment ends, a sign that is counted up or down by, and a member with the name of a keyword.
-/
namespace ComponentBundle.Source
open ComponentBundle.Text

/-- The characters of a name or a number; those outside ASCII that are white space are none. -/
def isWordChar (c : Char) : Bool := isNameChar c && !isBlank c

/-! Operands. Places of a text are given by what stands before them. -/

/-- White space of the code and whole comments stand between two places. -/
inductive Skips (t front : Text) : Text → Prop
  | none : Skips t front front
  | blank {behind : Text} {c : Char} (gap : Skips t front behind)
      (code : inCode (lex t) (width behind)) (blank : isBlank c) : Skips t front (behind ++ [c])
  | comment {behind inside : Text} (gap : Skips t front behind)
      (known : ⟨.comment, width behind, width behind + width inside⟩ ∈ extents (lex t)) :
      Skips t front (behind ++ inside)

/-- What follows is the name of a member, or a private name, whatever word it is. -/
inductive NamesNext (t : Text) : Text → Prop
  | dot {front : Text} (code : inCode (lex t) (width front))
      (single : ¬ ['.', '.', '.'] <:+ front ++ ['.']) : NamesNext t (front ++ ['.'])
  | sign {front : Text} (code : inCode (lex t) (width front)) : NamesNext t (front ++ ['#'])

/-- The last token before a place ends an operand. -/
inductive EndsOperand (t : Text) : Text → Prop
  | word {front word : Text} (code : inCode (lex t) (width front)) (filled : word ≠ [])
      (spelled : ∀ c ∈ word, isWordChar c) (starts : front.getLast?.all fun c => !isWordChar c)
      (named : word ∈ expressionWords → ∃ lead, NamesNext t lead ∧ Skips t lead front) :
      EndsOperand t (front ++ word)
  | point {front word : Text} (code : inCode (lex t) (width front))
      (number : word.head?.any Char.isDigit) (spelled : ∀ c ∈ word, isWordChar c)
      (starts : front.getLast?.all fun c => !isWordChar c) : EndsOperand t (front ++ word ++ ['.'])
  | literal {front inside : Text} {kind : SpanKind}
      (quotes : kind = .quotedText ∨ kind = .verbatimText)
      (known : ⟨.span kind, width front, width front + width inside⟩ ∈ extents (lex t)) :
      EndsOperand t (front ++ inside)
  | closing {front : Text} {c : Char} (closes : c = ')' ∨ c = ']')
      (code : inCode (lex t) (width front)) : EndsOperand t (front ++ [c])
  | counted {operand front : Text} {sign : Char} (ends : EndsOperand t operand)
      (gap : Skips t operand front) (signs : sign = '+' ∨ sign = '-')
      (code : inCode (lex t) (width front)) (next : inCode (lex t) (width front + 1)) :
      EndsOperand t (front ++ [sign, sign])

/-- What the lexer takes for the start of an expression between an operand and a slash. -/
inductive Misread (t operand : Text) : Text → Prop
  | comment {behind inside gap : Text}
      (known : ⟨.comment, width behind, width behind + width inside⟩ ∈ extents (lex t))
      (opens : allowsPattern inside.reverse) (blank : ∀ c ∈ gap, isGap c) :
      Misread t operand (behind ++ inside ++ gap)
  | counted {lead gap : Text} {sign : Char} (signs : sign = '+' ∨ sign = '-')
      (ends : operand = lead ++ [sign, sign]) (blank : ∀ c ∈ gap, isGap c) :
      Misread t operand (operand ++ gap)
  | keyword {lead word gap : Text} (known : word ∈ expressionWords) (ends : operand = lead ++ word)
      (apart : lead.getLast?.all fun c => c ≠ '.' && !isNameChar c) (blank : ∀ c ∈ gap, isGap c) :
      Misread t operand (operand ++ gap)

/-! What the lexer sees before a slash. -/

section
variable {c : Char}

theorem isGap_of_isNameChar (name : isNameChar c) : isGap c = false := by
  rw [← Bool.not_eq_true]
  intro gap
  simp only [isGap, Bool.or_eq_true, decide_eq_true_eq] at gap
  rcases gap with (((rfl | rfl) | rfl) | rfl) | rfl <;> exact absurd name (by decide)

theorem not_mark_of_isNameChar (name : isNameChar c) : c ∉ expressionMarks := by
  intro mark
  have all : expressionMarks.all fun c => !isNameChar c := by decide
  have other := List.all_eq_true.1 all c mark
  rw [name] at other
  contradiction

theorem allowsPattern_gap {gap : Text} (blank : ∀ c ∈ gap, isGap c) (t : Text) :
    allowsPattern (gap ++ t) = allowsPattern t := by
  rw [allowsPattern_eq, allowsPattern_eq, List.dropWhile_append_of_pos blank]

theorem allowsPattern_other (shown : isGap c = false) (other : c ∉ expressionMarks)
    (unnamed : isNameChar c = false) (t : Text) : allowsPattern (c :: t) = false := by
  rw [allowsPattern_eq, List.dropWhile_cons_of_neg (by rw [shown]; decide), followsMark]
  simp [other, unnamed]

theorem allowsPattern_mark (shown : isGap c = false) (mark : c ∈ expressionMarks) (t : Text) :
    allowsPattern (c :: t) := by
  rw [allowsPattern_eq, List.dropWhile_cons_of_neg (by rw [shown]; decide), followsMark]
  simp [mark]

theorem allowsPattern_run {run : Text} (filled : run ≠ []) (names : ∀ c ∈ run, isNameChar c)
    (t : Text) : allowsPattern (run ++ t)
      = (!(t.dropWhile isNameChar).head?.any (fun c => decide (c = '.')) &&
        expressionWords.contains (run ++ t.takeWhile isNameChar).reverse) := by
  obtain ⟨c, run, rfl⟩ := List.exists_cons_of_ne_nil filled
  have name := names c List.mem_cons_self
  have shown : ¬ isGap c := by
    rw [isGap_of_isNameChar name]
    decide
  rw [allowsPattern_eq, List.cons_append, List.dropWhile_cons_of_neg shown, ← List.cons_append,
    followsMark, List.dropWhile_append_of_pos names, List.takeWhile_append_of_pos names]
  simp [not_mark_of_isNameChar name, name]

theorem allowsPattern_wide {run : Text} (names : ∀ c ∈ run, isNameChar c) (wide : isWide c)
    (t : Text) : allowsPattern (run ++ c :: t) = false := by
  have name := isNameChar_of_wide wide
  have all : ∀ d ∈ run ++ [c], isNameChar d :=
    List.forall_mem_append.2 ⟨names, List.forall_mem_singleton.2 name⟩
  have whole : run ++ c :: t = (run ++ [c]) ++ t := by simp
  rw [whole, allowsPattern_run (by simp) all, Bool.and_eq_false_iff]
  right
  rw [← Bool.not_eq_true, List.contains_iff_mem]
  intro known
  have narrow : ∀ word ∈ expressionWords, Narrow word := by decide
  have plain := narrow _ known c (by simp)
  rw [wide] at plain
  contradiction

theorem wide_of_blank_name (blank : isBlank c) (name : isNameChar c) : isWide c := by
  have other (shown : isBlank c = false) : isWide c := by
    rw [blank] at shown
    contradiction
  simp only [isNameChar, Char.isAlphanum, Bool.or_eq_true, decide_eq_true_eq] at name
  rcases name with (((letter | digit) | rfl) | rfl) | wide
  · exact other (Module.isBlank_of_isNameStart (by simp [isNameStart, letter]))
  · exact other (Bundle.isBlank_of_isDigit digit)
  · exact absurd blank (by decide)
  · exact absurd blank (by decide)
  · exact decide_eq_true wide

theorem allowsPattern_blank (blank : isBlank c) (shown : isGap c = false) (t : Text) :
    allowsPattern (c :: t) = false := by
  cases name : isNameChar c with
  | true =>
    have none_ : ∀ d ∈ ([] : Text), isNameChar d := by simp
    exact allowsPattern_wide none_ (wide_of_blank_name blank name) t
  | false =>
    refine allowsPattern_other shown (fun mark => ?_) name t
    have all : expressionMarks.all fun c => !isBlank c := by decide
    have other := List.all_eq_true.1 all c mark
    rw [blank] at other
    contradiction

theorem allowsPattern_slash {t : Text} (slash : '/' ∈ t) (more : Text) :
    allowsPattern (t ++ more) = allowsPattern t := by
  have left {p : Char → Bool} (stops : p '/' = false) {u : Text} (inside : '/' ∈ u) :
      '/' ∈ u.dropWhile p := by
    rw [← List.takeWhile_append_dropWhile (p := p) (l := u), List.mem_append] at inside
    rcases inside with early | late
    · rw [List.mem_takeWhile_imp early] at stops
      contradiction
    · exact late
  have head {u : Text} (inside : '/' ∈ u) : (u ++ more).head? = u.head? :=
    List.head?_append_of_ne_nil u (List.ne_nil_of_mem inside)
  have gap : isGap '/' = false := by decide
  have name : isNameChar '/' = false := by decide
  rw [allowsPattern_eq, allowsPattern_eq, dropWhile_append_of_stop ⟨'/', slash, gap⟩]
  have shown := left gap slash
  generalize t.dropWhile isGap = u at shown ⊢
  have filled : (u ++ more).isEmpty = u.isEmpty := by
    cases u with
    | nil => contradiction
    | cons => rfl
  simp only [followsMark, filled, head shown, dropWhile_append_of_stop ⟨'/', shown, name⟩,
    takeWhile_append_of_stop ⟨'/', shown, name⟩, head (left name shown)]

end

section
variable {t front inside rest : Text}

theorem slash_of_comment (split : t = front ++ (inside ++ rest))
    (known : ⟨.comment, width front, width front + width inside⟩ ∈ extents (lex t)) :
    '/' ∈ inside := by
  obtain ⟨c, more, rfl, found⟩ := piece?_of_mem_extents split (by simp) known
  rcases piece?_comment found with ⟨inner, same, -⟩ | ⟨inner, same⟩
  · rw [same]
    exact List.mem_cons_self
  · rw [same]
    exact List.mem_cons_self

theorem piece?_literal {back : Text} {c : Char} {kind : SpanKind}
    (quotes : kind = .quotedText ∨ kind = .verbatimText)
    (h : piece? back c (inside ++ rest) = some (.span kind, rest)) :
    ∃ lead mark, inside = lead ++ [mark] ∧ (isQuote mark ∨ mark = backtick) := by
  have ends {lead : Text} {mark : Char} (closes : isQuote mark ∨ mark = backtick)
      (split : inside ++ rest = lead ++ mark :: rest) :
      ∃ lead mark, inside = lead ++ [mark] ∧ (isQuote mark ∨ mark = backtick) :=
    ⟨lead, mark, List.append_cancel_right (split.trans (by simp)), closes⟩
  have unlike {other : SpanKind} (plain : other ≠ .quotedText ∧ other ≠ .verbatimText) :
      other ≠ kind := by
    rintro rfl
    exact quotes.elim plain.1 plain.2
  unfold piece? at h
  repeat' split at h
  all_goals simp at h
  · exact absurd h.2 (unlike (by decide))
  · exact absurd h.2 (unlike (by decide))
  · exact absurd h.2 (unlike (by decide))
  · have outermost : [Enclosure.literal].getLast? = some .literal := rfl
    obtain ⟨lead, split⟩ := afterEnclosures?_split outermost h.1
    exact ends (Or.inr rfl) split
  · rename_i quote
    obtain ⟨lead, split⟩ := afterQuoted?_split h.1
    exact ends (Or.inl quote) split
  · exact absurd h.2 (unlike (by decide))

theorem allowsPattern_literal {kind : SpanKind} (quotes : kind = .quotedText ∨ kind = .verbatimText)
    (split : t = front ++ (inside ++ rest))
    (known : ⟨.span kind, width front, width front + width inside⟩ ∈ extents (lex t)) :
    allowsPattern (front ++ inside).reverse = false := by
  obtain ⟨c, more, rfl, found⟩ := piece?_of_mem_extents split (by simp) known
  obtain ⟨lead, mark, rfl, closes⟩ := piece?_literal quotes found
  have backwards : (front ++ c :: (lead ++ [mark])).reverse
      = mark :: (front ++ c :: lead).reverse := by simp
  have known : mark = '\x27' ∨ mark = '\x22' ∨ mark = backtick := by
    simpa [isQuote, or_assoc] using closes
  rw [backwards]
  rcases known with rfl | rfl | rfl <;>
    exact allowsPattern_other (by decide) (by decide) (by decide) _

/-- What allows a pattern behind an operand and a gap stands in the last comment of the gap or in
    the operand. The induction is along the gap. -/
theorem allowed_behind_gap {operand : Text} (gap : Skips t operand front)
    (split : t = front ++ rest) (allowed : allowsPattern front.reverse) :
    (∃ behind inside run, front = behind ++ inside ++ run ∧ (∀ c ∈ run, isGap c) ∧
      ⟨.comment, width behind, width behind + width inside⟩ ∈ extents (lex t) ∧
      allowsPattern inside.reverse) ∨
    ∃ run, front = operand ++ run ∧ (∀ c ∈ run, isGap c) ∧ allowsPattern operand.reverse := by
  induction gap generalizing rest with
  | none =>
    right
    exact ⟨[], by simp, by simp, allowed⟩
  | @blank behind c gap code blank ih =>
    rw [List.reverse_append, List.reverse_singleton] at allowed
    by_cases seen : isGap c
    · have before : allowsPattern behind.reverse := by
        rwa [allowsPattern_gap (List.forall_mem_singleton.2 seen)] at allowed
      rcases ih (split.trans (List.append_assoc ..)) before with
        ⟨earlier, inside, run, rfl, spaces, known, opens⟩ | ⟨run, rfl, spaces, opens⟩
      · left
        refine ⟨earlier, inside, run ++ [c], by simp, ?_, known, opens⟩
        exact List.forall_mem_append.2 ⟨spaces, List.forall_mem_singleton.2 seen⟩
      · right
        refine ⟨run ++ [c], by simp, ?_, opens⟩
        exact List.forall_mem_append.2 ⟨spaces, List.forall_mem_singleton.2 seen⟩
    · rw [List.singleton_append, allowsPattern_blank blank (by simpa using seen)] at allowed
      contradiction
  | @comment behind inside gap known ih =>
    left
    refine ⟨behind, inside, [], by simp, by simp, known, ?_⟩
    have slash := slash_of_comment (split.trans (List.append_assoc ..)) known
    rwa [List.reverse_append, allowsPattern_slash (List.mem_reverse.2 slash)] at allowed

theorem isWordChar_iff {c : Char} : isWordChar c ↔ isNameChar c ∧ isBlank c = false := by
  simp [isWordChar]

theorem allowsPattern_word {word : Text} (filled : word ≠ []) (spelled : ∀ c ∈ word, isWordChar c)
    (starts : front.getLast?.all fun c => !isWordChar c) :
    allowsPattern (front ++ word).reverse ↔ word ∈ expressionWords ∧
      front.getLast?.all fun c => c ≠ '.' && !isNameChar c := by
  have names : ∀ c ∈ word.reverse, isNameChar c := fun c inside =>
    (isWordChar_iff.1 (spelled c (List.mem_reverse.1 inside))).1
  have backwards : word.reverse ≠ [] := List.reverse_ne_nil_iff.2 filled
  rcases List.eq_nil_or_concat front with rfl | ⟨lead, c, rfl⟩
  · have whole : ([] ++ word).reverse = word.reverse ++ [] := by simp
    rw [whole, allowsPattern_run backwards names]
    simp
  · rw [List.concat_eq_append] at starts ⊢
    have whole : (lead ++ [c] ++ word).reverse = word.reverse ++ c :: lead.reverse := by simp
    rw [List.getLast?_append_of_ne_nil _ (List.cons_ne_nil c []),
      List.getLast?_singleton] at starts ⊢
    rw [whole]
    cases name : isNameChar c with
    | true =>
      have blank : isBlank c := by
        simpa [isWordChar, name] using starts
      rw [allowsPattern_wide names (wide_of_blank_name blank name)]
      simp [name]
    | false =>
      rw [allowsPattern_run backwards names, List.dropWhile_cons_of_neg (by rw [name]; decide),
        List.takeWhile_cons_of_neg (by rw [name]; decide)]
      simp [name, and_comm]

theorem misread_of_operand {operand run : Text} (ends : EndsOperand t operand)
    (split : t = operand ++ rest) (blank : ∀ c ∈ run, isGap c)
    (allowed : allowsPattern operand.reverse) : Misread t operand (operand ++ run) := by
  cases ends with
  | @word front word code filled spelled starts named =>
    obtain ⟨known, apart⟩ := (allowsPattern_word filled spelled starts).1 allowed
    exact .keyword known rfl apart blank
  | point =>
    rw [List.reverse_append, List.reverse_singleton, List.singleton_append,
      allowsPattern_other (by decide) (by decide) (by decide)] at allowed
    contradiction
  | literal quotes known =>
    rw [allowsPattern_literal quotes (split.trans (List.append_assoc ..)) known] at allowed
    contradiction
  | closing closes =>
    rw [List.reverse_append, List.reverse_singleton, List.singleton_append] at allowed
    rcases closes with rfl | rfl
    · rw [allowsPattern_other (by decide) (by decide) (by decide)] at allowed
      contradiction
    · rw [allowsPattern_other (by decide) (by decide) (by decide)] at allowed
      contradiction
  | counted inner gap signs => exact .counted signs rfl blank

theorem keyword_spelled {word : Text} (known : word ∈ expressionWords) :
    word ≠ [] ∧ ∀ c ∈ word, isWordChar c := by
  have all : expressionWords.all fun word => word ≠ [] && word.all isWordChar := by decide
  have spelled := List.all_eq_true.1 all word known
  simpa using spelled

theorem allowed_of_misread {operand : Text} (misread : Misread t operand front)
    (split : t = front ++ rest) : allowsPattern front.reverse := by
  cases misread with
  | @comment behind inside gap known opens blank =>
    have cut : t = behind ++ (inside ++ (gap ++ rest)) := by
      rw [split, List.append_assoc, List.append_assoc]
    have slash := List.mem_reverse.2 (slash_of_comment cut known)
    have spaces : ∀ c ∈ gap.reverse, isGap c := fun c inside => blank c (List.mem_reverse.1 inside)
    rw [List.reverse_append, allowsPattern_gap spaces, List.reverse_append,
      allowsPattern_slash slash]
    exact opens
  | @counted lead gap sign signs ends blank =>
    have backwards : (operand ++ gap).reverse = gap.reverse ++ sign :: sign :: lead.reverse := by
      simp [ends]
    have spaces : ∀ c ∈ gap.reverse, isGap c := fun c inside => blank c (List.mem_reverse.1 inside)
    rw [backwards, allowsPattern_gap spaces]
    rcases signs with rfl | rfl <;> exact allowsPattern_mark (by decide) (by decide) _
  | @keyword lead word gap known ends apart blank =>
    obtain ⟨filled, spelled⟩ := keyword_spelled known
    have starts : lead.getLast?.all fun c => !isWordChar c := by
      cases last : lead.getLast? with
      | none => rfl
      | some c =>
        rw [last] at apart
        simp only [Option.all_some, Bool.and_eq_true, Bool.not_eq_true'] at apart
        simp [isWordChar, apart.2]
    have spaces : ∀ c ∈ gap.reverse, isGap c := fun c inside => blank c (List.mem_reverse.1 inside)
    rw [List.reverse_append, allowsPattern_gap spaces, ends]
    exact (allowsPattern_word filled spelled starts).2 ⟨known, apart⟩

end

theorem piece?_pattern_iff {back rest left : Text} :
    piece? back '/' rest = some (.span .pattern, left) ↔ rest.head? ≠ some '/' ∧
      rest.head? ≠ some '*' ∧ allowsPattern back ∧ afterPattern? false rest = some left := by
  by_cases line : rest.head? = some '/'
  · obtain ⟨more, rfl⟩ := List.head?_eq_some_iff.1 line
    simp [piece?_slash]
  · by_cases block : rest.head? = some '*'
    · obtain ⟨more, rfl⟩ := List.head?_eq_some_iff.1 block
      simp [piece?_slash]
    · rw [piece?_pattern line block]
      simp [line, block]

/-- At a slash behind an operand a pattern starts exactly if the lexer comes to the slash, a pattern
    closes behind it, and the lexer misreads what stands before it. So it starts at none but for
    what a comment ends with, an operand that is counted up or down, and a name that is spelled like
    a keyword and stands apart from its dot. -/
theorem pattern_behind_operand_iff {t operand front rest : Text} (split : t = front ++ '/' :: rest)
    (ends : EndsOperand t operand) (gap : Skips t operand front) :
    (∃ stop, ⟨.pattern, width front, stop⟩ ∈ spansIn t) ↔
      Reached t (width front) ∧ rest.head? ≠ some '/' ∧ rest.head? ≠ some '*' ∧
      (afterPattern? false rest).isSome ∧ Misread t operand front := by
  have seen : allowsPattern front.reverse ↔ Misread t operand front := by
    constructor
    · intro allowed
      rcases allowed_behind_gap gap split allowed with
        ⟨behind, inside, run, rfl, blank, known, opens⟩ | ⟨run, rfl, blank, opens⟩
      · exact .comment known opens blank
      · exact misread_of_operand ends (split.trans (List.append_assoc ..)) blank opens
    · intro misread
      exact allowed_of_misread misread split
  rw [← seen]
  constructor
  · rintro ⟨stop, member⟩
    obtain ⟨reached, inside, left, rfl, found, -⟩ :=
      (mem_extents_iff_piece split (by simp)).1 (mem_spansOf.1 member)
    obtain ⟨line, block, allowed, closed⟩ := piece?_pattern_iff.1 found
    exact ⟨reached, line, block, Option.isSome_iff_exists.2 ⟨left, closed⟩, allowed⟩
  · rintro ⟨reached, line, block, closes, allowed⟩
    obtain ⟨left, closed⟩ := Option.isSome_iff_exists.1 closes
    have found := piece?_pattern_iff.2 ⟨line, block, allowed, closed⟩
    obtain ⟨inside, rfl⟩ := piece?_suffix found
    have member := (mem_extents_iff_piece split (by simp)).2
      ⟨reached, inside, left, rfl, found, rfl⟩
    exact ⟨width front + width ('/' :: inside), mem_spansOf.2 member⟩

def commentedDivision : Text := "x = a // (\n/ b / c;"

def countedDivision : Text := "i++ / 2 / n;"

def memberDivision : Text := "a. return / b / c;"

theorem commentedDivision_operand : EndsOperand commentedDivision (("x = " : Text) ++ ['a']) := by
  have starts : ("x = " : Text).getLast?.all fun c => !isWordChar c := by decide +kernel
  refine .word ?_ ?_ ?_ starts ?_
  · decide +kernel
  · simp
  · exact List.forall_mem_singleton.2 (by decide)
  · intro known
    exact absurd known (by decide +kernel)

theorem commentedDivision_gap : Skips commentedDivision (("x = " : Text) ++ ['a'])
    (("x = " : Text) ++ ['a'] ++ [' '] ++ ("// (" : Text) ++ ['\n']) := by
  have space : Skips commentedDivision (("x = " : Text) ++ ['a'])
      (("x = " : Text) ++ ['a'] ++ [' ']) := .blank .none (by decide +kernel) (by decide)
  exact .blank (.comment space (by decide +kernel)) (by decide +kernel) (by decide)

theorem countedDivision_operand : EndsOperand countedDivision (['i'] ++ ['+', '+']) := by
  have operand : EndsOperand countedDivision ([] ++ ['i']) := by
    refine .word ?_ ?_ ?_ ?_ ?_
    · decide +kernel
    · simp
    · exact List.forall_mem_singleton.2 (by decide)
    · simp
    · intro known
      exact absurd known (by decide +kernel)
  exact .counted operand .none (Or.inl rfl) (by decide +kernel) (by decide +kernel)

theorem memberDivision_operand :
    EndsOperand memberDivision (['a'] ++ ['.'] ++ [' '] ++ ("return" : Text)) := by
  have member : NamesNext memberDivision (['a'] ++ ['.']) :=
    .dot (by decide +kernel) (by decide)
  refine .word ?_ ?_ ?_ ?_ ?_
  · decide +kernel
  · decide
  · simp [isWordChar, isNameChar, isBlank]
  · decide
  · intro _
    exact ⟨_, member, .blank .none (by decide +kernel) (by decide)⟩

theorem commentedDivision_taken :
    EndsOperand commentedDivision (("x = " : Text) ++ ['a']) ∧
    Skips commentedDivision (("x = " : Text) ++ ['a'])
      (("x = " : Text) ++ ['a'] ++ [' '] ++ ("// (" : Text) ++ ['\n']) ∧
    ∃ stop, ⟨.pattern, 11, stop⟩ ∈ spansIn commentedDivision := by
  have split : commentedDivision
      = ("x = " : Text) ++ ['a'] ++ [' '] ++ ("// (" : Text) ++ ['\n'] ++ '/' :: " b / c;" := rfl
  have started := pattern_behind_operand_iff split commentedDivision_operand commentedDivision_gap
  refine ⟨commentedDivision_operand, commentedDivision_gap, started.2 ?_⟩
  refine ⟨by decide +kernel, by decide +kernel, by decide +kernel, by decide +kernel, ?_⟩
  exact .comment (by decide +kernel) (by decide +kernel) (List.forall_mem_singleton.2 (by decide))

theorem divisions_misread :
    (EndsOperand commentedDivision (("x = " : Text) ++ ['a']) ∧
      Skips commentedDivision (("x = " : Text) ++ ['a'])
        (("x = " : Text) ++ ['a'] ++ [' '] ++ ("// (" : Text) ++ ['\n']) ∧
      ⟨.pattern, 11, 16⟩ ∈ spansIn commentedDivision) ∧
    (EndsOperand countedDivision (['i'] ++ ['+', '+']) ∧
      Skips countedDivision (['i'] ++ ['+', '+']) (['i'] ++ ['+', '+'] ++ [' ']) ∧
      ⟨.pattern, 4, 9⟩ ∈ spansIn countedDivision) ∧
    (EndsOperand memberDivision (['a'] ++ ['.'] ++ [' '] ++ ("return" : Text)) ∧
      Skips memberDivision (['a'] ++ ['.'] ++ [' '] ++ ("return" : Text))
        (['a'] ++ ['.'] ++ [' '] ++ ("return" : Text) ++ [' ']) ∧
      ⟨.pattern, 10, 15⟩ ∈ spansIn memberDivision) := by
  refine ⟨⟨commentedDivision_operand, commentedDivision_gap, by decide +kernel⟩,
    ⟨countedDivision_operand, .blank .none ?_ (by decide), by decide +kernel⟩,
    ⟨memberDivision_operand, .blank .none ?_ (by decide), by decide +kernel⟩⟩
  · decide +kernel
  · decide +kernel

end ComponentBundle.Source
