import ComponentBundle.Proofs.ImportClauses
import ComponentBundle.Proofs.SegmentPlaces

/-!
Import statements that are written one after another, each on lines of its own, are read as they
were written, wherever white space stands between their words and marks.
-/
namespace ComponentBundle.Source
open ComponentBundle.Text ComponentBundle.Module

def Coded (a : Text) : Prop := ∀ before code t,
  lexFrom before code (a ++ t) = lexFrom (a.reverse ++ before) (a.reverse ++ code) t

theorem Coded.append {a b : Text} (first : Coded a) (last : Coded b) : Coded (a ++ b) := by
  intro before code t
  rw [List.append_assoc, first, last, List.reverse_append, List.append_assoc, List.append_assoc]

theorem coded_of_plain {a : Text} (plain : ∀ c ∈ a, opensPiece c = false) : Coded a := by
  intro before code t
  induction a generalizing before code with
  | nil => rfl
  | cons c a ih =>
    obtain ⟨first, others⟩ := List.forall_mem_cons.1 plain
    have none_ : piece? before c (a ++ t) = none := by
      by_contra found
      rw [opensPiece_of_piece? found] at first
      contradiction
    rw [List.cons_append, lexFrom_code none_, ih others, List.reverse_cons, List.append_assoc,
      List.append_assoc]
    rfl

theorem coded_braces {inside : Text} (plain : ∀ c ∈ inside, opensPiece c = false) :
    Coded ('{' :: (inside ++ ['}'])) := by
  intro before code t
  have closed : ∀ c ∈ inside ++ ['}'], opensPiece c = false :=
    List.forall_mem_append.2 ⟨plain, List.forall_mem_singleton.2 (by decide)⟩
  have single : (inside ++ ['}'] ++ t).head? ≠ some '{' := by
    intro opened
    have braceless : '{' ∉ inside ++ ['}'] := fun member =>
      absurd (closed '{' member) (by decide)
    rw [List.head?_append_of_ne_nil _ (by simp)] at opened
    exact braceless (List.mem_of_head? opened)
  rw [List.cons_append, lexFrom_code (piece?_brace single before), coded_of_plain closed,
    List.reverse_cons, List.append_assoc, List.append_assoc]
  rfl

theorem afterQuoted?_plain {quote : Char} (known : isQuote quote) {inside : Text}
    (plain : ∀ c ∈ inside, isQuote c = false ∧ c ≠ escape ∧ c ≠ '\n') (t : Text) :
    afterQuoted? quote (inside ++ quote :: t) = some t := by
  have other : quote ≠ escape ∧ quote ≠ '\n' := by
    constructor <;> rintro rfl <;> contradiction
  induction inside with
  | nil => rw [List.nil_append, afterQuoted?_cons known, if_neg other.1, if_neg other.2, if_pos rfl]
  | cons c inside ih =>
    obtain ⟨⟨mark, first, line⟩, others⟩ := List.forall_mem_cons.1 plain
    have open_ : c ≠ quote := by
      rintro rfl
      rw [known] at mark
      contradiction
    rw [List.cons_append, afterQuoted?_cons known, if_neg first, if_neg line, if_neg open_,
      ih others]

theorem lexFrom_quoted {quote : Char} (known : isQuote quote) {inside : Text}
    (plain : ∀ c ∈ inside, isQuote c = false ∧ c ≠ escape ∧ c ≠ '\n') (before code t : Text) :
    lexFrom before code (quote :: (inside ++ quote :: t)) = codeSegment code ++
      ⟨.span .quotedText, quote :: (inside ++ [quote])⟩ ::
        lexFrom ((quote :: (inside ++ [quote])).reverse ++ before) [] t := by
  have cut : inside ++ quote :: t = (inside ++ [quote]) ++ t := by simp
  have found : piece? before quote (inside ++ [quote] ++ t) = some (.span .quotedText, t) := by
    rw [piece?_quote known, ← cut, afterQuoted?_plain known plain]
    rfl
  rw [cut, lexFrom_piece found]

theorem inCode_of_lexFrom {t : Text} {segments : List Segment} {before code rest : Text} {c : Char}
    (cut : lex t = segments ++ lexFrom before code (c :: rest))
    (plain : opensPiece c = false) {front : Text} (split : t = front ++ c :: rest) :
    inCode (lex t) (width front) := by
  have none_ : piece? before c rest = none := by
    by_contra found
    rw [opensPiece_of_piece? found] at plain
    contradiction
  obtain ⟨ending, more, lexed⟩ := lexFrom_collected (c :: before) (List.cons_ne_nil c code) rest
  have whole := lex_text t
  rw [cut, List.flatMap_append, lexFrom_text, split, ← List.append_assoc,
    List.append_cancel_right_eq] at whole
  have positive := c.utf8Size_pos
  rw [lexFrom_code none_, lexed] at cut
  rw [inCode_iff, cut, extents]
  refine ⟨_, mem_extentsFrom_middle 0 segments _ more, rfl, ?_⟩
  simp only [Extent.Over, ← whole, width_append, List.reverse_cons, width_cons, width_nil]
  omega

end ComponentBundle.Source

namespace ComponentBundle.Module
open ComponentBundle.Text ComponentBundle.Source

/-- A clause and the word `from`. White space stands where two words meet. -/
structure ClauseHead where
  lead : Gap
  clause : Clause
  behind : Gap
  opened : clause.text.head?.any isNameChar → lead.text ≠ []
  closed : clause.text.getLast?.any isNameChar → behind.text ≠ []

/-- A specifier between two quotes of one kind. -/
structure PlainSource where
  quote : Char
  specifier : Text
  known : isQuote quote
  filled : specifier ≠ []
  plain : ∀ c ∈ specifier, isQuote c = false ∧ c ≠ escape ∧ c ≠ '\n'

/-- A semicolon on the line where a statement ends. -/
structure Semicolon where
  indent : Text
  blank : ∀ c ∈ indent, isIndent c

structure PrintedImport where
  head : Option ClauseHead
  gap : Gap
  source : PlainSource
  mark : Option Semicolon

def ClauseHead.text (head : ClauseHead) : Text :=
  head.lead.text ++ (head.clause.text ++ (head.behind.text ++ fromKeyword))

def Semicolon.text (mark : Semicolon) : Text := mark.indent ++ [';']

namespace PrintedImport

variable (s : PrintedImport)

def lead : Text := (s.head.map ClauseHead.text).getD [] ++ (s.gap.text ++ [s.source.quote])

def opening : Text := importKeyword ++ s.lead

def ending : Text := (s.mark.map Semicolon.text).getD []

def text : Text :=
  s.opening ++ (s.source.specifier ++ s.source.quote :: (s.ending ++ ['\n']))

def clause : Text := (s.head.map fun head => head.clause.text).getD []

def bindings : Bindings := (s.head.map fun head => head.clause.bindings).getD ⟨none, none, []⟩

def placed (space : Text) (start : Nat) : ImportStatement where
  start := start
  stop := start + width s.text
  specifier := ⟨start + width s.opening, start + width s.opening + width s.source.specifier,
    s.source.specifier⟩
  bindings := s.bindings
  isLocal := isLocal space s.source.specifier

end PrintedImport

def placedFrom (space : Text) (start : Nat) : List PrintedImport → List ImportStatement
  | [] => []
  | s :: more => s.placed space start :: placedFrom space (start + width s.text) more

def printed (statements : List PrintedImport) : Text := statements.flatMap PrintedImport.text

/-! What is read behind the keyword. -/

theorem quoted?_plain (gap : Gap) (source : PlainSource) (rest : Text) :
    quoted? (gap.text ++ source.quote :: (source.specifier ++ source.quote :: rest))
      = some ⟨gap.text ++ [source.quote], source.specifier, source.quote, rest⟩ := by
  have visible (rest : Text) : (source.quote :: rest).head?.any isBlank = false :=
    isBlank_of_isQuote source.known
  have blanks := takeWhile_append_of_head gap.blanks
    (visible (source.specifier ++ source.quote :: rest))
  have behind := dropWhile_append_of_head gap.blanks
    (visible (source.specifier ++ source.quote :: rest))
  have inside : ∀ c ∈ source.specifier, (!isQuote c && decide (c ≠ '\n')) = true := by
    intro c member
    obtain ⟨mark, -, line⟩ := source.plain c member
    simp [mark, line]
  have ends : (source.quote :: rest).head?.any (fun c => !isQuote c && decide (c ≠ '\n'))
      = false := by
    simp [source.known]
  have specifier := takeWhile_append_of_head inside ends
  have closing := dropWhile_append_of_head inside ends
  rw [quoted?, blanks, behind]
  simp only [specifier, closing, source.known, Bool.true_and]
  rw [if_pos (by simpa using source.filled)]

def leadWord (t : Text) : Text := (t.takeWhile fun c => !isQuote c).filter fun c => !isBlank c

theorem leadWord_append {a : Text} (free : ∀ c ∈ a, isQuote c = false) (t : Text) :
    leadWord (a ++ t) = (a.filter fun c => !isBlank c) ++ leadWord t := by
  rw [leadWord, List.takeWhile_append_of_pos (by simpa using free), List.filter_append]
  rfl

theorem leadWord_blank {a : Text} (blank : ∀ c ∈ a, isBlank c) (t : Text) :
    leadWord (a ++ t) = leadWord t := by
  have free : ∀ c ∈ a, isQuote c = false := by
    intro c inside
    cases quote : isQuote c with
    | false => rfl
    | true =>
      have visible := isBlank_of_isQuote quote
      rw [blank c inside] at visible
      contradiction
  have none_ : (a.filter fun c => !isBlank c) = [] :=
    List.filter_eq_nil_iff.2 (by simpa using blank)
  rw [leadWord_append free, none_, List.nil_append]

theorem leadWord_quote {quote : Char} (known : isQuote quote) (t : Text) :
    leadWord (quote :: t) = [] := by
  simp [leadWord, known]

theorem leadWord_of_source? {previous : Char} {t : Text} {q : Quoted}
    (h : source? previous t = some q) : leadWord t = fromKeyword := by
  unfold source? at h
  simp only at h
  split at h
  · contradiction
  · split at h
    · contradiction
    · rename_i u found
      obtain ⟨inner, read, -⟩ := Option.map_eq_some_iff.1 h
      have whole : t = t.takeWhile isBlank ++ (fromKeyword ++ u) := by
        rw [← after?_eq_some_iff.1 found, List.takeWhile_append_dropWhile]
      have quote : leadWord u = [] := by
        unfold quoted? at read
        split at read
        · contradiction
        · rename_i mark rest first
          have known : isQuote mark := by
            simp only at read
            split at read
            · contradiction
            · split at read
              · rename_i quotes
                simp only [Bool.and_eq_true] at quotes
                exact quotes.1.1
              · contradiction
          rw [← List.takeWhile_append_dropWhile (p := isBlank) (l := u), first,
            leadWord_blank (fun _ inside => List.mem_takeWhile_imp inside), leadWord_quote known]
      rw [whole, leadWord_blank (fun _ inside => List.mem_takeWhile_imp inside),
        leadWord_append (by simp [fromKeyword, isQuote]), quote]
      rfl

theorem clauseAndSource?_clause {clause tail : Text} {previous : Char} {q : Quoted}
    (inside : ∀ c ∈ clause, (decide (c = ';') || isQuote c || decide (c = backtick)) = false)
    (ends : clause.getLast?.all fun c => !isBlank c) (word : leadWord tail = fromKeyword)
    (read : source? (clause.getLast?.getD previous) tail = some q) :
    clauseAndSource? previous (clause ++ tail) = some (clause, q) := by
  induction clause generalizing previous with
  | nil =>
    cases tail with
    | nil => simp [leadWord, fromKeyword] at word
    | cons c tail =>
      have here : source? previous (c :: tail) = some q := read
      rw [List.nil_append, clauseAndSource?, here]
  | cons c clause ih =>
    have free : ∀ d ∈ c :: clause, isQuote d = false := by
      intro d member
      have other := inside d member
      simp only [Bool.or_eq_false_iff] at other
      exact other.1.2
    have none_ : source? previous (c :: (clause ++ tail)) = none := by
      rw [Option.eq_none_iff_forall_ne_some]
      intro other found
      have whole := leadWord_of_source? found
      rw [← List.cons_append, leadWord_append free, word, List.append_left_eq_self,
        List.filter_eq_nil_iff] at whole
      have last := whole _ (List.getLast_mem (List.cons_ne_nil c clause))
      rw [List.getLast?_eq_some_getLast (List.cons_ne_nil c clause), Option.all_some] at ends
      exact last ends
    rw [List.getLast?_cons] at ends read
    have visible : clause.getLast?.all fun c => !isBlank c := by
      cases last : clause.getLast? with
      | none => rfl
      | some d =>
        rw [last] at ends
        exact ends
    have later := ih (List.forall_mem_cons.1 inside).2 visible read
    rw [List.cons_append, clauseAndSource?, none_]
    simp only [inside c List.mem_cons_self, later]
    rfl

theorem isNameChar_of_isWord {c : Char} (word : isWord c) : isNameChar c := by
  by_cases narrow : c.toNat < 0x80
  · rw [isWord_of_ascii c narrow] at word
    simp only [isAsciiWord, Bool.or_eq_true] at word
    simp only [isNameChar, Bool.or_eq_true]
    exact Or.inl (Or.inl word)
  · apply isNameChar_of_wide
    simpa [isWide] using narrow

theorem source?_plain (behind gap : Gap) (source : PlainSource) {previous : Char}
    (apart : isWord previous → behind.text ≠ []) (rest : Text) :
    source? previous (behind.text ++ (fromKeyword ++ (gap.text ++ source.quote ::
        (source.specifier ++ source.quote :: rest))))
      = some ⟨behind.text ++ (fromKeyword ++ (gap.text ++ [source.quote])), source.specifier,
          source.quote, rest⟩ := by
  have stops (rest : Text) : (fromKeyword ++ rest).head?.any isBlank = false := rfl
  have meet : (behind.text.isEmpty && isWord previous) = false := by
    cases word : isWord previous with
    | false => rw [Bool.and_false]
    | true => rw [Bool.and_true, List.isEmpty_eq_false_iff]; exact apart word
  rw [source?]
  simp only [takeWhile_append_of_head behind.blanks (stops _),
    dropWhile_append_of_head behind.blanks (stops _), meet, after?_eq_some_iff.2 rfl,
    quoted?_plain]
  rfl

theorem ne_of_isClauseChar {c : Char} (known : isClauseChar c) (mark : Char)
    (other : isClauseChar mark = false) : c ≠ mark := by
  rintro rfl
  rw [known] at other
  contradiction

theorem ClauseHead.clauseAndSource? (head : ClauseHead) (gap : Gap) (source : PlainSource)
    (previous : Char) (rest : Text) :
    Module.clauseAndSource? previous (head.clause.text ++ (head.behind.text ++ (fromKeyword ++
        (gap.text ++ source.quote :: (source.specifier ++ source.quote :: rest)))))
      = some (head.clause.text, ⟨head.behind.text ++ (fromKeyword ++ (gap.text ++ [source.quote])),
          source.specifier, source.quote, rest⟩) := by
  have shown := head.clause.shown
  have last := List.getLast?_eq_some_getLast shown.filled
  apply clauseAndSource?_clause
  · intro c inside
    have known := head.clause.chars c inside
    have other := ne_of_isClauseChar known
    simp [isQuote, other ';' (by decide), other '\x27' (by decide), other '\x22' (by decide),
      other backtick (by decide)]
  · have ends := shown.ends
    rw [last] at ends ⊢
    exact ends
  · rw [leadWord_blank head.behind.blanks, leadWord_append (by simp [fromKeyword, isQuote]),
      leadWord_blank gap.blanks, leadWord_quote source.known]
    rfl
  · apply source?_plain
    rw [last, Option.getD_some]
    intro word
    apply head.closed
    rw [last]
    exact isNameChar_of_isWord word

theorem clauseAndSource?_quote {quote : Char} (known : isQuote quote) (previous : Char) (t : Text) :
    clauseAndSource? previous (quote :: t) = none := by
  have none_ : source? previous (quote :: t) = none := by
    rw [Option.eq_none_iff_forall_ne_some]
    intro q found
    have word := leadWord_of_source? found
    rw [leadWord_quote known] at word
    contradiction
  rw [clauseAndSource?, none_]
  simp [known]

theorem PrintedImport.reading? (s : PrintedImport) (rest : Text) : ∃ opening,
    Module.reading? (s.lead ++ (s.source.specifier ++ s.source.quote :: rest))
      = some (s.opening, s.clause, ⟨opening, s.source.specifier, s.source.quote, rest⟩) := by
  obtain ⟨head, gap, source, mark⟩ := s
  cases head with
  | none =>
    have visible (t : Text) : (source.quote :: t).head?.any isBlank = false :=
      isBlank_of_isQuote source.known
    refine ⟨gap.text ++ [source.quote], ?_⟩
    simp only [lead, opening, clause, Option.map_none, Option.getD_none, List.append_assoc,
      List.cons_append, List.nil_append, Module.reading?,
      takeWhile_append_of_head gap.blanks (visible _),
      dropWhile_append_of_head gap.blanks (visible _),
      clauseAndSource?_quote source.known, quoted?_plain, Option.map_some]
  | some head =>
    have blanks := takeWhile_append_of_head head.lead.blanks (head.clause.shown.head
      (head.behind.text ++ (fromKeyword ++ (gap.text ++ source.quote ::
        (source.specifier ++ source.quote :: rest)))))
    have behind := dropWhile_append_of_head head.lead.blanks (head.clause.shown.head
      (head.behind.text ++ (fromKeyword ++ (gap.text ++ source.quote ::
        (source.specifier ++ source.quote :: rest)))))
    refine ⟨head.behind.text ++ (fromKeyword ++ (gap.text ++ [source.quote])), ?_⟩
    simp only [lead, opening, clause, ClauseHead.text, Option.map_some, Option.getD_some,
      List.append_assoc, List.cons_append, List.nil_append, Module.reading?, blanks, behind,
      head.clauseAndSource?]

theorem PrintedImport.bindings_read (s : PrintedImport) :
    Bindings.ofClause s.clause = s.bindings := by
  obtain ⟨head, gap, source, mark⟩ := s
  cases head with
  | none => rfl
  | some head => exact head.clause.read

theorem PrintedImport.terminated (s : PrintedImport) (more : Text) :
    terminator (s.ending ++ '\n' :: more) = s.ending := by
  obtain ⟨head, gap, source, mark⟩ := s
  cases mark with
  | none => rfl
  | some mark =>
    have whole : ending ⟨head, gap, source, some mark⟩ ++ '\n' :: more
        = mark.indent ++ ';' :: '\n' :: more := by
      simp [ending, Semicolon.text]
    have visible : (';' :: '\n' :: more).head?.any isIndent = false := rfl
    rw [whole, terminator, takeWhile_append_of_head mark.blank visible,
      dropWhile_append_of_head mark.blank visible]
    rfl

theorem PrintedImport.read (s : PrintedImport) (more : Text) : ∃ form,
    importForm? (s.lead ++ (s.source.specifier ++ s.source.quote :: (s.ending ++ '\n' :: more)))
      = some form ∧ form.rest = more ∧
      ∀ space start, form.placed space start = s.placed space start := by
  obtain ⟨opening, found⟩ := s.reading? (s.ending ++ '\n' :: more)
  have line : blankTail ('\n' :: more) = ['\n'] := rfl
  refine ⟨_, by rw [importForm?_eq_reading?, found]; rfl, ?_, ?_⟩
  · simp only [statementForm, s.terminated, List.drop_left, line]
    rw [← List.drop_drop, List.drop_left]
    rfl
  · intro space start
    simp only [ImportForm.placed, statementForm, s.terminated, List.drop_left, line, placed,
      s.bindings_read, text]
    simp only [width_append, width_cons, width_nil, Nat.add_assoc]

theorem endsKeyword_of_isGap {c : Char} (gap : isGap c) : endsKeyword (some c) := by
  simp only [isGap, Bool.or_eq_true, decide_eq_true_eq] at gap
  rcases gap with (((rfl | rfl) | rfl) | rfl) | rfl <;> decide

theorem endsKeyword_of_gap (gap : Gap) {rest : Text}
    (ends : gap.text = [] → endsKeyword rest.head?) : endsKeyword (gap.text ++ rest).head? := by
  obtain ⟨t, blank⟩ := gap
  cases t with
  | nil => exact ends rfl
  | cons c t => exact endsKeyword_of_isGap (blank c List.mem_cons_self)

theorem PrintedImport.endsKeyword (s : PrintedImport) (rest : Text) :
    Module.endsKeyword (s.lead ++ rest).head? := by
  obtain ⟨head, gap, source, mark⟩ := s
  cases head with
  | none =>
    have quoted : Module.endsKeyword (some source.quote) := by
      have known := source.known
      simp only [isQuote, Bool.or_eq_true, decide_eq_true_eq] at known
      rcases known with mark | mark <;> rw [mark] <;> decide
    have whole : lead ⟨none, gap, source, mark⟩ ++ rest = gap.text ++ source.quote :: rest := by
      simp [lead]
    rw [whole]
    exact endsKeyword_of_gap gap fun _ => quoted
  | some head =>
    have whole : lead ⟨some head, gap, source, mark⟩ ++ rest = head.lead.text ++
        (head.clause.text ++ (head.behind.text ++ (fromKeyword ++ (gap.text ++ source.quote ::
          rest)))) := by
      simp [lead, ClauseHead.text]
    rw [whole]
    refine endsKeyword_of_gap head.lead fun meets => ?_
    have filled := head.clause.shown.filled
    have first := List.head?_eq_some_head filled
    have known := head.clause.chars _ (List.head_mem filled)
    have mark : isNameChar (head.clause.text.head filled) = false := by
      cases named : isNameChar (head.clause.text.head filled) with
      | false => rfl
      | true => exact absurd meets (head.opened (by rw [first]; exact named))
    rw [List.head?_append, first, Option.some_or, Module.endsKeyword, Option.any_some, mark]
    simp [ne_of_isClauseChar known '(' (by decide), ne_of_isClauseChar known '.' (by decide)]

theorem plain_of_isSpelled {c : Char} (spelled : isSpelled c) : opensPiece c = false := by
  cases opens : opensPiece c with
  | false => rfl
  | true =>
    simp only [opensPiece, isQuote, Bool.or_eq_true, decide_eq_true_eq] at opens
    rcases opens with ((((rfl | rfl) | rfl) | rfl) | rfl | rfl) | rfl <;>
      exact absurd spelled (by decide)

theorem coded_of_spelled {t : Text} (spelled : ∀ c ∈ t, isSpelled c) : Coded t :=
  coded_of_plain fun c inside => plain_of_isSpelled (spelled c inside)

theorem ClausePart.coded : ∀ part : ClausePart, Coded part.text
  | .all gap space name => by
    refine coded_of_plain (List.forall_mem_cons.2 ⟨by decide, fun c inside => ?_⟩)
    exact plain_of_isSpelled (spelled_behind_star gap space name c inside)
  | .members list => by
    apply coded_braces
    intro c inside
    rcases list.spelled c inside with spelled | rfl
    · exact plain_of_isSpelled spelled
    · decide

theorem Clause.coded : ∀ clause : Clause, Coded clause.text
  | .default name => coded_of_spelled name.spelled
  | .alone part => part.coded
  | .both name before behind part => by
    have comma : Coded [','] := coded_of_plain (List.forall_mem_singleton.2 (by decide))
    exact (coded_of_spelled name.spelled).append ((coded_of_spelled before.spelled).append
      (comma.append ((coded_of_spelled behind.spelled).append part.coded)))

theorem coded_keyword : Coded importKeyword :=
  coded_of_spelled (List.all_eq_true.1 (by decide))

theorem ClauseHead.coded (head : ClauseHead) : Coded head.text :=
  (coded_of_spelled head.lead.spelled).append (head.clause.coded.append
    ((coded_of_spelled head.behind.spelled).append
      (coded_of_spelled (List.all_eq_true.1 (by decide)))))

theorem Semicolon.coded (mark : Semicolon) : Coded mark.text := by
  refine coded_of_plain (List.forall_mem_append.2 ⟨fun c inside => ?_,
    List.forall_mem_singleton.2 (by decide)⟩)
  have small := mark.blank c inside
  simp only [isIndent, Bool.or_eq_true, decide_eq_true_eq] at small
  rcases small with rfl | rfl <;> decide

theorem PrintedImport.lexed (s : PrintedImport) (before code more : Text) :
    ∃ segments before' code', lexFrom before code (s.text ++ more)
      = segments ++ lexFrom before' code' more := by
  obtain ⟨head, gap, source, mark⟩ := s
  have headCoded : Coded ((head.map ClauseHead.text).getD []) := by
    cases head with
    | none => exact coded_of_plain (List.forall_mem_nil _)
    | some head => exact head.coded
  have markCoded : Coded ((mark.map Semicolon.text).getD []) := by
    cases mark with
    | none => exact coded_of_plain (List.forall_mem_nil _)
    | some mark => exact mark.coded
  have front := coded_keyword.append (headCoded.append (coded_of_spelled gap.spelled))
  have lineEnd : Coded ['\n'] := coded_of_plain (List.forall_mem_singleton.2 (by decide))
  have behind := markCoded.append lineEnd
  have whole : text ⟨head, gap, source, mark⟩ ++ more
      = (importKeyword ++ ((head.map ClauseHead.text).getD [] ++ gap.text)) ++ source.quote ::
        (source.specifier ++ source.quote :: (((mark.map Semicolon.text).getD [] ++ ['\n'])
          ++ more)) := by
    simp [text, opening, lead, ending]
  rw [whole, front, lexFrom_quoted source.known source.plain, behind, ← List.singleton_append,
    ← List.append_assoc]
  exact ⟨_, _, _, rfl⟩

variable {space : Text}

theorem scanFrom_keyword {spans : List Span} {start : Nat} {behind : Text} {form : ImportForm}
    (ends : endsKeyword behind.head?) (code : kindAt? spans start = none)
    (read : importForm? behind = some form) :
    scanFrom space spans start (importKeyword ++ behind) = form.placed space start ::
      scanFrom space spans (form.placed space start).stop form.rest := by
  have found : statementAt? spans start (importKeyword ++ behind) = some form := by
    rw [statementAt?, after?_eq_some_iff.2 rfl]
    simp only [ends, read, code]
    rfl
  exact scanFrom_found (by decide) found

/-- A scan that has come to a printed statement goes on behind it. -/
theorem scanFrom_printed {t front : Text} {statements : List PrintedImport}
    (split : t = front ++ printed statements)
    (lexed : ∃ segments before code, lex t = segments ++ lexFrom before code (printed statements)) :
    scanFrom space (spansIn t) (width front) (printed statements)
      = placedFrom space (width front) statements := by
  -- The lexer is between two segments wherever a statement starts, so `lexed` is carried along.
  induction statements generalizing front with
  | nil =>
    rw [printed, List.flatMap_nil, scanFrom]
    rfl
  | cons s more ih =>
    obtain ⟨segments, before, code, cut⟩ := lexed
    have whole : printed (s :: more) = s.text ++ printed more := List.flatMap_cons
    have later : t = (front ++ s.text) ++ printed more := by
      rw [split, whole, List.append_assoc]
    have cutLater : ∃ segments before code, lex t
        = segments ++ lexFrom before code (printed more) := by
      obtain ⟨others, before', code', behind⟩ := s.lexed before code (printed more)
      exact ⟨segments ++ others, before', code', by rw [cut, whole, behind, List.append_assoc]⟩
    obtain ⟨form, read, rest, placed⟩ := s.read (printed more)
    have spelled : s.text ++ printed more = importKeyword ++ (s.lead ++
        (s.source.specifier ++ s.source.quote :: (s.ending ++ '\n' :: printed more))) := by
      simp [PrintedImport.text, PrintedImport.opening]
    rw [spelled] at whole
    have code : inCode (lex t) (width front) := by
      rw [whole] at cut split
      exact inCode_of_lexFrom (c := 'i') cut (by decide) split
    have stop : (form.placed space (width front)).stop = width (front ++ s.text) := by
      rw [placed, width_append]
      rfl
    rw [whole, scanFrom_keyword (s.endsKeyword _) (kindAt?_of_inCode code) read, stop, rest,
      ih later cutLater, placed, width_append]
    rfl

/-- Statements that are written one after another are those that the text reports, in their order,
with the names that they were written with and the places where they stand. -/
theorem printed_imports_read (space : Text) (statements : List PrintedImport) :
    imports space (printed statements) = placedFrom space 0 statements :=
  scanFrom_printed (List.nil_append _).symm ⟨[], [], [], rfl⟩

end ComponentBundle.Module
