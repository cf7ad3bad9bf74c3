import ComponentBundle.Proofs.ClosingReach
import ComponentBundle.Proofs.Tiling

/-!
A piece of source that goes over the end of a line has a closing mark on a later line, with which
it ends. So a last line without such marks is code, whatever stands before it.
-/
namespace ComponentBundle.Source
open ComponentBundle.Text

def closingMarks : List Char := ['/', '>', '}', ')', backtick, '\x27', '\x22']

def TakenTo (t rest : Text) : Prop := ∃ front, ∃ mark ∈ closingMarks, t = front ++ mark :: rest

theorem TakenTo.behind {t rest : Text} (h : TakenTo t rest) (lead : Text) :
    TakenTo (lead ++ t) rest := by
  obtain ⟨front, mark, known, rfl⟩ := h
  exact ⟨lead ++ front, mark, known, (List.append_assoc ..).symm⟩

theorem TakenTo.cons {t rest : Text} (h : TakenTo t rest) (c : Char) : TakenTo (c :: t) rest :=
  h.behind [c]

theorem afterFirst?_taken {lead t rest : Text} {mark : Char} (known : mark ∈ closingMarks)
    (h : afterFirst? (lead ++ [mark]) t = some rest) : TakenTo t rest := by
  obtain ⟨front, rfl⟩ := afterFirst?_split h
  exact ⟨front ++ lead, mark, known, by simp⟩

theorem afterMustache?_taken {t rest : Text} (h : afterMustache? t = some rest) :
    TakenTo t rest := by
  have known : '}' ∈ closingMarks := by decide
  unfold afterMustache? at h
  split at h
  · rename_i t
    have three : afterFirst? (['}', '}'] ++ ['}']) t = some rest := h
    exact (afterFirst?_taken known three).cons '{'
  · have two : afterFirst? (['}'] ++ ['}']) t = some rest := h
    exact afterFirst?_taken known two

theorem afterQuoted?_split {quote : Char} {t rest : Text} (h : afterQuoted? quote t = some rest) :
    ∃ inner, t = inner ++ quote :: rest := by
  fun_induction afterQuoted? quote t with
  | case2 => exact ⟨[], by rw [← Option.some.inj h]; rfl⟩
  | case4 d t ih =>
    obtain ⟨inner, rfl⟩ := ih h
    exact ⟨escape :: d :: inner, rfl⟩
  | case6 d t => exact ⟨[], by rw [← Option.some.inj h]; rfl⟩
  | case7 c d t _ _ _ ih =>
    obtain ⟨inner, split⟩ := ih h
    exact ⟨c :: inner, by rw [split]; rfl⟩
  | _ => contradiction

theorem afterQuoted?_taken {quote : Char} (quotes : isQuote quote) {t rest : Text}
    (h : afterQuoted? quote t = some rest) : TakenTo t rest := by
  have known : quote ∈ closingMarks := by
    simp only [isQuote, Bool.or_eq_true, decide_eq_true_eq] at quotes
    rcases quotes with rfl | rfl <;> decide
  obtain ⟨inner, split⟩ := afterQuoted?_split h
  exact ⟨inner, quote, known, split⟩

def Enclosure.closer : Enclosure → Char
  | .literal => backtick
  | .brace => '}'

theorem closer_mem (enclosure : Enclosure) : enclosure.closer ∈ closingMarks := by
  cases enclosure <;> decide

theorem afterEnclosures?_split {opened : List Enclosure} {outermost : Enclosure}
    (last : opened.getLast? = some outermost) {t rest : Text}
    (h : afterEnclosures? opened t = some rest) : ∃ inner, t = inner ++ outermost.closer :: rest := by
  have closes {inner : Enclosure} {outer : List Enclosure} {t : Text}
      (last : (inner :: outer).getLast? = some outermost)
      (h : afterEnclosures? outer t = some rest)
      (ih : outer.getLast? = some outermost → ∃ inner, t = inner ++ outermost.closer :: rest) :
      ∃ lead, inner.closer :: t = lead ++ outermost.closer :: rest := by
    cases outer with
    | nil =>
      rw [afterEnclosures?] at h
      obtain rfl := Option.some.inj h
      obtain rfl := Option.some.inj last
      exact ⟨[], rfl⟩
    | cons next outer =>
      obtain ⟨lead, split⟩ := ih (by rwa [List.getLast?_cons_cons] at last)
      exact ⟨inner.closer :: lead, by rw [split]; rfl⟩
  have behind {t : Text} (lead : Text)
      (found : ∃ inner, t = inner ++ outermost.closer :: rest) :
      ∃ inner, lead ++ t = inner ++ outermost.closer :: rest := by
    obtain ⟨inner, rfl⟩ := found
    exact ⟨lead ++ inner, (List.append_assoc ..).symm⟩
  fun_induction afterEnclosures? opened t with
  | case1 => contradiction
  | case2 => contradiction
  | case3 outer t ih =>
    cases t with
    | nil => simp [afterEnclosures?] at h
    | cons d t => exact behind [escape, d] (ih last h)
  | case4 outer t _ ih => exact closes last h fun more => ih more h
  | case5 outer c t _ _ opens ih =>
    simp only [Bool.and_eq_true, decide_eq_true_eq] at opens
    obtain ⟨rfl, head⟩ := opens
    obtain ⟨t, rfl⟩ := List.head?_eq_some_iff.1 head
    exact behind ['$', '{'] (ih last h)
  | case6 outer c t _ _ _ ih => exact behind [c] (ih last h)
  | case7 outer t ih => exact behind ['{'] (ih last h)
  | case8 outer t _ ih => exact closes last h fun more => ih more h
  | case9 outer t _ _ ih => exact behind [backtick] (ih last h)
  | case10 outer c t _ _ _ quote after found ih =>
    obtain ⟨literal, rfl⟩ := afterQuoted?_suffix found
    exact behind (c :: literal) (ih last h)
  | case11 outer c t _ _ _ _ _ ih => exact behind [c] (ih last h)
  | case12 outer c t _ _ _ _ ih => exact behind [c] (ih last h)

theorem afterEnclosures?_taken {opened : List Enclosure} (filled : opened ≠ []) {t rest : Text}
    (h : afterEnclosures? opened t = some rest) : TakenTo t rest := by
  obtain ⟨inner, split⟩ := afterEnclosures?_split (List.getLast?_eq_some_getLast filled) h
  exact ⟨inner, _, closer_mem _, split⟩

theorem afterTemplates?_taken {depth : Nat} {t rest : Text}
    (h : afterTemplates? depth t = some rest) : TakenTo t rest := by
  fun_induction afterTemplates? depth t with
  | case1 => contradiction
  | case2 c t after found =>
    obtain rfl := Option.some.inj h
    rw [after?_eq_some_iff.1 found]
    exact ⟨templateEndTag.dropLast, '>', by decide, rfl⟩
  | case3 c t _ _ _ ih => exact (ih h).cons c
  | case4 c t _ _ ih => exact (ih h).cons c

theorem afterParens?_taken {depth : Nat} {t rest : Text} (h : afterParens? depth t = some rest) :
    TakenTo t rest := by
  fun_induction afterParens? depth t with
  | case2 depth t ih => exact (ih h).cons '('
  | case3 t => exact ⟨[], ')', by decide, by rw [Option.some.inj h]; rfl⟩
  | case4 t depth _ ih => exact (ih h).cons ')'
  | case5 depth t after found _ _ ih =>
    obtain ⟨literal, rfl⟩ := afterEnclosures?_suffix found
    exact ((ih h).behind literal).cons backtick
  | case7 depth c t _ _ _ _ after found ih =>
    obtain ⟨literal, rfl⟩ := afterQuoted?_suffix found
    exact ((ih h).behind literal).cons c
  | case9 depth c t _ _ _ _ ih => exact (ih h).cons c
  | _ => contradiction

theorem afterPattern?_taken {inClass : Bool} {t rest : Text}
    (h : afterPattern? inClass t = some rest) :
    ∃ flags, TakenTo t (flags ++ rest) ∧ ∀ c ∈ flags, isNameChar c := by
  fun_induction afterPattern? inClass t with
  | case2 inClass c slash =>
    simp only [Bool.and_eq_true, decide_eq_true_eq] at slash
    obtain rfl := slash.1
    obtain rfl := Option.some.inj h
    exact ⟨[], ⟨[], '/', by decide, rfl⟩, by simp⟩
  | case4 inClass d t ih =>
    obtain ⟨flags, taken, names⟩ := ih h
    exact ⟨flags, (taken.cons d).cons escape, names⟩
  | case6 inClass c d t _ _ slash =>
    simp only [Bool.and_eq_true, decide_eq_true_eq] at slash
    obtain rfl := slash.1
    obtain rfl := Option.some.inj h
    refine ⟨(d :: t).takeWhile isNameChar, ⟨[], '/', by decide, ?_⟩, ?_⟩
    · rw [List.takeWhile_append_dropWhile]
      rfl
    · exact fun c inside => List.mem_takeWhile_imp inside
  | case7 inClass c d t _ _ _ ih =>
    obtain ⟨flags, taken, names⟩ := ih h
    exact ⟨flags, taken.cons c, names⟩
  | _ => contradiction

theorem afterDottedName_line (t : Text) : ∃ name, t = name ++ afterDottedName t ∧ '\n' ∉ name := by
  fun_induction afterDottedName t with
  | case1 => exact ⟨[], rfl, by simp⟩
  | case2 c t char ih =>
    obtain ⟨name, split, line⟩ := ih
    refine ⟨c :: name, by rw [List.cons_append, ← split], ?_⟩
    rw [List.mem_cons, not_or]
    refine ⟨?_, line⟩
    rintro rfl
    exact absurd char (by decide)
  | case3 c t _ dot ih =>
    obtain ⟨name, split, line⟩ := ih
    simp only [Bool.and_eq_true, decide_eq_true_eq] at dot
    obtain rfl := dot.1
    exact ⟨'.' :: name, by rw [List.cons_append, ← split], by simpa using line⟩
  | case4 c t => exact ⟨[], rfl, by simp⟩

def LineBound (t : Text) : Prop :=
  ∀ front behind, t = front ++ '\n' :: behind → ∃ mark ∈ behind, mark ∈ closingMarks

theorem lineBound_of_line {t : Text} (line : '\n' ∉ t) : LineBound t := by
  intro front behind split
  rw [split] at line
  simp at line

theorem lineBound_of_marked {front flags : Text} {mark : Char} (known : mark ∈ closingMarks)
    (line : '\n' ∉ flags) : LineBound (front ++ mark :: flags) := by
  intro before behind split
  rcases List.append_eq_append_iff.1 split with ⟨extra, -, rest⟩ | ⟨extra, same, rest⟩
  · cases extra with
    | nil =>
      obtain ⟨rfl, -⟩ := List.cons.inj rest
      exact absurd known (by decide)
    | cons d extra =>
      obtain ⟨-, rfl⟩ := List.cons.inj rest
      simp at line
  · cases extra with
    | nil =>
      obtain ⟨rfl, -⟩ := List.cons.inj rest
      exact absurd known (by decide)
    | cons d extra =>
      obtain ⟨-, rfl⟩ := List.cons.inj rest
      exact ⟨mark, by simp, known⟩

theorem TakenTo.lineBound {inside rest : Text} (h : TakenTo (inside ++ rest) rest) (c : Char) :
    LineBound (c :: inside) := by
  obtain ⟨front, mark, known, split⟩ := h
  have same : inside = front ++ [mark] := List.append_cancel_right (split.trans (by simp))
  rw [same, ← List.cons_append]
  exact lineBound_of_marked known (by simp)

theorem afterArguments_taken (t : Text) : afterArguments t = t ∨ TakenTo t (afterArguments t) := by
  unfold afterArguments
  split
  · rename_i arguments
    cases found : afterParens? 0 arguments with
    | none => exact Or.inl rfl
    | some after => exact Or.inr ((afterParens?_taken found).cons '(')
  · exact Or.inl rfl

theorem afterDecorator?_lineBound {before inside rest : Text}
    (h : afterDecorator? before (inside ++ rest) = some rest) : LineBound ('@' :: inside) := by
  have fits : ¬ (joins before ∨ (inside ++ rest).head?.any isNameStart = false) := by
    intro none_
    rw [afterDecorator?_eq_none_iff.2 none_] at h
    contradiction
  rw [not_or, Bool.not_eq_true, Bool.not_eq_false] at fits
  rw [afterDecorator?_of_name fits.1 fits.2] at h
  obtain ⟨name, split, line⟩ := afterDottedName_line (inside ++ rest)
  rcases afterArguments_taken (afterDottedName (inside ++ rest)) with same | taken
  · rw [← same, Option.some.inj h] at split
    rw [List.append_cancel_right split]
    exact lineBound_of_line (by simpa using line)
  · rw [Option.some.inj h] at taken
    have whole := taken.behind name
    rw [← split] at whole
    exact whole.lineBound '@'

theorem piece?_lineBound {before inside rest : Text} {c : Char} {kind : SegmentKind}
    (h : piece? before c (inside ++ rest) = some (kind, rest)) : LineBound (c :: inside) := by
  unfold piece? at h
  repeat' split at h
  all_goals try simp at h
  · rename_i slash _ _ _
    have whole : (inside ++ rest).takeWhile (· ≠ '\n') ++ afterLine (inside ++ rest)
        = inside ++ rest := List.takeWhile_append_dropWhile
    rw [h.2] at whole
    have line : '\n' ∉ inside := by
      rw [← List.append_cancel_right whole]
      intro inside_
      exact absurd (List.mem_takeWhile_imp inside_) (by decide)
    apply lineBound_of_line
    rw [List.mem_cons, not_or, slash]
    exact ⟨by decide, line⟩
  · rename_i more whole
    have found : afterFirst? (['*'] ++ ['/']) more = some rest := h.1
    have taken := (afterFirst?_taken (by decide) found).cons '*'
    rw [← whole] at taken
    exact taken.lineBound c
  · obtain ⟨flags, ⟨front, mark, known, split⟩, names⟩ := afterPattern?_taken h.1
    have same : inside = front ++ mark :: flags := List.append_cancel_right (split.trans (by simp))
    rw [same, ← List.cons_append]
    apply lineBound_of_marked known
    intro inside_
    exact absurd (names _ inside_) (by decide)
  · have taken := (afterTemplates?_taken h.1).behind ((inside ++ rest).take (templateTag.length - 1))
    rw [List.take_append_drop] at taken
    exact taken.lineBound c
  · rename_i whole
    have taken := (afterMustache?_taken h.1).cons '{'
    rw [← whole] at taken
    exact taken.lineBound c
  · exact (afterEnclosures?_taken (List.cons_ne_nil _ _) h.1).lineBound c
  · rename_i quotes
    exact (afterQuoted?_taken quotes h.1).lineBound c
  · rename_i sign
    rw [sign]
    exact afterDecorator?_lineBound h.1

def isQuiet (c : Char) : Bool := isNameChar c || c = ' ' || c = ';' || c = '\n'

theorem piece?_quiet {c : Char} (quiet : isQuiet c) (before t : Text) : piece? before c t = none := by
  have other : ∀ d, isQuiet d = false → c ≠ d := by
    intro d loud same
    rw [same, loud] at quiet
    contradiction
  have plain : isQuote c = false := by
    simp [isQuote, other '\x27' (by decide), other '\x22' (by decide)]
  unfold piece?
  rw [if_neg (other _ (by decide)), if_neg (other _ (by decide)), if_neg (other _ (by decide)),
    if_neg (other _ (by decide)), plain, if_neg (by decide), if_neg (other _ (by decide))]

theorem not_quiet_of_mark {mark : Char} (known : mark ∈ closingMarks) : isQuiet mark = false := by
  have all : closingMarks.all fun mark => !isQuiet mark := by decide
  simpa using List.all_eq_true.1 all mark known

theorem lexFrom_quiet {line : Text} (quiet : ∀ c ∈ line, isQuiet c) (before code : Text) :
    lexFrom before code line = codeSegment (line.reverse ++ code) := by
  induction line generalizing before code with
  | nil => rw [lexFrom, List.reverse_nil, List.nil_append]
  | cons c line ih =>
    obtain ⟨first, more⟩ := List.forall_mem_cons.1 quiet
    rw [lexFrom_code (piece?_quiet first before line), ih more, List.reverse_cons,
      List.append_assoc, List.singleton_append]

def EndsLine (t : Text) : Prop := t = [] ∨ t.getLast? = some '\n'

theorem EndsLine.of_append {a b : Text} (h : EndsLine (a ++ b)) : EndsLine b := by
  cases b with
  | nil => exact Or.inl rfl
  | cons c b =>
    right
    rcases h with none_ | last
    · simp at none_
    · rwa [List.getLast?_append, List.getLast?_eq_some_getLast (List.cons_ne_nil c b),
        Option.some_or, ← List.getLast?_eq_some_getLast] at last

theorem EndsLine.append {a b : Text} (first : EndsLine a) (second : EndsLine b) :
    EndsLine (a ++ b) := by
  rcases second with rfl | last
  · rwa [List.append_nil]
  · right
    rw [List.getLast?_append, last, Option.some_or]

theorem lexFrom_last_line {front line : Text} (quiet : ∀ c ∈ line, isQuiet c) (filled : line ≠ [])
    (ended : EndsLine front) (before code : Text) :
    ∃ segments left, lexFrom before code (front ++ line) = segments ++ [⟨.code, left ++ line⟩] ∧
      segments.flatMap Segment.text ++ left = code.reverse ++ front := by
  generalize same : front ++ line = t
  induction before, code, t using lexing_induction generalizing front with
  | nil before code => exact absurd (List.append_eq_nil_iff.1 same).2 filled
  | code before code c t found ih =>
    cases front with
    | nil =>
      rw [List.nil_append] at same
      refine ⟨[], code.reverse, ?_, by simp⟩
      rw [← same, lexFrom_quiet quiet, codeSegment, if_neg (by simp [filled])]
      simp
    | cons d front =>
      obtain ⟨rfl, rest⟩ := List.cons.inj same
      obtain ⟨segments, left, cut, whole⟩ := ih (ended.of_append (a := [_])) rest
      refine ⟨segments, left, ?_, ?_⟩
      · rw [lexFrom_code found, cut]
      · rw [whole]
        simp
  | piece before code c inside kind rest found ih =>
    cases front with
    | nil =>
      rw [List.nil_append] at same
      rw [piece?_quiet (quiet c (by rw [same]; simp))] at found
      contradiction
    | cons d front =>
      have bound := piece?_lineBound found
      rw [← List.cons_append] at same
      have within : ∃ extra, d :: front = (c :: inside) ++ extra ∧ rest = extra ++ line := by
        rcases List.append_eq_append_iff.1 same with ⟨extra, taken, split⟩ | within
        · cases extra with
          | nil => exact ⟨[], by simpa using taken.symm, by simpa using split.symm⟩
          | cons e extra =>
            obtain ⟨init, last⟩ := List.getLast?_eq_some_iff.1 (ended.resolve_left (by simp))
            rw [last, List.append_assoc] at taken
            obtain ⟨mark, inOver, known⟩ := bound init (e :: extra) taken
            have inLine : mark ∈ line := by
              rw [split]
              exact List.mem_append_left _ inOver
            have quietMark := quiet mark inLine
            rw [not_quiet_of_mark known] at quietMark
            contradiction
        · exact within
      obtain ⟨extra, split, rfl⟩ := within
      rw [split] at ended
      obtain ⟨segments, left, cut, whole⟩ := ih ended.of_append rfl
      refine ⟨codeSegment code ++ ⟨kind, c :: inside⟩ :: segments, left, ?_, ?_⟩
      · rw [lexFrom_piece found, cut, List.append_assoc, List.cons_append]
      · rw [split, List.flatMap_append, codeSegment_text, List.flatMap_cons, List.append_assoc,
          List.append_assoc, whole, List.reverse_nil, List.nil_append]

theorem extentsFrom_append (start : Nat) (a b : List Segment) : extentsFrom start (a ++ b)
    = extentsFrom start a ++ extentsFrom (start + width (a.flatMap Segment.text)) b := by
  induction a generalizing start with
  | nil => simp [extentsFrom]
  | cons segment more ih =>
    rw [List.cons_append, extentsFrom, extentsFrom, ih, List.flatMap_cons, width_append,
      ← Nat.add_assoc, List.cons_append]

theorem inCode_last_line {front line : Text} (quiet : ∀ c ∈ line, isQuiet c) (filled : line ≠ [])
    (ended : EndsLine front) : inCode (lex (front ++ line)) (width front) := by
  obtain ⟨segments, left, cut, whole⟩ := lexFrom_last_line quiet filled ended [] []
  rw [List.reverse_nil, List.nil_append] at whole
  have positive := width_pos filled
  have place : width front = width (segments.flatMap Segment.text) + width left := by
    rw [← whole, width_append]
  rw [inCode, lex, cut, extents, extentsFrom_append]
  apply List.any_eq_true.2
  refine ⟨⟨.code, width (segments.flatMap Segment.text),
    width (segments.flatMap Segment.text) + width (left ++ line)⟩, ?_, ?_⟩
  · simp [extentsFrom]
  · simp only [width_append, Bool.and_eq_true, decide_eq_true_eq, place]
    refine ⟨⟨trivial, ?_⟩, ?_⟩ <;> omega

end ComponentBundle.Source
