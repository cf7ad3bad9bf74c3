import ComponentBundle.Source.Segment
import ComponentBundle.Source.Closing

/-!
Splitting source text into segments. The lexemes put together are the text again:
a piece is whatever its closing function leaves out, and code is the rest.
-/
namespace ComponentBundle.Source
open ComponentBundle.Text

def expressionWords : List Text :=
  [['r', 'e', 't', 'u', 'r', 'n'],
   ['t', 'y', 'p', 'e', 'o', 'f'],
   ['i', 'n', 's', 't', 'a', 'n', 'c', 'e', 'o', 'f'],
   ['i', 'n'],
   ['o', 'f'],
   ['n', 'e', 'w'],
   ['d', 'e', 'l', 'e', 't', 'e'],
   ['v', 'o', 'i', 'd'],
   ['t', 'h', 'r', 'o', 'w'],
   ['c', 'a', 's', 'e'],
   ['d', 'o'],
   ['e', 'l', 's', 'e'],
   ['y', 'i', 'e', 'l', 'd'],
   ['a', 'w', 'a', 'i', 't']]

def expressionMarks : List Char :=
  ['(', ',', '=', ':', '[', '!', '&', '|', '?', '{', '}', ';', '+', '-', '*', '%', '<', '>', '~',
    '^']

/-- Whether an expression may start after the given text, which is read backwards. -/
def allowsPattern (before : Text) : Bool :=
  match before.dropWhile isGap with
  | [] => true
  | c :: more =>
    if expressionMarks.contains c then true
    else if isNameChar c then
      let (word, outside) := (c :: more).span isNameChar
      outside.head? ≠ some '.' && expressionWords.contains word.reverse
    else false

def afterDecorator? (before t : Text) : Option Text :=
  if before.head?.any (fun c => isNameChar c || c = '.') || !t.head?.any isNameStart then none
  else
    let rest := afterDottedName t
    match rest with
    | '(' :: arguments => some ((afterParens? 0 arguments).getD rest)
    | _ => some rest

/-- The piece other than code that starts with `c`: its kind and what follows it. The
    text before it is read backwards. -/
def piece? (before : Text) (c : Char) (t : Text) : Option (SegmentKind × Text) :=
  if c = '/' then
    match t with
    | '/' :: _ => some (.comment, afterLine t)
    | '*' :: inside => (afterBlockComment? inside).map (.comment, ·)
    | _ => if allowsPattern before then (afterPattern? false t).map (.span .pattern, ·) else none
  else if c = '<' then
    if opensTemplate (c :: t) then
      (afterTemplates? 0 (t.drop (templateTag.length - 1))).map (.span .markup, ·)
    else none
  else if c = '{' then
    match t with
    | '{' :: inside => (afterMustache? inside).map (.span .markup, ·)
    | _ => none
  else if c = backtick then (afterVerbatim? t).map (.span .verbatimText, ·)
  else if isQuote c then (afterQuoted? c t).map (.span .quotedText, ·)
  else if c = '@' then (afterDecorator? before t).map (.span .decorator, ·)
  else none

theorem piece?_slash (before t : Text) : piece? before '/' t = match t with
    | '/' :: _ => some (.comment, afterLine t)
    | '*' :: inside => (afterBlockComment? inside).map (.comment, ·)
    | _ => if allowsPattern before then (afterPattern? false t).map (.span .pattern, ·)
      else none := rfl

theorem piece?_pattern {t : Text} (line : t.head? ≠ some '/') (block : t.head? ≠ some '*')
    (before : Text) : piece? before '/' t =
      if allowsPattern before then (afterPattern? false t).map (.span .pattern, ·) else none := by
  rw [piece?_slash]
  split
  · exact absurd rfl line
  · exact absurd rfl block
  · rfl

theorem piece?_tag (before t : Text) : piece? before '<' t =
    if opensTemplate ('<' :: t) then
      (afterTemplates? 0 (t.drop (templateTag.length - 1))).map (.span .markup, ·)
    else none := rfl

theorem piece?_braces (before t : Text) :
    piece? before '{' ('{' :: t) = (afterMustache? t).map (.span .markup, ·) := rfl

theorem piece?_brace {t : Text} (single : t.head? ≠ some '{') (before : Text) :
    piece? before '{' t = none := by
  unfold piece?
  rw [if_neg (by decide), if_neg (by decide), if_pos rfl]
  split
  · exact absurd rfl single
  · rfl

theorem piece?_verbatim (before t : Text) :
    piece? before backtick t = (afterVerbatim? t).map (.span .verbatimText, ·) := rfl

theorem piece?_quote {c : Char} (quote : isQuote c) (before t : Text) :
    piece? before c t = (afterQuoted? c t).map (.span .quotedText, ·) := by
  simp only [isQuote, Bool.or_eq_true, decide_eq_true_eq] at quote
  rcases quote with rfl | rfl <;> rfl

theorem piece?_decorator (before t : Text) :
    piece? before '@' t = (afterDecorator? before t).map (.span .decorator, ·) := rfl

theorem afterDecorator?_suffix {before t rest : Text}
    (h : afterDecorator? before t = some rest) : rest <:+ t := by
  have named := afterDottedName_suffix t
  simp only [afterDecorator?] at h
  split at h
  · simp at h
  · split at h
    · rename_i arguments opened
      rw [opened] at named
      cases closed : afterParens? 0 arguments with
      | none => simp_all
      | some inside =>
        simp [closed] at h
        subst h
        exact (afterParens?_suffix closed).trans ((List.suffix_cons _ _).trans named)
    · simp_all

theorem piece?_suffix {before t rest : Text} {c : Char} {kind : SegmentKind}
    (h : piece? before c t = some (kind, rest)) : rest <:+ t := by
  unfold piece? at h
  repeat' split at h
  all_goals try simp at h
  · obtain ⟨_, rfl⟩ := h
    exact List.dropWhile_suffix _
  · obtain ⟨closed, _⟩ := h
    exact (afterFirst?_suffix closed).trans (List.suffix_cons _ _)
  · obtain ⟨closed, _⟩ := h
    exact afterPattern?_suffix closed
  · obtain ⟨closed, _⟩ := h
    exact (afterTemplates?_suffix closed).trans (List.drop_suffix _ _)
  · obtain ⟨closed, _⟩ := h
    exact (afterMustache?_suffix closed).trans (List.suffix_cons _ _)
  · obtain ⟨closed, _⟩ := h
    exact afterEnclosures?_suffix closed
  · obtain ⟨closed, _⟩ := h
    exact afterQuoted?_suffix closed
  · obtain ⟨closed, _⟩ := h
    exact afterDecorator?_suffix closed

/-- Code collected so far, read backwards, as a segment of its own if there is any. -/
def codeSegment (code : Text) : List Segment :=
  if code.isEmpty then [] else [⟨.code, code.reverse⟩]

/-- Splits what follows `before`, whose last characters are the collected code. -/
def lexFrom (before code : Text) : Text → List Segment
  | [] => codeSegment code
  | c :: t =>
    match _piece : piece? before c t with
    | some (kind, rest) =>
      let lexeme := (c :: t).take (t.length + 1 - rest.length)
      codeSegment code ++ ⟨kind, lexeme⟩ :: lexFrom (lexeme.reverse ++ before) [] rest
    | none => lexFrom (c :: before) (c :: code) t
termination_by t => t.length
decreasing_by
  · have := (piece?_suffix _piece).length_le
    simp; omega
  · simp

def lex (t : Text) : List Segment := lexFrom [] [] t

end ComponentBundle.Source
