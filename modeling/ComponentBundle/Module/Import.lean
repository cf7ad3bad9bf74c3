import ComponentBundle.Source.Character
import ComponentBundle.Text.Blank
import ComponentBundle.Text.Search
import ComponentBundle.Text.Word

/-!
Import statements: their parts, and how one is read from the text that follows its
keyword. The parts of a statement put together are the text it was read from.
-/
namespace ComponentBundle.Module
open ComponentBundle.Text ComponentBundle.Source

structure MemberBinding where
  imported : Text
  name : Text
  deriving Repr, DecidableEq

structure Bindings where
  defaultName : Option Text
  namespaceName : Option Text
  members : List MemberBinding
  deriving Repr, DecidableEq

def Bindings.names (bindings : Bindings) : List Text :=
  bindings.defaultName.toList ++ bindings.namespaceName.toList ++ bindings.members.map (·.name)

/-- Names start with an ASCII letter, an underscore or a dollar sign, and go on with any
    word character. -/
def name? : Text → Option (Text × Text)
  | [] => none
  | c :: t =>
    if isNameStart c then
      let continues := fun d => isWord d || d = '$'
      some (c :: t.takeWhile continues, t.dropWhile continues)
    else none

def isName (t : Text) : Bool :=
  match name? t with
  | some (_, []) => true
  | _ => false

def memberBinding? (item : Text) : Option MemberBinding :=
  match name? item with
  | none => none
  | some (imported, []) => some ⟨imported, imported⟩
  | some (imported, c :: t) =>
    if isBlank c then
      match after? ['a', 's'] (trimStart t) with
      | some (d :: u) =>
        if isBlank d then
          match name? (trimStart u) with
          | some (name, []) => some ⟨imported, name⟩
          | _ => none
        else none
      | _ => none
    else none

def dropAliasWord : Text → Text
  | 'a' :: 's' :: t => dropAliasWord t
  | t => t

def bracedPart? (clause : Text) : Option (Text × Text) :=
  match splitFirst? ['{'] clause with
  | none => none
  | some (head, rest) =>
    match splitLast? '}' rest with
    | none => none
    | some (inside, _) => some (head, inside)

def listItems (t : Text) : List Text :=
  ((splitOn ',' t).map trim).filter fun item => !item.isEmpty

/-- One part of a clause outside its braces: `* as n`, or a default name. Of two default
    names the later counts, and `type` is none. -/
def addPart (bindings : Bindings) (part : Text) : Bindings :=
  match part with
  | '*' :: t =>
    let name := trim (dropAliasWord (trim t))
    if name.isEmpty then bindings else { bindings with namespaceName := some name }
  | _ =>
    if part = ['t', 'y', 'p', 'e'] then bindings else { bindings with defaultName := some part }

def Bindings.ofClause (clause : Text) : Bindings :=
  let clause := trim clause
  let (head, inside) := (bracedPart? clause).getD (clause, [])
  (listItems head).foldl addPart ⟨none, none, (listItems inside).filterMap memberBinding?⟩

/-- A quoted specifier with the text around it: through the opening quote, and after the
    closing one. -/
structure Quoted where
  opening : Text
  specifier : Text
  closing : Char
  rest : Text
  deriving Repr, DecidableEq

def Quoted.text (q : Quoted) : Text := q.opening ++ (q.specifier ++ q.closing :: q.rest)

def quoted? (t : Text) : Option Quoted :=
  match t.dropWhile isBlank with
  | [] => none
  | quote :: inside =>
    let inSpecifier := fun c => !isQuote c && c ≠ '\n'
    match inside.dropWhile inSpecifier with
    | [] => none
    | closing :: rest =>
      let specifier := inside.takeWhile inSpecifier
      if isQuote quote && isQuote closing && !specifier.isEmpty then
        some ⟨t.takeWhile isBlank ++ [quote], specifier, closing, rest⟩
      else none

theorem quoted?_text {t : Text} {q : Quoted} (h : quoted? t = some q) : q.text = t := by
  unfold quoted? at h
  split at h
  · simp at h
  · rename_i quote inside opened
    simp only at h
    split at h
    · simp at h
    · rename_i closing rest closed
      split at h
      · cases h
        simp only [Quoted.text, ← closed, List.takeWhile_append_dropWhile, List.append_assoc,
          List.cons_append, List.nil_append, ← opened]
      · simp at h

def importKeyword : Text := ['i', 'm', 'p', 'o', 'r', 't']

def fromKeyword : Text := ['f', 'r', 'o', 'm']

/-- The word `from` and a quoted specifier, not in the middle of a longer word. -/
@[irreducible] def source? (previous : Char) (t : Text) : Option Quoted :=
  let blanks := t.takeWhile isBlank
  if blanks.isEmpty && isWord previous then none
  else
    match after? fromKeyword (t.dropWhile isBlank) with
    | none => none
    | some u => (quoted? u).map fun q => { q with opening := blanks ++ (fromKeyword ++ q.opening) }

theorem source?_text {previous : Char} {t : Text} {q : Quoted}
    (h : source? previous t = some q) : q.text = t := by
  unfold source? at h
  simp only at h
  split at h
  · simp at h
  · split at h
    · simp at h
    · rename_i u found
      obtain ⟨inner, read, rfl⟩ := Option.map_eq_some_iff.1 h
      have whole := quoted?_text read
      simp only [Quoted.text, List.append_assoc] at whole ⊢
      rw [whole, ← after?_eq_some_iff.1 found, List.takeWhile_append_dropWhile]

/-- The shortest clause that a source follows. A clause holds no quote and no semicolon. -/
def clauseAndSource? (previous : Char) : Text → Option (Text × Quoted)
  | [] => none
  | c :: t =>
    match source? previous (c :: t) with
    | some q => some ([], q)
    | none =>
      if c = ';' || isQuote c || c = backtick then none
      else (clauseAndSource? c t).map fun (clause, q) => (c :: clause, q)

theorem clauseAndSource?_text {previous : Char} {t clause : Text} {q : Quoted}
    (h : clauseAndSource? previous t = some (clause, q)) : clause ++ q.text = t := by
  induction t generalizing previous clause with
  | nil => simp [clauseAndSource?] at h
  | cons c t ih =>
    rw [clauseAndSource?] at h
    split at h
    · rename_i found
      simp only [Option.some.injEq, Prod.mk.injEq] at h
      obtain ⟨rfl, rfl⟩ := h
      exact source?_text found
    · split at h
      · simp at h
      · obtain ⟨⟨inner, _⟩, read, same⟩ := Option.map_eq_some_iff.1 h
        simp only [Prod.mk.injEq] at same
        obtain ⟨rfl, rfl⟩ := same
        rw [List.cons_append, ih read]

/-- A statement as read: through the opening quote, the specifier, the rest of the
    statement, and what follows it. -/
structure ImportForm where
  opening : Text
  clause : Text
  specifier : Text
  closing : Text
  rest : Text
  deriving Repr, DecidableEq

def terminator (t : Text) : Text :=
  t.takeWhile isIndent ++ if (t.dropWhile isIndent).head? = some ';' then [';'] else []

def blankTail (t : Text) : Text :=
  let line := t.takeWhile (· ≠ '\n')
  if allBlank line then line ++ (t.drop line.length).take 1 else []

def statementForm (opening clause : Text) (q : Quoted) : ImportForm :=
  let mark := terminator q.rest
  let line := blankTail (q.rest.drop mark.length)
  { opening, clause, specifier := q.specifier, closing := q.closing :: (mark ++ line)
    rest := q.rest.drop (mark.length + line.length) }

def importForm? (t : Text) : Option ImportForm :=
  let blanks := t.takeWhile isBlank
  match clauseAndSource? (blanks.getLast?.getD 't') (t.dropWhile isBlank) with
  | some (clause, q) =>
    some (statementForm (importKeyword ++ (blanks ++ (clause ++ q.opening))) clause q)
  | none => (quoted? t).map fun q => statementForm (importKeyword ++ q.opening) [] q

def ImportForm.text (form : ImportForm) : Text :=
  form.opening ++ (form.specifier ++ (form.closing ++ form.rest))

theorem terminator_append_drop (t : Text) : terminator t ++ t.drop (terminator t).length = t := by
  have split := List.takeWhile_append_dropWhile (p := isIndent) (l := t)
  have here : terminator t <+: t := by
    unfold terminator
    split
    · rename_i found
      obtain ⟨more, same⟩ := List.head?_eq_some_iff.1 found
      exact ⟨more, by rw [List.append_assoc, List.singleton_append, ← same, split]⟩
    · simpa using List.takeWhile_prefix isIndent
  exact List.prefix_iff_eq_append.1 here

theorem blankTail_append_drop (t : Text) : blankTail t ++ t.drop (blankTail t).length = t := by
  have here : blankTail t <+: t := by
    simp only [blankTail]
    split
    · have start := List.takeWhile_prefix (l := t) (· ≠ '\n')
      have split := List.prefix_iff_eq_append.1 start
      refine ⟨(t.drop (t.takeWhile (· ≠ '\n')).length).drop 1, ?_⟩
      rw [List.append_assoc, List.take_append_drop, split]
    · exact List.nil_prefix
  exact List.prefix_iff_eq_append.1 here

theorem statementForm_text (opening clause : Text) (q : Quoted) :
    (statementForm opening clause q).text = opening ++ (q.specifier ++ q.closing :: q.rest) := by
  have mark := terminator_append_drop q.rest
  have line := blankTail_append_drop (q.rest.drop (terminator q.rest).length)
  simp only [statementForm, ImportForm.text, List.cons_append, List.append_assoc]
  rw [← List.drop_drop, line, mark]

theorem importForm?_text {t : Text} {form : ImportForm} (h : importForm? t = some form) :
    form.text = importKeyword ++ t := by
  have blanks := List.takeWhile_append_dropWhile (p := isBlank) (l := t)
  simp only [importForm?] at h
  split at h
  · rename_i clause q found
    have whole := clauseAndSource?_text found
    cases h
    rw [statementForm_text]
    simp only [Quoted.text, List.append_assoc] at whole ⊢
    rw [whole, blanks]
  · obtain ⟨q, found, rfl⟩ := Option.map_eq_some_iff.1 h
    have whole := quoted?_text found
    rw [statementForm_text]
    simp only [Quoted.text, List.append_assoc] at whole ⊢
    rw [whole]

theorem importForm?_rest_length {t : Text} {form : ImportForm} (h : importForm? t = some form) :
    form.rest.length ≤ t.length := by
  have lengths := congrArg List.length (importForm?_text h)
  have opened : importKeyword.length ≤ form.opening.length := by
    simp only [importForm?] at h
    split at h
    · cases h
      simp [statementForm]
    · obtain ⟨q, _, rfl⟩ := Option.map_eq_some_iff.1 h
      simp [statementForm]
  simp [ImportForm.text] at lengths
  omega

end ComponentBundle.Module
