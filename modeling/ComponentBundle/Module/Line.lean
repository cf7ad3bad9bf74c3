import ComponentBundle.Module.Import

/-!
Phrases that stand at the start of a line: declarations and exports. A phrase keeps
the texts of its parts, so it knows where each of them stands.
-/
namespace ComponentBundle.Module
open ComponentBundle.Text ComponentBundle.Source

/-- The phrases that `read` finds at line starts, from left to right and each after the
    end of the one before, with their positions. `textOf` is what a phrase was read from. -/
def phrasesFrom {α : Type} (read : Text → Option α) (textOf : α → Text) (atLineStart : Bool)
    (position : Nat) : Text → List (Nat × α)
  | [] => []
  | c :: t =>
    match if atLineStart then read (c :: t) else none with
    | some phrase =>
      let used := textOf phrase
      (position, phrase) ::
        phrasesFrom read textOf (used.getLast? = some '\n') (position + width used)
          (t.drop (used.length - 1))
    | none => phrasesFrom read textOf (c = '\n') (position + c.utf8Size) t
termination_by t => t.length
decreasing_by all_goals (simp; try omega)

def phrases {α : Type} (read : Text → Option α) (textOf : α → Text) (t : Text) :
    List (Nat × α) := phrasesFrom read textOf true 0 t

def exportWord : Text := ['e', 'x', 'p', 'o', 'r', 't']

def defaultWord : Text := ['d', 'e', 'f', 'a', 'u', 'l', 't']

def asyncWord : Text := ['a', 's', 'y', 'n', 'c']

def functionWord : Text := ['f', 'u', 'n', 'c', 't', 'i', 'o', 'n']

def classWord : Text := ['c', 'l', 'a', 's', 's']

def extendsWord : Text := ['e', 'x', 't', 'e', 'n', 'd', 's']

def bindingWords : List Text :=
  [classWord, ['c', 'o', 'n', 's', 't'], ['l', 'e', 't'], ['v', 'a', 'r']]

abbrev Reading := Text × Text

def blanks (t : Text) : Reading := (t.takeWhile isBlank, t.dropWhile isBlank)

def someBlanks? (t : Text) : Option Reading :=
  if (t.takeWhile isBlank).isEmpty then none else some (blanks t)

def indentation (t : Text) : Reading := (t.takeWhile isIndent, t.dropWhile isIndent)

def word? (word t : Text) : Option Reading := (after? word t).map (word, ·)

def optionalChar (c : Char) (t : Text) : Reading :=
  match t with
  | d :: rest => if d = c then ([c], rest) else ([], t)
  | [] => ([], t)

def spacedWord? (word t : Text) : Option Reading := do
  let (word, t) ← word? word t
  let (gap, t) ← someBlanks? t
  return (word ++ gap, t)

def optionalReading (read : Text → Option Reading) (t : Text) : Reading := (read t).getD ([], t)

def atWordEnd (t : Text) : Bool := !t.head?.any isWord

structure DefaultMarker where
  indent : Text
  words : Text
  deriving Repr, DecidableEq

def DefaultMarker.text (marker : DefaultMarker) : Text := marker.indent ++ marker.words

def defaultMarker? (t : Text) : Option DefaultMarker := do
  let (indent, t) := indentation t
  let (exporting, t) ← spacedWord? exportWord t
  let (defaulting, t) ← word? defaultWord t
  if atWordEnd t then return ⟨indent, exporting ++ (defaulting ++ (blanks t).1)⟩ else none

def functionMark? (t : Text) : Option Reading := do
  let (word, t) ← word? functionWord t
  let (gap, t) := blanks t
  let (star, t) := optionalChar '*' t
  return (word ++ (gap ++ star), t)

def asyncFunctionMark? (t : Text) : Option Reading := do
  let (asynchrony, t) := optionalReading (spacedWord? asyncWord) t
  let (mark, t) ← functionMark? t
  return (asynchrony ++ mark, t)

def bindingWord? (t : Text) : Option Reading := bindingWords.findSome? fun word => word? word t

structure ExportedDeclaration where
  indent : Text
  keyword : Text
  kind : Text
  name : Text
  deriving Repr, DecidableEq

def ExportedDeclaration.text (d : ExportedDeclaration) : Text :=
  d.indent ++ (d.keyword ++ (d.kind ++ d.name))

def exportedDeclaration? (t : Text) : Option ExportedDeclaration := do
  let (indent, t) := indentation t
  let (keyword, t) ← spacedWord? exportWord t
  let (kind, t) ← (asyncFunctionMark? t).or (bindingWord? t)
  let (gap, t) := blanks t
  let (name, _) ← name? t
  return ⟨indent, keyword, kind ++ gap, name⟩

/-- An export list with the rest of its line, if only a semicolon and blanks are left. -/
structure ExportList where
  indent : Text
  opening : Text
  items : Text
  closing : Text
  deriving Repr, DecidableEq

def ExportList.text (l : ExportList) : Text := l.indent ++ (l.opening ++ (l.items ++ l.closing))

def optionalLineEnd (t : Text) : Reading :=
  match t with
  | '\n' :: rest => (['\n'], rest)
  | '\r' :: '\n' :: rest => (['\r', '\n'], rest)
  | _ => ([], t)

def exportList? (t : Text) : Option ExportList := do
  let (indent, t) := indentation t
  let (keyword, t) ← word? exportWord t
  let (gap, t) := blanks t
  let (brace, t) ← word? ['{'] t
  let (items, t) := (t.takeWhile (· ≠ '}'), t.dropWhile (· ≠ '}'))
  let (closed, t) ← word? ['}'] t
  let (before, t) := indentation t
  let (mark, t) := optionalChar ';' t
  let (behind, t) := indentation t
  let (line, _) := optionalLineEnd t
  return ⟨indent, keyword ++ (gap ++ brace), items,
    closed ++ (before ++ (mark ++ (behind ++ line)))⟩

/-- A declaration, exported or not, through the first name that it declares. -/
structure Declaration where
  lead : Text
  keyword : Text
  name : Text
  deriving Repr, DecidableEq

def Declaration.text (d : Declaration) : Text := d.lead ++ (d.keyword ++ d.name)

def functionKeyword? (t : Text) : Option Reading := do
  let (mark, rest) ← functionMark? t
  let (gap, rest) := blanks rest
  if atWordEnd (t.drop functionWord.length) then return (mark ++ gap, rest) else none

def declarationKeyword? (t : Text) : Option Reading :=
  (functionKeyword? t).or (bindingWords.findSome? fun word => spacedWord? word t)

def declaration? (t : Text) : Option Declaration := do
  let (indent, t) := indentation t
  let (exporting, t) := optionalReading (spacedWord? exportWord) t
  let (asynchrony, t) := optionalReading (spacedWord? asyncWord) t
  let (keyword, t) ← declarationKeyword? t
  let (name, _) ← name? t
  return ⟨indent ++ (exporting ++ asynchrony), keyword, name⟩

end ComponentBundle.Module
