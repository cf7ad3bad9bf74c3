import ComponentBundle.Source.Character
import ComponentBundle.Text.Search

/-!
Where a delimited piece of source ends. Each function reads what follows an opening
delimiter and gives the text after the closing one, or nothing if it never closes.
A character after an escape never closes anything.
-/
namespace ComponentBundle.Source
open ComponentBundle.Text

def afterLine (t : Text) : Text := t.dropWhile (· ≠ '\n')

def afterBlockComment? (t : Text) : Option Text := afterFirst? ['*', '/'] t

def afterQuoted? (quote : Char) : Text → Option Text
  | [] => none
  | [c] => if c = quote then some [] else none
  | c :: d :: t =>
    if c = escape then afterQuoted? quote t
    else if c = '\n' then none
    else if c = quote then some (d :: t)
    else afterQuoted? quote (d :: t)

/-- What is open inside a backtick literal: the literal itself, or a brace of one of
    its interpolations. -/
inductive Enclosure where
  | literal
  | brace
  deriving Repr, DecidableEq

theorem afterQuoted?_suffix {quote : Char} {t rest : Text} (h : afterQuoted? quote t = some rest) :
    rest <:+ t := by
  fun_induction afterQuoted? quote t with
  | case4 d t ih => exact (ih h).trans ((List.suffix_cons _ _).trans (List.suffix_cons _ _))
  | case7 c d t _ _ _ ih => exact (ih h).trans (List.suffix_cons _ _)
  | _ => simp_all

/-- Reads until everything that is open has closed, the innermost first. A quote that
    opens no literal inside an interpolation is an ordinary character. -/
def afterEnclosures? (opened : List Enclosure) (t : Text) : Option Text :=
  match opened, t with
  | [], rest => some rest
  | _ :: _, [] => none
  | .literal :: outer, c :: t =>
    if c = escape then afterEnclosures? (.literal :: outer) t.tail
    else if c = backtick then afterEnclosures? outer t
    else if c = '$' && t.head? = some '{' then
      afterEnclosures? (.brace :: .literal :: outer) t.tail
    else afterEnclosures? (.literal :: outer) t
  | .brace :: outer, c :: t =>
    if c = '{' then afterEnclosures? (.brace :: .brace :: outer) t
    else if c = '}' then afterEnclosures? outer t
    else if c = backtick then afterEnclosures? (.literal :: .brace :: outer) t
    else if isQuote c then
      match _closed : afterQuoted? c t with
      | some rest => afterEnclosures? (.brace :: outer) rest
      | none => afterEnclosures? (.brace :: outer) t
    else afterEnclosures? (.brace :: outer) t
termination_by t.length
decreasing_by
  all_goals simp only [List.length_cons, List.length_tail]
  all_goals try omega
  have := (afterQuoted?_suffix _closed).length_le
  omega

theorem afterEnclosures?_suffix {opened : List Enclosure} {t rest : Text}
    (h : afterEnclosures? opened t = some rest) : rest <:+ t := by
  fun_induction afterEnclosures? opened t with
  | case1 => simp_all
  | case2 => simp at h
  | case3 outer t ih => exact (ih h).trans ((List.tail_suffix t).trans (List.suffix_cons _ _))
  | case5 outer c t _ _ _ ih =>
    exact (ih h).trans ((List.tail_suffix t).trans (List.suffix_cons _ _))
  | case10 outer c t _ _ _ _ after closed ih =>
    exact (ih h).trans ((afterQuoted?_suffix closed).trans (List.suffix_cons _ _))
  | _ => rename_i ih; exact (ih h).trans (List.suffix_cons _ _)

def afterVerbatim? (t : Text) : Option Text := afterEnclosures? [.literal] t

def templateTag : Text := ['<', 't', 'e', 'm', 'p', 'l', 'a', 't', 'e']

def templateEndTag : Text := ['<', '/', 't', 'e', 'm', 'p', 'l', 'a', 't', 'e', '>']

def opensTemplate (t : Text) : Bool :=
  match after? templateTag t with
  | some (c :: _) => c = '>' || c = ' ' || c = '\t' || c = '\n' || c = '\r'
  | _ => false

def afterTemplates? (depth : Nat) : Text → Option Text
  | [] => none
  | c :: t =>
    match after? templateEndTag (c :: t), depth with
    | some rest, 0 => some rest
    | some _, depth + 1 => afterTemplates? depth t
    | none, depth =>
      afterTemplates? (if opensTemplate (c :: t) then depth + 1 else depth) t

theorem afterTemplates?_suffix {depth : Nat} {t rest : Text}
    (h : afterTemplates? depth t = some rest) : rest <:+ t := by
  fun_induction afterTemplates? depth t with
  | case1 => simp at h
  | case2 c t after split => exact Option.some.inj h ▸ after?_suffix split
  | case3 c t _ _ _ ih => exact (ih h).trans (List.suffix_cons _ _)
  | case4 c t _ _ ih => exact (ih h).trans (List.suffix_cons _ _)

/-- What follows two braces: with a third one it closes with three, else with two. -/
def afterMustache? : Text → Option Text
  | '{' :: t => afterFirst? ['}', '}', '}'] t
  | t => afterFirst? ['}', '}'] t

theorem afterMustache?_suffix {t rest : Text} (h : afterMustache? t = some rest) :
    rest <:+ t := by
  unfold afterMustache? at h
  split at h
  · exact (afterFirst?_suffix h).trans (List.suffix_cons _ _)
  · exact afterFirst?_suffix h

/-- A pattern closes on its own line with a slash outside its character classes, and
    its flags belong to it. -/
def afterPattern? (inClass : Bool) : Text → Option Text
  | [] => none
  | [c] => if c = '/' && !inClass then some [] else none
  | c :: d :: t =>
    if c = escape then afterPattern? inClass t
    else if c = '\n' || c = '\r' then none
    else if c = '/' && !inClass then some ((d :: t).dropWhile isNameChar)
    else afterPattern? (if c = '[' then true else if c = ']' then false else inClass) (d :: t)

theorem afterPattern?_suffix {inClass : Bool} {t rest : Text}
    (h : afterPattern? inClass t = some rest) : rest <:+ t := by
  fun_induction afterPattern? inClass t with
  | case4 inClass d t ih => exact (ih h).trans ((List.suffix_cons _ _).trans (List.suffix_cons _ _))
  | case6 inClass c d t =>
    exact Option.some.inj h ▸ (List.dropWhile_suffix _).trans (List.suffix_cons _ _)
  | case7 inClass c d t _ _ _ ih => exact (ih h).trans (List.suffix_cons _ _)
  | _ => simp_all

/-- Round brackets balance outside quoted and verbatim literals; `depth` of them are
    open besides the outermost. -/
def afterParens? (depth : Nat) (t : Text) : Option Text :=
  match t with
  | [] => none
  | c :: t =>
    if c = '(' then afterParens? (depth + 1) t
    else if c = ')' then
      match depth with
      | 0 => some t
      | depth + 1 => afterParens? depth t
    else if c = backtick then
      match _closed : afterVerbatim? t with
      | some rest => afterParens? depth rest
      | none => none
    else if isQuote c then
      match _closed : afterQuoted? c t with
      | some rest => afterParens? depth rest
      | none => none
    else afterParens? depth t
termination_by t.length
decreasing_by
  all_goals simp only [List.length_cons]
  all_goals try omega
  · have := (afterEnclosures?_suffix _closed).length_le
    omega
  · have := (afterQuoted?_suffix _closed).length_le
    omega

theorem afterParens?_suffix {depth : Nat} {t rest : Text} (h : afterParens? depth t = some rest) :
    rest <:+ t := by
  fun_induction afterParens? depth t with
  | case3 t => exact Option.some.inj h ▸ List.suffix_cons _ _
  | case5 depth t after closed _ _ ih =>
    exact (ih h).trans ((afterEnclosures?_suffix closed).trans (List.suffix_cons _ _))
  | case7 depth c t _ _ _ _ after closed ih =>
    exact (ih h).trans ((afterQuoted?_suffix closed).trans (List.suffix_cons _ _))
  | case2 depth t ih => exact (ih h).trans (List.suffix_cons _ _)
  | case4 t depth _ ih => exact (ih h).trans (List.suffix_cons _ _)
  | case9 depth c t _ _ _ _ ih => exact (ih h).trans (List.suffix_cons _ _)
  | _ => simp at h

def afterDottedName : Text → Text
  | [] => []
  | c :: t =>
    if isNameChar c then afterDottedName t
    else if c = '.' && t.head?.any isNameStart then afterDottedName t
    else c :: t

theorem afterDottedName_suffix (t : Text) : afterDottedName t <:+ t := by
  fun_induction afterDottedName t with
  | case1 => exact List.suffix_refl _
  | case2 c t _ ih => exact ih.trans (List.suffix_cons _ _)
  | case3 c t _ _ ih => exact ih.trans (List.suffix_cons _ _)
  | case4 c t => exact List.suffix_refl _

end ComponentBundle.Source
