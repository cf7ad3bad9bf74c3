import ComponentBundle.Proofs.MemberLists

/-!
The clause of an import statement, as it is written: a default name, all of the other module under
one name, members in braces, or a default name before either of them. The names that it brings are
those that it was written with.
-/
namespace ComponentBundle.Module
open ComponentBundle.Text ComponentBundle.Source

/-- A name that is no mark of an import of types. -/
structure DefaultName extends Name where
  free : text ≠ ['t', 'y', 'p', 'e']

/-- What a clause holds besides a default name. -/
inductive ClausePart where
  | all (gap : Gap) (space : Space) (name : Name)
  | members (list : MemberList)

inductive Clause where
  | default (name : DefaultName)
  | alone (part : ClausePart)
  | both (name : DefaultName) (before behind : Gap) (part : ClausePart)

def ClausePart.text : ClausePart → Text
  | .all gap space name => '*' :: (gap.text ++ 'a' :: 's' :: (space.text ++ name.text))
  | .members list => '{' :: (list.text ++ ['}'])

def Clause.text : Clause → Text
  | .default name => name.text
  | .alone part => part.text
  | .both name before behind part =>
    name.text ++ (before.text ++ ',' :: (behind.text ++ part.text))

def ClausePart.bindings (name : Option Text) : ClausePart → Bindings
  | .all _ _ space => ⟨name, some space.text, []⟩
  | .members list => ⟨name, none, list.members.map Member.binding⟩

def Clause.bindings : Clause → Bindings
  | .default name => ⟨some name.text, none, []⟩
  | .alone part => part.bindings none
  | .both name _ _ part => part.bindings (some name.text)

theorem splitFirst?_free {mark : Char} {t : Text} (free : mark ∉ t) :
    splitFirst? [mark] t = none := by
  have whole : splitFirst? [mark] (t ++ []) = none := splitFirst?_append free []
  rwa [List.append_nil] at whole

theorem splitFirst?_mark {mark : Char} {a : Text} (free : mark ∉ a) (b : Text) :
    splitFirst? [mark] (a ++ mark :: b) = some (a, b) := by
  have here : splitFirst? [mark] (mark :: b) = some ([], b) := by simp [splitFirst?, after?]
  rw [splitFirst?_append free, here]
  simp

theorem MemberList.spelled (list : MemberList) : ∀ c ∈ list.text, isSpelled c ∨ c = ',' := by
  have item (before : Gap) (member : Member) (behind : Gap) :
      ∀ c ∈ before.text ++ (member.text ++ behind.text), isSpelled c ∨ c = ',' := by
    intro c inside
    left
    rcases List.mem_append.1 inside with gap | inside
    · exact before.spelled c gap
    · rcases List.mem_append.1 inside with named | gap
      · exact member.spelled c named
      · exact behind.spelled c gap
  induction list with
  | done gap => exact fun c inside => Or.inl (gap.spelled c inside)
  | last before member behind => exact item before member behind
  | next before member behind more ih =>
    exact List.forall_mem_append.2 ⟨item before member behind, List.forall_mem_cons.2
      ⟨Or.inr rfl, ih⟩⟩

def isClauseChar (c : Char) : Bool :=
  isSpelled c || c = ',' || c = '*' || c = '{' || c = '}'

theorem isClauseChar_of_isSpelled {c : Char} (spelled : isSpelled c) : isClauseChar c := by
  simp [isClauseChar, spelled]

theorem spelled_behind_star (gap : Gap) (space : Space) (name : Name) :
    ∀ c ∈ gap.text ++ 'a' :: 's' :: (space.text ++ name.text), isSpelled c := by
  refine List.forall_mem_append.2 ⟨gap.spelled, List.forall_mem_cons.2 ⟨by decide, ?_⟩⟩
  exact List.forall_mem_cons.2 ⟨by decide, List.forall_mem_append.2 ⟨space.spelled, name.spelled⟩⟩

theorem ClausePart.chars : ∀ part : ClausePart, ∀ c ∈ part.text, isClauseChar c
  | .all gap space name => by
    refine List.forall_mem_cons.2 ⟨by decide, fun c inside => ?_⟩
    exact isClauseChar_of_isSpelled (spelled_behind_star gap space name c inside)
  | .members list => by
    refine List.forall_mem_cons.2 ⟨by decide, List.forall_mem_append.2 ⟨?_, ?_⟩⟩
    · intro c inside
      rcases list.spelled c inside with spelled | rfl
      · exact isClauseChar_of_isSpelled spelled
      · decide
    · exact List.forall_mem_singleton.2 (by decide)

theorem Clause.chars : ∀ clause : Clause, ∀ c ∈ clause.text, isClauseChar c
  | .default name => fun c inside => isClauseChar_of_isSpelled (name.spelled c inside)
  | .alone part => part.chars
  | .both name before behind part => by
    refine List.forall_mem_append.2 ⟨?_, List.forall_mem_append.2 ⟨?_, List.forall_mem_cons.2
      ⟨by decide, List.forall_mem_append.2 ⟨?_, part.chars⟩⟩⟩⟩
    · exact fun c inside => isClauseChar_of_isSpelled (name.spelled c inside)
    · exact fun c inside => isClauseChar_of_isSpelled (before.spelled c inside)
    · exact fun c inside => isClauseChar_of_isSpelled (behind.spelled c inside)

theorem ClausePart.shown : ∀ part : ClausePart, Shown part.text
  | .all gap space name => by
    have star : Shown ['*'] := ⟨by decide, by decide⟩
    have whole := star.append name.shown (gap.text ++ 'a' :: 's' :: space.text)
    rw [List.append_assoc, List.cons_append, List.cons_append] at whole
    exact whole
  | .members list => by
    have opener : Shown ['{'] := ⟨by decide, by decide⟩
    have closer : Shown ['}'] := ⟨by decide, by decide⟩
    exact opener.append closer list.text

theorem Clause.shown : ∀ clause : Clause, Shown clause.text
  | .default name => name.toName.shown
  | .alone part => part.shown
  | .both name before behind part => by
    have whole := name.shown.append part.shown (before.text ++ ',' :: behind.text)
    rw [List.append_assoc, List.cons_append] at whole
    exact whole

theorem addPart_default (bindings : Bindings) (name : DefaultName) :
    addPart bindings name.text = { bindings with defaultName := some name.text } := by
  have other : '*' ∉ name.text := not_mem_of_spelled name.spelled (by decide)
  unfold addPart
  split
  · rename_i star
    rw [star] at other
    exact absurd List.mem_cons_self other
  · exact if_neg name.free

theorem dropAliasWord_blank {c : Char} (blank : isBlank c) (t : Text) :
    dropAliasWord (c :: t) = c :: t := by
  unfold dropAliasWord
  split
  · rename_i same
    rw [(List.cons.inj same).1] at blank
    exact absurd blank (by decide)
  · rfl

theorem addPart_all (bindings : Bindings) (gap : Gap) (space : Space) (name : Name) :
    addPart bindings (ClausePart.all gap space name).text
      = { bindings with namespaceName := some name.text } := by
  obtain ⟨c, more, first, blank, blanks⟩ := space.cons
  have visible : Shown ('a' :: 's' :: (space.text ++ name.text)) :=
    Shown.append (a := ['a']) ⟨by decide, by decide⟩ name.shown ('s' :: space.text)
  have left : trim (gap.text ++ 'a' :: 's' :: (space.text ++ name.text))
      = 'a' :: 's' :: (space.text ++ name.text) := by
    rw [trim_blank_append gap.blanks, visible.trim]
  have dropped : dropAliasWord ('a' :: 's' :: (space.text ++ name.text))
      = space.text ++ name.text := by
    rw [dropAliasWord, first, List.cons_append]
    exact dropAliasWord_blank blank _
  have named : trim (space.text ++ name.text) = name.text := by
    rw [trim_blank_append space.blanks, name.shown.trim]
  simp only [ClausePart.text, addPart, left, dropped, named]
  exact if_neg (by simpa using name.filled)

theorem all_free (gap : Gap) (space : Space) (name : Name) (mark : Char)
    (other : isSpelled mark = false) (star : mark ≠ '*') :
    mark ∉ (ClausePart.all gap space name).text := by
  rw [ClausePart.text, List.mem_cons, not_or]
  exact ⟨star, not_mem_of_spelled (spelled_behind_star gap space name) other⟩

theorem ofClause_free {t : Text} (shown : Shown t) (free : '{' ∉ t) :
    Bindings.ofClause t = (listItems t).foldl addPart ⟨none, none, []⟩ := by
  have none_ : bracedPart? t = none := by rw [bracedPart?, splitFirst?_free free]
  rw [Bindings.ofClause, shown.trim, none_]
  rfl

theorem ofClause_braces (head : Text) (free : '{' ∉ head) (list : MemberList)
    (shown : Shown (head ++ (ClausePart.members list).text)) :
    Bindings.ofClause (head ++ (ClausePart.members list).text) = (listItems head).foldl addPart
      ⟨none, none, list.members.map Member.binding⟩ := by
  have braced : bracedPart? (head ++ (ClausePart.members list).text) = some (head, list.text) := by
    rw [bracedPart?, ClausePart.text, splitFirst?_mark free]
    simp only [splitLast?_append List.not_mem_nil]
  have read : (listItems list.text).filterMap memberBinding?
      = list.members.map Member.binding := by
    rw [list.items, List.filterMap_map, ← List.filterMap_eq_map]
    exact List.filterMap_congr fun member _ => member.read
  rw [Bindings.ofClause, shown.trim, braced, ← read]
  rfl

theorem listItems_default (name : DefaultName) (behind : Gap) :
    listItems (name.text ++ behind.text) = [name.text] :=
  listItems_shown name.shown (not_mem_of_spelled name.spelled (by decide)) Gap.nothing behind

theorem listItems_all (before : Gap) (gap : Gap) (space : Space) (name : Name) :
    listItems (before.text ++ (ClausePart.all gap space name).text)
      = [(ClausePart.all gap space name).text] := by
  have one := listItems_shown (ClausePart.all gap space name).shown
    (all_free gap space name ',' (by decide) (by decide)) before Gap.nothing
  rwa [Gap.nothing, List.append_nil] at one

theorem Clause.read (clause : Clause) : Bindings.ofClause clause.text = clause.bindings := by
  have shown := clause.shown
  have braceless (name : DefaultName) (before behind : Gap) :
      '{' ∉ name.text ++ (before.text ++ ',' :: behind.text) := by
    simp only [List.mem_append, List.mem_cons, not_or]
    exact ⟨not_mem_of_spelled name.spelled (by decide),
      not_mem_of_spelled before.spelled (by decide), by decide,
      not_mem_of_spelled behind.spelled (by decide)⟩
  match clause with
  | .default name =>
    have one := listItems_default name Gap.nothing
    rw [Gap.nothing, List.append_nil] at one
    rw [text, ofClause_free name.shown (not_mem_of_spelled name.spelled (by decide)), one,
      List.foldl_cons, addPart_default]
    rfl
  | .alone (.all gap space name) =>
    have one : listItems (ClausePart.all gap space name).text
        = [(ClausePart.all gap space name).text] := listItems_all Gap.nothing gap space name
    have free := all_free gap space name '{' (by decide) (by decide)
    rw [text, ofClause_free (ClausePart.shown _) free, one, List.foldl_cons, addPart_all]
    rfl
  | .alone (.members list) => exact ofClause_braces [] (by simp) list shown
  | .both name before behind (.all gap space name') =>
    have whole : (both name before behind (.all gap space name')).text
        = (name.text ++ (before.text ++ ',' :: behind.text))
          ++ (ClausePart.all gap space name').text := by
      simp [text]
    have free := List.not_mem_append (braceless name before behind)
      (all_free gap space name' '{' (by decide) (by decide))
    rw [← whole] at free
    rw [ofClause_free shown free, text, ← List.append_assoc, listItems_append, listItems_default,
      listItems_all, List.singleton_append, List.foldl_cons, List.foldl_cons, addPart_default,
      addPart_all]
    rfl
  | .both name before behind (.members list) =>
    have whole : (both name before behind (.members list)).text
        = (name.text ++ (before.text ++ ',' :: behind.text))
          ++ (ClausePart.members list).text := by
      simp [text]
    rw [whole] at shown ⊢
    rw [ofClause_braces _ (braceless name before behind) list shown, ← List.append_assoc,
      listItems_append, listItems_default, listItems_gap, List.append_nil, List.foldl_cons,
      addPart_default]
    rfl

end ComponentBundle.Module
