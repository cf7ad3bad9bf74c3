import ComponentBundle.Proofs.DefaultBlocks
import ComponentBundle.Proofs.Splitting

/-!
Lists of members in braces, as they are written: names, each of them perhaps renamed, with commas
between them and any white space around. What a list is cut into are its members, and in an export
list each of them becomes a field.
-/
namespace ComponentBundle.Module
open ComponentBundle.Text ComponentBundle.Source

theorem listItems_append (a b : Text) : listItems (a ++ ',' :: b) = listItems a ++ listItems b := by
  rw [listItems, splitOn_append_cons, List.map_append, List.filter_append]
  rfl

theorem listItems_free {t : Text} (free : ',' ∉ t) :
    listItems t = if (trim t).isEmpty then [] else [trim t] := by
  have whole : splitOn ',' t = [t] := by
    have cut : splitOn ',' (join [','] [t]) = [t] :=
      splitOn_join (List.cons_ne_nil t []) (List.forall_mem_singleton.2 free)
    simpa [join] using cut
  rw [listItems, whole, List.map_singleton]
  cases empty : (trim t).isEmpty <;> simp [empty]

theorem isBlank_of_isGap {c : Char} (gap : isGap c) : isBlank c := by
  simp only [isGap, Bool.or_eq_true, decide_eq_true_eq] at gap
  rcases gap with (((rfl | rfl) | rfl) | rfl) | rfl <;> decide

/-- White space between words and marks. -/
structure Gap where
  text : Text
  blank : ∀ c ∈ text, isGap c

def Gap.nothing : Gap := ⟨[], List.forall_mem_nil _⟩

/-- White space between two words. -/
structure Space extends Gap where
  filled : text ≠ []

structure Name where
  text : Text
  named : Named text

/-- A name, or one name that stands for another. -/
inductive Member where
  | plain (name : Name)
  | renamed (name : Name) (before behind : Space) (alias_ : Name)

/-- Members with commas between them; one comma may stand behind the last. -/
inductive MemberList where
  | done (gap : Gap)
  | last (before : Gap) (member : Member) (behind : Gap)
  | next (before : Gap) (member : Member) (behind : Gap) (more : MemberList)

def Member.text : Member → Text
  | .plain name => name.text
  | .renamed name before behind alias_ =>
    name.text ++ (before.text ++ 'a' :: 's' :: (behind.text ++ alias_.text))

def Member.binding : Member → MemberBinding
  | .plain name => ⟨name.text, name.text⟩
  | .renamed name _ _ alias_ => ⟨name.text, alias_.text⟩

def MemberList.text : MemberList → Text
  | .done gap => gap.text
  | .last before member behind => before.text ++ (member.text ++ behind.text)
  | .next before member behind more =>
    before.text ++ (member.text ++ behind.text) ++ ',' :: more.text

def MemberList.members : MemberList → List Member
  | .done _ => []
  | .last _ member _ => [member]
  | .next _ member _ more => member :: more.members

def isSpelled (c : Char) : Bool := continuesName c || isGap c

theorem Gap.blanks (gap : Gap) : ∀ c ∈ gap.text, isBlank c :=
  fun c inside => isBlank_of_isGap (gap.blank c inside)

theorem Gap.spelled (gap : Gap) : ∀ c ∈ gap.text, isSpelled c := by
  intro c inside
  rw [isSpelled, gap.blank c inside, Bool.or_true]

theorem continuesName_of_isNameStart {c : Char} (start : isNameStart c) : continuesName c := by
  have narrow : c.toNat < 0x80 := by
    cases wide : isWide c with
    | false => simpa [isWide] using wide
    | true =>
      rw [isNameStart_of_wide wide] at start
      contradiction
  simp only [isNameStart, Bool.or_eq_true, decide_eq_true_eq] at start
  simp only [continuesName, isWord_of_ascii c narrow, isAsciiWord, Char.isAlphanum,
    Bool.or_eq_true, decide_eq_true_eq]
  rcases start with (letter | underscore) | dollar
  · exact Or.inl (Or.inl (Or.inl letter))
  · exact Or.inl (Or.inr underscore)
  · exact Or.inr dollar

theorem Name.chars (name : Name) : ∀ c ∈ name.text, continuesName c := by
  obtain ⟨t, start, chars⟩ := name
  cases t with
  | nil => simp
  | cons c t => exact List.forall_mem_cons.2 ⟨continuesName_of_isNameStart start, chars⟩

theorem visible_of_continuesName {c : Char} (name : continuesName c) : isBlank c = false := by
  cases blank : isBlank c with
  | false => rfl
  | true =>
    rw [not_continuesName_of_blank blank] at name
    contradiction

theorem Name.filled (name : Name) : name.text ≠ [] := by
  obtain ⟨t, start, -⟩ := name
  rintro rfl
  contradiction

theorem Name.spelled (name : Name) : ∀ c ∈ name.text, isSpelled c := by
  intro c inside
  rw [isSpelled, name.chars c inside, Bool.true_or]

theorem Name.read (name : Name) {rest : Text} (ends : rest.head?.any continuesName = false) :
    name? (name.text ++ rest) = some (name.text, rest) :=
  name?_eq_some_iff.2 ⟨name.named, ends, rfl⟩

structure Shown (t : Text) : Prop where
  starts : t.head?.any fun c => !isBlank c
  ends : t.getLast?.any fun c => !isBlank c

theorem Shown.trim {t : Text} (shown : Shown t) : trim t = t := by
  have whole := trim_append shown.starts shown.ends (List.forall_mem_nil _)
  rwa [List.append_nil] at whole

theorem Shown.filled {t : Text} (shown : Shown t) : t ≠ [] := by
  rintro rfl
  exact absurd shown.starts (by decide)

theorem Shown.head {t : Text} (shown : Shown t) (rest : Text) :
    (t ++ rest).head?.any isBlank = false := by
  have starts := shown.starts
  rw [List.head?_append, List.head?_eq_some_head shown.filled]
  rw [List.head?_eq_some_head shown.filled] at starts
  simpa using starts

theorem Shown.append {a b : Text} (first : Shown a) (last : Shown b) (inside : Text) :
    Shown (a ++ (inside ++ b)) where
  starts := by
    rw [List.head?_append, List.head?_eq_some_head first.filled, Option.some_or,
      ← List.head?_eq_some_head first.filled]
    exact first.starts
  ends := by
    rw [← List.append_assoc, List.getLast?_append, List.getLast?_eq_some_getLast last.filled,
      Option.some_or, ← List.getLast?_eq_some_getLast last.filled]
    exact last.ends

theorem Name.shown (name : Name) : Shown name.text where
  starts := by
    rw [List.head?_eq_some_head name.filled, Option.any_some,
      visible_of_continuesName (name.chars _ (List.head_mem name.filled))]
    rfl
  ends := by
    rw [List.getLast?_eq_some_getLast name.filled, Option.any_some,
      visible_of_continuesName (name.chars _ (List.getLast_mem name.filled))]
    rfl

theorem Member.shown : ∀ member : Member, Shown member.text
  | .plain name => name.shown
  | .renamed name before behind alias_ => by
    have whole := name.shown.append alias_.shown (before.text ++ 'a' :: 's' :: behind.text)
    rw [List.append_assoc, List.cons_append, List.cons_append] at whole
    exact whole

theorem Member.spelled : ∀ member : Member, ∀ c ∈ member.text, isSpelled c
  | .plain name => name.spelled
  | .renamed name before behind alias_ => by
    refine List.forall_mem_append.2 ⟨name.spelled, List.forall_mem_append.2 ⟨before.spelled, ?_⟩⟩
    refine List.forall_mem_cons.2 ⟨by decide, List.forall_mem_cons.2 ⟨by decide, ?_⟩⟩
    exact List.forall_mem_append.2 ⟨behind.spelled, alias_.spelled⟩

theorem not_mem_of_spelled {t : Text} (spelled : ∀ c ∈ t, isSpelled c) {mark : Char}
    (other : isSpelled mark = false) : mark ∉ t := by
  intro inside
  rw [spelled mark inside] at other
  contradiction

theorem listItems_gap (gap : Gap) : listItems gap.text = [] := by
  have empty : trim gap.text = [] := by
    have whole := trim_blank_append gap.blanks []
    rwa [List.append_nil] at whole
  rw [listItems_free (not_mem_of_spelled gap.spelled (by decide)), empty]
  rfl

theorem listItems_shown {t : Text} (shown : Shown t) (free : ',' ∉ t) (before behind : Gap) :
    listItems (before.text ++ (t ++ behind.text)) = [t] := by
  have whole : ',' ∉ before.text ++ (t ++ behind.text) := by
    simp only [List.mem_append, not_or]
    exact ⟨not_mem_of_spelled before.spelled (by decide), free,
      not_mem_of_spelled behind.spelled (by decide)⟩
  rw [listItems_free whole, trim_append_blank before.blanks behind.blanks, shown.trim,
    if_neg (by simpa using shown.filled)]

theorem Member.item (member : Member) (before behind : Gap) :
    listItems (before.text ++ (member.text ++ behind.text)) = [member.text] :=
  listItems_shown member.shown (not_mem_of_spelled member.spelled (by decide)) before behind

theorem MemberList.items (list : MemberList) :
    listItems list.text = list.members.map Member.text := by
  induction list with
  | done gap => exact listItems_gap gap
  | last before member behind => exact member.item before behind
  | next before member behind more ih =>
    rw [text, listItems_append, member.item, ih]
    rfl

theorem Space.cons (space : Space) : ∃ c more, space.text = c :: more ∧ isBlank c ∧
    ∀ d ∈ more, isBlank d := by
  obtain ⟨c, more, split⟩ := List.exists_cons_of_ne_nil space.filled
  have blank := space.blanks
  rw [split] at blank
  exact ⟨c, more, split, List.forall_mem_cons.1 blank⟩

theorem Member.read (member : Member) : memberBinding? member.text = some member.binding := by
  cases member with
  | plain name =>
    have found : name? (name.text ++ []) = some (name.text, []) := name.read rfl
    rw [List.append_nil] at found
    rw [Member.text, memberBinding?, found]
    rfl
  | renamed name before behind alias_ =>
    obtain ⟨c, more, first, blank, blanks⟩ := before.cons
    obtain ⟨d, others, second, gap, gaps⟩ := behind.cons
    have last : name? alias_.text = some (alias_.text, []) := by
      have found : name? (alias_.text ++ []) = some (alias_.text, []) := alias_.read rfl
      rwa [List.append_nil] at found
    have toAlias : trimStart (others ++ alias_.text) = alias_.text :=
      dropWhile_append_of_head gaps (List.append_nil alias_.text ▸ alias_.shown.head [])
    have toWord : after? ['a', 's']
        (trimStart (more ++ 'a' :: 's' :: d :: (others ++ alias_.text)))
          = some (d :: (others ++ alias_.text)) :=
      after?_eq_some_iff.2 (dropWhile_append_of_head blanks rfl)
    have found : name? (name.text ++ c :: (more ++ 'a' :: 's' :: d :: (others ++ alias_.text)))
        = some (name.text, c :: (more ++ 'a' :: 's' :: d :: (others ++ alias_.text))) :=
      name.read (by simp [not_continuesName_of_blank blank])
    rw [Member.text, first, second, List.cons_append, List.cons_append, memberBinding?, found]
    simp only [blank, if_true, toWord, gap, toAlias, last]
    rfl

/-! The fields that the members of an export list become. -/

theorem splitFirst?_split {needle t before rest : Text}
    (h : splitFirst? needle t = some (before, rest)) : t = before ++ (needle ++ rest) := by
  induction t generalizing before with
  | nil =>
    obtain ⟨behind, found, same⟩ := Option.map_eq_some_iff.1 h
    obtain ⟨rfl, rfl⟩ := Prod.mk.inj same
    rw [List.nil_append]
    exact after?_eq_some_iff.1 found
  | cons c t ih =>
    rw [splitFirst?] at h
    split at h
    · rename_i behind found
      obtain ⟨rfl, rfl⟩ := Prod.mk.inj (Option.some.inj h)
      rw [List.nil_append]
      exact after?_eq_some_iff.1 found
    · obtain ⟨⟨front, behind⟩, found, same⟩ := Option.map_eq_some_iff.1 h
      obtain ⟨rfl, rfl⟩ := Prod.mk.inj same
      rw [ih found, List.cons_append]

/-- The field that a member adds. What stands next to the word `as` has to be a space. -/
def Member.field : Member → Text
  | .plain name => name.text
  | .renamed name before behind alias_ =>
    if before.text.getLast? = some ' ' ∧ behind.text.head? = some ' ' then
      alias_.text ++ ([':', ' '] ++ name.text)
    else (Member.renamed name before behind alias_).text

theorem Name.spaceless (name : Name) : ' ' ∉ name.text := by
  intro inside
  exact absurd (name.chars ' ' inside) (by decide)

theorem Name.splitFirst? (name : Name) (t : Text) :
    Text.splitFirst? aliasWord (name.text ++ t)
      = (Text.splitFirst? aliasWord t).map fun (before, rest) => (name.text ++ before, rest) :=
  splitFirst?_append name.spaceless t

theorem splitFirst?_gap {gap : Text} (blank : ∀ c ∈ gap, isGap c) (filled : gap ≠ []) (t : Text) :
    splitFirst? aliasWord (gap ++ 'a' :: 's' :: t) =
      if gap.getLast? = some ' ' ∧ t.head? = some ' ' then some (gap.dropLast, t.tail)
      else (splitFirst? aliasWord ('a' :: 's' :: t)).map fun (before, rest) =>
        (gap ++ before, rest) := by
  induction gap with
  | nil => exact absurd rfl filled
  | cons c gap ih =>
    cases gap with
    | nil =>
      by_cases marked : c = ' ' ∧ t.head? = some ' '
      · obtain ⟨rfl, head⟩ := marked
        obtain ⟨rest, rfl⟩ := List.head?_eq_some_iff.1 head
        rfl
      · have none_ : after? aliasWord (c :: 'a' :: 's' :: t) = none := by
          rw [Option.eq_none_iff_forall_ne_some]
          intro rest found
          have whole : c :: 'a' :: 's' :: t = ' ' :: 'a' :: 's' :: ' ' :: rest :=
            after?_eq_some_iff.1 found
          obtain ⟨rfl, behind⟩ := List.cons.inj whole
          obtain rfl : t = ' ' :: rest := by simpa using behind
          exact marked ⟨rfl, rfl⟩
        rw [if_neg (by simpa using marked), List.singleton_append, splitFirst?, none_]
        rfl
    | cons d gap =>
      have other : 'a' ≠ d := by
        rintro rfl
        exact absurd (blank 'a' (by simp)) (by decide)
      have none_ : after? aliasWord (c :: d :: (gap ++ 'a' :: 's' :: t)) = none := by
        rw [Option.eq_none_iff_forall_ne_some]
        intro rest found
        have whole : c :: d :: (gap ++ 'a' :: 's' :: t) = ' ' :: 'a' :: 's' :: ' ' :: rest :=
          after?_eq_some_iff.1 found
        exact other (List.cons.inj (List.cons.inj whole).2).1.symm
      have later := ih (List.forall_mem_cons.1 blank).2 (by simp)
      rw [List.cons_append] at later
      rw [List.cons_append, List.cons_append, splitFirst?, none_]
      simp only [later]
      rw [List.getLast?_cons_cons]
      split
      · rfl
      · rw [Option.map_map]
        rfl

theorem splitFirst?_alias (space : Space) (name : Name) :
    splitFirst? aliasWord ('a' :: 's' :: (space.text ++ name.text)) = none := by
  rw [Option.eq_none_iff_forall_ne_some]
  rintro ⟨before, rest⟩ found
  have spaceless := name.spaceless
  match before, splitFirst?_split found with
  | [], split => simp [aliasWord] at split
  | [_], split => simp [aliasWord] at split
  | _ :: _ :: before, split =>
    obtain ⟨-, -, split⟩ := List.cons_eq_cons.1 split |>.imp_right List.cons_eq_cons.1
    rcases List.append_eq_append_iff.1 split with ⟨extra, -, inName⟩ | ⟨extra, inSpace, inName⟩
    · rw [inName] at spaceless
      simp [aliasWord] at spaceless
    · match extra, inName with
      | [], inName =>
        rw [List.nil_append] at inName
        rw [← inName] at spaceless
        simp [aliasWord] at spaceless
      | [_], inName =>
        have whole : 'a' :: 's' :: ' ' :: rest = name.text := (List.cons.inj inName).2
        rw [← whole] at spaceless
        simp at spaceless
      | _ :: d :: extra, inName =>
        obtain ⟨-, inName⟩ := List.cons.inj inName
        obtain ⟨rfl, -⟩ := List.cons.inj inName
        have letter := space.blank 'a' (by simp [inSpace])
        exact absurd letter (by decide)

theorem Member.listField (member : Member) : Module.listField member.text = member.field := by
  cases member with
  | plain name =>
    have none_ := name.splitFirst? []
    rw [List.append_nil] at none_
    rw [Module.listField, text, none_]
    rfl
  | renamed name before behind alias_ =>
    have found := splitFirst?_gap before.blank before.filled (behind.text ++ alias_.text)
    rw [splitFirst?_alias] at found
    have cut := name.splitFirst?
      (before.text ++ 'a' :: 's' :: (behind.text ++ alias_.text))
    rw [found] at cut
    have head : (behind.text ++ alias_.text).head? = behind.text.head? :=
      List.head?_append_of_ne_nil _ behind.filled
    rw [Module.listField, text, cut, head, field]
    by_cases spaced : before.text.getLast? = some ' ' ∧ behind.text.head? = some ' '
    · have nameLeft : trim (name.text ++ before.text.dropLast) = name.text :=
        trim_append name.shown.starts name.shown.ends fun c inside =>
          before.blanks c (List.dropLast_subset _ inside)
      have aliasLeft : trim ((behind.text ++ alias_.text).tail) = alias_.text := by
        rw [List.tail_append_of_ne_nil behind.filled, trim_blank_append fun c inside =>
          behind.blanks c (List.mem_of_mem_tail inside)]
        exact alias_.shown.trim
      rw [if_pos spaced, if_pos spaced]
      simp only [Option.map_some, nameLeft, aliasLeft]
    · rw [if_neg spaced, if_neg spaced]
      rfl

end ComponentBundle.Module
