import ComponentBundle.Proofs.Trimming
import ComponentBundle.Source.Lexer

/-!
What the closing functions read. A piece that closes is closed by its own text, so any other
text may follow it. Two kinds of pieces look further: a pattern and the name of a decorator go
on as long as name characters follow, and a quote in an interpolation looks for its
partner in the rest of its line.
-/
namespace ComponentBundle.Source
open ComponentBundle.Text

def ClosedBy (read : Text → Option Text) (inside : Text) : Prop :=
  ∀ other, read (inside ++ other) = some other

theorem after?_append {lead inside : Text} (long : lead.length ≤ inside.length) (other : Text) :
    after? lead (inside ++ other) = (after? lead inside).map (· ++ other) := by
  induction lead generalizing inside with
  | nil => rfl
  | cons a lead ih =>
    cases inside with
    | nil => simp at long
    | cons c inside =>
      rw [List.cons_append, after?, after?]
      split
      · exact ih (Nat.le_of_succ_le_succ long)
      · rfl

theorem afterFirst?_split {needle t rest : Text} (h : afterFirst? needle t = some rest) :
    ∃ front, t = front ++ (needle ++ rest) := by
  fun_induction afterFirst? needle t with
  | case1 => exact ⟨[], by rw [List.nil_append, after?_eq_some_iff.1 h]⟩
  | case2 c t after found =>
    obtain rfl := Option.some.inj h
    exact ⟨[], by rw [List.nil_append, after?_eq_some_iff.1 found]⟩
  | case3 c t _ ih =>
    obtain ⟨front, rfl⟩ := ih h
    exact ⟨c :: front, rfl⟩

theorem afterFirst?_closed {needle t rest : Text} (h : afterFirst? needle t = some rest) :
    ∃ inside, t = inside ++ rest ∧ needle.length ≤ inside.length ∧
      ClosedBy (afterFirst? needle) inside := by
  have here (other : Text) : afterFirst? needle (needle ++ other) = some other := by
    have starts : after? needle (needle ++ other) = some other := after?_eq_some_iff.2 rfl
    cases whole : needle ++ other with
    | nil => rw [afterFirst?, ← whole, starts]
    | cons c t => rw [afterFirst?, ← whole, starts]
  fun_induction afterFirst? needle t with
  | case1 => exact ⟨needle, after?_eq_some_iff.1 h, Nat.le_refl _, here⟩
  | case2 c t after found =>
    obtain rfl := Option.some.inj h
    exact ⟨needle, after?_eq_some_iff.1 found, Nat.le_refl _, here⟩
  | case3 c t absent ih =>
    obtain ⟨inside, rfl, long, closed⟩ := ih h
    have longer : needle.length ≤ (c :: inside).length := Nat.le_succ_of_le long
    refine ⟨c :: inside, rfl, longer, fun other => ?_⟩
    rw [← List.cons_append, after?_append longer, Option.map_eq_none_iff] at absent
    rw [List.cons_append, afterFirst?, ← List.cons_append, after?_append longer, absent]
    exact closed other

theorem afterMustache?_of_two {t : Text} (two : ∀ more, t ≠ '{' :: more) :
    afterMustache? t = afterFirst? ['}', '}'] t := by
  rw [afterMustache?]
  exact two

theorem afterMustache?_closed {t rest : Text} (h : afterMustache? t = some rest) :
    ∃ inside, t = inside ++ rest ∧ ClosedBy afterMustache? inside := by
  unfold afterMustache? at h
  split at h
  · obtain ⟨inside, rfl, -, closed⟩ := afterFirst?_closed h
    exact ⟨'{' :: inside, rfl, closed⟩
  · rename_i two
    obtain ⟨inside, rfl, long, closed⟩ := afterFirst?_closed h
    refine ⟨inside, rfl, fun other => ?_⟩
    cases inside with
    | nil => simp at long
    | cons c inside =>
      rw [List.cons_append, afterMustache?]
      · exact closed other
      · intro third same
        exact two (inside ++ rest) (by rw [(List.cons.inj same).1]; rfl)

theorem afterQuoted?_cons {quote : Char} (quotes : isQuote quote) (c : Char) (t : Text) :
    afterQuoted? quote (c :: t) = if c = escape then afterQuoted? quote t.tail
      else if c = '\n' then none else if c = quote then some t else afterQuoted? quote t := by
  have other : quote ≠ escape ∧ quote ≠ '\n' := by
    simp only [isQuote, Bool.or_eq_true, decide_eq_true_eq] at quotes
    rcases quotes with rfl | rfl <;> decide
  cases t with
  | cons d t => rfl
  | nil => grind [afterQuoted?]

theorem afterQuoted?_closed {quote : Char} (quotes : isQuote quote) {t rest : Text}
    (h : afterQuoted? quote t = some rest) :
    ∃ inside, t = inside ++ rest ∧ inside ≠ [] ∧ ClosedBy (afterQuoted? quote) inside := by
  have last (more : Text) : afterQuoted? quote ([quote] ++ more) = some more := by
    rw [List.singleton_append, afterQuoted?_cons quotes]
    simp only [isQuote, Bool.or_eq_true, decide_eq_true_eq] at quotes
    rcases quotes with rfl | rfl <;> rfl
  fun_induction afterQuoted? quote t with
  | case2 => exact ⟨[quote], by rw [← Option.some.inj h]; rfl, List.cons_ne_nil _ _, last⟩
  | case4 d t ih =>
    obtain ⟨inside, rfl, -, closed⟩ := ih h
    exact ⟨escape :: d :: inside, rfl, List.cons_ne_nil _ _, closed⟩
  | case6 d t => exact ⟨[quote], by rw [← Option.some.inj h]; rfl, List.cons_ne_nil _ _, last⟩
  | case7 c d t plain inLine open_ ih =>
    obtain ⟨inside, split, -, closed⟩ := ih h
    refine ⟨c :: inside, by rw [split]; rfl, List.cons_ne_nil _ _, fun more => ?_⟩
    rw [List.cons_append, afterQuoted?_cons quotes, if_neg plain, if_neg inLine, if_neg open_]
    exact closed more
  | _ => contradiction

def Unescaped (t : Text) : Prop := t.getLast? ≠ some escape

instance (t : Text) : Decidable (Unescaped t) := inferInstanceAs (Decidable (_ ≠ _))

theorem unescaped_append {a b : Text} (filled : b ≠ []) : Unescaped (a ++ b) ↔ Unescaped b := by
  have last := List.getLast?_eq_some_getLast filled
  rw [Unescaped, Unescaped, List.getLast?_append, last]
  rfl

theorem Unescaped.append {a b : Text} (first : Unescaped a) (last : Unescaped b) :
    Unescaped (a ++ b) := by
  cases b with
  | nil => rwa [List.append_nil]
  | cons c b => exact (unescaped_append (List.cons_ne_nil c b)).2 last

def QuotesAlike (rest other : Text) : Prop :=
  ∀ quote inside, isQuote quote → Unescaped inside →
    afterQuoted? quote (inside ++ rest) = none → afterQuoted? quote (inside ++ other) = none

theorem QuotesAlike.append {rest other t : Text} (alike : QuotesAlike rest other)
    (last : Unescaped t) : QuotesAlike (t ++ rest) (t ++ other) := by
  intro quote inside quotes unescaped
  rw [← List.append_assoc, ← List.append_assoc]
  exact alike quote _ quotes (unescaped.append last)

def Enclosed (opened : List Enclosure) (t rest : Text) : Prop :=
  ∃ inside, t = inside ++ rest ∧ (opened ≠ [] → inside ≠ []) ∧ Unescaped inside ∧
    ∀ other, QuotesAlike rest other → afterEnclosures? opened (inside ++ other) = some other

theorem Enclosed.step {opened next : List Enclosure} {t rest : Text} (h : Enclosed next t rest)
    (lead : Text) (filled : lead ≠ []) (last : next ≠ [] ∨ Unescaped lead)
    (same : ∀ u, afterEnclosures? opened (lead ++ u) = afterEnclosures? next u) :
    Enclosed opened (lead ++ t) rest := by
  obtain ⟨inside, rfl, nonempty, unescaped, closed⟩ := h
  refine ⟨lead ++ inside, (List.append_assoc ..).symm, fun _ => by simp [filled], ?_, ?_⟩
  · rcases last with more | last
    · exact (unescaped_append (nonempty more)).2 unescaped
    · exact last.append unescaped
  · intro other alike
    rw [List.append_assoc, same]
    exact closed other alike

theorem afterEnclosures?_closed {opened : List Enclosure} {t rest : Text}
    (h : afterEnclosures? opened t = some rest) : Enclosed opened t rest := by
  fun_induction afterEnclosures? opened t with
  | case1 t =>
    obtain rfl := Option.some.inj h
    refine ⟨[], rfl, fun filled => absurd rfl filled, by simp [Unescaped], fun other _ => ?_⟩
    rw [List.nil_append, afterEnclosures?]
  | case2 => contradiction
  | case3 outer t ih =>
    cases t with
    | nil => simp [afterEnclosures?] at h
    | cons d t =>
      refine (ih h).step [escape, d] (by simp) (Or.inl (by simp)) fun u => ?_
      rw [List.cons_append, afterEnclosures?, if_pos rfl]
      rfl
  | case4 outer t plain ih =>
    refine (ih h).step [backtick] (by simp) (Or.inr (by decide)) fun u => ?_
    rw [List.singleton_append, afterEnclosures?, if_neg plain, if_pos rfl]
  | case5 outer c t plain inside opens ih =>
    simp only [Bool.and_eq_true, decide_eq_true_eq] at opens
    obtain ⟨rfl, head⟩ := opens
    obtain ⟨t, rfl⟩ := List.head?_eq_some_iff.1 head
    refine (ih h).step ['$', '{'] (by simp) (Or.inl (by simp)) fun u => ?_
    rw [List.cons_append, afterEnclosures?, if_neg plain, if_neg inside, if_pos (by simp)]
    rfl
  | case6 outer c t plain inside opens ih =>
    obtain ⟨front, rfl, filled, unescaped, closed⟩ := ih h
    have filled := filled (List.cons_ne_nil _ _)
    refine ⟨c :: front, rfl, fun _ => List.cons_ne_nil _ _,
      (unescaped_append (a := [c]) filled).2 unescaped, fun other alike => ?_⟩
    obtain ⟨d, front, rfl⟩ := List.exists_cons_of_ne_nil filled
    rw [List.cons_append, afterEnclosures?, if_neg plain, if_neg inside,
      if_neg (by simpa using opens)]
    exact closed other alike
  | case7 outer t ih =>
    refine (ih h).step ['{'] (by simp) (Or.inl (by simp)) fun u => ?_
    rw [List.singleton_append, afterEnclosures?, if_pos rfl]
  | case8 outer t opens ih =>
    refine (ih h).step ['}'] (by simp) (Or.inr (by decide)) fun u => ?_
    rw [List.singleton_append, afterEnclosures?, if_neg opens, if_pos rfl]
  | case9 outer t opens closes ih =>
    refine (ih h).step [backtick] (by simp) (Or.inl (by simp)) fun u => ?_
    rw [List.singleton_append, afterEnclosures?, if_neg opens, if_neg closes, if_pos rfl]
  | case10 outer c t opens closes other quote after found ih =>
    obtain ⟨literal, rfl, -, literalClosed⟩ := afterQuoted?_closed quote found
    refine (ih h).step (c :: literal) (by simp) (Or.inl (by simp)) fun u => ?_
    rw [List.cons_append, afterEnclosures?, if_neg opens, if_neg closes, if_neg other, if_pos quote]
    split
    · rename_i found
      rw [literalClosed u] at found
      rw [Option.some.inj found]
    · rename_i found
      rw [literalClosed u] at found
      contradiction
  | case11 outer c t opens closes other quote absent ih =>
    obtain ⟨front, rfl, filled, unescaped, closed⟩ := ih h
    have filled := filled (List.cons_ne_nil _ _)
    refine ⟨c :: front, rfl, fun _ => List.cons_ne_nil _ _,
      (unescaped_append (a := [c]) filled).2 unescaped, fun more alike => ?_⟩
    rw [List.cons_append, afterEnclosures?, if_neg opens, if_neg closes, if_neg other, if_pos quote]
    split
    · rename_i found
      rw [alike c front quote unescaped absent] at found
      contradiction
    · exact closed more alike
  | case12 outer c t opens closes other quote ih =>
    refine (ih h).step [c] (by simp) (Or.inl (by simp)) fun u => ?_
    rw [List.singleton_append, afterEnclosures?, if_neg opens, if_neg closes, if_neg other,
      if_neg quote]

theorem opensTemplate_append {inside : Text} (long : templateTag.length < inside.length)
    (other : Text) : opensTemplate (inside ++ other) = opensTemplate inside := by
  rw [opensTemplate, opensTemplate, after?_append (Nat.le_of_lt long)]
  cases found : after? templateTag inside with
  | none => rfl
  | some rest =>
    cases rest with
    | cons c rest => rfl
    | nil =>
      rw [after?_eq_some_iff.1 found, List.append_nil] at long
      omega

theorem exists_of_opensTemplate {t : Text} (opens : opensTemplate t) :
    ∃ more, t = templateTag ++ more := by
  unfold opensTemplate at opens
  split at opens
  · rename_i found
    exact ⟨_, after?_eq_some_iff.1 found⟩
  · contradiction

theorem afterTemplates?_end {t rest : Text} (h : after? templateEndTag t = some rest) :
    afterTemplates? 0 t = some rest := by
  cases t with
  | nil => contradiction
  | cons c t => simp only [afterTemplates?, h]

theorem afterTemplates?_inner {depth : Nat} {c : Char} {t rest : Text}
    (h : after? templateEndTag (c :: t) = some rest) :
    afterTemplates? (depth + 1) (c :: t) = afterTemplates? depth t := by
  simp only [afterTemplates?, h]

theorem afterTemplates?_other {depth : Nat} {c : Char} {t : Text}
    (h : after? templateEndTag (c :: t) = none) : afterTemplates? depth (c :: t)
      = afterTemplates? (if opensTemplate (c :: t) then depth + 1 else depth) t := by
  simp only [afterTemplates?, h]

theorem afterTemplates?_closed {depth : Nat} {t rest : Text}
    (h : afterTemplates? depth t = some rest) :
    ∃ inside, t = inside ++ rest ∧ templateEndTag.length ≤ inside.length ∧
      ClosedBy (afterTemplates? depth) inside := by
  fun_induction afterTemplates? depth t with
  | case1 => contradiction
  | case2 c t after found =>
    obtain rfl := Option.some.inj h
    refine ⟨templateEndTag, after?_eq_some_iff.1 found, Nat.le_refl _, fun other => ?_⟩
    have starts : after? templateEndTag (templateEndTag ++ other) = some other :=
      after?_eq_some_iff.2 rfl
    exact afterTemplates?_end starts
  | case3 c t after depth found ih =>
    obtain ⟨inside, rfl, long, closed⟩ := ih h
    have longer : templateEndTag.length ≤ (c :: inside).length := Nat.le_succ_of_le long
    refine ⟨c :: inside, rfl, longer, fun other => ?_⟩
    rw [← List.cons_append, after?_append longer, Option.map_eq_some_iff] at found
    obtain ⟨more, found, -⟩ := found
    have starts : after? templateEndTag (c :: (inside ++ other)) = some (more ++ other) := by
      rw [← List.cons_append, after?_append longer, found, Option.map_some]
    rw [List.cons_append, afterTemplates?_inner starts]
    exact closed other
  | case4 c t depth absent ih =>
    obtain ⟨inside, rfl, long, closed⟩ := ih h
    have longer : templateEndTag.length ≤ (c :: inside).length := Nat.le_succ_of_le long
    have tags : templateTag.length < (c :: inside).length := by
      simp [templateTag, templateEndTag] at long ⊢
      omega
    refine ⟨c :: inside, rfl, longer, fun other => ?_⟩
    rw [← List.cons_append, after?_append longer, Option.map_eq_none_iff] at absent
    have absent : after? templateEndTag (c :: (inside ++ other)) = none := by
      rw [← List.cons_append, after?_append longer, absent, Option.map_none]
    rw [← List.cons_append, opensTemplate_append tags] at closed
    rw [List.cons_append, afterTemplates?_other absent, ← List.cons_append,
      opensTemplate_append tags]
    exact closed other

theorem afterPattern?_cons (inClass : Bool) (c : Char) (t : Text) :
    afterPattern? inClass (c :: t) = if c = escape then afterPattern? inClass t.tail
      else if c = '\n' || c = '\r' then none
      else if c = '/' && !inClass then some (t.dropWhile isNameChar)
      else afterPattern? (if c = '[' then true else if c = ']' then false else inClass) t := by
  cases t with
  | cons d t => rfl
  | nil => grind [afterPattern?, escape, List.dropWhile_nil]

theorem afterPattern?_closed {inClass : Bool} {t rest : Text}
    (h : afterPattern? inClass t = some rest) :
    ∃ inside, t = inside ++ rest ∧ inside ≠ [] ∧ rest.head?.any isNameChar = false ∧
      ∀ other : Text, other.head?.any isNameChar = false →
        afterPattern? inClass (inside ++ other) = some other := by
  have last (flags other : Text) (name : ∀ c ∈ flags, isNameChar c)
      (stops : other.head?.any isNameChar = false) :
      afterPattern? false ('/' :: flags ++ other) = some other := by
    rw [List.cons_append, afterPattern?_cons, if_neg (by decide), if_neg (by decide),
      if_pos (by decide), List.dropWhile_append_of_pos name]
    cases other with
    | nil => rfl
    | cons c other => rw [List.dropWhile_cons_of_neg (by simpa using stops)]
  fun_induction afterPattern? inClass t with
  | case2 inClass c slash =>
    simp only [Bool.and_eq_true, decide_eq_true_eq, Bool.not_eq_true'] at slash
    obtain ⟨rfl, rfl⟩ := slash
    obtain rfl := Option.some.inj h
    exact ⟨['/'], rfl, by simp, rfl, fun other stops => last [] other (by simp) stops⟩
  | case4 inClass d t ih =>
    obtain ⟨inside, rfl, -, stops, closed⟩ := ih h
    exact ⟨escape :: d :: inside, rfl, by simp, stops, closed⟩
  | case6 inClass c d t plain inLine slash =>
    simp only [Bool.and_eq_true, decide_eq_true_eq, Bool.not_eq_true'] at slash
    obtain ⟨rfl, rfl⟩ := slash
    obtain rfl := Option.some.inj h
    refine ⟨'/' :: (d :: t).takeWhile isNameChar, ?_, by simp, ?_, fun other stops =>
      last _ other (fun c inside => List.mem_takeWhile_imp inside) stops⟩
    · rw [List.cons_append, List.takeWhile_append_dropWhile]
    · cases rest : (d :: t).dropWhile isNameChar with
      | nil => rfl
      | cons e more => simpa using stop_of_dropWhile_cons rest
  | case7 inClass c d t plain inLine open_ ih =>
    obtain ⟨inside, split, -, stops, closed⟩ := ih h
    refine ⟨c :: inside, by rw [split]; rfl, by simp, stops, fun other stops => ?_⟩
    rw [List.cons_append, afterPattern?_cons, if_neg plain, if_neg inLine, if_neg open_]
    exact closed other stops
  | _ => contradiction

theorem afterParens?_cons (depth : Nat) (c : Char) (t : Text) :
    afterParens? depth (c :: t) = if c = '(' then afterParens? (depth + 1) t
      else if c = ')' then (match depth with | 0 => some t | depth + 1 => afterParens? depth t)
      else if c = backtick then (afterVerbatim? t).bind (afterParens? depth)
      else if isQuote c then (afterQuoted? c t).bind (afterParens? depth)
      else afterParens? depth t := by
  rw [afterParens?.eq_def]
  dsimp only
  repeat' split
  all_goals simp_all

theorem afterParens?_closed {depth : Nat} {t rest : Text} (h : afterParens? depth t = some rest) :
    ∃ inside, t = inside ++ rest ∧ inside ≠ [] ∧ Unescaped inside ∧
      ∀ other, QuotesAlike rest other → afterParens? depth (inside ++ other) = some other := by
  fun_induction afterParens? depth t with
  | case2 depth t ih =>
    obtain ⟨inside, rfl, filled, unescaped, closed⟩ := ih h
    refine ⟨'(' :: inside, rfl, List.cons_ne_nil _ _,
      (unescaped_append (a := ['(']) filled).2 unescaped, fun other alike => ?_⟩
    rw [List.cons_append, afterParens?_cons, if_pos rfl]
    exact closed other alike
  | case3 t opens =>
    obtain rfl := Option.some.inj h
    refine ⟨[')'], rfl, List.cons_ne_nil _ _, by decide, fun other _ => ?_⟩
    rw [List.singleton_append, afterParens?_cons, if_neg opens, if_pos rfl]
  | case4 t depth opens ih =>
    obtain ⟨inside, rfl, filled, unescaped, closed⟩ := ih h
    refine ⟨')' :: inside, rfl, List.cons_ne_nil _ _,
      (unescaped_append (a := [')']) filled).2 unescaped, fun other alike => ?_⟩
    rw [List.cons_append, afterParens?_cons, if_neg opens, if_pos rfl]
    exact closed other alike
  | case5 depth t after found opens closes ih =>
    obtain ⟨literal, rfl, -, -, literalClosed⟩ := afterEnclosures?_closed found
    obtain ⟨inside, rfl, filled, unescaped, closed⟩ := ih h
    refine ⟨backtick :: literal ++ inside, by simp, by simp,
      (unescaped_append filled).2 unescaped, fun other alike => ?_⟩
    have whole : afterVerbatim? (literal ++ (inside ++ other)) = some (inside ++ other) :=
      literalClosed (inside ++ other) (alike.append unescaped)
    rw [List.cons_append, List.cons_append, List.append_assoc, afterParens?_cons, if_neg opens,
      if_neg closes, if_pos rfl, whole]
    exact closed other alike
  | case7 depth c t opens closes verbatim quote after found ih =>
    obtain ⟨literal, rfl, -, literalClosed⟩ := afterQuoted?_closed quote found
    obtain ⟨inside, rfl, filled, unescaped, closed⟩ := ih h
    refine ⟨c :: literal ++ inside, by simp, by simp,
      (unescaped_append filled).2 unescaped, fun other alike => ?_⟩
    rw [List.cons_append, List.cons_append, List.append_assoc, afterParens?_cons, if_neg opens,
      if_neg closes, if_neg verbatim, if_pos quote, literalClosed (inside ++ other)]
    exact closed other alike
  | case9 depth c t opens closes verbatim quote ih =>
    obtain ⟨inside, rfl, filled, unescaped, closed⟩ := ih h
    refine ⟨c :: inside, rfl, List.cons_ne_nil _ _,
      (unescaped_append (a := [c]) filled).2 unescaped, fun other alike => ?_⟩
    rw [List.cons_append, afterParens?_cons, if_neg opens, if_neg closes, if_neg verbatim,
      if_neg quote]
    exact closed other alike
  | _ => contradiction

theorem afterDottedName_idem (t : Text) :
    afterDottedName (afterDottedName t) = afterDottedName t := by
  fun_induction afterDottedName t with
  | case1 => rfl
  | case2 c t _ ih => exact ih
  | case3 c t _ _ ih => exact ih
  | case4 c t plain alone => rw [afterDottedName, if_neg plain, if_neg alone]

theorem isNameChar_of_start {c : Char} (starts : isNameStart c) : isNameChar c := by
  simp only [isNameStart] at starts
  grind [isNameChar, Char.isAlphanum]

theorem afterDottedName_ne {t : Text} (starts : t.head?.any isNameStart) :
    afterDottedName t ≠ t := by
  cases t with
  | nil => contradiction
  | cons c t =>
    have name : isNameChar c := isNameChar_of_start starts
    intro same
    rw [afterDottedName, if_pos name] at same
    have := (afterDottedName_suffix t).length_le
    rw [same, List.length_cons] at this
    omega

theorem head?_append_of_name {t name : Text} (starts : t.head?.any isNameStart)
    (split : t = name ++ afterDottedName t) (rest : Text) :
    (name ++ rest).head?.any isNameStart := by
  cases name with
  | nil => exact absurd split.symm (afterDottedName_ne starts)
  | cons d name =>
    rw [split] at starts
    exact starts

theorem afterDottedName_closed (t : Text) : ∃ name, t = name ++ afterDottedName t ∧
    ∀ other, afterDottedName other = other → afterDottedName (name ++ other) = other := by
  fun_induction afterDottedName t with
  | case1 => exact ⟨[], rfl, fun other ends => ends⟩
  | case2 c t char ih =>
    obtain ⟨name, split, closed⟩ := ih
    refine ⟨c :: name, by rw [List.cons_append, ← split], fun other ends => ?_⟩
    rw [List.cons_append, afterDottedName, if_pos char]
    exact closed other ends
  | case3 c t char dot ih =>
    obtain ⟨name, split, closed⟩ := ih
    refine ⟨c :: name, by rw [List.cons_append, ← split], fun other ends => ?_⟩
    rw [Bool.and_eq_true] at dot
    rw [List.cons_append, afterDottedName, if_neg char, if_pos]
    · exact closed other ends
    · rw [Bool.and_eq_true]
      exact ⟨dot.1, head?_append_of_name dot.2 split other⟩
  | case4 c t char alone => exact ⟨[], rfl, fun other ends => ends⟩

def joins (before : Text) : Bool := before.head?.any fun c => isNameChar c || c = '.'

structure DecoratorsAlike (rest other : Text) : Prop where
  names : afterDottedName rest = rest → afterDottedName other = other
  parens : ∀ arguments, other = '(' :: arguments → ∃ own, rest = '(' :: own ∧
    (afterParens? 0 own = none → afterParens? 0 arguments = none)

def afterArguments : Text → Text
  | '(' :: arguments => (afterParens? 0 arguments).getD ('(' :: arguments)
  | rest => rest

theorem afterArguments_of_plain {t : Text} (plain : t.head? ≠ some '(') : afterArguments t = t := by
  rw [afterArguments]
  rintro arguments rfl
  exact plain rfl

theorem afterDecorator?_of_name {before t : Text} (apart : joins before = false)
    (starts : t.head?.any isNameStart) :
    afterDecorator? before t = some (afterArguments (afterDottedName t)) := by
  rw [joins] at apart
  simp only [afterDecorator?, apart, starts, Bool.not_true, Bool.or_self, Bool.false_eq_true,
    if_false]
  split
  · rename_i arguments opened
    rw [opened, afterArguments]
  · rename_i plain
    rw [afterArguments]
    exact plain

theorem afterDecorator?_eq_none_iff {before t : Text} :
    afterDecorator? before t = none ↔ joins before ∨ t.head?.any isNameStart = false := by
  cases apart : joins before with
  | true =>
    rw [joins] at apart
    simp [afterDecorator?, apart]
  | false =>
    cases starts : t.head?.any isNameStart with
    | true => simp [afterDecorator?_of_name apart starts]
    | false => simp [afterDecorator?, starts]

theorem afterArguments_eq_self {t other : Text} (alike : DecoratorsAlike t other)
    (plain : ∀ arguments, t = '(' :: arguments → afterParens? 0 arguments = none) :
    afterArguments other = other := by
  unfold afterArguments
  split
  · rename_i arguments
    obtain ⟨own, same, unclosed⟩ := alike.parens arguments rfl
    rw [unclosed (plain own same)]
    rfl
  · rfl

theorem afterDecorator?_closed {before t rest : Text} (h : afterDecorator? before t = some rest) :
    ∃ inside, t = inside ++ rest ∧ ∀ kept other, joins kept = false → QuotesAlike rest other →
      DecoratorsAlike rest other → afterDecorator? kept (inside ++ other) = some other := by
  obtain ⟨name, split, closed⟩ := afterDottedName_closed t
  have ended := afterDottedName_idem t
  have fits : joins before = false ∧ t.head?.any isNameStart := by
    simp only [afterDecorator?] at h
    split at h
    · contradiction
    · rename_i fits
      simpa [joins] using fits
  have starts (more : Text) := head?_append_of_name fits.2 split more
  rw [afterDecorator?_of_name fits.1 fits.2] at h
  obtain rfl := Option.some.inj h
  by_cases called : ∃ arguments after, afterDottedName t = '(' :: arguments ∧
      afterParens? 0 arguments = some after
  · obtain ⟨arguments, after, opened, found⟩ := called
    obtain ⟨inside, rfl, -, -, callClosed⟩ := afterParens?_closed found
    have rest : afterArguments (afterDottedName t) = after := by
      rw [opened, afterArguments, found, Option.getD_some]
    rw [rest]
    refine ⟨name ++ '(' :: inside, by rw [split, opened]; simp, fun kept other apart quotes _ => ?_⟩
    have named : afterDottedName (name ++ '(' :: (inside ++ other)) = '(' :: (inside ++ other) :=
      closed _ rfl
    rw [List.append_assoc, List.cons_append, afterDecorator?_of_name apart (starts _), named,
      afterArguments, callClosed other quotes, Option.getD_some]
  · have plain : ∀ arguments, afterDottedName t = '(' :: arguments →
        afterParens? 0 arguments = none := by
      intro arguments opened
      rw [Option.eq_none_iff_forall_ne_some]
      exact fun after found => called ⟨arguments, after, opened, found⟩
    have rest : afterArguments (afterDottedName t) = afterDottedName t :=
      afterArguments_eq_self ⟨fun ends => ends, fun own same => ⟨own, same, id⟩⟩ plain
    rw [rest]
    refine ⟨name, split, fun kept other apart quotes alike => ?_⟩
    rw [afterDecorator?_of_name apart (starts _), closed other (alike.names ended),
      afterArguments_eq_self alike plain]

end ComponentBundle.Source
