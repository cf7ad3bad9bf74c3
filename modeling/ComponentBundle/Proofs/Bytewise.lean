import Mathlib
import ComponentBundle.Proofs.ClosingReach

/-!
Reading bytes in place of characters. Every delimiter is ASCII and all characters outside ASCII
are read alike, so no cut moves when each of them is replaced by several, such as its bytes in
UTF-8. An escape then takes the first of the bytes only, and the others close nothing.
-/
namespace ComponentBundle.Source
open ComponentBundle.Text

def isWide (c : Char) : Bool := 0x80 ≤ c.toNat

def Narrow (t : Text) : Prop := ∀ c ∈ t, isWide c = false

instance (t : Text) : Decidable (Narrow t) :=
  decidable_of_iff (t.any isWide = false) (by simp [Narrow])

structure Spread (units : Char → Text) : Prop where
  narrow : ∀ c, isWide c = false → units c = [c]
  filled : ∀ c, units c ≠ []
  wide : ∀ c, isWide c → ∀ d ∈ units c, isWide d

def Uniform (p : Char → Bool) : Prop := ∃ answer, ∀ c, isWide c → p c = answer

theorem ne_of_wide {c d : Char} (wide : isWide c) (narrow : isWide d = false) : c ≠ d := by
  rintro rfl
  rw [wide] at narrow
  contradiction

theorem uniform_eq {d : Char} (narrow : isWide d = false) : Uniform fun c => decide (c = d) :=
  ⟨false, fun _ wide => decide_eq_false (ne_of_wide wide narrow)⟩

theorem Uniform.or {p q : Char → Bool} (first : Uniform p) (second : Uniform q) :
    Uniform fun c => p c || q c := by
  obtain ⟨a, sameA⟩ := first
  obtain ⟨b, sameB⟩ := second
  exact ⟨a || b, fun c wide => congrArg₂ (· || ·) (sameA c wide) (sameB c wide)⟩

theorem uniform_isGap : Uniform isGap :=
  (((uniform_eq (d := ' ') (by decide)).or (uniform_eq (d := '\t') (by decide))).or
    (uniform_eq (d := '\n') (by decide))).or (uniform_eq (d := '\x0c') (by decide)) |>.or
    (uniform_eq (d := '\r') (by decide))

theorem isNameChar_of_wide {c : Char} (wide : isWide c) : isNameChar c := by
  rw [isWide] at wide
  simp [isNameChar, wide]

theorem isNameStart_of_wide {c : Char} (wide : isWide c) : isNameStart c = false := by
  cases starts : isNameStart c with
  | false => rfl
  | true =>
    simp only [isNameStart, Bool.or_eq_true, decide_eq_true_eq] at starts
    rcases starts with (letter | rfl) | rfl
    · simp only [isWide, decide_eq_true_eq, ← Char.toNat_val] at wide
      simp only [Char.isAlpha, Char.isUpper, Char.isLower, Bool.or_eq_true, Bool.and_eq_true,
        decide_eq_true_eq, UInt32.le_iff_toNat_le, ge_iff_le] at letter
      change 65 ≤ c.val.toNat ∧ c.val.toNat ≤ 90 ∨ 97 ≤ c.val.toNat ∧ c.val.toNat ≤ 122 at letter
      omega
    all_goals contradiction

theorem uniform_isNameChar : Uniform isNameChar := ⟨true, fun _ => isNameChar_of_wide⟩

theorem uniform_isNameStart : Uniform isNameStart := ⟨false, fun _ => isNameStart_of_wide⟩

theorem narrow_of_quote {c : Char} (quote : isQuote c) : isWide c = false := by
  simp only [isQuote, Bool.or_eq_true, decide_eq_true_eq] at quote
  rcases quote with rfl | rfl <;> decide

theorem not_quote_of_wide {c : Char} (wide : isWide c) : ¬ isQuote c := by
  intro quote
  rw [narrow_of_quote quote] at wide
  contradiction

theorem narrow_of_not_name {c : Char} (other : ¬ isNameChar c) : isWide c = false := by
  cases wide : isWide c with
  | false => rfl
  | true => exact absurd (isNameChar_of_wide wide) other

/-- An escape takes two characters, so what holds behind it is needed as well. -/
theorem text_induction {motive : Text → Prop} (nil : motive [])
    (cons : ∀ c t, motive t → motive t.tail → motive (c :: t)) (t : Text) : motive t := by
  have both : motive t ∧ motive t.tail := by
    induction t with
    | nil => exact ⟨nil, nil⟩
    | cons c t ih => exact ⟨cons c t ih.1 ih.2, ih.1⟩
  exact both.1

def PassesWide {β : Type} (f : Text → β) : Prop := ∀ c, isWide c → ∀ u, f (c :: u) = f u

theorem pass_wide {β : Type} {f : Text → β} (passes : PassesWide f) {w : Text}
    (wide : ∀ d ∈ w, isWide d) (u : Text) : f (w ++ u) = f u := by
  induction w with
  | nil => rfl
  | cons d w ih =>
    rw [List.cons_append, passes d (wide d List.mem_cons_self)]
    exact ih fun e later => wide e (List.mem_cons_of_mem _ later)

def followsMark (t : Text) : Bool :=
  t.isEmpty || t.head?.any expressionMarks.contains ||
    t.head?.any isNameChar && !(t.dropWhile isNameChar).head?.any (fun c => decide (c = '.')) &&
      expressionWords.contains (t.takeWhile isNameChar).reverse

theorem allowsPattern_eq (before : Text) :
    allowsPattern before = followsMark (before.dropWhile isGap) := by
  have member (o : Option Char) : decide (o ≠ some '.') = !o.any fun c => decide (c = '.') := by
    cases o <;> simp
  rw [allowsPattern]
  cases before.dropWhile isGap with
  | nil => rfl
  | cons c more =>
    simp only [List.span_eq_takeWhile_dropWhile, followsMark, member, List.isEmpty_cons,
      List.head?_cons, Option.any_some, Bool.false_or]
    cases expressionMarks.contains c <;> cases isNameChar c <;>
      simp only [Bool.true_or, Bool.false_or, Bool.true_and, Bool.false_and, if_true, if_false,
        Bool.false_eq_true]

theorem reverse_backwards (units : Char → Text) (t : Text) :
    (t.flatMap fun c => (units c).reverse).reverse = t.reverse.flatMap units := by
  simp [List.reverse_flatMap, Function.comp_def]

namespace Spread
variable {units : Char → Text} (spread : Spread units)
include spread

theorem cons_narrow {c : Char} (narrow : isWide c = false) (t : Text) :
    (c :: t).flatMap units = c :: t.flatMap units := by
  rw [List.flatMap_cons, spread.narrow c narrow]
  rfl

theorem cons_wide {c : Char} (wide : isWide c) : ∃ d more, isWide d ∧ (∀ e ∈ more, isWide e) ∧
    ∀ t, (c :: t).flatMap units = d :: (more ++ t.flatMap units) := by
  obtain ⟨d, more, split⟩ := List.exists_cons_of_ne_nil (spread.filled c)
  have all := spread.wide c wide
  rw [split] at all
  refine ⟨d, more, all d List.mem_cons_self,
    fun e later => all e (List.mem_cons_of_mem _ later), fun t => ?_⟩
  rw [List.flatMap_cons, split]
  rfl

theorem append_narrow {lead : Text} (narrow : Narrow lead) (t : Text) :
    (lead ++ t).flatMap units = lead ++ t.flatMap units := by
  induction lead with
  | nil => rfl
  | cons c lead ih =>
    rw [List.cons_append, spread.cons_narrow (narrow c List.mem_cons_self),
      ih fun d later => narrow d (List.mem_cons_of_mem _ later)]
    rfl

theorem pass {β : Type} {f : Text → β} (passes : PassesWide f) {c : Char} (wide : isWide c)
    (t : Text) : f ((c :: t).flatMap units) = f (t.flatMap units) := by
  rw [List.flatMap_cons]
  exact pass_wide passes (spread.wide c wide) _

theorem pass_tail {β : Type} {f : Text → β} (passes : PassesWide f) (t : Text) :
    f (t.flatMap units).tail = f (t.tail.flatMap units) := by
  cases t with
  | nil => rfl
  | cons c t =>
    cases wide : isWide c with
    | false => rw [spread.cons_narrow wide, List.tail_cons, List.tail_cons]
    | true =>
      obtain ⟨d, more, -, others, split⟩ := spread.cons_wide wide
      rw [split, List.tail_cons, List.tail_cons]
      exact pass_wide passes others _

theorem head?_any {p : Char → Bool} (uniform : Uniform p) (t : Text) :
    (t.flatMap units).head?.any p = t.head?.any p := by
  cases t with
  | nil => rfl
  | cons c t =>
    cases wide : isWide c with
    | false =>
      rw [spread.cons_narrow wide]
      rfl
    | true =>
      obtain ⟨d, more, first, -, split⟩ := spread.cons_wide wide
      obtain ⟨answer, same⟩ := uniform
      rw [split, List.head?_cons, List.head?_cons, Option.any_some, Option.any_some, same c wide,
        same d first]

theorem head?_eq_some {d : Char} (narrow : isWide d = false) (t : Text) :
    (t.flatMap units).head? = some d ↔ t.head? = some d := by
  have same := spread.head?_any (uniform_eq narrow) t
  rw [Bool.eq_iff_iff, Option.any_eq_true, Option.any_eq_true] at same
  simpa using same

theorem dropWhile {p : Char → Bool} (uniform : Uniform p) (t : Text) :
    (t.flatMap units).dropWhile p = (t.dropWhile p).flatMap units := by
  obtain ⟨answer, same⟩ := uniform
  induction t with
  | nil => rfl
  | cons c t ih =>
    cases wide : isWide c with
    | false =>
      rw [spread.cons_narrow wide, List.dropWhile_cons, List.dropWhile_cons]
      split
      · exact ih
      · rw [spread.cons_narrow wide]
    | true =>
      cases passes : answer with
      | true =>
        have all : ∀ d ∈ units c, p d := fun d inside =>
          (same d (spread.wide c wide d inside)).trans passes
        rw [List.flatMap_cons, List.dropWhile_append_of_pos all, ih,
          List.dropWhile_cons_of_pos ((same c wide).trans passes)]
      | false =>
        obtain ⟨d, more, first, -, split⟩ := spread.cons_wide wide
        rw [List.dropWhile_cons_of_neg (by simp [same c wide, passes]), split,
          List.dropWhile_cons_of_neg (by simp [same d first, passes])]

theorem takeWhile {p : Char → Bool} (uniform : Uniform p) (t : Text) :
    (t.flatMap units).takeWhile p = (t.takeWhile p).flatMap units := by
  have cut := List.takeWhile_append_dropWhile (p := p) (l := t.flatMap units)
  rw [spread.dropWhile uniform] at cut
  have whole := congrArg (List.flatMap units) (List.takeWhile_append_dropWhile (p := p) (l := t))
  rw [List.flatMap_append, ← cut] at whole
  exact (List.append_cancel_right whole).symm

theorem after? {lead : Text} (narrow : Narrow lead) (t : Text) :
    Text.after? lead (t.flatMap units) = (Text.after? lead t).map (List.flatMap units) := by
  induction lead generalizing t with
  | nil => rfl
  | cons a lead ih =>
    have first := narrow a List.mem_cons_self
    cases t with
    | nil => rfl
    | cons c t =>
      cases wide : isWide c with
      | false =>
        rw [spread.cons_narrow wide, Text.after?, Text.after?]
        split
        · exact ih (fun d later => narrow d (List.mem_cons_of_mem _ later)) t
        · rfl
      | true =>
        obtain ⟨d, more, other, -, split⟩ := spread.cons_wide wide
        rw [split, Text.after?, Text.after?, if_neg (ne_of_wide other first).symm,
          if_neg (ne_of_wide wide first).symm]
        rfl

theorem afterFirst? {needle : Text} (filled : needle ≠ []) (narrow : Narrow needle) (t : Text) :
    Text.afterFirst? needle (t.flatMap units)
      = (Text.afterFirst? needle t).map (List.flatMap units) := by
  have passes : PassesWide (Text.afterFirst? needle) := by
    intro c wide u
    obtain ⟨a, needle, rfl⟩ := List.exists_cons_of_ne_nil filled
    rw [Text.afterFirst?, Text.after?, if_neg (ne_of_wide wide (narrow a List.mem_cons_self)).symm]
  induction t with
  | nil => exact spread.after? narrow []
  | cons c t ih =>
    cases wide : isWide c with
    | true => rw [spread.pass passes wide, passes c wide, ih]
    | false =>
      have here := spread.after? narrow (c :: t)
      rw [spread.cons_narrow wide] at here
      rw [spread.cons_narrow wide, Text.afterFirst?, Text.afterFirst?, here]
      cases Text.after? needle (c :: t) with
      | some rest => rfl
      | none => exact ih

theorem afterMustache? (t : Text) :
    Source.afterMustache? (t.flatMap units)
      = (Source.afterMustache? t).map (List.flatMap units) := by
  by_cases third : t.head? = some '{'
  · obtain ⟨t, rfl⟩ := List.head?_eq_some_iff.1 third
    rw [spread.cons_narrow (by decide)]
    exact spread.afterFirst? (by simp) (by decide) t
  · have other := mt (spread.head?_eq_some (d := '{') (by decide) t).1 third
    rw [afterMustache?_of_two fun more same => other (by rw [same]; rfl),
      afterMustache?_of_two fun more same => third (by rw [same]; rfl)]
    exact spread.afterFirst? (by simp) (by decide) t

theorem afterQuoted? {quote : Char} (quotes : isQuote quote) (t : Text) :
    Source.afterQuoted? quote (t.flatMap units)
      = (Source.afterQuoted? quote t).map (List.flatMap units) := by
  have passes : PassesWide (Source.afterQuoted? quote) := by
    intro c wide u
    rw [afterQuoted?_cons quotes, if_neg (ne_of_wide wide (by decide)),
      if_neg (ne_of_wide wide (by decide)), if_neg (ne_of_wide wide (narrow_of_quote quotes))]
  induction t using text_induction with
  | nil => rfl
  | cons c t ih behind =>
    cases wide : isWide c with
    | true => rw [spread.pass passes wide, passes c wide, ih]
    | false =>
      rw [spread.cons_narrow wide, afterQuoted?_cons quotes, afterQuoted?_cons quotes]
      split
      · rw [spread.pass_tail passes, behind]
      · split
        · rfl
        · split
          · rfl
          · exact ih

theorem afterEnclosures? (opened : List Enclosure) (t : Text) :
    Source.afterEnclosures? opened (t.flatMap units)
      = (Source.afterEnclosures? opened t).map (List.flatMap units) := by
  have passes (inner : Enclosure) (outer : List Enclosure) :
      PassesWide (Source.afterEnclosures? (inner :: outer)) := by
    intro c wide u
    have plain {d : Char} (narrow : isWide d = false) : c ≠ d := ne_of_wide wide narrow
    cases inner with
    | literal =>
      rw [Source.afterEnclosures?, if_neg (plain (by decide)), if_neg (plain (by decide)), if_neg]
      simp [plain (d := '$') (by decide)]
    | brace =>
      rw [Source.afterEnclosures?, if_neg (plain (by decide)), if_neg (plain (by decide)),
        if_neg (plain (by decide)), if_neg (not_quote_of_wide wide)]
  fun_induction Source.afterEnclosures? opened t with
  | case1 t =>
    rw [Source.afterEnclosures?]
    rfl
  | case2 =>
    rw [List.flatMap_nil, Source.afterEnclosures?]
    rfl
  | case3 outer t ih =>
    rw [spread.cons_narrow (by decide), Source.afterEnclosures?, if_pos rfl,
      spread.pass_tail (passes _ _), ih]
  | case4 outer t plain ih =>
    rw [spread.cons_narrow (by decide), Source.afterEnclosures?, if_neg plain, if_pos rfl, ih]
  | case5 outer c t plain inside opens ih =>
    simp only [Bool.and_eq_true, decide_eq_true_eq] at opens
    obtain ⟨rfl, head⟩ := opens
    obtain ⟨t, rfl⟩ := List.head?_eq_some_iff.1 head
    rw [spread.cons_narrow (by decide), spread.cons_narrow (by decide), Source.afterEnclosures?,
      if_neg plain, if_neg inside, if_pos (by simp)]
    exact ih
  | case6 outer c t plain inside opens ih =>
    -- the only places for a character outside ASCII are this one and the last
    cases wide : isWide c with
    | true => rw [spread.pass (passes _ _) wide, ih]
    | false =>
      rw [spread.cons_narrow wide, Source.afterEnclosures?, if_neg plain, if_neg inside, if_neg, ih]
      simpa [spread.head?_eq_some (d := '{') (by decide)] using opens
  | case7 outer t ih =>
    rw [spread.cons_narrow (by decide), Source.afterEnclosures?, if_pos rfl, ih]
  | case8 outer t opens ih =>
    rw [spread.cons_narrow (by decide), Source.afterEnclosures?, if_neg opens, if_pos rfl, ih]
  | case9 outer t opens closes ih =>
    rw [spread.cons_narrow (by decide), Source.afterEnclosures?, if_neg opens, if_neg closes,
      if_pos rfl, ih]
  | case10 outer c t opens closes other quote after found ih =>
    have here := spread.afterQuoted? quote t
    rw [found, Option.map_some] at here
    rw [spread.cons_narrow (narrow_of_quote quote), Source.afterEnclosures?, if_neg opens,
      if_neg closes, if_neg other, if_pos quote]
    split
    · rename_i closed
      rw [here] at closed
      rw [← Option.some.inj closed, ih]
    · rename_i closed
      rw [here] at closed
      contradiction
  | case11 outer c t opens closes other quote absent ih =>
    have here := spread.afterQuoted? quote t
    rw [absent, Option.map_none] at here
    rw [spread.cons_narrow (narrow_of_quote quote), Source.afterEnclosures?, if_neg opens,
      if_neg closes, if_neg other, if_pos quote]
    split
    · rename_i closed
      rw [here] at closed
      contradiction
    · exact ih
  | case12 outer c t opens closes other quote ih =>
    cases wide : isWide c with
    | true => rw [spread.pass (passes _ _) wide, ih]
    | false =>
      rw [spread.cons_narrow wide, Source.afterEnclosures?, if_neg opens, if_neg closes,
        if_neg other, if_neg quote, ih]

theorem opensTemplate (t : Text) :
    Source.opensTemplate (t.flatMap units) = Source.opensTemplate t := by
  have stops : Uniform fun c => c = '>' || c = ' ' || c = '\t' || c = '\n' || c = '\r' :=
    ((((uniform_eq (by decide)).or (uniform_eq (by decide))).or (uniform_eq (by decide))).or
      (uniform_eq (by decide))).or (uniform_eq (by decide))
  have opens (u : Text) : Source.opensTemplate u = (Text.after? templateTag u).any fun rest =>
      rest.head?.any fun c => c = '>' || c = ' ' || c = '\t' || c = '\n' || c = '\r' := by
    rw [Source.opensTemplate]
    cases Text.after? templateTag u with
    | none => rfl
    | some rest => cases rest <;> rfl
  rw [opens, opens, spread.after? (by decide)]
  cases Text.after? templateTag t with
  | none => rfl
  | some rest => exact spread.head?_any stops rest

theorem afterTemplates? (depth : Nat) (t : Text) :
    Source.afterTemplates? depth (t.flatMap units)
      = (Source.afterTemplates? depth t).map (List.flatMap units) := by
  have ending (u : Text) : Text.after? templateEndTag (u.flatMap units)
      = (Text.after? templateEndTag u).map (List.flatMap units) := spread.after? (by decide) u
  have starts : ∀ c, isWide c → ∀ u, Source.opensTemplate (c :: u) = false := by
    intro c wide u
    rw [Source.opensTemplate, templateTag, Text.after?, if_neg (ne_of_wide wide (by decide)).symm]
  have passes (depth : Nat) : PassesWide (Source.afterTemplates? depth) := by
    intro c wide u
    have ends : Text.after? templateEndTag (c :: u) = none :=
      if_neg (ne_of_wide wide (by decide)).symm
    rw [afterTemplates?_other ends, starts c wide, if_neg (by decide)]
  fun_induction Source.afterTemplates? depth t with
  | case1 => rfl
  | case2 c t after found =>
    have here := ending (c :: t)
    rw [found] at here
    exact afterTemplates?_end here
  | case3 c t after depth found ih =>
    obtain rfl : c = '<' := (List.cons.inj (after?_eq_some_iff.1 found)).1
    have narrow : isWide '<' = false := by decide
    have here := ending ('<' :: t)
    rw [found, spread.cons_narrow narrow] at here
    rw [spread.cons_narrow narrow, afterTemplates?_inner here, ih]
  | case4 c t depth absent ih =>
    cases wide : isWide c with
    | true =>
      rw [starts c wide, if_neg (by decide)] at ih ⊢
      rw [spread.pass (passes depth) wide, ih]
    | false =>
      have here := ending (c :: t)
      rw [absent, spread.cons_narrow wide] at here
      rw [spread.cons_narrow wide, afterTemplates?_other here, ← spread.cons_narrow wide,
        spread.opensTemplate, ih]

theorem afterPattern? (inClass : Bool) (t : Text) :
    Source.afterPattern? inClass (t.flatMap units)
      = (Source.afterPattern? inClass t).map (List.flatMap units) := by
  have passes (inClass : Bool) : PassesWide (Source.afterPattern? inClass) := by
    intro c wide u
    have plain {d : Char} (narrow : isWide d = false) : c ≠ d := ne_of_wide wide narrow
    rw [afterPattern?_cons, if_neg (plain (by decide)),
      if_neg (by simp [plain (d := '\n') (by decide), plain (d := '\r') (by decide)]),
      if_neg (by simp [plain (d := '/') (by decide)]), if_neg (plain (by decide)),
      if_neg (plain (by decide))]
  induction t using text_induction generalizing inClass with
  | nil => rfl
  | cons c t ih behind =>
    cases wide : isWide c with
    | true => rw [spread.pass (passes inClass) wide, passes inClass c wide, ih]
    | false =>
      rw [spread.cons_narrow wide, afterPattern?_cons, afterPattern?_cons]
      split
      · rw [spread.pass_tail (passes inClass), behind]
      · split
        · rfl
        · split
          · exact congrArg some (spread.dropWhile uniform_isNameChar t)
          · exact ih _

theorem afterParens? (depth : Nat) (t : Text) :
    Source.afterParens? depth (t.flatMap units)
      = (Source.afterParens? depth t).map (List.flatMap units) := by
  have passes (depth : Nat) : PassesWide (Source.afterParens? depth) := by
    intro c wide u
    have plain {d : Char} (narrow : isWide d = false) : c ≠ d := ne_of_wide wide narrow
    rw [afterParens?_cons, if_neg (plain (by decide)), if_neg (plain (by decide)),
      if_neg (plain (by decide)), if_neg (not_quote_of_wide wide)]
  have verbatim (u : Text) : afterVerbatim? (u.flatMap units)
      = (afterVerbatim? u).map (List.flatMap units) := spread.afterEnclosures? [.literal] u
  fun_induction Source.afterParens? depth t with
  | case1 depth =>
    rw [List.flatMap_nil, Source.afterParens?]
    rfl
  | case2 depth t ih =>
    rw [spread.cons_narrow (by decide), afterParens?_cons, if_pos rfl, ih]
  | case3 t opens =>
    rw [spread.cons_narrow (by decide), afterParens?_cons, if_neg opens, if_pos rfl]
    rfl
  | case4 t depth opens ih =>
    rw [spread.cons_narrow (by decide), afterParens?_cons, if_neg opens, if_pos rfl, ← ih]
  | case5 depth t after found opens closes ih =>
    rw [spread.cons_narrow (by decide), afterParens?_cons, if_neg opens, if_neg closes, if_pos rfl,
      verbatim, found, ← ih]
    rfl
  | case6 depth t absent opens closes =>
    rw [spread.cons_narrow (by decide), afterParens?_cons, if_neg opens, if_neg closes, if_pos rfl,
      verbatim, absent]
    rfl
  | case7 depth c t opens closes literal quote after found ih =>
    rw [spread.cons_narrow (narrow_of_quote quote), afterParens?_cons, if_neg opens, if_neg closes,
      if_neg literal, if_pos quote, spread.afterQuoted? quote, found, ← ih]
    rfl
  | case8 depth c t opens closes literal quote absent =>
    rw [spread.cons_narrow (narrow_of_quote quote), afterParens?_cons, if_neg opens, if_neg closes,
      if_neg literal, if_pos quote, spread.afterQuoted? quote, absent]
    rfl
  | case9 depth c t opens closes literal quote ih =>
    cases wide : isWide c with
    | true => rw [spread.pass (passes depth) wide, ih]
    | false =>
      rw [spread.cons_narrow wide, afterParens?_cons, if_neg opens, if_neg closes, if_neg literal,
        if_neg quote, ih]

theorem afterDottedName (t : Text) :
    Source.afterDottedName (t.flatMap units) = (Source.afterDottedName t).flatMap units := by
  have passes : PassesWide Source.afterDottedName := by
    intro c wide u
    rw [Source.afterDottedName, if_pos (isNameChar_of_wide wide)]
  fun_induction Source.afterDottedName t with
  | case1 => rfl
  | case2 c t char ih =>
    cases wide : isWide c with
    | true => rw [spread.pass passes wide, ih]
    | false => rw [spread.cons_narrow wide, Source.afterDottedName, if_pos char, ih]
  | case3 c t char dot ih =>
    rw [spread.cons_narrow (narrow_of_not_name char), Source.afterDottedName, if_neg char,
      spread.head?_any uniform_isNameStart, if_pos dot, ih]
  | case4 c t char alone =>
    rw [spread.cons_narrow (narrow_of_not_name char), Source.afterDottedName, if_neg char,
      spread.head?_any uniform_isNameStart, if_neg alone]

theorem afterArguments (t : Text) :
    Source.afterArguments (t.flatMap units) = (Source.afterArguments t).flatMap units := by
  by_cases opens : t.head? = some '('
  · obtain ⟨t, rfl⟩ := List.head?_eq_some_iff.1 opens
    rw [spread.cons_narrow (by decide), Source.afterArguments, Source.afterArguments,
      spread.afterParens?]
    cases Source.afterParens? 0 t with
    | none => exact (spread.cons_narrow (by decide) t).symm
    | some rest => rfl
  · have other := mt (spread.head?_eq_some (d := '(') (by decide) t).1 opens
    rw [afterArguments_of_plain other, afterArguments_of_plain opens]

theorem afterDecorator? {back : Char → Text} (spreadBack : Spread back) (before t : Text) :
    Source.afterDecorator? (before.flatMap back) (t.flatMap units)
      = (Source.afterDecorator? before t).map (List.flatMap units) := by
  have same : joins (before.flatMap back) = joins before :=
    spreadBack.head?_any (uniform_isNameChar.or (uniform_eq (by decide))) before
  have starts := spread.head?_any uniform_isNameStart t
  by_cases fits : joins before = false ∧ t.head?.any isNameStart
  · rw [afterDecorator?_of_name fits.1 fits.2, afterDecorator?_of_name (same.trans fits.1)
      (starts.trans fits.2), spread.afterDottedName, spread.afterArguments]
    rfl
  · have none_ : joins before ∨ t.head?.any isNameStart = false := by
      cases first : joins before with
      | true => exact Or.inl rfl
      | false => exact Or.inr (by simpa [first] using fits)
    rw [afterDecorator?_eq_none_iff.2 none_, afterDecorator?_eq_none_iff.2]
    · rfl
    · rwa [same, starts]

theorem narrow_eq {t : Text} (narrow : Narrow t) : t.flatMap units = t := by
  simpa using spread.append_narrow narrow []

theorem eq_of_narrow {t : Text} (narrow : Narrow (t.flatMap units)) : t.flatMap units = t := by
  refine spread.narrow_eq fun c member => ?_
  cases wide : isWide c with
  | false => rfl
  | true =>
    obtain ⟨d, more, split⟩ := List.exists_cons_of_ne_nil (spread.filled c)
    have inside : d ∈ units c := by
      rw [split]
      exact List.mem_cons_self
    rw [← narrow d (List.mem_flatMap.2 ⟨c, member, inside⟩), spread.wide c wide d inside]

theorem contains_words {words : List Text} (narrow : ∀ word ∈ words, Narrow word) (t : Text) :
    words.contains (t.flatMap units) = words.contains t := by
  rw [Bool.eq_iff_iff, List.contains_iff_mem, List.contains_iff_mem]
  constructor
  · intro member
    rwa [spread.eq_of_narrow (narrow _ member)] at member
  · intro member
    rwa [spread.narrow_eq (narrow _ member)]

theorem reverse : Spread fun c => (units c).reverse where
  narrow c narrow := by rw [spread.narrow c narrow]; rfl
  filled c := List.reverse_ne_nil_iff.2 (spread.filled c)
  wide c wide d inside := spread.wide c wide d (List.mem_reverse.1 inside)

theorem allowsPattern (before : Text) :
    Source.allowsPattern (before.flatMap fun c => (units c).reverse)
      = Source.allowsPattern before := by
  have back := spread.reverse
  have marks : Uniform expressionMarks.contains := by
    refine ⟨false, fun c wide => ?_⟩
    have all : Narrow expressionMarks := by decide
    cases mark : expressionMarks.contains c with
    | false => rfl
    | true =>
      rw [all c (List.contains_iff_mem.1 mark)] at wide
      contradiction
  have words : ∀ word ∈ expressionWords, Narrow word := by decide
  have empty (t : Text) : (t.flatMap fun c => (units c).reverse).isEmpty = t.isEmpty := by
    cases t with
    | nil => rfl
    | cons c t => simp [spread.filled c]
  rw [allowsPattern_eq, allowsPattern_eq, back.dropWhile uniform_isGap]
  generalize before.dropWhile isGap = t
  simp only [followsMark, back.head?_any marks, back.head?_any uniform_isNameChar,
    back.dropWhile uniform_isNameChar, back.takeWhile uniform_isNameChar,
    back.head?_any (uniform_eq (d := '.') (by decide)), empty, reverse_backwards,
    spread.contains_words words]

theorem piece? (before : Text) {c : Char} (narrow : isWide c = false) (t : Text) :
    Source.piece? (before.flatMap fun c => (units c).reverse) c (t.flatMap units)
      = (Source.piece? before c t).map fun (kind, rest) => (kind, rest.flatMap units) := by
  have mapped (kind : SegmentKind) (read : Option Text) :
      (read.map (List.flatMap units)).map (kind, ·)
        = (read.map (kind, ·)).map fun (kind, rest) => (kind, rest.flatMap units) := by
    cases read <;> rfl
  have inLine : Uniform fun c => decide (c ≠ '\n') :=
    ⟨true, fun _ wide => decide_eq_true (ne_of_wide wide (by decide))⟩
  by_cases slash : c = '/'
  · subst slash
    by_cases line : t.head? = some '/'
    · obtain ⟨t, rfl⟩ := List.head?_eq_some_iff.1 line
      rw [spread.cons_narrow (by decide), piece?_slash, piece?_slash]
      simp only
      rw [← spread.cons_narrow (by decide), afterLine, spread.dropWhile inLine]
      rfl
    · by_cases block : t.head? = some '*'
      · obtain ⟨t, rfl⟩ := List.head?_eq_some_iff.1 block
        rw [spread.cons_narrow (by decide), piece?_slash, piece?_slash]
        simp only
        rw [afterBlockComment?, spread.afterFirst? (by simp) (by decide), mapped]
        rfl
      · rw [piece?_pattern line block, piece?_pattern
          (mt (spread.head?_eq_some (by decide) t).1 line)
          (mt (spread.head?_eq_some (by decide) t).1 block), spread.allowsPattern,
          spread.afterPattern?]
        split
        · exact mapped _ _
        · rfl
  by_cases tag : c = '<'
  · subst tag
    rw [piece?_tag, piece?_tag, ← spread.cons_narrow (by decide), spread.opensTemplate]
    split
    · rename_i opens
      obtain ⟨more, starts⟩ := exists_of_opensTemplate opens
      obtain rfl : t = templateTag.tail ++ more := (List.cons.inj starts).2
      rw [spread.append_narrow (by decide)]
      change (Source.afterTemplates? 0 (more.flatMap units)).map _
        = ((Source.afterTemplates? 0 more).map _).map _
      rw [spread.afterTemplates?, mapped]
    · rfl
  by_cases brace : c = '{'
  · subst brace
    by_cases second : t.head? = some '{'
    · obtain ⟨t, rfl⟩ := List.head?_eq_some_iff.1 second
      rw [spread.cons_narrow (by decide), piece?_braces, piece?_braces, spread.afterMustache?,
        mapped]
    · rw [piece?_brace second, piece?_brace (mt (spread.head?_eq_some (by decide) t).1 second)]
      rfl
  by_cases verbatim : c = backtick
  · subst verbatim
    rw [piece?_verbatim, piece?_verbatim, afterVerbatim?, spread.afterEnclosures?, mapped]
    rfl
  by_cases quote : isQuote c
  · rw [piece?_quote quote, piece?_quote quote, spread.afterQuoted? quote, mapped]
  by_cases at_ : c = '@'
  · subst at_
    rw [piece?_decorator, piece?_decorator, spread.afterDecorator? spread.reverse, mapped]
  · simp [Source.piece?, slash, tag, brace, verbatim, quote, at_]

end Spread

theorem piece?_wide {c : Char} (wide : isWide c) (before t : Text) : piece? before c t = none := by
  have plain {d : Char} (narrow : isWide d = false) : c ≠ d := ne_of_wide wide narrow
  unfold piece?
  rw [if_neg (plain (by decide)), if_neg (plain (by decide)), if_neg (plain (by decide)),
    if_neg (plain (by decide)), if_neg (not_quote_of_wide wide), if_neg (plain (by decide))]

def byteUnits (c : Char) : Text := (String.utf8EncodeChar c).map Char.ofUInt8

def byteText (t : Text) : Text := (bytes t).map Char.ofUInt8

theorem byteText_eq (t : Text) : byteText t = t.flatMap byteUnits := List.map_flatMap

theorem byteText_length (t : Text) : (byteText t).length = width t := by
  induction t with
  | nil => rfl
  | cons c t ih =>
    rw [byteText_eq] at ih ⊢
    rw [List.flatMap_cons, List.length_append, ih, byteUnits, List.length_map,
      String.length_utf8EncodeChar, width_cons]

theorem byteUnits_spread : Spread byteUnits where
  narrow c narrow := by
    simp only [isWide, decide_eq_false_iff_not, Nat.not_le] at narrow
    have one : String.utf8EncodeChar c = [UInt8.ofNat c.val.toNat] :=
      if_pos (by rw [Char.toNat_val]; omega)
    have same : Char.ofUInt8 (UInt8.ofNat c.val.toNat) = c := by
      apply Char.ext
      apply UInt32.toNat_inj.1
      simp [Char.ofUInt8]
      omega
    rw [byteUnits, one, List.map_singleton, same]
  filled c := by
    have length := String.length_utf8EncodeChar c
    have positive := c.utf8Size_pos
    intro none_
    rw [List.map_eq_nil_iff.1 none_, List.length_nil] at length
    omega
  wide c wide d inside := by
    simp only [isWide, decide_eq_true_eq] at wide
    have high : ∀ b ∈ String.utf8EncodeChar c, 0x80 ≤ b.toNat := by
      simp only [String.utf8EncodeChar, Char.toNat_val]
      repeat' split
      · omega
      all_goals simp; omega
    obtain ⟨b, member, rfl⟩ := List.mem_map.1 inside
    have value : (Char.ofUInt8 b).toNat = b.toNat := by simp [Char.ofUInt8, Char.toNat]
    rw [isWide, value]
    exact decide_eq_true (high b member)

end ComponentBundle.Source
