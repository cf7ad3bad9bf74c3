import ComponentBundle.Proofs.Bytewise
import ComponentBundle.Proofs.ReachedPlaces

/-!
Backtick literals with interpolations, which hold braces, quoted literals and backtick literals
again. What such a literal holds is described by its parts. The reader comes to the end of each
part at the mark that closes it, so to the end of the literal, however deep the parts nest.
-/
namespace ComponentBundle.Source
open ComponentBundle.Text

/-- What stands in a quoted literal. -/
inductive QuotedInside (quote : Char) : Text → Prop
  | nil : QuotedInside quote []
  | escaped (c : Char) {more : Text} (after : QuotedInside quote more) :
      QuotedInside quote (escape :: c :: more)
  | plain {c : Char} {more : Text} (unescaped : c ≠ escape) (inLine : c ≠ '\n') (open_ : c ≠ quote)
      (after : QuotedInside quote more) : QuotedInside quote (c :: more)

/-- What stands in a backtick literal, and in the braces of its interpolations. -/
inductive Inside : Enclosure → Text → Prop
  | nil (enclosure : Enclosure) : Inside enclosure []
  | escaped (c : Char) {more : Text} (after : Inside .literal more) :
      Inside .literal (escape :: c :: more)
  | char {c : Char} {more : Text} (unescaped : c ≠ escape) (open_ : c ≠ backtick)
      (plain : c = '$' → more.head? ≠ some '{') (after : Inside .literal more) :
      Inside .literal (c :: more)
  | interpolation {body more : Text} (within : Inside .brace body) (after : Inside .literal more) :
      Inside .literal ('$' :: '{' :: (body ++ '}' :: more))
  | code {c : Char} {more : Text} (flat : c ≠ '{') (open_ : c ≠ '}') (unmarked : c ≠ backtick)
      (unquoted : ¬ isQuote c) (after : Inside .brace more) : Inside .brace (c :: more)
  | braces {body more : Text} (within : Inside .brace body) (after : Inside .brace more) :
      Inside .brace ('{' :: (body ++ '}' :: more))
  | quoted {quote : Char} {body more : Text} (quotes : isQuote quote)
      (within : QuotedInside quote body) (after : Inside .brace more) :
      Inside .brace (quote :: (body ++ quote :: more))
  | literal {body more : Text} (within : Inside .literal body) (after : Inside .brace more) :
      Inside .brace (backtick :: (body ++ backtick :: more))

theorem afterQuoted?_inside {quote : Char} (quotes : isQuote quote) {inner : Text}
    (inside : QuotedInside quote inner) (rest : Text) :
    afterQuoted? quote (inner ++ quote :: rest) = some rest := by
  induction inside with
  | nil =>
    rw [List.nil_append, afterQuoted?_cons quotes]
    simp only [isQuote, Bool.or_eq_true, decide_eq_true_eq] at quotes
    rcases quotes with rfl | rfl <;> rfl
  | escaped c after ih =>
    rw [List.cons_append, afterQuoted?_cons quotes, if_pos rfl]
    exact ih
  | plain unescaped inLine open_ after ih =>
    rw [List.cons_append, afterQuoted?_cons quotes, if_neg unescaped, if_neg inLine, if_neg open_]
    exact ih

theorem marks_ne_of_quote {quote : Char} (quotes : isQuote quote) :
    quote ≠ '{' ∧ quote ≠ '}' ∧ quote ≠ backtick := by
  simp only [isQuote, Bool.or_eq_true, decide_eq_true_eq] at quotes
  rcases quotes with rfl | rfl <;> decide

/-- What an enclosure holds is read up to its mark, whatever follows and whatever else is open.
    The induction is over the parts that it holds. -/
theorem afterEnclosures?_inside {enclosure : Enclosure} {inner : Text}
    (inside : Inside enclosure inner) (outer : List Enclosure) (rest : Text) :
    afterEnclosures? (enclosure :: outer) (inner ++ enclosure.closer :: rest)
      = afterEnclosures? outer rest := by
  induction inside generalizing outer rest with
  | nil enclosure =>
    cases enclosure with
    | literal =>
      change afterEnclosures? (.literal :: outer) (backtick :: rest) = _
      rw [afterEnclosures?, if_neg (by decide), if_pos rfl]
    | brace =>
      change afterEnclosures? (.brace :: outer) ('}' :: rest) = _
      rw [afterEnclosures?, if_neg (by decide), if_pos rfl]
  | escaped c after ih =>
    rw [List.cons_append, afterEnclosures?, if_pos rfl]
    exact ih outer rest
  | @char c more unescaped open_ plain after ih =>
    have single : ¬ (c = '$' && (more ++ Enclosure.literal.closer :: rest).head? = some '{') := by
      simp only [Bool.and_eq_true, decide_eq_true_eq, not_and]
      intro dollar
      cases more with
      | nil => simp [Enclosure.closer, backtick]
      | cons d more => exact plain dollar
    rw [List.cons_append, afterEnclosures?, if_neg unescaped, if_neg open_, if_neg single]
    exact ih outer rest
  | interpolation within after ihWithin ih =>
    rw [List.cons_append, afterEnclosures?, if_neg (by decide), if_neg (by decide),
      if_pos (by simp), List.cons_append, List.tail_cons, List.append_assoc]
    exact (ihWithin _ _).trans (ih outer rest)
  | code flat open_ unmarked unquoted after ih =>
    rw [List.cons_append, afterEnclosures?, if_neg flat, if_neg open_, if_neg unmarked,
      if_neg unquoted]
    exact ih outer rest
  | braces within after ihWithin ih =>
    rw [List.cons_append, afterEnclosures?, if_pos rfl, List.append_assoc]
    exact (ihWithin _ _).trans (ih outer rest)
  | quoted quotes within after ih =>
    obtain ⟨flat, open_, unmarked⟩ := marks_ne_of_quote quotes
    rw [List.cons_append, afterEnclosures?, if_neg flat, if_neg open_, if_neg unmarked,
      if_pos quotes, List.append_assoc]
    split
    · rename_i found
      rw [List.cons_append, afterQuoted?_inside quotes within] at found
      rw [← Option.some.inj found]
      exact ih outer rest
    · rename_i found
      rw [List.cons_append, afterQuoted?_inside quotes within] at found
      contradiction
  | literal within after ihWithin ih =>
    rw [List.cons_append, afterEnclosures?, if_neg (by decide), if_neg (by decide), if_pos rfl,
      List.append_assoc]
    exact (ihWithin _ _).trans (ih outer rest)

def Enclosure.plain : Enclosure → Char → Bool
  | .literal, c => c ≠ escape && c ≠ backtick && c ≠ '$'
  | .brace, c => c ≠ '{' && c ≠ '}' && c ≠ backtick && !isQuote c

theorem Inside.behind_run {enclosure : Enclosure} {run more : Text}
    (plain : run.all enclosure.plain) (after : Inside enclosure more) :
    Inside enclosure (run ++ more) := by
  induction run with
  | nil => exact after
  | cons c run ih =>
    rw [List.all_cons, Bool.and_eq_true] at plain
    have later := ih plain.2
    have here := plain.1
    cases enclosure with
    | literal =>
      simp only [Enclosure.plain, Bool.and_eq_true, decide_eq_true_eq] at here
      exact .char here.1.1 here.1.2 (fun dollar => absurd dollar here.2) later
    | brace =>
      simp only [Enclosure.plain, Bool.and_eq_true, decide_eq_true_eq, Bool.not_eq_true'] at here
      exact .code here.1.1.1 here.1.1.2 here.1.2 (by simp [here.2]) later

theorem afterVerbatim?_inside {inner : Text} (inside : Inside .literal inner) (rest : Text) :
    afterVerbatim? (inner ++ backtick :: rest) = some rest := by
  have read := afterEnclosures?_inside inside [] rest
  rwa [afterEnclosures?] at read

namespace Spread
variable {units : Char → Text} (spread : Spread units)
include spread

theorem cut_narrow {t a b : Text} {c : Char} (narrow : isWide c = false)
    (split : t.flatMap units = a ++ c :: b) :
    ∃ front rest, t = front ++ c :: rest ∧ a = front.flatMap units ∧ b = rest.flatMap units := by
  induction t generalizing a with
  | nil => simp at split
  | cons d t ih =>
    rw [List.flatMap_cons] at split
    rcases List.append_eq_append_iff.1 split with ⟨extra, rfl, later⟩ | ⟨extra, here, later⟩
    · obtain ⟨front, rest, rfl, rfl, rfl⟩ := ih later
      exact ⟨d :: front, rest, rfl, rfl, rfl⟩
    · cases extra with
      | nil =>
        obtain ⟨front, rest, rfl, empty, rfl⟩ := ih (a := []) later.symm
        refine ⟨d :: front, rest, rfl, ?_, rfl⟩
        rw [List.flatMap_cons, ← empty, here, List.append_nil, List.append_nil]
      | cons e extra =>
        obtain ⟨rfl, rest⟩ := List.cons.inj later
        cases wide : isWide d with
        | true =>
          have within := spread.wide d wide c (by rw [here]; simp)
          rw [narrow] at within
          contradiction
        | false =>
          rw [spread.narrow d wide] at here
          obtain ⟨rfl, same⟩ :=
            (List.append_eq_singleton_iff.1 here.symm).resolve_right (by simp)
          obtain ⟨rfl, rfl⟩ := List.cons.inj same
          exact ⟨[], t, rfl, rfl, rest⟩

end Spread

theorem suffix_eq_of_width {t a b : Text} (first : a <:+ t) (second : b <:+ t)
    (equal : width a = width b) : a = b := by
  obtain ⟨c, rfl⟩ := first
  obtain ⟨d, same⟩ := second
  have fronts : width c = width d := by
    have whole := congrArg width same
    simp only [width_append] at whole
    omega
  exact (append_inj_of_width same.symm fronts).2

theorem afterVerbatim?_bytes {t rest : Text}
    (read : afterVerbatim? (byteText t) = some (byteText rest)) (ending : rest <:+ t) :
    afterVerbatim? t = some rest := by
  rw [byteText_eq, afterVerbatim?, byteUnits_spread.afterEnclosures?,
    Option.map_eq_some_iff] at read
  obtain ⟨found, closed, same⟩ := read
  rw [← byteText_eq] at same
  have equal : width found = width rest := by
    rw [← byteText_length, same, byteText_length]
  rwa [suffix_eq_of_width (afterEnclosures?_suffix closed) ending equal] at closed

/-- A literal in the bytes of a text is read up to the backtick that closes it, and it is one span
    exactly if the lexer comes to the backtick that opens it. -/
theorem literal_span_iff_reached {t front inner rest : Text}
    (split : byteText t = front ++ backtick :: (inner ++ backtick :: rest))
    (inside : Inside .literal inner) :
    afterVerbatim? (inner ++ backtick :: rest) = some rest ∧
    (∃ before content behind, t = before ++ backtick :: (content ++ backtick :: behind) ∧
      byteText before = front ∧ byteText content = inner ∧
      afterVerbatim? (content ++ backtick :: behind) = some behind) ∧
    (⟨.verbatimText, front.length, front.length + inner.length + 2⟩ ∈ spansIn t ↔
      Reached t front.length) := by
  have whole := afterVerbatim?_inside inside rest
  have narrow : isWide backtick = false := by decide
  rw [byteText_eq] at split
  obtain ⟨before, tail, rfl, rfl, cut⟩ := byteUnits_spread.cut_narrow narrow split
  obtain ⟨content, behind, rfl, rfl, rfl⟩ := byteUnits_spread.cut_narrow narrow cut.symm
  have read : afterVerbatim? (content ++ backtick :: behind) = some behind := by
    apply afterVerbatim?_bytes
    · rw [byteText_eq, byteText_eq, ← cut]
      exact whole
    · exact ⟨content ++ [backtick], by simp⟩
  refine ⟨whole, ⟨before, content, behind, rfl, byteText_eq before, byteText_eq content, read⟩, ?_⟩
  rw [← byteText_eq, ← byteText_eq, byteText_length, byteText_length, spansIn, mem_spansOf,
    mem_extents_iff_piece rfl (by simp)]
  have found (back : Text) : piece? back backtick (content ++ backtick :: behind)
      = some (.span .verbatimText, behind) := by
    rw [piece?_verbatim, read, Option.map_some]
  have size : width (backtick :: (content ++ [backtick])) = width content + 2 := by
    have one : backtick.utf8Size = 1 := by decide
    rw [width_cons, width_append, width_cons, width_nil, one]
    omega
  constructor
  · exact fun member => member.1
  · intro reached
    refine ⟨reached, content ++ [backtick], behind, by simp, found _, ?_⟩
    rw [size, Nat.add_assoc]

def bracedEntry : Text := "\x7bk: '\x7d'\x7d[`\\``]"

theorem bracedEntry_inside : Inside .brace bracedEntry := by
  have key : QuotedInside '\x27' ['}'] := .plain (by decide) (by decide) (by decide) .nil
  have object : Inside .brace (['k', ':', ' '] ++ '\x27' :: (['}'] ++ ['\x27'])) :=
    .behind_run (by decide) (.quoted (by decide) key (.nil .brace))
  have last : Inside .brace ([']'] ++ []) := .behind_run (by decide) (.nil .brace)
  have index : Inside .brace (['['] ++ backtick :: ([escape, backtick] ++ [backtick, ']'])) :=
    .behind_run (by decide) (.literal (.escaped backtick (.nil .literal)) last)
  exact .braces object index

def entryLiteral : Text := "x = `é$\x7b" ++ bracedEntry ++ "\x7d`;"

theorem entryLiteral_span :
    byteText entryLiteral = "x = " ++ backtick ::
      (("Ã©$\x7b" ++ bracedEntry ++ "\x7d" : Text) ++ backtick :: ";") ∧
    Inside .literal ("Ã©$\x7b" ++ bracedEntry ++ "\x7d" : Text) ∧
    Reached entryLiteral 4 ∧ ⟨.verbatimText, 4, 25⟩ ∈ spansIn entryLiteral := by
  have split : byteText entryLiteral = "x = " ++ backtick ::
      (("Ã©$\x7b" ++ bracedEntry ++ "\x7d" : Text) ++ backtick :: ";") := by decide +kernel
  have bytes : ("Ã©" : Text).all Enclosure.literal.plain := by decide +kernel
  have inside : Inside .literal ("Ã©$\x7b" ++ bracedEntry ++ "\x7d" : Text) :=
    @Inside.behind_run .literal "Ã©" _ bytes (.interpolation bracedEntry_inside (.nil .literal))
  have reached : Reached entryLiteral 4 := by decide +kernel
  obtain ⟨-, -, span⟩ := literal_span_iff_reached split inside
  exact ⟨split, inside, reached, span.2 reached⟩

end ComponentBundle.Source
