import ComponentBundle.Proofs.FinalLine
import ComponentBundle.Proofs.ImportReading

/-!
Where the segments of a text stand. Each position is in one segment at most, a segment that is
no code starts with a character that no name holds, and the span over a position is found.
-/
namespace ComponentBundle.Text
open ComponentBundle.Source

theorem cut_of_width_le {a b c d : Text} (same : a ++ b = c ++ d) (le : width a ≤ width c) :
    ∃ extra, c = a ++ extra ∧ b = extra ++ d := by
  rcases List.append_eq_append_iff.1 same with found | ⟨extra, longer, rest⟩
  · exact found
  · have empty : extra = [] := by
      by_contra filled
      have positive := width_pos filled
      rw [longer, width_append] at le
      omega
    rw [empty, List.append_nil] at longer
    rw [empty, List.nil_append] at rest
    exact ⟨[], by rw [longer, List.append_nil], rest.symm⟩

theorem char_of_cut {a inside rest b tail : Text} {c : Char}
    (same : a ++ (inside ++ rest) = b ++ c :: tail) (low : width a ≤ width b)
    (high : width b < width (a ++ inside)) :
    ∃ lead ending, b = a ++ lead ∧ inside = lead ++ c :: ending := by
  obtain ⟨lead, rfl, split⟩ := cut_of_width_le same low
  have short : width lead < width inside := by
    simp only [width_append] at high
    omega
  obtain ⟨ending, rfl, first⟩ := cut_of_width_le split.symm (Nat.le_of_lt short)
  cases ending with
  | nil => simp at short
  | cons d ending =>
    obtain ⟨rfl, -⟩ := List.cons.inj first
    exact ⟨lead, ending, rfl, rfl⟩

theorem append_inj_of_width {a b c d : Text} (same : a ++ b = c ++ d) (equal : width a = width c) :
    a = c ∧ b = d := by
  obtain ⟨extra, rfl, rfl⟩ := cut_of_width_le same (Nat.le_of_eq equal)
  have empty : extra = [] := by
    by_contra filled
    have positive := width_pos filled
    rw [width_append] at equal
    omega
  rw [empty, List.append_nil]
  exact ⟨rfl, rfl⟩

end ComponentBundle.Text

namespace ComponentBundle.Source
open ComponentBundle.Text ComponentBundle.Module

theorem mem_extentsFrom {segments : List Segment} {start : Nat} {extent : Extent}
    (h : extent ∈ extentsFrom start segments) :
    ∃ before segment behind, segments = before ++ segment :: behind ∧
      extent.kind = segment.kind ∧ extent.start = start + width (before.flatMap Segment.text) ∧
      extent.stop = extent.start + width segment.text := by
  induction segments generalizing start with
  | nil => contradiction
  | cons segment more ih =>
    rcases List.mem_cons.1 h with rfl | later
    · exact ⟨[], segment, more, rfl, rfl, rfl, rfl⟩
    · obtain ⟨before, found, behind, rfl, kind, here, stop⟩ := ih later
      refine ⟨segment :: before, found, behind, rfl, kind, ?_, stop⟩
      rw [here, List.flatMap_cons, width_append, Nat.add_assoc]

theorem mem_extentsFrom_middle (start : Nat) (before : List Segment) (segment : Segment)
    (behind : List Segment) :
    ⟨segment.kind, start + width (before.flatMap Segment.text),
        start + width (before.flatMap Segment.text) + width segment.text⟩
      ∈ extentsFrom start (before ++ segment :: behind) := by
  rw [extentsFrom_append]
  exact List.mem_append_right _ List.mem_cons_self

theorem text_of_lex {t : Text} {before behind : List Segment} {segment : Segment}
    (split : lex t = before ++ segment :: behind) :
    t = before.flatMap Segment.text ++ (segment.text ++ behind.flatMap Segment.text) := by
  have whole := lex_text t
  rw [split, List.flatMap_append, List.flatMap_cons] at whole
  exact whole.symm

theorem cut_of_mem_extents {t : Text} {extent : Extent} (h : extent ∈ extents (lex t)) :
    ∃ segment ∈ lex t, extent.kind = segment.kind ∧ ∃ front rest,
      t = front ++ (segment.text ++ rest) ∧ extent.start = width front ∧
      extent.stop = width front + width segment.text := by
  obtain ⟨before, segment, behind, split, kind, here, stop⟩ := mem_extentsFrom h
  rw [Nat.zero_add] at here
  rw [here] at stop
  refine ⟨segment, ?_, kind, _, _, text_of_lex split, here, stop⟩
  rw [split]
  exact List.mem_append_right _ List.mem_cons_self

theorem extentsFrom_apart (start : Nat) (segments : List Segment) :
    (extentsFrom start segments).Pairwise fun a b => a.stop ≤ b.start := by
  induction segments generalizing start with
  | nil => exact List.Pairwise.nil
  | cons segment more ih =>
    refine List.pairwise_cons.2 ⟨?_, ih _⟩
    intro extent later
    exact le_start_of_mem_extentsFrom later

theorem eq_or_apart {α : Type} {R : α → α → Prop} {l : List α} (apart : l.Pairwise R) {a b : α}
    (insideA : a ∈ l) (insideB : b ∈ l) : a = b ∨ R a b ∨ R b a := by
  induction l with
  | nil => contradiction
  | cons c l ih =>
    obtain ⟨first, others⟩ := List.pairwise_cons.1 apart
    rcases List.mem_cons.1 insideA with rfl | laterA <;>
      rcases List.mem_cons.1 insideB with rfl | laterB
    · exact Or.inl rfl
    · exact Or.inr (Or.inl (first b laterB))
    · exact Or.inr (Or.inr (first a laterA))
    · exact ih others laterA laterB

def Extent.Over (extent : Extent) (position : Nat) : Prop :=
  extent.start ≤ position ∧ position < extent.stop

def Span.Over (span : Span) (position : Nat) : Prop :=
  span.start ≤ position ∧ position < span.stop

theorem extent_eq_of_over {segments : List Segment} {a b : Extent}
    (insideA : a ∈ extents segments) (insideB : b ∈ extents segments) {position : Nat}
    (overA : a.Over position) (overB : b.Over position) : a = b := by
  unfold Extent.Over at overA overB
  rcases eq_or_apart (extentsFrom_apart 0 segments) insideA insideB with same | before | behind
  · exact same
  · omega
  · omega

theorem inCode_iff {segments : List Segment} {position : Nat} :
    inCode segments position ↔
      ∃ extent ∈ extents segments, extent.kind = .code ∧ extent.Over position := by
  simp [inCode, Extent.Over, and_assoc]

theorem mem_spansOf {segments : List Segment} {span : Span} :
    span ∈ spansOf segments ↔ ⟨.span span.kind, span.start, span.stop⟩ ∈ extents segments := by
  rw [spansOf, List.mem_filterMap]
  constructor
  · rintro ⟨⟨kind, start, stop⟩, member, isSpan⟩
    cases kind with
    | span kind =>
      obtain rfl := Option.some.inj isSpan
      exact member
    | _ => contradiction
  · intro member
    exact ⟨_, member, rfl⟩

theorem spansOf_apart (segments : List Segment) :
    (spansOf segments).Pairwise fun a b => a.stop ≤ b.start := by
  apply (extentsFrom_apart 0 segments).filterMap
  intro a b apart span isA other isB
  obtain ⟨_, -, rfl⟩ := Option.map_eq_some_iff.1 isA
  obtain ⟨_, -, rfl⟩ := Option.map_eq_some_iff.1 isB
  exact apart

theorem spanOver?_eq_some_iff {t : Text} {position : Nat} {span : Span} :
    spanOver? (spansIn t) position = some span ↔ span ∈ spansIn t ∧ span.Over position := by
  simp only [spanOver?, Option.filter_eq_some_iff, List.find?_eq_some_iff_append, decide_eq_true_eq]
  constructor
  · rintro ⟨⟨high, before, behind, split, -⟩, low⟩
    refine ⟨?_, low, high⟩
    rw [split]
    exact List.mem_append_right _ List.mem_cons_self
  · rintro ⟨member, low, high⟩
    obtain ⟨before, behind, split⟩ := List.append_of_mem member
    refine ⟨⟨high, before, behind, split, ?_⟩, low⟩
    intro other earlier
    have apart := spansOf_apart (lex t)
    rw [← spansIn, split, List.pairwise_append] at apart
    have passed := apart.2.2 other earlier span List.mem_cons_self
    simp only [Bool.not_eq_true', decide_eq_false_iff_not]
    omega

def opensPiece (c : Char) : Bool :=
  c = '/' || c = '<' || c = '{' || c = backtick || isQuote c || c = '@'

theorem opensPiece_of_piece? {before t : Text} {c : Char} (h : piece? before c t ≠ none) :
    opensPiece c := by
  unfold piece? at h
  simp only [opensPiece, Bool.or_eq_true, decide_eq_true_eq]
  grind

theorem isNameChar_of_opensPiece {c : Char} (h : opensPiece c) : isNameChar c = false := by
  simp only [opensPiece, isQuote, Bool.or_eq_true, decide_eq_true_eq] at h
  rcases h with ((((rfl | rfl) | rfl) | rfl) | rfl | rfl) | rfl <;> decide

theorem lexFrom_heads (before code t : Text) : ∀ segment ∈ lexFrom before code t,
    segment.kind = .code ∨ segment.text.head?.any opensPiece := by
  induction before, code, t using lexing_induction with
  | nil before code =>
    rw [lexFrom]
    exact fun _ member => Or.inl (mem_codeSegment member).1
  | code before code c t found ih =>
    rw [lexFrom_code found]
    exact ih
  | piece before code c inside kind rest found ih =>
    rw [lexFrom_piece found]
    intro segment member
    rcases List.mem_append.1 member with collected | later
    · exact Or.inl (mem_codeSegment collected).1
    · rcases List.mem_cons.1 later with rfl | later
      · right
        exact opensPiece_of_piece? (by rw [found]; simp)
      · exact ih segment later

theorem lex_heads (t : Text) : ∀ segment ∈ lex t,
    segment.kind = .code ∨ segment.text.head?.any opensPiece :=
  lexFrom_heads [] [] t

theorem exists_extent {segments : List Segment} {start position : Nat} (low : start ≤ position)
    (high : position < start + width (segments.flatMap Segment.text)) :
    ∃ extent ∈ extentsFrom start segments, extent.Over position := by
  induction segments generalizing start with
  | nil => exact absurd high (Nat.not_lt_of_le low)
  | cons segment more ih =>
    rw [extentsFrom, List.exists_mem_cons_iff]
    by_cases here : position < start + width segment.text
    · exact Or.inl ⟨low, here⟩
    · right
      apply ih (Nat.le_of_not_lt here)
      rwa [List.flatMap_cons, width_append, ← Nat.add_assoc] at high

theorem inCode_of_leading {t front rest : Text} {c : Char} (split : t = front ++ c :: rest)
    (plain : ∀ d ∈ front ++ [c], opensPiece d = false) : inCode (lex t) (width front) := by
  have high : width front < 0 + width ((lex t).flatMap Segment.text) := by
    have positive := c.utf8Size_pos
    rw [lex_text, split, width_append, width_cons]
    omega
  obtain ⟨extent, member, spanned⟩ := exists_extent (Nat.zero_le _) high
  refine inCode_iff.2 ⟨extent, member, ?_, spanned⟩
  obtain ⟨segment, known, kind, before, behind, cut, start, -⟩ := cut_of_mem_extents member
  rw [kind]
  refine (lex_heads t segment known).resolve_right ?_
  intro opens
  have low := spanned.1
  rw [start] at low
  obtain ⟨lead, rfl, tail⟩ := cut_of_width_le (cut.symm.trans split) low
  obtain ⟨d, inside, lexeme⟩ := List.exists_cons_of_ne_nil (lexFrom_ne_nil [] [] t segment known)
  rw [lexeme] at tail opens
  have shown : d ∈ before ++ lead ++ [c] := by
    cases lead with
    | nil =>
      obtain ⟨rfl, -⟩ := List.cons.inj tail
      simp
    | cons e lead =>
      obtain ⟨rfl, -⟩ := List.cons.inj tail
      simp
  rw [List.head?_cons, Option.any_some, plain d shown] at opens
  contradiction

theorem apart_of_name {t front name rest : Text} (split : t = front ++ (name ++ rest))
    (named : ∀ c ∈ name, isNameChar c) {span : Span} (member : span ∈ spansIn t)
    (outside : ¬ span.Over (width front)) :
    width front + width name ≤ span.start ∨ span.stop ≤ width front := by
  obtain ⟨segment, known, kind, before, behind, cut, here, stop⟩ :=
    cut_of_mem_extents (mem_spansOf.1 member)
  dsimp only at kind here stop
  by_contra within
  rw [not_or, Nat.not_le, Nat.not_le] at within
  have low : width front < width before := by
    unfold Span.Over at outside
    omega
  rcases lex_heads t segment known with code | head
  · rw [code] at kind
    contradiction
  · obtain ⟨c, inside, lexeme⟩ := List.exists_cons_of_ne_nil (lexFrom_ne_nil [] [] t segment known)
    rw [lexeme, List.cons_append] at cut
    have high : width before < width (front ++ name) := by
      rw [width_append]
      omega
    obtain ⟨lead, ending, -, rfl⟩ := char_of_cut (split.symm.trans cut) (Nat.le_of_lt low) high
    rw [lexeme, List.head?_cons, Option.any_some] at head
    have other := isNameChar_of_opensPiece head
    rw [named c (by simp)] at other
    contradiction

theorem kindAt?_of_inCode {t : Text} {position : Nat} (code : inCode (lex t) position) :
    kindAt? (spansIn t) position = none := by
  obtain ⟨extent, inside, kind, here⟩ := inCode_iff.1 code
  rw [kindAt?, Option.map_eq_none_iff, Option.eq_none_iff_forall_ne_some]
  intro span found
  obtain ⟨member, spanned⟩ := spanOver?_eq_some_iff.1 found
  rw [extent_eq_of_over inside (mem_spansOf.1 member) here spanned] at kind
  contradiction

/-! The characters of the code. -/

theorem mem_placed {start position : Nat} {c : Char} {t : Text} :
    (position, c) ∈ placed start t ↔
      ∃ front rest, t = front ++ c :: rest ∧ position = start + width front := by
  induction t generalizing start with
  | nil => simp [placed]
  | cons d t ih =>
    rw [placed, List.mem_cons, ih, Prod.mk.injEq]
    constructor
    · rintro (⟨rfl, rfl⟩ | ⟨front, rest, rfl, rfl⟩)
      · exact ⟨[], t, rfl, rfl⟩
      · exact ⟨d :: front, rest, rfl, by rw [width_cons, Nat.add_assoc]⟩
    · rintro ⟨front, rest, split, rfl⟩
      cases front with
      | nil =>
        obtain ⟨rfl, -⟩ := List.cons.inj split
        exact Or.inl ⟨rfl, rfl⟩
      | cons e front =>
        obtain ⟨rfl, rfl⟩ := List.cons.inj split
        exact Or.inr ⟨front, rest, rfl, by rw [width_cons, Nat.add_assoc]⟩

theorem mem_placedCode {start position : Nat} {c : Char} {segments : List Segment} :
    (position, c) ∈ placedCode start segments ↔ ∃ before segment behind,
      segments = before ++ segment :: behind ∧ segment.kind = .code ∧
      (position, c) ∈ placed (start + width (before.flatMap Segment.text)) segment.text := by
  induction segments generalizing start with
  | nil => simp [placedCode]
  | cons first more ih =>
    rw [placedCode, List.mem_append, ih]
    constructor
    · rintro (here | ⟨before, segment, behind, rfl, code, here⟩)
      · split at here
        · rename_i code
          exact ⟨[], first, more, rfl, code, here⟩
        · contradiction
      · refine ⟨first :: before, segment, behind, rfl, code, ?_⟩
        rwa [List.flatMap_cons, width_append, ← Nat.add_assoc]
    · rintro ⟨before, segment, behind, split, code, here⟩
      cases before with
      | nil =>
        obtain ⟨rfl, -⟩ := List.cons.inj split
        left
        rwa [if_pos code]
      | cons other before =>
        obtain ⟨rfl, rfl⟩ := List.cons.inj split
        refine Or.inr ⟨before, segment, behind, rfl, code, ?_⟩
        rwa [List.flatMap_cons, width_append, ← Nat.add_assoc] at here

theorem mem_codeChars {t : Text} {position : Nat} {c : Char} :
    (position, c) ∈ codeChars t ↔ inCode (lex t) position ∧
      ∃ front rest, t = front ++ c :: rest ∧ position = width front := by
  rw [codeChars, mem_placedCode, inCode_iff]
  constructor
  · rintro ⟨before, segment, behind, split, code, here⟩
    obtain ⟨front, rest, lexeme, rfl⟩ := mem_placed.1 here
    have positive := c.utf8Size_pos
    have member := mem_extentsFrom_middle 0 before segment behind
    rw [← split] at member
    refine ⟨⟨_, member, code, Nat.le_add_right .., ?_⟩, before.flatMap Segment.text ++ front,
      rest ++ behind.flatMap Segment.text, ?_, ?_⟩
    · dsimp only
      rw [lexeme, width_append, width_cons]
      omega
    · rw [text_of_lex split, lexeme]
      simp
    · rw [Nat.zero_add, width_append]
  · rintro ⟨⟨extent, member, code, low, high⟩, front, rest, cut, rfl⟩
    obtain ⟨before, segment, behind, split, kind, here, stop⟩ := mem_extentsFrom member
    rw [Nat.zero_add] at here
    rw [here] at low
    rw [stop, here] at high
    rw [← width_append] at high
    obtain ⟨inside, left, rfl, lexeme⟩ :=
      char_of_cut ((text_of_lex split).symm.trans cut) low high
    refine ⟨before, segment, behind, split, kind ▸ code, mem_placed.2 ⟨inside, left, lexeme, ?_⟩⟩
    rw [Nat.zero_add, width_append]

theorem placed_apart (start : Nat) (t : Text) :
    (placed start t).Pairwise fun a b => a.1 + a.2.utf8Size ≤ b.1 := by
  induction t generalizing start with
  | nil => exact List.Pairwise.nil
  | cons c t ih =>
    refine List.pairwise_cons.2 ⟨?_, ih _⟩
    rintro ⟨position, d⟩ later
    obtain ⟨front, -, -, rfl⟩ := mem_placed.1 later
    exact Nat.le_add_right ..

theorem placedCode_apart (start : Nat) (segments : List Segment) :
    (placedCode start segments).Pairwise fun a b => a.1 + a.2.utf8Size ≤ b.1 := by
  induction segments generalizing start with
  | nil => exact List.Pairwise.nil
  | cons segment more ih =>
    rw [placedCode, List.pairwise_append]
    refine ⟨?_, ih _, ?_⟩
    · split
      · exact placed_apart start segment.text
      · exact List.Pairwise.nil
    · rintro ⟨position, c⟩ here ⟨place, d⟩ later
      split at here
      · obtain ⟨front, rest, lexeme, rfl⟩ := mem_placed.1 here
        obtain ⟨before, _, _, -, -, later⟩ := mem_placedCode.1 later
        obtain ⟨inside, _, -, rfl⟩ := mem_placed.1 later
        dsimp only
        rw [lexeme, width_append, width_cons]
        omega
      · contradiction

end ComponentBundle.Source
