import ComponentBundle.Proofs.BytePlaces

/-!
What is asked about the positions of a text agrees with its segments. The spans are cut in two by
any position, so that a search by halves finds the one over it; each position is in code, in a
comment or under a span; and the bytes of the code are those whose positions are in code.
-/
namespace ComponentBundle.Source
open ComponentBundle.Text ComponentBundle.Module

def InComment (segments : List Segment) (position : Nat) : Prop :=
  ∃ extent ∈ extents segments, extent.kind = .comment ∧ extent.Over position

theorem spanOver?_isSome_iff {t : Text} {position : Nat} :
    (spanOver? (spansIn t) position).isSome ↔
      ∃ extent ∈ extents (lex t), extent.kind.span?.isSome ∧ extent.Over position := by
  rw [Option.isSome_iff_exists]
  constructor
  · rintro ⟨span, found⟩
    obtain ⟨member, here⟩ := spanOver?_eq_some_iff.1 found
    exact ⟨_, mem_spansOf.1 member, rfl, here⟩
  · rintro ⟨⟨kind, start, stop⟩, member, isSpan, here⟩
    cases kind with
    | span kind =>
      exact ⟨⟨kind, start, stop⟩, spanOver?_eq_some_iff.2 ⟨mem_spansOf.2 member, here⟩⟩
    | _ => contradiction

theorem not_both {segments : List Segment} {position : Nat} (p q : SegmentKind → Prop)
    (other : ∀ kind, p kind → ¬ q kind) :
    ¬ ((∃ extent ∈ extents segments, p extent.kind ∧ extent.Over position) ∧
      ∃ extent ∈ extents segments, q extent.kind ∧ extent.Over position) := by
  rintro ⟨⟨a, insideA, first, overA⟩, b, insideB, second, overB⟩
  obtain rfl := extent_eq_of_over insideA insideB overA overB
  exact other a.kind first second

theorem lt_width_iff {t : Text} {position : Nat} :
    position < width t ↔ ∃ extent ∈ extents (lex t), extent.Over position := by
  constructor
  · intro within
    exact exists_extent (Nat.zero_le _) (by rwa [lex_text, Nat.zero_add])
  · rintro ⟨extent, member, -, high⟩
    obtain ⟨segment, -, -, front, rest, split, -, stop⟩ := cut_of_mem_extents member
    rw [split, width_append, width_append]
    omega

theorem one_of_three (t : Text) (position : Nat) :
    (position < width t ↔ inCode (lex t) position ∨ InComment (lex t) position ∨
        (spanOver? (spansIn t) position).isSome) ∧
      ¬ (inCode (lex t) position ∧ InComment (lex t) position) ∧
      ¬ (inCode (lex t) position ∧ (spanOver? (spansIn t) position).isSome) ∧
      ¬ (InComment (lex t) position ∧ (spanOver? (spansIn t) position).isSome) := by
  rw [inCode_iff, spanOver?_isSome_iff, InComment]
  refine ⟨?_, not_both (· = .code) (· = .comment) ?_,
    not_both (· = .code) (fun kind => kind.span?.isSome) ?_,
    not_both (· = .comment) (fun kind => kind.span?.isSome) ?_⟩
  · have kinds : ∀ kind : SegmentKind, kind = .code ∨ kind = .comment ∨ kind.span?.isSome := by
      rintro (_ | _ | _) <;> simp [SegmentKind.span?]
    simp only [lt_width_iff, ← exists_or, ← and_or_left, ← or_and_right, kinds, true_and]
  · rintro _ rfl
    simp
  · rintro _ rfl
    simp [SegmentKind.span?]
  · rintro _ rfl
    simp [SegmentKind.span?]

theorem start_le_stop_of_mem_spansIn {t : Text} {span : Span} (member : span ∈ spansIn t) :
    span.start ≤ span.stop := by
  obtain ⟨segment, -, -, front, rest, -, start, stop⟩ :=
    cut_of_mem_extents (mem_spansOf.1 member)
  dsimp only at start stop
  omega

/-- A position parts the spans: those that stop before it come first, and the span over it can only
be the first of the others. -/
theorem spanOver?_partition (t : Text) (position : Nat) : ∃ before behind,
    spansIn t = before ++ behind ∧ (∀ span ∈ before, span.stop ≤ position) ∧
      (∀ span ∈ behind, position < span.stop) ∧
      spanOver? (spansIn t) position
        = behind.head?.filter fun span => span.start ≤ position := by
  refine ⟨(spansIn t).takeWhile fun span => !decide (position < span.stop),
    (spansIn t).dropWhile fun span => !decide (position < span.stop),
    List.takeWhile_append_dropWhile.symm, ?_, ?_, ?_⟩
  · intro span inside
    have passed := List.mem_takeWhile_imp inside
    simpa using passed
  · have apart : ((spansIn t).dropWhile fun span => !decide (position < span.stop)).Pairwise
        fun a b => a.stop ≤ b.start := (spansOf_apart (lex t)).sublist (List.dropWhile_sublist _)
    have within : ∀ span ∈ (spansIn t).dropWhile fun span => !decide (position < span.stop),
        span.start ≤ span.stop := fun span inside =>
      start_le_stop_of_mem_spansIn ((List.dropWhile_sublist _).subset inside)
    cases left : (spansIn t).dropWhile fun span => !decide (position < span.stop) with
    | nil => simp
    | cons first more =>
      rw [left] at apart within
      have high : position < first.stop := by simpa using stop_of_dropWhile_cons left
      refine List.forall_mem_cons.2 ⟨high, fun span later => ?_⟩
      have behind := (List.pairwise_cons.1 apart).1 span later
      have := within span (List.mem_cons_of_mem _ later)
      omega
  · rw [spanOver?, List.find?_eq_head?_dropWhile_not]

theorem eq_of_ordered {α : Type} {l m : List (Nat × α)} (first : l.Pairwise fun a b => a.1 < b.1)
    (second : m.Pairwise fun a b => a.1 < b.1) (same : ∀ x, x ∈ l ↔ x ∈ m) : l = m := by
  have apart : ∀ {n : List (Nat × α)}, n.Pairwise (fun a b => a.1 < b.1) → n.Nodup := by
    intro n ordered
    refine ordered.imp ?_
    rintro a _ smaller rfl
    exact Nat.lt_irrefl _ smaller
  refine ((List.perm_ext_iff_of_nodup (apart first) (apart second)).2 same).eq_of_pairwise ?_
    first second
  intro a b _ _ smaller greater
  exact absurd smaller (Nat.lt_asymm greater)

theorem codeChars_eq (t : Text) :
    codeChars t = (placed 0 t).filter fun x => inCode (lex t) x.1 := by
  have less : ∀ {a b : Nat × Char}, a.1 + a.2.utf8Size ≤ b.1 → a.1 < b.1 := by
    intro a b behind
    have := a.2.utf8Size_pos
    omega
  refine eq_of_ordered ((placedCode_apart 0 (lex t)).imp less)
    (((placed_apart 0 t).imp less).filter _) ?_
  rintro ⟨position, c⟩
  rw [mem_codeChars, List.mem_filter, mem_placed, and_comm]
  simp only [Nat.zero_add]

theorem inCode_over_char {t front rest : Text} {c : Char} (split : t = front ++ c :: rest) {i : Nat}
    (small : i < c.utf8Size) :
    inCode (lex t) (width front + i) = inCode (lex t) (width front) := by
  rw [Bool.eq_iff_iff, inCode_iff, inCode_iff]
  refine exists_congr fun extent => and_congr_right fun member => and_congr_right fun _ => ?_
  obtain ⟨segment, -, -, before, behind, cut, start, stop⟩ := cut_of_mem_extents member
  rw [Extent.Over, Extent.Over, start, stop, ← width_append]
  exact range_over_char cut split small

theorem bytesOfCode_eq (t : Text) :
    bytesOfCode t = (placedBytes 0 t).filter fun x => inCode (lex t) x.1 := by
  have whole : ∀ place c, (place, c) ∈ placed 0 t → ∀ i < c.utf8Size,
      inCode (lex t) (place + i) = inCode (lex t) place := by
    intro place c inside i small
    obtain ⟨front, rest, split, rfl⟩ := mem_placed.1 inside
    rw [Nat.zero_add]
    exact inCode_over_char split small
  rw [filter_placedBytes (inCode (lex t)) whole, ← codeChars_eq, bytesOfCode]
  simp [placedBytes, bytes]

/-- The span over a position is the one segment of its kind there, and it stands behind all spans
that stop before. A position of the text is in code, in a comment or under a span, in one of them
and no more, and the bytes of the code are the bytes at the positions in code. -/
theorem lookups_agree (t : Text) (position : Nat) :
    (∀ span, spanOver? (spansIn t) position = some span ↔
      ⟨.span span.kind, span.start, span.stop⟩ ∈ extents (lex t) ∧
        span.start ≤ position ∧ position < span.stop) ∧
    (∃ before behind, spansIn t = before ++ behind ∧ (∀ span ∈ before, span.stop ≤ position) ∧
      (∀ span ∈ behind, position < span.stop) ∧
      spanOver? (spansIn t) position
        = behind.head?.filter fun span => span.start ≤ position) ∧
    ((position < width t ↔ inCode (lex t) position ∨ InComment (lex t) position ∨
        (spanOver? (spansIn t) position).isSome) ∧
      ¬ (inCode (lex t) position ∧ InComment (lex t) position) ∧
      ¬ (inCode (lex t) position ∧ (spanOver? (spansIn t) position).isSome) ∧
      ¬ (InComment (lex t) position ∧ (spanOver? (spansIn t) position).isSome)) ∧
    bytesOfCode t = (placedBytes 0 t).filter fun x => inCode (lex t) x.1 := by
  refine ⟨?_, spanOver?_partition t position, one_of_three t position, bytesOfCode_eq t⟩
  exact fun span => spanOver?_eq_some_iff.trans (and_congr_left' mem_spansOf)

end ComponentBundle.Source
