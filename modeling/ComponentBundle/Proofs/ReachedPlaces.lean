import ComponentBundle.Proofs.SegmentPlaces

/-!
The places that the lexer comes to, which are those that no earlier comment or span goes over. A
comment or span starts at a place exactly if the lexer comes to it and what stands there can be
read as one, after all that stands before it.
-/
namespace ComponentBundle.Source
open ComponentBundle.Text

def Reached (t : Text) (position : Nat) : Prop :=
  ∀ extent ∈ extents (lex t), extent.kind ≠ .code → extent.start < position →
    extent.stop ≤ position

instance (t : Text) (position : Nat) : Decidable (Reached t position) :=
  inferInstanceAs (Decidable (∀ extent ∈ extents (lex t), _))

/-- Lexing comes to a place that no piece goes over, with all that stands before it read. The
    induction is along the lexer, whatever code is collected. -/
theorem lexFrom_reached {before code t front rest : Text} {start : Nat} (split : t = front ++ rest)
    (reached : ∀ extent ∈ extentsFrom start (lexFrom before code t), extent.kind ≠ .code →
      extent.start < start + width (code.reverse ++ front) →
      extent.stop ≤ start + width (code.reverse ++ front)) :
    ∃ done collected,
      lexFrom before code t = done ++ lexFrom (front.reverse ++ before) collected rest ∧
      done.flatMap Segment.text ++ collected.reverse = code.reverse ++ front := by
  induction before, code, t using lexing_induction generalizing front start with
  | nil before code =>
    obtain ⟨rfl, rfl⟩ := List.append_eq_nil_iff.1 split.symm
    exact ⟨[], code, rfl, by simp⟩
  | code before code c t found ih =>
    cases front with
    | nil => exact ⟨[], code, by rw [split]; rfl, by simp⟩
    | cons d front =>
      obtain ⟨rfl, rfl⟩ := List.cons.inj split
      have longer : (c :: code).reverse ++ front = code.reverse ++ c :: front := by simp
      rw [lexFrom_code found] at reached ⊢
      rw [← longer] at reached ⊢
      obtain ⟨done, collected, lexed, texts⟩ := ih rfl reached
      exact ⟨done, collected, by simpa using lexed, texts⟩
  | piece before code c inside kind behind found ih =>
    cases front with
    | nil => exact ⟨[], code, by rw [split]; rfl, by simp⟩
    | cons d front =>
      obtain ⟨rfl, whole⟩ := List.cons.inj split
      rw [lexFrom_piece found, extentsFrom_append, extentsFrom, codeSegment_text] at reached
      have within := reached _ (List.mem_append_right _ List.mem_cons_self) (piece?_kind found)
        (by simp only [width_append, width_cons]; have := c.utf8Size_pos; omega)
      have short : width inside ≤ width front := by
        simp only [width_append, width_cons] at within
        omega
      obtain ⟨more, rfl, rfl⟩ := cut_of_width_le whole short
      have place : start + width code.reverse + width (c :: inside) + width more
          = start + width (code.reverse ++ c :: (inside ++ more)) := by
        simp only [width_append, width_cons]
        omega
      obtain ⟨done, collected, lexed, texts⟩ := ih rfl fun extent member => by
        rw [List.reverse_nil, List.nil_append, place]
        exact reached extent (List.mem_append_right _ (List.mem_cons_of_mem _ member))
      refine ⟨codeSegment code ++ ⟨kind, c :: inside⟩ :: done, collected, ?_, ?_⟩
      · rw [lexFrom_piece found, lexed]
        simp
      · rw [List.reverse_nil, List.nil_append] at texts
        simp [codeSegment_text, texts]

theorem lex_reached {t front rest : Text} (split : t = front ++ rest)
    (reached : Reached t (width front)) :
    ∃ done collected, lex t = done ++ lexFrom front.reverse collected rest ∧
      done.flatMap Segment.text ++ collected.reverse = front := by
  have apart : ∀ extent ∈ extentsFrom 0 (lexFrom [] [] t), extent.kind ≠ .code →
      extent.start < 0 + width (([] : Text).reverse ++ front) →
      extent.stop ≤ 0 + width (([] : Text).reverse ++ front) := by
    simpa [Reached, extents, lex] using reached
  obtain ⟨done, collected, lexed, texts⟩ := lexFrom_reached split apart
  exact ⟨done, collected, by simpa [lex] using lexed, by simpa using texts⟩

theorem lexFrom_collected {before code t : Text} (filled : code ≠ []) :
    ∃ more behind, lexFrom before code t = ⟨.code, code.reverse ++ more⟩ :: behind := by
  induction before, code, t using lexing_induction with
  | nil before code => exact ⟨[], [], by simp [lexFrom, codeSegment, filled]⟩
  | code before code c t found ih =>
    obtain ⟨more, behind, lexed⟩ := ih (List.cons_ne_nil c code)
    exact ⟨c :: more, behind, by rw [lexFrom_code found, lexed]; simp⟩
  | piece before code c inside kind rest found ih =>
    refine ⟨[], ⟨kind, c :: inside⟩ :: lexFrom ((c :: inside).reverse ++ before) [] rest, ?_⟩
    rw [lexFrom_piece found, codeSegment, List.isEmpty_eq_false_iff.2 filled, List.append_nil]
    rfl

section
variable {t front tail inside rest : Text} {c : Char} {kind : SegmentKind} {stop : Nat}

theorem inCode_of_reached (split : t = front ++ c :: tail) (reached : Reached t (width front))
    (code : piece? front.reverse c tail = none) : inCode (lex t) (width front) := by
  obtain ⟨done, collected, lexed, texts⟩ := lex_reached split reached
  obtain ⟨more, behind, found⟩ :=
    @lexFrom_collected (c :: front.reverse) _ tail (List.cons_ne_nil c collected)
  have member := mem_extentsFrom_middle 0 done ⟨.code, (c :: collected).reverse ++ more⟩ behind
  rw [← found, ← lexFrom_code code, ← lexed] at member
  have positive := c.utf8Size_pos
  refine inCode_iff.2 ⟨_, member, rfl, ?_, ?_⟩
  · simp only [← texts, width_append]
    omega
  · simp only [← texts, width_append, List.reverse_cons, width_cons]
    omega

theorem mem_extents_of_piece (split : t = front ++ c :: (inside ++ rest))
    (reached : Reached t (width front))
    (found : piece? front.reverse c (inside ++ rest) = some (kind, rest)) :
    ⟨kind, width front, width front + width (c :: inside)⟩ ∈ extents (lex t) := by
  obtain ⟨done, collected, lexed, texts⟩ := lex_reached split reached
  rw [lexFrom_piece found, ← List.append_assoc] at lexed
  have member := mem_extentsFrom_middle 0 (done ++ codeSegment collected) ⟨kind, c :: inside⟩
    (lexFrom ((c :: inside).reverse ++ front.reverse) [] rest)
  rwa [← lexed, List.flatMap_append, codeSegment_text, texts, Nat.zero_add] at member

theorem lt_of_mem_extents {extent : Extent} (member : extent ∈ extents (lex t)) :
    extent.start < extent.stop := by
  obtain ⟨segment, known, -, front, rest, -, start, stop⟩ := cut_of_mem_extents member
  have positive := width_pos (lexFrom_ne_nil [] [] t segment known)
  omega

theorem reached_of_mem_extents {extent : Extent} (member : extent ∈ extents (lex t)) :
    Reached t extent.start := by
  intro other inside _ before
  have filled := lt_of_mem_extents member
  rcases eq_or_apart (extentsFrom_apart 0 (lex t)) inside member with rfl | first | last
  · exact absurd before (Nat.lt_irrefl _)
  · exact first
  · omega

theorem mem_extents_iff_piece (split : t = front ++ c :: tail) (other : kind ≠ .code) :
    ⟨kind, width front, stop⟩ ∈ extents (lex t) ↔ Reached t (width front) ∧
      ∃ inside rest, tail = inside ++ rest ∧
        piece? front.reverse c tail = some (kind, rest) ∧
        stop = width front + width (c :: inside) := by
  constructor
  · intro member
    have reached : Reached t (width front) := reached_of_mem_extents member
    have here : Extent.Over ⟨kind, width front, stop⟩ (width front) :=
      ⟨Nat.le_refl _, lt_of_mem_extents member⟩
    refine ⟨reached, ?_⟩
    cases found : piece? front.reverse c tail with
    | none =>
      obtain ⟨extent, known, code, spanned⟩ :=
        inCode_iff.1 (inCode_of_reached split reached found)
      rw [extent_eq_of_over known member spanned here] at code
      exact absurd code other
    | some read =>
      obtain ⟨kind', rest⟩ := read
      obtain ⟨inside, rfl⟩ := piece?_suffix found
      have known := mem_extents_of_piece split reached found
      have same := extent_eq_of_over member known here ⟨Nat.le_refl _, lt_of_mem_extents known⟩
      obtain ⟨rfl, -, rfl⟩ := Extent.mk.inj same
      exact ⟨inside, rest, rfl, rfl, rfl⟩
  · rintro ⟨reached, inside, rest, rfl, found, rfl⟩
    exact mem_extents_of_piece split reached found

theorem piece?_of_mem_extents (split : t = front ++ (inside ++ rest)) (other : kind ≠ .code)
    (member : ⟨kind, width front, width front + width inside⟩ ∈ extents (lex t)) :
    ∃ c more, inside = c :: more ∧ piece? front.reverse c (more ++ rest) = some (kind, rest) := by
  have filled := lt_of_mem_extents member
  dsimp only at filled
  cases inside with
  | nil => simp at filled
  | cons c more =>
    obtain ⟨-, read, left, cut, found, size⟩ := (mem_extents_iff_piece split other).1 member
    have same : width more = width read := by
      simp only [width_cons] at size
      omega
    obtain ⟨rfl, rfl⟩ := append_inj_of_width cut same
    exact ⟨c, more, rfl, found⟩

end

end ComponentBundle.Source
