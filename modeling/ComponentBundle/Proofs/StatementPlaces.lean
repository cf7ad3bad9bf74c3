import ComponentBundle.Proofs.Declarations
import ComponentBundle.Proofs.SegmentPlaces

/-!
Where import statements are reported. The scan looks at the start of a line and at the end of a
statement, behind white space, and reports what it can read there unless markup, a backtick literal
or a quoted one covers the place. Comments, decorators and patterns hide nothing from it.
-/
namespace ComponentBundle.Module
open ComponentBundle.Text ComponentBundle.Source

theorem firstLine_cons {c : Char} (inside : c ≠ '\n') (t : Text) :
    firstLine (c :: t) = c :: firstLine t := by
  simp [firstLine, inside]

theorem firstLine_append {a : Text} (line : '\n' ∉ a) (b : Text) :
    firstLine (a ++ b) = a ++ firstLine b := by
  induction a with
  | nil => rfl
  | cons c a ih =>
    rw [List.mem_cons, not_or] at line
    rw [List.cons_append, firstLine_cons (Ne.symm line.1), ih line.2, List.cons_append]

theorem firstLine_cases (t : Text) : firstLine t = t ∧ '\n' ∉ t ∨
    ∃ line rest, '\n' ∉ line ∧ t = line ++ '\n' :: rest ∧ firstLine t = line ++ ['\n'] := by
  by_cases ends : '\n' ∈ t
  · right
    obtain ⟨line, rest, rfl, inside⟩ := List.eq_append_cons_of_mem ends
    exact ⟨line, rest, inside, rfl, by rw [firstLine_append inside]; rfl⟩
  · left
    have whole := firstLine_append ends []
    rw [List.append_nil] at whole
    refine ⟨?_, ends⟩
    rw [whole]
    exact List.append_nil t

theorem firstLine_reached {t front rest : Text} (split : t = front ++ rest)
    (ends : front.getLast? = some '\n') : ∃ more, front = firstLine t ++ more := by
  obtain ⟨inside, rfl⟩ := List.getLast?_eq_some_iff.1 ends
  rcases firstLine_cases t with ⟨-, none_⟩ | ⟨line, behind, free, cut, first⟩
  · exact absurd (by simp [split]) none_
  · rw [split, List.append_assoc] at cut
    rw [first]
    rcases List.append_eq_append_iff.1 cut with ⟨extra, rfl, tail⟩ | ⟨extra, rfl, tail⟩
    · cases extra with
      | nil => exact ⟨[], by simp⟩
      | cons c extra =>
        obtain ⟨rfl, -⟩ := List.cons.inj tail
        simp at free
    · cases extra with
      | nil => exact ⟨[], by simp⟩
      | cons c extra =>
        obtain ⟨rfl, -⟩ := List.cons.inj tail
        exact ⟨extra ++ ['\n'], by simp⟩

theorem firstLine_ends {t rest : Text} (split : t = firstLine t ++ rest) (more : rest ≠ []) :
    (firstLine t).getLast? = some '\n' := by
  rcases firstLine_cases t with ⟨whole, -⟩ | ⟨line, -, -, -, first⟩
  · rw [whole] at split
    exact absurd (List.self_eq_append_right.1 split) more
  · rw [first, List.getLast?_concat]

variable {space : Text} {spans : List Span}

def Seen (spans : List Span) (position : Nat) : Prop :=
  (kindAt? spans position).any hidesStatements = false

theorem statementAt?_eq_some_iff {position : Nat} {t : Text} {form : ImportForm} :
    statementAt? spans position t = some form ↔ ∃ behind, t = importKeyword ++ behind ∧
      endsKeyword behind.head? ∧ Seen spans position ∧ importForm? behind = some form := by
  unfold statementAt? Seen
  constructor
  · intro h
    split at h
    · contradiction
    · rename_i behind found
      split at h
      · rename_i stands
        rw [Bool.and_eq_true, Bool.not_eq_true'] at stands
        exact ⟨behind, after?_eq_some_iff.1 found, stands.1, stands.2, h⟩
      · contradiction
  · rintro ⟨behind, rfl, ends, seen, read⟩
    rw [after?_eq_some_iff.2 rfl]
    simp only [ends, seen, read]
    rfl

theorem ImportForm.placed_le (form : ImportForm) (space : Text) (start : Nat) :
    start ≤ (form.placed space start).stop := by
  simp only [ImportForm.placed]
  omega

theorem scanFrom_forward (space : Text) (spans : List Span) (start : Nat) (t : Text) :
    ∀ s ∈ scanFrom space spans start t, start ≤ s.start ∧ s.start ≤ s.stop := by
  fun_induction scanFrom space spans start t with
  | case1 => simp
  | case2 start c t line indent position form found statement ih =>
    have low : position ≤ statement.stop := form.placed_le space position
    refine List.forall_mem_cons.2 ⟨⟨Nat.le_add_right .., low⟩, ?_⟩
    intro s later
    obtain ⟨behind, forward⟩ := ih s later
    exact ⟨by omega, forward⟩
  | case3 start c t line indent position none_ ih =>
    intro s later
    obtain ⟨behind, forward⟩ := ih s later
    exact ⟨by omega, forward⟩

/-- A place where the scan looks: a line starts behind `front` or a statement ends there, and no
statement goes over it. -/
structure LooksAt (found : List ImportStatement) (start : Nat) (front : Text) : Prop where
  opens : startsLine true front ∨ ∃ s ∈ found, s.stop = start + width front
  apart : ∀ s ∈ found, s.stop ≤ start + width front ∨ start + width front ≤ s.start

/-- An import statement behind white space where the scan looks. -/
structure WrittenAt (found : List ImportStatement) (start : Nat) (t front indent : Text)
    (form : ImportForm) : Prop where
  here : ∃ behind, t = front ++ (indent ++ (importKeyword ++ behind)) ∧
    endsKeyword behind.head? ∧ importForm? behind = some form
  blank : ∀ c ∈ indent, isBlank c
  line : '\n' ∉ indent
  looked : LooksAt found start front

theorem indent_of_line {indent behind : Text} (blank : ∀ c ∈ indent, isBlank c)
    (line : '\n' ∉ indent) :
    (firstLine (indent ++ (importKeyword ++ behind))).takeWhile isBlank = indent := by
  rw [firstLine_append line]
  apply takeWhile_append_of_head blank
  rw [importKeyword, List.cons_append, firstLine_cons (by decide)]
  rfl

theorem indent_of_looked {t lead front indent behind rest : Text}
    (split : t = front ++ (indent ++ (importKeyword ++ behind)))
    (blank : ∀ c ∈ indent, isBlank c) (line : '\n' ∉ indent)
    (known : (firstLine t).takeWhile isBlank = lead) (first : t = lead ++ (importKeyword ++ rest))
    (opens : startsLine true front ∨ width lead ≤ width front) (low : width front ≤ width lead) :
    front ++ indent = lead := by
  by_cases start : front = []
  · subst start
    rw [List.nil_append] at split
    rw [split, indent_of_line blank line] at known
    exact known
  · have reaches : width lead ≤ width front := by
      rcases opens with starts | reaches
      · rw [startsLine_filled start, decide_eq_true_eq] at starts
        obtain ⟨more, longer⟩ := firstLine_reached split starts
        have part := List.takeWhile_append_dropWhile (p := isBlank) (l := firstLine t)
        rw [longer, ← part, known, List.append_assoc]
        exact width_le_append ..
      · exact reaches
    obtain ⟨rfl, tail⟩ := append_inj_of_width (split.symm.trans first) (Nat.le_antisymm low reaches)
    cases indent with
    | nil => exact List.append_nil _
    | cons c indent =>
      obtain ⟨rfl, -⟩ := List.cons.inj tail
      exact absurd (blank 'i' List.mem_cons_self) (by decide)

section Behind

variable {found : List ImportStatement} {start : Nat} {used front : Text}

theorem startsLine_behind (filled : front ≠ []) (used : Text) :
    startsLine true (used ++ front) = startsLine true front := by
  rw [startsLine_append, startsLine_filled filled, startsLine_filled filled]

theorem looksAt_statement {s : ImportStatement} (stop : s.stop = start + width used) :
    LooksAt (s :: found) start (used ++ front) ↔ LooksAt found s.stop front := by
  have sum : s.stop + width front = start + width (used ++ front) := by
    rw [stop, width_append, Nat.add_assoc]
  constructor
  · rintro ⟨opens, apart⟩
    rw [← sum] at opens apart
    refine ⟨?_, (List.forall_mem_cons.1 apart).2⟩
    by_cases empty : front = []
    · left
      rw [empty]
      rfl
    · rw [startsLine_behind empty, List.exists_mem_cons_iff] at opens
      rcases opens with starts | here | later
      · exact Or.inl starts
      · have positive := width_pos empty
        omega
      · exact Or.inr later
  · rintro ⟨opens, apart⟩
    rw [sum] at opens apart
    refine ⟨?_, List.forall_mem_cons.2 ⟨Or.inl (by omega), apart⟩⟩
    by_cases empty : front = []
    · right
      refine ⟨s, List.mem_cons_self, ?_⟩
      rw [empty, List.append_nil, stop]
    · rw [startsLine_behind empty, List.exists_mem_cons_iff]
      exact opens.imp_right Or.inr

theorem looksAt_line (ends : used.getLast? = some '\n') :
    LooksAt found start (used ++ front) ↔ LooksAt found (start + width used) front := by
  have starts : startsLine true (used ++ front) = startsLine true front := by
    have last : startsLine true used = true := by
      rw [startsLine, ends]
      rfl
    rw [startsLine_append, last]
  constructor
  · rintro ⟨opens, apart⟩
    rw [starts, width_append, ← Nat.add_assoc] at opens
    rw [width_append, ← Nat.add_assoc] at apart
    exact ⟨opens, apart⟩
  · rintro ⟨opens, apart⟩
    rw [Nat.add_assoc, ← width_append] at opens apart
    exact ⟨starts ▸ opens, apart⟩

end Behind

theorem writtenAt_behind {found more : List ImportStatement} {start stop : Nat}
    {used rest front indent : Text} {form : ImportForm}
    (looked : LooksAt more start (used ++ front) ↔ LooksAt found stop front) :
    WrittenAt more start (used ++ rest) (used ++ front) indent form ↔
      WrittenAt found stop rest front indent form := by
  constructor
  · rintro ⟨⟨behind, split, ends, read⟩, blank, line, looks⟩
    rw [List.append_assoc, List.append_cancel_left_eq] at split
    exact ⟨⟨behind, split, ends, read⟩, blank, line, looked.1 looks⟩
  · rintro ⟨⟨behind, split, ends, read⟩, blank, line, looks⟩
    exact ⟨⟨behind, by rw [split, List.append_assoc], ends, read⟩, blank, line, looked.2 looks⟩

theorem ImportForm.placed_stop {behind : Text} {form : ImportForm}
    (read : importForm? behind = some form) (space : Text) (start : Nat) (indent : Text) :
    ∃ used, indent ++ (importKeyword ++ behind) = used ++ form.rest ∧
      (form.placed space (start + width indent)).stop = start + width used := by
  refine ⟨indent ++ form.taken, ?_, ?_⟩
  · rw [← importForm?_text read, ImportForm.text_eq_taken, List.append_assoc]
  · rw [ImportForm.stop_placed, width_append, Nat.add_assoc]

theorem indent_split {t body : Text}
    (found : t.drop ((firstLine t).takeWhile isBlank).length = body) :
    t = (firstLine t).takeWhile isBlank ++ body := by
  have inside : (firstLine t).takeWhile isBlank <+: t :=
    (List.takeWhile_prefix _).trans ⟨_, firstLine_append_drop t⟩
  rw [← found]
  exact (List.prefix_iff_eq_append.1 inside).symm

theorem indent_blank (t : Text) : ∀ c ∈ (firstLine t).takeWhile isBlank, isBlank c :=
  fun _ inside => List.mem_takeWhile_imp inside

theorem indent_ends {t : Text} (ends : '\n' ∈ (firstLine t).takeWhile isBlank) :
    startsLine true ((firstLine t).takeWhile isBlank) := by
  rcases firstLine_cases t with ⟨whole, free⟩ | ⟨line, -, free, -, first⟩
  · rw [whole] at ends
    exact absurd ((List.takeWhile_prefix _).subset ends) free
  · rw [first, List.takeWhile_append] at ends ⊢
    split at ends <;> rename_i blank
    · rw [if_pos blank, startsLine_append]
      rfl
    · exact absurd ((List.takeWhile_prefix _).subset ends) free

theorem indent_cases (t : Text) : ∃ front lead, front ++ lead = (firstLine t).takeWhile isBlank ∧
    startsLine true front ∧ '\n' ∉ lead := by
  by_cases ends : '\n' ∈ (firstLine t).takeWhile isBlank
  · exact ⟨_, [], List.append_nil _, indent_ends ends, List.not_mem_nil⟩
  · exact ⟨[], _, rfl, rfl, ends⟩

section First

variable {found : List ImportStatement} {start : Nat} {t behind : Text} {form : ImportForm}

theorem writtenAt_first
    (whole : t = (firstLine t).takeWhile isBlank ++ (importKeyword ++ behind))
    (ends : endsKeyword behind.head?) (read : importForm? behind = some form)
    (later : ∀ s ∈ found, start + width ((firstLine t).takeWhile isBlank) ≤ s.start) :
    ∃ front lead, front ++ lead = (firstLine t).takeWhile isBlank ∧
      WrittenAt found start t front lead form := by
  obtain ⟨front, lead, parts, starts, free⟩ := indent_cases t
  have blank := indent_blank t
  rw [← parts] at whole later blank
  refine ⟨front, lead, parts, ⟨behind, by rw [← List.append_assoc, ← whole], ends, read⟩,
    fun c inside => blank c (List.mem_append_right _ inside), free, Or.inl starts, ?_⟩
  intro s inside
  right
  exact (Nat.add_le_add_left (width_le_append front lead) start).trans (later s inside)

theorem WrittenAt.first {front lead : Text} {other : ImportForm}
    (written : WrittenAt found start t front lead other)
    (whole : t = (firstLine t).takeWhile isBlank ++ (importKeyword ++ behind))
    (read : importForm? behind = some form)
    (later : ∀ s ∈ found, start + width ((firstLine t).takeWhile isBlank) ≤ s.stop)
    (low : width front ≤ width ((firstLine t).takeWhile isBlank)) :
    front ++ lead = (firstLine t).takeWhile isBlank ∧ other = form := by
  obtain ⟨next, split, -, same⟩ := written.here
  have opens := written.looked.opens
  have reaches : startsLine true front ∨
      width ((firstLine t).takeWhile isBlank) ≤ width front := by
    refine opens.imp_right ?_
    rintro ⟨s, inside, stop⟩
    have high := later s inside
    omega
  have parts := indent_of_looked split written.blank written.line rfl whole reaches low
  refine ⟨parts, ?_⟩
  have equal : (front ++ lead) ++ (importKeyword ++ next) =
      (firstLine t).takeWhile isBlank ++ (importKeyword ++ behind) := by
    rw [List.append_assoc, ← split, ← whole]
  rw [parts, List.append_cancel_left_eq, List.append_cancel_left_eq] at equal
  rw [equal, read] at same
  exact (Option.some.inj same).symm

theorem WrittenAt.line_cases {front lead : Text} (written : WrittenAt found start t front lead form)
    (later : ∀ s ∈ found, start + width (firstLine t) ≤ s.stop) :
    front = [] ∧ (firstLine t).takeWhile isBlank = lead ∨ ∃ more, front = firstLine t ++ more := by
  obtain ⟨behind, split, -⟩ := written.here
  by_cases empty : front = []
  · left
    refine ⟨empty, ?_⟩
    rw [split, empty]
    exact indent_of_line written.blank written.line
  · right
    rcases written.looked.opens with starts | ⟨s, inside, stop⟩
    · rw [startsLine_filled empty, decide_eq_true_eq] at starts
      exact firstLine_reached split starts
    · have high := later s inside
      have parts := firstLine_append_drop t
      obtain ⟨more, longer, -⟩ := cut_of_width_le (parts.trans split) (by omega)
      exact ⟨more, longer⟩

end First

/-- The scan reports exactly what is written where it looks and where nothing that it heeds
covers the place. -/
theorem scanFrom_iff {start : Nat} {t : Text} {s : ImportStatement} :
    s ∈ scanFrom space spans start t ↔ ∃ front indent form,
      WrittenAt (scanFrom space spans start t) start t front indent form ∧
      Seen spans (start + width (front ++ indent)) ∧
      s = form.placed space (start + width (front ++ indent)) := by
  fun_induction scanFrom space spans start t with
  | case1 start =>
    simp only [List.not_mem_nil, false_iff]
    rintro ⟨front, indent, form, ⟨⟨behind, split, -⟩, -⟩, -⟩
    simp [importKeyword] at split
  | case2 start c t line indent position form found statement ih =>
    obtain ⟨behind, body, ends, seen, read⟩ := statementAt?_eq_some_iff.1 found
    have whole : c :: t = indent ++ (importKeyword ++ behind) := indent_split body
    obtain ⟨used, cut, placed⟩ := ImportForm.placed_stop read space start indent
    have stop : statement.stop = start + width used := placed
    have after : c :: t = used ++ form.rest := whole.trans cut
    have sum (front : Text) : start + width (used ++ front) = statement.stop + width front := by
      rw [stop, width_append, Nat.add_assoc]
    have ordered : ∀ s ∈ statement :: scanFrom space spans statement.stop form.rest,
        position ≤ s.start ∧ s.start ≤ s.stop := by
      have high : position ≤ statement.stop := form.placed_le space position
      refine List.forall_mem_cons.2 ⟨⟨Nat.le_refl _, high⟩, fun s inside => ?_⟩
      obtain ⟨low, forward⟩ := scanFrom_forward space spans statement.stop form.rest s inside
      exact ⟨high.trans low, forward⟩
    rw [List.mem_cons, ih]
    constructor
    · rintro (rfl | ⟨front, lead, other, written, free, rfl⟩)
      · obtain ⟨front, lead, parts, written⟩ :=
          writtenAt_first whole ends read fun s inside => (ordered s inside).1
        refine ⟨front, lead, form, written, ?_, ?_⟩
        · rw [parts]
          exact seen
        · rw [parts]
      · refine ⟨used ++ front, lead, other, ?_, ?_, ?_⟩
        · rw [after]
          exact (writtenAt_behind (looksAt_statement stop)).2 written
        · rw [List.append_assoc, sum]
          exact free
        · rw [List.append_assoc, sum]
    · rintro ⟨front, lead, other, written, free, rfl⟩
      rcases written.looked.apart statement List.mem_cons_self with past | before
      · right
        obtain ⟨next, split, -⟩ := written.here
        obtain ⟨front, rfl, -⟩ := cut_of_width_le (after.symm.trans split) (by omega)
        rw [after] at written
        refine ⟨front, lead, other, (writtenAt_behind (looksAt_statement stop)).1 written, ?_, ?_⟩
        · rw [← sum, ← List.append_assoc]
          exact free
        · rw [List.append_assoc, sum]
      · left
        have low : width front ≤ width indent := by
          change start + width front ≤ start + width indent at before
          omega
        obtain ⟨parts, rfl⟩ := written.first whole read
          (fun s inside => (ordered s inside).1.trans (ordered s inside).2) low
        rw [parts]
  | case3 start c t line indent position none_ ih =>
    -- No statement starts the line. What is written further on the line would have to follow one.
    have after : c :: t = line ++ (c :: t).drop line.length := (firstLine_append_drop (c :: t)).symm
    have later := scanFrom_forward space spans (start + width line) ((c :: t).drop line.length)
    generalize (c :: t).drop line.length = rest at after ih later
    have sum (front : Text) :
        start + width (line ++ front) = start + width line + width front := by
      rw [width_append, Nat.add_assoc]
    rw [ih]
    constructor
    · rintro ⟨front, lead, other, written, free, rfl⟩
      have ends : line.getLast? = some '\n' := by
        apply firstLine_ends after
        obtain ⟨behind, split, -⟩ := written.here
        rw [split]
        simp [importKeyword]
      refine ⟨line ++ front, lead, other, ?_, ?_, ?_⟩
      · rw [after]
        exact (writtenAt_behind (looksAt_line ends)).2 written
      · rw [List.append_assoc, sum]
        exact free
      · rw [List.append_assoc, sum]
    · rintro ⟨front, lead, other, written, free, rfl⟩
      obtain ⟨behind, split, ends, read⟩ := written.here
      rcases written.line_cases fun s inside => (later s inside).1.trans (later s inside).2 with
        ⟨rfl, same⟩ | ⟨more, longer⟩
      · have stands : statementAt? spans position ((c :: t).drop indent.length) = some other := by
          refine statementAt?_eq_some_iff.2 ⟨behind, ?_, ends, ?_, read⟩
          · rw [split, List.nil_append, ← same, List.drop_left]
          · rw [List.nil_append, ← same] at free
            exact free
        rw [none_] at stands
        contradiction
      · obtain rfl : front = line ++ more := longer
        have filled : rest ≠ [] := by
          rw [after, List.append_assoc, List.append_cancel_left_eq] at split
          rw [split]
          simp [importKeyword]
        rw [after] at written
        refine ⟨more, lead, other,
          (writtenAt_behind (looksAt_line (firstLine_ends after filled))).1 written, ?_, ?_⟩
        · rw [← sum, ← List.append_assoc]
          exact free
        · rw [List.append_assoc, sum]

/-- What the scan reads over: an import inside it is a statement all the same. -/
def readOver : List SegmentKind := [.code, .comment, .span .decorator, .span .pattern]

theorem mem_readOver {kind : SpanKind} :
    .span kind ∈ readOver ↔ hidesStatements kind = false := by
  cases kind <;> decide

theorem seen_iff {t : Text} {position : Nat} : Seen (spansIn t) position ↔
    ∀ extent ∈ extents (lex t), extent.Over position → extent.kind ∈ readOver := by
  have each : Seen (spansIn t) position ↔
      ∀ span ∈ spansIn t, span.Over position → hidesStatements span.kind = false := by
    rw [Seen, kindAt?, Option.any_map, Option.any_eq_false]
    simp only [spanOver?_eq_some_iff, and_imp]
  rw [each]
  constructor
  · rintro free ⟨kind, start, stop⟩ inside covers
    cases kind with
    | code => exact List.mem_cons_self
    | comment => exact List.mem_cons_of_mem _ List.mem_cons_self
    | span kind => exact mem_readOver.2 (free ⟨kind, start, stop⟩ (mem_spansOf.2 inside) covers)
  · intro free span inside covers
    exact mem_readOver.1 (free _ (mem_spansOf.1 inside) covers)

/-- A text reports exactly the imports that stand behind white space at the start of a line or at
the end of a statement, wherever no markup, backtick literal or quoted text covers the place. -/
theorem statement_reported_iff (space t : Text) (s : ImportStatement) :
    s ∈ imports space t ↔ ∃ front indent form,
      WrittenAt (imports space t) 0 t front indent form ∧
      (∀ extent ∈ extents (lex t), extent.Over (width (front ++ indent)) →
        extent.kind ∈ readOver) ∧
      s = form.placed space (width (front ++ indent)) := by
  rw [imports, scanFrom_iff]
  simp only [Nat.zero_add, seen_iff]

def remarkedImport : Text := "/*\nimport old from 'pkg';\n*/\n"

def decoratedImport : Text := "@on(\nimport old from 'pkg'\n) x = 1;\n"

theorem hidden_imports_reported :
    (∃ s ∈ imports [] remarkedImport, ∃ extent ∈ extents (lex remarkedImport),
      extent.kind = .comment ∧ extent.Over s.start) ∧
    ∃ s ∈ imports [] decoratedImport, ∃ span ∈ spansIn decoratedImport, span.Over s.start := by
  constructor
  · refine ⟨⟨3, 26, ⟨20, 23, "pkg"⟩, ⟨some "old", none, []⟩, false⟩, ?_, ⟨.comment, 0, 28⟩, ?_, rfl,
      by decide, by decide⟩
    all_goals decide +kernel
  · refine ⟨⟨5, 27, ⟨22, 25, "pkg"⟩, ⟨some "old", none, []⟩, false⟩, ?_, ⟨.decorator, 0, 28⟩, ?_,
      by decide, by decide⟩
    all_goals decide +kernel

end ComponentBundle.Module
