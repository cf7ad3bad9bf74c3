import ComponentBundle.Proofs.Stripping
import ComponentBundle.Proofs.Tiling

/-!
What removing comments does to the spans. A slash is read by what stands before it, and that
may be a comment; a literal, a tag or a call that does not close is read by what stands
behind it. Where those are read alike with and without the comments, all spans
stay and no comment is left.
-/
namespace ComponentBundle.Source
open ComponentBundle.Text

def Segment.left (segment : Segment) : Text :=
  if segment.kind = .comment then commentResidue segment.text else segment.text

def leftFrom (before t : Text) : Text := (lexFrom before [] t).flatMap Segment.left

/-- Whether nothing but its own text decides what a piece is. `before` and `kept` stand before
it, with and without the comments; `rest` and `left` follow. -/
def settledPiece (before kept rest left : Text) : SegmentKind → Bool
  | .comment => decide (Unescaped before.reverse)
  | .span .pattern => allowsPattern kept
  | .span .decorator =>
    match rest, left with
    | '(' :: own, '(' :: arguments =>
      (afterParens? 0 own).isSome || (afterParens? 0 arguments).isNone
    | _, _ => true
  | _ => true

/-- Whether a character is code without the comments too, if they could matter. -/
def settledCode (kept : Text) (c : Char) (left : Text) : Bool :=
  (piece? kept c left).isNone || !(c = '/' || c = '<' || c = backtick)

def settledFrom (before kept : Text) : Text → Bool
  | [] => true
  | c :: t =>
    match _piece : piece? before c t with
    | some (kind, rest) =>
      let lexeme := (c :: t).take (t.length + 1 - rest.length)
      let behind := lexeme.reverse ++ before
      settledPiece before kept rest (leftFrom behind rest) kind &&
        settledFrom behind ((Segment.left ⟨kind, lexeme⟩).reverse ++ kept) rest
    | none =>
      settledCode kept c (leftFrom (c :: before) t) && settledFrom (c :: before) (c :: kept) t
termination_by t => t.length
decreasing_by
  · have := (piece?_suffix _piece).length_le
    simp
    omega
  · simp

def settled (t : Text) : Bool := settledFrom [] [] t

def shownSpans (t : Text) : List (SpanKind × Text) :=
  (spansIn t).map fun span => (span.kind, slice t span.start span.stop)

theorem reading_induction {motive : Text → Text → Prop} (nil : ∀ before, motive before [])
    (code : ∀ before c t, piece? before c t = none → motive (c :: before) t →
      motive before (c :: t))
    (piece : ∀ before c inside kind rest, piece? before c (inside ++ rest) = some (kind, rest) →
      motive ((c :: inside).reverse ++ before) rest → motive before (c :: (inside ++ rest)))
    (before t : Text) : motive before t :=
  lexing_induction (motive := fun before _ t => motive before t) (fun before _ => nil before)
    (fun before _ => code before) (fun before _ => piece before) before [] t

theorem left_codeSegment (code : Text) :
    (codeSegment code).flatMap Segment.left = code.reverse := by
  cases code <;> simp [codeSegment, Segment.left]

theorem lexFrom_left (before code t : Text) :
    (lexFrom before code t).flatMap Segment.left = code.reverse ++ leftFrom before t := by
  induction before, t using reading_induction generalizing code with
  | nil before => simp [leftFrom, lexFrom, left_codeSegment]
  | code before c t found ih =>
    rw [leftFrom, lexFrom_code found, lexFrom_code found, ih, ih]
    simp
  | piece before c inside kind rest found ih =>
    rw [leftFrom, lexFrom_piece found, lexFrom_piece found]
    simp [left_codeSegment]

theorem leftFrom_nil (before : Text) : leftFrom before [] = [] := by
  simp [leftFrom, lexFrom, codeSegment]

theorem leftFrom_code {before t : Text} {c : Char} (h : piece? before c t = none) :
    leftFrom before (c :: t) = c :: leftFrom (c :: before) t := by
  rw [leftFrom, lexFrom_code h, lexFrom_left]
  rfl

theorem leftFrom_piece {before inside rest : Text} {c : Char} {kind : SegmentKind}
    (h : piece? before c (inside ++ rest) = some (kind, rest)) :
    leftFrom before (c :: (inside ++ rest)) = Segment.left ⟨kind, c :: inside⟩
      ++ leftFrom ((c :: inside).reverse ++ before) rest := by
  rw [leftFrom, lexFrom_piece h, List.flatMap_append, left_codeSegment]
  rfl

theorem settledFrom_code {before kept t : Text} {c : Char} (h : piece? before c t = none) :
    settledFrom before kept (c :: t) = (settledCode kept c (leftFrom (c :: before) t)
      && settledFrom (c :: before) (c :: kept) t) := by
  rw [settledFrom]
  split
  · rename_i found
    rw [h] at found
    contradiction
  · rfl

theorem settledFrom_piece {before kept inside rest : Text} {c : Char} {kind : SegmentKind}
    (h : piece? before c (inside ++ rest) = some (kind, rest)) :
    settledFrom before kept (c :: (inside ++ rest))
      = (settledPiece before kept rest (leftFrom ((c :: inside).reverse ++ before) rest) kind
        && settledFrom ((c :: inside).reverse ++ before)
          ((Segment.left ⟨kind, c :: inside⟩).reverse ++ kept) rest) := by
  have length : (inside ++ rest).length + 1 - rest.length = (c :: inside).length := by
    simp only [List.length_append, List.length_cons]
    omega
  rw [settledFrom]
  split
  · rename_i found
    rw [h] at found
    cases found
    simp only [length, ← List.cons_append, List.take_left]
  · rename_i found
    rw [h] at found
    contradiction

theorem piece?_comment {before inside rest : Text} {c : Char}
    (h : piece? before c (inside ++ rest) = some (.comment, rest)) :
    (∃ inner, c :: inside = '/' :: '/' :: inner ∧ rest.head?.all (· = '\n')) ∨
      ∃ inner, c :: inside = '/' :: '*' :: (inner ++ ['*', '/']) := by
  by_cases slash : c = '/'
  · subst slash
    rw [piece?_slash] at h
    split at h
    · rename_i more whole
      have stop : afterLine (inside ++ rest) = rest := by
        simpa [whole] using h
      have first : rest.head?.all (· = '\n') := by
        cases rest with
        | nil => rfl
        | cons d rest => simpa using stop_of_dropWhile_cons stop
      cases inside with
      | nil =>
        rw [List.nil_append] at whole
        rw [whole] at first
        contradiction
      | cons d inside =>
        cases whole
        exact Or.inl ⟨inside, rfl, first⟩
    · rename_i more whole
      have found : afterBlockComment? more = some rest := by simpa using h
      obtain ⟨front, rfl⟩ := afterFirst?_split found
      refine Or.inr ⟨front, ?_⟩
      have : inside = '*' :: (front ++ ['*', '/']) :=
        List.append_cancel_right (whole.trans (by simp))
      rw [this]
    · split at h <;> simp at h
  · unfold piece? at h
    rw [if_neg slash] at h
    repeat' split at h
    all_goals simp at h

theorem stripped_leftFrom {before kept t : Text} (h : settledFrom before kept t) :
    Stripped t (leftFrom before t) ∧
      (Unescaped before.reverse ∨ t.head? = (leftFrom before t).head?) := by
  induction before, t using reading_induction generalizing kept with
  | nil before =>
    rw [leftFrom_nil]
    exact ⟨.nil, Or.inr rfl⟩
  | code before c t found ih =>
    rw [settledFrom_code found, Bool.and_eq_true] at h
    rw [leftFrom_code found]
    obtain ⟨stripped, last⟩ := ih h.2
    refine ⟨stripped.append [c] ?_, Or.inr rfl⟩
    rwa [List.reverse_cons, unescaped_append (by simp)] at last
  | piece before c inside kind rest found ih =>
    rw [settledFrom_piece found, Bool.and_eq_true] at h
    rw [leftFrom_piece found]
    obtain ⟨stripped, last⟩ := ih h.2
    by_cases comment : kind = .comment
    · subst comment
      refine ⟨?_, Or.inl (of_decide_eq_true h.1)⟩
      rcases piece?_comment found with ⟨inner, lexeme, ends⟩ | ⟨inner, lexeme⟩
      · cases lexeme
        exact .line inner ends stripped
      · cases lexeme
        simpa [Segment.left] using Stripped.block inner stripped
    · have left : Segment.left ⟨kind, c :: inside⟩ = c :: inside := if_neg comment
      rw [left]
      refine ⟨stripped.append (c :: inside) ?_, Or.inr rfl⟩
      rwa [List.reverse_append, List.reverse_reverse, unescaped_append (by simp)] at last

theorem piece?_none_left {before kept t left : Text} {c : Char} (code : piece? before c t = none)
    (stripped : Stripped t left) (fits : settledCode kept c left)
    (joined : c = '@' → joins kept = joins before) : piece? kept c left = none := by
  simp only [settledCode, Bool.or_eq_true, Option.isNone_iff_eq_none, Bool.not_eq_true',
    Bool.or_eq_false_iff, decide_eq_false_iff_not] at fits
  rcases fits with none_ | ⟨⟨slash, tag⟩, verbatim⟩
  · exact none_
  · by_cases brace : c = '{'
    · subst brace
      cases left with
      | nil => rfl
      | cons d left =>
        by_cases second : d = '{'
        · subst second
          obtain ⟨own, rfl, inner⟩ := stripped.exists_of_head (by decide)
          rw [piece?_braces, Option.map_eq_none_iff] at code ⊢
          exact inner.afterMustache?_none code
        · simp [piece?, second]
    · by_cases quote : isQuote c
      · rw [piece?_quote quote, Option.map_eq_none_iff] at code ⊢
        exact stripped.afterQuoted?_none quote code
      · by_cases at_ : c = '@'
        · subst at_
          rw [piece?_decorator, Option.map_eq_none_iff, afterDecorator?_eq_none_iff] at code ⊢
          rw [joined rfl]
          exact code.imp_right (stripped.head?_none fun _ => not_residue_of_start)
        · simp [piece?, slash, tag, verbatim, brace, quote, at_]

section
variable {before kept inside rest left : Text} {kind : SpanKind}

theorem piece?_slash_left (found : piece? before '/' (inside ++ rest) = some (.span kind, rest))
    (stripped : Stripped rest left) (allowed : kind = .pattern → allowsPattern kept) :
    piece? kept '/' (inside ++ left) = some (.span kind, left) := by
  rw [piece?_slash] at found
  split at found
  · simp at found
  · simp at found
  · rename_i line block
    split at found
    · obtain ⟨_, closed, same⟩ := Option.map_eq_some_iff.1 found
      cases same
      obtain ⟨own, split, filled, stops, closedBy⟩ := afterPattern?_closed closed
      obtain rfl := List.append_cancel_right split
      obtain ⟨d, inside, rfl⟩ := List.exists_cons_of_ne_nil filled
      have ends := stripped.head?_none (fun _ => not_residue_of_name) stops
      rw [piece?_slash, closedBy left ends]
      split
      · rename_i same
        exact absurd (by rw [(List.cons.inj same).1]; rfl) (line (inside ++ rest))
      · rename_i same
        exact absurd (by rw [(List.cons.inj same).1]; rfl) (block (inside ++ rest))
      · rw [if_pos (allowed rfl)]
        rfl
    · contradiction

theorem piece?_tag_left (found : piece? before '<' (inside ++ rest) = some (.span kind, rest)) :
    piece? kept '<' (inside ++ left) = some (.span kind, left) := by
  rw [piece?_tag] at found ⊢
  split at found
  · rename_i opens
    obtain ⟨_, closed, same⟩ := Option.map_eq_some_iff.1 found
    cases same
    obtain ⟨more, starts⟩ := exists_of_opensTemplate opens
    have tail : inside ++ rest = templateTag.tail ++ more := (List.cons.inj starts).2
    rw [tail] at closed
    obtain ⟨own, split, long, closedBy⟩ := afterTemplates?_closed closed
    obtain rfl : more = own ++ rest := split
    obtain rfl : inside = templateTag.tail ++ own := List.append_cancel_right (tail.trans (by simp))
    have tags : templateTag.length < (templateTag ++ own).length := by
      simp [templateTag, templateEndTag] at long ⊢
      omega
    have whole (u : Text) : '<' :: (templateTag.tail ++ own ++ u) = templateTag ++ own ++ u := rfl
    rw [whole, opensTemplate_append tags] at opens ⊢
    rw [if_pos opens]
    exact congrArg (Option.map _) (closedBy left)
  · contradiction

theorem piece?_brace_left (found : piece? before '{' (inside ++ rest) = some (.span kind, rest)) :
    piece? kept '{' (inside ++ left) = some (.span kind, left) := by
  cases inside with
  | nil =>
    cases rest with
    | nil => contradiction
    | cons d rest =>
      by_cases second : d = '{'
      · subst second
        obtain ⟨_, closed, same⟩ := Option.map_eq_some_iff.1 found
        cases same
        have := (afterMustache?_suffix closed).length_le
        rw [List.length_cons] at this
        omega
      · simp [piece?, second] at found
  | cons d inside =>
    by_cases second : d = '{'
    · subst second
      rw [List.cons_append, piece?_braces, Option.map_eq_some_iff] at found ⊢
      obtain ⟨_, closed, same⟩ := found
      cases same
      obtain ⟨own, split, closedBy⟩ := afterMustache?_closed closed
      obtain rfl := List.append_cancel_right split
      exact ⟨left, closedBy left, rfl⟩
    · simp [piece?, second] at found

theorem piece?_decorator_left
    (found : piece? before '@' (inside ++ rest) = some (.span kind, rest))
    (stripped : Stripped rest left)
    (fits : kind = .decorator → settledPiece before kept rest left (.span .decorator))
    (joined : joins kept = joins before) :
    piece? kept '@' (inside ++ left) = some (.span kind, left) := by
  rw [piece?_decorator, Option.map_eq_some_iff] at found ⊢
  obtain ⟨_, closed, same⟩ := found
  cases same
  have apart : joins before = false := by
    cases joined : joins before with
    | false => rfl
    | true =>
      rw [afterDecorator?_eq_none_iff.2 (Or.inl joined)] at closed
      contradiction
  obtain ⟨own, split, closedBy⟩ := afterDecorator?_closed closed
  obtain rfl := List.append_cancel_right split
  refine ⟨left, closedBy kept left (joined.trans apart) stripped.quotesAlike ?_, rfl⟩
  refine ⟨stripped.afterDottedName_eq_self, ?_⟩
  rintro arguments rfl
  obtain ⟨own, rfl, -⟩ := stripped.exists_of_head (by decide)
  refine ⟨own, rfl, fun unclosed => ?_⟩
  simpa [settledPiece, unclosed] using fits rfl

theorem piece?_span_left {c : Char}
    (found : piece? before c (inside ++ rest) = some (.span kind, rest))
    (stripped : Stripped rest left) (fits : settledPiece before kept rest left (.span kind))
    (joined : c = '@' → joins kept = joins before) :
    piece? kept c (inside ++ left) = some (.span kind, left) := by
  by_cases slash : c = '/'
  · subst slash
    exact piece?_slash_left found stripped fun pattern => by subst pattern; exact fits
  by_cases tag : c = '<'
  · subst tag
    exact piece?_tag_left found
  by_cases brace : c = '{'
  · subst brace
    exact piece?_brace_left found
  by_cases verbatim : c = backtick
  · subst verbatim
    rw [piece?_verbatim, Option.map_eq_some_iff] at found ⊢
    obtain ⟨_, closed, same⟩ := found
    cases same
    obtain ⟨own, split, -, -, closedBy⟩ := afterEnclosures?_closed closed
    obtain rfl := List.append_cancel_right split
    exact ⟨left, closedBy left stripped.quotesAlike, rfl⟩
  by_cases quote : isQuote c
  · rw [piece?_quote quote, Option.map_eq_some_iff] at found ⊢
    obtain ⟨_, closed, same⟩ := found
    cases same
    obtain ⟨own, split, -, closedBy⟩ := afterQuoted?_closed quote closed
    obtain rfl := List.append_cancel_right split
    exact ⟨left, closedBy left, rfl⟩
  by_cases at_ : c = '@'
  · subst at_
    exact piece?_decorator_left found stripped (fun decorator => by subst decorator; exact fits)
      (joined rfl)
  · simp [piece?, slash, tag, verbatim, brace, quote, at_] at found

end

def pieces (segments : List Segment) : List (SpanKind × Text) :=
  segments.filterMap fun segment => segment.kind.span?.map (·, segment.text)

theorem pieces_codeSegment_append (code : Text) (segments : List Segment) :
    pieces (codeSegment code ++ segments) = pieces segments := by
  cases code <;> simp [pieces, codeSegment, SegmentKind.span?]

theorem pieces_lexFrom (before code code' t : Text) :
    pieces (lexFrom before code t) = pieces (lexFrom before code' t) := by
  induction before, t using reading_induction generalizing code code' with
  | nil before =>
    rw [lexFrom, lexFrom, ← List.append_nil (codeSegment code),
      ← List.append_nil (codeSegment code'), pieces_codeSegment_append, pieces_codeSegment_append]
  | code before c t found ih =>
    rw [lexFrom_code found, lexFrom_code found]
    exact ih ..
  | piece before c inside kind rest found ih =>
    rw [lexFrom_piece found, lexFrom_piece found, pieces_codeSegment_append,
      pieces_codeSegment_append]

theorem lexFrom_residue (kept code comment u : Text) :
    lexFrom kept code (commentResidue comment ++ u) =
      lexFrom ((commentResidue comment).reverse ++ kept) ((commentResidue comment).reverse ++ code)
        u := by
  have space (v : Text) : piece? kept ' ' v = none := rfl
  have lineEnd (v : Text) : piece? kept '\n' v = none := rfl
  unfold commentResidue
  split
  · rfl
  · split
    · exact lexFrom_code (lineEnd u)
    · exact lexFrom_code (space u)

theorem joins_lexeme (c : Char) (inside kept before : Text) :
    joins ((c :: inside).reverse ++ kept) = joins ((c :: inside).reverse ++ before) := by
  have filled := List.reverse_ne_nil_iff.2 (List.cons_ne_nil c inside)
  obtain ⟨d, more, whole⟩ := List.exists_cons_of_ne_nil filled
  rw [whole]
  rfl

theorem joins_block (inner before : Text) :
    joins (('/' :: '*' :: (inner ++ ['*', '/'])).reverse ++ before) = false := by
  simp [joins, isNameChar]

theorem joins_residue (inner kept : Text) :
    joins ((commentResidue ('/' :: '*' :: inner)).reverse ++ kept) = false := by
  rw [residue_of_block]
  split <;> rfl

theorem joined_at {kept before t : Text} {c : Char}
    (joined : joins kept = joins before ∨ (c :: t).head?.all (· = '\n')) (at_ : c = '@') :
    joins kept = joins before := by
  subst at_
  rcases joined with same | ends
  · exact same
  · contradiction

/-- Lexing what is left of a settled text finds its spans again, and no comment. -/
theorem lexFrom_leftFrom {before kept t : Text} (settled : settledFrom before kept t)
    (joined : joins kept = joins before ∨ t.head?.all (· = '\n')) (code : Text) :
    pieces (lexFrom kept code (leftFrom before t)) = pieces (lexFrom before [] t) ∧
      ∀ segment ∈ lexFrom kept code (leftFrom before t), segment.kind ≠ .comment := by
  have other : ∀ code, ∀ segment ∈ codeSegment code, segment.kind ≠ .comment := by
    intro code segment member
    rw [(mem_codeSegment member).1]
    simp
  -- behind a line comment `kept` may end in a name that `before` does not end in, but then a
  -- line end follows, which opens no piece
  induction before, t using reading_induction generalizing kept code with
  | nil before =>
    rw [leftFrom_nil, lexFrom, lexFrom, ← List.append_nil (codeSegment code),
      pieces_codeSegment_append]
    exact ⟨rfl, by rw [List.append_nil]; exact other code⟩
  | code before c t found ih =>
    rw [settledFrom_code found, Bool.and_eq_true] at settled
    have stripped := (stripped_leftFrom settled.2).1
    have code? := piece?_none_left found stripped settled.1 (joined_at joined)
    rw [leftFrom_code found, lexFrom_code code?, lexFrom_code found, pieces_lexFrom _ [c] []]
    exact ih settled.2 (Or.inl rfl) (c :: code)
  | piece before c inside kind rest found ih =>
    rw [settledFrom_piece found, Bool.and_eq_true] at settled
    have stripped := (stripped_leftFrom settled.2).1
    rw [leftFrom_piece found, lexFrom_piece found, pieces_codeSegment_append]
    cases kind with
    | code => exact absurd rfl (piece?_kind found)
    | comment =>
      rw [Segment.left, if_pos rfl, lexFrom_residue]
      refine ih settled.2 ?_ _
      rcases piece?_comment found with ⟨inner, -, ends⟩ | ⟨inner, lexeme⟩
      · exact Or.inr ends
      · rw [Segment.left, if_pos rfl, lexeme, joins_block, joins_residue]
        exact Or.inl rfl
    | span kind =>
      have span := piece?_span_left found stripped settled.1 (joined_at joined)
      have lexeme : Segment.left ⟨.span kind, c :: inside⟩ = c :: inside := if_neg (by simp)
      rw [lexeme] at settled ⊢
      obtain ⟨same, none_⟩ := ih settled.2 (Or.inl (joins_lexeme c inside kept before)) []
      rw [List.cons_append, lexFrom_piece span, pieces_codeSegment_append]
      refine ⟨congrArg (List.cons (kind, c :: inside)) same, fun segment member => ?_⟩
      rcases List.mem_append.1 member with collected | later
      · exact other code segment collected
      · rcases List.mem_cons.1 later with rfl | later
        · simp
        · exact none_ segment later

theorem spansFrom_pieces (before : Text) (segments : List Segment) :
    ((extentsFrom (width before) segments).filterMap Extent.span?).map (fun span =>
      (span.kind, slice (before ++ segments.flatMap Segment.text) span.start span.stop))
        = pieces segments := by
  induction segments generalizing before with
  | nil => rfl
  | cons segment more ih =>
    have behind := ih (before ++ segment.text)
    rw [width_append, List.append_assoc] at behind
    have here := slice_middle before segment.text (more.flatMap Segment.text)
    rw [extentsFrom, List.flatMap_cons, pieces, List.filterMap_cons, List.filterMap_cons]
    rw [pieces] at behind
    cases kind : segment.kind.span? with
    | none =>
      simp only [Extent.span?, kind, Option.map_none]
      exact behind
    | some k =>
      simp only [Extent.span?, kind, Option.map_some, List.map_cons, here]
      exact congrArg (List.cons (k, segment.text)) behind

theorem shownSpans_eq (t : Text) : shownSpans t = pieces (lex t) := by
  have whole := spansFrom_pieces [] (lex t)
  rw [List.nil_append, lex_text] at whole
  exact whole

theorem withoutComments_eq_self {t : Text} (none_ : ∀ segment ∈ lex t, segment.kind ≠ .comment) :
    withoutComments t = t := by
  have same : (lex t).flatMap Segment.left = (lex t).flatMap Segment.text :=
    List.flatMap_congr fun segment member => if_neg (none_ segment member)
  exact same.trans (lex_text t)

/-- Where nothing is read by the comments beside it, removing them keeps the spans with their
texts, in their order, and leaves no comment. -/
theorem withoutComments_keeps_spans {t : Text} (alike : settled t) :
    shownSpans (withoutComments t) = shownSpans t ∧
      (∀ segment ∈ lex (withoutComments t), segment.kind ≠ .comment) ∧
      withoutComments (withoutComments t) = withoutComments t := by
  have left : withoutComments t = leftFrom [] t := rfl
  obtain ⟨same, none_⟩ := lexFrom_leftFrom alike (Or.inl rfl) []
  rw [← left] at same none_
  refine ⟨?_, none_, withoutComments_eq_self none_⟩
  rw [shownSpans_eq, shownSpans_eq]
  exact same

/-! A text whose comments decide nothing, and one whose first comment makes a slash a pattern. -/

def markedSource : Text :=
  "const a = /[/*]/g; // don't\nconst b = `${x} // no`; /* c\n */ @on('k' /* d */) k = a / 2;"

theorem markedSource_keeps_spans :
    settled markedSource ∧ shownSpans (withoutComments markedSource) = shownSpans markedSource ∧
      (∀ segment ∈ lex (withoutComments markedSource), segment.kind ≠ .comment) ∧
      withoutComments (withoutComments markedSource) = withoutComments markedSource := by
  have alike : settled markedSource := by decide +kernel
  exact ⟨alike, withoutComments_keeps_spans alike⟩

def dividedSource : Text := "x = a // (\n/ b // note\n;y = 1;"

theorem dividedSource_keeps_comment :
    shownSpans dividedSource = [(SpanKind.pattern, ("/ b /" : Text))] ∧
      shownSpans (withoutComments dividedSource) = [] ∧
      (lex (withoutComments dividedSource)).any (fun segment => segment.kind = .comment) ∧
      withoutComments (withoutComments dividedSource) ≠ withoutComments dividedSource := by
  decide +kernel

end ComponentBundle.Source
