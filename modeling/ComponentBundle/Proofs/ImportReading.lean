import ComponentBundle.Proofs.Tiling
import ComponentBundle.Proofs.Trimming
import ComponentBundle.Module.Scan

/-!
Reading an import statement. What is read depends on the text through the second quote alone,
so a statement that is cut out of its source is read again as it was.
-/
namespace ComponentBundle.Module
open ComponentBundle.Text ComponentBundle.Source

theorem isBlank_of_isQuote {c : Char} (h : isQuote c) : isBlank c = false := by
  simp only [isQuote, Bool.or_eq_true, decide_eq_true_eq] at h
  rcases h with rfl | rfl <;> decide

theorem exists_quote {t : Text} {n : Nat} (many : n < t.countP isQuote) : ∃ c ∈ t, isQuote c :=
  List.countP_pos_iff.1 (Nat.lt_of_le_of_lt (Nat.zero_le n) many)

theorem exists_visible {t : Text} {n : Nat} (many : n < t.countP isQuote) :
    ∃ c ∈ t, isBlank c = false := by
  obtain ⟨c, member, quote⟩ := exists_quote many
  exact ⟨c, member, isBlank_of_isQuote quote⟩

theorem countP_dropBlanks (t : Text) : (t.dropWhile isBlank).countP isQuote = t.countP isQuote := by
  have split := List.takeWhile_append_dropWhile (p := isBlank) (l := t)
  have none_ : (t.takeWhile isBlank).countP isQuote = 0 := by
    refine List.countP_eq_zero.2 fun c inside quote => ?_
    have blank := List.mem_takeWhile_imp inside
    rw [isBlank_of_isQuote quote] at blank
    contradiction
  have count := congrArg (List.countP isQuote) split
  rw [List.countP_append, none_, Nat.zero_add] at count
  exact count

def Quoted.before (q : Quoted) (more : Text) : Quoted := { q with rest := q.rest ++ more }

theorem quoted?_append {t : Text} (two : 1 < t.countP isQuote) (more : Text) :
    quoted? (t ++ more) = (quoted? t).map (·.before more) := by
  have count := countP_dropBlanks t
  unfold quoted?
  rw [takeWhile_append_of_stop (exists_visible two), dropWhile_append_of_stop (exists_visible two)]
  cases opened : t.dropWhile isBlank with
  | nil =>
    rw [opened] at count
    simp [← count] at two
  | cons quote inside =>
    rw [opened] at count
    simp only [List.cons_append]
    cases isQuote quote with
    | false =>
      simp only [Bool.false_and, Bool.false_eq_true, if_false]
      split <;> split <;> rfl
    | true =>
      have one : 0 < inside.countP isQuote := by
        rw [List.countP_cons] at count
        split at count <;> omega
      obtain ⟨c, member, stop⟩ := exists_quote one
      have stop : ∃ c ∈ inside, (!isQuote c && decide (c ≠ '\n')) = false :=
        ⟨c, member, by simp [stop]⟩
      rw [takeWhile_append_of_stop stop, dropWhile_append_of_stop stop]
      cases closed : inside.dropWhile (fun c => !isQuote c && decide (c ≠ '\n')) with
      | nil =>
        obtain ⟨c, member, stops⟩ := stop
        have := List.dropWhile_eq_nil_iff.1 closed c member
        rw [stops] at this
        contradiction
      | cons closing rest =>
        simp only [List.cons_append]
        split <;> rfl

theorem after?_append {lead t : Text} (plain : lead.countP isQuote = 0) {n : Nat}
    (many : n < t.countP isQuote) (more : Text) :
    after? lead (t ++ more) = (after? lead t).map (· ++ more) := by
  induction lead generalizing t with
  | nil => rfl
  | cons a lead ih =>
    cases t with
    | nil => simp at many
    | cons c t =>
      rw [List.countP_cons] at plain
      by_cases same : a = c
      · subst same
        have letter : isQuote a = false := by
          cases quote : isQuote a with
          | false => rfl
          | true => simp [quote] at plain
        have plain : lead.countP isQuote = 0 := by omega
        rw [List.countP_cons_of_neg (by simp [letter])] at many
        simpa [after?] using ih plain many
      · simp [after?, same]

theorem source?_append {t : Text} (two : 1 < t.countP isQuote) (previous : Char) (more : Text) :
    source? previous (t ++ more) = (source? previous t).map (·.before more) := by
  have count := countP_dropBlanks t
  have plain : fromKeyword.countP isQuote = 0 := by decide
  unfold source?
  rw [takeWhile_append_of_stop (exists_visible two), dropWhile_append_of_stop (exists_visible two),
    after?_append plain (count.symm ▸ two)]
  simp only
  split
  · rfl
  · cases found : after? fromKeyword (t.dropWhile isBlank) with
    | none => rfl
    | some u =>
      have twoMore : 1 < u.countP isQuote := by
        rw [after?_eq_some_iff.1 found, List.countP_append] at count
        omega
      simp only [Option.map_some, quoted?_append twoMore, Option.map_map]
      rfl

theorem clauseAndSource?_append {t : Text} (two : 1 < t.countP isQuote) (previous : Char)
    (more : Text) : clauseAndSource? previous (t ++ more)
      = (clauseAndSource? previous t).map fun (clause, q) => (clause, q.before more) := by
  induction t generalizing previous with
  | nil => simp at two
  | cons c t ih =>
    have here := source?_append two previous more
    rw [List.cons_append] at here
    rw [List.cons_append, clauseAndSource?, clauseAndSource?, here]
    cases source? previous (c :: t) with
    | some q => rfl
    | none =>
      simp only [Option.map_none]
      split
      · rfl
      · rename_i inClause
        have letter : isQuote c = false := by
          cases quote : isQuote c with
          | false => rfl
          | true => simp [quote] at inClause
        rw [List.countP_cons_of_neg (by simp [letter])] at two
        rw [ih two, Option.map_map, Option.map_map]
        rfl

def reading? (t : Text) : Option (Text × Text × Quoted) :=
  let blanks := t.takeWhile isBlank
  match clauseAndSource? (blanks.getLast?.getD 't') (t.dropWhile isBlank) with
  | some (clause, q) => some (importKeyword ++ (blanks ++ (clause ++ q.opening)), clause, q)
  | none => (quoted? t).map fun q => (importKeyword ++ q.opening, [], q)

theorem importForm?_eq_reading? (t : Text) : importForm? t
    = (reading? t).map fun (opening, clause, q) => statementForm opening clause q := by
  simp only [importForm?, reading?]
  cases clauseAndSource? ((t.takeWhile isBlank).getLast?.getD 't') (t.dropWhile isBlank) with
  | some found => rfl
  | none =>
    simp only [Option.map_map]
    rfl

theorem reading?_of_importForm? {t : Text} {form : ImportForm} (h : importForm? t = some form) :
    ∃ opening clause q, reading? t = some (opening, clause, q) ∧
      form = statementForm opening clause q := by
  rw [importForm?_eq_reading?] at h
  obtain ⟨⟨opening, clause, q⟩, read, rfl⟩ := Option.map_eq_some_iff.1 h
  exact ⟨opening, clause, q, read, rfl⟩

theorem reading?_append {t : Text} (two : 1 < t.countP isQuote) (more : Text) :
    reading? (t ++ more)
      = (reading? t).map fun (opening, clause, q) => (opening, clause, q.before more) := by
  have count := countP_dropBlanks t
  simp only [reading?]
  rw [takeWhile_append_of_stop (exists_visible two), dropWhile_append_of_stop (exists_visible two),
    clauseAndSource?_append (count.symm ▸ two), quoted?_append two]
  cases clauseAndSource? ((t.takeWhile isBlank).getLast?.getD 't') (t.dropWhile isBlank) with
  | some found => rfl
  | none =>
    simp only [Option.map_none, Option.map_map]
    rfl

structure Quoted.Sound (q : Quoted) : Prop where
  opened : 0 < q.opening.countP isQuote
  closed : isQuote q.closing
  filled : q.specifier ≠ []
  plain : ∀ c ∈ q.specifier, isQuote c = false ∧ c ≠ '\n'

theorem quoted?_sound {t : Text} {q : Quoted} (h : quoted? t = some q) : q.Sound := by
  unfold quoted? at h
  split at h
  · contradiction
  · simp only at h
    split at h
    · contradiction
    · split at h
      · rename_i quotes
        cases h
        simp only [Bool.and_eq_true] at quotes
        refine ⟨List.countP_pos_iff.2 ⟨_, List.mem_append_right _ List.mem_cons_self, quotes.1.1⟩,
          quotes.1.2, by simpa using quotes.2, ?_⟩
        intro c inside
        simpa using List.mem_takeWhile_imp inside
      · contradiction

theorem Quoted.Sound.behind {q : Quoted} (sound : q.Sound) (lead : Text) :
    { q with opening := lead ++ q.opening }.Sound := by
  refine ⟨?_, sound.closed, sound.filled, sound.plain⟩
  have opened := sound.opened
  simp only [List.countP_append]
  omega

theorem source?_sound {t : Text} {previous : Char} {q : Quoted}
    (h : source? previous t = some q) : q.Sound := by
  unfold source? at h
  simp only at h
  split at h
  · contradiction
  · split at h
    · contradiction
    · obtain ⟨inner, read, rfl⟩ := Option.map_eq_some_iff.1 h
      rw [← List.append_assoc]
      exact (quoted?_sound read).behind _

theorem clauseAndSource?_sound {t clause : Text} {previous : Char} {q : Quoted}
    (h : clauseAndSource? previous t = some (clause, q)) : q.Sound := by
  induction t generalizing previous clause with
  | nil => simp [clauseAndSource?] at h
  | cons c t ih =>
    rw [clauseAndSource?] at h
    split at h
    · rename_i found
      cases h
      exact source?_sound found
    · split at h
      · contradiction
      · obtain ⟨⟨inner, q⟩, read, same⟩ := Option.map_eq_some_iff.1 h
        cases same
        exact ih read

theorem reading?_sound {t opening clause : Text} {q : Quoted}
    (h : reading? t = some (opening, clause, q)) :
    q.Sound ∧ ∃ lead, opening = importKeyword ++ lead ∧ 0 < lead.countP isQuote := by
  simp only [reading?] at h
  split at h
  · rename_i found
    cases h
    have sound := clauseAndSource?_sound found
    refine ⟨sound, _, rfl, ?_⟩
    have opened := sound.opened
    simp only [List.countP_append]
    omega
  · obtain ⟨q, read, same⟩ := Option.map_eq_some_iff.1 h
    cases same
    have sound := quoted?_sound read
    exact ⟨sound, _, rfl, sound.opened⟩

theorem reading?_cut {t opening clause : Text} {q : Quoted}
    (h : reading? t = some (opening, clause, q)) :
    isQuote q.closing ∧ ∃ lead, opening = importKeyword ++ lead ∧
      t = lead ++ (q.specifier ++ q.closing :: q.rest) ∧
      ∀ more, reading? (lead ++ (q.specifier ++ q.closing :: more))
        = some (opening, clause, { q with rest := more }) := by
  have form : importForm? t = some (statementForm opening clause q) := by
    rw [importForm?_eq_reading?, h]
    rfl
  have whole := importForm?_text form
  rw [statementForm_text] at whole
  obtain ⟨⟨-, closed, -, -⟩, lead, rfl, opened⟩ := reading?_sound h
  rw [List.append_assoc, List.append_cancel_left_eq] at whole
  have two : 1 < (lead ++ (q.specifier ++ [q.closing])).countP isQuote := by
    simp only [List.countP_append, List.countP_cons_of_pos closed]
    omega
  have through (more : Text) : lead ++ (q.specifier ++ q.closing :: more)
      = lead ++ (q.specifier ++ [q.closing]) ++ more := by simp
  have here := reading?_append two q.rest
  rw [← through, whole, h] at here
  obtain ⟨⟨o, c, bare⟩, read, same⟩ := Option.map_eq_some_iff.1 here.symm
  obtain ⟨rfl, rfl, cut⟩ : o = importKeyword ++ lead ∧ c = clause ∧ bare.before q.rest = q := by
    simpa using same
  have empty : bare.rest = [] := by
    simpa [Quoted.before] using congrArg Quoted.rest cut
  refine ⟨closed, lead, rfl, whole.symm, fun more => ?_⟩
  rw [through, reading?_append two, read, ← cut]
  simp [Quoted.before, empty]

def semicolonMark (t : Text) : Text :=
  if (t.dropWhile isIndent).head? = some ';' then t.takeWhile isIndent ++ [';'] else []

theorem isBlank_of_isIndent {c : Char} (h : isIndent c) : isBlank c := by
  simp only [isIndent, Bool.or_eq_true, decide_eq_true_eq] at h
  rcases h with rfl | rfl <;> decide

theorem terminator_semicolon {indent : Text} (small : ∀ c ∈ indent, isIndent c) :
    terminator (indent ++ [';']) = indent ++ [';'] := by
  have none_ : isIndent ';' = false := by decide
  simp [terminator, List.takeWhile_append_of_pos small, List.dropWhile_append_of_pos small, none_]

theorem drop_takeWhile (p : Char → Bool) (t : Text) :
    t.drop (t.takeWhile p).length = t.dropWhile p := by
  have whole := List.prefix_iff_eq_append.1 (List.takeWhile_prefix (l := t) p)
  rwa [← List.append_cancel_left_eq (t.takeWhile p), List.takeWhile_append_dropWhile]

theorem blankTail_blank (t : Text) : ∀ c ∈ blankTail t, isBlank c := by
  intro c inside
  simp only [blankTail, drop_takeWhile] at inside
  split at inside
  · rename_i blank
    rcases List.mem_append.1 inside with line | last
    · exact List.all_eq_true.1 blank c line
    · cases rest : t.dropWhile (fun c => decide (c ≠ '\n')) with
      | nil =>
        rw [rest] at last
        contradiction
      | cons d more =>
        rw [rest] at last
        obtain rfl : c = d := by simpa using last
        obtain rfl : c = '\n' := by simpa using stop_of_dropWhile_cons rest
        decide
  · contradiction

theorem statementForm_trim {opening clause more : Text} {q : Quoted}
    (starts : opening = importKeyword ++ more) (quote : isQuote q.closing) :
    trim (opening ++ (q.specifier ++ (statementForm opening clause q).closing))
      = opening ++ (q.specifier ++ q.closing :: semicolonMark q.rest) := by
  subst starts
  simp only [statementForm]
  generalize drops : blankTail (q.rest.drop (terminator q.rest).length) = line
  have blankLine : ∀ c ∈ line, isBlank c := drops ▸ blankTail_blank _
  simp only [terminator, semicolonMark]
  split
  · have shown : isBlank ';' = false := by decide
    have ended := trim_append (t := importKeyword ++ more ++ q.specifier ++
      [q.closing] ++ q.rest.takeWhile isIndent ++ [';']) (by simp [importKeyword, isBlank])
      (by rw [List.getLast?_concat, Option.any_some, shown, Bool.not_false]) blankLine
    simpa only [List.append_assoc, List.cons_append, List.append_nil, List.nil_append] using ended
  · have shown := isBlank_of_isQuote quote
    have small : ∀ c ∈ q.rest.takeWhile isIndent ++ line, isBlank c := by
      intro c inside
      rcases List.mem_append.1 inside with indent | inside
      · exact isBlank_of_isIndent (List.mem_takeWhile_imp indent)
      · exact blankLine c inside
    have ended := trim_append (t := importKeyword ++ more ++ q.specifier ++ [q.closing])
      (by simp [importKeyword, isBlank]) (by simp [shown]) small
    simpa only [List.append_assoc, List.cons_append, List.append_nil, List.nil_append] using ended

theorem firstLine_append_drop (t : Text) : firstLine t ++ t.drop (firstLine t).length = t := by
  have start := List.takeWhile_prefix (l := t) (· ≠ '\n')
  have split := List.prefix_iff_eq_append.1 start
  have here : firstLine t <+: t := by
    refine ⟨(t.drop (t.takeWhile (· ≠ '\n')).length).drop 1, ?_⟩
    rw [firstLine, List.append_assoc, List.take_append_drop, split]
  exact List.prefix_iff_eq_append.1 here

variable {space : Text} {spans : List Span}

theorem statementAt?_eq_some {start : Nat} {t : Text} {form : ImportForm}
    (h : statementAt? spans start t = some form) :
    ∃ behind, t = importKeyword ++ behind ∧ endsKeyword behind.head? ∧
      importForm? behind = some form := by
  unfold statementAt? at h
  split at h
  · contradiction
  · rename_i behind found
    split at h
    · rename_i stands
      rw [Bool.and_eq_true] at stands
      exact ⟨behind, after?_eq_some_iff.1 found, stands.1, h⟩
    · contradiction

def ImportForm.taken (form : ImportForm) : Text :=
  form.opening ++ (form.specifier ++ form.closing)

theorem ImportForm.text_eq_taken (form : ImportForm) : form.text = form.taken ++ form.rest := by
  simp only [ImportForm.text, ImportForm.taken, List.append_assoc]

theorem ImportForm.stop_placed (form : ImportForm) (space : Text) (start : Nat) :
    (form.placed space start).stop = start + width form.taken := by
  simp only [ImportForm.placed, ImportForm.taken, width_append, Nat.add_assoc]

theorem ImportForm.slice_placed (form : ImportForm) (space lead : Text) :
    let s := form.placed space (width lead)
    slice (lead ++ form.text) s.start s.stop = form.taken := by
  simp only [ImportForm.text_eq_taken, ImportForm.stop_placed]
  exact slice_middle lead form.taken form.rest

theorem mem_scanFrom {before t : Text} {start : Nat} {s : ImportStatement}
    (at_ : start = width before) (h : s ∈ scanFrom space spans start t) :
    ∃ lead behind form, before ++ t = lead ++ (importKeyword ++ behind) ∧
      endsKeyword behind.head? ∧ importForm? behind = some form ∧
      s = form.placed space (width lead) := by
  fun_induction scanFrom space spans start t generalizing before with
  | case1 => contradiction
  | case2 start c t line indent position form found statement =>
    rename_i ih
    obtain ⟨behind, read, ends, formed⟩ := statementAt?_eq_some found
    have inside : indent <+: c :: t :=
      (List.takeWhile_prefix _).trans ⟨_, firstLine_append_drop (c :: t)⟩
    have split := List.prefix_iff_eq_append.1 inside
    have whole : before ++ c :: t = (before ++ indent) ++ (importKeyword ++ behind) := by
      rw [List.append_assoc, ← read, split]
    have placed : position = width (before ++ indent) := by
      rw [width_append, ← at_]
    rcases List.mem_cons.1 h with rfl | later
    · exact ⟨before ++ indent, behind, form, whole, ends, formed, placed ▸ rfl⟩
    · have text := importForm?_text formed
      rw [whole, ← text, ImportForm.text_eq_taken, ← List.append_assoc]
      refine ih ?_ later
      rw [ImportForm.stop_placed, placed, ← width_append]
  | case3 start c t line indent position none_ =>
    rename_i ih
    rw [← firstLine_append_drop (c :: t), ← List.append_assoc]
    exact ih (by rw [width_append, at_]) h

theorem mem_imports {source : Text} {s : ImportStatement} (h : s ∈ imports space source) :
    ∃ lead behind form, source = lead ++ (importKeyword ++ behind) ∧
      endsKeyword behind.head? ∧ importForm? behind = some form ∧
      s = form.placed space (width lead) := by
  rw [← List.nil_append source]
  exact mem_scanFrom rfl h

theorem lexFrom_collected (before : Text) {code : Text} (collected : code ≠ []) (t : Text) :
    ∃ ending more, lexFrom before code t = ⟨.code, code.reverse ++ ending⟩ :: more := by
  induction before, code, t using lexing_induction with
  | nil before code => exact ⟨[], [], by simp [lexFrom, codeSegment, collected]⟩
  | code before code c t found ih =>
    obtain ⟨ending, more, lexed⟩ := ih (by simp)
    exact ⟨c :: ending, more, by simp [lexFrom_code found, lexed]⟩
  | piece before code c inside kind rest found ih =>
    have first : codeSegment code = [⟨.code, code.reverse⟩] := by simp [codeSegment, collected]
    rw [lexFrom_piece found, first]
    exact ⟨[], _, by rw [List.append_nil]; rfl⟩

theorem lexFrom_head (before : Text) {code : Text} (collected : code ≠ []) (t : Text) :
    ∃ text more, lexFrom before code t = ⟨.code, text⟩ :: more ∧ text ≠ [] := by
  obtain ⟨ending, more, lexed⟩ := lexFrom_collected before collected t
  exact ⟨_, more, lexed, by simp [collected]⟩

theorem le_start_of_mem_extentsFrom {segments : List Segment} {start : Nat} {extent : Extent}
    (h : extent ∈ extentsFrom start segments) : start ≤ extent.start := by
  induction segments generalizing start with
  | nil => contradiction
  | cons segment more ih =>
    rcases List.mem_cons.1 h with rfl | later
    · exact Nat.le_refl _
    · have := ih later
      omega

theorem kindAt?_start {c : Char} {t : Text} (code : piece? [] c t = none) :
    kindAt? (spansIn (c :: t)) 0 = none := by
  obtain ⟨text, more, lexed, filled⟩ := lexFrom_head [c] (List.cons_ne_nil c []) t
  have positive := width_pos filled
  have apart : ∀ span ∈ spansIn (c :: t), ¬ span.start ≤ 0 := by
    intro span member
    rw [spansIn, spansOf, lex, lexFrom_code code, lexed, List.mem_filterMap] at member
    obtain ⟨extent, member, isSpan⟩ := member
    rcases List.mem_cons.1 member with rfl | later
    · simp [Extent.span?, SegmentKind.span?] at isSpan
    · have behind := le_start_of_mem_extentsFrom later
      obtain ⟨kind, -, rfl⟩ := Option.map_eq_some_iff.1 isSpan
      simp only at behind ⊢
      omega
  rw [kindAt?, Option.map_eq_none_iff, spanOver?, Option.filter_eq_none_iff]
  intro span found
  simpa using apart span (List.mem_of_find?_eq_some found)

theorem firstLine_visible {c : Char} (shown : isBlank c = false) (t : Text) :
    (firstLine (c :: t)).takeWhile isBlank = [] := by
  have inLine : c ≠ '\n' := by
    rintro rfl
    contradiction
  simp [firstLine, inLine, shown]

theorem scanFrom_found {c : Char} {t : Text} {start : Nat} {form : ImportForm}
    (shown : isBlank c = false) (found : statementAt? spans start (c :: t) = some form) :
    scanFrom space spans start (c :: t) = form.placed space start ::
      scanFrom space spans (form.placed space start).stop form.rest := by
  have indent := firstLine_visible shown t
  rw [scanFrom]
  split
  · rename_i other
    simp only [indent, width_nil, List.length_nil, List.drop_zero, Nat.add_zero] at other ⊢
    rw [found] at other
    cases other
    rfl
  · rename_i other
    simp only [indent, width_nil, List.length_nil, List.drop_zero, Nat.add_zero] at other
    rw [found] at other
    contradiction

theorem imports_alone {behind : Text} {form : ImportForm} (ends : endsKeyword behind.head?)
    (formed : importForm? behind = some form) (alone : form.rest = []) :
    imports space (importKeyword ++ behind) = [form.placed space 0] := by
  have code : piece? [] 'i' (importKeyword.tail ++ behind) = none := by
    simp [piece?, isQuote, backtick]
  have shown : kindAt? (spansIn (importKeyword ++ behind)) 0 = none := kindAt?_start code
  have found : statementAt? (spansIn (importKeyword ++ behind)) 0 (importKeyword ++ behind)
      = some form := by
    rw [statementAt?, after?_eq_some_iff.2 rfl]
    simp only [ends, formed, shown]
    rfl
  refine (scanFrom_found (by decide) found).trans ?_
  rw [alone, scanFrom]

theorem imports_statement {behind opening clause mark : Text} {q : Quoted}
    (ends : endsKeyword behind.head?) (read : reading? behind = some (opening, clause, q))
    (whole : terminator mark = mark) :
    imports space (opening ++ (q.specifier ++ q.closing :: mark))
      = [(statementForm opening clause { q with rest := mark }).placed space 0] := by
  obtain ⟨quote, lead, rfl, rfl, cut⟩ := reading?_cut read
  have first : endsKeyword (lead ++ (q.specifier ++ q.closing :: mark)).head? := by
    simpa only [List.head?_append, List.head?_cons] using ends
  rw [List.append_assoc]
  refine imports_alone first ?_ ?_
  · rw [importForm?_eq_reading?, cut]
    rfl
  · simp [statementForm, whole]

end ComponentBundle.Module
