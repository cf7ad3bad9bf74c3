import ComponentBundle.Bundle.Linking
import ComponentBundle.Proofs.BytePlaces
import ComponentBundle.Proofs.RemovedRanges
import ComponentBundle.Proofs.StatementPlaces

/-!
Import statements and the text that is left without them. The scan goes forward in every turn, so
the statements that it reports stand in order and apart, each with its specifier inside. Taken out
of the source they leave every byte that none of them holds.
-/
namespace ComponentBundle.Module
open ComponentBundle.Text ComponentBundle.Source ComponentBundle.Bundle

/-- One turn of the scan: the statement that a line starts with, if there is one, and the position
and the text where the next turn starts. -/
def scanTurn (space : Text) (spans : List Span) (start : Nat) (t : Text) :
    Option ImportStatement × Nat × Text :=
  let line := firstLine t
  let indent := line.takeWhile isBlank
  let position := start + width indent
  match statementAt? spans position (t.drop indent.length) with
  | some form =>
    let statement := form.placed space position
    (some statement, statement.stop, form.rest)
  | none => (none, start + width line, t.drop line.length)

/-- A scan that comes to its end, with the number of its turns and the statements it reports. -/
inductive ScanRun (space : Text) (spans : List Span) :
    Nat → Nat → Text → List ImportStatement → Prop where
  | done (start : Nat) : ScanRun space spans 0 start [] []
  | turn {turns start stop : Nat} {t rest : Text} {found : Option ImportStatement}
      {more : List ImportStatement} (filled : t ≠ [])
      (step : scanTurn space spans start t = (found, stop, rest))
      (behind : ScanRun space spans turns stop rest more) :
      ScanRun space spans (turns + 1) start t (found.toList ++ more)

variable {space : Text} {spans : List Span}

theorem scanTurn_shorter {start : Nat} {t : Text} (filled : t ≠ []) :
    (scanTurn space spans start t).2.2.length < t.length := by
  obtain ⟨c, t, rfl⟩ := List.exists_cons_of_ne_nil filled
  simp only [scanTurn]
  split
  · rename_i found
    have := statementAt?_rest_length found
    rw [List.length_drop] at this
    exact Nat.lt_of_lt_of_le this (Nat.sub_le ..)
  · have := firstLine_length_pos c t
    rw [List.length_drop, List.length_cons]
    omega

theorem scanFrom_turn {start : Nat} {t : Text} (filled : t ≠ []) :
    scanFrom space spans start t = (scanTurn space spans start t).1.toList ++
      scanFrom space spans (scanTurn space spans start t).2.1
        (scanTurn space spans start t).2.2 := by
  obtain ⟨c, t, rfl⟩ := List.exists_cons_of_ne_nil filled
  rw [scanFrom, scanTurn]
  split <;> rename_i found <;> simp only [found] <;> rfl

/-- The scan of a text ends, after no more turns than the text has characters. -/
theorem scanFrom_ends (start : Nat) (t : Text) :
    ∃ turns ≤ t.length, ScanRun space spans turns start t (scanFrom space spans start t) := by
  induction length : t.length using Nat.strongRecOn generalizing start t with
  | ind n ih =>
    subst length
    by_cases filled : t = []
    · subst filled
      rw [scanFrom]
      exact ⟨0, Nat.le_refl _, .done start⟩
    · have shorter : (scanTurn space spans start t).2.2.length < t.length :=
        scanTurn_shorter filled
      obtain ⟨turns, few, behind⟩ := ih _ shorter _ _ rfl
      rw [scanFrom_turn filled]
      exact ⟨turns + 1, Nat.lt_of_le_of_lt few shorter, .turn filled rfl behind⟩

theorem scanFrom_apart (start : Nat) (t : Text) :
    (scanFrom space spans start t).Pairwise fun a b => a.stop ≤ b.start := by
  fun_induction scanFrom space spans start t with
  | case1 => exact List.Pairwise.nil
  | case2 start c t line indent position form found statement ih =>
    refine List.pairwise_cons.2 ⟨?_, ih⟩
    intro s later
    exact (scanFrom_forward space spans statement.stop form.rest s later).1
  | case3 start c t line indent position none_ ih => exact ih

/-- A statement of a source: it starts with the keyword, holds its specifier, which has no quote and
no line end in it, and is cut out between characters. -/
structure ImportStatement.StandsIn (s : ImportStatement) (source : Text) : Prop where
  keyword : importKeyword <+: slice source s.start s.stop
  opened : s.start < s.specifier.start
  closed : s.specifier.stop < s.stop
  within : s.stop ≤ width source
  boundaries : ∀ position ∈ [s.start, s.specifier.start, s.specifier.stop, s.stop],
    Boundary source position
  shown : slice source s.specifier.start s.specifier.stop = s.specifier.specifier
  filled : s.specifier.specifier ≠ []
  plain : ∀ c ∈ s.specifier.specifier, isQuote c = false ∧ c ≠ '\n'

structure ImportForm.Sound (form : ImportForm) : Prop where
  keyword : importKeyword <+: form.opening
  closing : form.closing ≠ []
  filled : form.specifier ≠ []
  plain : ∀ c ∈ form.specifier, isQuote c = false ∧ c ≠ '\n'

theorem ImportForm.Sound.of_read {behind : Text} {form : ImportForm}
    (read : importForm? behind = some form) : form.Sound := by
  obtain ⟨opening, clause, q, reading, rfl⟩ := reading?_of_importForm? read
  obtain ⟨sound, lead, rfl, -⟩ := reading?_sound reading
  exact ⟨List.prefix_append .., List.cons_ne_nil _ _, sound.filled, sound.plain⟩

theorem imports_cut {source : Text} {s : ImportStatement} (member : s ∈ imports space source) :
    ∃ (front : Text) (form : ImportForm), form.Sound ∧ source = front ++ form.text ∧
      s = form.placed space (width front) := by
  obtain ⟨front, behind, form, rfl, -, read, rfl⟩ := mem_imports member
  exact ⟨front, form, .of_read read, by rw [importForm?_text read], rfl⟩

theorem ImportForm.boundaries_placed (form : ImportForm) (front : Text) :
    let s := form.placed space (width front)
    ∀ position ∈ [s.start, s.specifier.start, s.specifier.stop, s.stop],
      Boundary (front ++ form.text) position := by
  have opened : front ++ form.text
      = (front ++ form.opening) ++ (form.specifier ++ (form.closing ++ form.rest)) := by
    simp [ImportForm.text]
  have closed : front ++ form.text
      = (front ++ form.opening ++ form.specifier) ++ (form.closing ++ form.rest) := by
    simp [ImportForm.text]
  have stopped : front ++ form.text
      = (front ++ form.opening ++ form.specifier ++ form.closing) ++ form.rest := by
    simp [ImportForm.text]
  simp only [List.forall_mem_cons, ImportForm.placed, ← width_append, List.not_mem_nil,
    false_imp_iff, implies_true, and_true]
  exact ⟨boundary_width _ _, opened ▸ boundary_width _ _, closed ▸ boundary_width _ _,
    stopped ▸ boundary_width _ _⟩

theorem ImportForm.Sound.standsIn {form : ImportForm} (sound : form.Sound) (front : Text) :
    (form.placed space (width front)).StandsIn (front ++ form.text) where
  keyword := by
    rw [form.slice_placed space front]
    exact sound.keyword.trans (List.prefix_append ..)
  opened := by
    have : 0 < width form.opening := width_pos
      (List.ne_nil_of_length_pos (Nat.lt_of_lt_of_le (by decide) sound.keyword.length_le))
    exact Nat.lt_add_of_pos_right this
  closed := Nat.lt_add_of_pos_right (width_pos sound.closing)
  within := by
    rw [ImportForm.stop_placed, ImportForm.text_eq_taken, ← List.append_assoc, ← width_append,
      width_append _ form.rest]
    exact Nat.le_add_right ..
  boundaries := form.boundaries_placed front
  shown := by
    have cut := slice_middle (front ++ form.opening) form.specifier (form.closing ++ form.rest)
    rw [width_append, List.append_assoc] at cut
    exact cut
  filled := sound.filled
  plain := sound.plain

theorem imports_standIn {source : Text} {s : ImportStatement} (member : s ∈ imports space source) :
    s.StandsIn source := by
  obtain ⟨front, form, sound, rfl, rfl⟩ := imports_cut member
  exact sound.standsIn front

theorem imports_apart (space source : Text) :
    (imports space source).Pairwise fun a b => a.stop ≤ b.start :=
  scanFrom_apart 0 source

end ComponentBundle.Module

namespace ComponentBundle.Bundle
open ComponentBundle.Text ComponentBundle.Source ComponentBundle.Module

theorem bytes_uncovered {t : Text} {edits : List Edit} (takes : ∀ edit ∈ edits, TakesOut t edit) :
    bytes (uncovered t edits) = ((placedBytes 0 t).filter fun x =>
      !edits.any fun edit => edit.start ≤ x.1 && x.1 < edit.stop).map Prod.snd := by
  have whole : ∀ place c, (place, c) ∈ placed 0 t → ∀ i < c.utf8Size,
      (!edits.any fun edit => edit.start ≤ place + i && place + i < edit.stop)
        = !edits.any fun edit => edit.start ≤ place && place < edit.stop := by
    intro place c inside i small
    obtain ⟨front, rest, split, rfl⟩ := mem_placed.1 inside
    rw [Nat.zero_add, Bool.not_inj_iff, Bool.eq_iff_iff, List.any_eq_true, List.any_eq_true]
    refine exists_congr fun edit => and_congr_right fun member => ?_
    obtain ⟨before, taken, behind, cut, rfl⟩ := takes edit member
    simpa using range_over_char cut split small
  have picked := filter_placedBytes
    (fun place => !edits.any fun edit => edit.start ≤ place && place < edit.stop) whole
  rw [picked, List.map_flatMap, uncovered, uncoveredFrom, bytes, List.flatMap_map]
  simp only [map_snd_placedBytes]
  simp [bytes]

theorem takesOut_of_imports {space source : Text} {s : ImportStatement}
    (member : s ∈ imports space source) : TakesOut source ⟨s.start, s.stop, []⟩ := by
  obtain ⟨front, form, -, rfl, rfl⟩ := imports_cut member
  refine ⟨front, form.taken, form.rest, ?_, ?_⟩
  · rw [ImportForm.text_eq_taken]
  · rw [ImportForm.stop_placed, width_append]
    rfl

theorem bytes_withoutImports (space source : Text) :
    bytes (withoutImports source (imports space source))
      = ((placedBytes 0 source).filter fun x =>
          !(imports space source).any fun s => s.start ≤ x.1 && x.1 < s.stop).map Prod.snd := by
  have takes : ∀ edit ∈ (imports space source).map fun s => (⟨s.start, s.stop, []⟩ : Edit),
      TakesOut source edit := by
    intro edit inside
    obtain ⟨s, member, rfl⟩ := List.mem_map.1 inside
    exact takesOut_of_imports member
  rw [withoutImports, applyEdits_uncovered takes, bytes_uncovered takes]
  · simp only [List.any_map, Function.comp_def]
  · intro a insideA b insideB low reaches
    obtain ⟨s, memberS, rfl⟩ := List.mem_map.1 insideA
    obtain ⟨u, memberU, rfl⟩ := List.mem_map.1 insideB
    have forward := (scanFrom_forward space (spansIn source) 0 source s memberS).2
    rcases eq_or_apart (imports_apart space source) memberS memberU with rfl | before | behind
    · exact Nat.le_refl _
    · exact absurd reaches (Nat.not_lt_of_le before)
    · exact behind.trans forward

/-- The scan of a source ends, and what it reports stands there in order and apart, each statement
with its keyword in front and its specifier inside. Without them the source is left byte for byte. -/
theorem imports_apart_and_removed (space source : Text) :
    (∃ turns ≤ source.length,
      ScanRun space (spansIn source) turns 0 source (imports space source)) ∧
      (imports space source).Pairwise (fun a b => a.stop ≤ b.start) ∧
      (∀ s ∈ imports space source, s.StandsIn source) ∧
      bytes (withoutImports source (imports space source))
        = ((placedBytes 0 source).filter fun x =>
            !(imports space source).any fun s => s.start ≤ x.1 && x.1 < s.stop).map Prod.snd :=
  ⟨scanFrom_ends 0 source, imports_apart space source, fun _ member => imports_standIn member,
    bytes_withoutImports space source⟩

def crowdedLine : Text := "import 'a'; import { b } from \"./ü\"\n  \nlet é = b;\n"

def laterImport : ImportStatement :=
  ⟨12, 37, ⟨31, 35, "./ü"⟩, ⟨none, none, [⟨"b", "b"⟩]⟩, true⟩

theorem crowdedLine_removed :
    laterImport ∈ imports "app" crowdedLine ∧ laterImport.StandsIn crowdedLine ∧
      bytes (withoutImports crowdedLine (imports "app" crowdedLine))
        = bytes "   \nlet é = b;\n" := by
  have member : laterImport ∈ imports "app" crowdedLine := by decide +kernel
  obtain ⟨-, -, stands, left⟩ := imports_apart_and_removed "app" crowdedLine
  exact ⟨member, stands laterImport member, left.trans (by decide +kernel)⟩

end ComponentBundle.Bundle
