import ComponentBundle.Bundle.Artifact
import ComponentBundle.Bundle.Identifier
import ComponentBundle.Proofs.ExportWords

/-!
The words `export` of a rendered bundle: those of its parts, and that of its last line, which is
always code.
-/
namespace ComponentBundle.Bundle
open ComponentBundle.Text ComponentBundle.Source ComponentBundle.Module

def Artifact.beforeExport (artifact : Artifact) : Text :=
  (if artifact.externals.isEmpty then []
    else join newline artifact.externals ++ (newline ++ newline))
    ++ artifact.declarations.flatMap ModuleDeclaration.render

def Artifact.exportLine (artifact : Artifact) : Text :=
  exportDefaultWords ++ (artifact.exported ++ semicolonLine)

theorem Artifact.render_eq (artifact : Artifact) :
    artifact.render = artifact.beforeExport ++ artifact.exportLine := by
  rw [beforeExport, List.append_assoc]
  rfl

theorem newline_free (fresh : Bool) : ExportFree fresh newline := by
  cases fresh <;> decide

theorem freshAfter_newline (fresh : Bool) (t : Text) : freshAfter fresh (t ++ newline) = true := by
  rw [freshAfter_append]
  rfl

structure FreeLines (t : Text) : Prop where
  free : ExportFree true t
  ends : EndsLine t

theorem freshAfter_endsLine {t : Text} (h : EndsLine t) : freshAfter true t = true := by
  rcases h with rfl | last
  · rfl
  · obtain ⟨init, rfl⟩ := List.getLast?_eq_some_iff.1 last
    exact freshAfter_newline true init

theorem namesApart_endsLine {a : Text} (h : EndsLine a) (b : Text) : NamesApart a b := by
  left
  rcases h with rfl | last
  · rfl
  · rw [last]
    rfl

theorem FreeLines.append {a b : Text} (first : FreeLines a) (second : FreeLines b) :
    FreeLines (a ++ b) where
  free := by
    apply first.free.append _ (namesApart_endsLine first.ends b)
    rw [freshAfter_endsLine first.ends]
    exact second.free
  ends := first.ends.append second.ends

theorem freeLines_nil : FreeLines [] := ⟨by decide, Or.inl rfl⟩

theorem freeLines_newline {t : Text} (free : ExportFree true t) : FreeLines (t ++ newline) where
  free := free.append (newline_free _) (Or.inr rfl)
  ends := Or.inr (by simp [newline])

theorem freeLines_ownLines {t : Text} (free : ExportFree true t) : FreeLines (ownLines t) := by
  unfold ownLines
  split
  · exact freeLines_nil
  · exact freeLines_newline free

theorem freeLines_join {texts : List Text} (free : ∀ t ∈ texts, ExportFree true t) :
    FreeLines (join newline texts ++ newline) := by
  induction texts with
  | nil => exact freeLines_newline freeLines_nil.free
  | cons t more ih =>
    obtain ⟨first, others⟩ := List.forall_mem_cons.1 free
    cases more with
    | nil => simpa [join] using freeLines_newline first
    | cons next more =>
      have split : join newline (t :: next :: more) ++ newline
          = (t ++ newline) ++ (join newline (next :: more) ++ newline) := by
        simp [join, List.intercalate, List.intersperse]
      rw [split]
      exact (freeLines_newline first).append (ih others)

theorem freeLines_binding {identifier body : Text} (line : '\n' ∉ identifier)
    (free : ExportFree false body) :
    FreeLines (constWord ++ (identifier ++ (equalsSign ++ (body ++ semicolonLine)))) := by
  have ended : ExportFree (freshAfter false body) semicolonLine := by
    cases freshAfter false body <;> decide
  have value : ExportFree false (body ++ semicolonLine) := free.append ended (Or.inr rfl)
  have sign : ExportFree false (equalsSign ++ (body ++ semicolonLine)) :=
    (exportFree_line (by decide)).append value (Or.inl (by decide))
  have named : ExportFree false (identifier ++ (equalsSign ++ (body ++ semicolonLine))) := by
    apply (exportFree_line line).append _ (Or.inr (by rfl))
    rw [freshAfter_line line]
    exact sign
  have word : ExportFree true constWord := by decide +kernel
  constructor
  · exact word.append named (Or.inl (by decide))
  · right
    simp [semicolonLine]

structure ModuleDeclaration.ExportFree (d : ModuleDeclaration) : Prop where
  prelude : Module.ExportFree true d.prelude
  body : Module.ExportFree false d.body
  epilogue : Module.ExportFree true d.epilogue

theorem freeLines_render {d : ModuleDeclaration} (line : '\n' ∉ d.identifier)
    (free : d.ExportFree) : FreeLines d.render := by
  have binding : FreeLines (if d.body = d.identifier then []
      else constWord ++ (d.identifier ++ (equalsSign ++ (d.body ++ semicolonLine)))) := by
    split
    · exact freeLines_nil
    · exact freeLines_binding line free.body
  have behind := (freeLines_ownLines free.epilogue).append (freeLines_newline freeLines_nil.free)
  exact (freeLines_ownLines free.prelude).append (binding.append behind)

theorem freeLines_beforeExport {artifact : Artifact}
    (externals : ∀ t ∈ artifact.externals, ExportFree true t)
    (lines : ∀ d ∈ artifact.declarations, '\n' ∉ d.identifier)
    (free : ∀ d ∈ artifact.declarations, d.ExportFree) : FreeLines artifact.beforeExport := by
  have imports : FreeLines (if artifact.externals.isEmpty then []
      else join newline artifact.externals ++ (newline ++ newline)) := by
    split
    · exact freeLines_nil
    · rw [← List.append_assoc]
      exact (freeLines_join externals).append (freeLines_newline freeLines_nil.free)
  apply imports.append
  revert lines free
  generalize artifact.declarations = declarations
  intro lines free
  induction declarations with
  | nil => exact freeLines_nil
  | cons d more ih =>
    obtain ⟨line, lines⟩ := List.forall_mem_cons.1 lines
    obtain ⟨first, others⟩ := List.forall_mem_cons.1 free
    rw [List.flatMap_cons]
    exact (freeLines_render line first).append (ih lines others)

theorem endsLine_newline (t : Text) : EndsLine (t ++ newline) := Or.inr (by simp [newline])

theorem endsLine_beforeExport (artifact : Artifact) : EndsLine artifact.beforeExport := by
  apply EndsLine.append
  · split
    · exact Or.inl rfl
    · rw [← List.append_assoc]
      exact endsLine_newline _
  · induction artifact.declarations with
    | nil => exact Or.inl rfl
    | cons d more ih =>
      rw [List.flatMap_cons]
      apply EndsLine.append _ ih
      rw [ModuleDeclaration.render, ← List.append_assoc, ← List.append_assoc]
      exact endsLine_newline _

theorem exportLine_words {artifact : Artifact} (names : ∀ c ∈ artifact.exported, isIdentifierChar c)
    (position : Nat) : exportWordsFrom true position artifact.exportLine = [position] := by
  have line : '\n' ∉ artifact.exported := fun inside => absurd (names _ inside) (by decide)
  have head : artifact.exportLine = exportWord ++ (' ' :: (defaultWord ++ (' ' ::
      (artifact.exported ++ semicolonLine)))) := rfl
  have starts : startsExport artifact.exportLine := startsExport_iff.2 ⟨_, head, rfl⟩
  have tail : ExportFree false (exportWord.tail ++ (' ' :: (defaultWord ++ (' ' ::
      (artifact.exported ++ [';']))))) := by
    apply exportFree_line
    simp only [List.mem_append, List.mem_cons, not_or]
    exact ⟨by decide, by decide, by decide, by decide, line, by decide, by decide⟩
  have free := tail.append (newline_free _) (Or.inr rfl)
  have same : artifact.exportLine = 'e' :: ((exportWord.tail ++ (' ' :: (defaultWord ++ (' ' ::
      (artifact.exported ++ [';']))))) ++ newline) := by
    rw [head]
    simp [exportWord, semicolonLine, newline]
  rw [same] at starts ⊢
  rw [exportWordsFrom, starts]
  simp only [Bool.and_self, if_true, List.singleton_append, List.cons.injEq, true_and]
  exact exportWordsFrom_eq_nil_iff.2 free

theorem exportPlaces_render {artifact : Artifact} (names : ∀ c ∈ artifact.exported, isIdentifierChar c) :
    exportPlaces artifact.render
      = (exportWordsFrom true 0 artifact.beforeExport).filter (inCode (lex artifact.render))
        ++ [width artifact.beforeExport] := by
  have ended := endsLine_beforeExport artifact
  have quiet : ∀ c ∈ artifact.exportLine, isQuiet c := by
    have words : ∀ c ∈ exportDefaultWords, isQuiet c := List.all_eq_true.1 (by decide +kernel)
    have mark : ∀ c ∈ semicolonLine, isQuiet c := List.all_eq_true.1 (by decide +kernel)
    have name : ∀ c ∈ artifact.exported, isQuiet c := by
      intro c inside
      have known := names c inside
      simp only [isIdentifierChar, Bool.or_eq_true] at known
      simp only [isQuiet, isNameChar, Bool.or_eq_true]
      exact Or.inl (Or.inl (Or.inl (Or.inl known)))
    exact List.forall_mem_append.2 ⟨words, List.forall_mem_append.2 ⟨name, mark⟩⟩
  have code := inCode_last_line quiet (List.cons_ne_nil _ _) ended
  rw [exportPlaces]
  conv => lhs; arg 2; rw [artifact.render_eq]
  rw [exportWordsFrom_append (namesApart_endsLine ended _), freshAfter_endsLine ended,
    exportLine_words names, List.filter_append, Nat.zero_add]
  rw [← artifact.render_eq] at code
  simp [code]

end ComponentBundle.Bundle
