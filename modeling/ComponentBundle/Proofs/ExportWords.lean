import ComponentBundle.Module.Line
import ComponentBundle.Proofs.FinalLine

/-!
The words `export` that lead their lines. A text that is put together has those of its parts, as
long as no word goes from one part into the next.
-/
namespace ComponentBundle.Module
open ComponentBundle.Text ComponentBundle.Source

/-- The characters with which a name goes on. White space is none of them. -/
def continuesName (c : Char) : Bool := isWord c || c = '$'

def blankCodes : List Nat :=
  [0x9, 0xA, 0xB, 0xC, 0xD, 0x20, 0x85, 0xA0, 0x1680, 0x2000, 0x2001, 0x2002, 0x2003, 0x2004,
    0x2005, 0x2006, 0x2007, 0x2008, 0x2009, 0x200A, 0x2028, 0x2029, 0x202F, 0x205F, 0x3000]

theorem toNat_mem_blankCodes {c : Char} (blank : isBlank c) : c.toNat ∈ blankCodes := by
  simp only [isBlank, Bool.or_eq_true, Bool.and_eq_true, decide_eq_true_eq] at blank
  simp only [blankCodes, List.mem_cons, List.not_mem_nil, or_false]
  omega

theorem not_continuesName_of_blank {c : Char} (blank : isBlank c) : continuesName c = false := by
  have all : ∀ n ∈ blankCodes, continuesName (Char.ofNat n) = false := by decide +kernel
  have found := all c.toNat (toNat_mem_blankCodes blank)
  rwa [Char.ofNat_toNat] at found

/-- Whether nothing but white space was read since the line began, behind a text. -/
def freshAfter (fresh : Bool) (t : Text) : Bool :=
  t.foldl (fun fresh c => c = '\n' || (fresh && isBlank c)) fresh

def startsExport (t : Text) : Bool :=
  match after? exportWord t with
  | some rest => !rest.head?.any continuesName
  | none => false

/-- The positions of the words `export` that only white space precedes on their lines. -/
def exportWordsFrom (fresh : Bool) (position : Nat) : Text → List Nat
  | [] => []
  | c :: t =>
    (if fresh && startsExport (c :: t) then [position] else [])
      ++ exportWordsFrom (c = '\n' || (fresh && isBlank c)) (position + c.utf8Size) t

def exportPlaces (t : Text) : List Nat :=
  (exportWordsFrom true 0 t).filter (inCode (lex t))

theorem freshAfter_cons (fresh : Bool) (c : Char) (t : Text) :
    freshAfter fresh (c :: t) = freshAfter (c = '\n' || (fresh && isBlank c)) t := rfl

theorem freshAfter_append (fresh : Bool) (a b : Text) :
    freshAfter fresh (a ++ b) = freshAfter (freshAfter fresh a) b := List.foldl_append

theorem freshAfter_mono {t : Text} (h : freshAfter false t) : freshAfter true t := by
  induction t with
  | nil => contradiction
  | cons c t ih =>
    rw [freshAfter_cons, Bool.false_and, Bool.or_false] at h
    rw [freshAfter_cons, Bool.true_and]
    cases line : decide (c = '\n') with
    | true =>
      rw [line] at h
      exact h
    | false =>
      rw [line] at h
      cases isBlank c with
      | true => exact ih h
      | false => exact h

theorem freshAfter_line {t : Text} (line : '\n' ∉ t) : freshAfter false t = false := by
  induction t with
  | nil => rfl
  | cons c t ih =>
    rw [List.mem_cons, not_or] at line
    rw [freshAfter_cons, decide_eq_false (Ne.symm line.1)]
    exact ih line.2

theorem freshAfter_blank {t : Text} (blank : ∀ c ∈ t, isBlank c) : freshAfter true t = true := by
  induction t with
  | nil => rfl
  | cons c t ih =>
    obtain ⟨first, more⟩ := List.forall_mem_cons.1 blank
    rw [freshAfter_cons, first, Bool.true_and, Bool.or_true]
    exact ih more

theorem startsExport_iff {t : Text} : startsExport t ↔
    ∃ rest, t = exportWord ++ rest ∧ rest.head?.any continuesName = false := by
  unfold startsExport
  split
  · rename_i rest found
    rw [after?_eq_some_iff.1 found]
    simp
  · rename_i missing
    simp only [Bool.false_eq_true, false_iff]
    rintro ⟨rest, rfl, -⟩
    rw [after?_eq_some_iff.2 rfl] at missing
    contradiction

def NamesApart (a b : Text) : Prop :=
  a.getLast?.any continuesName = false ∨ b.head?.any continuesName = false

theorem exportWord_names : ∀ c ∈ exportWord, continuesName c :=
  List.all_eq_true.1 (by decide +kernel)

theorem NamesApart.of_names {a b : Text} (apart : NamesApart a b) (filled : a ≠ [])
    (names : ∀ c ∈ a, continuesName c) : b.head?.any continuesName = false := by
  apply apart.resolve_left
  rw [List.getLast?_eq_some_getLast filled, Option.any_some, names _ (List.getLast_mem filled)]
  decide

theorem startsExport_append {a b : Text} (filled : a ≠ []) (apart : NamesApart a b) :
    startsExport (a ++ b) = startsExport a := by
  rw [Bool.eq_iff_iff, startsExport_iff, startsExport_iff]
  constructor
  · intro ⟨rest, split, ends⟩
    rcases List.append_eq_append_iff.1 split with ⟨extra, word, next⟩ | ⟨extra, inside, rfl⟩
    · have names := exportWord_names
      rw [word, List.forall_mem_append] at names
      have stops := apart.of_names filled names.1
      cases extra with
      | nil => exact ⟨[], by rw [word, List.append_nil, List.append_nil], rfl⟩
      | cons c extra =>
        rw [next] at stops
        exact absurd (names.2 c List.mem_cons_self) (by simpa using stops)
    · refine ⟨extra, inside, ?_⟩
      cases extra with
      | nil => rfl
      | cons c extra => exact ends
  · intro ⟨rest, split, ends⟩
    refine ⟨rest ++ b, by rw [split, List.append_assoc], ?_⟩
    cases rest with
    | nil =>
      rw [List.append_nil] at split
      exact apart.of_names filled (split ▸ exportWord_names)
    | cons c rest => exact ends

theorem NamesApart.tail {c : Char} {a b : Text} (apart : NamesApart (c :: a) b) : NamesApart a b := by
  cases a with
  | nil => exact Or.inl rfl
  | cons d a => exact apart.imp_left fun last => by rwa [List.getLast?_cons_cons] at last

theorem exportWordsFrom_append {a b : Text} (apart : NamesApart a b) (fresh : Bool) (position : Nat) :
    exportWordsFrom fresh position (a ++ b) = exportWordsFrom fresh position a
      ++ exportWordsFrom (freshAfter fresh a) (position + width a) b := by
  induction a generalizing fresh position with
  | nil => rfl
  | cons c a ih =>
    rw [List.cons_append, exportWordsFrom, exportWordsFrom, ih apart.tail, ← List.cons_append,
      startsExport_append (List.cons_ne_nil c a) apart, freshAfter_cons, width_cons,
      List.append_assoc, Nat.add_assoc]

def ExportFree (fresh : Bool) (t : Text) : Prop :=
  ∀ before rest, t = before ++ rest → freshAfter fresh before → startsExport rest = false

theorem mem_exportWordsFrom {fresh : Bool} {position place : Nat} {t : Text} :
    place ∈ exportWordsFrom fresh position t ↔ ∃ before rest, t = before ++ rest ∧
      place = position + width before ∧ freshAfter fresh before ∧ startsExport rest := by
  induction t generalizing fresh position with
  | nil =>
    simp only [exportWordsFrom, List.not_mem_nil, false_iff]
    rintro ⟨before, rest, split, -, -, starts⟩
    rw [(List.append_eq_nil_iff.1 split.symm).2] at starts
    contradiction
  | cons c t ih =>
    rw [exportWordsFrom, List.mem_append, ih]
    constructor
    · rintro (here | ⟨before, rest, rfl, rfl, fresh, starts⟩)
      · by_cases found : fresh && startsExport (c :: t)
        · rw [if_pos found, List.mem_singleton] at here
          rw [Bool.and_eq_true] at found
          exact ⟨[], c :: t, rfl, here, found.1, found.2⟩
        · rw [if_neg found] at here
          contradiction
      · exact ⟨c :: before, rest, rfl, by rw [width_cons, Nat.add_assoc], fresh, starts⟩
    · rintro ⟨before, rest, split, rfl, fresh_, starts⟩
      cases before with
      | nil =>
        left
        have fresh_ : fresh = true := fresh_
        rw [split, fresh_, List.nil_append, starts]
        exact List.mem_cons_self
      | cons d before =>
        obtain ⟨rfl, rfl⟩ := List.cons.inj split
        exact Or.inr ⟨before, rest, rfl, by rw [width_cons, Nat.add_assoc], fresh_, starts⟩

theorem exportWordsFrom_eq_nil_iff {fresh : Bool} {position : Nat} {t : Text} :
    exportWordsFrom fresh position t = [] ↔ ExportFree fresh t := by
  simp only [List.eq_nil_iff_forall_not_mem, mem_exportWordsFrom]
  constructor
  · intro none_ before rest split fresh
    rw [Bool.eq_false_iff]
    exact fun starts => none_ _ ⟨before, rest, split, rfl, fresh, starts⟩
  · rintro free place ⟨before, rest, split, -, fresh, starts⟩
    rw [free before rest split fresh] at starts
    contradiction

instance (fresh : Bool) (t : Text) : Decidable (ExportFree fresh t) :=
  decidable_of_iff (exportWordsFrom fresh 0 t = []) exportWordsFrom_eq_nil_iff

theorem ExportFree.append {fresh : Bool} {a b : Text} (first : ExportFree fresh a)
    (second : ExportFree (freshAfter fresh a) b) (apart : NamesApart a b) :
    ExportFree fresh (a ++ b) := by
  have words := exportWordsFrom_append apart fresh 0
  rw [exportWordsFrom_eq_nil_iff.2 first, exportWordsFrom_eq_nil_iff.2 second] at words
  exact exportWordsFrom_eq_nil_iff.1 words

theorem ExportFree.behind {fresh : Bool} {a b : Text} (h : ExportFree fresh (a ++ b)) :
    ExportFree (freshAfter fresh a) b := by
  intro before rest split starts
  apply h (a ++ before) rest
  · rw [split, List.append_assoc]
  · rw [freshAfter_append]
    exact starts

theorem ExportFree.mono {t : Text} (h : ExportFree true t) : ExportFree false t :=
  fun before rest split starts => h before rest split (freshAfter_mono starts)

theorem exportFree_line {t : Text} (line : '\n' ∉ t) : ExportFree false t := by
  intro before rest split starts
  rw [split, List.mem_append, not_or] at line
  rw [freshAfter_line line.1] at starts
  contradiction

end ComponentBundle.Module
