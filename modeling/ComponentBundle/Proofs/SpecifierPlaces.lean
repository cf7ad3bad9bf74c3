import ComponentBundle.Proofs.BytePlaces
import ComponentBundle.Proofs.NameReferences

/-!
The places of a specifier, found in the bytes of a text. A specifier is sought in places that do
not overlap, but none of them hides a place where it stands as a whole: what reached over the start
of such a place would put a character of a specifier in front of it.
-/
namespace ComponentBundle.Module
open ComponentBundle.Text ComponentBundle.Source

/-- The bytes that specifiers are spelled with, which are those of their characters. -/
def isSpecifierByte (b : UInt8) : Bool := isSpecifierChar (Char.ofUInt8 b)

theorem isSpecifierChar_of_wide {c : Char} (wide : isWide c) : isSpecifierChar c := by
  simp [isSpecifierChar, isNameChar_of_wide wide]

theorem isSpecifierByte_of_mem {c : Char} {b : UInt8} (member : b ∈ String.utf8EncodeChar c) :
    isSpecifierByte b = isSpecifierChar c := by
  have unit : Char.ofUInt8 b ∈ byteUnits c := List.mem_map_of_mem member
  cases wide : isWide c with
  | false =>
    rw [byteUnits_spread.narrow c wide, List.mem_singleton] at unit
    rw [isSpecifierByte, unit]
  | true =>
    rw [isSpecifierByte, isSpecifierChar_of_wide (byteUnits_spread.wide c wide _ unit),
      isSpecifierChar_of_wide wide]

theorem isSpecifierChar_of_bytes {t : Text} (spelled : ∀ b ∈ bytes t, isSpecifierByte b) :
    ∀ c ∈ t, isSpecifierChar c := by
  intro c inside
  obtain ⟨b, more, split⟩ := List.exists_cons_of_ne_nil (utf8EncodeChar_ne_nil c)
  have member : b ∈ String.utf8EncodeChar c := by simp [split]
  rw [← isSpecifierByte_of_mem member]
  exact spelled b (List.mem_flatMap.2 ⟨c, inside, member⟩)

theorem head?_bytes (t : Text) :
    (bytes t).head?.any isSpecifierByte = t.head?.any isSpecifierChar := by
  cases t with
  | nil => rfl
  | cons c t =>
    obtain ⟨b, more, split⟩ := List.exists_cons_of_ne_nil (utf8EncodeChar_ne_nil c)
    have member : b ∈ String.utf8EncodeChar c := by simp [split]
    rw [bytes_cons, split, List.cons_append, List.head?_cons, List.head?_cons, Option.any_some,
      Option.any_some, isSpecifierByte_of_mem member]

theorem getLast?_bytes (t : Text) :
    (bytes t).getLast?.any isSpecifierByte = t.getLast?.any isSpecifierChar := by
  rcases List.eq_nil_or_concat t with rfl | ⟨front, c, rfl⟩
  · rfl
  · have filled := utf8EncodeChar_ne_nil c
    have member := List.getLast_mem filled
    have single : bytes [c] = String.utf8EncodeChar c := by simp [bytes]
    rw [List.concat_eq_append, bytes_append, single, List.getLast?_append,
      List.getLast?_eq_some_getLast filled, List.getLast?_concat, Option.some_or, Option.any_some,
      Option.any_some, isSpecifierByte_of_mem member]

theorem mem_specifierPlaces {spans : List Span} {specifier t : Text} (filled : specifier ≠ [])
    (chars : ∀ c ∈ specifier, isSpecifierChar c) {place : PlacedSpecifier} :
    place ∈ specifierPlaces spans specifier t ↔ ∃ front rest, t = front ++ (specifier ++ rest) ∧
      front.getLast?.any isSpecifierChar = false ∧ rest.head?.any isSpecifierChar = false ∧
      (kindAt? spans (width front)).any SpanKind.hidesSpecifiers = false ∧
      place = ⟨width front, width front + width specifier, specifier⟩ := by
  simp only [specifierPlaces, List.mem_map, List.mem_filter, Bool.and_eq_true, Bool.not_eq_true']
  constructor
  · rintro ⟨occurrence, ⟨found, ⟨before, behind⟩, free⟩, rfl⟩
    obtain ⟨-, front, rest, split, here, previous, next⟩ := split_of_mem_occurrences found
    rw [previous] at before
    rw [next] at behind
    rw [here] at free ⊢
    exact ⟨front, rest, split, before, behind, free, rfl⟩
  · rintro ⟨front, rest, split, before, behind, free, rfl⟩
    have found := mem_occurrencesFrom filled chars none 0 split before
    rw [Nat.zero_add, Option.or_none] at found
    exact ⟨_, ⟨found, ⟨before, behind⟩, free⟩, rfl⟩

theorem specifierPlaces_apart (spans : List Span) (specifier t : Text) :
    (specifierPlaces spans specifier t).Pairwise fun a b => a.stop ≤ b.start := by
  refine List.Pairwise.map _ ?_ ((occurrencesFrom_apart specifier none 0 t).filter _)
  exact fun a b apart => apart

theorem unhidden_iff {t : Text} {position : Nat} :
    (kindAt? (spansIn t) position).any SpanKind.hidesSpecifiers = false ↔
      ∀ span ∈ spansIn t, span.Over position → span.kind = .quotedText := by
  rw [kindAt?, Option.any_map, Option.any_eq_false]
  simp only [spanOver?_eq_some_iff, SpanKind.hidesSpecifiers, decide_eq_false_iff_not, not_not,
    and_imp]

/-- The places of a specifier are exactly those in the bytes of a text where it stands as a whole,
with no byte of a specifier next to it, and where no span but a quoted one covers its start. They
come in the order of the text and do not overlap. -/
theorem specifier_places_exact {specifier : Text} (filled : specifier ≠ [])
    (spelled : ∀ b ∈ bytes specifier, isSpecifierByte b) (t : Text) :
    (specifierPlaces (spansIn t) specifier t).Pairwise (fun a b => a.stop ≤ b.start) ∧
    ∀ place, place ∈ specifierPlaces (spansIn t) specifier t ↔ ∃ front rest,
      bytes t = front ++ (bytes specifier ++ rest) ∧
      front.getLast?.any isSpecifierByte = false ∧ rest.head?.any isSpecifierByte = false ∧
      (∀ span ∈ spansIn t, span.Over front.length → span.kind = .quotedText) ∧
      place = ⟨front.length, front.length + (bytes specifier).length, specifier⟩ := by
  refine ⟨specifierPlaces_apart .., fun place => ?_⟩
  rw [mem_specifierPlaces filled (isSpecifierChar_of_bytes spelled)]
  constructor
  · rintro ⟨front, rest, rfl, before, behind, free, rfl⟩
    refine ⟨bytes front, bytes rest, ?_, ?_, ?_, ?_, ?_⟩
    · rw [bytes_append, bytes_append]
    · rw [getLast?_bytes, before]
    · rw [head?_bytes, behind]
    · rw [bytes_length]
      exact unhidden_iff.1 free
    · rw [bytes_length, bytes_length]
  · rintro ⟨front, rest, split, before, behind, free, rfl⟩
    obtain ⟨left, right, rfl, rfl, rfl⟩ := cut_of_bytes filled split
    rw [getLast?_bytes] at before
    rw [head?_bytes] at behind
    rw [bytes_length] at free ⊢
    rw [bytes_length]
    exact ⟨left, right, rfl, before, behind, unhidden_iff.2 free, rfl⟩

def chainedCalls : Text := "load('a/a/a'); load('a/a');"

theorem chainedCalls_place : ("a/a" : Text) ≠ [] ∧ (∀ b ∈ bytes "a/a", isSpecifierByte b) ∧
    specifierPlaces (spansIn chainedCalls) "a/a" chainedCalls = [⟨21, 24, "a/a"⟩] ∧
    ⟨21, 24, "a/a"⟩ ∈ specifierPlaces (spansIn chainedCalls) "a/a" chainedCalls := by
  have filled : ("a/a" : Text) ≠ [] := by decide
  have spelled : ∀ b ∈ bytes "a/a", isSpecifierByte b := List.all_eq_true.1 (by decide +kernel)
  obtain ⟨-, exactly⟩ := specifier_places_exact filled spelled chainedCalls
  refine ⟨filled, spelled, by decide +kernel, (exactly _).2 ?_⟩
  refine ⟨bytes "load('a/a/a'); load('", bytes "');", ?_, ?_, ?_, unhidden_iff.1 ?_, ?_⟩
  all_goals decide +kernel

end ComponentBundle.Module
