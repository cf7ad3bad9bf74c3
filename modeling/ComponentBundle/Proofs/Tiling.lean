import Mathlib.Data.List.Chain
import ComponentBundle.Proofs.Bytewise
import ComponentBundle.Source.Lookup

/-!
The segments of a text tile it: put together they are the text, none is empty, code never
follows code, and every segment starts and stops between two characters. Lexing the bytes of
the text instead makes the same cuts.
-/
namespace ComponentBundle.Source
open ComponentBundle.Text

theorem lexFrom_code {before code t : Text} {c : Char} (h : piece? before c t = none) :
    lexFrom before code (c :: t) = lexFrom (c :: before) (c :: code) t := by
  rw [lexFrom]
  split
  · rename_i found
    rw [h] at found
    contradiction
  · rfl

theorem lexFrom_piece {before code inside rest : Text} {c : Char} {kind : SegmentKind}
    (h : piece? before c (inside ++ rest) = some (kind, rest)) :
    lexFrom before code (c :: (inside ++ rest)) = codeSegment code ++
      ⟨kind, c :: inside⟩ :: lexFrom ((c :: inside).reverse ++ before) [] rest := by
  rw [lexFrom]
  split
  · rename_i found
    rw [h] at found
    cases found
    have length : (inside ++ rest).length + 1 - rest.length = (c :: inside).length := by
      simp only [List.length_append, List.length_cons]
      omega
    simp only [length, ← List.cons_append, List.take_left]
  · rename_i none_
    rw [h] at none_
    contradiction

/-- A text is lexed character by character and piece by piece. -/
theorem lexing_induction {motive : Text → Text → Text → Prop}
    (nil : ∀ before code, motive before code [])
    (code : ∀ before code c t, piece? before c t = none →
      motive (c :: before) (c :: code) t → motive before code (c :: t))
    (piece : ∀ before code c inside kind rest,
      piece? before c (inside ++ rest) = some (kind, rest) →
      motive ((c :: inside).reverse ++ before) [] rest → motive before code (c :: (inside ++ rest)))
    (before collected t : Text) : motive before collected t := by
  fun_induction lexFrom before collected t with
  | case1 before collected => exact nil before collected
  | case2 before collected c t kind rest found lexeme ih =>
    obtain ⟨inside, rfl⟩ := piece?_suffix found
    have length : (inside ++ rest).length + 1 - rest.length = (c :: inside).length := by
      simp only [List.length_append, List.length_cons]
      omega
    simp only [lexeme, length, ← List.cons_append, List.take_left] at ih
    exact piece before collected c inside kind rest found ih
  | case3 before collected c t found ih => exact code before collected c t found ih

theorem codeSegment_text (code : Text) : (codeSegment code).flatMap Segment.text = code.reverse := by
  cases code <;> simp [codeSegment]

theorem mem_codeSegment {code : Text} {segment : Segment} (h : segment ∈ codeSegment code) :
    segment.kind = .code ∧ segment.text ≠ [] := by
  cases code <;> simp_all [codeSegment]

theorem piece?_kind {before t rest : Text} {c : Char} {kind : SegmentKind}
    (h : piece? before c t = some (kind, rest)) : kind ≠ .code := by
  rintro rfl
  unfold piece? at h
  repeat' split at h
  all_goals simp at h

theorem lexFrom_text (before code t : Text) :
    (lexFrom before code t).flatMap Segment.text = code.reverse ++ t := by
  induction before, code, t using lexing_induction with
  | nil before code => simp [lexFrom, codeSegment_text]
  | code before code c t found ih => simp [lexFrom_code found, ih]
  | piece before code c inside kind rest found ih =>
    rw [lexFrom_piece found, List.flatMap_append, codeSegment_text, List.flatMap_cons, ih]
    simp

theorem lexFrom_ne_nil (before code t : Text) :
    ∀ segment ∈ lexFrom before code t, segment.text ≠ [] := by
  induction before, code, t using lexing_induction with
  | nil before code =>
    rw [lexFrom]
    exact fun _ member => (mem_codeSegment member).2
  | code before code c t found ih =>
    rw [lexFrom_code found]
    exact ih
  | piece before code c inside kind rest found ih =>
    rw [lexFrom_piece found]
    intro segment member
    rcases List.mem_append.1 member with collected | later
    · exact (mem_codeSegment collected).2
    · rcases List.mem_cons.1 later with rfl | later
      · exact List.cons_ne_nil c inside
      · exact ih segment later

def Apart (a b : SegmentKind) : Prop := a = .code → b ≠ .code

theorem lexFrom_apart (before code t : Text) :
    ((lexFrom before code t).map Segment.kind).IsChain Apart := by
  induction before, code, t using lexing_induction with
  | nil before code =>
    rw [lexFrom]
    cases code <;> simp [codeSegment]
  | code before code c t found ih =>
    rw [lexFrom_code found]
    exact ih
  | piece before code c inside kind rest found ih =>
    have other := piece?_kind found
    rw [lexFrom_piece found, List.map_append, List.map_cons]
    have behind := ih.cons (x := kind) fun _ _ code => absurd code other
    cases code with
    | nil => exact behind
    | cons d code =>
      refine behind.cons (x := .code) fun next first _ => ?_
      rwa [← Option.some.inj first]

theorem lex_text (t : Text) : (lex t).flatMap Segment.text = t := by
  simpa [lex] using lexFrom_text [] [] t

theorem lex_eq_nil_iff {t : Text} : lex t = [] ↔ t = [] := by
  constructor
  · intro none_
    rw [← lex_text t, none_, List.flatMap_nil]
  · rintro rfl
    simp [lex, lexFrom, codeSegment]

def Segment.spread (units : Char → Text) (segment : Segment) : Segment :=
  ⟨segment.kind, segment.text.flatMap units⟩

theorem lexFrom_wide {w : Text} (wide : ∀ d ∈ w, isWide d) (before code u : Text) :
    lexFrom before code (w ++ u) = lexFrom (w.reverse ++ before) (w.reverse ++ code) u := by
  induction w generalizing before code with
  | nil => rfl
  | cons d w ih =>
    rw [List.cons_append, lexFrom_code (piece?_wide (wide d List.mem_cons_self) _ _),
      ih fun e later => wide e (List.mem_cons_of_mem _ later)]
    simp

section
variable {units : Char → Text} (spread : Spread units)
include spread

theorem codeSegment_spread (code : Text) :
    codeSegment (code.flatMap fun c => (units c).reverse)
      = (codeSegment code).map (Segment.spread units) := by
  cases code with
  | nil => rfl
  | cons c code =>
    have filled : ((c :: code).flatMap fun c => (units c).reverse).isEmpty = false := by
      simp [spread.filled c]
    rw [codeSegment, filled, reverse_backwards]
    rfl

theorem lexFrom_spread (before code t : Text) :
    lexFrom (before.flatMap fun c => (units c).reverse) (code.flatMap fun c => (units c).reverse)
      (t.flatMap units) = (lexFrom before code t).map (Segment.spread units) := by
  induction before, code, t using lexing_induction with
  | nil before code =>
    rw [List.flatMap_nil, lexFrom, lexFrom]
    exact codeSegment_spread spread code
  | code before code c t found ih =>
    rw [lexFrom_code found, ← ih, List.flatMap_cons, List.flatMap_cons, List.flatMap_cons]
    cases wide : isWide c with
    | true => exact lexFrom_wide (spread.wide c wide) _ _ _
    | false =>
      have code : piece? (before.flatMap fun c => (units c).reverse) c (t.flatMap units) = none := by
        rw [spread.piece? before wide, found]
        rfl
      rw [spread.narrow c wide]
      exact lexFrom_code code
  | piece before code c inside kind rest found ih =>
    have narrow : isWide c = false := by
      cases wide : isWide c with
      | false => rfl
      | true =>
        rw [piece?_wide wide] at found
        contradiction
    have read := spread.piece? before narrow (inside ++ rest)
    rw [found, List.flatMap_append, Option.map_some] at read
    have behind : ((c :: inside).reverse ++ before).flatMap (fun c => (units c).reverse)
        = (c :: inside.flatMap units).reverse ++ before.flatMap fun c => (units c).reverse := by
      rw [List.flatMap_append, List.flatMap_reverse, ← spread.cons_narrow narrow]
      simp [Function.comp_def]
    rw [behind, List.flatMap_nil] at ih
    rw [spread.cons_narrow narrow, List.flatMap_append, lexFrom_piece read, lexFrom_piece found, ih,
      List.map_append, List.map_cons, codeSegment_spread spread]
    rw [Segment.spread, spread.cons_narrow narrow]

end

theorem lex_bytes (t : Text) : lex (byteText t) = (lex t).map fun segment =>
    ⟨segment.kind, byteText segment.text⟩ := by
  have cut := lexFrom_spread byteUnits_spread [] [] t
  simp only [byteText_eq]
  exact cut

/-- Extents that lie one behind the other from `start` to `stop`, none of them empty. -/
def Tile : Nat → Nat → List Extent → Prop
  | start, stop, [] => start = stop
  | start, stop, extent :: more =>
    extent.start = start ∧ start < extent.stop ∧ Tile extent.stop stop more

theorem width_pos {t : Text} (h : t ≠ []) : 0 < width t := by
  cases t with
  | nil => contradiction
  | cons c t =>
    have := c.utf8Size_pos
    simp only [width_cons]
    omega

theorem extentsFrom_tile {segments : List Segment} (filled : ∀ segment ∈ segments, segment.text ≠ [])
    (start : Nat) :
    Tile start (start + width (segments.flatMap Segment.text)) (extentsFrom start segments) := by
  induction segments generalizing start with
  | nil => simp [extentsFrom, Tile]
  | cons segment more ih =>
    have positive := width_pos (filled segment List.mem_cons_self)
    have behind := ih (fun next later => filled next (List.mem_cons_of_mem _ later))
      (start + width segment.text)
    rw [List.flatMap_cons, width_append, ← Nat.add_assoc]
    exact ⟨rfl, Nat.lt_add_of_pos_right positive, behind⟩

theorem extentsFrom_kinds (start : Nat) (segments : List Segment) :
    (extentsFrom start segments).map Extent.kind = segments.map Segment.kind := by
  induction segments generalizing start with
  | nil => rfl
  | cons segment more ih => simp [extentsFrom, ih]

theorem extentsFrom_slices (before : Text) (segments : List Segment) :
    (extentsFrom (width before) segments).map (fun extent =>
      slice (before ++ segments.flatMap Segment.text) extent.start extent.stop)
        = segments.map Segment.text := by
  induction segments generalizing before with
  | nil => rfl
  | cons segment more ih =>
    have behind := ih (before ++ segment.text)
    rw [width_append, List.append_assoc] at behind
    simp only [extentsFrom, List.map_cons, List.flatMap_cons, slice_middle, behind]

/-- A position between two characters of a text, or at one of its ends. -/
def Boundary (t : Text) (position : Nat) : Prop := String.Pos.Raw.IsValid t.toString ⟨position⟩

instance (t : Text) (position : Nat) : Decidable (Boundary t position) :=
  inferInstanceAs (Decidable (String.Pos.Raw.IsValid _ _))

theorem utf8ByteSize_ofList (t : Text) : (String.ofList t).utf8ByteSize = width t := by
  induction t with
  | nil => rfl
  | cons c t ih => simp [String.ofList_cons, ih]

theorem boundary_iff {t : Text} {position : Nat} :
    Boundary t position ↔ ∃ before behind, t = before ++ behind ∧ position = width before := by
  rw [Boundary, String.Pos.Raw.isValid_iff_exists_append]
  constructor
  · rintro ⟨before, behind, split, place⟩
    refine ⟨before.toList, behind.toList, ?_, ?_⟩
    · rw [← String.toList_append, ← split, Text.toString, String.toList_ofList]
    · rw [← utf8ByteSize_ofList, String.ofList_toList, ← String.byteIdx_rawEndPos, ← place]
  · rintro ⟨before, behind, rfl, rfl⟩
    refine ⟨String.ofList before, String.ofList behind, String.ofList_append, ?_⟩
    rw [String.Pos.Raw.ext_iff, String.byteIdx_rawEndPos, utf8ByteSize_ofList]

theorem boundary_width (before behind : Text) : Boundary (before ++ behind) (width before) :=
  boundary_iff.2 ⟨before, behind, rfl, rfl⟩

theorem extentsFrom_boundaries (before : Text) (segments : List Segment) :
    ∀ extent ∈ extentsFrom (width before) segments,
      Boundary (before ++ segments.flatMap Segment.text) extent.start ∧
        Boundary (before ++ segments.flatMap Segment.text) extent.stop := by
  induction segments generalizing before with
  | nil => simp [extentsFrom]
  | cons segment more ih =>
    have behind := ih (before ++ segment.text)
    rw [width_append, List.append_assoc] at behind
    rw [List.flatMap_cons]
    have inside := boundary_width (before ++ segment.text) (more.flatMap Segment.text)
    rw [width_append, List.append_assoc] at inside
    exact List.forall_mem_cons.2 ⟨⟨boundary_width _ _, inside⟩, behind⟩

def byteExtentsFrom (start : Nat) : List Segment → List Extent
  | [] => []
  | segment :: more =>
    let stop := start + segment.text.length
    ⟨segment.kind, start, stop⟩ :: byteExtentsFrom stop more

theorem byteExtentsFrom_eq (start : Nat) (segments : List Segment) :
    byteExtentsFrom start (segments.map fun segment => ⟨segment.kind, byteText segment.text⟩)
      = extentsFrom start segments := by
  induction segments generalizing start with
  | nil => rfl
  | cons segment more ih =>
    rw [List.map_cons, byteExtentsFrom, extentsFrom, byteText_length, ih]

/-- The extents of a text lie one behind the other from its start to its end, no code follows
code, and all of them start and stop between characters, where they cut out the segments. They
are the extents that are found among the bytes of the text. -/
theorem lex_tiles (t : Text) :
    Tile 0 (width t) (extents (lex t)) ∧
      ((extents (lex t)).map Extent.kind).IsChain Apart ∧
      (∀ extent ∈ extents (lex t), Boundary t extent.start ∧ Boundary t extent.stop) ∧
      byteExtentsFrom 0 (lex (byteText t)) = extents (lex t) ∧
      (extents (lex t)).map (fun extent => slice t extent.start extent.stop)
        = (lex t).map Segment.text ∧
      (lex t = [] ↔ t = []) := by
  have filled := lexFrom_ne_nil [] [] t
  have tiled := extentsFrom_tile filled 0
  have bounded := extentsFrom_boundaries [] (lex t)
  have cut := extentsFrom_slices [] (lex t)
  rw [← lex, lex_text, Nat.zero_add] at tiled
  rw [List.nil_append, lex_text] at bounded cut
  refine ⟨tiled, ?_, bounded, ?_, cut, lex_eq_nil_iff⟩
  · rw [extents, extentsFrom_kinds]
    exact lexFrom_apart [] [] t
  · rw [lex_bytes, byteExtentsFrom_eq]
    rfl

end ComponentBundle.Source
