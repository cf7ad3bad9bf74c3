import ComponentBundle.Proofs.ReachedPlaces

/-!
Template blocks. A block ends where as many of its tags close as open, at the first such closing
tag, whatever else stands between the tags. So blocks nest, and every block that is nested well
is one span.
-/
namespace ComponentBundle.Source
open ComponentBundle.Text

def tagStops : List Char := ['>', ' ', '\t', '\n', '\r']

theorem opensTemplate_iff {t : Text} :
    opensTemplate t ↔ ∃ stop ∈ tagStops, ∃ more, t = templateTag ++ stop :: more := by
  have known (c : Char) : (c = '>' || c = ' ' || c = '\t' || c = '\n' || c = '\r') = true ↔
      c ∈ tagStops := by
    simp [tagStops, or_assoc]
  constructor
  · intro opens
    unfold opensTemplate at opens
    split at opens
    · rename_i stop more found
      exact ⟨stop, (known stop).1 opens, more, after?_eq_some_iff.1 found⟩
    · exact absurd opens Bool.false_ne_true
  · rintro ⟨stop, stops, more, split⟩
    rw [opensTemplate, after?_eq_some_iff.2 split]
    exact (known stop).2 stops

def closesTemplate (t : Text) : Bool := startsWith t templateEndTag

theorem closesTemplate_iff {t : Text} :
    closesTemplate t ↔ ∃ rest, t = templateEndTag ++ rest := by
  rw [closesTemplate, startsWith, Option.isSome_iff_exists]
  exact exists_congr fun rest => after?_eq_some_iff

def tagsIn (isTag : Text → Bool) : (lead rest : Text) → Nat
  | [], _ => 0
  | c :: lead, rest => (isTag (c :: (lead ++ rest))).toNat + tagsIn isTag lead rest

/-- A closing tag that has, with those before it, as many closing tags as opening ones; some
    blocks are already open. -/
structure ClosesBlock (opened : Nat) (t lead rest : Text) : Prop where
  split : t = lead ++ (templateEndTag ++ rest)
  even : opened + tagsIn opensTemplate lead (templateEndTag ++ rest)
    = tagsIn closesTemplate lead (templateEndTag ++ rest) + 1

structure FirstToClose (opened : Nat) (t lead rest : Text) : Prop where
  closes : ClosesBlock opened t lead rest
  first : ∀ other behind, ClosesBlock opened t other behind → lead.length ≤ other.length

section
variable {opened next : Nat} {c : Char} {t lead rest : Text}

theorem closesBlock_here : ClosesBlock opened t [] rest ↔
    t = templateEndTag ++ rest ∧ opened = 1 := by
  constructor
  · rintro ⟨split, even⟩
    exact ⟨split, even⟩
  · rintro ⟨split, even⟩
    exact ⟨split, even⟩

theorem closesBlock_cons (count : opened + (opensTemplate (c :: t)).toNat
      = next + (closesTemplate (c :: t)).toNat) :
    ClosesBlock opened (c :: t) (c :: lead) rest ↔ ClosesBlock next t lead rest := by
  constructor
  · rintro ⟨split, even⟩
    obtain rfl := (List.cons.inj split).2
    refine ⟨rfl, ?_⟩
    rw [tagsIn, tagsIn] at even
    change opened + (opensTemplate (c :: (lead ++ (templateEndTag ++ rest)))).toNat
      = next + (closesTemplate (c :: (lead ++ (templateEndTag ++ rest)))).toNat at count
    omega
  · rintro ⟨rfl, even⟩
    refine ⟨rfl, ?_⟩
    rw [tagsIn, tagsIn]
    omega

def BlockRest (opened : Nat) (t : Text) : Option Text → Prop
  | some rest => ∃ lead, FirstToClose opened t lead rest
  | none => ∀ lead rest, ¬ ClosesBlock opened t lead rest

theorem BlockRest.cons (count : opened + (opensTemplate (c :: t)).toNat
      = next + (closesTemplate (c :: t)).toNat)
    (later : closesTemplate (c :: t) → opened ≠ 1) {left : Option Text}
    (rest : BlockRest next t left) : BlockRest opened (c :: t) left := by
  have behind {other behind : Text} (closes : ClosesBlock opened (c :: t) other behind) :
      ∃ more, other = c :: more ∧ ClosesBlock next t more behind := by
    cases other with
    | nil =>
      obtain ⟨split, one⟩ := closesBlock_here.1 closes
      exact absurd one (later (closesTemplate_iff.2 ⟨behind, split⟩))
    | cons d more =>
      obtain ⟨rfl, -⟩ := List.cons.inj closes.split
      exact ⟨more, rfl, (closesBlock_cons count).1 closes⟩
  cases left with
  | some rest_ =>
    obtain ⟨lead, closes, first⟩ := rest
    refine ⟨c :: lead, (closesBlock_cons count).2 closes, fun other after even => ?_⟩
    obtain ⟨more, rfl, inner⟩ := behind even
    exact Nat.succ_le_succ (first more after inner)
  | none =>
    intro lead after closes
    obtain ⟨more, -, inner⟩ := behind closes
    exact rest more after inner

theorem BlockRest.unique {a b : Option Text} (first : BlockRest opened t a)
    (second : BlockRest opened t b) : a = b := by
  cases a with
  | none =>
    cases b with
    | none => rfl
    | some rest =>
      obtain ⟨lead, closes, -⟩ := second
      exact absurd closes (first lead rest)
  | some rest =>
    obtain ⟨lead, closes, least⟩ := first
    cases b with
    | none => exact absurd closes (second lead rest)
    | some behind =>
      obtain ⟨other, closesOther, leastOther⟩ := second
      have size : lead.length = other.length :=
        Nat.le_antisymm (least other behind closesOther) (leastOther lead rest closes)
      have same := (List.append_inj (closes.split.symm.trans closesOther.split) size).2
      rw [List.append_cancel_left same]

end

theorem not_opens_of_closes {t : Text} (closes : closesTemplate t) : opensTemplate t = false := by
  obtain ⟨rest, rfl⟩ := closesTemplate_iff.1 closes
  rfl

/-- The reader comes to the first closing tag that closes the block. Its depth is the count of
    the blocks that are open, less the outermost. -/
theorem afterTemplates?_blockRest (depth : Nat) (t : Text) :
    BlockRest (depth + 1) t (afterTemplates? depth t) := by
  fun_induction afterTemplates? depth t with
  | case1 depth =>
    intro lead rest closes
    have split := closes.split
    simp [templateEndTag] at split
  | case2 c t after found =>
    have closes := closesBlock_here.2 ⟨after?_eq_some_iff.1 found, rfl⟩
    exact ⟨[], closes, fun _ _ _ => Nat.zero_le _⟩
  | case3 c t after depth found ih =>
    have closes : closesTemplate (c :: t) :=
      closesTemplate_iff.2 ⟨after, after?_eq_some_iff.1 found⟩
    refine BlockRest.cons ?_ (fun _ => by omega) ih
    rw [not_opens_of_closes closes, closes]
    rfl
  | case4 c t depth absent ih =>
    have open_ : closesTemplate (c :: t) = false := by
      rw [closesTemplate, startsWith, absent]
      rfl
    refine BlockRest.cons ?_ (fun closes => ?_) ih
    · rw [open_]
      cases opensTemplate (c :: t) <;> simp
    · rw [open_] at closes
      contradiction

/-! Between the tags. -/

def Untagged (t : Text) : Prop := opensTemplate t = false ∧ closesTemplate t = false

theorem untagged_of_ne {c : Char} (other : c ≠ '<') (t : Text) : Untagged (c :: t) := by
  constructor
  · rw [opensTemplate, templateTag, after?, if_neg other.symm]
  · rw [closesTemplate, startsWith, templateEndTag, after?, if_neg other.symm]
    rfl

theorem BlockRest.behind {opened : Nat} {run t : Text} (plain : '<' ∉ run) {left : Option Text}
    (rest : BlockRest opened t left) : BlockRest opened (run ++ t) left := by
  induction run with
  | nil => exact rest
  | cons c run ih =>
    rw [List.mem_cons, not_or] at plain
    obtain ⟨opens, closes⟩ := untagged_of_ne (Ne.symm plain.1) (run ++ t)
    have count : opened + (opensTemplate (c :: (run ++ t))).toNat
        = opened + (closesTemplate (c :: (run ++ t))).toNat := by
      rw [opens, closes]
    apply BlockRest.cons count _ (ih plain.2)
    intro here
    rw [closes] at here
    contradiction

theorem afterTemplates?_untagged {c : Char} {t : Text} (untagged : Untagged (c :: t))
    (depth : Nat) : afterTemplates? depth (c :: t) = afterTemplates? depth t := by
  have absent : after? templateEndTag (c :: t) = none := by
    have closes := untagged.2
    rwa [closesTemplate, startsWith, Option.isSome_eq_false_iff,
      Option.isNone_iff_eq_none] at closes
  rw [afterTemplates?_other absent, untagged.1]
  rfl

theorem afterTemplates?_behind {run : Text} (plain : '<' ∉ run) (depth : Nat) (t : Text) :
    afterTemplates? depth (run ++ t) = afterTemplates? depth t := by
  induction run with
  | nil => rfl
  | cons c run ih =>
    rw [List.mem_cons, not_or] at plain
    rw [List.cons_append, afterTemplates?_untagged (untagged_of_ne (Ne.symm plain.1) _), ih plain.2]

theorem free_of_stop {stop : Char} (stops : stop ∈ tagStops) :
    '<' ∉ templateTag.tail ++ [stop] := by
  have all : tagStops.all fun stop => '<' ∉ templateTag.tail ++ [stop] := by decide
  simpa using List.all_eq_true.1 all stop stops

theorem afterTemplates?_opened {stop : Char} (stops : stop ∈ tagStops) (depth : Nat) (t : Text) :
    afterTemplates? depth (templateTag ++ stop :: t) = afterTemplates? (depth + 1) t := by
  have opens : opensTemplate (templateTag ++ stop :: t) :=
    opensTemplate_iff.2 ⟨stop, stops, t, rfl⟩
  have tag : templateTag ++ stop :: t = '<' :: (templateTag.tail ++ [stop] ++ t) := by
    simp [templateTag]
  have absent : after? templateEndTag (templateTag ++ stop :: t) = none := rfl
  rw [tag] at opens absent ⊢
  rw [afterTemplates?_other absent, if_pos opens, afterTemplates?_behind (free_of_stop stops)]

theorem afterTemplates?_ended (depth : Nat) (t : Text) :
    afterTemplates? (depth + 1) (templateEndTag ++ t) = afterTemplates? depth t := by
  have found : after? templateEndTag (templateEndTag ++ t) = some t := after?_eq_some_iff.2 rfl
  have plain : '<' ∉ templateEndTag.tail := by decide
  exact (afterTemplates?_inner found).trans (afterTemplates?_behind plain depth t)

/-- A template block: the tag that opens it, with the character that ends the name, and the tag
    that closes it. -/
def templateBlock (stop : Char) (inner : Text) : Text :=
  templateTag ++ stop :: (inner ++ templateEndTag)

/-- Text in a block, in which other blocks stand whole. Elsewhere no tag starts, when another tag
    follows the text. -/
inductive Nested : Text → Prop
  | nil : Nested []
  | char {c : Char} {more : Text} (untagged : Untagged (c :: (more ++ ['<'])))
      (after : Nested more) : Nested (c :: more)
  | block {stop : Char} {inner more : Text} (stops : stop ∈ tagStops) (within : Nested inner)
      (after : Nested more) : Nested (templateBlock stop inner ++ more)

theorem Nested.behind_run {run more : Text} (opens : tagsIn opensTemplate run (more ++ ['<']) = 0)
    (closes : tagsIn closesTemplate run (more ++ ['<']) = 0) (after : Nested more) :
    Nested (run ++ more) := by
  induction run with
  | nil => exact after
  | cons c run ih =>
    rw [tagsIn, Nat.add_eq_zero_iff, Bool.toNat_eq_zero, ← List.append_assoc] at opens closes
    exact .char ⟨opens.1, closes.1⟩ (ih opens.2 closes.2)

theorem lead_within {a lead v rest : Text} (plain : '<' ∉ lead)
    (split : a ++ '<' :: v = lead ++ rest) : ∃ extra, a = lead ++ extra := by
  rcases List.append_eq_append_iff.1 split with ⟨extra, rfl, later⟩ | ⟨extra, same, -⟩
  · cases extra with
    | nil => exact ⟨[], by simp⟩
    | cons d extra =>
      obtain ⟨rfl, -⟩ := List.cons.inj later
      simp at plain
  · exact ⟨extra, same⟩

theorem Untagged.before_tag {c : Char} {more : Text} (untagged : Untagged (c :: (more ++ ['<'])))
    (v : Text) : Untagged (c :: (more ++ '<' :: v)) := by
  obtain ⟨opens, closes⟩ := untagged
  rw [← Bool.not_eq_true] at opens closes
  constructor
  · rw [← Bool.not_eq_true]
    intro here
    obtain ⟨stop, stops, rest, split⟩ := opensTemplate_iff.1 here
    obtain ⟨rfl, tail⟩ := List.cons.inj split
    have whole : more ++ '<' :: v = templateTag.tail ++ [stop] ++ rest := by
      rw [tail, List.append_assoc]
      rfl
    obtain ⟨extra, rfl⟩ := lead_within (free_of_stop stops) whole
    exact opens (opensTemplate_iff.2 ⟨stop, stops, extra ++ ['<'], by simp [templateTag]⟩)
  · rw [← Bool.not_eq_true]
    intro here
    obtain ⟨rest, split⟩ := closesTemplate_iff.1 here
    obtain ⟨rfl, tail⟩ := List.cons.inj split
    have plain : '<' ∉ templateEndTag.tail := by decide
    obtain ⟨extra, rfl⟩ := lead_within plain tail
    exact closes (closesTemplate_iff.2 ⟨extra ++ ['<'], by simp [templateEndTag]⟩)

/-- Between the tags of a block nothing is counted that is not counted down again. The induction
    is over the blocks that stand in it. -/
theorem afterTemplates?_nested {inner : Text} (nested : Nested inner) (depth : Nat) (v : Text) :
    afterTemplates? depth (inner ++ '<' :: v) = afterTemplates? depth ('<' :: v) := by
  induction nested generalizing depth v with
  | nil => rfl
  | char untagged after ih =>
    rw [List.cons_append, afterTemplates?_untagged (untagged.before_tag v), ih]
  | @block stop inner more stops within after ihWithin ih =>
    have tags : templateBlock stop inner ++ more ++ '<' :: v = templateTag ++ stop ::
        (inner ++ '<' :: (templateEndTag.tail ++ (more ++ '<' :: v))) := by
      simp [templateBlock, templateEndTag]
    rw [tags, afterTemplates?_opened stops, ihWithin]
    exact (afterTemplates?_ended depth _).trans (ih depth v)

theorem piece?_opened {stop : Char} (stops : stop ∈ tagStops) (back t : Text) :
    piece? back '<' (templateTag.tail ++ stop :: t)
      = (afterTemplates? 0 t).map (.span .markup, ·) := by
  have opens : opensTemplate (templateTag ++ stop :: t) :=
    opensTemplate_iff.2 ⟨stop, stops, t, rfl⟩
  have plain : '<' ∉ [stop] := by
    have free := free_of_stop stops
    rw [List.mem_append, not_or] at free
    exact free.2
  have drop : (templateTag.tail ++ stop :: t).drop (templateTag.length - 1) = [stop] ++ t := rfl
  rw [piece?_tag, drop, afterTemplates?_behind plain]
  exact if_pos opens

theorem blockRest_opened {stop : Char} (stops : stop ∈ tagStops) (t : Text) :
    BlockRest 0 (templateTag ++ stop :: t) (afterTemplates? 0 t) := by
  have tag : templateTag ++ stop :: t = '<' :: (templateTag.tail ++ [stop] ++ t) := by
    simp [templateTag]
  have opens : opensTemplate (templateTag ++ stop :: t) :=
    opensTemplate_iff.2 ⟨stop, stops, t, rfl⟩
  have open_ : closesTemplate (templateTag ++ stop :: t) = false := rfl
  rw [tag] at opens open_ ⊢
  have behind := (afterTemplates?_blockRest 0 t).behind (free_of_stop stops)
  apply BlockRest.cons _ _ behind
  · rw [opens, open_]
    rfl
  · intro _
    omega

theorem piece?_nested {stop : Char} (stops : stop ∈ tagStops) {inner : Text}
    (nested : Nested inner) (back rest : Text) :
    piece? back '<' ((templateBlock stop inner).tail ++ rest) = some (.span .markup, rest) := by
  have block : (templateBlock stop inner).tail ++ rest
      = templateTag.tail ++ stop :: (inner ++ '<' :: (templateEndTag.tail ++ rest)) := by
    simp [templateBlock, templateTag, templateEndTag]
  have ended : afterTemplates? 0 ('<' :: (templateEndTag.tail ++ rest)) = some rest :=
    afterTemplates?_end (after?_eq_some_iff.2 rfl)
  rw [block, piece?_opened stops, afterTemplates?_nested nested, ended, Option.map_some]

/-- At an opening tag the lexer reads up to the first closing tag that makes the tags even, and
    nothing if there is none. A block in which others nest is one span, exactly if the lexer comes
    to it. -/
theorem template_block_first {t front tail : Text} (split : t = front ++ '<' :: tail)
    (opens : opensTemplate ('<' :: tail)) :
    (∀ u, opensTemplate u ↔ ∃ stop ∈ tagStops, ∃ more, u = templateTag ++ stop :: more) ∧
    (∀ back rest, piece? back '<' tail = some (.span .markup, rest) ↔
      ∃ lead, FirstToClose 0 ('<' :: tail) lead rest) ∧
    (∀ back, piece? back '<' tail = none ↔
      ∀ lead rest, ¬ ClosesBlock 0 ('<' :: tail) lead rest) ∧
    ∀ stop ∈ tagStops, ∀ inner rest, Nested inner →
      '<' :: tail = templateBlock stop inner ++ rest →
      (⟨.markup, width front, width front + width (templateBlock stop inner)⟩ ∈ spansIn t ↔
        Reached t (width front)) := by
  obtain ⟨stop, stops, more, tag⟩ := opensTemplate_iff.1 opens
  obtain rfl : tail = templateTag.tail ++ stop :: more := (List.cons.inj tag).2
  have ends := blockRest_opened stops more
  refine ⟨fun u => opensTemplate_iff, fun back rest => ?_, fun back => ?_, ?_⟩
  · rw [piece?_opened stops]
    constructor
    · intro found
      obtain ⟨left, closed, same⟩ := Option.map_eq_some_iff.1 found
      obtain rfl := (Prod.mk.inj same).2
      rwa [closed] at ends
    · intro first
      rw [ends.unique (b := some rest) first, Option.map_some]
  · rw [piece?_opened stops, Option.map_eq_none_iff]
    constructor
    · intro absent
      rwa [absent] at ends
    · exact fun free => ends.unique (b := none) free
  · intro stop stops inner rest nested whole
    have tail : templateTag.tail ++ _ = (templateBlock stop inner).tail ++ rest :=
      (List.cons.inj whole).2
    rw [tail] at split
    rw [spansIn, mem_spansOf, mem_extents_iff_piece split (by simp)]
    constructor
    · exact fun member => member.1
    · intro reached
      exact ⟨reached, _, rest, rfl, piece?_nested stops nested _ rest, rfl⟩

def beforeBlock : Text := " title='é'>\x7b\x7b don't <template-x> /* "

def behindBlock : Text := " </template > <b> `"

def blockInBlock : Text := beforeBlock ++ (templateBlock '>' "*/" ++ behindBlock)

theorem blockInBlock_nested : Nested blockInBlock := by
  have behind : Nested (behindBlock ++ []) :=
    .behind_run (by decide +kernel) (by decide +kernel) .nil
  have within : Nested (("*/" : Text) ++ []) :=
    .behind_run (by decide +kernel) (by decide +kernel) .nil
  rw [List.append_nil] at behind within
  exact .behind_run (by decide +kernel) (by decide +kernel) (.block (by decide) within behind)

def blockInScript : Text := "x = " ++ (templateBlock ' ' blockInBlock ++ "; y = '</template>';")

theorem blockInScript_span :
    blockInScript = ("x = " : Text) ++ '<' ::
      ((templateBlock ' ' blockInBlock).tail ++ ("; y = '</template>';" : Text)) ∧
    opensTemplate ('<' ::
      ((templateBlock ' ' blockInBlock).tail ++ ("; y = '</template>';" : Text))) ∧
    Nested blockInBlock ∧ Reached blockInScript 4 ∧ ⟨.markup, 4, 104⟩ ∈ spansIn blockInScript := by
  have split : blockInScript = ("x = " : Text) ++ '<' ::
      ((templateBlock ' ' blockInBlock).tail ++ ("; y = '</template>';" : Text)) := rfl
  have opens : opensTemplate ('<' ::
      ((templateBlock ' ' blockInBlock).tail ++ ("; y = '</template>';" : Text))) := by
    decide +kernel
  have reached : Reached blockInScript 4 := by decide +kernel
  obtain ⟨-, -, -, nested⟩ := template_block_first split opens
  have span := nested ' ' (by decide) blockInBlock _ blockInBlock_nested rfl
  exact ⟨split, opens, blockInBlock_nested, reached, span.2 reached⟩

end ComponentBundle.Source
