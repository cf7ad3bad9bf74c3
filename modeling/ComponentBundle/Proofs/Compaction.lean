import ComponentBundle.Proofs.Placeholders
import ComponentBundle.Proofs.Spacing
import ComponentBundle.Proofs.Tiling
import ComponentBundle.Proofs.Trimming

/-!
Compacting changes white space and nothing else. Every run of white space outside the spans
goes or becomes one space, and between two items that would run together a space stays.
-/
namespace ComponentBundle.Bundle
open ComponentBundle.Text ComponentBundle.Source

def Item.isBlank : Item → Bool
  | .char c => Text.isBlank c
  | .span _ => false

/-- Next to a span a space may be needed, whatever characters it ends with. -/
def Item.isTight : Item → Bool
  | .char c => Bundle.isTight c
  | .span _ => false

/-- The same items in the same order, but each whole run of white space is left out or
replaced by one space. Between two items next to which a space may be needed it is replaced. -/
inductive Respaced : Option Item → List Item → List Item → Prop where
  | nil (previous : Option Item) : Respaced previous [] []
  | item {previous : Option Item} {item : Item} {a b : List Item} (visible : item.isBlank = false)
      (rest : Respaced (some item) a b) : Respaced previous (item :: a) (item :: b)
  | run {previous : Option Item} {run a b space : List Item} (filled : run ≠ [])
      (blank : ∀ item ∈ run, item.isBlank) (whole : ∀ next, a.head? = some next → next.isBlank = false)
      (becomes : space = [] ∨ space = [.char ' '])
      (stays : ∀ before next, previous = some before → a.head? = some next →
        before.isTight = false → next.isTight = false → space = [.char ' '])
      (rest : Respaced previous a b) : Respaced previous (run ++ a) (space ++ b)

theorem Respaced.spans {previous : Option Item} {a b : List Item} (h : Respaced previous a b) :
    b.filterMap Item.span? = a.filterMap Item.span? := by
  have blankSpans : ∀ items : List Item, (∀ item ∈ items, item.isBlank) →
      items.filterMap Item.span? = [] := by
    intro items blank
    refine List.filterMap_eq_nil_iff.2 fun item member => ?_
    cases item with
    | char c => rfl
    | span text => simpa [Item.isBlank] using blank _ member
  induction h with
  | nil previous => rfl
  | item visible rest ih => simp [List.filterMap_cons, ih]
  | run filled blank whole becomes stays rest ih =>
    rw [List.filterMap_append, List.filterMap_append, ih, blankSpans _ blank]
    rcases becomes with rfl | rfl <;> rfl

theorem Respaced.of_nil {previous : Option Item} {dense : List Item}
    (h : Respaced previous [] dense) : dense = [] := by
  generalize start : [] = items at h
  cases h with
  | nil => rfl
  | item => contradiction
  | run filled => exact absurd (List.append_eq_nil_iff.1 start.symm).1 filled

theorem Respaced.mem {previous : Option Item} {a b : List Item} (h : Respaced previous a b) :
    ∀ item ∈ b, item ∈ a ∨ item = .char ' ' := by
  induction h with
  | nil previous => simp
  | item visible rest ih =>
    intro item member
    rcases List.mem_cons.1 member with rfl | later
    · exact Or.inl List.mem_cons_self
    · exact (ih item later).imp_left (List.mem_cons_of_mem _)
  | run filled blank whole becomes stays rest ih =>
    intro item member
    rcases List.mem_append.1 member with new | later
    · rcases becomes with rfl | rfl
      · contradiction
      · exact Or.inr (List.mem_singleton.1 new)
    · exact (ih item later).imp_left (List.mem_append_right _)

def visible (t : Text) : Text := t.filter fun c => !isBlank c

theorem visible_append (a b : Text) : visible (a ++ b) = visible a ++ visible b :=
  List.filter_append a b

theorem visible_eq_nil {t : Text} (blank : ∀ c ∈ t, isBlank c) : visible t = [] := by
  simpa [visible, List.filter_eq_nil_iff] using blank

theorem visible_blankItems {items : List Item} (blank : ∀ item ∈ items, item.isBlank) :
    visible (textOf items) = [] := by
  refine visible_eq_nil fun c member => ?_
  obtain ⟨item, inside, here⟩ := List.mem_flatMap.1 member
  have := blank item inside
  cases item with
  | char d =>
    obtain rfl := List.mem_singleton.1 here
    exact this
  | span text => simp [Item.isBlank] at this

theorem textOf_append (a b : List Item) : textOf (a ++ b) = textOf a ++ textOf b :=
  List.flatMap_append

theorem Respaced.visible {previous : Option Item} {a b : List Item} (h : Respaced previous a b) :
    Bundle.visible (textOf b) = Bundle.visible (textOf a) := by
  induction h with
  | nil previous => rfl
  | @item previous item a b shown rest ih =>
    have cons : ∀ items, textOf (item :: items) = item.text ++ textOf items := fun _ => rfl
    rw [cons, cons, visible_append, visible_append, ih]
  | @run previous run a b space filled blank whole becomes stays rest ih =>
    rw [textOf_append, textOf_append, visible_append, visible_append, ih, visible_blankItems blank]
    rcases becomes with rfl | rfl <;> rfl

theorem runs_induction {motive : List Item → Prop} (nil : motive [])
    (item : ∀ item more, item.isBlank = false → motive more → motive (item :: more))
    (run : ∀ run more, run ≠ [] → (∀ item ∈ run, item.isBlank) →
      (∀ next, more.head? = some next → next.isBlank = false) → motive more →
      motive (run ++ more))
    (items : List Item) : motive items := by
  induction length : items.length using Nat.strongRecOn generalizing items with
  | ind n ih =>
    subst length
    cases items with
    | nil => exact nil
    | cons first more =>
      cases shown : first.isBlank with
      | false => exact item first more shown (ih more.length (by simp) more rfl)
      | true =>
        have split := List.takeWhile_append_dropWhile (p := Item.isBlank) (l := first :: more)
        rw [← split]
        refine run _ _ (by simp [shown]) (fun next inside => List.mem_takeWhile_imp inside) ?_
          (ih _ ?_ _ rfl)
        · intro next found
          obtain ⟨_, behind⟩ := List.head?_eq_some_iff.1 found
          exact stop_of_dropWhile_cons behind
        · have := (List.dropWhile_suffix (l := more) Item.isBlank).length_le
          simp [shown]
          omega

variable {opener closer : Char}

theorem isTight_of_private {c : Char} (h : c ∈ privateChars) : isTight c = false := by
  have range := privateChars_range h
  have ascii : ['=', '<', '>', '!', '+', '-', '*', '/', '%', ',', '(', ')', '[', ']', '{', '}'].all
      (fun d => d.toNat < 0x80) := by decide
  have ascii := List.all_eq_true.1 ascii
  cases tight : isTight c with
  | false => rfl
  | true =>
    have := of_decide_eq_true (ascii c (by simpa [isTight] using tight))
    omega

theorem isBlank_of_isDigit {c : Char} (h : c.isDigit) : isBlank c = false := by
  have first : '0'.toNat = 48 := rfl
  have last : '9'.toNat = 57 := rfl
  simp only [Char.isDigit, Bool.and_eq_true, decide_eq_true_eq] at h
  have low : '0'.toNat ≤ c.toNat := h.1
  have high : c.toNat ≤ '9'.toNat := h.2
  simp only [isBlank, Bool.or_eq_false_iff, Bool.and_eq_false_iff, decide_eq_false_iff_not]
  omega

theorem placeholder_visible (marks : Marks opener closer) (index : Nat) :
    ∀ c ∈ placeholder opener closer index, isBlank c = false := by
  intro c member
  rcases List.mem_cons.1 member with rfl | member
  · exact isBlank_of_private marks.openerPrivate
  · rcases List.mem_append.1 member with digit | last
    · exact isBlank_of_isDigit (ofNat_digits index c digit)
    · rw [List.mem_singleton.1 last]
      exact isBlank_of_private marks.closerPrivate

theorem densed_visible {t : Text} (shown : ∀ c ∈ t, isBlank c = false) (previous : Option Char)
    (more : Text) : densed previous (marks false (t ++ more))
      = t ++ densed (t.getLast?.or previous) (marks false more) := by
  induction t generalizing previous with
  | nil => rfl
  | cons c t ih =>
    obtain ⟨first, others⟩ := List.forall_mem_cons.1 shown
    rw [List.cons_append, marks_visible first, densed, ih others]
    cases t <;> simp [List.getLast?_cons]

theorem densed_placeholder (sound : Marks opener closer) (index : Nat) (previous : Option Char)
    (more : Text) : densed previous (marks false (placeholder opener closer index ++ more))
      = placeholder opener closer index ++ densed (some closer) (marks false more) := by
  rw [densed_visible (placeholder_visible sound index)]
  simp [placeholder, List.getLast?_cons]

theorem parts_of_not_tight {previous next : Char} (first : isTight previous = false)
    (second : isTight next = false) : parts (some previous) (some next) := by
  simp [parts, first, second]

theorem densed_gap {c : Char} (shown : isBlank c = false) (previous : Option Char) (t : Text) :
    densed previous (marks true (c :: t)) =
      (if parts previous (some c) then [' '] else []) ++ densed previous (marks false (c :: t)) := by
  rw [marks_visible shown, marks_visible shown]
  simp [densed]

theorem spell_blank {run : List Item} (blank : ∀ item ∈ run, item.isBlank)
    (opener closer : Char) (index : Nat) (more : List Item) :
    ∃ t : Text, run = t.map .char ∧ (∀ c ∈ t, isBlank c) ∧
      spell opener closer index (run ++ more) = t ++ spell opener closer index more := by
  induction run with
  | nil => exact ⟨[], rfl, by simp, rfl⟩
  | cons item run ih =>
    obtain ⟨first, others⟩ := List.forall_mem_cons.1 blank
    obtain ⟨t, rfl, small, spelled⟩ := ih others
    cases item with
    | char c => exact ⟨c :: t, rfl, List.forall_mem_cons.2 ⟨first, small⟩, by simp [spell, spelled]⟩
    | span text => simp [Item.isBlank] at first

theorem spell_cons (sound : Marks opener closer) (index : Nat) (item : Item) (more : List Item) :
    ∃ c t, spell opener closer index (item :: more) = c :: t ∧
      isBlank c = item.isBlank ∧ isTight c = item.isTight := by
  cases item with
  | char c => exact ⟨c, _, rfl, rfl, rfl⟩
  | span text =>
    exact ⟨opener, _, rfl, isBlank_of_private sound.openerPrivate,
      isTight_of_private sound.openerPrivate⟩

theorem densed_spell (sound : Marks opener closer) (items : List Item) (index : Nat)
    (previous : Option Char) (before : Option Item)
    (agree : before.map Item.isTight = previous.map isTight) :
    ∃ dense, densed previous (marks false (spell opener closer index items))
        = spell opener closer index dense ∧ Respaced before items dense := by
  induction items using runs_induction generalizing index previous before with
  | nil => exact ⟨[], rfl, .nil before⟩
  | item item more shown ih =>
    cases item with
    | char c =>
      obtain ⟨dense, same, respaced⟩ := ih index (some c) (some (.char c)) rfl
      refine ⟨.char c :: dense, ?_, .item shown respaced⟩
      rw [spell, marks_visible shown, densed, same]
      rfl
    | span text =>
      obtain ⟨dense, same, respaced⟩ := ih (index + 1) (some closer) (some (.span text))
        (congrArg some (isTight_of_private sound.closerPrivate).symm)
      refine ⟨.span text :: dense, ?_, .item shown respaced⟩
      rw [spell, densed_placeholder sound, same]
      rfl
  | run run more filled blank whole ih =>
    obtain ⟨dense, same, respaced⟩ := ih index previous before agree
    obtain ⟨t, rfl, small, spelled⟩ := spell_blank blank opener closer index more
    rw [spelled, marks_run small (by simpa using filled)]
    cases more with
    | nil =>
      obtain rfl := respaced.of_nil
      exact ⟨[], rfl, .run filled blank whole (Or.inl rfl) (by simp) respaced⟩
    | cons next more =>
      obtain ⟨c, rest, first, shownC, tightC⟩ := spell_cons sound index next more
      rw [first] at same ⊢
      rw [whole next rfl] at shownC
      rw [densed_gap shownC, same]
      refine ⟨(if parts previous (some c) then [.char ' '] else []) ++ dense, ?_,
        .run filled blank whole ?_ ?_ respaced⟩
      · split <;> rfl
      · split <;> simp
      · rintro item _ rfl found loose tight
        obtain rfl := Option.some.inj found
        obtain ⟨last, rfl⟩ : ∃ last, previous = some last := by
          cases previous <;> simp_all
        have lastTight : isTight last = false := by
          rw [← loose]
          exact (Option.some.inj agree).symm
        rw [if_pos (parts_of_not_tight lastTight (tightC.trans tight))]

theorem trimStart_spell (sound : Marks opener closer) (index : Nat) (items : List Item) :
    trimStart (spell opener closer index items)
      = spell opener closer index (items.dropWhile Item.isBlank) := by
  induction items with
  | nil => rfl
  | cons item more ih =>
    cases item with
    | char c =>
      cases shown : isBlank c with
      | false => simp [spell, trimStart, Item.isBlank, shown]
      | true =>
        rw [spell, List.dropWhile_cons_of_pos (by exact shown), ← ih, trimStart,
          List.dropWhile_cons_of_pos shown]
        rfl
    | span text =>
      have shown := isBlank_of_private sound.openerPrivate
      simp [spell, placeholder, trimStart, Item.isBlank, shown]

theorem Respaced.leading {items dense : List Item}
    (h : Respaced none (items.dropWhile Item.isBlank) dense) : Respaced none items dense := by
  have split := List.takeWhile_append_dropWhile (p := Item.isBlank) (l := items)
  by_cases none_ : items.takeWhile Item.isBlank = []
  · rw [none_] at split
    rw [← split]
    exact h
  · rw [← split, ← List.nil_append dense]
    refine .run none_ (fun item inside => List.mem_takeWhile_imp inside) ?_ (Or.inl rfl) ?_ h
    · intro next found
      obtain ⟨_, behind⟩ := List.head?_eq_some_iff.1 found
      exact stop_of_dropWhile_cons behind
    · simp

theorem visible_trim (t : Text) : visible (trim t) = visible t := by
  have start : ∀ u : Text, visible (trimStart u) = visible u := by
    intro u
    have split := List.takeWhile_append_dropWhile (p := isBlank) (l := u)
    have none_ : visible (u.takeWhile isBlank) = [] :=
      visible_eq_nil fun c inside => List.mem_takeWhile_imp inside
    rw [← congrArg visible split, visible_append, none_]
    rfl
  have stop : ∀ u : Text, visible (trimEnd u) = visible u := by
    intro u
    have back := start u.reverse
    simp only [visible, trimStart, trimEnd, List.filter_reverse] at back ⊢
    rw [back, List.reverse_reverse]
  rw [trim, stop, start]

/-- The text of a shielded text made dense spells the respaced items, and perhaps a space at
either end. -/
theorem tighten_spell (sound : Marks opener closer) (items : List Item) :
    ∃ lead dense tail, (lead = [] ∨ lead = [' ']) ∧ (tail = [] ∨ tail = [' ']) ∧
      Respaced none items dense ∧
      tighten (collapseBlanks (withoutBlankLines (spell opener closer 0 items)))
        = spell opener closer 0 (lead.map .char ++ (dense ++ tail.map .char)) := by
  obtain ⟨lead, tail, smallLead, smallTail, tightened⟩ :=
    tighten_withoutBlankLines (spell opener closer 0 items)
  obtain ⟨dense, same, respaced⟩ :=
    densed_spell sound (items.dropWhile Item.isBlank) 0 none none rfl
  refine ⟨lead, dense, tail, smallLead, smallTail, respaced.leading, ?_⟩
  rw [tightened, trimStart_spell sound, same, spell_chars, spell_append_chars]

theorem textOf_segments (segments : List Segment) :
    textOf (segments.flatMap segmentItems) = segments.flatMap Segment.text := by
  induction segments with
  | nil => rfl
  | cons segment more ih =>
    rw [List.flatMap_cons, textOf_append, segmentItems_text, ih, List.flatMap_cons]

theorem textOf_itemsOf (t : Text) : textOf (itemsOf t) = t :=
  (textOf_segments (lex t)).trans (lex_text t)

theorem mem_of_mem_itemsOf {c : Char} {t : Text} (h : .char c ∈ itemsOf t) : c ∈ t := by
  rw [← textOf_itemsOf t]
  exact List.mem_flatMap.2 ⟨_, h, List.mem_singleton.2 rfl⟩

theorem unshield_respaced {t : Text} (spare : SparesPrivate t) {dense : List Item}
    (respaced : Respaced none (itemsOf t) dense) {lead tail : Text}
    (smallLead : lead = [] ∨ lead = [' ']) (smallTail : tail = [] ∨ tail = [' ']) :
    (shield t).unshield (spell (shield t).opener (shield t).closer 0
      (lead.map .char ++ (dense ++ tail.map .char))) = .ok (lead ++ (textOf dense ++ tail)) := by
  obtain ⟨sound, noOpener, noCloser⟩ := shield_marks spare
  have space : ∀ mark ∈ privateChars, ' ' ≠ mark := by
    rintro mark inside rfl
    have := isBlank_of_private inside
    simp [Text.isBlank] at this
  have spaces : ∀ {small : Text}, (small = [] ∨ small = [' ']) → ∀ c ∈ small, c = ' ' := by
    rintro small (rfl | rfl) <;> simp
  have clean : ∀ c, .char c ∈ lead.map Item.char ++ (dense ++ tail.map .char) →
      c ≠ (shield t).opener ∧ c ≠ (shield t).closer := by
    intro c member
    have source : c = ' ' ∨ c ∈ t := by
      rcases List.mem_append.1 member with inLead | member
      · exact Or.inl (spaces smallLead c (by simpa using inLead))
      · rcases List.mem_append.1 member with inDense | inTail
        · rcases respaced.mem _ inDense with old | new
          · exact Or.inr (mem_of_mem_itemsOf old)
          · exact Or.inl (Item.char.inj new)
        · exact Or.inl (spaces smallTail c (by simpa using inTail))
    rcases source with rfl | old
    · exact ⟨space _ sound.openerPrivate, space _ sound.closerPrivate⟩
    · constructor
      · rintro rfl
        exact noOpener old
      · rintro rfl
        exact noCloser old
  have hidden : (shield t).hidden.drop 0
      = (lead.map Item.char ++ (dense ++ tail.map Item.char)).filterMap Item.span? := by
    rw [List.filterMap_append, List.filterMap_append, spans_chars, spans_chars, respaced.spans,
      List.append_nil, List.nil_append, List.drop_zero, shield_hidden]
  have read := unshieldFrom_spell (shield t) sound.delimits _ clean 0 [] hidden (by simp)
  rw [Shielded.unshield, read, textOf_append, textOf_append, textOf_chars, textOf_chars]
  rfl

/-- Where two private characters are left for the placeholders, a compacted text is the text
without comments in which only white space outside the spans has changed. -/
theorem compact_respaces {t : Text} (spare : SparesPrivate (withoutComments t)) :
    ∃ dense, Respaced none (itemsOf (withoutComments t)) dense ∧
      dense.filterMap Item.span? = spanTexts (lex (withoutComments t)) ∧
      compact t = .ok (trim (textOf dense)) ∧
      visible (trim (textOf dense)) = visible (withoutComments t) := by
  obtain ⟨sound, -, -⟩ := shield_marks spare
  obtain ⟨lead, dense, tail, smallLead, smallTail, respaced, tightened⟩ :=
    tighten_spell sound (itemsOf (withoutComments t))
  have blank : ∀ {small : Text}, (small = [] ∨ small = [' ']) → ∀ c ∈ small, Text.isBlank c := by
    rintro small (rfl | rfl) <;> simp [Text.isBlank]
  refine ⟨dense, respaced, respaced.spans.trans (spans_itemsOf _), ?_, ?_⟩
  · have read := unshield_respaced spare respaced smallLead smallTail
    rw [← tightened, ← shield_text] at read
    rw [compact, read, ← trim_append_blank (blank smallLead) (blank smallTail)]
    rfl
  · rw [visible_trim, respaced.visible, textOf_itemsOf]

def listing : Text :=
  "const  u = 'a   b' ; // note\n\n/* two\nlines */ let y = \x60c  d\x60 - -u ;\n"

theorem listing_spares : SparesPrivate (withoutComments listing) := by
  have inside : ∀ n, 0xE000 ≤ n → n < 0xE000 + 6400 → Char.ofNat n ∈ privateChars :=
    fun n low high => List.mem_map_of_mem (List.mem_range'_1.2 ⟨low, high⟩)
  exact ⟨Char.ofNat 0xE000, inside _ (by decide) (by decide), Char.ofNat 0xE001,
    inside _ (by decide) (by decide), by decide, by decide +kernel, by decide +kernel⟩

theorem listing_respaced :
    SparesPrivate (withoutComments listing) ∧
      compact listing = .ok "const u='a   b' ; let y=\x60c  d\x60- -u ;" ∧
      ∃ dense, Respaced none (itemsOf (withoutComments listing)) dense ∧
        dense.filterMap Item.span? = spanTexts (lex (withoutComments listing)) ∧
        compact listing = .ok (trim (textOf dense)) ∧
        visible (trim (textOf dense)) = visible (withoutComments listing) :=
  ⟨listing_spares, by decide +kernel, compact_respaces listing_spares⟩

end ComponentBundle.Bundle
