import ComponentBundle.Text.Basic

/-!
Looking for one text in another: at the front, at the end, at the first place where
it stands, and at all places from left to right that do not overlap.
-/
namespace ComponentBundle.Text

def after? : (lead text : Text) → Option Text
  | [], t => some t
  | _ :: _, [] => none
  | a :: lead, c :: t => if a = c then after? lead t else none

theorem after?_eq_some_iff {lead text rest : Text} :
    after? lead text = some rest ↔ text = lead ++ rest := by
  induction lead generalizing text with
  | nil => simp [after?]
  | cons a lead ih =>
    cases text with
    | nil => simp [after?]
    | cons c t =>
      by_cases same : a = c
      · simp [after?, same, ih]
      · simp [after?, same, Ne.symm same]

theorem after?_suffix {lead text rest : Text} (h : after? lead text = some rest) :
    rest <:+ text := ⟨lead, (after?_eq_some_iff.1 h).symm⟩

def startsWith (text lead : Text) : Bool := (after? lead text).isSome

def before? (last text : Text) : Option Text :=
  (after? last.reverse text.reverse).map List.reverse

theorem before?_eq_some_iff {last text rest : Text} :
    before? last text = some rest ↔ text = rest ++ last := by
  simp only [before?, Option.map_eq_some_iff, after?_eq_some_iff]
  constructor
  · rintro ⟨r, split, rfl⟩
    simpa using congrArg List.reverse split
  · rintro rfl
    exact ⟨rest.reverse, by simp, by simp⟩

def afterFirst? (needle : Text) : Text → Option Text
  | [] => after? needle []
  | c :: t =>
    match after? needle (c :: t) with
    | some rest => some rest
    | none => afterFirst? needle t

theorem afterFirst?_suffix {needle t rest : Text} (h : afterFirst? needle t = some rest) :
    rest <:+ t := by
  fun_induction afterFirst? needle t with
  | case1 => exact after?_suffix h
  | case2 c t after split => exact Option.some.inj h ▸ after?_suffix split
  | case3 c t _ ih => exact (ih h).trans (List.suffix_cons _ _)

def splitFirst? (needle : Text) : Text → Option (Text × Text)
  | [] => (after? needle []).map fun rest => ([], rest)
  | c :: t =>
    match after? needle (c :: t) with
    | some rest => some ([], rest)
    | none => (splitFirst? needle t).map fun (before, rest) => (c :: before, rest)

def splitLast? {α : Type} [DecidableEq α] (mark : α) (t : List α) : Option (List α × List α) :=
  match t.reverse.span (· ≠ mark) with
  | (_, []) => none
  | (last, _ :: before) => some (before.reverse, last.reverse)

/-- The pieces between the members that satisfy `p`; there is always at least one. -/
def splitWhere {α : Type} (p : α → Bool) : List α → List (List α)
  | [] => [[]]
  | c :: t =>
    if p c then [] :: splitWhere p t
    else
      match splitWhere p t with
      | [] => [[c]]
      | piece :: more => (c :: piece) :: more

def splitOn {α : Type} [DecidableEq α] (mark : α) (t : List α) : List (List α) :=
  splitWhere (· = mark) t

def join (mark : Text) (pieces : List Text) : Text := mark.intercalate pieces

/-- The lines of a text without their ends, which are `\n` or `\r\n`; the empty piece
    after a final end is no line. -/
def lines (t : Text) : List Text :=
  let pieces := splitOn '\n' t
  let last := pieces.getLast?.getD []
  pieces.dropLast.map (fun line => (before? ['\r'] line).getD line)
    ++ if last.isEmpty then [] else [last]

structure Occurrence where
  start : Nat
  previous : Option Char
  next : Option Char
  deriving Repr, DecidableEq

/-- The places of `needle` from left to right, each sought after the end of the one
    before. The empty text is never looked for. -/
def occurrencesFrom (needle : Text) (previous : Option Char) (start : Nat) :
    Text → List Occurrence
  | [] => []
  | c :: t =>
    if needle.isEmpty then []
    else
      match _found : after? needle (c :: t) with
      | some rest =>
        ⟨start, previous, rest.head?⟩
          :: occurrencesFrom needle needle.getLast? (start + width needle) rest
      | none => occurrencesFrom needle (some c) (start + c.utf8Size) t
termination_by t => t.length
decreasing_by
  · have split := after?_eq_some_iff.1 _found
    have lengths := congrArg List.length split
    cases needle with
    | nil => contradiction
    | cons a needle =>
      simp only [List.length_append, List.length_cons] at lengths ⊢
      omega
  · simp

def occurrences (needle text : Text) : List Occurrence := occurrencesFrom needle none 0 text

end ComponentBundle.Text
