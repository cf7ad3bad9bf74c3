import ComponentBundle.Bundle.Session

/-!
A session over any run of its host: events, with changes from outside between them that the
session has no part in. An event is one rebuild or none, and a rebuild writes its files in
order, up to the first that is refused.
-/
namespace ComponentBundle.Bundle
open ComponentBundle.Text ComponentBundle.Files ComponentBundle.Project

variable {σ : Type}

def Host.noting (host : Host σ) : Host (σ × List Asset) where
  tree state := host.tree state.1
  sink asset state :=
    match host.sink asset state.1 with
    | (.ok (), next) => (.ok (), next, state.2 ++ [asset])
    | (.error problem, next) => (.error problem, next, state.2)

theorem writeAll_noting (host : Host σ) (assets : List Asset) (state : σ) (noted : List Asset) :
    ∃ taken, taken <+: assets ∧
      writeAll host.noting.sink assets (state, noted)
        = ((writeAll host.sink assets state).1, (writeAll host.sink assets state).2,
            noted ++ taken) ∧
      ((writeAll host.sink assets state).1 = .ok () ↔ taken = assets) := by
  induction assets generalizing state noted with
  | nil => exact ⟨[], List.prefix_rfl, by simp [writeAll], by simp [writeAll]⟩
  | cons asset more ih =>
    cases put : host.sink asset state with
    | mk result next =>
      cases result with
      | error problem =>
        exact ⟨[], List.nil_prefix, by simp [writeAll, Host.noting, put], by simp [writeAll, put]⟩
      | ok done =>
        obtain ⟨taken, start, same, whole⟩ := ih next (noted ++ [asset])
        refine ⟨asset :: taken, List.cons_prefix_cons.2 ⟨rfl, start⟩, ?_, ?_⟩
        · have first : host.noting.sink asset (state, noted)
              = (.ok (), next, noted ++ [asset]) := by simp [Host.noting, put]
          simp [writeAll, first, same, put]
        · simpa [writeAll, put] using whole

def Event.url (event : Event) (session : Session) : Text :=
  match event with
  | .listening address => address.url session.settings.defaultPort
  | _ => session.baseUrl

def Event.rebuilds (event : Event) (tree : FileTree) (settings : Settings) : Bool :=
  match event with
  | .changed path => concerns tree settings path
  | _ => true

def Session.compiled? (session : Session) (event : Event) (tree : FileTree) :
    Except Problem Compilation :=
  compile tree session.settings (Package.read tree session.settings.packagePath)
    (event.url session)

theorem handle_ignored {host : Host σ} {event : Event} {session : Session} {state : σ}
    (far : event.rebuilds (host.tree state) session.settings = false) :
    handle host event session state = (.ignored, session, state) := by
  cases event with
  | started => contradiction
  | listening address => contradiction
  | changed path =>
    rw [Event.rebuilds] at far
    simp [handle, far]

theorem handle_rebuilds {host : Host σ} {event : Event} {session : Session} {state : σ}
    (near : event.rebuilds (host.tree state) session.settings = true) :
    handle host event session state
      = recompile host { session with baseUrl := event.url session } state := by
  cases event with
  | started => rfl
  | listening address => rfl
  | changed path =>
    rw [Event.rebuilds] at near
    simp [handle, near, Event.url]

theorem handle_error {host : Host σ} {event : Event} {session : Session} {state : σ}
    {problem : Problem} (near : event.rebuilds (host.tree state) session.settings = true)
    (failed : session.compiled? event (host.tree state) = .error problem) :
    handle host event session state
      = (.failed problem, { session with baseUrl := event.url session }, state) := by
  rw [Session.compiled?] at failed
  rw [handle_rebuilds near, recompile]
  simp [failed]

theorem handle_refused {host : Host σ} {event : Event} {session : Session} {state next : σ}
    {compilation : Compilation} {problem : Problem}
    (near : event.rebuilds (host.tree state) session.settings = true)
    (made : session.compiled? event (host.tree state) = .ok compilation)
    (put : publish host.sink compilation state = (.error problem, next)) :
    handle host event session state
      = (.failed problem, { session with baseUrl := event.url session }, next) := by
  rw [Session.compiled?] at made
  rw [handle_rebuilds near, recompile]
  simp [made, put]

theorem handle_published {host : Host σ} {event : Event} {session : Session} {state next : σ}
    {compilation : Compilation}
    (near : event.rebuilds (host.tree state) session.settings = true)
    (made : session.compiled? event (host.tree state) = .ok compilation)
    (put : publish host.sink compilation state = (.ok (), next)) :
    handle host event session state
      = (.compiled compilation, ⟨session.settings, event.url session, some compilation⟩, next) := by
  rw [Session.compiled?] at made
  rw [handle_rebuilds near, recompile]
  simp [made, put]

inductive Handled (host : Host σ) (event : Event) (session : Session) (state : σ) :
    Outcome × Session × σ → Prop where
  | ignored (far : event.rebuilds (host.tree state) session.settings = false) :
      Handled host event session state (.ignored, session, state)
  | uncompiled {problem : Problem}
      (near : event.rebuilds (host.tree state) session.settings = true)
      (failed : session.compiled? event (host.tree state) = .error problem) :
      Handled host event session state
        (.failed problem, { session with baseUrl := event.url session }, state)
  | refused {compilation : Compilation} {problem : Problem} {next : σ}
      (near : event.rebuilds (host.tree state) session.settings = true)
      (made : session.compiled? event (host.tree state) = .ok compilation)
      (put : publish host.sink compilation state = (.error problem, next)) :
      Handled host event session state
        (.failed problem, { session with baseUrl := event.url session }, next)
  | published {compilation : Compilation} {next : σ}
      (near : event.rebuilds (host.tree state) session.settings = true)
      (made : session.compiled? event (host.tree state) = .ok compilation)
      (put : publish host.sink compilation state = (.ok (), next)) :
      Handled host event session state
        (.compiled compilation, ⟨session.settings, event.url session, some compilation⟩, next)

theorem handled (host : Host σ) (event : Event) (session : Session) (state : σ) :
    Handled host event session state (handle host event session state) := by
  cases near : event.rebuilds (host.tree state) session.settings with
  | false => exact handle_ignored near ▸ .ignored near
  | true =>
    cases made : session.compiled? event (host.tree state) with
    | error problem => exact handle_error near made ▸ .uncompiled near made
    | ok compilation =>
      cases put : publish host.sink compilation state with
      | mk result next =>
        cases result with
        | error problem => exact handle_refused near made put ▸ .refused near made put
        | ok done => exact handle_published near made put ▸ .published near made put

theorem handle_ignored_iff {host : Host σ} {event : Event} {session : Session} {state : σ} :
    (handle host event session state).1 = .ignored ↔
      event.rebuilds (host.tree state) session.settings = false := by
  refine ⟨fun ignored => ?_, fun far => by rw [handle_ignored far]⟩
  have met := handled host event session state
  generalize handle host event session state = result at met ignored
  cases met with
  | ignored far => exact far
  | uncompiled near failed => contradiction
  | refused near made put => contradiction
  | published near made put => contradiction

/-- One event as it was handled: what the session met, and what came of it. -/
structure Turn where
  event : Event
  session : Session
  tree : FileTree
  outcome : Outcome
  written : List Asset

def turn (host : Host σ) (event : Event) (session : Session) (state : σ) : Turn where
  event := event
  session := session
  tree := host.tree state
  outcome := (handle host event session state).1
  written := (handle host.noting event session (state, [])).2.2.2

/-- An event without a compilation writes nothing. One with a compilation writes its files
    from the first on, all of them if and only if it counts as compiled. -/
structure Turn.Accounted (turn : Turn) : Prop where
  ignored : turn.event.rebuilds turn.tree turn.session.settings = false →
    turn.outcome = .ignored ∧ turn.written = []
  failed : turn.event.rebuilds turn.tree turn.session.settings = true →
    ∀ problem, turn.session.compiled? turn.event turn.tree = .error problem →
      turn.outcome = .failed problem ∧ turn.written = []
  wrote : turn.event.rebuilds turn.tree turn.session.settings = true →
    ∀ compilation, turn.session.compiled? turn.event turn.tree = .ok compilation →
      let files := compilation.assets ++ [⟨manifestFile, compilation.manifest.render⟩]
      turn.written <+: files ∧
        (turn.outcome = .compiled compilation ∧ turn.written = files ∨
          (∃ problem, turn.outcome = .failed problem) ∧ turn.written ≠ files)

theorem turn_accounted (host : Host σ) (event : Event) (session : Session) (state : σ) :
    (turn host event session state).Accounted where
  ignored (far : event.rebuilds (host.tree state) session.settings = false) := by
    have noted : handle host.noting event session (state, []) = (.ignored, session, state, []) :=
      handle_ignored far
    simp only [turn, handle_ignored far, noted, and_self]
  failed (near : event.rebuilds (host.tree state) session.settings = true) problem
      (failed : session.compiled? event (host.tree state) = .error problem) := by
    have noted : handle host.noting event session (state, [])
        = (.failed problem, { session with baseUrl := event.url session }, state, []) :=
      handle_error near failed
    simp only [turn, handle_error near failed, noted, and_self]
  wrote (near : event.rebuilds (host.tree state) session.settings = true) compilation
      (made : session.compiled? event (host.tree state) = .ok compilation) := by
    obtain ⟨taken, start, same, whole⟩ := writeAll_noting host compilation.files state []
    rw [List.nil_append] at same
    cases put : publish host.sink compilation state with
    | mk result next =>
      rw [publish] at put
      rw [put] at same whole
      cases result with
      | error problem =>
        have noted : handle host.noting event session (state, [])
            = (.failed problem, { session with baseUrl := event.url session }, next, taken) :=
          handle_refused near made same
        simp only [turn, handle_refused near made put, noted]
        exact ⟨start, .inr ⟨⟨problem, rfl⟩, fun all => by simpa using whole.2 all⟩⟩
      | ok done =>
        have noted : handle host.noting event session (state, []) = (.compiled compilation,
            ⟨session.settings, event.url session, some compilation⟩, next, taken) :=
          handle_published near made same
        simp only [turn, handle_published near made put, noted]
        exact ⟨start, .inl ⟨trivial, whole.1 rfl⟩⟩

/-- What happens around a session: an event of its host, or a change that it has no part
    in. -/
inductive Happening (σ : Type) where
  | event (occurred : Event)
  | outside (change : σ → σ)

def Happening.event? : Happening σ → Option Event
  | .event occurred => some occurred
  | .outside _ => none

def Event.address? : Event → Option Address
  | .listening address => some address
  | _ => none

def Outcome.compilation? : Outcome → Option Compilation
  | .compiled compilation => some compilation
  | _ => none

def live (host : Host σ) : List (Happening σ) → Session → σ → List Turn × Session × σ
  | [], session, state => ([], session, state)
  | .outside change :: more, session, state => live host more session (change state)
  | .event event :: more, session, state =>
    let (_, after, next) := handle host event session state
    let (turns, last) := live host more after next
    (turn host event session state :: turns, last)

theorem handle_session (host : Host σ) (event : Event) (session : Session) (state : σ) :
    (handle host event session state).2.1.settings = session.settings ∧
      (handle host event session state).2.1.baseUrl
        = (event.address?.map (·.url session.settings.defaultPort)).getD session.baseUrl ∧
      (handle host event session state).2.1.last
        = (handle host event session state).1.compilation?.or session.last := by
  have url : event.url session
      = (event.address?.map (·.url session.settings.defaultPort)).getD session.baseUrl := by
    cases event <;> rfl
  have met := handled host event session state
  generalize handle host event session state = result at met ⊢
  cases met with
  | ignored far =>
    refine ⟨rfl, ?_, rfl⟩
    cases event with
    | started => rfl
    | listening address => contradiction
    | changed path => rfl
  | uncompiled near failed => exact ⟨rfl, url, rfl⟩
  | refused near made put => exact ⟨rfl, url, rfl⟩
  | published near made put => exact ⟨rfl, url, rfl⟩

theorem live_event (host : Host σ) (event : Event) (more : List (Happening σ)) (session : Session)
    (state : σ) :
    live host (.event event :: more) session state =
      let rest := live host more (handle host event session state).2.1
        (handle host event session state).2.2
      (turn host event session state :: rest.1, rest.2) := rfl

theorem live_turns (host : Host σ) (happenings : List (Happening σ)) (session : Session)
    (state : σ) :
    (live host happenings session state).1.map Turn.event
        = happenings.filterMap Happening.event? ∧
      ∀ turn ∈ (live host happenings session state).1, turn.Accounted := by
  induction happenings generalizing session state with
  | nil => simp [live]
  | cons happening more ih =>
    cases happening with
    | outside change => exact ih session (change state)
    | event event =>
      obtain ⟨events, accounted⟩ :=
        ih (handle host event session state).2.1 (handle host event session state).2.2
      refine ⟨?_, ?_⟩
      · simp [live, Happening.event?, events, turn]
      · exact List.forall_mem_cons.2 ⟨turn_accounted host event session state, accounted⟩

theorem getLast?_filterMap_cons {α β : Type} (f : α → Option β) (a : α) (l : List α) :
    ((a :: l).filterMap f).getLast? = (l.filterMap f).getLast?.or (f a) := by
  cases found : f a with
  | none => simp [found]
  | some b =>
    rw [List.filterMap_cons_some found, List.getLast?_cons]
    cases (l.filterMap f).getLast? <;> rfl

theorem live_session (host : Host σ) (happenings : List (Happening σ)) (session : Session)
    (state : σ) :
    (live host happenings session state).2.1 =
      ⟨session.settings,
        (((happenings.filterMap Happening.event?).filterMap Event.address?).getLast?.map
          (·.url session.settings.defaultPort)).getD session.baseUrl,
        ((live host happenings session state).1.filterMap
          (·.outcome.compilation?)).getLast?.or session.last⟩ := by
  induction happenings generalizing session state with
  | nil => simp [live]
  | cons happening more ih =>
    cases happening with
    | outside change => exact ih session (change state)
    | event event =>
      obtain ⟨settings, url, last⟩ := handle_session host event session state
      have events : (Happening.event event :: more).filterMap Happening.event?
          = event :: more.filterMap Happening.event? := rfl
      simp only [live_event, ih, settings, url, last, events, getLast?_filterMap_cons,
        Session.mk.injEq, true_and]
      constructor
      · cases ((more.filterMap Happening.event?).filterMap Event.address?).getLast? <;> rfl
      · exact (Option.or_assoc ..).symm

/-- Whatever happens around a session, and whatever its writer refuses: the address is the
    first one or that of the last host that was listening, the last compilation is that of
    the last event that came to one, and every event accounts for what it wrote. -/
theorem session_accounts (host : Host σ) (settings : Settings) (happenings : List (Happening σ))
    (state : σ) :
    let (turns, session, _) := live host happenings (.of settings) state
    turns.map Turn.event = happenings.filterMap Happening.event? ∧
      (∀ turn ∈ turns, turn.Accounted) ∧
      session.settings = settings ∧
      session.baseUrl = (((turns.map Turn.event).filterMap Event.address?).getLast?.map
          (·.url settings.defaultPort)).getD settings.initialUrl ∧
      session.last = (turns.filterMap (·.outcome.compilation?)).getLast? := by
  obtain ⟨events, accounted⟩ := live_turns host happenings (.of settings) state
  have session := live_session host happenings (.of settings) state
  refine ⟨events, accounted, ?_, ?_, ?_⟩
  · rw [session]
    rfl
  · rw [session, events]
    rfl
  · rw [session]
    exact Option.or_none

end ComponentBundle.Bundle
