import OrbPuzzle.Board
import OrbPuzzle.Proofs.Painting.Frame
import OrbPuzzle.Proofs.Session.Effects

/-!
# A board adds nothing to its game

A board handles windows, images, the clock and the player's input, and it holds a game. All that
matters of this to the game can be said without a board. It is enough to know the screen: the
windows and the layout of the surface. Then each event makes at most one call on a game. A tick is
an update. A screen frame in which the player presses a place on the surface is a click there.

`map_view_run` is the simulation: the game and the screen of a board after any events are those that
the calls and the screen alone lead to. `game_of_events` is what follows from it. The game is the
one played without a board, images have no part in it, and the labels show its score after every
frame.
-/

namespace OrbPuzzle

namespace Board

variable {σ : Type}

/-! ## Events -/

/-- What can happen to a board. -/
inductive Event where
  /-- The windows are replaced. -/
  | windows (windows : List Window)
  /-- An image has been loaded. -/
  | load (color : Color) (size : Extent)
  /-- The clock ticks. -/
  | tick
  /-- The screen is drawn again, after the player's input since the last time. -/
  | frame (input : Input)
deriving DecidableEq

/-- Whether an event is that an image has been loaded. -/
def Event.isLoad : Event → Bool
  | .load _ _ => true
  | .windows _ | .tick | .frame _ => false

/-- The board after an event. -/
def handle [Store σ] (b : Board σ) : Event → Except Fault (Board σ)
  | .windows windows => .ok (b.setWindows windows)
  | .load color size => .ok (b.loadImage color size)
  | .tick => b.tick
  | .frame input => b.frame input

/-- The board after events, one after the other. -/
def run [Store σ] (b : Board σ) (events : List Event) : Except Fault (Board σ) :=
  events.foldlM handle b

/-! ## The screen -/

/-- What is on the screen: the windows, and the place of the surface. -/
structure Screen where
  windows : List Window
  layout : Layout := .empty
deriving DecidableEq

namespace Screen

/-- The screen before any event. -/
def start (windows : List Window) : Screen := { windows }

/-- The screen after an event. The surface is placed in a screen frame, if there is exactly one
window; otherwise it stays where it was. -/
def next (v : Screen) : Event → Screen
  | .windows windows => { v with windows }
  | .frame _ =>
    match v.windows with
    | [window] => { v with layout := .fit window.width window.height }
    | _ => v
  | .load _ _ | .tick => v

/-- The screen after events, one after the other. -/
def after (v : Screen) (events : List Event) : Screen := events.foldl next v

/-- The place in the window that was pressed. If the left button was pressed, this is the place of
the mouse in the only window, and no touch counts. -/
def pressed? (v : Screen) (input : Input) : Option Point :=
  match input.pressed, v.windows with
  | some .left, [window] => input.cursor.filter fun place => window.Contains place
  | some .left, _ => none
  | _, _ => input.touch

/-- The call that a press makes on the game: a click, if the place is on the surface. -/
def press? (v : Screen) (input : Input) : Option Session.Call :=
  ((v.pressed? input).bind v.layout.toSurface).map fun place =>
    .click place.x place.y v.layout.size

/-- The call that an event makes on the game. In a screen frame the surface is placed before a press
is looked at. -/
def call? (v : Screen) : Event → Option Session.Call
  | .tick => some .update
  | .frame input => (v.next (.frame input)).press? input
  | .windows _ | .load _ _ => none

/-- The calls that events make on the game, one after the other. -/
def calls (v : Screen) : List Event → List Session.Call
  | [] => []
  | event :: rest => (v.call? event).toList ++ (v.next event).calls rest

/-- Images leave the screen as it is. -/
theorem after_filter_isLoad (v : Screen) (events : List Event) :
    v.after (events.filter fun event => !event.isLoad) = v.after events := by
  induction events generalizing v with
  | nil => rfl
  | cons event rest ih =>
    cases event with
    | load color size => exact ih v
    | windows windows => exact ih _
    | tick => exact ih _
    | frame input => exact ih _

/-- Images make no calls. -/
theorem calls_filter_isLoad (v : Screen) (events : List Event) :
    v.calls (events.filter fun event => !event.isLoad) = v.calls events := by
  induction events generalizing v with
  | nil => rfl
  | cons event rest ih =>
    cases event with
    | load color size => exact ih v
    | windows windows => exact congrArg (_ ++ ·) (ih _)
    | tick => exact congrArg (_ ++ ·) (ih _)
    | frame input => exact congrArg (_ ++ ·) (ih _)

end Screen

/-! ## The view of a board -/

/-- The screen of a board. -/
def screen (b : Board σ) : Screen := ⟨b.windows, b.surface.layout⟩

theorem layout_screen (b : Board σ) : b.screen.layout = b.surface.layout := rfl

/-- What a board has in common with a game played without one: the game, and the screen. -/
def view (b : Board σ) : Session σ × Screen := (b.session, b.screen)

theorem view_updateLayout (b : Board σ) (input : Input) :
    b.updateLayout.noteImageSizes.view = (b.session, b.screen.next (.frame input)) := by
  obtain ⟨session, windows, surface⟩ := b
  match windows with
  | [] => rfl
  | [window] => rfl
  | _ :: _ :: _ => rfl

theorem pressed?_eq (b : Board σ) (input : Input) : b.pressed? input = b.screen.pressed? input := by
  obtain ⟨cursor, pressed, touch⟩ := input
  obtain ⟨session, windows, surface⟩ := b
  match pressed, windows with
  | none, _ => rfl
  | some .right, _ => rfl
  | some .left, [] => rfl
  | some .left, [window] =>
    cases cursor with
    | none => rfl
    | some place =>
      show (if window.Contains place then some place else none) =
        (some place).filter fun place => window.Contains place
      rw [Option.filter_some]
      simp only [decide_eq_true_eq]
  | some .left, _ :: _ :: _ => rfl

theorem view_writeLabels (b : Board σ) : b.placeSprites.writeLabels.view = b.view := by
  unfold placeSprites
  cases b.window? with
  | none => rfl
  | some window => rfl

/-! ## The labels -/

theorem scores_of_click {s : Session σ} {x y surfaceSize : Single}
    {reply : Reply (Session σ) ClickOutcome} (h : s.click x y surfaceSize = .ok reply) :
    reply.state.score = s.score ∧ reply.state.highScore = s.highScore := by
  cases Session.clickCell_eq_ok h with
  | ignored | missed | selected | cancelled | swapped => exact ⟨rfl, rfl⟩

/-- A screen frame changes neither the score nor the high score, and the labels show them. -/
theorem labels_of_frame {b framed : Board σ} {input : Input} (h : b.frame input = .ok framed) :
    framed.scoreLabel = "Score: " ++ toString framed.session.score ∧
      framed.highScoreLabel = "High score: " ++ toString framed.session.highScore ∧
      framed.session.score = b.session.score ∧
      framed.session.highScore = b.session.highScore := by
  obtain ⟨hfitted, -⟩ := Prod.mk.inj (b.view_updateLayout input)
  obtain ⟨pressed, hpressed, h⟩ := bind_eq_ok_iff.mp h
  obtain rfl := pure_eq_ok_iff.mp h
  obtain ⟨hframed, -⟩ := Prod.mk.inj pressed.view_writeLabels
  -- the labels are written last, from the game itself; what is left is that a press scores nothing
  refine ⟨rfl, rfl, ?_⟩
  rw [hframed, ← hfitted]
  unfold handlePress at hpressed
  split at hpressed
  · cases hpressed
    exact ⟨rfl, rfl⟩
  · obtain ⟨reply, hreply, hpressed⟩ := bind_eq_ok_iff.mp hpressed
    obtain rfl := pure_eq_ok_iff.mp hpressed
    exact scores_of_click hreply

/-! ## The simulation -/

section Simulation

variable [Store σ]

/-- A tick of the clock is an update of the game. -/
theorem map_view_tick (b : Board σ) :
    b.tick.map view = b.session.update.map fun after => (after, b.screen) := by
  -- the frame paints between the step and the advance, which the layout does not notice
  unfold tick Session.frame Session.update
  cases b.session.step with
  | error fault => rfl
  | ok stepped =>
    cases hadvance : stepped.advance with
    | error fault => simp [bind, Except.bind, hadvance, Except.map]
    | ok after =>
      have hlayout : (Surface.paintGrid b.surface stepped.grid).layout = b.surface.layout := by
        rw [SpriteSurface.paintGrid_eq]
      simp [bind, Except.bind, hadvance, pure, Except.pure, Except.map, view, screen, hlayout]

/-- A press on the surface makes a click on the game, and any other press makes no call. -/
theorem map_view_handlePress (b : Board σ) (input : Input) :
    (b.handlePress input).map view =
      (b.session.run (b.screen.press? input).toList).map fun r => (r.2, b.screen) := by
  unfold handlePress Screen.press?
  rw [pressed?_eq, layout_screen]
  cases (b.screen.pressed? input).bind b.surface.layout.toSurface with
  | none => rfl
  | some place =>
    rw [Option.map_some, Option.toList_some, Session.run, runAll_singleton, Session.perform]
    dsimp only
    cases b.session.click place.x place.y b.surface.layout.size with
    | error fault => rfl
    | ok reply => rfl

/-- A screen frame makes the call of its press on the game, in the layout that it has made. -/
theorem map_view_frame (b : Board σ) (input : Input) :
    (b.frame input).map view =
      (b.session.run (b.screen.call? (.frame input)).toList).map fun r =>
        (r.2, b.screen.next (.frame input)) := by
  obtain ⟨hsession, hscreen⟩ := Prod.mk.inj (b.view_updateLayout input)
  have hpress := b.updateLayout.noteImageSizes.map_view_handlePress input
  rw [hsession, hscreen] at hpress
  refine Eq.trans ?_ hpress
  unfold frame
  cases b.updateLayout.noteImageSizes.handlePress input with
  | error fault => rfl
  | ok pressed => exact congrArg Except.ok pressed.view_writeLabels

/-- An event makes its call on the game, and has its effect on the screen. -/
theorem map_view_handle (b : Board σ) (event : Event) :
    (b.handle event).map view =
      (b.session.run (b.screen.call? event).toList).map fun r => (r.2, b.screen.next event) := by
  cases event with
  | windows windows => rfl
  | load color size => rfl
  | tick =>
    show b.tick.map view = (b.session.run [.update]).map _
    rw [map_view_tick, Session.run, runAll_singleton, Session.perform]
    cases b.session.update with
    | error fault => rfl
    | ok after => rfl
  | frame input => exact b.map_view_frame input

/-- The game and the screen of a board after any events are those that the calls of these events,
and the screen alone, lead to. A fault of the one is a fault of the other. -/
theorem map_view_run (b : Board σ) (events : List Event) :
    (b.run events).map view =
      (b.session.run (b.screen.calls events)).map fun r => (r.2, b.screen.after events) := by
  induction events generalizing b with
  | nil => rfl
  | cons event rest ih =>
    -- what the rest of the events leads to depends only on the view of the board
    let resume (g : Session σ × Screen) : Except Fault (Session σ × Screen) :=
      (fun r => (r.2, g.2.after rest)) <$> g.1.run (g.2.calls rest)
    let turned (r : List (Session.Turn σ) × Session σ) := (r.2, b.screen.next event)
    calc view <$> (b.handle event >>= fun handled => handled.run rest)
      _ = b.handle event >>= fun handled => resume handled.view := by
        rw [map_bind]
        exact congrArg _ (funext ih)
      _ = view <$> b.handle event >>= resume := (bind_map_left view _ resume).symm
      _ = turned <$> b.session.run (b.screen.call? event).toList >>= resume :=
        congrArg (· >>= resume) (b.map_view_handle event)
      _ = b.session.run (b.screen.call? event).toList >>= fun r => resume (turned r) :=
        bind_map_left turned _ resume
      _ = (fun r => (r.2, b.screen.after (event :: rest))) <$>
            b.session.run (b.screen.calls (event :: rest)) := by
        rw [Screen.calls, Session.run, Session.run, runAll_append]
        simp only [map_bind, map_pure]
        rfl

end Simulation

/-! ## The game -/

/-- A board plays the game that its session plays without it. Whatever happens, the game of the
board is the one that an update for each tick, and a click for each press on the surface, lead to;
if these fault, the board does. Images have no part in this: the game and the screen are the same
whichever of them are loaded, and when. After every screen frame the labels show the score and the
high score of the game, which the frame itself does not change. -/
theorem game_of_events [Store σ] {session : Session σ} {windows : List Window} {b : Board σ}
    (h : setup session windows = .ok b) (events : List Event) :
    ((b.run events).map view =
      (session.run ((Screen.start windows).calls events)).map fun r =>
        (r.2, (Screen.start windows).after events)) ∧
      (∀ others : List Event,
        (others.filter fun event => !event.isLoad) = (events.filter fun event => !event.isLoad) →
        (b.run others).map view = (b.run events).map view) ∧
      ∀ input before after, b.run events = .ok before → before.frame input = .ok after →
        after.scoreLabel = "Score: " ++ toString after.session.score ∧
          after.highScoreLabel = "High score: " ++ toString after.session.highScore ∧
          after.session.score = before.session.score ∧
          after.session.highScore = before.session.highScore := by
  obtain ⟨count, -, h⟩ := bind_eq_ok_iff.mp h
  obtain rfl := pure_eq_ok_iff.mp h
  refine ⟨map_view_run _ events, ?_, ?_⟩
  · intro others hothers
    rw [map_view_run, map_view_run, ← Screen.calls_filter_isLoad _ others, hothers,
      Screen.calls_filter_isLoad, ← Screen.after_filter_isLoad _ others, hothers,
      Screen.after_filter_isLoad]
  · intro input before after _ hframe
    exact labels_of_frame hframe

/-- A window that is twice as wide as it is high. -/
def wideWindow : Window := .ofPixels ⟨200, 100⟩

/-- In this window the short game is played with presses of the mouse and of a finger. On the way an
image is loaded, and for a while there is no window. -/
def shortEvents : List Event :=
  .frame { cursor := some ⟨.ofNat 60, .ofNat 10⟩, pressed := some .left } ::
    List.replicate 3 .tick ++
    [.load .red ⟨64, 64⟩, .windows [], .frame { touch := some ⟨.ofNat 140, .ofNat 10⟩ }] ++
    List.replicate 7 .tick

/-- The short game on a board ends as it does without one: the score is shown. -/
theorem game_of_events_shortEvents :
    ∃ b before after turns s, setup Session.shortGame [wideWindow] = .ok b ∧
      b.run shortEvents = .ok before ∧ before.frame {} = .ok after ∧
      Session.shortGame.run ((Screen.start [wideWindow]).calls shortEvents) = .ok (turns, s) ∧
      before.session = s ∧ after.scoreLabel = "Score: 1" := by
  obtain ⟨b, hsetup, hruns⟩ := exists_of_any_toOption
    (x := setup Session.shortGame [wideWindow])
    (fun b => (b.run shortEvents).toOption.any fun before =>
      (before.frame {}).toOption.any fun after => decide (after.session.score = 1))
    (by decide +kernel)
  obtain ⟨before, hbefore, hframes⟩ := exists_of_any_toOption _ hruns
  obtain ⟨after, hafter, hscore⟩ := exists_of_any_toOption _ hframes
  obtain ⟨hgame, -, hlabels⟩ := game_of_events hsetup shortEvents
  rw [hbefore] at hgame
  cases hplayed : Session.shortGame.run ((Screen.start [wideWindow]).calls shortEvents) with
  | error fault =>
    rw [hplayed] at hgame
    cases hgame
  | ok r =>
    rw [hplayed] at hgame
    have hsession : before.session = r.2 := congrArg Prod.fst (Except.ok.inj hgame)
    obtain ⟨hlabel, -⟩ := hlabels {} before after hbefore hafter
    rw [of_decide_eq_true hscore] at hlabel
    exact ⟨b, before, after, r.1, r.2, hsetup, hbefore, hafter, rfl, hsession, hlabel⟩

end Board

end OrbPuzzle
