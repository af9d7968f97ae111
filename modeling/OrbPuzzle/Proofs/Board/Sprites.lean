import Mathlib.Data.List.Induction
import OrbPuzzle.Proofs.Board.Headless

/-!
# Sprites follow what was painted

Images are painted when the clock ticks, and sprites are moved when the screen is drawn. In between
images are loaded and loaded again, and windows come and go. Still, after a screen frame in a single
window, the sprites that are visible are those of the images that were painted.

A sprite is hidden if the size of its image is not known, so this rests on an invariant: every image
that was painted has a known size (`Tracks.known`). It holds because only orbs whose image size is
known are painted, and because a size that is known stays known. Where sizes come from is told by
`Noted`, in terms of the events alone.
-/

namespace OrbPuzzle

namespace Board

variable {σ : Type}

/-! ## Images in the course of events -/

/-- The size of the image that an event loads for a colour. -/
def Event.loads? (color : Color) : Event → Option Extent
  | .load other size => if other = color then some size else none
  | .windows _ | .tick | .frame _ => none

/-- The size of a colour's image after events: that of the image loaded last. -/
def loaded? (color : Color) (events : List Event) : Option Extent :=
  (events.filterMap (Event.loads? color)).getLast?

/-- No screen frame found an image of this colour loaded. -/
def NeverSeen (color : Color) (events : List Event) : Prop :=
  ∀ earlier input later, events = earlier ++ .frame input :: later → loaded? color earlier = none

/-- The first screen frame that found an image of this colour loaded found one of this size. -/
def FirstSeen (color : Color) (events : List Event) (size : Extent) : Prop :=
  ∃ earlier input later, events = earlier ++ .frame input :: later ∧
    loaded? color earlier = some size ∧ NeverSeen color earlier

/-- What is known of the size of a colour's image after events: nothing, if no screen frame found it
loaded, and otherwise the size it had in the first that did. -/
def Noted (color : Color) (events : List Event) : Option Point → Prop
  | none => NeverSeen color events
  | some point => ∃ size, FirstSeen color events size ∧ point = size.toPoint

theorem loaded?_concat (color : Color) (events : List Event) (event : Event) :
    loaded? color (events ++ [event]) = (event.loads? color).or (loaded? color events) := by
  unfold loaded?
  rw [List.filterMap_append, List.getLast?_append]
  cases hloads : event.loads? color with
  | none => simp [hloads]
  | some size => simp [hloads]

theorem neverSeen_nil (color : Color) : NeverSeen color [] := by
  intro earlier input later h
  simp at h

/-- An event that is no screen frame sees nothing, and a screen frame sees what is loaded. -/
theorem NeverSeen.concat {color : Color} {events : List Event} {event : Event}
    (h : NeverSeen color events)
    (hevent : ∀ input, event = .frame input → loaded? color events = none) :
    NeverSeen color (events ++ [event]) := by
  intro earlier input later hsplit
  rcases List.eq_nil_or_concat later with rfl | ⟨before, last, rfl⟩
  · -- the frame is the event itself
    obtain ⟨rfl, hlast⟩ := List.append_inj' hsplit rfl
    exact hevent input (List.singleton_inj.mp hlast)
  · rw [List.concat_eq_append, ← List.cons_append, ← List.append_assoc] at hsplit
    obtain ⟨rfl, -⟩ := List.append_inj' hsplit rfl
    exact h earlier input before rfl

theorem FirstSeen.append {color : Color} {events : List Event} {size : Extent}
    (h : FirstSeen color events size) (more : List Event) :
    FirstSeen color (events ++ more) size := by
  obtain ⟨earlier, input, later, rfl, hloaded, hnever⟩ := h
  refine ⟨earlier, input, later ++ more, ?_, hloaded, hnever⟩
  rw [List.append_assoc, List.cons_append]

theorem Noted.concat_of_ne_frame {color : Color} {events : List Event} {event : Event}
    {known : Option Point} (h : Noted color events known) (hevent : ∀ input, event ≠ .frame input) :
    Noted color (events ++ [event]) known := by
  cases known with
  | none => exact NeverSeen.concat h fun input heq => absurd heq (hevent input)
  | some point =>
    obtain ⟨size, hsize, hpoint⟩ := h
    exact ⟨size, hsize.append _, hpoint⟩

/-- A screen frame notes the size of an image that is loaded, unless a size was known before. -/
theorem Noted.concat_frame {color : Color} {events : List Event} {known : Option Point}
    (h : Noted color events known) (input : Input) :
    Noted color (events ++ [.frame input]) (known.or ((loaded? color events).map (·.toPoint))) := by
  cases known with
  | none =>
    cases hloaded : loaded? color events with
    | none => exact NeverSeen.concat h fun _ _ => hloaded
    | some size => exact ⟨size, ⟨events, input, [], rfl, hloaded, h⟩, rfl⟩
  | some point =>
    obtain ⟨size, hsize, hpoint⟩ := h
    exact ⟨size, hsize.append _, hpoint⟩

/-! ## What an event does -/

/-- A tick paints a board on the surface. -/
theorem tick_eq_ok [Store σ] {b after : Board σ} (h : b.tick = .ok after) :
    ∃ session g, after = { b with session, surface := Surface.paintGrid b.surface g } := by
  obtain ⟨⟨session, surface⟩, hframe, h⟩ := bind_eq_ok_iff.mp h
  obtain rfl := pure_eq_ok_iff.mp h
  obtain ⟨stepped, -, hframe⟩ := bind_eq_ok_iff.mp hframe
  obtain ⟨advanced, -, hframe⟩ := bind_eq_ok_iff.mp hframe
  obtain ⟨rfl, rfl⟩ := Prod.mk.inj (pure_eq_ok_iff.mp hframe)
  exact ⟨_, stepped.grid, rfl⟩

/-- A press changes the game only. -/
theorem handlePress_eq_ok {b after : Board σ} {input : Input}
    (h : b.handlePress input = .ok after) : ∃ session, after = { b with session } := by
  unfold handlePress at h
  split at h
  · cases h
    exact ⟨b.session, rfl⟩
  · obtain ⟨reply, -, h⟩ := bind_eq_ok_iff.mp h
    obtain rfl := pure_eq_ok_iff.mp h
    exact ⟨reply.state, rfl⟩

theorem updateLayout_eq (b : Board σ) :
    b.updateLayout = { b with surface.layout := match b.window? with
      | none => b.surface.layout
      | some window => .fit window.width window.height } := by
  unfold updateLayout
  cases b.window? with
  | none => rfl
  | some window => rfl

theorem placeSprites_eq (b : Board σ) :
    b.placeSprites = { b with sprites := match b.window? with
      | none => b.sprites
      | some window => b.sprites.mapIdx (placeSprite b.surface window) } := by
  unfold placeSprites
  cases b.window? with
  | none => rfl
  | some window => rfl

theorem imageSize_noteImageSizes (b : Board σ) (color : Color) :
    b.noteImageSizes.surface.imageSizes.get color =
      (b.surface.imageSizes.get color).or ((b.images.get color).map (·.toPoint)) := by
  rw [noteImageSizes, Palette.get_zipWith]
  exact Option.or_eq_orElse.symm

/-- What a screen frame does to the surface and the sprites. -/
structure Framed (b after : Board σ) : Prop where
  images_eq : after.images = b.images
  draws_eq : after.surface.draws = b.surface.draws
  imageSize_eq : ∀ color, after.surface.imageSizes.get color =
    (b.surface.imageSizes.get color).or ((b.images.get color).map (·.toPoint))
  layout_eq : after.surface.layout = match b.window? with
    | none => b.surface.layout
    | some window => .fit window.width window.height
  sprites_eq : after.sprites = match b.window? with
    | none => b.sprites
    | some window => b.sprites.mapIdx (placeSprite after.surface window)

theorem framed_of_frame {b after : Board σ} {input : Input} (h : b.frame input = .ok after) :
    Framed b after := by
  obtain ⟨pressed, hpressed, h⟩ := bind_eq_ok_iff.mp h
  obtain rfl := pure_eq_ok_iff.mp h
  obtain ⟨session, rfl⟩ := handlePress_eq_ok hpressed
  rw [placeSprites_eq, updateLayout_eq]
  exact ⟨rfl, rfl, imageSize_noteImageSizes _, rfl, rfl⟩

/-! ## What is known after events -/

/-- What a board has recorded after events. -/
structure Tracks (events : List Event) (b : Board σ) : Prop where
  loaded : ∀ color, b.images.get color = loaded? color events
  noted : ∀ color, Noted color events (b.surface.imageSizes.get color)
  /-- Every image that was painted has a known size. -/
  known : ∀ draw ∈ b.surface.draws, (b.surface.imageSizes.get draw.color).isSome

theorem Tracks.loadImage {events : List Event} {b : Board σ} (h : Tracks events b) (color : Color)
    (size : Extent) : Tracks (events ++ [.load color size]) (b.loadImage color size) where
  loaded := by
    intro other
    rw [loaded?_concat, ← h.loaded, Event.loads?, Board.loadImage]
    by_cases heq : color = other
    · subst heq
      rw [Palette.get_set_self, if_pos rfl, Option.some_or]
    · rw [Palette.get_set_of_ne _ _ (Ne.symm heq), if_neg heq, Option.none_or]
  noted := fun other => (h.noted other).concat_of_ne_frame (by simp)
  known := h.known

/-- Only orbs whose image size is known are painted. -/
theorem isSome_imageSize_of_mem_draws {s : SpriteSurface} {g : Grid} {draw : SpriteDraw}
    (h : draw ∈ (Surface.paintGrid s g).draws) : (s.imageSizes.get draw.color).isSome := by
  rw [SpriteSurface.paintGrid_eq, Array.mem_filterMap] at h
  obtain ⟨tile, -, hsprite⟩ := h
  obtain ⟨imageSize, hsize, hsprite⟩ := Option.bind_eq_some_iff.mp hsprite
  split at hsprite
  · cases hsprite
  · cases hsprite
    exact Option.isSome_of_eq_some hsize

theorem Tracks.tick [Store σ] {events : List Event} {b after : Board σ} (h : Tracks events b)
    (htick : b.tick = .ok after) : Tracks (events ++ [.tick]) after := by
  obtain ⟨session, g, rfl⟩ := tick_eq_ok htick
  have hsizes : (Surface.paintGrid b.surface g).imageSizes = b.surface.imageSizes := by
    rw [SpriteSurface.paintGrid_eq]
  refine ⟨?_, ?_, ?_⟩
  · intro color
    rw [loaded?_concat, ← h.loaded]
    rfl
  · intro color
    show Noted color _ ((Surface.paintGrid b.surface g).imageSizes.get color)
    rw [hsizes]
    exact (h.noted color).concat_of_ne_frame (by simp)
  · -- a new frame has none of the images painted before, so `h.known` has no part in this
    intro draw hdraw
    show ((Surface.paintGrid b.surface g).imageSizes.get draw.color).isSome
    rw [hsizes]
    exact isSome_imageSize_of_mem_draws hdraw

theorem Tracks.frame {events : List Event} {b after : Board σ} {input : Input}
    (h : Tracks events b) (hframe : b.frame input = .ok after) :
    Tracks (events ++ [.frame input]) after := by
  obtain ⟨himages, hdraws, hsizes, -, -⟩ := framed_of_frame hframe
  refine ⟨?_, ?_, ?_⟩
  · intro color
    rw [loaded?_concat, himages, h.loaded]
    rfl
  · intro color
    rw [hsizes, h.loaded]
    exact (h.noted color).concat_frame input
  · -- nothing is painted, and a size that was known is still there
    intro draw hdraw
    rw [hdraws] at hdraw
    rw [hsizes, Option.isSome_or, h.known draw hdraw, Bool.true_or]

theorem Tracks.handle [Store σ] {events : List Event} {b after : Board σ} {event : Event}
    (h : Tracks events b) (hevent : b.handle event = .ok after) :
    Tracks (events ++ [event]) after := by
  cases event with
  | windows windows =>
    cases hevent
    refine ⟨?_, fun color => (h.noted color).concat_of_ne_frame (by simp), h.known⟩
    intro color
    rw [loaded?_concat, ← h.loaded]
    rfl
  | load color size =>
    cases hevent
    exact h.loadImage color size
  | tick => exact h.tick hevent
  | frame input => exact h.frame hevent

/-! ## Runs -/

section Runs

variable [Store σ]

/-- What holds of a board before any event, and is kept by each event, holds after every run. -/
theorem run_induction {motive : List Event → Board σ → Prop} {b final : Board σ}
    {events : List Event} (start : motive [] b)
    (next : ∀ events before event after, motive events before → before.handle event = .ok after →
      motive (events ++ [event]) after)
    (h : b.run events = .ok final) : motive events final := by
  -- from the end: `motive` speaks of all events so far, which grow there
  induction events using List.reverseRecOn generalizing final with
  | nil =>
    cases h
    exact start
  | append_singleton earlier event ih =>
    rw [run, List.foldlM_append] at h
    obtain ⟨before, hbefore, hevent⟩ := bind_eq_ok_iff.mp h
    obtain ⟨after, hafter, hevent⟩ := bind_eq_ok_iff.mp hevent
    obtain rfl := pure_eq_ok_iff.mp hevent
    exact next earlier before event after (ih hbefore) hafter

/-- No event makes or removes a sprite. -/
theorem size_sprites_of_handle {b after : Board σ} {event : Event}
    (h : b.handle event = .ok after) : after.sprites.size = b.sprites.size := by
  cases event with
  | windows windows | load color size =>
    cases h
    rfl
  | tick =>
    obtain ⟨session, g, rfl⟩ := tick_eq_ok h
    rfl
  | frame input =>
    rw [(framed_of_frame h).sprites_eq]
    split
    · rfl
    · exact Array.size_mapIdx

/-- A size that is known is never changed. -/
theorem imageSize_of_handle {b after : Board σ} {event : Event} {color : Color} {size : Point}
    (h : b.handle event = .ok after) (hsize : b.surface.imageSizes.get color = some size) :
    after.surface.imageSizes.get color = some size := by
  cases event with
  | windows windows | load color size =>
    cases h
    exact hsize
  | tick =>
    obtain ⟨session, g, rfl⟩ := tick_eq_ok h
    show (Surface.paintGrid b.surface g).imageSizes.get color = some size
    rw [SpriteSurface.paintGrid_eq]
    exact hsize
  | frame input => rw [(framed_of_frame h).imageSize_eq, hsize, Option.some_or]

theorem tracks_of_run {session : Session σ} {windows : List Window} {b final : Board σ}
    {events : List Event} (hsetup : setup session windows = .ok b)
    (h : b.run events = .ok final) :
    Tracks events final ∧ final.sprites.size = session.rules.gridSize * session.rules.gridSize := by
  obtain ⟨count, hcount, hsetup⟩ := bind_eq_ok_iff.mp hsetup
  obtain rfl := pure_eq_ok_iff.mp hsetup
  refine run_induction (motive := fun events b => Tracks events b ∧ b.sprites.size = _) ?_ ?_ h
  · refine ⟨⟨?_, ?_, ?_⟩, ?_⟩
    · intro color
      cases color <;> rfl
    · intro color
      cases color <;> exact neverSeen_nil _
    · intro draw hdraw
      exact absurd hdraw (Array.not_mem_empty draw)
    · rw [Array.size_replicate]
      exact (Count.mul_eq_ok_iff.mp hcount).1.symm
  · rintro events before event after ⟨htracks, hsize⟩ hevent
    exact ⟨htracks.handle hevent, (size_sprites_of_handle hevent).trans hsize⟩

end Runs

/-! ## Sprites -/

section Placing

variable {surface : SpriteSurface} {window : Window} {i : Nat}

theorem placeSprite_of_draw {draw : SpriteDraw} {imageSize : Point}
    (hdraw : surface.draws[i]? = some draw)
    (hsize : surface.imageSizes.get draw.color = some imageSize) (sprite : Sprite) :
    placeSprite surface window i sprite =
      { visible := true
        image := draw.color
        position := surface.layout.toWorld (draw.center imageSize) window.size
        depth := .ofNat i * depthStep
        scale := draw.scale } := by
  simp [placeSprite, hdraw, hsize]

theorem placeSprite_of_le (h : surface.draws.size ≤ i) (sprite : Sprite) :
    placeSprite surface window i sprite = { sprite with visible := false } := by
  simp [placeSprite, Array.getElem?_eq_none h]

end Placing

/-- If the elements of a list that pass a test are those in front of a place, their number is that
place, or all there are. -/
theorem countP_eq_min {α : Type} {test : α → Bool} {xs : List α} {n : Nat}
    (h : ∀ i x, xs[i]? = some x → (test x = true ↔ i < n)) :
    xs.countP test = min n xs.length := by
  have hfront : (xs.take n).countP test = (xs.take n).length := by
    rw [List.countP_eq_length]
    intro x hx
    obtain ⟨i, hi⟩ := List.mem_iff_getElem?.mp hx
    rw [List.getElem?_take] at hi
    split at hi
    · exact (h i x hi).mpr ‹_›
    · cases hi
  have hback : (xs.drop n).countP test = 0 := by
    rw [List.countP_eq_zero]
    intro x hx
    obtain ⟨i, hi⟩ := List.mem_iff_getElem?.mp hx
    rw [List.getElem?_drop] at hi
    rw [h _ x hi]
    omega
  calc xs.countP test
    _ = (xs.take n ++ xs.drop n).countP test := by rw [List.take_append_drop]
    _ = min n xs.length := by rw [List.countP_append, hfront, hback, List.length_take, Nat.add_zero]

/-- How the sprites stand after a screen frame in a window. -/
structure SpritesFollow (before after : Board σ) (window : Window) : Prop where
  layout_eq : after.surface.layout = .fit window.width window.height
  visible_iff : ∀ i sprite, after.sprites[i]? = some sprite →
    (sprite.visible = true ↔ i < after.surface.draws.size)
  /-- A sprite with an image stands where the image was painted. -/
  shown : ∀ i (sprite : Sprite) (draw : SpriteDraw),
    after.sprites[i]? = some sprite → after.surface.draws[i]? = some draw →
    ∃ imageSize, after.surface.imageSizes.get draw.color = some imageSize ∧ sprite = {
      visible := true
      image := draw.color
      position := after.surface.layout.toWorld (draw.center imageSize) window.size
      depth := .ofNat i * depthStep
      scale := draw.scale }
  /-- A sprite without an image stays as it was, but hidden. -/
  kept : ∀ i sprite, before.sprites[i]? = some sprite → after.surface.draws.size ≤ i →
    after.sprites[i]? = some { sprite with visible := false }

theorem spritesFollow_of_framed {b after : Board σ} {window : Window} (h : Framed b after)
    (hwindow : b.windows = [window])
    (hknown : ∀ draw ∈ after.surface.draws, (after.surface.imageSizes.get draw.color).isSome) :
    SpritesFollow b after window := by
  have hwindow : b.window? = some window := by rw [window?, hwindow]
  have hlayout := h.layout_eq
  have hsprites := h.sprites_eq
  rw [hwindow] at hlayout hsprites
  have hget (i : Nat) :
      after.sprites[i]? = b.sprites[i]?.map (placeSprite after.surface window i) := by
    rw [hsprites, Array.getElem?_mapIdx]
  refine ⟨hlayout, ?_, ?_, ?_⟩
  · intro i sprite hsprite
    obtain ⟨old, -, rfl⟩ := Option.map_eq_some_iff.mp ((hget i).symm.trans hsprite)
    by_cases hi : i < after.surface.draws.size
    · -- without `hknown` the sprite could be hidden here, for want of a size
      have hdraw := Array.getElem?_eq_getElem hi
      obtain ⟨imageSize, hsize⟩ := Option.isSome_iff_exists.mp (hknown _ (Array.getElem_mem hi))
      rw [placeSprite_of_draw hdraw hsize]
      exact ⟨fun _ => hi, fun _ => rfl⟩
    · rw [placeSprite_of_le (Nat.le_of_not_lt hi)]
      exact ⟨fun h => absurd h Bool.false_ne_true, fun h => absurd h hi⟩
  · intro i sprite draw hsprite hdraw
    obtain ⟨old, -, rfl⟩ := Option.map_eq_some_iff.mp ((hget i).symm.trans hsprite)
    obtain ⟨imageSize, hsize⟩ :=
      Option.isSome_iff_exists.mp (hknown draw (Array.mem_of_getElem? hdraw))
    exact ⟨imageSize, hsize, placeSprite_of_draw hdraw hsize old⟩
  · intro i sprite hsprite hi
    rw [hget, hsprite, Option.map_some, placeSprite_of_le hi]

/-- After a screen frame in a single window, a sprite is visible exactly if there is an image of its
number, so as many are visible as there are images and sprites for them. A visible sprite shows the
image of its draw, at the place and in the size it was painted; any other stays where it was. After
a screen frame without a window, or with several, all sprites and the layout are as before. The size
that is known of an image is the one it had in the first screen frame that found it loaded, and
never changes. -/
theorem sprites_of_events [Store σ] {session : Session σ} {windows : List Window}
    {b before : Board σ} {events : List Event}
    (hsetup : setup session windows = .ok b) (hrun : b.run events = .ok before) :
    (∀ input after, before.frame input = .ok after →
      (∀ window, before.windows = [window] →
        SpritesFollow before after window ∧
          after.sprites.countP (·.visible) =
            min after.surface.draws.size (session.rules.gridSize * session.rules.gridSize)) ∧
      (before.windows.length ≠ 1 →
        after.sprites = before.sprites ∧ after.surface.layout = before.surface.layout)) ∧
    (∀ color, Noted color events (before.surface.imageSizes.get color)) ∧
    ∀ more final, before.run more = .ok final → ∀ color size,
      before.surface.imageSizes.get color = some size →
      final.surface.imageSizes.get color = some size := by
  obtain ⟨htracks, hcount⟩ := tracks_of_run hsetup hrun
  refine ⟨?_, htracks.noted, ?_⟩
  · intro input after hframe
    have hframed := framed_of_frame hframe
    refine ⟨?_, ?_⟩
    · intro window hwindow
      have hfollow := spritesFollow_of_framed hframed hwindow (htracks.frame hframe).known
      have hhandle : before.handle (.frame input) = .ok after := hframe
      have hsize : after.sprites.size = before.sprites.size := size_sprites_of_handle hhandle
      refine ⟨hfollow, ?_⟩
      rw [← Array.countP_toList, ← hcount, ← hsize]
      refine countP_eq_min fun i sprite hsprite => hfollow.visible_iff i sprite ?_
      rw [← hsprite, Array.getElem?_toList]
    · intro hwindows
      have hwindow : before.window? = none := by
        unfold window?
        split
        · next hone => exact absurd (congrArg List.length hone) hwindows
        · rfl
      have hlayout := hframed.layout_eq
      have hsprites := hframed.sprites_eq
      rw [hwindow] at hlayout hsprites
      exact ⟨hsprites, hlayout⟩
  · intro more final hmore color size hsize
    refine run_induction (motive := fun _ b => b.surface.imageSizes.get color = some size)
      hsize ?_ hmore
    intro _ _ _ _ hbefore hevent
    exact imageSize_of_handle hevent hbefore

/-- A window of 401 by 201 pixels on a screen with two pixels, in either direction, for each logical
one. -/
def denseWindow : Window := ⟨.ofFraction 401 2, .ofFraction 201 2⟩

/-- The red image is loaded, seen and painted, and replaced by a smaller one while there is no
window. The blue image is loaded too late to be seen. -/
def replacingEvents : List Event :=
  [.load .red ⟨64, 64⟩, .frame {}, .tick, .load .red ⟨32, 32⟩, .windows [], .frame {},
    .windows [denseWindow], .load .blue ⟨64, 64⟩]

/-- In the next frame the two red orbs are shown, and the size of the red image is still the first
one. -/
theorem sprites_of_events_replacingEvents :
    ∃ b before after, setup Session.shortGame [denseWindow] = .ok b ∧
      b.run replacingEvents = .ok before ∧ before.windows = [denseWindow] ∧
      before.frame {} = .ok after ∧ after.sprites.countP (·.visible) = 2 ∧
      before.surface.imageSizes.get .red = some (Extent.toPoint ⟨64, 64⟩) ∧
      (∃ size, FirstSeen .red replacingEvents size ∧
        Extent.toPoint ⟨64, 64⟩ = size.toPoint) ∧
      NeverSeen .blue replacingEvents := by
  obtain ⟨b, hsetup, hruns⟩ := exists_of_any_toOption
    (x := setup Session.shortGame [denseWindow])
    (fun b => (b.run replacingEvents).toOption.any fun (before : Board MemoryStore) =>
      decide (before.windows = [denseWindow] ∧ before.surface.imageSizes.get .blue = none ∧
        before.surface.imageSizes.get .red = some (Extent.toPoint ⟨64, 64⟩)) &&
      (before.frame {}).toOption.any fun (after : Board MemoryStore) =>
        decide (after.surface.draws.size = 2))
    (by decide +kernel)
  obtain ⟨before, hrun, hbefore⟩ := exists_of_any_toOption _ hruns
  obtain ⟨hbefore, hframes⟩ := Bool.and_eq_true_iff.mp hbefore
  obtain ⟨hwindows, hblue, hred⟩ := of_decide_eq_true hbefore
  obtain ⟨after, hframe, hdraws⟩ := exists_of_any_toOption _ hframes
  obtain ⟨hsprites, hnoted, -⟩ := sprites_of_events hsetup hrun
  obtain ⟨-, hcount⟩ := (hsprites {} after hframe).1 _ hwindows
  rw [of_decide_eq_true hdraws] at hcount
  refine ⟨b, before, after, hsetup, hrun, hwindows, hframe, hcount, hred, ?_, ?_⟩
  · have hseen := hnoted .red
    rw [hred] at hseen
    exact hseen
  · have hnever := hnoted .blue
    rw [hblue] at hnever
    exact hnever

end Board

end OrbPuzzle
