import DoccrOS.Proof.Screen.Bounds

namespace DoccrOS.Screen
open Lib

/-- All screens are bounded, and the font scale is one that `set_font_scale` takes. -/
structure BootScreens.Bounded (g : Graphics) (count : ScreenId → Nat) (s : BootScreens) : Prop where
  consoles : ∀ screen, (s.console screen).Bounded g (count screen)
  scale : s.fontScale ≤ 4

/-- The access of a screen stays inside. -/
def InsideScreens (g : Graphics) (count : ScreenId → Nat) (entry : ScreenId × ScreenAccess) : Prop :=
  entry.2.Inside g (count entry.1)

section
variable {g : Graphics} {count : ScreenId → Nat} {s after : BootScreens} {body : Console → Painted Console} {font : Font}
  {screen : ScreenId}

/-- A change of one screen leaves the others in place. -/
theorem BootScreens.Bounded.update (bounded : s.Bounded g count) {con : Console} (changed : con.Bounded g (count screen)) :
    ({ s with consoles := Function.update s.consoles screen con, display := con.display } : BootScreens).Bounded g count := by
  refine ⟨fun other => ?_, bounded.scale⟩
  by_cases same : other = screen
  · rw [same, BootScreens.console]
    dsimp only
    rw [Function.update_self]
    exact changed
  · rw [BootScreens.console]
    dsimp only
    rw [Function.update_of_ne same]
    exact (bounded.consoles other).stays ⟨rfl, rfl, changed.display⟩

theorem BootScreens.Bounded.paint (bounded : s.Bounded g count)
    (painted : (body (s.console screen)).Safe (ScreenAccess.Inside g (count screen)) (Console.Bounded g (count screen))) :
    (s.paint screen body).Safe (InsideScreens g count) (BootScreens.Bounded g count) := by
  refine (painted.tag fun entry inside => ?_).bind fun con changed => Logged.Safe.pure (bounded.update changed)
  exact inside

theorem BootScreens.Bounded.paintNumbered (bounded : s.Bounded g count) (number : Int)
    (painted : ∀ screen, (body (s.console screen)).Safe (ScreenAccess.Inside g (count screen))
      (Console.Bounded g (count screen))) :
    (s.paintNumbered number body).Safe (InsideScreens g count) (BootScreens.Bounded g count) := by
  rw [BootScreens.paintNumbered]
  split
  · exact Logged.Safe.pure bounded
  · exact bounded.paint (painted _)

/-- The switch of the visibility and the backbuffer of `BS3` leave the frames of the screens. -/
theorem BootScreens.Bounded.replace (bounded : s.Bounded g count) {con : Console}
    (width : con.screen.width = (s.consoles screen).screen.width)
    (height : con.screen.height = (s.consoles screen).screen.height)
    (pixelCount : con.screen.pixelCount = (s.consoles screen).screen.pixelCount)
    (cursorX : con.screen.cursorX = (s.consoles screen).screen.cursorX)
    (cursorY : con.screen.cursorY = (s.consoles screen).screen.cursorY) (text : con.bufLen = (s.consoles screen).bufLen) :
    ({ s with consoles := Function.update s.consoles screen con } : BootScreens).Bounded g count := by
  refine ⟨fun other => ?_, bounded.scale⟩
  rw [BootScreens.console]
  dsimp only
  by_cases same : other = screen
  · have old := bounded.consoles screen
    rw [same, Function.update_self]
    refine ⟨⟨?_, ?_, ?_, ?_, ?_, ?_, old.display⟩, ?_, ?_⟩
    all_goals dsimp only
    · rw [width, height]
      exact old.area
    · rw [height]
      exact old.low
    · rw [width]
      exact old.narrow
    · rw [pixelCount]
      exact old.pixelCount
    · rw [width, height]
      exact old.isCount
    · rw [text]
      exact old.text
    · rw [cursorX, width]
      exact old.column
    · rw [cursorY, height]
      exact old.line
  · rw [Function.update_of_ne same]
    exact bounded.consoles other

/-- One call stays inside the bounds and keeps them. -/
theorem BootScreens.Bounded.call (usable : g.Usable) (bounded : s.Bounded g count) (font : Font) (op : ScreenOp) :
    (s.call font op).Safe (InsideScreens g count) (BootScreens.Bounded g count) := by
  cases op with
  | switchScreen screen =>
      refine Logged.Safe.pure ?_
      rw [bsSwitchScreen]
      split
      · exact bounded
      · exact ⟨bounded.consoles, bounded.scale⟩
  | screensVisible screen on =>
      refine Logged.Safe.pure ?_
      rw [bsScreensVisible]
      split
      · exact bounded
      · exact bounded.replace rfl rfl rfl rfl rfl rfl
  | putchar c color =>
      rw [BootScreens.call]
      exact bounded.paint (bsPutcharAccesses_safe usable (bounded.consoles s.active) bounded.scale font c color)
  | print str color =>
      rw [BootScreens.call]
      exact bounded.paint (bsPrintText_safe usable (bounded.consoles s.active) bounded.scale font str color)
  | putpixel x y color =>
      rw [BootScreens.call]
      exact bounded.paint (bsPutpixel_safe usable (bounded.consoles s.active) x.toNat y.toNat color)
  | clear screen =>
      exact bounded.paintNumbered screen fun screen => bsClear_safe usable (bounded.consoles screen)
  | flush screen =>
      refine bounded.paintNumbered screen fun screen => ?_
      have flushed := bsFlushAccesses_safe usable (bounded.consoles screen).toFramed
      exact ⟨flushed.only, fun after returned => (bounded.consoles screen).stays (flushed.returned after returned)⟩
  | setFontScale scale =>
      refine Logged.Safe.pure ?_
      rw [setFontScale]
      split
      · rename_i allowed
        exact ⟨bounded.consoles, allowed.2⟩
      · exact bounded
  | setBackbuffer phys =>
      refine Logged.Safe.pure ?_
      rw [setBackbuffer]
      split
      · exact bounded
      · exact bounded.replace rfl rfl rfl rfl rfl rfl

theorem BootScreens.Bounded.calls (usable : g.Usable) (bounded : s.Bounded g count) (font : Font) (ops : List ScreenOp) :
    (s.calls font ops).Safe (InsideScreens g count) (BootScreens.Bounded g count) :=
  Logged.Safe.foldlM bounded fun _ kept op _ => kept.call usable font op

/-- A screen that `bs_setup_screen` has set up. -/
theorem bsSetupScreen_eq (bs : Screens) (screen : ScreenId) (pixels : Pixels) (x y width height : Nat) :
    bsSetupScreen bs screen pixels x y width height = Function.update bs screen ⟨0, 0, x, y, width,
      (bsSizeClamp width height).2, pixels, wrap32 (width * (bsSizeClamp width height).2), 0⟩ := by
  simp only [bsSetupScreen, bsSizeClamp_width]

/-- The screens after `bs_init`. -/
def clearedScreens : Screens := fun _ => ⟨0, 0, 0, 0, 0, 0, .null, 0, 0⟩

/-- The number of words of a screen that the layout sets up. -/
def layoutCount (g : Graphics) (screen : ScreenId) : Nat := (bootscreenLayoutInit g clearedScreens screen).pixelCount

/-- A screen of clamped size with its cursor at the start is bounded. -/
theorem setup_bounded {con : Console} {x y width height : Nat} {pixels : Pixels} (small : width < 2 ^ 32)
    (small' : height < 2 ^ 32) (narrow : width ≤ g.fbWidth) (text : con.bufLen = 0) (display : con.display.Of g)
    (screen : con.screen = ⟨0, 0, x, y, width, (bsSizeClamp width height).2, pixels,
      wrap32 (width * (bsSizeClamp width height).2), 0⟩) : con.Bounded g con.screen.pixelCount ∧
      con.screen.pixelCount ≤ bsMaxPixels := by
  have area := bsSizeClamp_le small small'
  have most : bsMaxPixels < 2 ^ 32 := by decide
  have pixelCount : wrap32 (width * (bsSizeClamp width height).2) = width * (bsSizeClamp width height).2 :=
    Nat.mod_eq_of_lt (area.trans_lt most)
  have low : (bsSizeClamp width height).2 ≤ bsMaxPixels := by
    rcases Nat.eq_zero_or_pos width with zero | positive
    · rw [bsSizeClamp, if_pos zero]
      exact Nat.zero_le _
    · exact (Nat.le_mul_of_pos_left _ positive).trans area
  have empty : 0 < bsBufSize := by decide
  refine ⟨⟨⟨?_, ?_, ?_, rfl, ?_, text ▸ empty, display⟩, ?_, ?_⟩, ?_⟩ <;> rw [screen]
  · exact area
  · exact low
  · exact narrow
  · exact pixelCount
  · exact Nat.zero_le _
  · exact Nat.zero_le _
  · exact pixelCount.trans_le area

/-- The layout leaves bounded screens. -/
theorem layoutScreens_bounded (small : g.fbWidth < 2 ^ 32 ∧ g.fbHeight < 2 ^ 32) (framebuffer : Option (Nat → BitVec 32)) :
    (layoutScreens g framebuffer).Bounded g (layoutCount g) ∧ ∀ screen, layoutCount g screen ≤ bsMaxPixels := by
  have bounded (screen : ScreenId) : ((layoutScreens g framebuffer).console screen).Bounded g (layoutCount g screen) ∧
      layoutCount g screen ≤ bsMaxPixels := by
    have half : g.fbWidth / 2 < 2 ^ 32 := by omega
    have mid : g.fbHeight / 2 < 2 ^ 32 := by omega
    have rest : g.fbHeight - g.fbHeight / 2 < 2 ^ 32 := by omega
    have set : layoutCount g screen = ((layoutScreens g framebuffer).console screen).screen.pixelCount := rfl
    have layout : ((layoutScreens g framebuffer).console screen).screen = bootscreenLayoutInit g clearedScreens screen := rfl
    simp only [bootscreenLayoutInit, bsSetupScreen_eq] at layout
    rw [set]
    cases screen with
    | bs1 => exact setup_bounded half small.2 (Nat.div_le_self _ _) rfl ⟨rfl, rfl, rfl⟩ layout
    | bs2 => exact setup_bounded half mid (Nat.div_le_self _ _) rfl ⟨rfl, rfl, rfl⟩ layout
    | bs3 => exact setup_bounded small.1 small.2 le_rfl rfl ⟨rfl, rfl, rfl⟩ layout
    | bs4 => exact setup_bounded half rest (Nat.div_le_self _ _) rfl ⟨rfl, rfl, rfl⟩ layout
  exact ⟨⟨fun screen => (bounded screen).1, show 1 ≤ 4 by decide⟩, fun screen => (bounded screen).2⟩

/-- A function of a screen that returns, returns on the screens. -/
theorem paint_returns (s : BootScreens) (screen : ScreenId) {con : Console}
    (returns : (body (s.console screen)).result = .ok con) : ∃ after, (s.paint screen body).result = .ok after := by
  rw [BootScreens.paint, Logged.result_bind]
  exact ⟨_, congrArg (· >>= _) returns⟩

theorem paintNumbered_returns (s : BootScreens) (number : Int) (returns : ∀ con, ∃ after, (body con).result = .ok after) :
    ∃ after, (s.paintNumbered number body).result = .ok after := by
  rw [BootScreens.paintNumbered]
  split
  · exact ⟨s, rfl⟩
  · obtain ⟨con, returned⟩ := returns (s.console _)
    exact paint_returns s _ returned

theorem bsPutpixel_returns (con : Console) (x y : Nat) (color : BitVec 32) :
    ∃ after, (bsPutpixel con x y color).result = .ok after := by
  rw [bsPutpixel]
  split_ifs
  · exact ⟨con, rfl⟩
  · rw [Logged.result_bind, bsSetpixelAccesses_value, Result.ok_bind, Logged.result_bind, putpixelAccesses_value]
    exact ⟨_, rfl⟩

theorem bsClear_returns (con : Console) : ∃ after, (bsClear con).result = .ok after := by
  rw [bsClear, Logged.result_bind, bsClearAreaAccesses_value, Result.ok_bind, bsResetText]
  split
  · exact ⟨_, rfl⟩
  · exact ⟨_, rfl⟩

/-- Every call returns. -/
theorem call_returns (font : Font) (s : BootScreens) (op : ScreenOp) : ∃ after, (s.call font op).result = .ok after := by
  cases op with
  | switchScreen screen => exact ⟨_, rfl⟩
  | screensVisible screen on => exact ⟨_, rfl⟩
  | putchar c color => exact paint_returns s _ (bsPutcharAccesses_value font s.fontScale _ c color)
  | print str color =>
      exact paint_returns s _ (Logged.result_foldlM fun con c => bsPutcharAccesses_value font s.fontScale con c color)
  | putpixel x y color =>
      obtain ⟨con, returned⟩ := bsPutpixel_returns (s.console s.active) x.toNat y.toNat color
      exact paint_returns s _ returned
  | clear screen => exact paintNumbered_returns s screen bsClear_returns
  | flush screen => exact paintNumbered_returns s screen fun con => ⟨_, bsFlushRectAccesses_value con _ _ _ _⟩
  | setFontScale scale => exact ⟨_, rfl⟩
  | setBackbuffer phys => exact ⟨_, rfl⟩

theorem calls_returns (font : Font) (s : BootScreens) (ops : List ScreenOp) :
    ∃ after, (s.calls font ops).result = .ok after := by
  induction ops generalizing s with
  | nil => exact ⟨s, rfl⟩
  | cons op ops inductionHypothesis =>
      obtain ⟨middle, called⟩ := call_returns font s op
      obtain ⟨after, returned⟩ := inductionHypothesis middle
      refine ⟨after, ?_⟩
      rw [BootScreens.calls, List.foldlM_cons, Logged.result_bind, called]
      exact returned

end

/-- Every call of the screens after their set-up stays inside the arrays of the screens, the rows of the framebuffer and the
texts, and it returns. -/
theorem screens_in_bounds {limine : LimineFramebuffer} {g : Graphics} (font : Font)
    (framebuffer : Option (Nat → BitVec 32)) (ops : List ScreenOp) (isSet : g = graphicsInit limine)
    (whole : 4 ∣ g.fbPitch) (rows : 4 * g.fbWidth ≤ g.fbPitch) (total : g.fbPitch * g.fbHeight < 2 ^ 32) :
    (∀ screen, layoutCount g screen ≤ bsMaxPixels) ∧
    ((layoutScreens g framebuffer).calls font ops).Only (InsideScreens g (layoutCount g)) ∧
    ∃ after, ((layoutScreens g framebuffer).calls font ops).result = .ok after ∧
      ∀ screen, (after.consoles screen).screen.pixelCount = layoutCount g screen := by
  have small : g.fbPitch < 2 ^ 32 := by
    rw [isSet]
    exact Nat.mod_lt _ (by decide)
  have sizes : g.fbWidth < 2 ^ 32 ∧ g.fbHeight < 2 ^ 32 := by
    rw [isSet]
    exact graphicsInit_small limine
  obtain ⟨start, limits⟩ := layoutScreens_bounded sizes framebuffer
  have safe := start.calls ⟨whole, rows, total, small⟩ font ops
  obtain ⟨after, returned⟩ := calls_returns font (layoutScreens g framebuffer) ops
  exact ⟨limits, safe.only, after, returned, fun screen => ((safe.returned after returned).consoles screen).pixelCount⟩

/-- A text with a change of the font scale on the screen that is the whole display. -/
theorem screens_in_bounds_small : ((layoutScreens (graphicsInit ⟨64, 48, 256, 32⟩) (some fun _ => 0)).calls (fun _ _ => 0xFF)
      [.setBackbuffer 4096, .switchScreen 2, .print [0x41, 0x42, 0x0A] 0xFFFFFFFF, .setFontScale 4, .putchar 0x43 0xFFFFFFFF,
        .clear 7, .flush 2]).Only
    (InsideScreens (graphicsInit ⟨64, 48, 256, 32⟩) (layoutCount (graphicsInit ⟨64, 48, 256, 32⟩))) :=
  (screens_in_bounds (fun _ _ => 0xFF) (some fun _ => 0) _ rfl (by decide) (by decide) (by decide)).2.1

end DoccrOS.Screen
