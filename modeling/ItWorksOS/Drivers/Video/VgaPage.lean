import ItWorksOS.Drivers.Video.VgaText

/-!
# The page behind the VGA console

Text goes to a page with unboundedly many rows, of which the screen shows the last 25. Scrolling
copies the rows of the screen in place, from the top downwards.
-/

namespace ItWorksOS

/-! ## The page -/

/-- A page of 80 columns with a position for the next character. -/
structure Page where
  cell : ℕ → ℕ → UInt16
  row : ℕ
  col : ℕ

namespace Page

/-- A blank page. -/
def empty : Page where
  cell := fun _ _ => vgaCellClear
  row := 0
  col := 0

/-- The effect of a character, before the end of a row is noticed. -/
def char (page : Page) (c : UInt8) : Page :=
  if c = charCode '\n' then { page with row := page.row + 1, col := 0 }
  else if c = charCode '\r' then { page with col := 0 }
  else if c = charCode '\t' then { page with col := (page.col / 4 + 1) * 4 }
  else
    { page with
      cell := fun row col =>
        if row = page.row ∧ col = page.col then vgaCellPlain c else page.cell row col
      col := page.col + 1 }

/-- Behind column 79 the next row starts. -/
def wrap (page : Page) : Page :=
  if 80 ≤ page.col then { page with row := page.row + 1, col := 0 } else page

/-- Put a character. -/
def put (page : Page) (c : UInt8) : Page := (page.char c).wrap

/-- The first row that a screen of 25 rows shows. -/
def top (page : Page) : ℕ := page.row - 24

/-- The rows behind a row are blank. -/
def BlankAfter (page : Page) (row : ℕ) : Prop :=
  ∀ later, row < later → ∀ col, page.cell later col = vgaCellClear

variable {page : Page}

theorem char_blankAfter (blank : page.BlankAfter page.row) (c : UInt8) :
    (page.char c).BlankAfter page.row := by
  intro later after col
  rw [char]
  split_ifs
  · exact blank later after col
  · exact blank later after col
  · exact blank later after col
  · exact (if_neg fun at_cell => by omega).trans (blank later after col)

theorem put_blankAfter (blank : page.BlankAfter page.row) (c : UInt8) :
    (page.put c).BlankAfter page.row := by
  rw [put, wrap]
  split_ifs
  · exact char_blankAfter blank c
  · exact char_blankAfter blank c

/-- A character ends in its row or in the next one. -/
theorem put_row (col_lt : page.col < 80) (c : UInt8) :
    page.row ≤ (page.put c).row ∧ (page.put c).row ≤ page.row + 1 ∧ (page.put c).col < 80 := by
  rw [put, wrap, char]
  split_ifs with newline wraps carriage wraps tab wraps wraps
  all_goals simp only at *
  all_goals omega

end Page

/-! ## The hardware cursor -/

/-- The CRT controller: the selected register, and all registers. -/
structure Crtc where
  index : ℕ
  registers : ℕ → ℕ

/-- A port write: the index port selects a register, and the data port writes it. -/
def Crtc.write (portBase : ℕ) (crtc : Crtc) (access : ℕ × ℕ) : Crtc :=
  if access.1 = portBase then { crtc with index := access.2 }
  else if access.1 = portBase + 1 then
    { crtc with registers := Function.update crtc.registers crtc.index access.2 }
  else crtc

/-- Cursor location, from the registers for its high and its low byte. -/
def Crtc.cursor (crtc : Crtc) : ℕ := crtc.registers 0x0E * 256 + crtc.registers 0x0F

/-- The controller after the port writes of the driver. -/
def VgaText.crtc (dev : VgaText) (crtc : Crtc) : Crtc :=
  dev.ports.foldr (fun access crtc => crtc.write dev.portBase access) crtc

section Loops

variable {dev : VgaText}

/-- The cursor that the driver sets is the one of the controller. -/
theorem vgaTextUpdateCursor_cursor (width : dev.width = 80) (cursorX : dev.cursorX < 80)
    (cursorY : dev.cursorY < 25) (crtc : Crtc) :
    ((vgaTextUpdateCursor dev).crtc crtc).cursor = dev.cursorY * 80 + dev.cursorX := by
  have position := VgaText.index_eq width cursorX cursorY
  simp [vgaTextUpdateCursor, VgaText.setRegister, VgaText.crtc, Crtc.write, Crtc.cursor, position]
  omega

/-! ## Loops over cells -/

/-- Only cells have changed, to the given ones. -/
def VgaText.Redrawn (before after : VgaText) (cells : ℕ → UInt16) : Prop :=
  ∃ accessed, after = { before with buffer := cells, accessed := accessed }

theorem VgaText.Redrawn.store {after : VgaText} {cells : ℕ → UInt16}
    (redrawn : dev.Redrawn after cells) (index : ℕ) (cell : UInt16) :
    dev.Redrawn (after.store index cell) (Function.update cells index cell) := by
  obtain ⟨accessed, rfl⟩ := redrawn
  exact ⟨index :: accessed, rfl⟩

theorem VgaText.Redrawn.copy {after : VgaText} {cells : ℕ → UInt16}
    (redrawn : dev.Redrawn after cells) (target source : ℕ) :
    dev.Redrawn (after.copy target source) (Function.update cells target (cells source)) := by
  obtain ⟨accessed, rfl⟩ := redrawn
  exact ⟨target :: source :: accessed, rfl⟩

theorem VgaText.Redrawn.congr {after : VgaText} {cells cells' : ℕ → UInt16}
    (redrawn : dev.Redrawn after cells) (same : ∀ i, cells i = cells' i) :
    dev.Redrawn after cells' :=
  funext same ▸ redrawn

theorem VgaText.Redrawn.width {after : VgaText} {cells : ℕ → UInt16}
    (redrawn : dev.Redrawn after cells) : after.width = dev.width := by
  obtain ⟨accessed, rfl⟩ := redrawn
  rfl

/-- The inner loop moves the cells of a row up. -/
theorem copyRow_redrawn (width : dev.width = 80) {after : VgaText} {cells : ℕ → UInt16}
    (redrawn : dev.Redrawn after cells) {y n : ℕ} (y_pos : 0 < y) (y_lt : y < 25) (n_le : n ≤ 80) :
    dev.Redrawn ((List.range n).foldl (fun dev x =>
        dev.copy (dev.index x (Word32.sub y 1)) (dev.index x y)) after)
      fun i => if (y - 1) * 80 ≤ i ∧ i < (y - 1) * 80 + n then cells (i + 80) else cells i := by
  induction n with
  | zero => exact redrawn.congr fun i => (if_neg (by omega)).symm
  | succ n induction =>
      have before := induction (by omega)
      rw [List.range_succ, List.foldl_append, List.foldl_cons, List.foldl_nil]
      generalize (List.range n).foldl _ after = partly at before ⊢
      have above : Word32.sub y 1 = y - 1 := Word32.sub_of_le y_pos (by omega)
      have wide := before.width.trans width
      rw [VgaText.index_eq wide (by omega) y_lt, above,
        VgaText.index_eq wide (by omega) (by omega)]
      refine (before.copy ((y - 1) * 80 + n) (y * 80 + n)).congr fun i => ?_
      have unmoved : ¬ ((y - 1) * 80 ≤ y * 80 + n ∧ y * 80 + n < (y - 1) * 80 + n) := by omega
      rw [Function.update_apply, if_neg unmoved]
      by_cases last : i = (y - 1) * 80 + n
      · have below : y * 80 + n = i + 80 := by omega
        rw [if_pos last, if_pos (by omega), below]
      · rw [if_neg last]
        refine if_congr ?_ rfl rfl
        omega

/-- The outer loop moves all rows up, each before it is overwritten. -/
theorem moveRows_redrawn (width : dev.width = 80) {n : ℕ} (n_le : n ≤ 24) :
    dev.Redrawn ((List.range' 1 n).foldl (fun dev y =>
        (List.range dev.width).foldl (fun dev x =>
          dev.copy (dev.index x (Word32.sub y 1)) (dev.index x y)) dev) dev)
      fun i => if i < n * 80 then dev.buffer (i + 80) else dev.buffer i := by
  induction n with
  | zero =>
      refine ⟨dev.accessed, ?_⟩
      simp
  | succ n induction =>
      have before := induction (by omega)
      rw [List.range'_1_concat, List.foldl_append, List.foldl_cons, List.foldl_nil]
      generalize (List.range' 1 n).foldl _ dev = partly at before ⊢
      rw [before.width, width]
      refine (copyRow_redrawn width before (by omega : 0 < 1 + n) (by omega) (le_refl 80)).congr
        fun i => ?_
      rw [Nat.add_sub_cancel_left]
      by_cases moved : i < n * 80
      · rw [if_neg (by omega), if_pos moved, if_pos (by omega)]
      · by_cases inside : i < (n + 1) * 80
        · rw [if_pos (by omega), if_neg (by omega), if_pos inside]
        · rw [if_neg (by omega), if_neg moved, if_neg inside]

/-- The last loop clears the last row. -/
theorem clearLastRow_redrawn (width : dev.width = 80) (height : dev.height = 25)
    {after : VgaText} {cells : ℕ → UInt16} (redrawn : dev.Redrawn after cells) {n : ℕ}
    (n_le : n ≤ 80) :
    dev.Redrawn ((List.range n).foldl (fun dev x =>
        dev.store (dev.index x (Word32.sub dev.height 1)) vgaCellClear) after)
      fun i => if 1920 ≤ i ∧ i < 1920 + n then vgaCellClear else cells i := by
  induction n with
  | zero => exact redrawn.congr fun i => (if_neg (by omega)).symm
  | succ n induction =>
      have before := induction (by omega)
      rw [List.range_succ, List.foldl_append, List.foldl_cons, List.foldl_nil]
      generalize (List.range n).foldl _ after = partly at before ⊢
      have last : Word32.sub partly.height 1 = 24 := by
        obtain ⟨accessed, rfl⟩ := before
        simp only [height]
        rfl
      rw [last, VgaText.index_eq (before.width.trans width) (by omega) (by decide)]
      refine (before.store (24 * 80 + n) vgaCellClear).congr fun i => ?_
      rw [Function.update_apply]
      by_cases at_cell : i = 24 * 80 + n
      · rw [if_pos at_cell, if_pos (by omega)]
      · rw [if_neg at_cell]
        refine if_congr ?_ rfl rfl
        omega

/-- Scrolling moves the rows up by one and clears the last one. -/
theorem vgaTextScroll_eq (width : dev.width = 80) (height : dev.height = 25) :
    (dev.cursorY < 25 ∧ vgaTextScroll dev = dev) ∨
      (25 ≤ dev.cursorY ∧ ∃ after cells, vgaTextScroll dev = { after with cursorY := 24 } ∧
        dev.Redrawn after cells ∧
        ∀ i < 2000, cells i = if i < 1920 then dev.buffer (i + 80) else vgaCellClear) := by
  rw [vgaTextScroll, height]
  split_ifs with below
  · have moved := moveRows_redrawn width (le_refl 24)
    have rows : vgaTextMoveRows dev = (List.range' 1 24).foldl (fun dev y =>
        (List.range dev.width).foldl (fun dev x =>
          dev.copy (dev.index x (Word32.sub y 1)) (dev.index x y)) dev) dev := by
      rw [vgaTextMoveRows, height]
    rw [← rows] at moved
    have cleared := clearLastRow_redrawn width height moved (le_refl 80)
    have last : vgaTextClearLastRow (vgaTextMoveRows dev) = (List.range 80).foldl (fun dev x =>
        dev.store (dev.index x (Word32.sub dev.height 1)) vgaCellClear) (vgaTextMoveRows dev) := by
      rw [vgaTextClearLastRow, moved.width, width]
    rw [← last] at cleared
    refine .inr ⟨below, _, _, ?_, cleared, fun i inside => ?_⟩
    · obtain ⟨accessed, after_eq⟩ := cleared
      rw [after_eq]
      simp only [height]
      rfl
    · by_cases moved : i < 1920
      · rw [if_neg (by omega), if_pos (by omega), if_pos moved]
      · rw [if_pos (by omega), if_neg moved]
  · exact .inl ⟨by omega, rfl⟩

end Loops

/-! ## Simulation -/

/-- The screen shows 25 rows of the page, from a row on, and has the cursor of the page. -/
structure VgaText.ShowsFrom (dev : VgaText) (page : Page) (top : ℕ) : Prop where
  width : dev.width = 80
  height : dev.height = 25
  cells : ∀ y < 25, ∀ x < 80, dev.buffer (y * 80 + x) = page.cell (top + y) x
  cursorX : dev.cursorX = page.col
  cursorY : top + dev.cursorY = page.row

/-- The screen shows the last 25 rows of the page, or the first 25 while fewer are used. -/
structure VgaText.Shows (dev : VgaText) (page : Page) : Prop extends
    dev.ShowsFrom page page.top where
  col_lt : page.col < 80
  blank : page.BlankAfter page.row

section Simulation

variable {dev : VgaText} {page : Page} {top : ℕ}

/-- A character other than a backspace has the same effect on the screen as on the page. -/
theorem VgaText.ShowsFrom.char (shows : dev.ShowsFrom page top) (col_lt : page.col < 80)
    (inside : dev.cursorY < 25) {c : UInt8} (plain : c ≠ 8) :
    (vgaTextChar dev c).ShowsFrom (page.char c) top := by
  obtain ⟨width, height, cells, cursorX, cursorY⟩ := shows
  rw [vgaTextChar, Page.char, if_neg plain]
  split_ifs with newline carriage tab
  · refine ⟨width, height, cells, rfl, ?_⟩
    simp only
    rw [Word32.add_of_lt (by omega)]
    omega
  · exact ⟨width, height, cells, rfl, cursorY⟩
  · have column_lt : dev.cursorX % 4 < 4 := Nat.mod_lt _ (by decide)
    have spaces : Word32.sub 4 (dev.cursorX % 4) = 4 - dev.cursorX % 4 :=
      Word32.sub_of_le column_lt.le (by decide)
    refine ⟨width, height, cells, ?_, cursorY⟩
    simp only
    rw [spaces, Word32.add_of_lt (by omega)]
    omega
  · have index := VgaText.index_eq width (cursorX ▸ col_lt) inside
    refine ⟨width, height, fun y y_lt x x_lt => ?_, ?_, cursorY⟩
    · simp only [VgaText.store, index, Function.update_apply]
      by_cases at_cell : y = dev.cursorY ∧ x = dev.cursorX
      · rw [if_pos (by omega), if_pos (by omega)]
      · rw [if_neg (by omega), if_neg (by omega), cells y y_lt x x_lt]
    · simp only [VgaText.store_cursorX]
      rw [Word32.add_of_lt (by omega), cursorX]

/-- The end of a row is noticed on the screen as on the page. -/
theorem VgaText.ShowsFrom.wrap (shows : dev.ShowsFrom page top) (inside : dev.cursorY ≤ 25) :
    (vgaTextNextLine dev).ShowsFrom page.wrap top := by
  obtain ⟨width, height, cells, cursorX, cursorY⟩ := shows
  rw [vgaTextNextLine, Page.wrap, width, cursorX]
  split_ifs with beyond
  · refine ⟨rfl, height, cells, rfl, ?_⟩
    simp only
    rw [Word32.add_of_lt (by omega)]
    omega
  · exact ⟨width, height, cells, cursorX, cursorY⟩

/-- Scrolling shows one row more, which is still blank. -/
theorem VgaText.ShowsFrom.scroll (shows : dev.ShowsFrom page top) (cursorY : dev.cursorY ≤ 25)
    (moved : page.top = if dev.cursorY < 25 then top else top + 1)
    (blank : dev.cursorY = 25 → ∀ x, page.cell page.row x = vgaCellClear) :
    (vgaTextScroll dev).ShowsFrom page page.top := by
  rcases vgaTextScroll_eq shows.width shows.height with
    ⟨above, same⟩ | ⟨below, after, cells, scrolled, ⟨accessed, rfl⟩, cells_eq⟩
  · rw [same, moved, if_pos above]
    exact shows
  · have last : dev.cursorY = 25 := by omega
    have row := shows.cursorY
    rw [scrolled, moved, if_neg (by omega)]
    refine ⟨shows.width, shows.height, fun y y_lt x x_lt => ?_, shows.cursorX, ?_⟩
    · simp only
      rw [cells_eq (y * 80 + x) (by omega)]
      by_cases above : y < 24
      · have next : y * 80 + x + 80 = (y + 1) * 80 + x := by omega
        rw [if_pos (by omega), next, shows.cells (y + 1) (by omega) x x_lt, Nat.add_assoc,
          Nat.add_comm 1]
      · have at_row : top + 1 + y = page.row := by omega
        rw [if_neg (by omega), at_row, blank last x]
    · simp only
      omega

/-- Every character but a backspace keeps the screen in step with the page. -/
theorem VgaText.Shows.put (shows : dev.Shows page) {c : UInt8} (plain : c ≠ 8) :
    (vgaTextPutc dev c).Shows (page.put c) := by
  have top_eq : page.top = page.row - 24 := rfl
  have top_eq' : (page.put c).top = (page.put c).row - 24 := rfl
  have cursorY := shows.cursorY
  obtain ⟨row_ge, row_le, col_lt⟩ := Page.put_row shows.col_lt c
  have blank := Page.put_blankAfter shows.blank c
  have typed := shows.toShowsFrom.char shows.col_lt (by omega) plain
  have typed_row : (page.char c).row ≤ (page.put c).row := by
    rw [Page.put, Page.wrap]
    split_ifs
    · exact Nat.le_succ _
    · exact le_rfl
  have typedY := typed.cursorY
  have wrapped := typed.wrap (by omega)
  have wrappedY : page.top + (vgaTextNextLine (vgaTextChar dev c)).cursorY = (page.put c).row :=
    wrapped.cursorY
  have scrolled := wrapped.scroll (by omega)
    (show (page.put c).top = _ by split_ifs <;> omega)
    (fun last => blank (page.put c).row (by omega))
  exact ⟨scrolled, col_lt, fun later after => blank later (by omega)⟩

theorem VgaText.Shows.foldl (shows : dev.Shows page) {buf : List UInt8}
    (plain : (8 : UInt8) ∉ buf) :
    (buf.foldl vgaTextPutc dev).Shows (buf.foldl Page.put page) := by
  induction buf generalizing dev page with
  | nil => exact shows
  | cons c buf induction =>
      rw [List.mem_cons, not_or] at plain
      exact induction (shows.put (Ne.symm plain.1)) plain.2

theorem VgaText.Shows.updateCursor (shows : dev.Shows page) :
    (vgaTextUpdateCursor dev).Shows page :=
  ⟨⟨shows.width, shows.height, shows.cells, shows.cursorX, shows.cursorY⟩, shows.col_lt,
    shows.blank⟩

/-- The cursor of the controller is the one of the page, relative to the first row shown. -/
theorem VgaText.Shows.cursor (shows : dev.Shows page) (crtc : Crtc) :
    ((vgaTextUpdateCursor dev).crtc crtc).cursor = (page.row - page.top) * 80 + page.col := by
  have cursorX := shows.cursorX
  have cursorY := shows.cursorY
  have col_lt := shows.col_lt
  have top_eq : page.top = page.row - 24 := rfl
  rw [vgaTextUpdateCursor_cursor shows.width (by omega) (by omega), cursorX, ← cursorY,
    Nat.add_sub_cancel_left]

/-- A cleared screen shows a blank page. -/
theorem vgaTextConsoleClear_shows (width : dev.width = 80) (height : dev.height = 25) :
    ∃ cleared : VgaText, vgaTextConsoleClear dev = vgaTextUpdateCursor cleared ∧
      cleared.Shows Page.empty := by
  have stored {n : ℕ} : dev.Redrawn ((List.range n).foldl
      (fun dev index => dev.store index vgaCellClear) dev)
        fun i => if i < n then vgaCellClear else dev.buffer i := by
    induction n with
    | zero => exact ⟨dev.accessed, rfl⟩
    | succ n induction =>
        rw [List.range_succ, List.foldl_append, List.foldl_cons, List.foldl_nil]
        refine (induction.store n vgaCellClear).congr fun i => ?_
        rw [Function.update_apply]
        by_cases last : i = n
        · rw [if_pos last, if_pos (by omega)]
        · rw [if_neg last]
          refine if_congr ?_ rfl rfl
          omega
  obtain ⟨accessed, cleared⟩ := @stored vgaTextCells
  refine ⟨_, rfl, ⟨?_, ?_, fun y y_lt x x_lt => ?_, rfl, rfl⟩, Nat.zero_lt_succ 79,
    fun _ _ _ => rfl⟩
  · rw [cleared]
    exact width
  · rw [cleared]
    exact height
  · rw [cleared]
    exact if_pos (by unfold vgaTextCells; omega)

/-- After clearing the console, every sequence of writes without backspaces leaves the screen on the
last rows of the page with the text, and the hardware cursor at the position of the page. -/
theorem vgaText_shows_page (width : dev.width = 80) (height : dev.height = 25)
    (writes : List (List UInt8)) (plain : ∀ buf ∈ writes, (8 : UInt8) ∉ buf) (crtc : Crtc) :
    (writes.foldl vgaTextConsoleWrite (vgaTextConsoleClear dev)).Shows
        (writes.flatten.foldl Page.put Page.empty) ∧
      ((writes.foldl vgaTextConsoleWrite (vgaTextConsoleClear dev)).crtc crtc).cursor =
        ((writes.flatten.foldl Page.put Page.empty).row -
            (writes.flatten.foldl Page.put Page.empty).top) * 80 +
          (writes.flatten.foldl Page.put Page.empty).col := by
  -- the last call of every sequence moves the hardware cursor
  suffices last : ∃ shown : VgaText,
      writes.foldl vgaTextConsoleWrite (vgaTextConsoleClear dev) = vgaTextUpdateCursor shown ∧
        shown.Shows (writes.flatten.foldl Page.put Page.empty) by
    obtain ⟨shown, shown_eq, shows⟩ := last
    rw [shown_eq]
    exact ⟨shows.updateCursor, shows.cursor crtc⟩
  induction writes using List.reverseRecOn with
  | nil => exact vgaTextConsoleClear_shows width height
  | append_singleton writes buf induction =>
      rw [List.forall_mem_append, List.forall_mem_singleton] at plain
      obtain ⟨shown, shown_eq, shows⟩ := induction plain.1
      rw [List.foldl_append, shown_eq, List.flatten_append, List.foldl_append]
      simp only [List.foldl_cons, List.foldl_nil, List.flatten_cons, List.flatten_nil,
        List.append_nil]
      exact ⟨_, rfl, shows.updateCursor.foldl plain.2⟩

end Simulation

/-- The text `a`, a tab and the start of the next row. -/
theorem vgaText_shows_page_tab :
    ∃ dev, vgaTextProbe 4000 (fun _ => 0) 0x3D4 0 = .ok dev ∧
      (vgaTextConsoleWrite (vgaTextConsoleClear dev) [97, 9, 98, 10]).Shows
        ([97, 9, 98, 10].foldl Page.put Page.empty) := by
  obtain ⟨dev, probe⟩ : ∃ dev, vgaTextProbe 4000 (fun _ => 0) 0x3D4 0 = .ok dev :=
    ⟨_, if_neg (by decide)⟩
  have bounds := vgaTextProbe_inBounds probe
  exact ⟨dev, probe, (vgaText_shows_page bounds.width bounds.height [[97, 9, 98, 10]] (by simp)
    ⟨0, fun _ => 0⟩).1⟩

end ItWorksOS
