import ItWorksOS.Foundation.Word32
import ItWorksOS.Kernel.Error
import ItWorksOS.Klib.String

/-!
# The VGA text console

Characters go to the cell under the cursor, and the cursor is brought back onto the screen behind
every character. All cells that the driver touches lie on the screen.
-/

namespace ItWorksOS

/-- Cells of the 80 by 25 text mode. -/
abbrev vgaTextCells : ℕ := 80 * 25

/-- `CONSOLE_TAB_SIZE`. -/
abbrev consoleTabSize : ℕ := 4

/-- A cell from its character, colours and blink bit. -/
def vgaCell (ch : UInt8) (fg bg blink : UInt16) : UInt16 :=
  ch.toUInt16 ||| (fg <<< 8) ||| (bg <<< 12) ||| (blink <<< 15)

/-- A character in light grey on black. -/
def vgaCellPlain (ch : UInt8) : UInt16 := vgaCell ch 7 0 0

/-- `VGA_CELL_CLEAR`. -/
def vgaCellClear : UInt16 := vgaCellPlain (charCode ' ')

/-- The console and its text buffer, with the indices at which the buffer was read or written and
the port writes, latest first. -/
structure VgaText where
  width : ℕ
  height : ℕ
  cursorX : ℕ
  cursorY : ℕ
  buffer : ℕ → UInt16
  accessed : List ℕ
  portBase : ℕ
  ports : List (ℕ × ℕ)

/-- The index of a cell. -/
def VgaText.index (dev : VgaText) (x y : ℕ) : ℕ := Word32.add (Word32.mul y dev.width) x

/-- Write a cell. -/
def VgaText.store (dev : VgaText) (index : ℕ) (cell : UInt16) : VgaText :=
  { dev with
    buffer := Function.update dev.buffer index cell
    accessed := index :: dev.accessed }

/-- Copy a cell. -/
def VgaText.copy (dev : VgaText) (target source : ℕ) : VgaText :=
  { dev with
    buffer := Function.update dev.buffer target (dev.buffer source)
    accessed := target :: source :: dev.accessed }

@[simp] theorem VgaText.store_cursorX (dev : VgaText) (index : ℕ) (cell : UInt16) :
    (dev.store index cell).cursorX = dev.cursorX := rfl

@[simp] theorem VgaText.store_cursorY (dev : VgaText) (index : ℕ) (cell : UInt16) :
    (dev.store index cell).cursorY = dev.cursorY := rfl

/-- Write a CRTC register. -/
def VgaText.setRegister (dev : VgaText) (register value : ℕ) : VgaText :=
  { dev with ports := (dev.portBase + 1, value) :: (dev.portBase, register) :: dev.ports }

/-- Move the hardware cursor to the cursor. -/
def vgaTextUpdateCursor (dev : VgaText) : VgaText :=
  let position := dev.index dev.cursorX dev.cursorY % 2 ^ 16
  (dev.setRegister 0x0F (position % 256)).setRegister 0x0E (position / 256)

/-- The `switch` over a character. -/
def vgaTextChar (dev : VgaText) (c : UInt8) : VgaText :=
  if c = charCode '\n' then { dev with cursorX := 0, cursorY := Word32.add dev.cursorY 1 }
  else if c = charCode '\r' then { dev with cursorX := 0 }
  else if c = charCode '\t' then
    let spaces := Word32.sub consoleTabSize (dev.cursorX % consoleTabSize)
    { dev with cursorX := Word32.add dev.cursorX spaces }
  else if c = 8 then
    if 0 < dev.cursorX then
      let dev := { dev with cursorX := Word32.sub dev.cursorX 1 }
      dev.store (dev.index dev.cursorX dev.cursorY) vgaCellClear
    else if 0 < dev.cursorY then
      let dev := { dev with
        cursorY := Word32.sub dev.cursorY 1
        cursorX := Word32.sub dev.width 1 }
      dev.store (dev.index dev.cursorX dev.cursorY) vgaCellClear
    else dev
  else
    let dev := dev.store (dev.index dev.cursorX dev.cursorY) (vgaCellPlain c)
    { dev with cursorX := Word32.add dev.cursorX 1 }

/-- Go to the next line behind the last column. -/
def vgaTextNextLine (dev : VgaText) : VgaText :=
  if dev.width ≤ dev.cursorX then { dev with cursorX := 0, cursorY := Word32.add dev.cursorY 1 }
  else dev

/-- Move all rows up by one. -/
def vgaTextMoveRows (dev : VgaText) : VgaText :=
  (List.range' 1 (dev.height - 1)).foldl (fun dev y =>
    (List.range dev.width).foldl (fun dev x =>
      dev.copy (dev.index x (Word32.sub y 1)) (dev.index x y)) dev) dev

/-- Clear the last row. -/
def vgaTextClearLastRow (dev : VgaText) : VgaText :=
  (List.range dev.width).foldl (fun dev x =>
    dev.store (dev.index x (Word32.sub dev.height 1)) vgaCellClear) dev

/-- Scroll up behind the last row. -/
def vgaTextScroll (dev : VgaText) : VgaText :=
  if dev.height ≤ dev.cursorY then
    let dev := vgaTextClearLastRow (vgaTextMoveRows dev)
    { dev with cursorY := Word32.sub dev.height 1 }
  else dev

/-- One round of the loop over the characters. -/
def vgaTextPutc (dev : VgaText) (c : UInt8) : VgaText :=
  vgaTextScroll (vgaTextNextLine (vgaTextChar dev c))

/-- Write characters from the cursor on. -/
def vgaTextConsoleWrite (dev : VgaText) (buf : List UInt8) : VgaText :=
  vgaTextUpdateCursor (buf.foldl vgaTextPutc dev)

/-- Clear the screen. -/
def vgaTextConsoleClear (dev : VgaText) : VgaText :=
  let dev := (List.range vgaTextCells).foldl (fun dev index => dev.store index vgaCellClear) dev
  vgaTextUpdateCursor { dev with cursorX := 0, cursorY := 0 }

/-- Move the cursor. -/
def vgaTextConsoleSetCursorPosition (dev : VgaText) (x y : ℕ) : Status × VgaText :=
  if dev.width ≤ x ∨ dev.height ≤ y then (.error .range, dev)
  else (.ok (), vgaTextUpdateCursor { dev with cursorX := x, cursorY := y })

/-- Hide the cursor: set bit 5 of the start register, which reads as `status`. -/
def vgaTextConsoleHideCursor (dev : VgaText) (status : ℕ) : VgaText :=
  dev.setRegister 0x0A (status ||| 0x20)

/-- Set up the console on a text buffer of `size` bytes. -/
def vgaTextProbe (size : ℕ) (buffer : ℕ → UInt16) (portBase status : ℕ) : Except KError VgaText :=
  if size ≠ vgaTextCells * 2 then .error .nosup
  else
    .ok (vgaTextConsoleHideCursor (vgaTextConsoleClear
      { width := 80, height := 25, cursorX := 0, cursorY := 0, buffer, accessed := [], portBase,
        ports := [] }) status)

/-- The calls of the console. -/
inductive VgaCall
  | write (buf : List UInt8)
  | setCursorPosition (x y : ℕ)
  | clear

/-- One call. -/
def vgaCall (dev : VgaText) : VgaCall → VgaText
  | .write buf => vgaTextConsoleWrite dev buf
  | .setCursorPosition x y => (vgaTextConsoleSetCursorPosition dev x y).2
  | .clear => vgaTextConsoleClear dev

/-! ## Bounds -/

/-- The size is that of the text mode, and only cells on the screen were accessed. -/
structure VgaText.OnScreen (dev : VgaText) : Prop where
  width : dev.width = 80
  height : dev.height = 25
  accessed : ∀ index ∈ dev.accessed, index < 2000

/-- The cursor is on the screen as well. -/
structure VgaText.InBounds (dev : VgaText) : Prop extends dev.OnScreen where
  cursorX : dev.cursorX < 80
  cursorY : dev.cursorY < 25

section Bounds

variable {dev : VgaText}

theorem VgaText.index_eq (width : dev.width = 80) {x y : ℕ} (x_lt : x < 80) (y_lt : y < 25) :
    dev.index x y = y * 80 + x := by
  rw [VgaText.index, width, Word32.mul_of_lt (by omega), Word32.add_of_lt (by omega)]

theorem VgaText.OnScreen.index_lt (screen : dev.OnScreen) {x y : ℕ} (x_lt : x < 80)
    (y_lt : y < 25) : dev.index x y < 2000 := by
  rw [VgaText.index_eq screen.width x_lt y_lt]
  omega

theorem VgaText.OnScreen.moveCursor (screen : dev.OnScreen) (x y : ℕ) :
    { dev with cursorX := x, cursorY := y }.OnScreen :=
  ⟨screen.width, screen.height, screen.accessed⟩

theorem VgaText.OnScreen.store (screen : dev.OnScreen) {index : ℕ} (inside : index < 2000)
    (cell : UInt16) : (dev.store index cell).OnScreen :=
  ⟨screen.width, screen.height, List.forall_mem_cons.mpr ⟨inside, screen.accessed⟩⟩

theorem VgaText.OnScreen.copy (screen : dev.OnScreen) {target source : ℕ}
    (target_lt : target < 2000) (source_lt : source < 2000) : (dev.copy target source).OnScreen :=
  ⟨screen.width, screen.height, List.forall_mem_cons.mpr ⟨target_lt,
    List.forall_mem_cons.mpr ⟨source_lt, screen.accessed⟩⟩⟩

theorem VgaText.InBounds.setRegister (bounds : dev.InBounds) (register value : ℕ) :
    (dev.setRegister register value).InBounds :=
  ⟨⟨bounds.width, bounds.height, bounds.accessed⟩, bounds.cursorX, bounds.cursorY⟩

theorem VgaText.InBounds.updateCursor (bounds : dev.InBounds) :
    (vgaTextUpdateCursor dev).InBounds :=
  (bounds.setRegister _ _).setRegister _ _

/-- A character leaves the cursor at most one tab behind the last column and one line below the
last row. -/
theorem vgaTextChar_bounds (bounds : dev.InBounds) (c : UInt8) :
    (vgaTextChar dev c).OnScreen ∧ (vgaTextChar dev c).cursorX < 84 ∧
      ((vgaTextChar dev c).cursorY < 25 ∨
        (vgaTextChar dev c).cursorY = 25 ∧ (vgaTextChar dev c).cursorX = 0) := by
  have screen := bounds.toOnScreen
  have x_lt := bounds.cursorX
  have y_lt := bounds.cursorY
  rw [vgaTextChar]
  split_ifs with newline carriage tab backspace column row
  · have next : Word32.add dev.cursorY 1 = dev.cursorY + 1 := Word32.add_of_lt (by omega)
    have below : Word32.add dev.cursorY 1 < 25 ∨ Word32.add dev.cursorY 1 = 25 := by omega
    exact ⟨screen.moveCursor 0 _, Nat.zero_lt_succ 83, below.imp id fun last => ⟨last, rfl⟩⟩
  · exact ⟨screen.moveCursor 0 dev.cursorY, Nat.zero_lt_succ 83, .inl y_lt⟩
  · have column_lt : dev.cursorX % 4 < 4 := Nat.mod_lt _ (by decide)
    have spaces : Word32.sub 4 (dev.cursorX % 4) = 4 - dev.cursorX % 4 :=
      Word32.sub_of_le column_lt.le (by decide)
    have next : Word32.add dev.cursorX (Word32.sub 4 (dev.cursorX % 4)) < 84 := by
      rw [spaces, Word32.add_of_lt (by omega)]
      omega
    exact ⟨screen.moveCursor _ dev.cursorY, next, .inl y_lt⟩
  · have back : Word32.sub dev.cursorX 1 = dev.cursorX - 1 :=
      Word32.sub_of_le column (by omega)
    have left : Word32.sub dev.cursorX 1 < 80 := by omega
    have moved := screen.moveCursor (Word32.sub dev.cursorX 1) dev.cursorY
    refine ⟨moved.store (moved.index_lt left y_lt) _, ?_, .inl ?_⟩
    · rw [VgaText.store_cursorX]
      exact left.trans_le (Nat.le_add_right 80 4)
    · rw [VgaText.store_cursorY]
      exact y_lt
  · have up : Word32.sub dev.cursorY 1 = dev.cursorY - 1 := Word32.sub_of_le row (by omega)
    have above : Word32.sub dev.cursorY 1 < 25 := by omega
    have right : Word32.sub dev.width 1 < 80 := by
      rw [screen.width]
      decide
    have moved := screen.moveCursor (Word32.sub dev.width 1) (Word32.sub dev.cursorY 1)
    refine ⟨moved.store (moved.index_lt right above) _, ?_, .inl ?_⟩
    · rw [VgaText.store_cursorX]
      exact right.trans_le (Nat.le_add_right 80 4)
    · rw [VgaText.store_cursorY]
      exact above
  · exact ⟨screen, x_lt.trans_le (Nat.le_add_right 80 4), .inl y_lt⟩
  · have next : Word32.add dev.cursorX 1 < 84 := by
      rw [Word32.add_of_lt (by omega)]
      omega
    have written := screen.store (screen.index_lt x_lt y_lt) (vgaCellPlain c)
    exact ⟨written.moveCursor _ dev.cursorY, next, .inl y_lt⟩

theorem vgaTextNextLine_bounds (screen : dev.OnScreen) (cursorX : dev.cursorX < 84)
    (cursorY : dev.cursorY < 25 ∨ dev.cursorY = 25 ∧ dev.cursorX = 0) :
    (vgaTextNextLine dev).OnScreen ∧ (vgaTextNextLine dev).cursorX < 80 ∧
      (vgaTextNextLine dev).cursorY ≤ 25 := by
  have width := screen.width
  rw [vgaTextNextLine]
  split_ifs with beyond
  · have next : Word32.add dev.cursorY 1 ≤ 25 := by
      rw [Word32.add_of_lt (by omega)]
      omega
    exact ⟨screen.moveCursor 0 _, Nat.zero_lt_succ 79, next⟩
  · exact ⟨screen, by omega, by omega⟩

/-- The loops of the driver keep what each of their rounds keeps. -/
theorem foldl_onScreen {α : Type*} {round : VgaText → α → VgaText} {items : List α}
    (keep : ∀ dev item, item ∈ items → dev.OnScreen →
      (round dev item).OnScreen ∧ (round dev item).cursorX = dev.cursorX)
    (screen : dev.OnScreen) :
    (items.foldl round dev).OnScreen ∧ (items.foldl round dev).cursorX = dev.cursorX := by
  induction items generalizing dev with
  | nil => exact ⟨screen, rfl⟩
  | cons item items induction =>
      obtain ⟨kept, cursor⟩ := keep dev item List.mem_cons_self screen
      obtain ⟨rest, cursor'⟩ := induction
        (fun dev item member => keep dev item (List.mem_cons_of_mem _ member)) kept
      exact ⟨rest, cursor'.trans cursor⟩

theorem vgaTextMoveRows_onScreen (screen : dev.OnScreen) :
    (vgaTextMoveRows dev).OnScreen ∧ (vgaTextMoveRows dev).cursorX = dev.cursorX := by
  rw [vgaTextMoveRows, screen.height]
  refine foldl_onScreen (fun dev y y_mem screen => ?_) screen
  obtain ⟨y_ge, y_lt⟩ := List.mem_range'_1.mp y_mem
  rw [screen.width]
  refine foldl_onScreen (fun dev x x_mem screen => ⟨?_, rfl⟩) screen
  have x_lt := List.mem_range.mp x_mem
  have above : Word32.sub y 1 = y - 1 := Word32.sub_of_le y_ge (by omega)
  exact screen.copy (screen.index_lt x_lt (by omega)) (screen.index_lt x_lt (by omega))

theorem vgaTextClearLastRow_onScreen (screen : dev.OnScreen) :
    (vgaTextClearLastRow dev).OnScreen ∧ (vgaTextClearLastRow dev).cursorX = dev.cursorX := by
  rw [vgaTextClearLastRow, screen.width]
  refine foldl_onScreen (fun dev x x_mem screen => ⟨?_, rfl⟩) screen
  have last : Word32.sub dev.height 1 = 24 := by
    rw [screen.height]
    rfl
  exact screen.store (screen.index_lt (List.mem_range.mp x_mem) (by omega)) _

theorem vgaTextScroll_inBounds (screen : dev.OnScreen) (cursorX : dev.cursorX < 80) :
    (vgaTextScroll dev).InBounds := by
  rw [vgaTextScroll, screen.height]
  split_ifs with below
  · obtain ⟨moved, cursor⟩ := vgaTextMoveRows_onScreen screen
    obtain ⟨cleared, cursor'⟩ := vgaTextClearLastRow_onScreen moved
    have last : Word32.sub (vgaTextClearLastRow (vgaTextMoveRows dev)).height 1 < 25 := by
      rw [cleared.height]
      decide
    exact ⟨cleared.moveCursor _ _, (cursor'.trans cursor).trans_lt cursorX, last⟩
  · exact ⟨screen, cursorX, by omega⟩

/-- Every character leaves the cursor on the screen. -/
theorem vgaTextPutc_inBounds (bounds : dev.InBounds) (c : UInt8) :
    (vgaTextPutc dev c).InBounds := by
  obtain ⟨screen, cursorX, cursorY⟩ := vgaTextChar_bounds bounds c
  obtain ⟨screen, cursorX, -⟩ := vgaTextNextLine_bounds screen cursorX cursorY
  exact vgaTextScroll_inBounds screen cursorX

theorem vgaTextPutc_foldl_inBounds (bounds : dev.InBounds) (buf : List UInt8) :
    (buf.foldl vgaTextPutc dev).InBounds := by
  induction buf generalizing dev with
  | nil => exact bounds
  | cons c buf induction => exact induction (vgaTextPutc_inBounds bounds c)

theorem vgaTextConsoleClear_inBounds (screen : dev.OnScreen) :
    (vgaTextConsoleClear dev).InBounds := by
  have cleared : ((List.range vgaTextCells).foldl
      (fun dev index => dev.store index vgaCellClear) dev).OnScreen :=
    (foldl_onScreen (fun _ _ member screen =>
      ⟨screen.store (List.mem_range.mp member) _, rfl⟩) screen).1
  have home := cleared.moveCursor 0 0
  exact VgaText.InBounds.updateCursor ⟨home, Nat.zero_lt_succ 79, Nat.zero_lt_succ 24⟩

theorem vgaCall_inBounds (bounds : dev.InBounds) (call : VgaCall) :
    (vgaCall dev call).InBounds := by
  cases call with
  | write buf => exact (vgaTextPutc_foldl_inBounds bounds buf).updateCursor
  | setCursorPosition x y =>
      rw [vgaCall, vgaTextConsoleSetCursorPosition]
      split_ifs with outside
      · exact bounds
      · obtain ⟨x_lt, y_lt⟩ := not_or.mp outside
        rw [bounds.width, not_le] at x_lt
        rw [bounds.height, not_le] at y_lt
        exact VgaText.InBounds.updateCursor ⟨bounds.moveCursor x y, x_lt, y_lt⟩
  | clear => exact vgaTextConsoleClear_inBounds bounds.toOnScreen

theorem vgaCall_foldl_inBounds (bounds : dev.InBounds) (calls : List VgaCall) :
    (calls.foldl vgaCall dev).InBounds := by
  induction calls generalizing dev with
  | nil => exact bounds
  | cons call calls induction => exact induction (vgaCall_inBounds bounds call)

theorem vgaTextProbe_inBounds {size : ℕ} {buffer : ℕ → UInt16} {portBase status : ℕ}
    (probe : vgaTextProbe size buffer portBase status = .ok dev) : dev.InBounds := by
  rw [vgaTextProbe] at probe
  split_ifs at probe
  have start : VgaText.OnScreen ⟨80, 25, 0, 0, buffer, [], portBase, []⟩ :=
    ⟨rfl, rfl, List.forall_mem_nil _⟩
  rw [← Except.ok.inj probe]
  exact (vgaTextConsoleClear_inBounds start).setRegister _ _

/-- In every sequence of calls after the probe, behind each call and behind each character of a
write, the cursor is on the screen and only cells on the screen were accessed. -/
theorem vgaText_in_bounds {size : ℕ} {buffer : ℕ → UInt16} {portBase status : ℕ}
    (probe : vgaTextProbe size buffer portBase status = .ok dev) (calls : List VgaCall)
    (characters : List UInt8) :
    (calls.foldl vgaCall dev).InBounds ∧
      (characters.foldl vgaTextPutc (calls.foldl vgaCall dev)).InBounds := by
  have bounds := vgaCall_foldl_inBounds (vgaTextProbe_inBounds probe) calls
  exact ⟨bounds, vgaTextPutc_foldl_inBounds bounds characters⟩

theorem vgaText_in_bounds_tab : ∃ dev, vgaTextProbe 4000 (fun _ => 0) 0x3D4 0 = .ok dev ∧
    ([.setCursorPosition 78 24, .write [charCode '\t']].foldl vgaCall dev).InBounds := by
  obtain ⟨dev, probe⟩ : ∃ dev, vgaTextProbe 4000 (fun _ => 0) 0x3D4 0 = .ok dev :=
    ⟨_, if_neg (by decide)⟩
  exact ⟨dev, probe, (vgaText_in_bounds probe _ []).1⟩

end Bounds

end ItWorksOS
