/-
Text on the framebuffer.

The console keeps a cursor that wraps at the right edge and scrolls at the bottom.  The
other functions start at a place the caller names.  All of them draw a character as eight
by eight pixels, each two lines high, and skip the pixels right of the screen or below it;
nothing is skipped on the left or at the top.

Coordinates have the type `int`, so every product and sum is one that may overflow; a
computation that does has no result.  The bitmaps of `font8x8` decide about colours only
and are a parameter.
-/
import Moonlight.Lib.CString
import Moonlight.Lib.Run
import Moonlight.Lib.Word

namespace Moonlight

def vgaWidth : Int := 800

def vgaHeight : Int := 600

def consoleCols : Int := 100

def consoleRows : Int := 37

/-- An assignment to `fb[index]`. -/
structure FbStore where
  index : Int
  value : UInt32
  deriving DecidableEq

/-- The bitmaps, one byte for each of the eight rows of a character. -/
abbrev Font := UInt8 → Nat → UInt8

def fbIndex (px py : Int) : Option Int := do
  let line ← Word.int (py * vgaWidth)
  Word.int (line + px)

/-- The body of the two loops over a bitmap. -/
def pixelStores (x y : Int) (row col : Nat) (colr : UInt32) : Option (List FbStore) := do
  let left ← Word.int (x * 8)
  let px ← Word.int (left + col)
  let above ← Word.int (y * 16)
  let py ← Word.int (above + row * 2)
  if px ≥ vgaWidth ∨ py ≥ vgaHeight then return []
  let upper ← fbIndex px py
  if py + 1 < vgaHeight then
    let lower ← fbIndex px (py + 1)
    return [⟨upper, colr⟩, ⟨lower, colr⟩]
  return [⟨upper, colr⟩]

/-- The stores of one step after those of another. -/
def andThen (first rest : Option (List FbStore)) : Option (List FbStore) :=
  first.bind fun stores => rest.map fun more => stores ++ more

def inOrder (steps : List (Option (List FbStore))) : Option (List FbStore) :=
  steps.foldr andThen (some [])

/-- The rows and columns of a bitmap, in the order of the loops. -/
def glyphCells : List (Nat × Nat) :=
  (List.range 8).flatMap fun row => (List.range 8).map fun col => (row, col)

def printable (c : UInt8) : UInt8 := if c < 0x20 ∨ c > 0x7E then 63 else c

def drawChar (font : Font) (x y : Int) (c : UInt8) (fg bg : UInt32) : Option (List FbStore) :=
  inOrder (glyphCells.map fun cell =>
    let bits := font (printable c) cell.1
    pixelStores x y cell.1 cell.2 (if bits &&& (1 <<< UInt8.ofNat cell.2) ≠ 0 then fg else bg))

/-! ### The console -/

/-- `fb_init_done`, `console_cx` and `console_cy`. -/
structure Console where
  initDone : Bool
  cx : Int
  cy : Int
  deriving DecidableEq

def Console.start (initDone : Bool) : Console := { initDone := initDone, cx := 0, cy := 0 }

def vgaConsoleClear (con : Console) : Console :=
  if con.initDone then { con with cx := 0, cy := 0 } else con

/-- `for (i = 0; i < n; i++) fb[i] = value;`. -/
def fillStores (n : Nat) (value : UInt32) : List FbStore :=
  (List.range n).map fun i : Nat => ⟨(i : Int), value⟩

/-- `vga_console_scroll` behind its check: the whole screen is cleared. -/
def scrollStores : List FbStore := fillStores (vgaWidth * vgaHeight).toNat 0

/-- The end of a line. -/
def Console.newLine (con : Console) : Option (List FbStore × Console) := do
  let cy ← Word.int (con.cy + 1)
  if cy ≥ consoleRows then return (scrollStores, { con with cx := 0, cy := consoleRows - 1 })
  return ([], { con with cx := 0, cy := cy })

def vgaConsolePutc (font : Font) (con : Console) (c : UInt8) : Option (List FbStore × Console) :=
  if con.initDone = false then some ([], con)
  else if c = 13 then some ([], { con with cx := 0 })
  else if c = 10 then con.newLine
  else do
    let drawn ← drawChar font con.cx con.cy c 0x00FFFFFF 0
    let cx ← Word.int (con.cx + 1)
    if cx ≥ consoleCols then
      let (cleared, con') ← con.newLine
      return (drawn ++ cleared, con')
    return (drawn, { con with cx := cx })

/-- The loop of `vga_console_puts`. -/
def putcLoop (font : Font) : Console → List UInt8 → Option (List FbStore × Console)
  | con, [] => some ([], con)
  | con, c :: rest => do
      let (stores, con') ← vgaConsolePutc font con c
      let (more, con'') ← putcLoop font con' rest
      return (stores ++ more, con'')

/-- `vga_console_puts` on a non-null string. -/
def vgaConsolePuts (font : Font) (con : Console) (s : CString) :
    Option (List FbStore × Console) := putcLoop font con s.bytes

/-! ### Text at a place -/

/-- The loop of the three functions below.  A new line starts in column `x`, and with
`wrap` a line also ends at the right edge. -/
def textLoop (font : Font) (wrap : Bool) (x : Int) (fg bg : UInt32) :
    List UInt8 → Int → Int → Option (List FbStore)
  | [], _, _ => some []
  | c :: rest, cx, cy =>
      if c = 10 then (Word.int (cy + 1)).bind fun cy' => textLoop font wrap x fg bg rest x cy'
      else
        andThen (drawChar font cx cy c fg bg)
          ((Word.int (cx + 1)).bind fun cx' =>
            if wrap = true ∧ cx' ≥ consoleCols then
              (Word.int (cy + 1)).bind fun cy' => textLoop font wrap x fg bg rest x cy'
            else textLoop font wrap x fg bg rest cx' cy)

def vgaPuts (font : Font) (initDone : Bool) (s : CString) : Option (List FbStore) :=
  if initDone = false then some [] else textLoop font true 0 0x00FFFFFF 0 s.bytes 0 0

def vgaPutsAt (font : Font) (initDone : Bool) (s : CString) (x y : Int32) (fg bg : UInt32) :
    Option (List FbStore) :=
  if initDone = false then some [] else textLoop font false x.toInt fg bg s.bytes x.toInt y.toInt

/-- `vga_render_text` on a non-null string. -/
def vgaRenderText (font : Font) (initDone : Bool) (text : CString) (x y : Int32)
    (fg bg : UInt32) : Option (List FbStore) :=
  if initDone = false then some []
  else textLoop font true x.toInt fg bg text.bytes x.toInt y.toInt

/-! ### Stores inside the framebuffer -/

def FbStore.Inside (st : FbStore) : Prop := 0 ≤ st.index ∧ st.index < vgaWidth * vgaHeight

/-- The computation has a result, and each of its stores is inside the framebuffer. -/
def StaysInside (o : Option (List FbStore)) : Prop :=
  ∃ stores, o = some stores ∧ ∀ st ∈ stores, st.Inside

theorem staysInside_some {stores : List FbStore} :
    StaysInside (some stores) ↔ ∀ st ∈ stores, st.Inside := by
  constructor
  · rintro ⟨stores', heq, h⟩
    cases heq
    exact h
  · exact fun h => ⟨stores, rfl, h⟩

theorem not_staysInside_none : ¬ StaysInside none := by
  rintro ⟨stores, heq, -⟩
  cases heq

theorem staysInside_andThen {first rest : Option (List FbStore)} :
    StaysInside (andThen first rest) ↔ StaysInside first ∧ StaysInside rest := by
  cases first with
  | none => exact iff_of_false not_staysInside_none fun h => not_staysInside_none h.1
  | some stores =>
    cases rest with
    | none => exact iff_of_false not_staysInside_none fun h => not_staysInside_none h.2
    | some more =>
      show StaysInside (some (stores ++ more)) ↔ _
      rw [staysInside_some, staysInside_some, staysInside_some, List.forall_mem_append]

theorem staysInside_inOrder {steps : List (Option (List FbStore))} :
    StaysInside (inOrder steps) ↔ ∀ o ∈ steps, StaysInside o := by
  induction steps with
  | nil => exact iff_of_true ⟨[], rfl, by simp⟩ (by simp)
  | cons o steps ih =>
    show StaysInside (andThen o (inOrder steps)) ↔ _
    rw [staysInside_andThen, ih, List.forall_mem_cons]

/-! ### One character -/

/-- The cell is right of the screen, below it, or not before the first pixel. -/
def Place (x y : Int) : Prop := 100 ≤ x ∨ 38 ≤ y ∨ 0 ≤ x + 1600 * y

theorem Place.mono {x y x' y' : Int} (h : Place x y) (hx : x ≤ x') (hy : y ≤ y') : Place x' y' := by
  unfold Place at *
  omega

/-- The pixels of the cell can be computed, and none is before the framebuffer. -/
structure CellOk (x y : Int) : Prop where
  col : -2 ^ 28 ≤ x ∧ x < 2 ^ 28
  row : -2 ^ 27 ≤ y ∧ y < 2 ^ 27
  place : Place x y

theorem fbIndex_of_range {px py : Int} (hpx : px < 800) (hpy : py < 600) (h : 0 ≤ py * 800 + px) :
    fbIndex px py = some (py * 800 + px) := by
  have hline : Word.int (py * vgaWidth) = some (py * 800) :=
    Word.int_of_range (show -2 ^ 31 ≤ py * 800 by omega) (show py * 800 < 2 ^ 31 by omega)
  have hsum : Word.int (py * 800 + px) = some (py * 800 + px) :=
    Word.int_of_range (by omega) (by omega)
  simp only [fbIndex, hline, hsum, Option.bind_eq_bind, Option.bind_some]

theorem fbIndex_eq {px py i : Int} (h : fbIndex px py = some i) : i = py * 800 + px := by
  obtain ⟨line, hline, hi⟩ := Option.bind_eq_some_iff.mp h
  rw [(Word.int_eq_some_iff.mp hi).1, (Word.int_eq_some_iff.mp hline).1]
  rfl

theorem pixelStores_inside {x y : Int} (h : CellOk x y) {row col : Nat} (hrow : row < 8)
    (hcol : col < 8) (colr : UInt32) : StaysInside (pixelStores x y row col colr) := by
  obtain ⟨hx, hx'⟩ := h.col
  obtain ⟨hy, hy'⟩ := h.row
  have hleft : Word.int (x * 8) = some (x * 8) := Word.int_of_range (by omega) (by omega)
  have hpx : Word.int (x * 8 + col) = some (x * 8 + col) := Word.int_of_range (by omega) (by omega)
  have habove : Word.int (y * 16) = some (y * 16) := Word.int_of_range (by omega) (by omega)
  have hpy : Word.int (y * 16 + row * 2) = some (y * 16 + row * 2) :=
    Word.int_of_range (by omega) (by omega)
  simp only [pixelStores, hleft, hpx, habove, hpy, Option.bind_eq_bind, Option.bind_some,
    Option.pure_def]
  by_cases hskip : x * 8 + col ≥ vgaWidth ∨ y * 16 + row * 2 ≥ vgaHeight
  · rw [if_pos hskip]
    exact staysInside_some.mpr (by simp)
  · obtain ⟨hright, hbelow⟩ := not_or.mp hskip
    have hright' : x * 8 + col < 800 := Int.not_le.mp hright
    have hbelow' : y * 16 + row * 2 < 600 := Int.not_le.mp hbelow
    have hplace : 0 ≤ x + 1600 * y := by
      have hplace : 100 ≤ x ∨ 38 ≤ y ∨ 0 ≤ x + 1600 * y := h.place
      omega
    have hupper := fbIndex_of_range hright' hbelow' (by omega)
    rw [if_neg hskip, hupper, Option.bind_some]
    by_cases hlast : y * 16 + row * 2 + 1 < vgaHeight
    · have hlower : fbIndex (x * 8 + col) (y * 16 + row * 2 + 1) =
          some ((y * 16 + row * 2 + 1) * 800 + (x * 8 + col)) :=
        fbIndex_of_range hright' hlast (by omega)
      rw [if_pos hlast, hlower, Option.bind_some, staysInside_some]
      simp only [List.forall_mem_cons, FbStore.Inside, vgaWidth, vgaHeight]
      exact ⟨⟨by omega, by omega⟩, ⟨by omega, by omega⟩, by simp⟩
    · rw [if_neg hlast, staysInside_some]
      simp only [List.forall_mem_cons, FbStore.Inside, vgaWidth, vgaHeight]
      exact ⟨⟨by omega, by omega⟩, by simp⟩

/-- The first pixel of a character decides: no other is further up or further left. -/
theorem cellOk_of_first {x y : Int} {colr : UInt32} (h : StaysInside (pixelStores x y 0 0 colr)) :
    CellOk x y := by
  obtain ⟨stores, heq, hinside⟩ := h
  simp only [pixelStores, Option.bind_eq_bind, Option.bind_eq_some_iff] at heq
  obtain ⟨left, hleft, px, hpx, above, habove, py, hpy, heq⟩ := heq
  obtain ⟨rfl, hx, hx'⟩ := Word.int_eq_some_iff.mp hleft
  obtain ⟨rfl, hy, hy'⟩ := Word.int_eq_some_iff.mp habove
  obtain ⟨rfl, -⟩ := Word.int_eq_some_iff.mp hpx
  obtain ⟨rfl, -⟩ := Word.int_eq_some_iff.mp hpy
  refine ⟨⟨by omega, by omega⟩, ⟨by omega, by omega⟩, ?_⟩
  by_contra hplace
  unfold Place at hplace
  have hskip : ¬ (x * 8 + (0 : Nat) ≥ vgaWidth ∨ y * 16 + (0 : Nat) * 2 ≥ vgaHeight) := by
    show ¬ (x * 8 + (0 : Nat) ≥ 800 ∨ y * 16 + (0 : Nat) * 2 ≥ 600)
    omega
  rw [if_neg hskip] at heq
  obtain ⟨upper, hupper, heq⟩ := Option.bind_eq_some_iff.mp heq
  have hmem : ⟨upper, colr⟩ ∈ stores := by
    split_ifs at heq
    · obtain ⟨lower, -, heq⟩ := Option.bind_eq_some_iff.mp heq
      cases heq
      exact List.mem_cons_self
    · cases heq
      exact List.mem_cons_self
  have hfirst := (hinside _ hmem).1
  simp only [fbIndex_eq hupper] at hfirst
  omega

theorem drawChar_inside_iff (font : Font) (x y : Int) (c : UInt8) (fg bg : UInt32) :
    StaysInside (drawChar font x y c fg bg) ↔ CellOk x y := by
  rw [drawChar, staysInside_inOrder, List.forall_mem_map]
  constructor
  · intro h
    exact cellOk_of_first (h (0, 0) (by decide))
  · intro h cell hcell
    have hrange : ∀ cell ∈ glyphCells, cell.1 < 8 ∧ cell.2 < 8 := by decide
    exact pixelStores_inside h (hrange cell hcell).1 (hrange cell hcell).2 _

/-! ### Text at a place -/

/-- Every character of a text with the place of the cursor when it is reached, on
unbounded integers. -/
def cursors (wrap : Bool) (x : Int) : List UInt8 → Int → Int → List (UInt8 × Int × Int)
  | [], _, _ => []
  | c :: rest, cx, cy =>
      (c, cx, cy) ::
        if c = 10 then cursors wrap x rest x (cy + 1)
        else if wrap = true ∧ cx + 1 ≥ consoleCols then cursors wrap x rest x (cy + 1)
        else cursors wrap x rest (cx + 1) cy

/-- A line break stays below the largest `int`, and the pixels of any other character can
be computed. -/
def InRange (p : UInt8 × Int × Int) : Prop :=
  if p.1 = 10 then p.2.2 < 2 ^ 31 - 1
  else (-2 ^ 28 ≤ p.2.1 ∧ p.2.1 < 2 ^ 28) ∧ -2 ^ 27 ≤ p.2.2 ∧ p.2.2 < 2 ^ 27

def CharOk (p : UInt8 × Int × Int) : Prop := InRange p ∧ (p.1 ≠ 10 → Place p.2.1 p.2.2)

theorem charOk_of_newline {p : UInt8 × Int × Int} (h : p.1 = 10) :
    CharOk p ↔ p.2.2 < 2 ^ 31 - 1 := by
  rw [CharOk, InRange, if_pos h]
  exact and_iff_left fun hne => absurd h hne

theorem charOk_of_drawn {p : UInt8 × Int × Int} (h : p.1 ≠ 10) : CharOk p ↔ CellOk p.2.1 p.2.2 := by
  rw [CharOk, InRange, if_neg h]
  exact ⟨fun hp => ⟨hp.1.1, hp.1.2, hp.2 h⟩, fun hp => ⟨⟨hp.col, hp.row⟩, fun _ => hp.place⟩⟩

theorem textLoop_inside_iff (font : Font) (wrap : Bool) (x : Int) (fg bg : UInt32) (s : List UInt8)
    (cx : Int) {cy : Int} (hcy : -2 ^ 31 ≤ cy) :
    StaysInside (textLoop font wrap x fg bg s cx cy) ↔ ∀ p ∈ cursors wrap x s cx cy, CharOk p := by
  induction s generalizing cx cy with
  | nil => exact iff_of_true (staysInside_some.mpr (by simp)) (by simp [cursors])
  | cons c rest ih =>
    rw [textLoop, cursors, List.forall_mem_cons]
    by_cases hc : c = 10
    · rw [if_pos hc, if_pos hc, charOk_of_newline hc]
      by_cases hlast : cy < 2 ^ 31 - 1
      · rw [Word.int_of_range (by omega) (by omega), Option.bind_some, ih x (by omega)]
        exact (and_iff_right hlast).symm
      · have hnone : Word.int (cy + 1) = none := if_neg (by omega)
        rw [hnone]
        exact iff_of_false not_staysInside_none fun h => hlast h.1
    · rw [if_neg hc, if_neg hc, charOk_of_drawn hc, staysInside_andThen, drawChar_inside_iff]
      refine and_congr_right fun hcell => ?_
      obtain ⟨hx, hx'⟩ := hcell.col
      obtain ⟨hy, hy'⟩ := hcell.row
      rw [Word.int_of_range (by omega) (by omega), Option.bind_some]
      by_cases hwrap : wrap = true ∧ cx + 1 ≥ consoleCols
      · rw [if_pos hwrap, if_pos hwrap, Word.int_of_range (by omega) (by omega), Option.bind_some]
        exact ih x (by omega)
      · rw [if_neg hwrap, if_neg hwrap]
        exact ih (cx + 1) hcy

/-- The cursor goes right from column `x` and down. -/
theorem le_of_mem_cursors {wrap : Bool} {x : Int} {s : List UInt8} {cx cy : Int} (hx : x ≤ cx)
    {p : UInt8 × Int × Int} (hp : p ∈ cursors wrap x s cx cy) : x ≤ p.2.1 ∧ cy ≤ p.2.2 := by
  induction s generalizing cx cy with
  | nil => cases hp
  | cons c rest ih =>
    rcases List.mem_cons.mp hp with rfl | hp
    · exact ⟨hx, Int.le_refl cy⟩
    · split_ifs at hp
      · have := ih (Int.le_refl x) hp
        omega
      · have := ih (Int.le_refl x) hp
        omega
      · exact ih (by omega) hp

/-- The text has a character to draw. -/
def Draws (s : List UInt8) : Prop := ∃ c ∈ s, c ≠ 10

def leadingBreaks (s : List UInt8) : Nat := (s.takeWhile (· = 10)).length

/-- The first character that is drawn decides for all. -/
theorem forall_place_iff (wrap : Bool) (x : Int) (s : List UInt8) (y : Int) :
    (∀ p ∈ cursors wrap x s x y, p.1 ≠ 10 → Place p.2.1 p.2.2) ↔
      (Draws s → Place x (y + leadingBreaks s)) := by
  induction s generalizing y with
  | nil => simp [cursors, Draws]
  | cons c rest ih =>
    rw [cursors, List.forall_mem_cons]
    by_cases hc : c = 10
    · have hdraws : Draws (c :: rest) ↔ Draws rest := by simp [Draws, hc]
      have hleading : y + leadingBreaks (c :: rest) = y + 1 + leadingBreaks rest := by
        simp only [leadingBreaks, hc, List.takeWhile_cons, decide_true, if_true, List.length_cons]
        omega
      rw [if_pos hc, ih, hdraws, hleading]
      exact and_iff_right fun hne => absurd hc hne
    · have hdraws : Draws (c :: rest) := ⟨c, List.mem_cons_self, hc⟩
      have hleading : y + leadingBreaks (c :: rest) = y := by simp [leadingBreaks, hc]
      rw [if_neg hc, hleading]
      constructor
      · exact fun h _ => h.1 hc
      · intro h
        refine ⟨fun _ => h hdraws, fun p hp _ => ?_⟩
        split_ifs at hp
        · have := le_of_mem_cursors (Int.le_refl x) hp
          exact (h hdraws).mono this.1 (by omega)
        · have := le_of_mem_cursors (by omega) hp
          exact (h hdraws).mono this.1 this.2

/-! ### The console -/

/-- The cursor is on the screen. -/
structure Console.OnScreen (con : Console) : Prop where
  col : 0 ≤ con.cx ∧ con.cx < 100
  row : 0 ≤ con.cy ∧ con.cy < 37

theorem Console.onScreen_mk (initDone : Bool) {cx cy : Int} (hx : 0 ≤ cx ∧ cx < 100)
    (hy : 0 ≤ cy ∧ cy < 37) : OnScreen { initDone := initDone, cx := cx, cy := cy } := ⟨hx, hy⟩

/-- The call has a result, stores inside the framebuffer and leaves the cursor on the
screen. -/
def KeepsScreen (o : Option (List FbStore × Console)) : Prop :=
  ∃ stores con, o = some (stores, con) ∧ (∀ st ∈ stores, st.Inside) ∧ con.OnScreen

theorem fillStores_inside {n : Nat} (hn : (n : Int) ≤ vgaWidth * vgaHeight) (value : UInt32) :
    ∀ st ∈ fillStores n value, st.Inside := by
  unfold fillStores
  rw [List.forall_mem_map]
  intro i hi
  rw [List.mem_range] at hi
  exact ⟨Int.natCast_nonneg i, by show (i : Int) < _; omega⟩

theorem newLine_keepsScreen {con : Console} (h : con.OnScreen) : KeepsScreen con.newLine := by
  obtain ⟨hy, hy'⟩ := h.row
  unfold Console.newLine
  rw [Word.int_of_range (by omega) (by omega)]
  simp only [Option.bind_eq_bind, Option.bind_some, Option.pure_def]
  split_ifs with hlast
  · exact ⟨_, _, rfl, fillStores_inside (by decide) 0,
      Console.onScreen_mk con.initDone (by decide) (by decide)⟩
  · have hlt : con.cy + 1 < 37 := Int.not_le.mp hlast
    exact ⟨_, _, rfl, by simp, Console.onScreen_mk con.initDone (by decide) ⟨by omega, hlt⟩⟩

theorem vgaConsolePutc_keepsScreen (font : Font) {con : Console} (h : con.OnScreen) (c : UInt8) :
    KeepsScreen (vgaConsolePutc font con c) := by
  obtain ⟨hx, hx'⟩ := h.col
  obtain ⟨hy, hy'⟩ := h.row
  unfold vgaConsolePutc
  split_ifs
  · exact ⟨_, _, rfl, by simp, h⟩
  · exact ⟨_, _, rfl, by simp, Console.onScreen_mk con.initDone (by decide) h.row⟩
  · exact newLine_keepsScreen h
  · have hcell : CellOk con.cx con.cy :=
      ⟨⟨by omega, by omega⟩, ⟨by omega, by omega⟩, Or.inr (Or.inr (by omega))⟩
    obtain ⟨drawn, hdrawn, hinside⟩ :=
      (drawChar_inside_iff font con.cx con.cy c 0x00FFFFFF 0).mpr hcell
    rw [hdrawn, Word.int_of_range (by omega) (by omega)]
    simp only [Option.bind_eq_bind, Option.bind_some, Option.pure_def]
    split_ifs with hlast
    · obtain ⟨cleared, con', hnew, hcleared, hon⟩ := newLine_keepsScreen h
      rw [hnew]
      exact ⟨_, _, rfl, List.forall_mem_append.mpr ⟨hinside, hcleared⟩, hon⟩
    · have hlt : con.cx + 1 < 100 := Int.not_le.mp hlast
      exact ⟨_, _, rfl, hinside, Console.onScreen_mk con.initDone ⟨by omega, hlt⟩ h.row⟩

theorem putcLoop_keepsScreen (font : Font) {con : Console} (h : con.OnScreen) (s : List UInt8) :
    KeepsScreen (putcLoop font con s) := by
  induction s generalizing con with
  | nil => exact ⟨_, _, rfl, by simp, h⟩
  | cons c rest ih =>
    obtain ⟨stores, con', hputc, hinside, hon⟩ := vgaConsolePutc_keepsScreen font h c
    obtain ⟨more, con'', hrest, hmore, hon'⟩ := ih hon
    refine ⟨stores ++ more, con'', ?_, List.forall_mem_append.mpr ⟨hinside, hmore⟩, hon'⟩
    simp only [putcLoop, hputc, hrest, Option.bind_eq_bind, Option.bind_some, Option.pure_def]

inductive ConsoleCall where
  | clear
  | putc (c : UInt8)
  | puts (s : CString)

/-- The console after a call. -/
def Console.step (font : Font) (con : Console) : ConsoleCall → Option Console
  | .clear => some (vgaConsoleClear con)
  | .putc c => (vgaConsolePutc font con c).map Prod.snd
  | .puts s => (vgaConsolePuts font con s).map Prod.snd

theorem KeepsScreen.snd {o : Option (List FbStore × Console)} (h : KeepsScreen o) :
    ∃ con, o.map Prod.snd = some con ∧ con.OnScreen := by
  obtain ⟨stores, con, heq, -, hon⟩ := h
  exact ⟨con, by rw [heq]; rfl, hon⟩

theorem Console.step_onScreen (font : Font) {con : Console} (h : con.OnScreen) (c : ConsoleCall) :
    ∃ con', con.step font c = some con' ∧ con'.OnScreen := by
  cases c with
  | clear =>
    refine ⟨vgaConsoleClear con, rfl, ?_⟩
    unfold vgaConsoleClear
    split_ifs
    · exact Console.onScreen_mk con.initDone (by decide) (by decide)
    · exact h
  | putc c => exact (vgaConsolePutc_keepsScreen font h c).snd
  | puts s => exact (putcLoop_keepsScreen font h s.bytes).snd

theorem Console.run_onScreen (font : Font) {con : Console} (h : con.OnScreen)
    (calls : List ConsoleCall) :
    ∃ con', Run.execM (Console.step font) con calls = some con' ∧ con'.OnScreen := by
  induction calls generalizing con with
  | nil => exact ⟨con, rfl, h⟩
  | cons c calls ih =>
    obtain ⟨con', hstep, hon⟩ := Console.step_onScreen font h c
    obtain ⟨con'', hrun, hon'⟩ := ih hon
    exact ⟨con'', (Run.execM_cons hstep calls).trans hrun, hon'⟩

/-! ### The four functions -/

/-- The condition on a text of `vga_puts_at` (without `wrap`) or `vga_render_text` (with
it) at cell `(x, y)`: no coordinate overflows, and the first character that is drawn, which
stands in column `x` below the line breaks in front of it, is not before the framebuffer. -/
structure TextOk (wrap : Bool) (s : CString) (x y : Int) : Prop where
  range : ∀ p ∈ cursors wrap x s.bytes x y, InRange p
  first : Draws s.bytes → Place x (y + leadingBreaks s.bytes)

theorem textLoop_inside_iff_textOk (font : Font) (wrap : Bool) (s : CString) (fg bg : UInt32)
    (x : Int) {y : Int} (hy : -2 ^ 31 ≤ y) :
    StaysInside (textLoop font wrap x fg bg s.bytes x y) ↔ TextOk wrap s x y := by
  rw [textLoop_inside_iff font wrap x fg bg s.bytes x hy]
  have hplace := forall_place_iff wrap x s.bytes y
  constructor
  · intro h
    exact ⟨fun p hp => (h p hp).1, hplace.mp fun p hp => (h p hp).2⟩
  · intro h p hp
    exact ⟨h.range p hp, hplace.mpr h.first p hp⟩

theorem staysInside_unless {initDone : Bool} {o : Option (List FbStore)} {P : Prop}
    (h : StaysInside o ↔ P) :
    StaysInside (if initDone = false then some [] else o) ↔ (initDone = true → P) := by
  cases initDone with
  | false => exact iff_of_true (staysInside_some.mpr (by simp)) fun h => by cases h
  | true => simpa using h

/-- The console draws inside the framebuffer from every state its calls can reach.  The
three other functions do exactly when no coordinate overflows and the first character they
draw is not before the framebuffer. -/
theorem text_inside_iff (font : Font) (initDone : Bool) :
    (∀ calls s, ∃ con stores con', Run.execM (Console.step font) (Console.start initDone) calls =
        some con ∧ vgaConsolePuts font con s = some (stores, con') ∧ ∀ st ∈ stores, st.Inside) ∧
    (∀ s, StaysInside (vgaPuts font initDone s) ↔ (initDone = true → TextOk true s 0 0)) ∧
    (∀ s (x y : Int32) fg bg, StaysInside (vgaPutsAt font initDone s x y fg bg) ↔
      (initDone = true → TextOk false s x.toInt y.toInt)) ∧
    ∀ s (x y : Int32) fg bg, StaysInside (vgaRenderText font initDone s x y fg bg) ↔
      (initDone = true → TextOk true s x.toInt y.toInt) := by
  refine ⟨fun calls s => ?_, fun s => ?_, fun s x y fg bg => ?_, fun s x y fg bg => ?_⟩
  · have hstart : (Console.start initDone).OnScreen :=
      Console.onScreen_mk initDone (by decide) (by decide)
    obtain ⟨con, hrun, hon⟩ := Console.run_onScreen font hstart calls
    obtain ⟨stores, con', hputs, hinside, -⟩ := putcLoop_keepsScreen font hon s.bytes
    exact ⟨con, stores, con', hrun, hputs, hinside⟩
  · exact staysInside_unless (textLoop_inside_iff_textOk font true s _ _ 0 (by decide))
  · exact staysInside_unless (textLoop_inside_iff_textOk font false s fg bg _ y.le_toInt)
  · exact staysInside_unless (textLoop_inside_iff_textOk font true s fg bg _ y.le_toInt)

/-- The letter `A` one cell left of the screen, where its first pixel is eight places
before the framebuffer. -/
theorem vgaPutsAt_before_framebuffer :
    ∃ stores, vgaPutsAt (fun _ _ => 0) true ⟨[65], by decide⟩ (-1) 0 0x00FFFFFF 0 = some stores ∧
      ⟨-8, 0⟩ ∈ stores ∧ ¬ FbStore.Inside ⟨-8, 0⟩ ∧
      ¬ StaysInside (vgaPutsAt (fun _ _ => 0) true ⟨[65], by decide⟩ (-1) 0 0x00FFFFFF 0) := by
  have hmem : ((vgaPutsAt (fun _ _ => 0) true ⟨[65], by decide⟩ (-1) 0 0x00FFFFFF 0).map
      fun stores => decide (⟨-8, 0⟩ ∈ stores)) = some true := by decide +kernel
  obtain ⟨stores, heq, hin⟩ := Option.map_eq_some_iff.mp hmem
  have hbefore : ¬ FbStore.Inside ⟨-8, 0⟩ := fun h => absurd h.1 (by decide)
  refine ⟨stores, heq, of_decide_eq_true hin, hbefore, fun h => ?_⟩
  rw [heq, staysInside_some] at h
  exact hbefore (h _ (of_decide_eq_true hin))

end Moonlight
