/-
The display as a terminal.

A terminal is a grid of cells with a cursor.  The functions of the framebuffer driver
refine it: after any calls, each pixel of the screen is the one that the cell it lies in
asks for, and no store leaves the screen.  Cells of row 37 show their upper half only, and
the scroll of the console clears the whole grid.
-/
import Moonlight.Kernel.Vga
import Moonlight.Lib.Simulation

namespace Moonlight

/-- `vga_clear`. -/
def vgaClear (initDone : Bool) (color : UInt32) : List FbStore :=
  if initDone = false then [] else fillStores (vgaWidth * vgaHeight).toNat color

/-- `"Hello world\n"`. -/
def helloText : CString :=
  ⟨[72, 101, 108, 108, 111, 32, 119, 111, 114, 108, 100, 10], by decide⟩

/-- `vga_draw_hello`. -/
def vgaDrawHello (font : Font) (con : Console) : Option (List FbStore × Console) :=
  if con.initDone = false then some ([], con)
  else vgaConsolePuts font (vgaConsoleClear con) helloText

/-- The framebuffer after the stores, in order. -/
def paint (fb : Int → UInt32) (stores : List FbStore) : Int → UInt32 :=
  stores.foldl (fun fb st => Function.update fb st.index st.value) fb

/-- The console with the framebuffer it draws on. -/
structure Display where
  console : Console
  fb : Int → UInt32

inductive DisplayCall where
  | console (c : ConsoleCall)
  | hello
  | fill (color : UInt32)
  | puts (s : CString)
  | putsAt (s : CString) (x y : Int32) (fg bg : UInt32)
  | renderText (s : CString) (x y : Int32) (fg bg : UInt32)

/-- The stores of a call and the console after it. -/
def DisplayCall.run (font : Font) (con : Console) :
    DisplayCall → Option (List FbStore × Console)
  | .console .clear => some ([], vgaConsoleClear con)
  | .console (.putc c) => vgaConsolePutc font con c
  | .console (.puts s) => vgaConsolePuts font con s
  | .hello => vgaDrawHello font con
  | .fill color => some (vgaClear con.initDone color, con)
  | .puts s => (vgaPuts font con.initDone s).map (·, con)
  | .putsAt s x y fg bg => (vgaPutsAt font con.initDone s x y fg bg).map (·, con)
  | .renderText s x y fg bg => (vgaRenderText font con.initDone s x y fg bg).map (·, con)

def Display.step (font : Font) (d : Display) (c : DisplayCall) : Option Display :=
  (c.run font d.console).map fun r => { console := r.2, fb := paint d.fb r.1 }

/-! ### The terminal -/

/-- What a cell asks for: the pixels of before, one colour, or a character. -/
inductive Cell where
  | untouched
  | filled (color : UInt32)
  | shows (c : UInt8) (fg bg : UInt32)

abbrev Grid := Nat → Nat → Cell

def Grid.set (g : Grid) (x y : Nat) (cell : Cell) : Grid :=
  fun i j => if i = x ∧ j = y then cell else g i j

structure Terminal where
  cx : Nat
  cy : Nat
  grid : Grid

namespace Terminal

def start : Terminal := { cx := 0, cy := 0, grid := fun _ _ => .untouched }

def newLine (t : Terminal) : Terminal :=
  if t.cy + 1 < 37 then { t with cx := 0, cy := t.cy + 1 }
  else { cx := 0, cy := 36, grid := fun _ _ => .filled 0 }

def putc (t : Terminal) (c : UInt8) : Terminal :=
  if c = 13 then { t with cx := 0 }
  else if c = 10 then t.newLine
  else
    let t' := { t with grid := t.grid.set t.cx t.cy (.shows (printable c) 0x00FFFFFF 0) }
    if t.cx + 1 < 100 then { t' with cx := t.cx + 1 } else t'.newLine

def puts (t : Terminal) (s : List UInt8) : Terminal := s.foldl putc t

/-- A text from cell `(x, y)` on, where each character stands as `cursors` says. -/
def place (t : Terminal) (wrap : Bool) (s : List UInt8) (x y : Int) (fg bg : UInt32) : Terminal :=
  { t with
    grid := (cursors wrap x s x y).foldl
      (fun g p => if p.1 = 10 then g
        else g.set p.2.1.toNat p.2.2.toNat (.shows (printable p.1) fg bg)) t.grid }

def step (t : Terminal) : DisplayCall → Terminal
  | .console .clear => { t with cx := 0, cy := 0 }
  | .console (.putc c) => t.putc c
  | .console (.puts s) => t.puts s.bytes
  | .hello => puts { t with cx := 0, cy := 0 } helloText.bytes
  | .fill color => { t with grid := fun _ _ => .filled color }
  | .puts s => t.place true s.bytes 0 0 0x00FFFFFF 0
  | .putsAt s x y fg bg => t.place false s.bytes x.toInt y.toInt fg bg
  | .renderText s x y fg bg => t.place true s.bytes x.toInt y.toInt fg bg

end Terminal

/-- The colour of the pixel in column `px` and line `py` of a cell, over the pixel that was
there before. -/
def Cell.pixel (font : Font) (old : UInt32) (px py : Nat) : Cell → UInt32
  | .untouched => old
  | .filled color => color
  | .shows c fg bg =>
      if font c (py / 2) &&& (1 <<< UInt8.ofNat px) ≠ 0 then fg else bg

/-- The framebuffer shows the grid, and outside the screen it is as before. -/
structure Shown (font : Font) (old : Int → UInt32) (g : Grid) (fb : Int → UInt32) : Prop where
  screen : ∀ {px py : Nat}, px < 800 → py < 600 → fb (py * 800 + px) =
    (g (px / 8) (py / 16)).pixel font (old (py * 800 + px)) (px % 8) (py % 16)
  outside : ∀ {i : Int}, ¬ (0 ≤ i ∧ i < 480000) → fb i = old i

/-! ### Painting -/

theorem paint_append (fb : Int → UInt32) (first rest : List FbStore) :
    paint fb (first ++ rest) = paint (paint fb first) rest := List.foldl_append ..

theorem paint_singleton (fb : Int → UInt32) (st : FbStore) (i : Int) :
    paint fb [st] i = if i = st.index then st.value else fb i := by
  show Function.update fb st.index st.value i = _
  rw [Function.update_apply]

theorem paint_pair (fb : Int → UInt32) (j k : Int) (v : UInt32) (i : Int) :
    paint fb [⟨j, v⟩, ⟨k, v⟩] i = if i = j ∨ i = k then v else fb i := by
  rw [← List.singleton_append, paint_append, paint_singleton, paint_singleton]
  by_cases hk : i = k
  · rw [if_pos hk, if_pos (Or.inr hk)]
  · rw [if_neg hk]
    exact if_congr (or_iff_left hk).symm rfl rfl

theorem paint_fillStores (fb : Int → UInt32) (n : Nat) (v : UInt32) (i : Int) :
    paint fb (fillStores n v) i = if 0 ≤ i ∧ i < n then v else fb i := by
  induction n with
  | zero => exact (if_neg (by omega)).symm
  | succ n ih =>
    have hsucc : fillStores (n + 1) v = fillStores n v ++ [⟨(n : Int), v⟩] := by
      simp only [fillStores, List.range_succ, List.map_append, List.map_cons, List.map_nil]
    rw [hsucc, paint_append, paint_singleton, ih]
    by_cases hlast : i = n
    · rw [if_pos hlast, if_pos (by omega)]
    · rw [if_neg hlast]
      exact if_congr (by omega) rfl rfl

/-- Pixel `(px, py)` lies in the part of cell `(x, y)` that row `row` and column `col` of a
bitmap fill. -/
def InCell (x y row col px py : Nat) : Prop :=
  (px / 8 = x ∧ py / 16 = y) ∧ (py % 16 / 2, px % 8) = (row, col)

instance (x y row col px py : Nat) : Decidable (InCell x y row col px py) :=
  inferInstanceAs (Decidable (_ ∧ _))

theorem inCell_iff {x y row col px py : Nat} (hrow : row < 8) (hcol : col < 8) :
    InCell x y row col px py ↔
      px = x * 8 + col ∧ (py = y * 16 + row * 2 ∨ py = y * 16 + row * 2 + 1) := by
  rw [InCell, Prod.mk.injEq]
  omega

/-- The stores of one pixel of a bitmap: two, one above the other, or none where the pixel
is right of the screen or below it. -/
def bitStores (x y : Int) (row col : Nat) (colr : UInt32) : List FbStore :=
  if x * 8 + col < 800 ∧ y * 16 + row * 2 < 600 then
    [⟨(y * 16 + row * 2) * 800 + (x * 8 + col), colr⟩,
      ⟨(y * 16 + row * 2 + 1) * 800 + (x * 8 + col), colr⟩]
  else []

theorem pixelStores_eq {x y : Int} (hx : 0 ≤ x ∧ x < 2 ^ 28) (hy : 0 ≤ y ∧ y < 2 ^ 27)
    {row col : Nat} (hrow : row < 8) (hcol : col < 8) (colr : UInt32) :
    pixelStores x y row col colr = some (bitStores x y row col colr) := by
  have hleft : Word.int (x * 8) = some (x * 8) := Word.int_of_range (by omega) (by omega)
  have hpx : Word.int (x * 8 + col) = some (x * 8 + col) := Word.int_of_range (by omega) (by omega)
  have habove : Word.int (y * 16) = some (y * 16) := Word.int_of_range (by omega) (by omega)
  have hpy : Word.int (y * 16 + row * 2) = some (y * 16 + row * 2) :=
    Word.int_of_range (by omega) (by omega)
  simp only [pixelStores, hleft, hpx, habove, hpy, Option.bind_eq_bind, Option.bind_some,
    Option.pure_def, bitStores]
  have hwidth : vgaWidth = 800 := rfl
  have hheight : vgaHeight = 600 := rfl
  by_cases hon : x * 8 + col < 800 ∧ y * 16 + row * 2 < 600
  · rw [if_pos hon, if_neg (by omega), fbIndex_of_range hon.1 hon.2 (by omega), Option.bind_some,
      if_pos (by omega), fbIndex_of_range hon.1 (by omega) (by omega), Option.bind_some]
  · rw [if_neg hon, if_pos (by omega)]

/-- What a pixel of a bitmap does to the framebuffer. -/
theorem paint_bitStores (fb : Int → UInt32) (x y : Nat) {row col : Nat} (hrow : row < 8)
    (hcol : col < 8) (colr : UInt32) :
    (∀ px py : Nat, px < 800 → py < 600 → paint fb (bitStores x y row col colr) (py * 800 + px) =
      if InCell x y row col px py then colr else fb (py * 800 + px)) ∧
    ∀ i : Int, ¬ (0 ≤ i ∧ i < 480000) → paint fb (bitStores x y row col colr) i = fb i := by
  unfold bitStores
  by_cases hon : (x : Int) * 8 + col < 800 ∧ (y : Int) * 16 + row * 2 < 600
  · rw [if_pos hon]
    refine ⟨fun px py hright hbelow => ?_, fun i hi => ?_⟩
    · rw [paint_pair]
      refine if_congr ?_ rfl rfl
      rw [inCell_iff hrow hcol]
      omega
    · rw [paint_pair, if_neg (by omega)]
  · rw [if_neg hon]
    refine ⟨fun px py hright hbelow => ?_, fun i hi => rfl⟩
    rw [if_neg (by rw [inCell_iff hrow hcol]; omega)]
    rfl

theorem inOrder_cons (o : Option (List FbStore)) (steps : List (Option (List FbStore))) :
    inOrder (o :: steps) = andThen o (inOrder steps) := rfl

/-- The pixels of a bitmap in any order, each with its colour. -/
theorem paint_cells {x y : Nat} (hx : (x : Int) < 2 ^ 28) (hy : (y : Int) < 2 ^ 27)
    (colr : Nat × Nat → UInt32) {cells : List (Nat × Nat)}
    (hcells : ∀ cell ∈ cells, cell.1 < 8 ∧ cell.2 < 8) :
    ∃ stores, inOrder (cells.map fun cell => pixelStores x y cell.1 cell.2 (colr cell)) =
      some stores ∧ ∀ fb : Int → UInt32,
      (∀ px py : Nat, px < 800 → py < 600 → paint fb stores (py * 800 + px) =
        if (px / 8 = x ∧ py / 16 = y) ∧ (py % 16 / 2, px % 8) ∈ cells then
          colr (py % 16 / 2, px % 8) else fb (py * 800 + px)) ∧
      ∀ i : Int, ¬ (0 ≤ i ∧ i < 480000) → paint fb stores i = fb i := by
  induction cells with
  | nil =>
    refine ⟨[], rfl, fun fb => ⟨fun px py _ _ => ?_, fun i _ => rfl⟩⟩
    rw [if_neg (fun h => by cases h.2)]
    rfl
  | cons cell cells ih =>
    obtain ⟨rest, hrest, hpaint⟩ := ih fun c hc => hcells c (List.mem_cons_of_mem cell hc)
    obtain ⟨hrow, hcol⟩ := hcells cell List.mem_cons_self
    refine ⟨bitStores x y cell.1 cell.2 (colr cell) ++ rest, ?_, fun fb => ?_⟩
    · rw [List.map_cons, inOrder_cons, pixelStores_eq ⟨by omega, hx⟩ ⟨by omega, hy⟩ hrow hcol,
        hrest]
      rfl
    have hpixel := paint_bitStores fb x y hrow hcol (colr cell)
    rw [paint_append]
    refine ⟨fun px py hright hbelow => ?_, fun i hi => ?_⟩
    · rw [(hpaint _).1 px py hright hbelow, hpixel.1 px py hright hbelow]
      by_cases hlater : (px / 8 = x ∧ py / 16 = y) ∧ (py % 16 / 2, px % 8) ∈ cells
      · rw [if_pos hlater, if_pos ⟨hlater.1, List.mem_cons_of_mem cell hlater.2⟩]
      · rw [if_neg hlater]
        by_cases hin : InCell x y cell.1 cell.2 px py
        · have hcell : (py % 16 / 2, px % 8) = cell := hin.2
          rw [if_pos hin, if_pos ⟨hin.1, List.mem_cons.mpr (Or.inl hcell)⟩, hcell]
        · rw [if_neg hin, if_neg]
          rintro ⟨hplace, hmem⟩
          rcases List.mem_cons.mp hmem with heq | hmem
          · exact hin ⟨hplace, heq⟩
          · exact hlater ⟨hplace, hmem⟩
    · rw [(hpaint _).2 i hi, hpixel.2 i hi]

theorem mem_glyphCells {row col : Nat} (hrow : row < 8) (hcol : col < 8) :
    (row, col) ∈ glyphCells :=
  List.mem_flatMap.mpr ⟨row, List.mem_range.mpr hrow,
    List.mem_map.mpr ⟨col, List.mem_range.mpr hcol, rfl⟩⟩

namespace Shown

variable {font : Font} {old fb : Int → UInt32} {g : Grid}

theorem start (font : Font) (old : Int → UInt32) : Shown font old (fun _ _ => .untouched) old :=
  ⟨fun _ _ => rfl, fun _ => rfl⟩

theorem fill (h : Shown font old g fb) {color : UInt32} {stores : List FbStore}
    (hstores : fillStores (vgaWidth * vgaHeight).toNat color = stores) :
    Shown font old (fun _ _ => .filled color) (paint fb stores) := by
  have hsize : (vgaWidth * vgaHeight).toNat = 480000 := by decide
  rw [hsize] at hstores
  subst hstores
  constructor
  · intro px py hright hbelow
    rw [paint_fillStores, if_pos (by omega)]
    rfl
  · intro i hi
    rw [paint_fillStores, if_neg (by omega)]
    exact h.outside hi

theorem draw (h : Shown font old g fb) {x y : Int} (hx : 0 ≤ x ∧ x < 2 ^ 28)
    (hy : 0 ≤ y ∧ y < 2 ^ 27) (c : UInt8) (fg bg : UInt32) :
    ∃ stores, drawChar font x y c fg bg = some stores ∧
      Shown font old (g.set x.toNat y.toNat (.shows (printable c) fg bg)) (paint fb stores) := by
  obtain ⟨x, rfl⟩ := Int.eq_ofNat_of_zero_le hx.1
  obtain ⟨y, rfl⟩ := Int.eq_ofNat_of_zero_le hy.1
  have hcells : ∀ cell ∈ glyphCells, cell.1 < 8 ∧ cell.2 < 8 := by decide
  obtain ⟨stores, hstores, hpaint⟩ := paint_cells hx.2 hy.2
    (fun cell => if font (printable c) cell.1 &&& (1 <<< UInt8.ofNat cell.2) ≠ 0 then fg else bg)
    hcells
  refine ⟨stores, hstores, fun {px py} hright hbelow => ?_, fun {i} hi => ?_⟩
  · rw [(hpaint fb).1 px py hright hbelow, h.screen hright hbelow, Int.toNat_natCast,
      Int.toNat_natCast, Grid.set]
    by_cases hin : px / 8 = x ∧ py / 16 = y
    · rw [if_pos hin, if_pos ⟨hin, mem_glyphCells (by omega) (by omega)⟩]
      rfl
    · rw [if_neg hin, if_neg fun hmem => hin hmem.1]
  · rw [(hpaint fb).2 i hi, h.outside hi]

end Shown

/-! ### The calls -/

/-- The display shows the terminal: the cursors agree and lie on the screen, and the
framebuffer shows the grid. -/
structure Refines (font : Font) (old : Int → UInt32) (d : Display) (t : Terminal) : Prop where
  initDone : d.console.initDone = true
  col : d.console.cx = t.cx
  row : d.console.cy = t.cy
  onScreen : t.cx < 100 ∧ t.cy < 37
  shown : Shown font old t.grid d.fb

section Calls

variable {font : Font} {old : Int → UInt32} {con : Console} {fb : Int → UInt32} {t : Terminal}

theorem Refines.newLine (h : Refines font old ⟨con, fb⟩ t) :
    ∃ stores con', con.newLine = some (stores, con') ∧
      Refines font old ⟨con', paint fb stores⟩ t.newLine := by
  obtain ⟨hinit, hcol, hrow, ⟨hx, hy⟩, hshown⟩ := h
  have hrow' : con.cy = t.cy := hrow
  have hrows : consoleRows = 37 := rfl
  unfold Console.newLine Terminal.newLine
  rw [Word.int_of_range (by omega) (by omega)]
  simp only [Option.bind_eq_bind, Option.bind_some, Option.pure_def]
  by_cases hlast : t.cy + 1 < 37
  · rw [if_neg (by omega), if_pos hlast]
    refine ⟨_, _, rfl, hinit, rfl, ?_, ⟨Nat.zero_lt_succ 99, hlast⟩, hshown⟩
    show con.cy + 1 = ((t.cy + 1 : Nat) : Int)
    omega
  · rw [if_pos (by omega), if_neg hlast]
    -- the list of stores stays a name: it has one entry for each pixel
    generalize hscroll : scrollStores = cleared
    exact ⟨cleared, _, rfl, hinit, rfl, rfl, ⟨Nat.zero_lt_succ 99, Nat.lt_succ_self 36⟩,
      hshown.fill hscroll⟩

theorem Refines.putc (h : Refines font old ⟨con, fb⟩ t) (c : UInt8) :
    ∃ stores con', vgaConsolePutc font con c = some (stores, con') ∧
      Refines font old ⟨con', paint fb stores⟩ (t.putc c) := by
  have hinit : con.initDone = true := h.initDone
  have hcol : con.cx = t.cx := h.col
  have hrow : con.cy = t.cy := h.row
  obtain ⟨hx, hy⟩ := h.onScreen
  unfold vgaConsolePutc Terminal.putc
  rw [if_neg (by rw [hinit]; decide)]
  by_cases hreturn : c = 13
  · rw [if_pos hreturn, if_pos hreturn]
    exact ⟨_, _, rfl, hinit, rfl, hrow, ⟨Nat.zero_lt_succ 99, hy⟩, h.shown⟩
  rw [if_neg hreturn, if_neg hreturn]
  by_cases hbreak : c = 10
  · rw [if_pos hbreak, if_pos hbreak]
    exact h.newLine
  rw [if_neg hbreak, if_neg hbreak]
  obtain ⟨drawn, hdrawn, hshown⟩ :=
    h.shown.draw (x := con.cx) (y := con.cy) ⟨by omega, by omega⟩ ⟨by omega, by omega⟩ c
      0x00FFFFFF 0
  rw [hcol, hrow, Int.toNat_natCast, Int.toNat_natCast] at hshown
  rw [hdrawn, Word.int_of_range (by omega) (by omega)]
  simp only [Option.bind_eq_bind, Option.bind_some, Option.pure_def]
  have hcols : consoleCols = 100 := rfl
  by_cases hlast : t.cx + 1 < 100
  · rw [if_neg (by omega), if_pos hlast]
    refine ⟨_, _, rfl, hinit, ?_, hrow, ⟨hlast, hy⟩, hshown⟩
    show con.cx + 1 = ((t.cx + 1 : Nat) : Int)
    omega
  · rw [if_pos (by omega), if_neg hlast]
    have hdrawn' : Refines font old ⟨con, paint fb drawn⟩
        { t with grid := t.grid.set t.cx t.cy (.shows (printable c) 0x00FFFFFF 0) } :=
      ⟨hinit, hcol, hrow, h.onScreen, hshown⟩
    obtain ⟨cleared, con', hnew, hrefines⟩ := hdrawn'.newLine
    rw [hnew]
    exact ⟨_, _, rfl, by rw [paint_append]; exact hrefines⟩

theorem Refines.putcLoop (h : Refines font old ⟨con, fb⟩ t) (s : List UInt8) :
    ∃ stores con', putcLoop font con s = some (stores, con') ∧
      Refines font old ⟨con', paint fb stores⟩ (t.puts s) := by
  induction s generalizing con fb t with
  | nil => exact ⟨[], con, rfl, h⟩
  | cons c rest ih =>
    obtain ⟨stores, con', hputc, hc⟩ := h.putc c
    obtain ⟨more, con'', hrest, hend⟩ := ih hc
    refine ⟨stores ++ more, con'', ?_, by rw [paint_append]; exact hend⟩
    simp only [Moonlight.putcLoop, hputc, hrest, Option.bind_eq_bind, Option.bind_some,
      Option.pure_def]

/-- A text at a place changes the cells its characters stand in. -/
theorem Shown.textLoop {g : Grid} (h : Shown font old g fb) (wrap : Bool) {x : Int} (hx : 0 ≤ x)
    (fg bg : UInt32) {s : List UInt8} {cx cy : Int} (hcx : 0 ≤ cx) (hcy : 0 ≤ cy)
    (hrange : ∀ p ∈ cursors wrap x s cx cy, InRange p) :
    ∃ stores, textLoop font wrap x fg bg s cx cy = some stores ∧
      Shown font old ((cursors wrap x s cx cy).foldl
        (fun g p => if p.1 = 10 then g
          else g.set p.2.1.toNat p.2.2.toNat (.shows (printable p.1) fg bg)) g)
        (paint fb stores) := by
  induction s generalizing g fb cx cy with
  | nil => exact ⟨[], rfl, h⟩
  | cons c rest ih =>
    rw [cursors, List.forall_mem_cons] at hrange
    obtain ⟨hfirst, hrest⟩ := hrange
    rw [Moonlight.textLoop, cursors, List.foldl_cons]
    unfold InRange at hfirst
    by_cases hc : c = 10
    · rw [if_pos hc] at hfirst hrest
      have hlast : cy < 2 ^ 31 - 1 := hfirst
      rw [if_pos hc, if_pos hc, if_pos hc, Word.int_of_range (by omega) (by omega),
        Option.bind_some]
      exact ih h hx (by omega) hrest
    · rw [if_neg hc] at hfirst hrest
      rw [if_neg hc, if_neg hc, if_neg hc]
      have hright : cx < 2 ^ 28 := hfirst.1.2
      have hbelow : cy < 2 ^ 27 := hfirst.2.2
      obtain ⟨drawn, hdrawn, hshown⟩ := h.draw ⟨hcx, hright⟩ ⟨hcy, hbelow⟩ c fg bg
      rw [hdrawn, Word.int_of_range (by omega) (by omega), Option.bind_some]
      by_cases hwrap : wrap = true ∧ cx + 1 ≥ consoleCols
      · rw [if_pos hwrap] at hrest
        rw [if_pos hwrap, if_pos hwrap, Word.int_of_range (by omega) (by omega), Option.bind_some]
        obtain ⟨more, hmore, hend⟩ := ih hshown hx (by omega) hrest
        exact ⟨drawn ++ more, by rw [hmore]; rfl, by rw [paint_append]; exact hend⟩
      · rw [if_neg hwrap] at hrest
        rw [if_neg hwrap, if_neg hwrap]
        obtain ⟨more, hmore, hend⟩ := ih hshown (by omega) hcy hrest
        exact ⟨drawn ++ more, by rw [hmore]; rfl, by rw [paint_append]; exact hend⟩

theorem Refines.place (h : Refines font old ⟨con, fb⟩ t) (wrap : Bool) {s : List UInt8} {x y : Int}
    (hx : 0 ≤ x) (hy : 0 ≤ y) (fg bg : UInt32) (hrange : ∀ p ∈ cursors wrap x s x y, InRange p) :
    ∃ stores, textLoop font wrap x fg bg s x y = some stores ∧
      Refines font old ⟨con, paint fb stores⟩ (t.place wrap s x y fg bg) := by
  obtain ⟨stores, hstores, hshown⟩ := h.shown.textLoop wrap hx fg bg hx hy hrange
  exact ⟨stores, hstores, h.initDone, h.col, h.row, h.onScreen, hshown⟩

theorem Refines.home (h : Refines font old ⟨con, fb⟩ t) :
    Refines font old ⟨vgaConsoleClear con, fb⟩ { t with cx := 0, cy := 0 } := by
  have hinit : con.initDone = true := h.initDone
  unfold vgaConsoleClear
  rw [if_pos hinit]
  exact ⟨hinit, rfl, rfl, ⟨Nat.zero_lt_succ 99, Nat.zero_lt_succ 36⟩, h.shown⟩

end Calls

/-- A text that is placed starts on the grid, and no coordinate of it overflows. -/
def DisplayCall.OnGrid : DisplayCall → Prop
  | .puts s => ∀ p ∈ cursors true 0 s.bytes 0 0, InRange p
  | .putsAt s x y _ _ => (0 ≤ x.toInt ∧ 0 ≤ y.toInt) ∧
      ∀ p ∈ cursors false x.toInt s.bytes x.toInt y.toInt, InRange p
  | .renderText s x y _ _ => (0 ≤ x.toInt ∧ 0 ≤ y.toInt) ∧
      ∀ p ∈ cursors true x.toInt s.bytes x.toInt y.toInt, InRange p
  | _ => True

theorem Display.step_of_run {font : Font} {d : Display} {c : DisplayCall} {stores : List FbStore}
    {con : Console} (h : c.run font d.console = some (stores, con)) :
    d.step font c = some ⟨con, paint d.fb stores⟩ := by
  rw [Display.step, h]
  rfl

theorem Refines.step {font : Font} {old : Int → UInt32} {d : Display} {t : Terminal}
    (h : Refines font old d t) {c : DisplayCall} (hc : c.OnGrid) :
    ∃ d', d.step font c = some d' ∧ Refines font old d' (t.step c) := by
  have hinit : ¬ d.console.initDone = false := by rw [h.initDone]; decide
  cases c with
  | console c =>
    cases c with
    | clear => exact ⟨_, Display.step_of_run rfl, h.home⟩
    | putc c =>
      obtain ⟨stores, con', hrun, hrefines⟩ := h.putc c
      exact ⟨_, Display.step_of_run hrun, hrefines⟩
    | puts s =>
      obtain ⟨stores, con', hrun, hrefines⟩ := h.putcLoop s.bytes
      exact ⟨_, Display.step_of_run hrun, hrefines⟩
  | hello =>
    obtain ⟨stores, con', hrun, hrefines⟩ := h.home.putcLoop helloText.bytes
    exact ⟨_, Display.step_of_run ((if_neg hinit).trans hrun), hrefines⟩
  | fill color =>
    generalize hstores : fillStores (vgaWidth * vgaHeight).toNat color = stores
    have hrun : (DisplayCall.fill color).run font d.console = some (stores, d.console) := by
      rw [DisplayCall.run, vgaClear, if_neg hinit, hstores]
    exact ⟨_, Display.step_of_run hrun, h.initDone, h.col, h.row, h.onScreen, h.shown.fill hstores⟩
  | puts s =>
    obtain ⟨stores, hstores, hrefines⟩ :=
      h.place true (Int.le_refl 0) (Int.le_refl 0) 0x00FFFFFF 0 hc
    refine ⟨_, Display.step_of_run ?_, hrefines⟩
    rw [DisplayCall.run, vgaPuts, if_neg hinit, hstores]
    rfl
  | putsAt s x y fg bg =>
    obtain ⟨stores, hstores, hrefines⟩ := h.place false hc.1.1 hc.1.2 fg bg hc.2
    refine ⟨_, Display.step_of_run ?_, hrefines⟩
    rw [DisplayCall.run, vgaPutsAt, if_neg hinit, hstores]
    rfl
  | renderText s x y fg bg =>
    obtain ⟨stores, hstores, hrefines⟩ := h.place true hc.1.1 hc.1.2 fg bg hc.2
    refine ⟨_, Display.step_of_run ?_, hrefines⟩
    rw [DisplayCall.run, vgaRenderText, if_neg hinit, hstores]
    rfl

theorem display_simulation (font : Font) (old : Int → UInt32) :
    Run.Simulation (Display.step font) Terminal.step DisplayCall.OnGrid (Refines font old) :=
  ⟨fun h hc => h.step hc⟩

/-- Whatever is written on the initialised display, it shows the terminal that the same
calls lead to, and no store leaves the screen. -/
theorem display_refines_terminal (font : Font) (fb : Int → UInt32) {calls : List DisplayCall}
    (h : ∀ c ∈ calls, c.OnGrid) :
    ∃ d, Run.execM (Display.step font) { console := Console.start true, fb := fb } calls = some d ∧
      Refines font fb d (Run.exec Terminal.step Terminal.start calls) :=
  (display_simulation font fb).run
    ⟨rfl, rfl, rfl, ⟨Nat.zero_lt_succ 99, Nat.zero_lt_succ 36⟩, Shown.start font fb⟩ h

/-- `"A"`, placed in the cell where the console is about to write `"B"`. -/
def overwrite : List DisplayCall :=
  [.putsAt ⟨[65], by decide⟩ 1 2 5 6, .console (.puts ⟨[10, 10, 32, 66], by decide⟩)]

theorem overwrite_refines_terminal :
    (∀ c ∈ overwrite, c.OnGrid) ∧ ∃ d,
      Run.execM (Display.step fun _ _ => 0xFF)
        { console := Console.start true, fb := fun _ => 7 } overwrite = some d ∧
      Refines (fun _ _ => 0xFF) (fun _ => 7) d (Run.exec Terminal.step Terminal.start overwrite) := by
  have h : ∀ c ∈ overwrite, c.OnGrid := by
    intro c hc
    rcases List.mem_cons.mp hc with rfl | hc
    · refine ⟨by decide, fun p hp => ?_⟩
      rw [List.mem_singleton.mp (show p ∈ [(65, 1, 2)] from hp), InRange, if_neg (by decide)]
      decide
    · rw [List.mem_singleton.mp hc]
      trivial
  exact ⟨h, display_refines_terminal (fun _ _ => 0xFF) (fun _ => 7) h⟩

end Moonlight
