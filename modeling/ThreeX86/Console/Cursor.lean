import ThreeX86.Console.Interrupts

/-!
Where the cursor can be when an interrupt comes, and what the echo does there.
-/

namespace ThreeX86.Console

open Machine Vga Transition

def OnGrid (v : Vga) : Prop := v.col.toNat < 80 ∧ v.line.toNat < 25

/-- The cursor as an interrupt can find it, in the middle of `vga_console_putchar`. -/
def Near (v : Vga) : Prop :=
  (v.col.toNat ≤ 80 ∧ v.line.toNat < 25) ∨ (v.col.toNat < 80 ∧ v.line.toNat ≤ 25)

def cellIndex (v : Vga) : Nat := v.line.toNat * 80 + v.col.toNat

theorem OnGrid.near {v : Vga} (grid : OnGrid v) : Near v := by
  unfold OnGrid at grid
  unfold Near
  omega

theorem toNat_succ {a : Word} (h : a.toNat < 2^32 - 1) : (a + 1#32).toNat = a.toNat + 1 := by
  rw [BitVec.toNat_add, BitVec.toNat_ofNat]
  omega

theorem toNat_cellIndex {v : Vga} (near : Near v) : (v.line * screenWidth + v.col).toNat = cellIndex v := by
  unfold Near at near
  unfold cellIndex
  rw [BitVec.toNat_add, BitVec.toNat_mul, show screenWidth.toNat = 80 from rfl]
  omega

theorem toNat_tab {a : Word} (h : a.toNat ≤ 80) : (roundUp (a + 1#32) 4#32).toNat = (a.toNat / 4 + 1) * 4 := by
  have next := toNat_succ (a := a) (by omega)
  have four : (4#32).toNat = 4 := rfl
  rw [toNat_roundUp _ _ ⟨2, rfl⟩ (by rw [next, four]; omega), next, four]
  omega

/-- What an echoed character must not do where the cursor is. -/
structure HarmlessChar (v : Vga) (c : Byte) : Prop where
  print : isprint c.toInt = true → cellIndex v < 2000
  tab : c = 0x09#8 → v.line.toNat = 25 → v.col.toNat < 76
  newline : c = 0x0a#8 → OnGrid v

theorem putcharSwitch_near {v : Vga} {c : Byte} (near : Near v) (on : v.OnScreen) (harmless : HarmlessChar v c) :
    (putcharSwitch v c).OnScreen ∧ v.line.toNat ≤ (putcharSwitch v c).line.toNat ∧
    (((putcharSwitch v c).col.toNat ≤ 84 ∧ (putcharSwitch v c).line.toNat < 25) ∨
      ((putcharSwitch v c).col.toNat < 80 ∧ (putcharSwitch v c).line.toNat ≤ 25)) := by
  have index := toNat_cellIndex near
  unfold Near at near
  unfold putcharSwitch
  by_cases newline : c = 0x0a#8
  · obtain ⟨col, line⟩ := harmless.newline newline
    have next := toNat_succ (a := v.line) (by omega)
    rw [if_pos newline]
    refine ⟨on, ?_, ?_⟩
    · show v.line.toNat ≤ (v.line + 1#32).toNat
      omega
    · show (v.col.toNat ≤ 84 ∧ (v.line + 1#32).toNat < 25) ∨ (v.col.toNat < 80 ∧ (v.line + 1#32).toNat ≤ 25)
      omega
  · rw [if_neg newline]
    by_cases carriage : c = 0x0d#8
    · rw [if_pos carriage]
      refine ⟨on, Nat.le_refl _, Or.inr ⟨Nat.zero_lt_succ 79, ?_⟩⟩
      show v.line.toNat ≤ 25
      omega
    · rw [if_neg carriage]
      by_cases tab : c = 0x09#8
      · have stop := toNat_tab (a := v.col) (by omega)
        have edge := harmless.tab tab
        rw [if_pos tab]
        refine ⟨on, Nat.le_refl _, ?_⟩
        simp only [stop]
        omega
      · rw [if_neg tab]
        by_cases printable : isprint c.toInt = true
        · have room := harmless.print printable
          have next := toNat_succ (a := v.col) (by omega)
          rw [if_pos printable]
          refine ⟨on.storeCell (glyph c) (by omega), Nat.le_refl _, ?_⟩
          show ((v.col + 1#32).toNat ≤ 84 ∧ v.line.toNat < 25) ∨ ((v.col + 1#32).toNat < 80 ∧ v.line.toNat ≤ 25)
          unfold cellIndex at room
          omega
        · rw [if_neg printable]
          refine ⟨on, Nat.le_refl _, ?_⟩
          omega

theorem putcharWrap_near {v : Vga}
    (near : (v.col.toNat ≤ 84 ∧ v.line.toNat < 25) ∨ (v.col.toNat < 80 ∧ v.line.toNat ≤ 25)) :
    v.line.toNat ≤ (putcharWrap v).line.toNat ∧ (putcharWrap v).col.toNat < 80 ∧ (putcharWrap v).line.toNat ≤ 25 := by
  have width : screenWidth.toNat = 80 := rfl
  unfold putcharWrap
  by_cases full : v.col ≥ screenWidth
  · have edge := BitVec.le_def.mp full
    have next := toNat_succ (a := v.line) (by omega)
    rw [if_pos full]
    refine ⟨?_, Nat.zero_lt_succ 79, ?_⟩
    · show v.line.toNat ≤ (v.line + 1#32).toNat
      omega
    · show (v.line + 1#32).toNat ≤ 25
      omega
  · rw [if_neg full]
    rw [ge_iff_le, BitVec.le_def] at full
    omega

theorem putcharWrap_stored (v : Vga) : (putcharWrap v).stored = v.stored := by
  unfold putcharWrap
  split <;> rfl

theorem putcharScroll_near {v : Vga} (on : v.OnScreen) (col : v.col.toNat < 80) (line : v.line.toNat ≤ 25) :
    (putcharScroll v).OnScreen ∧ OnGrid (putcharScroll v) ∧
    (24 ≤ v.line.toNat → 24 ≤ (putcharScroll v).line.toNat) := by
  have height : screenHeight.toNat = 25 := rfl
  unfold putcharScroll
  by_cases bottom : v.line = screenHeight
  · obtain ⟨onScreen, colKept, lineKept, -⟩ := vgaConsoleScrup_spec on
    rw [if_pos bottom]
    generalize vgaConsoleScrup v = scrolled at onScreen colKept lineKept ⊢
    have back : (scrolled.line - 1#32).toNat = 24 := by
      rw [lineKept, bottom]
      rfl
    refine ⟨onScreen, ⟨?_, ?_⟩, fun _ => ?_⟩
    · show scrolled.col.toNat < 80
      rwa [colKept]
    · show (scrolled.line - 1#32).toNat < 25
      omega
    · show 24 ≤ (scrolled.line - 1#32).toNat
      omega
  · have above : v.line.toNat ≠ 25 := fun same => bottom (BitVec.eq_of_toNat_eq (same.trans height.symm))
    rw [if_neg bottom]
    exact ⟨on, ⟨col, by omega⟩, id⟩

theorem stored_clearCells (v : Vga) (i : Word) (count : Nat) : ∀ a ∈ v.stored, a ∈ (v.clearCells i count).stored := by
  induction count generalizing v i with
  | zero => exact fun a member => member
  | succ count ih => exact fun a member => ih _ _ a (List.mem_append_left _ member)

theorem stored_scrup (v : Vga) : ∀ a ∈ v.stored, a ∈ (vgaConsoleScrup v).stored := by
  intro a member
  unfold vgaConsoleScrup
  exact stored_clearCells _ _ _ a (List.mem_append_left _ member)

theorem putchar_near {v : Vga} {c : Byte} (near : Near v) (on : v.OnScreen) (harmless : HarmlessChar v c) :
    (vgaConsolePutchar v c).OnScreen ∧ OnGrid (vgaConsolePutchar v c) ∧
    (24 ≤ v.line.toNat → 24 ≤ (vgaConsolePutchar v c).line.toNat) := by
  obtain ⟨onSwitch, lineSwitch, nearSwitch⟩ := putcharSwitch_near near on harmless
  obtain ⟨lineWrap, col, line⟩ := putcharWrap_near nearSwitch
  have onWrap : (putcharWrap (putcharSwitch v c)).OnScreen := by
    unfold OnScreen
    rw [putcharWrap_stored]
    exact onSwitch
  obtain ⟨onScroll, grid, bottom⟩ := putcharScroll_near onWrap col line
  exact ⟨onScroll, grid, fun low => bottom (by omega)⟩

theorem putchar_offScreen {v : Vga} {c : Byte} (near : Near v) (printable : isprint c.toInt = true)
    (past : 2000 ≤ cellIndex v) : ¬ (vgaConsolePutchar v c).OnScreen := by
  intro on
  have index := toNat_cellIndex near
  have switched : (putcharSwitch v c).stored = (v.storeCell (v.line * screenWidth + v.col) (glyph c)).stored := by
    have plain : c ≠ 0x0a#8 ∧ c ≠ 0x0d#8 ∧ c ≠ 0x09#8 := by
      refine ⟨?_, ?_, ?_⟩ <;>
        · intro same
          subst same
          exact absurd printable (by decide)
    unfold putcharSwitch
    rw [if_neg plain.1, if_neg plain.2.1, if_neg plain.2.2, if_pos printable]
  have kept : ∀ a ∈ (putcharWrap (putcharSwitch v c)).stored, a ∈ (vgaConsolePutchar v c).stored := by
    intro a member
    unfold vgaConsolePutchar putcharScroll
    split
    · have scrolled := stored_scrup _ a member
      generalize vgaConsoleScrup _ = after at scrolled ⊢
      exact scrolled
    · exact member
  have member : cellAddr (v.line * screenWidth + v.col) ∈ (vgaConsolePutchar v c).stored := by
    apply kept
    rw [putcharWrap_stored, switched]
    exact List.mem_append_right _ (List.mem_cons_self)
  have bound := on _ member
  unfold Near at near
  unfold cellIndex at past index
  unfold offset cellAddr at bound
  rw [BitVec.toNat_sub, BitVec.toNat_add, BitVec.toNat_mul, index] at bound
  simp only [vga, BitVec.toNat_ofNat] at bound
  omega

/-! ### Interrupts -/

/-- The interrupt has no character to echo that is harmful where the cursor is. -/
def Harmless (v : Vga) (k : Keyboard) (data : Byte) : Prop :=
  ∀ c, k.char data = some c →
    ¬ (isprint c.toInt = true ∧ 2000 ≤ cellIndex v) ∧
    ¬ (c = 0x09#8 ∧ v.line.toNat = 25 ∧ 76 ≤ v.col.toNat)

theorem consoleInput_near {v : Vga} {c : Byte} {behind : Nat → Byte} (near : Near v) (on : v.OnScreen)
    (print : ¬ (isprint c.toInt = true ∧ 2000 ≤ cellIndex v))
    (tab : ¬ (c = 0x09#8 ∧ v.line.toNat = 25 ∧ 76 ≤ v.col.toNat)) :
    let v' := consoleInput vgaConsolePutchar behind v c
    v' = v ∨ v'.OnScreen ∧ OnGrid v' ∧ (24 ≤ v.line.toNat → 24 ≤ v'.line.toNat) := by
  simp only [consoleInput_eq]
  by_cases nul : c = 0#8
  · rw [if_pos nul]
    exact Or.inl rfl
  · rw [if_neg nul]
    right
    by_cases newline : c = 0x0a#8
    · rw [if_pos newline]
      have returned : HarmlessChar v 0x0d#8 :=
        ⟨fun printable => absurd printable (by decide), fun same => absurd same (by decide),
          fun same => absurd same (by decide)⟩
      obtain ⟨on', grid, low⟩ := putchar_near near on returned
      have fed : HarmlessChar (vgaConsolePutchar v 0x0d#8) c := by
        subst newline
        exact ⟨fun printable => absurd printable (by decide), fun same => absurd same (by decide), fun _ => grid⟩
      obtain ⟨on'', grid', low'⟩ := putchar_near grid.near on' fed
      exact ⟨on'', grid', fun h => low' (low h)⟩
    · rw [if_neg newline]
      have harmless : HarmlessChar v c := by
        constructor
        case print =>
          intro printable
          by_contra past
          exact print ⟨printable, by omega⟩
        case tab =>
          intro same bottom
          by_contra edge
          exact tab ⟨same, bottom, by omega⟩
        case newline => exact fun same => absurd same newline
      exact putchar_near near on harmless

theorem keyboardIrq_near {v : Vga} {k : Keyboard} {status data : Byte} (behind : Nat → Byte) (near : Near v)
    (on : v.OnScreen) (harmless : status &&& i8042StrObf ≠ 0#8 → Harmless v k data) :
    let v' := (keyboardIrq (consoleInput vgaConsolePutchar behind) k v status data).2
    v' = v ∨ v'.OnScreen ∧ OnGrid v' ∧ (24 ≤ v.line.toNat → 24 ≤ v'.line.toNat) := by
  by_cases full : status &&& i8042StrObf ≠ 0#8
  · rw [keyboardIrq_full _ _ _ _ full]
    cases char : k.char data with
    | none => exact Or.inl rfl
    | some c =>
      obtain ⟨print, tab⟩ := harmless full c char
      exact consoleInput_near near on print tab
  · rw [keyboardIrq, if_neg full]
    exact Or.inl rfl

/-! ### The invariant -/

/-- The cursor at each statement of `vga_console_putchar`. -/
def CursorAt (v : Vga) : Pc → Prop
  | .ifWrap => Near v
  | .wrapCol => v.col.toNat ≤ 80 ∧ v.line.toNat < 25
  | .ifScroll => v.col.toNat < 80 ∧ v.line.toNat ≤ 25
  | .scrollLines => v.col.toNat < 80 ∧ 24 ≤ v.line.toNat ∧ v.line.toNat ≤ 25
  | .scrollClear i => i < 80 ∧ v.col.toNat < 80 ∧ 24 ≤ v.line.toNat ∧ v.line.toNat ≤ 25
  | .scrollBack => v.col.toNat < 80 ∧ 24 ≤ v.line.toNat ∧ v.line.toNat ≤ 25
  | _ => OnGrid v

theorem CursorAt.near {v : Vga} {pc : Pc} (cursor : CursorAt v pc) : Near v := by
  cases pc with
  | ifWrap => exact cursor
  | wrapCol => exact Or.inl cursor
  | ifScroll => exact Or.inr cursor
  | scrollLines => exact Or.inr ⟨cursor.1, cursor.2.2⟩
  | scrollClear i => exact Or.inr ⟨cursor.2.1, cursor.2.2.2⟩
  | scrollBack => exact Or.inr ⟨cursor.1, cursor.2.2⟩
  | _ => exact OnGrid.near cursor

/-- An echo in between leaves the cursor where every statement can go on. -/
theorem CursorAt.interrupted {v v' : Vga} {pc : Pc} (cursor : CursorAt v pc) (grid : OnGrid v')
    (bottom : 24 ≤ v.line.toNat → 24 ≤ v'.line.toNat) : CursorAt v' pc := by
  obtain ⟨col, line⟩ := grid
  cases pc with
  | ifWrap => exact OnGrid.near ⟨col, line⟩
  | wrapCol => exact ⟨Nat.le_of_lt col, line⟩
  | ifScroll => exact ⟨col, Nat.le_of_lt line⟩
  | scrollLines => exact ⟨col, bottom cursor.2.1, Nat.le_of_lt line⟩
  | scrollClear i => exact ⟨cursor.1, col, bottom cursor.2.2.1, Nat.le_of_lt line⟩
  | scrollBack => exact ⟨col, bottom cursor.2.1, Nat.le_of_lt line⟩
  | _ => exact ⟨col, line⟩

theorem CursorAt.statement {v : Vga} {pc : Pc} (cursor : CursorAt v pc) (on : v.OnScreen) :
    (statement v pc).1.OnScreen ∧ CursorAt (statement v pc).1 (statement v pc).2 := by
  have near := cursor.near
  have width : screenWidth.toNat = 80 := rfl
  have height : screenHeight.toNat = 25 := rfl
  have nextLine := toNat_succ (a := v.line) (by unfold Near at near; omega)
  have nextCol := toNat_succ (a := v.col) (by unfold Near at near; omega)
  cases pc with
  | idle => exact ⟨on, cursor⟩
  | switch c =>
    refine ⟨on, ?_⟩
    unfold Console.statement
    simp only
    split
    · exact cursor
    · split
      · exact cursor
      · split <;> exact cursor
  | lineFeed =>
    obtain ⟨col, line⟩ := cursor
    refine ⟨on, Or.inr ⟨col, ?_⟩⟩
    show (v.line + 1#32).toNat ≤ 25
    omega
  | carriageReturn =>
    obtain ⟨col, line⟩ := cursor
    exact ⟨on, Or.inl ⟨Nat.zero_le 80, line⟩⟩
  | tab =>
    obtain ⟨col, line⟩ := cursor
    have stop := toNat_tab (a := v.col) (by omega)
    refine ⟨on, Or.inl ⟨?_, line⟩⟩
    show (roundUp (v.col + 1#32) 4#32).toNat ≤ 80
    omega
  | ifPrint c =>
    refine ⟨on, ?_⟩
    unfold Console.statement
    simp only
    split
    · exact cursor
    · exact near
  | print c =>
    obtain ⟨col, line⟩ := cursor
    have index := toNat_cellIndex near
    unfold cellIndex at index
    exact ⟨on.storeCell (glyph c) (by omega), ⟨col, line⟩⟩
  | advance =>
    obtain ⟨col, line⟩ := cursor
    refine ⟨on, Or.inl ⟨?_, line⟩⟩
    show (v.col + 1#32).toNat ≤ 80
    omega
  | ifWrap =>
    refine ⟨on, ?_⟩
    unfold Near at near
    unfold Console.statement
    simp only
    split
    · rename_i full
      rw [ge_iff_le, BitVec.le_def] at full
      show v.col.toNat ≤ 80 ∧ v.line.toNat < 25
      omega
    · rename_i room
      rw [ge_iff_le, BitVec.le_def] at room
      show v.col.toNat < 80 ∧ v.line.toNat ≤ 25
      omega
  | wrapCol => exact ⟨on, ⟨Nat.zero_lt_succ 79, cursor.2⟩⟩
  | wrapLine =>
    obtain ⟨col, line⟩ := cursor
    refine ⟨on, col, ?_⟩
    show (v.line + 1#32).toNat ≤ 25
    omega
  | ifScroll =>
    obtain ⟨col, line⟩ := cursor
    refine ⟨on, ?_⟩
    unfold Console.statement
    simp only
    split
    · rename_i bottom
      exact ⟨col, by rw [bottom, height]; omega, line⟩
    · rename_i above
      have other : v.line.toNat ≠ 25 := fun same => above (BitVec.eq_of_toNat_eq (same.trans height.symm))
      exact ⟨col, by omega⟩
  | scrollLines =>
    obtain ⟨col, bottom, line⟩ := cursor
    refine ⟨on.memcpy (cellAddr screenWidth) _ (by decide), ?_⟩
    show 0 < 80 ∧ (v.memcpy _ _ _).col.toNat < 80 ∧ 24 ≤ (v.memcpy _ _ _).line.toNat ∧ (v.memcpy _ _ _).line.toNat ≤ 25
    rw [memcpy_col, memcpy_line]
    exact ⟨by decide, col, bottom, line⟩
  | scrollClear i =>
    obtain ⟨inside, col, bottom, line⟩ := cursor
    have index : ((screenHeight - 1#32) * screenWidth + BitVec.ofNat 32 i).toNat = 1920 + i := by
      rw [BitVec.toNat_add, show ((screenHeight - 1#32) * screenWidth).toNat = 1920 from rfl, BitVec.toNat_ofNat]
      omega
    refine ⟨on.storeCell blank (by omega), ?_⟩
    unfold Console.statement
    simp only
    split
    · rename_i more
      exact ⟨more, col, bottom, line⟩
    · exact ⟨col, bottom, line⟩
  | scrollBack =>
    obtain ⟨col, bottom, line⟩ := cursor
    refine ⟨on, col, ?_⟩
    show (v.line - 1#32).toNat < 25
    rw [BitVec.toNat_sub, BitVec.toNat_ofNat]
    omega

/-! ### Runs -/

namespace Printing

/-- The condition under which the step does no harm: an interrupt's echo is harmless on arrival. -/
def HarmlessStep (s : Printing) : Event → Prop
  | .interrupt status data _ => status &&& i8042StrObf ≠ 0#8 → Harmless s.vga s.keyboard data
  | _ => True

def Inv (s : Printing) : Prop := s.vga.OnScreen ∧ CursorAt s.vga s.pc

theorem Inv.safe {s : Printing} (inv : s.Inv) : s.Safe := by
  refine ⟨inv.1, ?_⟩
  intro idle
  have cursor := inv.2
  rw [idle] at cursor
  exact cursor

theorem Inv.step {s s' : Printing} {e : Event} (inv : s.Inv) (step : s.Step e s') (harmless : s.HarmlessStep e) :
    s'.Inv := by
  obtain ⟨allowed, rfl⟩ := step
  obtain ⟨on, cursor⟩ := inv
  cases e with
  | write str len crlf => exact ⟨on, cursor⟩
  | call =>
    obtain ⟨idle, more⟩ := allowed
    rw [idle] at cursor
    unfold apply
    cases pending : s.pending with
    | nil => exact absurd pending more
    | cons c rest => exact ⟨on, cursor⟩
  | statement => exact cursor.statement on
  | interrupt status data behind =>
    have vga : (s.apply (.interrupt status data behind)).vga =
        (keyboardIrq (consoleInput vgaConsolePutchar behind) s.keyboard s.vga status data).2 := rfl
    rcases keyboardIrq_near behind cursor.near on harmless with same | ⟨on', grid, bottom⟩
    · rw [same] at vga
      unfold Inv
      rw [vga]
      exact ⟨on, cursor⟩
    · exact ⟨on', cursor.interrupted grid bottom⟩

theorem Start.inv {s : Printing} (start : s.Start) : s.Inv := by
  obtain ⟨idle, -, col, line, fresh⟩ := start
  constructor
  · intro a member
    rw [fresh] at member
    cases member
  · rw [idle]
    exact ⟨col, line⟩

end Printing

/-- While no echo is harmful where it comes, the console's state survives every interrupt. -/
theorem console_survives {s : Printing}
    (reachable : Reachable Printing.Start (fun s e s' => s.Step e s' ∧ s.HarmlessStep e) s) : s.Safe := by
  have inv : s.Inv := reachable.invariant Printing.Inv (fun s start => start.inv)
    fun s e s' inv step => inv.step step.1 step.2
  exact inv.safe

/-! An `a` is typed at the last cell: before the task prints there, or after that and before it wraps. -/

def atLastCell : Vga := ⟨79#32, 24#32, fun _ => 0#8, [], []⟩

def noShift : Keyboard := ⟨false, false, 0⟩

theorem console_survives_lastCell :
    Printing.Safe (Printing.apply ⟨atLastCell, .idle, [], noShift⟩ (.interrupt 0x01#8 0x1e#8 fun _ => 0#8)) := by
  have harmless : Harmless atLastCell noShift 0x1e#8 := by
    intro c char
    have printed : c = 0x61#8 := by
      rw [show noShift.char 0x1e#8 = some 0x61#8 by decide] at char
      exact (Option.some.inj char).symm
    subst printed
    exact ⟨by unfold cellIndex; decide, by decide⟩
  have start : Printing.Start ⟨atLastCell, .idle, [], noShift⟩ := ⟨rfl, rfl, by decide, by decide, rfl⟩
  have allowed : Printing.Allowed ⟨atLastCell, .idle, [], noShift⟩ (.interrupt 0x01#8 0x1e#8 fun _ => 0#8) := trivial
  exact console_survives ((Reachable.base start).next ⟨⟨allowed, rfl⟩, fun _ => harmless⟩)

/-- Before the wrap: column 80 of line 24. -/
def lastPrinted : Vga :=
  { atLastCell.storeCell (24#32 * screenWidth + 79#32) (glyph 0x41#8) with col := 79#32 + 1#32 }

theorem echo_a (v : Vga) (behind : Nat → Byte) :
    (keyboardIrq (consoleInput vgaConsolePutchar behind) noShift v 0x01#8 0x1e#8).2 = vgaConsolePutchar v 0x61#8 := by
  have char : noShift.char 0x1e#8 = some 0x61#8 := by decide
  rw [keyboardIrq_full _ _ _ _ (by decide), char]
  exact (consoleInput_eq vgaConsolePutchar behind v 0x61#8).trans (by rw [if_neg (by decide), if_neg (by decide)])

theorem console_not_survives : ¬ ∀ s, Reachable Printing.Start Printing.Step s → s.Safe := by
  intro safe
  let Reached := Reachable Printing.Start Printing.Step
  have step {s : Printing} (reached : Reached s) (e : Event) (allowed : s.Allowed e) : Reached (s.apply e) :=
    reached.next ⟨allowed, rfl⟩
  have start : Reached ⟨atLastCell, .idle, [], noShift⟩ := Reachable.base ⟨rfl, rfl, by decide, by decide, rfl⟩
  have written : Reached ⟨atLastCell, .idle, [0x41#8], noShift⟩ :=
    step start (.write (fun _ => 0x41#8) 1#32 false) ⟨rfl, rfl⟩
  have called : Reached ⟨atLastCell, .switch 0x41#8, [], noShift⟩ := step written .call ⟨rfl, nofun⟩
  have chosen : Reached ⟨atLastCell, .ifPrint 0x41#8, [], noShift⟩ := step called .statement nofun
  have tested : Reached ⟨atLastCell, .print 0x41#8, [], noShift⟩ := step chosen .statement nofun
  have stored : Reached ⟨atLastCell.storeCell (24#32 * screenWidth + 79#32) (glyph 0x41#8), .advance, [], noShift⟩ :=
    step tested .statement nofun
  have advanced : Reached ⟨lastPrinted, .ifWrap, [], noShift⟩ := step stored .statement nofun
  have echoed := step advanced (.interrupt 0x01#8 0x1e#8 fun _ => 0#8) trivial
  have on : (keyboardIrq (consoleInput vgaConsolePutchar fun _ => 0#8) noShift lastPrinted 0x01#8 0x1e#8).2.OnScreen :=
    (safe _ echoed).1
  rw [echo_a] at on
  have past : cellIndex lastPrinted = 2000 := by decide
  exact putchar_offScreen (Or.inl (by decide)) (by decide) (Nat.le_of_eq past.symm) on

end ThreeX86.Console
