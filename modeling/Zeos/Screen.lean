import Zeos.ConsoleWrite
import Zeos.Foundation.WriteLog

/-! # The screen

The text screen of `io.c` as a window on endless paper. A line that runs over goes
on in the next one, and the rows of the paper are folded onto those of the screen.
-/

namespace Zeos

open Foundation

namespace Console

def numColumns : Nat := 80

def numRows : Nat := 25

def videoBase : Nat := 0xb8000

/-- The cursor, the memory that the characters are stored to, and what has been sent to
port `0xe9`. -/
structure Screen where
  x : UInt8
  y : UInt8
  memory : Nat → UInt8
  port : List UInt8

namespace Screen

def cell (row column : Nat) : Nat := videoBase + (row * numColumns + column) * 2

/-- `movw`: the character and its attribute. -/
def movw (memory : Nat → UInt8) (address : Nat) (c : UInt8) : Nat → UInt8 :=
  let ch := c.toNat ||| 0x0200
  Function.update (Function.update memory address (.ofNat ch)) (address + 1) (.ofNat (ch / 256))

def newline (screen : Screen) : Screen :=
  { screen with x := 0, y := .ofNat ((screen.y.toNat + 1) % numRows) }

def printc (screen : Screen) (c : UInt8) : Screen :=
  let screen := { screen with port := screen.port ++ [c] }
  if c = 10 then screen.newline
  else
    let address := cell screen.y.toNat screen.x.toNat
    let screen := { screen with x := screen.x + 1 }
    let screen := if numColumns ≤ screen.x.toNat then screen.newline else screen
    { screen with memory := movw screen.memory address c }

def printcXy (screen : Screen) (mx my : UInt8) (c : UInt8) : Screen :=
  let cx := screen.x
  let cy := screen.y
  let screen := { screen with x := mx, y := my }.printc c
  { screen with x := cx, y := cy }

/-- The loop of `printk`, from a byte of the string on, over what is known of the memory from
there. There is no result when the end of the string is not among it. -/
def printk (screen : Screen) : List UInt8 → Option Screen
  | [] => none
  | c :: rest => if c = 0 then some screen else (screen.printc c).printk rest

end Screen

/-- A character at the cursor, or one at a place of its own. -/
inductive Print
  | cursor (c : UInt8)
  | xy (mx my : UInt8) (c : UInt8)
  deriving DecidableEq

namespace Print

def character : Print → UInt8
  | cursor c => c
  | xy _ _ c => c

def text : List Print → List UInt8
  | [] => []
  | cursor c :: rest => c :: text rest
  | xy _ _ _ :: rest => text rest

end Print

def Screen.print (screen : Screen) : Print → Screen
  | .cursor c => screen.printc c
  | .xy mx my c => screen.printcXy mx my c

/-! ## Paper -/

/-- A place on endless paper. -/
@[ext] structure Place where
  row : Nat
  column : Nat
  deriving DecidableEq

namespace Place

def depth (place : Place) : Nat := place.row * numColumns + place.column

def next (place : Place) (c : UInt8) : Place :=
  if c = 10 then ⟨place.row + 1, 0⟩
  else if numColumns ≤ place.column + 1 then ⟨place.row + 1, 0⟩
  else ⟨place.row, place.column + 1⟩

def after (place : Place) (text : List UInt8) : Place := text.foldl next place

def cell (place : Place) : Nat := Screen.cell (place.row % numRows) place.column

theorem next_inside (place : Place) (c : UInt8) : (place.next c).column < numColumns := by
  unfold next
  split
  · exact Nat.zero_lt_succ 79
  · split
    · exact Nat.zero_lt_succ 79
    · exact Nat.not_le.mp ‹_›

theorem next_deeper (place : Place) (c : UInt8) (inside : place.column < numColumns) :
    place.depth < (place.next c).depth := by
  unfold next depth numColumns at *
  split
  · dsimp only
    omega
  · split <;> dsimp only <;> omega

theorem after_inside (place : Place) (text : List UInt8) (inside : place.column < numColumns) :
    (place.after text).column < numColumns := by
  induction text generalizing place with
  | nil => exact inside
  | cons c rest induction => exact induction _ (place.next_inside c)

theorem after_deeper (place : Place) (text : List UInt8) (inside : place.column < numColumns) :
    place.depth ≤ (place.after text).depth := by
  induction text generalizing place with
  | nil => exact le_refl _
  | cons c rest induction =>
      exact (place.next_deeper c inside).le.trans (induction _ (place.next_inside c))

theorem cell_ne {place other : Place} (deeper : place.depth < other.depth)
    (near : other.depth < place.depth + numRows * numColumns) : other.cell ≠ place.cell := by
  unfold depth cell Screen.cell numColumns numRows at *
  omega

end Place

/-! ## What is stored -/

def cellBytes (address : Nat) (c : UInt8) : List (Nat × UInt8) :=
  if c = 10 then [] else [(address, c), (address + 1, 2)]

def stores (place : Place) : List Print → List (Nat × UInt8)
  | [] => []
  | .cursor c :: rest => cellBytes place.cell c ++ stores (place.next c) rest
  | .xy mx my c :: rest => cellBytes (Screen.cell my.toNat mx.toNat) c ++ stores place rest

theorem Screen.movw_eq (memory : Nat → UInt8) (address : Nat) {c : UInt8} (plain : c ≠ 10) :
    movw memory address c = WriteLog.writeAll (cellBytes address c) memory := by
  have small : c.toNat < 2 ^ 8 := c.toNat_lt
  have ored : c.toNat ||| 0x0200 = c.toNat + 512 := by
    have disjoint := Nat.two_pow_add_eq_or_of_lt (show c.toNat < 2 ^ 9 by omega) 1
    rw [Nat.or_comm, ← disjoint]
    omega
  have low : UInt8.ofNat (c.toNat + 512) = c := by
    apply UInt8.toNat_inj.mp
    simp
  have high : UInt8.ofNat ((c.toNat + 512) / 256) = 2 := by
    rw [show (c.toNat + 512) / 256 = 2 by omega]
    rfl
  unfold movw
  dsimp only
  rw [ored, low, high, cellBytes, if_neg plain]
  rfl

/-- The cursor is where the paper is folded onto the screen. -/
structure Screen.Shows (screen : Screen) (place : Place) : Prop where
  inside : place.column < numColumns
  x : screen.x.toNat = place.column
  y : screen.y.toNat = place.row % numRows

section Printing

variable {screen : Screen} {place : Place}

theorem Screen.Shows.newline (shown : screen.Shows place) :
    screen.newline.Shows ⟨place.row + 1, 0⟩ where
  inside := Nat.zero_lt_succ 79
  x := rfl
  y := by
    have below : (screen.y.toNat + 1) % numRows < 256 := by
      unfold numRows
      omega
    change (UInt8.ofNat ((screen.y.toNat + 1) % numRows)).toNat = (place.row + 1) % numRows
    rw [UInt8.toNat_ofNat', Nat.mod_eq_of_lt below, shown.y]
    unfold numRows
    omega

theorem Screen.printc_memory (screen : Screen) (c : UInt8) :
    (screen.printc c).memory =
      WriteLog.writeAll (cellBytes (Screen.cell screen.y.toNat screen.x.toNat) c)
        screen.memory := by
  unfold printc
  dsimp only
  by_cases isNewline : c = 10
  · rw [if_pos isNewline, cellBytes, if_pos isNewline]
    rfl
  · rw [if_neg isNewline, ← Screen.movw_eq _ _ isNewline]
    split <;> rfl

theorem Screen.printc_port (screen : Screen) (c : UInt8) :
    (screen.printc c).port = screen.port ++ [c] := by
  unfold printc
  dsimp only
  split
  · rfl
  · split <;> rfl

theorem Screen.Shows.cell_eq (shown : screen.Shows place) :
    Screen.cell screen.y.toNat screen.x.toNat = place.cell := by
  rw [shown.y, shown.x]
  rfl

theorem Screen.Shows.printc (shown : screen.Shows place) (c : UInt8) :
    (screen.printc c).Shows (place.next c) := by
  unfold Screen.printc Place.next
  dsimp only
  by_cases isNewline : c = 10
  · rw [if_pos isNewline, if_pos isNewline]
    exact @Screen.Shows.newline { screen with port := screen.port ++ [c] } place
      ⟨shown.inside, shown.x, shown.y⟩
  · rw [if_neg isNewline, if_neg isNewline]
    have inside := shown.inside
    have advanced : (screen.x + 1).toNat = place.column + 1 := by
      rw [UInt8.toNat_add, shown.x]
      have below : place.column + 1 < 256 := by
        unfold numColumns at inside
        omega
      exact Nat.mod_eq_of_lt below
    rw [advanced]
    split
    · rcases shown.newline with ⟨zero, x, y⟩
      exact ⟨zero, x, y⟩
    · rename_i fits
      exact ⟨Nat.not_le.mp fits, advanced, shown.y⟩

theorem Screen.Shows.prints (shown : screen.Shows place) (prints : List Print) :
    (prints.foldl Screen.print screen).Shows (place.after (Print.text prints)) ∧
      (prints.foldl Screen.print screen).memory =
        WriteLog.writeAll (stores place prints) screen.memory ∧
      (prints.foldl Screen.print screen).port = screen.port ++ prints.map Print.character := by
  induction prints generalizing screen place with
  | nil => exact ⟨shown, rfl, (List.append_nil _).symm⟩
  | cons print rest induction =>
      cases print with
      | cursor c =>
          rcases induction (shown.printc c) with ⟨later, memory, port⟩
          refine ⟨later, ?_, ?_⟩
          · rw [stores, WriteLog.writeAll_append, ← shown.cell_eq, ← Screen.printc_memory]
            exact memory
          · change (rest.foldl Screen.print (screen.printc c)).port = _
            rw [port, Screen.printc_port, List.append_assoc]
            rfl
      | xy mx my c =>
          have kept : (screen.printcXy mx my c).Shows place := ⟨shown.inside, shown.x, shown.y⟩
          rcases induction kept with ⟨later, memory, port⟩
          refine ⟨later, ?_, ?_⟩
          · have here : (screen.printcXy mx my c).memory = _ :=
              Screen.printc_memory { screen with x := mx, y := my } c
            rw [stores, WriteLog.writeAll_append, ← here]
            exact memory
          · change (rest.foldl Screen.print (screen.printcXy mx my c)).port = _
            have here : (screen.printcXy mx my c).port = _ :=
              Screen.printc_port { screen with x := mx, y := my } c
            rw [port, here, List.append_assoc]
            rfl

end Printing

/-! ## Where it is stored -/

/-- A character for a place of its own gets one on the screen. -/
def Print.Fits : Print → Prop
  | .cursor _ => True
  | .xy mx my c => c ≠ 10 → my.toNat * numColumns + mx.toNat < numRows * numColumns

/-- A character for a place of its own does not go to this cell. -/
def Print.Spares (address : Nat) : Print → Prop
  | .cursor _ => True
  | .xy mx my c => c ≠ 10 → Screen.cell my.toNat mx.toNat ≠ address

theorem cellBytes_mem {address : Nat} {c : UInt8} {write : Nat × UInt8}
    (member : write ∈ cellBytes address c) :
    c ≠ 10 ∧ (write.1 = address ∨ write.1 = address + 1) := by
  unfold cellBytes at member
  split at member
  · cases member
  · rename_i plain
    rcases List.mem_cons.mp member with first | second
    · exact ⟨plain, .inl (congrArg Prod.fst first)⟩
    · exact ⟨plain, .inr (congrArg Prod.fst (List.mem_singleton.mp second))⟩

theorem stores_inside {place : Place} (inside : place.column < numColumns) {prints : List Print}
    (fits : ∀ print ∈ prints, print.Fits) {write : Nat × UInt8}
    (member : write ∈ stores place prints) :
    videoBase ≤ write.1 ∧ write.1 < videoBase + 2 * (numRows * numColumns) := by
  induction prints generalizing place with
  | nil => cases member
  | cons print rest induction =>
      have others : ∀ print ∈ rest, print.Fits := fun other member =>
        fits other (List.mem_cons_of_mem _ member)
      have here := fits print List.mem_cons_self
      cases print with
      | cursor c =>
          rcases List.mem_append.mp member with first | later
          · rcases cellBytes_mem first with ⟨-, address⟩
            unfold Place.cell Screen.cell numColumns numRows at *
            omega
          · exact induction (place.next_inside c) others later
      | xy mx my c =>
          rcases List.mem_append.mp member with first | later
          · rcases cellBytes_mem first with ⟨plain, address⟩
            have fitting := here plain
            unfold Screen.cell numColumns numRows at *
            omega
          · exact induction inside others later

theorem stores_elsewhere {shownAt place : Place} (placeInside : place.column < numColumns)
    (deeper : shownAt.depth < place.depth) {prints : List Print}
    (spares : ∀ print ∈ prints, print.Spares shownAt.cell)
    (near : (place.after (Print.text prints)).depth ≤ shownAt.depth + numRows * numColumns)
    {write : Nat × UInt8} (member : write ∈ stores place prints) :
    write.1 ≠ shownAt.cell ∧ write.1 ≠ shownAt.cell + 1 := by
  induction prints generalizing place with
  | nil => cases member
  | cons print rest induction =>
      have others : ∀ print ∈ rest, print.Spares shownAt.cell := fun other member =>
        spares other (List.mem_cons_of_mem _ member)
      have here := spares print List.mem_cons_self
      cases print with
      | cursor c =>
          have next := place.next_deeper c placeInside
          have nextInside := place.next_inside c
          have onwards := (place.next c).after_deeper (Print.text rest) nextInside
          have near : ((place.next c).after (Print.text rest)).depth ≤
              shownAt.depth + numRows * numColumns := near
          rcases List.mem_append.mp member with first | later
          · rcases cellBytes_mem first with ⟨-, address⟩
            have different := Place.cell_ne deeper (by omega)
            unfold Place.cell Screen.cell at *
            omega
          · exact induction nextInside (deeper.trans next) others near later
      | xy mx my c =>
          rcases List.mem_append.mp member with first | later
          · rcases cellBytes_mem first with ⟨plain, address⟩
            have different := here plain
            unfold Place.cell Screen.cell at *
            omega
          · exact induction placeInside deeper others near later

/-! ## Reading the screen -/

/-- What a screen shows after some characters: the cursor is where the text ends on the paper,
the port has got everything, nothing outside of the 25 rows has changed, and each character of
the text can be read in its cell until the text has gone on for a whole screen, unless one with
a place of its own has been put there. -/
structure Screen.ShowsText (before : Screen) (start : Place) (prints : List Print)
    (after : Screen) : Prop where
  cursor : after.Shows (start.after (Print.text prints))
  port : after.port = before.port ++ prints.map Print.character
  outside : ∀ address, address < videoBase ∨ videoBase + 2 * (numRows * numColumns) ≤ address →
    after.memory address = before.memory address
  readable : ∀ front c back, prints = front ++ .cursor c :: back → c ≠ 10 →
    (∀ print ∈ back, print.Spares (start.after (Print.text front)).cell) →
    (start.after (Print.text prints)).depth ≤
      (start.after (Print.text front)).depth + numRows * numColumns →
    after.memory (start.after (Print.text front)).cell = c ∧
      after.memory ((start.after (Print.text front)).cell + 1) = 2

theorem text_append (front back : List Print) :
    Print.text (front ++ back) = Print.text front ++ Print.text back := by
  induction front with
  | nil => rfl
  | cons print rest induction => cases print <;> simp [Print.text, induction]

theorem after_append (place : Place) (front back : List UInt8) :
    place.after (front ++ back) = (place.after front).after back :=
  List.foldl_append

theorem stores_append (place : Place) (front back : List Print) :
    stores place (front ++ back) =
      stores place front ++ stores (place.after (Print.text front)) back := by
  induction front generalizing place with
  | nil => rfl
  | cons print rest induction =>
      cases print <;> simp only [List.cons_append, stores, induction, List.append_assoc] <;> rfl

theorem Screen.Shows.showsText {screen : Screen} {start : Place} (shown : screen.Shows start)
    {prints : List Print} (fits : ∀ print ∈ prints, print.Fits) :
    screen.ShowsText start prints (prints.foldl Screen.print screen) := by
  rcases shown.prints prints with ⟨cursor, memory, port⟩
  refine ⟨cursor, port, fun address outside => ?_, fun front c back whole plain spares near => ?_⟩
  · rw [memory, WriteLog.writeAll_elsewhere]
    intro write member same
    have inside := stores_inside shown.inside fits member
    omega
  · have inside := start.after_inside (Print.text front) shown.inside
    have deeper := (start.after (Print.text front)).next_deeper c inside
    have nextInside := (start.after (Print.text front)).next_inside c
    rw [whole, text_append, after_append] at near
    have rest : ∀ write ∈ stores ((start.after (Print.text front)).next c) back,
        write.1 ≠ (start.after (Print.text front)).cell ∧
          write.1 ≠ (start.after (Print.text front)).cell + 1 := fun write member =>
      stores_elsewhere nextInside deeper spares near member
    have log : stores start prints = stores start front ++
        ((start.after (Print.text front)).cell, c) ::
          ((start.after (Print.text front)).cell + 1, 2) ::
            stores ((start.after (Print.text front)).next c) back := by
      rw [whole, stores_append, stores, cellBytes, if_neg plain]
      rfl
    rw [memory, log]
    constructor
    · apply WriteLog.writeAll_stands
      intro write member
      rcases List.mem_cons.mp member with second | later
      · rw [second]
        exact Nat.succ_ne_self _
      · exact (rest write later).1
    · rw [List.append_cons]
      apply WriteLog.writeAll_stands
      exact fun write later => (rest write later).2

/-- The screen as the kernel starts with it: the cursor is in the row with number 19. -/
def Screen.initial (memory : Nat → UInt8) : Screen := ⟨0, 19, memory, []⟩

theorem Screen.initial_shows (memory : Nat → UInt8) : (initial memory).Shows ⟨19, 0⟩ where
  inside := Nat.zero_lt_succ 79
  x := rfl
  y := rfl

theorem Screen.printk_eq (screen : Screen) {text : List UInt8} (rest : List UInt8)
    (plain : 0 ∉ text) :
    screen.printk (text ++ 0 :: rest) = some (text.foldl Screen.printc screen) := by
  induction text generalizing screen with
  | nil => rfl
  | cons c text induction =>
      rw [List.mem_cons, not_or] at plain
      have notEnd : c ≠ 0 := fun same => plain.1 same.symm
      rw [List.cons_append, Screen.printk, if_neg notEnd]
      exact induction (screen.printc c) plain.2

theorem Screen.foldl_print (screen : Screen) (text : List UInt8) :
    (text.map Print.cursor).foldl Screen.print screen = text.foldl Screen.printc screen :=
  List.foldl_map

theorem text_cursor (text : List UInt8) : Print.text (text.map Print.cursor) = text := by
  induction text with
  | nil => rfl
  | cons c rest induction => exact congrArg (c :: ·) induction

/-- What the loop of `sys_write_console` does to the screen. -/
def Screen.write (screen : Screen) (printed : List UInt8) : Screen :=
  printed.foldl Screen.printc screen

theorem blockFrom_split {memory : FlatMemory} {buffer : BitVec 32} {k size : Nat}
    (inside : k < size) :
    blockFrom memory buffer 0 size = blockFrom memory buffer 0 k ++
      memory (place buffer k) :: blockFrom memory buffer (k + 1) (size - (k + 1)) := by
  have one : blockFrom memory buffer k 1 = [memory (place buffer k)] := rfl
  calc blockFrom memory buffer 0 size
      = blockFrom memory buffer 0 (k + (1 + (size - (k + 1)))) := by
        rw [show k + (1 + (size - (k + 1))) = size by omega]
    _ = blockFrom memory buffer 0 k ++ (blockFrom memory buffer k 1 ++
          blockFrom memory buffer (k + 1) (size - (k + 1))) := by
        rw [blockFrom_append, ← blockFrom_append 0 k, Nat.zero_add]
    _ = _ := by rw [one, List.singleton_append]

theorem Screen.Shows.write {screen : Screen} {start : Place} (shown : screen.Shows start)
    (text : List UInt8) :
    screen.ShowsText start (text.map Print.cursor) (screen.write text) := by
  rw [Screen.write, ← Screen.foldl_print]
  apply shown.showsText
  intro print member
  rcases List.mem_map.mp member with ⟨c, -, same⟩
  rw [← same]
  trivial

end Console

open Console

/-- The screen shows any sequence of `printc` and `printc_xy` as paper that is folded onto its
rows. -/
theorem screenShowsText {screen : Screen} {start : Place} (shown : screen.Shows start)
    {prints : List Print} (fits : ∀ print ∈ prints, print.Fits) :
    screen.ShowsText start prints (prints.foldl Screen.print screen) :=
  shown.showsText fits

/-- A line that is longer than a row, and a mark in the corner after it. -/
def markedLine : List Print := List.replicate 90 (Print.cursor 65) ++ [Print.xy 79 0 42]

theorem screenShowsText_mark :
    (Screen.initial fun _ => 0).ShowsText ⟨19, 0⟩ markedLine
      (markedLine.foldl Screen.print (Screen.initial fun _ => 0)) := by
  apply screenShowsText (Screen.initial_shows _)
  intro print member
  rcases List.mem_append.mp member with line | mark
  · rw [List.eq_of_mem_replicate line]
    trivial
  · rw [List.mem_singleton.mp mark]
    intro _
    decide

/-! ## What a process writes -/

/-- `sys_write` with a block of the caller's memory that it admits and can print: each
character of the block is at its place on the paper, and on the screen while no more than a
screen has been written after it. -/
theorem writtenShown {buffer : BitVec 32} {size : Nat} (memory : FlatMemory)
    (notNull : buffer ≠ 0) (fits : size ≤ 2147483644) (bufferKernel : KernelBuffer)
    {screen : Screen} {start : Place} (shown : screen.Shows start) :
    ∃ printed, sysWrite (onlyBlock memory buffer size) bufferKernel 1 buffer size =
        .ok (printed, 0) ∧
      (screen.write printed).Shows (start.after (blockFrom memory buffer 0 size)) ∧
      (screen.write printed).port = screen.port ++ blockFrom memory buffer 0 size ∧
      ∀ k < size, memory (place buffer k) ≠ 10 →
        (start.after (blockFrom memory buffer 0 size)).depth ≤
          (start.after (blockFrom memory buffer 0 k)).depth + numRows * numColumns →
        (screen.write printed).memory (start.after (blockFrom memory buffer 0 k)).cell =
          memory (place buffer k) := by
  have printed := @writeLoop_prints memory buffer size 0 bufferKernel rfl (Int.natCast_nonneg _)
    (by omega)
  rw [Int.toNat_natCast, Nat.sub_zero] at printed
  have text := shown.write (blockFrom memory buffer 0 size)
  have cursor := text.cursor
  have port := text.port
  have readable := text.readable
  rw [text_cursor] at cursor readable
  rw [List.map_map, show Print.character ∘ Print.cursor = id from rfl, List.map_id] at port
  refine ⟨blockFrom memory buffer 0 size, ?_, cursor, port, fun k inside plain near => ?_⟩
  · rw [sysWrite_eq bufferKernel notNull (Int.natCast_nonneg _), printed]
  · have here := readable ((blockFrom memory buffer 0 k).map Print.cursor)
      (memory (place buffer k))
        ((blockFrom memory buffer (k + 1) (size - (k + 1))).map Print.cursor)
    rw [text_cursor] at here
    refine (here ?_ plain ?_ near).1
    · rw [blockFrom_split inside, List.map_append]
      rfl
    · intro print member
      rcases List.mem_map.mp member with ⟨c, -, same⟩
      rw [← same]
      trivial

theorem writtenShown_six :
    ∃ printed, sysWrite (onlyBlock .sample 0x108000 6) (fun _ => 0) 1 0x108000 6 =
        .ok (printed, 0) ∧
      ((Screen.initial fun _ => 0).write printed).Shows
        ((⟨19, 0⟩ : Place).after (blockFrom .sample 0x108000 0 6)) := by
  rcases writtenShown .sample (show (0x108000 : BitVec 32) ≠ 0 by decide)
    (show 6 ≤ 2147483644 by decide) (fun _ => 0) (Screen.initial_shows fun _ => 0) with
    ⟨printed, finished, cursor, -⟩
  exact ⟨printed, finished, cursor⟩

end Zeos
