import Mathlib.Tactic

/-! The menu widget (`menu.c`): its items, the one that is highlighted, and the text widgets that show some of them.
Drawing, and the callbacks that are told of a highlight or of the end of an item, are left out. Memory never runs out. -/
namespace Mvpmc.Widget

/-- What `mvpw_menu_item_attr_t` says of the keys on an item. A callback is known by a number. -/
structure ItemAttr where
  select : Option Nat
  selectable : Bool
  deriving DecidableEq

/-- `struct menu_item_s`. The text widgets are numbered from the top one on. -/
structure MenuItem where
  label : List UInt8 := []
  key : Nat := 0
  widget : Option Nat := none
  selectable : Bool := false
  select : Option Nat := none
  deriving DecidableEq

/-- `mvpw_menu_t`. Of the items allocated the first `nitems` are in use. `fit` is the number of rows there is room for, and
`widgets` that of the text widgets under `first_widget`. -/
structure Menu where
  items : List MenuItem := []
  nitems : Nat := 0
  current : Int := 0
  rows : Int := 0
  fit : Int
  widgets : Nat := 0
  deriving DecidableEq

/-- What a call leaves behind and returns, and the callback that it calls with a label and a key. -/
structure Outcome where
  menu : Menu
  rc : Nat := 0
  called : Option (Nat × List UInt8 × Nat) := none
  deriving DecidableEq

/-- A slot of the array is filled. Without attributes those that were there stay. -/
def MenuItem.fill (x : MenuItem) (label : List UInt8) (key : Nat) (attr : Option ItemAttr) (widget : Option Nat) :
    MenuItem :=
  let x := { x with
    label := label
    key := key
    widget := widget }
  attr.elim x fun a => { x with
    selectable := a.selectable
    select := a.select }

inductive Key where
  | chanUp
  | red
  | chanDown
  | yellow
  | up
  | down
  | blue
  | ok
  | other
  deriving DecidableEq

/-- `"../"`. -/
def parentLabel : List UInt8 := [46, 46, 47]

namespace Menu

section
variable (s : Menu)

/-- An access to item `i`. -/
def item (i : Int) : Option MenuItem := if i < 0 then none else s.items[i.toNat]?

def setWidget (i : Nat) (widget : Option Nat) : Option Menu :=
  if i < s.items.length then some { s with items := s.items.modify i fun x => { x with widget := widget } } else none

/-- Text widget `w` shows the item that many behind the first one, if there is one. -/
def showItem (first w : Nat) : Option Menu :=
  if s.nitems ≤ first + w then some s else s.setWidget (first + w) (some w)

/-- `change_items`. -/
def changeItems (first : Int) : Option Menu := do
  let s ← (List.range s.nitems).foldlM (fun s i => s.setWidget i none) s
  (List.range s.widgets).foldlM (fun s w => s.showItem first.toNat w) s

/-- `hilite_item`. An item without a widget must have got one when its attributes are set. -/
def hiliteItem (which : Int) (hilite : Bool) : Option Menu := do
  let x ← s.item which
  if x.widget = none ∧ hilite = false then return s
  let s ← (if x.widget = none then s.changeItems which else some s)
  let x ← s.item which
  if hilite = true ∧ x.selectable = false then return s
  let _ ← x.widget
  return s

/-- `while (j > 0 && items[j-1].widget != NULL) j--`. -/
def firstShown : Nat → Option Nat
  | 0 => some 0
  | j + 1 => do
    let x ← s.item j
    if x.widget = none then some (j + 1) else firstShown j

/-- The highlight goes to another item. The widgets show the items from `first` on, if it gives one. -/
def moveTo (next : Int) (first : Menu → Option (Option Int)) : Option Menu := do
  let s ← s.hiliteItem s.current false
  let s := { s with current := next }
  let j ← first s
  let s ← j.elim (some s) s.changeItems
  s.hiliteItem next true

/-- `MVPW_KEY_CHAN_UP`: a page up, or from the first item to the last. -/
def chanUp : Option Menu :=
  if 0 < s.current then
    s.moveTo (max (s.current - s.rows) 0) fun t => do
      let j ← t.firstShown s.current.toNat
      return some (max (j - t.rows) 0)
  else s.moveTo (s.nitems - 1) fun t => some (some (max (t.nitems - t.rows) 0))

/-- `MVPW_KEY_CHAN_DOWN`. -/
def chanDown : Option Menu :=
  if s.current < s.nitems - 1 then
    s.moveTo (min (s.current + s.rows) (s.nitems - 1)) fun t => do
      let j ← t.firstShown s.current.toNat
      return some (max (min (j + t.rows) (t.nitems - t.rows)) 0)
  else s.moveTo 0 fun _ => some (some 0)

/-- A search for an item that can be selected: by `dir` from `i` on, and where that leads outside from `restart` on. -/
def seek (outside : Int → Bool) (restart dir : Int) : Nat → Int → Option Int
  | 0, _ => none
  | fuel + 1, i =>
    if outside i then seek outside restart dir fuel restart
    else do
      let x ← s.item i
      if x.selectable then some i else seek outside restart dir fuel (i + dir)

/-- `while ((i < 0) || !items[i].selectable) { if (i < 0) i = nitems; i--; }`. -/
def seekUp : Nat → Int → Option Int := s.seek (· < 0) (s.nitems - 1) (-1)

/-- `while ((i >= nitems) || !items[i].selectable) { if (i >= nitems) i = -1; i++; }`. -/
def seekDown : Nat → Int → Option Int := s.seek (s.nitems ≤ ·) 0 1

/-- `MVPW_KEY_UP`. -/
def up (fuel : Nat) : Option Menu := do
  let i ← s.seekUp fuel (s.current - 1)
  s.moveTo i fun t => do
    let x ← t.item i
    return if x.widget = none then some (min i (t.nitems - t.rows)) else none

/-- `MVPW_KEY_DOWN`. -/
def down (fuel : Nat) : Option Menu := do
  let i ← s.seekDown fuel (s.current + 1)
  s.moveTo i fun t => do
    let x ← t.item i
    return if x.widget = none then some (max (i - t.rows + 1) 0) else none

/-- `MVPW_KEY_BLUE`: the callback is not looked at before it is called. -/
def blue : Option Outcome := do
  let x ← s.item 0
  if x.label = parentLabel then
    let select ← x.select
    return { menu := s, called := some (select, x.label, x.key) }
  else return { menu := s }

/-- `MVPW_KEY_OK`. -/
def ok : Option Outcome :=
  if s.current < s.nitems then do
    let x ← s.item s.current
    return { menu := s, called := if x.selectable then x.select.map fun f => (f, x.label, x.key) else none }
  else some { menu := s }

/-- `key`. -/
def key (fuel : Nat) (c : Key) : Option Outcome :=
  if s.nitems = 0 then some { menu := s }
  else match c with
    | .chanUp | .red => s.chanUp.map fun t => { menu := t }
    | .chanDown | .yellow => s.chanDown.map fun t => { menu := t }
    | .up => (s.up fuel).map fun t => { menu := t }
    | .down => (s.down fuel).map fun t => { menu := t }
    | .blue => s.blue
    | .ok => s.ok
    | .other => some { menu := s }

/-- A full array gets 32 more items. -/
def grow : Menu :=
  if s.nitems = s.items.length then { s with items := s.items ++ List.replicate 32 {} } else s

/-- The number of rows is set with the first item. -/
def measure : Menu := if s.rows = 0 then { s with rows := s.fit } else s

/-- The text widget of a new item in one of the rows: that of the row, or one more. -/
def rowWidget : Option Nat × Menu :=
  if s.rows ≤ s.nitems then (none, s)
  else if s.nitems < s.widgets then (some s.nitems, s)
  else (some s.widgets, { s with widgets := s.widgets + 1 })

/-- `mvpw_add_menu_item`. -/
def addMenuItem (label : List UInt8) (key : Nat) (attr : Option ItemAttr) : Option Outcome := do
  let (widget, s) := s.grow.measure.rowWidget
  let x ← s.item s.nitems
  return { menu := { s with
    items := s.items.set s.nitems (x.fill label key attr widget)
    nitems := s.nitems + 1 } }

end

/-- Each of `n` items behind item `i` gets the widget of the one in front of it, the last one first. -/
def shiftWidgets (i : Nat) : Nat → Menu → Option Menu
  | 0, s => some s
  | n + 1, s => do
    let x ← s.item (i + n : Nat)
    let s ← s.setWidget (i + n + 1) x.widget
    shiftWidgets i n s

/-- The items behind item `i` are moved down by one, and there is one item less. -/
def moveDown (s : Menu) (i : Nat) : Menu :=
  let n := s.nitems - 1
  { s with
    items := s.items.take i ++ (s.items.drop (i + 1)).take (n - i) ++ s.items.drop n
    nitems := n }

/-- Item `i` is taken out. The widget of `items + nitems + 1` is looked at. -/
def remove (s : Menu) (i : Nat) : Option Menu := do
  let s ← shiftWidgets i (s.nitems - 1 - i) s
  let s := s.moveDown i
  let _ ← s.item (s.nitems + 1 : Nat)
  return s

/-- The loop over the items, with the number of those taken out. -/
def deleteFrom (key : Nat) : Nat → Nat → Nat → Menu → Option (Nat × Menu)
  | 0, _, count, s => some (count, s)
  | fuel + 1, i, count, s =>
    if s.nitems ≤ i then some (count, s)
    else do
      let x ← s.item i
      if x.key = key then
        let s ← s.remove i
        deleteFrom key fuel (i + 1) (count + 1) s
      else deleteFrom key fuel (i + 1) count s

/-- The highlight is not behind the last item. -/
def clampCurrent (s : Menu) : Menu := if s.nitems ≤ s.current then { s with current := s.nitems - 1 } else s

/-- `mvpw_delete_menu_item`. -/
def deleteMenuItem (s : Menu) (key : Nat) : Option Outcome := do
  let (count, s) ← deleteFrom key s.nitems 0 0 s
  let s := s.clampCurrent
  let s ← s.hiliteItem s.current true
  return { menu := s, rc := count }

end Menu

/-- An item that is added. -/
structure Added where
  label : List UInt8
  key : Nat
  attr : Option ItemAttr
  deriving DecidableEq

inductive Op where
  | add (x : Added)
  | delete (key : Nat)
  | press (c : Key)

/-- One call, of which a search for an item that can be selected takes `fuel` rounds at most. -/
def Menu.exec (fuel : Nat) (s : Menu) : Op → Option Outcome
  | .add x => s.addMenuItem x.label x.key x.attr
  | .delete key => s.deleteMenuItem key
  | .press c => s.key fuel c

end Mvpmc.Widget
