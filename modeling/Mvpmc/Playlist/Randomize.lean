import Mvpmc.Playlist.Nodes

/-! Shuffling a playlist (`playlist_randomize`, `playlist.c`), and the menu that shows it (`menu.c`). Where the code would
follow a NULL pointer or leave memory, the result is `none`. -/
namespace Mvpmc.Playlist

/-- The playlist, and of its menu the labels, the keys and which of the items is highlighted. -/
structure Player where
  heap : List Node
  head : Option Nat
  playlist : Option Nat
  menu : List (List UInt8 × Nat)
  current : Nat
  deriving DecidableEq, Repr

/-- `mvpw_menu_get_hilite`. -/
def menuGetHilite (s : Player) : Option Nat := s.menu[s.current]?.map Prod.snd

/-- `mvpw_menu_hilite_item` from the item number `i` on: which item is highlighted. -/
def menuHiliteItem (key : Nat) : List (List UInt8 × Nat) → Nat → Nat → Nat
  | [], _, current => current
  | item :: items, i, current => menuHiliteItem key items (i + 1) (if item.2 = key then i else current)

/-- The walk of `select_callback` to the item with a key. -/
def selectKey (heap : List Node) (key : Nat) : Nat → Option Nat → Option Nat
  | 0, _ => none
  | _, none => none
  | fuel + 1, some pl => do
    let node ← heap[pl]?
    if node.key = key then some pl else selectKey heap key fuel node.next

/-- The track that the highlighted item of the menu stands for. -/
def hilitedTrack (s : Player) : Option Track := do
  let key ← menuGetHilite s
  let pl ← selectKey s.heap key s.heap.length s.head
  s.heap[pl]?.map Node.track

/-- The first loop of `playlist_randomize`: the item at a place, and the number of all items. -/
def countLoop (heap : List Node) (old : Nat) : Nat → Option Nat → Option Nat → Nat → Option (Option Nat × Nat)
  | _, none, hilite, count => some (hilite, count)
  | 0, some _, _, _ => none
  | fuel + 1, some cur, hilite, count => do
    let node ← heap[cur]?
    countLoop heap old fuel node.next (if old = count then some cur else hilite) (count + 1)

/-- `r` items further, from the last to the first. -/
def advance (heap : List Node) (head : Nat) : Nat → Nat → Option Nat
  | 0, swap => some swap
  | r + 1, swap => do
    let node ← heap[swap]?
    advance heap head r (node.next.getD head)

/-- What `playlist_randomize` swaps of two items. -/
def swapTracks (heap : List Node) (cur swap : Nat) : Option (List Node) := do
  let c ← heap[cur]?
  let s ← heap[swap]?
  some ((heap.set cur { c with track := s.track }).set swap { s with track := c.track })

/-- The second loop from the round `i` on; `rand` gives what `rand()` returns in each round. -/
def swapLoop (rand : Nat → Nat) (head count : Nat) : Nat → Nat → Option Nat → List Node → Nat → Option (List Node × Nat)
  | 0, _, _, heap, hilite => some (heap, hilite)
  | _ + 1, _, none, _, _ => none
  | n + 1, i, some cur, heap, hilite => do
    let swap ← advance heap head (rand i % count) cur
    let heap' ← if swap ≠ cur then swapTracks heap cur swap else some heap
    let hilite' := if swap ≠ cur then if cur = hilite then swap else if swap = hilite then cur else hilite else hilite
    let node ← heap'[cur]?
    swapLoop rand head count n (i + 1) node.next heap' hilite'

/-- The last loop: new keys, a new menu, and the key of the highlighted item. -/
def renumber (hilite : Nat) : Nat → Nat → Option Nat → List Node → List (List UInt8 × Nat) → Nat →
    Option (List Node × List (List UInt8 × Nat) × Nat)
  | 0, _, _, heap, menu, old => some (heap, menu, old)
  | _ + 1, _, none, _, _, _ => none
  | n + 1, i, some cur, heap, menu, old => do
    let node ← heap[cur]?
    renumber hilite n (i + 1) node.next (heap.set cur { node with key := i }) (menu ++ [(node.track.label, i)])
      (if hilite = cur then i else old)

/-- `playlist_randomize`. -/
def playlistRandomize (rand : Nat → Nat) (s : Player) : Option Player :=
  match s.head with
  | none => some s
  | some head => do
    let old ← menuGetHilite s
    let (hilite, count) ← countLoop s.heap old s.heap.length (some head) none 0
    match hilite with
    | none => some s
    | some hilite =>
      let (heap, hilite) ← swapLoop rand head count count 0 (some head) s.heap hilite
      let (heap, menu, old) ← renumber hilite count 0 (some head) heap [] old
      some { s with heap := heap, playlist := some hilite, menu := menu, current := menuHiliteItem old menu 0 0 }

end Mvpmc.Playlist
