/-
# Layouts over one table of structs

Several layouts, each with limits and a definition order of its own, that share their structs: a
struct defined through one of them is known to all. A layout made from another one starts with
the definition order that this one has at the time.

Definition orders are kept on pages. A layout reads the first names of its page, as many as its
order has, and records a new name in the slot behind them. A layout made from another one stays
on the page of that one until the page is full, so of two names that they record in one slot the
later one is read by both. A full page is left for a copy with more room; how much more is up to the
memory that pages are made in.
-/
import DirectC.Layout

namespace DirectC

/-! ## Pages -/

/-- Names in slots, and the number of slots there are. -/
structure Page where
  names : List Bytes := []
  room : Nat := 0
  deriving DecidableEq, Repr, Inhabited

namespace Page

/-- Writes a name into a slot, whatever it holds, or behind the last name. -/
def put (p : Page) (slot : Nat) (name : Bytes) : Page :=
  { p with names := p.names.take slot ++ name :: p.names.drop (slot + 1) }

/-- A page with room for at least one more name that starts with the first names of another one. -/
def larger (p : Page) (count room : Nat) : Page :=
  { names := p.names.take count, room := max (count + 1) room }

/-- Twice the room. -/
def twice (room : Nat) : Nat :=
  2 * room

end Page

/-! ## Families of layouts -/

/-- One layout of a family: its limits, and its definition order as the first names of a page. -/
structure LayoutView where
  limits : Limits := {}
  page : Nat := 0
  count : Nat := 0
  deriving DecidableEq, Repr, Inhabited

/-- A family of layouts over one table of structs. -/
structure SharedLayout where
  structs : Table StructDef := ∅
  pages : List Page := [{}]
  views : List LayoutView := [{}]
  /-- The room of the page that takes the place of one whose room is used up. -/
  grow : Nat → Nat := Page.twice
  deriving Inhabited

namespace SharedLayout

/-- A family of one layout without structs. -/
def start (limits : Limits) (grow : Nat → Nat := Page.twice) : SharedLayout :=
  { views := [{ limits }], grow }

/-- The page with a given number. -/
def page (s : SharedLayout) (i : Nat) : Page :=
  s.pages[i]?.getD {}

/-- The definition order of a layout. -/
def order (s : SharedLayout) (v : LayoutView) : List Bytes :=
  (s.page v.page).names.take v.count

/-- The layout with a given number. -/
def layout? (s : SharedLayout) (i : Nat) : Option Layout :=
  s.views[i]?.map fun v => ⟨v.limits, s.structs, s.order v⟩

/-- Records a name at the end of the definition order of the layout with number `i`. -/
def record (s : SharedLayout) (i : Nat) (v : LayoutView) (name : Bytes) : SharedLayout :=
  let page := s.page v.page
  if v.count < page.room then
    { s with
      pages := s.pages.set v.page (page.put v.count name)
      views := s.views.set i { v with count := v.count + 1 } }
  else
    { s with
      pages := s.pages ++ [(page.larger v.count (s.grow page.room)).put v.count name]
      views := s.views.set i { v with page := s.pages.length, count := v.count + 1 } }

/-- Adds a definition through the layout with number `i`. Only a name that is new to the whole
family is recorded. -/
def add (s : SharedLayout) (i : Nat) (d : StructDef) : SharedLayout :=
  match s.views[i]? with
  | none => s
  | some v =>
    let recorded := if s.structs.contains d.name then s else s.record i v d.name
    { recorded with structs := s.structs.insert d.name d }

/-- Changes the limits of the layout with number `i`. -/
def setLimits (s : SharedLayout) (i : Nat) (limits : Limits) : SharedLayout :=
  { s with views := s.views.modify i fun v => { v with limits } }

/-- Adds a layout made from the one with number `i`, and gives its number. -/
def derive (s : SharedLayout) (i : Nat) (limits : Limits) : Nat × SharedLayout :=
  let v := s.views[i]?.getD {}
  (s.views.length, { s with views := s.views ++ [{ v with limits }] })

end SharedLayout

end DirectC
