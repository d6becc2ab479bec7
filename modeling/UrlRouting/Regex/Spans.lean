/-!
Stretches of a text. A place in a text is known by the number of characters after it, so the places
before it are those with greater numbers. A set of stretches is a table that has for each place the
places where the stretches that begin there end. Regular expressions are built from such sets by the
operations here: either of two, one after the other, and the same again.
-/

namespace UrlRouting.Regex

def mergePlaces : List Nat → List Nat → List Nat
  | [], right => right
  | left, [] => left
  | left :: lefts, right :: rights =>
      if right < left then left :: mergePlaces lefts (right :: rights)
      else if left < right then right :: mergePlaces (left :: lefts) rights
      else left :: mergePlaces lefts rights

theorem mem_mergePlaces (place : Nat) (lefts rights : List Nat) :
    place ∈ mergePlaces lefts rights ↔ place ∈ lefts ∨ place ∈ rights := by
  fun_induction mergePlaces lefts rights with
  | case1 => simp
  | case2 => simp
  | case3 left lefts right rights _ ih => simp [ih, or_assoc]
  | case4 left lefts right rights _ _ ih =>
      simp only [List.mem_cons, ih]
      grind
  | case5 left lefts right rights _ _ ih =>
      have : left = right := by omega
      subst this
      simp only [List.mem_cons, ih]
      grind

def dropPlaces : List Nat → List Nat → List Nat
  | [], _ => []
  | places, [] => places
  | place :: places, dropped :: others =>
      if dropped < place then place :: dropPlaces places (dropped :: others)
      else if place < dropped then dropPlaces (place :: places) others
      else dropPlaces places others

theorem mem_of_mem_dropPlaces (place : Nat) (places dropped : List Nat) :
    place ∈ dropPlaces places dropped → place ∈ places := by
  fun_induction dropPlaces places dropped with grind

theorem mem_dropPlaces_or_mem (place : Nat) (places dropped : List Nat) (member : place ∈ places) :
    place ∈ dropPlaces places dropped ∨ place ∈ dropped := by
  fun_induction dropPlaces places dropped with grind

theorem length_dropPlaces_le (places dropped : List Nat) :
    (dropPlaces places dropped).length ≤ places.length := by
  fun_induction dropPlaces places dropped with grind

/-- Stretches of a text: for each place where a stretch may begin, the places where those that begin
there end, in decreasing order. -/
structure Spans where
  rows : Array (List Nat)

namespace Spans

def row (spans : Spans) (place : Nat) : List Nat :=
  spans.rows[place]?.getD []

def ofRows (size : Nat) (row : Nat → List Nat) : Spans :=
  { rows := Array.ofFn fun place : Fin (size + 1) => row place }

theorem row_ofRows (size : Nat) (row : Nat → List Nat) (place : Nat) (inside : place ≤ size) :
    (ofRows size row).row place = row place := by
  simp [Spans.row, ofRows, Nat.lt_succ_of_le inside]

def emptyAt (size : Nat) (test : Nat → Bool) : Spans :=
  ofRows size fun place => if test place then [place] else []

def empty (size : Nat) : Spans :=
  emptyAt size fun _ => true

def either (size : Nat) (left right : Spans) : Spans :=
  ofRows size fun place => mergePlaces (left.row place) (right.row place)

def reach (spans : Spans) (places : List Nat) : List Nat :=
  places.foldr (fun place reached => mergePlaces (spans.row place) reached) []

theorem mem_reach (spans : Spans) (places : List Nat) (stop : Nat) :
    stop ∈ spans.reach places ↔ ∃ place ∈ places, stop ∈ spans.row place := by
  induction places with
  | nil => simp [reach]
  | cons place others ih =>
      have step : spans.reach (place :: others) =
          mergePlaces (spans.row place) (spans.reach others) := rfl
      simp [step, mem_mergePlaces, ih]

def followedBy (first second : Spans) : Spans :=
  { rows := first.rows.map second.reach }

theorem mem_row_followedBy (first second : Spans) (start stop : Nat) :
    stop ∈ (first.followedBy second).row start ↔
      ∃ place ∈ first.row start, stop ∈ second.row place := by
  simp only [row, followedBy, Array.getElem?_map]
  cases first.rows[start]? with
  | none => simp
  | some places => simpa [row] using mem_reach second places stop

/-- The places that are reached from some places by the stretches of a set in which any two in a row
make up another one. What is reached from a place that is reached is reached as well, so it need
not be added. -/
def reachClosed (spans : Spans) : List Nat → List Nat
  | [] => []
  | place :: others =>
      mergePlaces (spans.row place) (reachClosed spans (dropPlaces others (spans.row place)))
termination_by places => places.length
decreasing_by exact Nat.lt_succ_of_le (length_dropPlaces_le ..)

theorem mem_reachClosed (spans : Spans) (places : List Nat) (stop : Nat)
    (closed : ∀ start middle stop, middle ∈ spans.row start → stop ∈ spans.row middle →
      stop ∈ spans.row start) :
    stop ∈ spans.reachClosed places ↔ ∃ place ∈ places, stop ∈ spans.row place := by
  fun_induction reachClosed spans places with
  | case1 => simp
  | case2 place others ih =>
      rw [mem_mergePlaces, ih]
      constructor
      · rintro (reached | ⟨other, member, reached⟩)
        · exact ⟨place, List.mem_cons_self, reached⟩
        · exact ⟨other, List.mem_cons_of_mem _ (mem_of_mem_dropPlaces _ _ _ member), reached⟩
      · rintro ⟨other, member, reached⟩
        rcases List.mem_cons.mp member with rfl | member
        · exact .inl reached
        · rcases mem_dropPlaces_or_mem other others (spans.row place) member with kept | dropped
          · exact .inr ⟨other, kept, reached⟩
          · exact .inl (closed place other stop dropped reached)

/-- The places that are reached from each of the last places of a text by any number of stretches,
given where single stretches end. What is reached from a place is reached from it at once or from
one of the places after it. -/
def closureRows (row : Nat → List Nat) : Nat → Array (List Nat)
  | 0 => #[]
  | place + 1 =>
      let rows := closureRows row place
      rows.push (place :: reachClosed { rows } ((row place).filter (· < place)))

def anyTimes (spans : Spans) : Spans :=
  { rows := closureRows spans.row spans.rows.size }

def followedByTimes (first second : Spans) : Nat → Spans
  | 0 => first
  | count + 1 => (first.followedBy second).followedByTimes second count

def followedByAny (first second : Spans) : Spans :=
  { rows := first.rows.map second.anyTimes.reachClosed }

/-- The stretches of one set, each followed by at least as many of another in a row as one count
says and by at most as many as another says. Of more stretches in a row than the text has characters
some are empty, and an empty one can be repeated or left out; so it does not matter by how much a
count is greater. -/
def followedByBetween (size : Nat) (first second : Spans) (least : Nat) (most : Option Nat) :
    Spans :=
  let required := first.followedByTimes second (min least (size + 1))
  match most with
  | none => required.followedByAny second
  | some most =>
      if size ≤ most - least then required.followedByAny second
      else required.followedByTimes (either size (empty size) second) (most - least)

def isEmpty (spans : Spans) : Bool :=
  spans.rows.all List.isEmpty

end Spans

end UrlRouting.Regex
