import UrlRouting.Regex.Basic

/-!
How much an automaton takes that is built for an expression: 32 bytes for each state, 8 for each
range of a state that reads a class, 4 for each way on from a state that branches, 16 for each
capturing group, and the bytes of the names of groups. An expression is not built but weighed.
-/

namespace UrlRouting.Regex

mutual

def admitsEmpty : Regex → Bool
  | empty => true
  | exactly _ => false
  | characters _ => false
  | look _ => true
  | repetition inner least _ => least == 0 || inner.admitsEmpty
  | group _ inner => inner.admitsEmpty
  | concat items => allAdmitEmpty items
  | alternation choices => anyAdmitsEmpty choices

def allAdmitEmpty : List Regex → Bool
  | [] => true
  | first :: others => first.admitsEmpty && allAdmitEmpty others

def anyAdmitsEmpty : List Regex → Bool
  | [] => false
  | first :: others => first.admitsEmpty || anyAdmitsEmpty others

end

/-- The weight of a repetition, given that of what is repeated. What is required is written out as
often. A branch leads on or back at the end of a loop, and past each stretch that may be left out;
a loop that need not be entered has two branches if a round of it can be empty. -/
def repetitionWeight (inner : Nat) (admitsEmpty : Bool) : Nat → Option Nat → Nat
  | 0, some 1 => inner + 72
  | 0, none => if admitsEmpty then inner + 112 else inner + 40
  | least, none => least * inner + 40
  | least, some most =>
      let required := if least = 0 then 32 else least * inner
      if most = least then required else required + 32 + (most - least) * (inner + 40)

mutual

def stateWeight : Regex → Nat
  | empty => 32
  | exactly _ => 32
  | characters set => 32 + 8 * set.ranges.length
  | look _ => 32
  | repetition inner least most =>
      repetitionWeight inner.stateWeight inner.admitsEmpty least most
  | group _ inner => inner.stateWeight + 64
  | concat items => stateWeights items
  | alternation choices => stateWeights choices + 4 * choices.length + 64

def stateWeights : List Regex → Nat
  | [] => 0
  | first :: others => first.stateWeight + stateWeights others

end

mutual

def captures : Regex → List Capture
  | empty => []
  | exactly _ => []
  | characters _ => []
  | look _ => []
  | repetition inner _ _ => inner.captures
  | group capture inner => capture :: inner.captures
  | concat items => capturesOfAll items
  | alternation choices => capturesOfAll choices

def capturesOfAll : List Regex → List Capture
  | [] => []
  | first :: others => first.captures ++ capturesOfAll others

end

def Capture.nameWeight (capture : Capture) : Nat :=
  capture.name.elim 0 fun name => name.utf8ByteSize + 4

/-- The weight of an expression. The whole match counts as a group, and so does every group that
opens before another one, even if nothing is left of it. -/
def weight (regex : Regex) : Nat :=
  let groups := regex.captures.foldl (fun greatest capture => max greatest capture.number) 0
  let names := regex.captures.foldl (fun total capture => total + capture.nameWeight) 0
  regex.stateWeight + 96 + 16 * (groups + 1) + names

end UrlRouting.Regex
