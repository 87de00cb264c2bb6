import Scroller.Scanner

/-!
# The lines of a script

`line_has_semicolon` and what `client_run_script` keeps for it from line to line, in `src/scrc/main.c`. Beside what the function returns stand the places that the characters of
the line have for it.
-/

namespace Scroller

/-- Where a character stands: a comment and a string with their delimiters, and everything else. -/
inductive Place where
  | outside
  | comment
  | string
deriving DecidableEq

/-- What is kept from line to line. -/
structure LineState where
  inComment : Bool
  inString : Bool
  quote : UInt8
deriving DecidableEq

namespace LineState

def start : LineState := ⟨false, false, 0⟩

/-- A character in a string, which ends there if it is the quote. -/
def read (st : LineState) (c : UInt8) : LineState := if c = st.quote then { st with inString := false } else st

/-- Where the rest of a line stands that is not looked at. -/
def place (st : LineState) : Place := if st.inComment then .comment else if st.inString then .string else .outside

end LineState

/-- What `line_has_semicolon` returns and leaves, and the places of the characters. -/
structure LineResult where
  found : Bool
  state : LineState
  places : List Place
deriving DecidableEq

def LineResult.behind (k : Place) (r : LineResult) : LineResult := { r with places := k :: r.places }

/-- The loop of `line_has_semicolon`, which ends at a null byte. The characters behind it, and behind the semicolon
where the function returns, are not looked at; they stand where the state says that it leaves. -/
def lineHasSemicolon (st : LineState) : List UInt8 → LineResult
  | [] => ⟨false, st, []⟩
  | c :: p =>
      if c = 0 then ⟨false, st, List.replicate (p.length + 1) st.place⟩
      else if st.inComment then
        if c = 10 then (lineHasSemicolon { st with inComment := false } p).behind .outside
        else (lineHasSemicolon st p).behind .comment
      else if st.inString then
        if c = 92 then
          match p with
          | [] => ⟨false, st.read c, [.string]⟩
          | d :: p =>
              if d = 0 then (lineHasSemicolon (st.read c) (d :: p)).behind .string
              else ((lineHasSemicolon st p).behind .string).behind .string
        else (lineHasSemicolon (st.read c) p).behind .string
      else if c = 39 ∨ c = 34 then
        (lineHasSemicolon { st with inString := true, quote := c } p).behind .string
      else if c = 45 then
        match p with
        | [] => ⟨false, st, [.outside]⟩
        | d :: p =>
            if d = 45 then ((lineHasSemicolon { st with inComment := true } p).behind .comment).behind .comment
            else (lineHasSemicolon st (d :: p)).behind .outside
      else if c = 59 then ⟨true, st, List.replicate (p.length + 1) .outside⟩
      else (lineHasSemicolon st p).behind .outside

/-- The lines of a text, each with the newline at its end. -/
def lines : List UInt8 → List (List UInt8)
  | [] => []
  | c :: s =>
      if c = 10 then [c] :: lines s
      else
        match lines s with
        | [] => [[c]]
        | l :: ls => (c :: l) :: ls

/-- The lines of a script are taken one after the other: each character has the given place, and a semicolon is
found in a line exactly if one of its characters is a semicolon outside. -/
def SplitsAt (st : LineState) : List (List UInt8) → List Place → Prop
  | [], places => places = []
  | line :: rest, places =>
      (lineHasSemicolon st line).places = places.take line.length
        ∧ ((lineHasSemicolon st line).found = true ↔ (59, Place.outside) ∈ line.zip (places.take line.length))
        ∧ SplitsAt (lineHasSemicolon st line).state rest (places.drop line.length)

namespace Hquery

/-- The place of what a rule matches. -/
def rulePlace (i : Nat) : Place := if i = 1 then .comment else if i = 51 ∨ i = 52 then .string else .outside

def placesLoop : Nat → List UInt8 → List Place
  | 0, _ => []
  | fuel + 1, s =>
      match Regex.longest patterns s with
      | none => []
      | some (i, n) => List.replicate n (rulePlace i) ++ placesLoop fuel (s.drop n)

/-- The places that the characters of a text have for the scanner. -/
def places (s : List UInt8) : List Place := placesLoop s.length s

end Hquery

end Scroller
