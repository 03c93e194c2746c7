/-
  Sample scripts, and texts with a marked cursor.
-/
import BlockScript.Text.Basic

namespace BlockScript

namespace Sample

/-- A framed drawing. -/
def drawing : String :=
  "# a framed box\nbegin frame\n    gsave\n        box 0 0 10 10\n        stroke\n    grestore\nend frame\n"

/-- Nested loops. -/
def loops : String :=
  "for i = 1 to 10 step 2\n    n = i * 2\n    while n > 0\n        n = n - 1\n    next\nnext i\n" ++
    "until done\n    done = poll()\nnext\n"

/-- Block and single-line conditions. -/
def conditions : String :=
  "sub check x\n    if x > 0 then\n        print \"positive\"\n    else\n        print \"not positive\"\n" ++
    "    end if\n    if x == 0 then print \"zero\"\n    else if x == 1 then print \"one\"\n" ++
    "    else print \"many\"\n    print x\nend sub\n"

/-- Every sample; all are well formed, with four spaces per level. -/
def all : List String := [drawing, loops, conditions]

end Sample

/-- Why a text has no cursor. -/
inductive CursorError where
  | missing
  | repeated
  deriving DecidableEq, Repr

namespace CursorError

/-- The error in words. -/
def message : CursorError → String
  | .missing => "source has no `|` cursor marker"
  | .repeated => "source has more than one `|` cursor marker"

end CursorError

namespace Text

/-- Removes the one `|` that marks the cursor, and gives the offset where it stood. -/
def takeCursor (t : Text) : Except CursorError (Text × Nat) :=
  let before := t.takeWhile (· ≠ '|')
  match t.drop before.length with
  | [] => .error .missing
  | _ :: after => if after.contains '|' then .error .repeated else .ok (before ++ after, size before)

end Text

end BlockScript
