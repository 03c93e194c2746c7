/-
  The lexer as a loop.

  A turn of the line lexer looks at one offset of the text.  It ends the line there, or takes what stands
  there and goes on behind it.  Nothing bounds the number of turns: a comment takes all up to the line
  break, so where a line break itself opens a comment the comment takes nothing, the next turn looks at
  the same offset again, and the line never ends.

  A loop that never ends has no value: `lexLine?` and `tokenize?` are `none` there, and running them does
  not return.  Where they end, `Dialect.lexLine` and `Dialect.tokenize` are what they come to.
-/
import BlockScript.Loop
import BlockScript.Token.Reading

namespace BlockScript

/-- What a turn of the line lexer comes to, with the lexeme it found. -/
inductive Turn where
  /-- the line is over, and the next one starts at `stop` -/
  | ends (stop : Nat) (found : Option Lexeme)
  /-- the next turn looks at `pos` -/
  | onward (pos : Nat) (found : Option Lexeme)
  deriving DecidableEq, Repr

namespace Dialect

/-- The turn of the line lexer at offset `pos`.  Inside a character the line ends after one byte. -/
def turn (d : Dialect) (t : Text) (pos : Nat) : Turn :=
  match t.splitAt? pos with
  | none =>
    if pos < t.size then .ends (pos + 1) (some ⟨.newline, pos, ['\n']⟩) else .ends t.size none
  | some (_, []) => .ends t.size none
  | some (before, c :: cs) =>
    let kind := (d.cut before.getLast? c cs).1
    let front : Text := (c :: cs).take (d.cut before.getLast? c cs).2
    let found := kind.lexeme?.map (⟨·, pos, front⟩)
    if kind = .newline then .ends (pos + front.size) found else .onward (pos + front.size) found

/-- A turn of a line that starts at `start`, with the lexemes found so far. -/
def lexStep (d : Dialect) (t : Text) (start : Nat) (s : List Lexeme × Nat) :
    Option ((List Lexeme × Nat) ⊕ LexedLine) :=
  match d.turn t s.2 with
  | .ends stop found => some (.inr ⟨start, stop, s.1 ++ found.toList⟩)
  | .onward pos found => some (.inl (s.1 ++ found.toList, pos))

/-- The turns from offset `pos` on, of a line that starts at `start` and gave `lexemes` so far. -/
def lexFrom (d : Dialect) (t : Text) (start : Nat) (lexemes : List Lexeme) (pos : Nat) :
    Option LexedLine :=
  Step.loop (d.lexStep t start) (lexemes, pos)

/-- The line at offset `start`, which need not be the start of a line, if its lexer comes to an end. -/
def lexLine? (d : Dialect) (t : Text) (start : Nat) : Option LexedLine := d.lexFrom t start [] start

/-- The tokens of one more line, behind those found so far. -/
def lineStep (d : Dialect) (t : Text) (s : List Token × Nat) :
    Option ((List Token × Nat) ⊕ List Token) :=
  if s.2 < t.size then
    (d.lexLine? t s.2).map fun line => .inl (s.1 ++ d.tokensOf line.lexemes, line.stop)
  else some (.inr s.1)

/-- The lines from offset `start` on, read behind `tokens`. -/
def tokenizeLines? (d : Dialect) (t : Text) (tokens : List Token) (start : Nat) :
    Option (List Token) :=
  Step.loop (d.lineStep t) (tokens, start)

/-- The tokens of a text, if the lexer comes to an end on every line. -/
def tokenize? (d : Dialect) (t : Text) : Option (List Token) := d.tokenizeLines? t [] 0

end Dialect

end BlockScript
