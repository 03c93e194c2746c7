/-
  Structural tokens: what a script looks like to everything that asks about its blocks.
-/
import BlockScript.Text.Basic

namespace BlockScript

/-- The syntactic category of a token. -/
inductive TokenKind where
  /-- `;` or a line break -/
  | separator
  /-- `begin NAME` -/
  | beginBlock
  | forLoop
  /-- `if` whose line ends right after `then` -/
  | ifBlock
  /-- `if` on a single line, never closed -/
  | ifLine
  | sub
  | untilLoop
  | whileLoop
  | gsave
  /-- `end WORD` -/
  | endThing
  /-- `end` with no word after it -/
  | endBare
  | nextBare
  /-- `next VAR` -/
  | nextVar
  | grestore
  /-- `else` directly followed by `if` -/
  | elseLine
  | elseBlock
  | thenWord
  /-- `to` in a `for` header -/
  | toWord
  /-- `step` in a `for` header -/
  | stepWord
  /-- `=` in a `for` header -/
  | assign
  /-- text without structure -/
  | expr
  /-- a word directly followed by `=` -/
  | var
  /-- an edge of the buffer, or of the part of it that may be looked at -/
  | edge
  deriving DecidableEq, Repr

namespace TokenKind

/-- Every kind; tables and listings keep this order. -/
def all : List TokenKind :=
  [.separator, .beginBlock, .forLoop, .ifBlock, .ifLine, .sub, .untilLoop, .whileLoop, .gsave,
    .endThing, .endBare, .nextBare, .nextVar, .grestore, .elseLine, .elseBlock, .thenWord, .toWord,
    .stepWord, .assign, .expr, .var, .edge]

/-- The kind as listings show it. -/
def symbol : TokenKind → String
  | .separator => ";"
  | .beginBlock => "begin"
  | .forLoop => "for"
  | .ifBlock => "if-block"
  | .ifLine => "if-line"
  | .sub => "sub"
  | .untilLoop => "until"
  | .whileLoop => "while"
  | .gsave => "gsave"
  | .endThing => "end-thing"
  | .endBare => "end"
  | .nextBare => "next"
  | .nextVar => "next-var"
  | .grestore => "grestore"
  | .elseLine => "else-line"
  | .elseBlock => "else-bloc"
  | .thenWord => "then"
  | .toWord => "to"
  | .stepWord => "step"
  | .assign => "="
  | .expr => "<exp>"
  | .var => "<var>"
  | .edge => "<eob>"

/-- The kind as structured output names it. -/
def label : TokenKind → String
  | .separator => "separator"
  | .assign => "assign"
  | .expr => "exp"
  | .var => "var"
  | .edge => "eob"
  | k => k.symbol

/-- The kind that listings show as `s`. -/
def ofSymbol? (s : String) : Option TokenKind := all.find? (·.symbol == s)

end TokenKind

/-- A word of the text with the offset where it starts. -/
structure Name where
  start : Nat
  text : Text
  deriving DecidableEq, Repr

namespace Name

/-- The offset just after the word. -/
def stop (n : Name) : Nat := n.start + n.text.size

end Name

/-- A classified stretch of the text, from offset `start` up to `stop`.  The name of `begin NAME` and
    `end NAME`, and the variable of `next VAR`, end the stretch. -/
structure Token where
  kind : TokenKind
  start : Nat
  stop : Nat
  name : Option Name := none
  deriving DecidableEq, Repr

namespace Token

/-- The token that stands for an edge at offset `p`. -/
def edgeAt (p : Nat) : Token := ⟨.edge, p, p, none⟩

/-- Whether the token stands for an edge. -/
def isEdge (t : Token) : Bool := t.kind = .edge

/-- The text a token covers. -/
def textIn (t : Token) (text : Text) : Text := text.slice t.start t.stop

/-- The token's name, empty if it has none. -/
def nameText (t : Token) : Text := (t.name.map Name.text).getD []

/-- The token as `KIND@START..STOP`. -/
def display (t : Token) : String := t.kind.symbol ++ "@" ++ toString t.start ++ ".." ++ toString t.stop

end Token

end BlockScript
