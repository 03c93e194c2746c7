/-
  Reading the lexemes of a line as tokens.

  Every doubt is settled within the line:
    * `if` is a block when its `then` ends the statement, and a single-line `if` otherwise;
    * `else` directly before `if` continues a chain of conditions;
    * `end`, `next` and `begin` take the word that follows into one token;
    * `to`, `step` and the lone `=` count only in a `for` header, which a separator ends;
    * a word directly before a lone `=` is a variable.
-/
import BlockScript.Keyword
import BlockScript.Lexeme
import BlockScript.Token

namespace BlockScript

/-- Where in a `for` header the reader stands. -/
inductive Header where
  | outside
  | beforeAssign
  | afterAssign
  deriving DecidableEq, Repr

namespace Lexeme

/-- The lexeme as a token of its own. -/
def token (l : Lexeme) (kind : TokenKind) : Token := ⟨kind, l.start, l.stop, none⟩

/-- The lexeme and the word `name` after it as one token. -/
def tokenNamed (l : Lexeme) (kind : TokenKind) (name : Lexeme) : Token :=
  ⟨kind, l.start, name.stop, some ⟨name.start, name.text⟩⟩

end Lexeme

namespace Keyword

/-- The kinds of a keyword that takes the following word into its token: without and with it. -/
def folding : Keyword → Option (TokenKind × TokenKind)
  | .endWord => some (.endBare, .endThing)
  | .nextWord => some (.nextBare, .nextVar)
  | .beginWord => some (.beginBlock, .beginBlock)
  | _ => none

end Keyword

namespace Dialect

/-- Whether a lexeme is a word that spells `k`. -/
def lexemeIs (d : Dialect) (k : Keyword) (l : Lexeme) : Bool := l.kind = .word && d.isKeyword l.text k

/-- The kind of an `if` with the lexemes `rest` after it on its line. -/
def ifKind (d : Dialect) (rest : List Lexeme) : TokenKind :=
  match rest.dropWhile (!d.lexemeIs .thenWord ·) with
  | [] => .ifLine
  | [_] => .ifBlock
  | _ :: l :: _ => if l.endsStatement then .ifBlock else .ifLine

/-- The kind of a word that spells no keyword of its own here. -/
def plainKind (rest : List Lexeme) : TokenKind :=
  if rest.head?.any (·.kind = .equals) then .var else .expr

/-- The kind of a word that stays a token of its own, and the header it leaves the reader in. -/
def wordKind (d : Dialect) (header : Header) (k : Option Keyword) (rest : List Lexeme) :
    TokenKind × Header :=
  match k with
  | some .ifWord => (d.ifKind rest, header)
  | some .elseWord => (if rest.head?.any (d.lexemeIs .ifWord) then .elseLine else .elseBlock, header)
  | some .forWord => (.forLoop, .beforeAssign)
  | some .subWord => (.sub, header)
  | some .whileWord => (.whileLoop, header)
  | some .untilWord => (.untilLoop, header)
  | some .gsaveWord => (.gsave, header)
  | some .grestoreWord => (.grestore, header)
  | some .thenWord => (.thenWord, header)
  | some .toWord => (if header = .afterAssign then .toWord else plainKind rest, header)
  | some .stepWord => (if header = .afterAssign then .stepWord else plainKind rest, header)
  | _ => (plainKind rest, header)

/-- The tokens of the rest of a line, read from inside `header`. -/
def read (d : Dialect) (header : Header) : List Lexeme → List Token
  | [] => []
  | l :: ls =>
    match l.kind with
    | .newline => l.token .separator :: d.read .outside ls
    | .semicolon => l.token .separator :: d.read .outside ls
    | .string => l.token .expr :: d.read header ls
    | .symbol => l.token .expr :: d.read header ls
    | .equals =>
      if header = .beforeAssign then l.token .assign :: d.read .afterAssign ls
      else l.token .expr :: d.read header ls
    | .word =>
      match (d.keyword? l.text).bind Keyword.folding, ls with
      | some (bare, _), [] => [l.token bare]
      | some (bare, named), n :: ls' =>
        if n.kind = .word then l.tokenNamed named n :: d.read header ls'
        else l.token bare :: d.read header (n :: ls')
      | none, ls =>
        let (kind, header') := d.wordKind header (d.keyword? l.text) ls
        l.token kind :: d.read header' ls

/-- The tokens of a line. -/
def tokensOf (d : Dialect) (ls : List Lexeme) : List Token := d.read .outside ls

/-- The tokens of all lines of a text that starts at offset `p`, at the start of a line. -/
def tokenizeFrom (d : Dialect) (p : Nat) : Text → List Token
  | [] => []
  | c :: cs =>
    let line := d.pieces none (c :: cs)
    d.tokensOf (place p line.1) ++ d.tokenizeFrom (p + Piece.totalSize line.1) line.2
termination_by t => t.length
decreasing_by exact d.pieces_shorter none c cs

/-- The tokens of a text. -/
def tokenize (d : Dialect) (t : Text) : List Token := d.tokenizeFrom 0 t

end Dialect

end BlockScript
