/-
  Lexical classes of characters, and the dialect that tells comments and keywords.

  Every character has one class.  A dialect adds the comment marker, any text, which takes precedence
  over the class of the character it starts with.  A marker that ends in a word character counts only
  where neither neighbour is a word character, so that `remark` stays a word when `rem` opens comments.
-/
import BlockScript.Text.Alphabetic
import BlockScript.Text.Basic
import BlockScript.Text.Blank

namespace BlockScript

/-- The lexical class at an offset. -/
inductive CharClass where
  | word
  | symbol
  | blank
  | newline
  | separator
  | quote
  | comment
  deriving DecidableEq, Repr

namespace CharClass

/-- The class of an ASCII character. -/
def ofAscii (c : Char) : CharClass :=
  if c.isAlphanum || c = '_' || c = '.' || c = '$' then .word
  else if c = ' ' || c = '\t' || c = '\r' || c = '\x0b' || c = '\x0c' then .blank
  else if c = '\n' then .newline
  else if c = ';' then .separator
  else if c = '"' || c = '\'' then .quote
  else .symbol

/-- The class of a character, comments apart: outside ASCII letters are words, blanks are blank and
    all else is a symbol. -/
def of (c : Char) : CharClass :=
  if c.toNat < 128 then ofAscii c
  else if isAlphabetic c then .word
  else if isBlank c then .blank
  else .symbol

end CharClass

/-- Whether the character is a word character of a script. -/
def isScriptWord (c : Char) : Bool := CharClass.of c = .word

/-- How a script marks comments, and whether keywords ignore the case of ASCII letters. -/
structure Dialect where
  marker : Text := ['#']
  ignoreCase : Bool := true
  deriving DecidableEq

namespace Dialect

/-- Whether the marker reads as a word: it ends in a word character. -/
def hasWordMarker (d : Dialect) : Bool := d.marker.getLast?.any isScriptWord

/-- Whether a comment opens at the front of `rest`, which follows the character `before`. -/
def opensComment (d : Dialect) (before : Option Char) (rest : Text) : Bool :=
  !d.marker.isEmpty && d.marker.isPrefixOf rest &&
    (!d.hasWordMarker ||
      !before.any isScriptWord && !(rest.drop d.marker.length).head?.any isScriptWord)

/-- The class at the front of `rest`, which follows the character `before`; the end of the text
    counts as a line break. -/
def classHere (d : Dialect) (before : Option Char) : Text → CharClass
  | [] => .newline
  | c :: cs => if d.opensComment before (c :: cs) then .comment else CharClass.of c

/-- The class at offset `p`; past the end and inside a character it is a line break. -/
def classAt (d : Dialect) (t : Text) (p : Nat) : CharClass :=
  match t.splitAt? p with
  | some (before, rest) => d.classHere before.getLast? rest
  | none => .newline

/-- Whether two texts are the same up to the case of ASCII letters. -/
def sameLetters : Text → Text → Bool
  | [], [] => true
  | a :: as, b :: bs => a.toLower = b.toLower && sameLetters as bs
  | _, _ => false

/-- Whether `word` spells `keyword` under the dialect's case rule. -/
def spells (d : Dialect) (word keyword : Text) : Bool :=
  if d.ignoreCase then sameLetters word keyword else word = keyword

end Dialect

end BlockScript
