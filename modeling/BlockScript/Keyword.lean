/-
  The words that carry the block structure of a script.
-/
import BlockScript.CharClass

namespace BlockScript

/-- A structural word. -/
inductive Keyword where
  | ifWord
  | elseWord
  | endWord
  | nextWord
  | beginWord
  | forWord
  | subWord
  | whileWord
  | untilWord
  | gsaveWord
  | grestoreWord
  | thenWord
  | toWord
  | stepWord
  deriving DecidableEq, Repr

namespace Keyword

/-- Every structural word. -/
def all : List Keyword :=
  [.ifWord, .elseWord, .endWord, .nextWord, .beginWord, .forWord, .subWord, .whileWord, .untilWord,
    .gsaveWord, .grestoreWord, .thenWord, .toWord, .stepWord]

/-- How the word is written. -/
def spelling : Keyword → Text
  | .ifWord => ['i', 'f']
  | .elseWord => ['e', 'l', 's', 'e']
  | .endWord => ['e', 'n', 'd']
  | .nextWord => ['n', 'e', 'x', 't']
  | .beginWord => ['b', 'e', 'g', 'i', 'n']
  | .forWord => ['f', 'o', 'r']
  | .subWord => ['s', 'u', 'b']
  | .whileWord => ['w', 'h', 'i', 'l', 'e']
  | .untilWord => ['u', 'n', 't', 'i', 'l']
  | .gsaveWord => ['g', 's', 'a', 'v', 'e']
  | .grestoreWord => ['g', 'r', 'e', 's', 't', 'o', 'r', 'e']
  | .thenWord => ['t', 'h', 'e', 'n']
  | .toWord => ['t', 'o']
  | .stepWord => ['s', 't', 'e', 'p']

end Keyword

namespace Dialect

/-- Whether `word` spells the keyword `k`. -/
def isKeyword (d : Dialect) (word : Text) (k : Keyword) : Bool := d.spells word k.spelling

/-- The keyword that `word` spells, if any. -/
def keyword? (d : Dialect) (word : Text) : Option Keyword := Keyword.all.find? (d.isKeyword word)

end Dialect

end BlockScript
