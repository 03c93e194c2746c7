/-
  The text that closes the innermost open construct.
-/
import BlockScript.Nesting.Search

namespace BlockScript

/-- Why no closing text can be given. -/
inductive CloseError where
  | noConstruct
  /-- an `end found` before the offset closes a `begin expected` -/
  | mismatch (expected found : Text) (start : Nat)
  deriving DecidableEq, Repr

namespace CloseError

/-- The error in words. -/
def message : CloseError → String
  | .noConstruct => "no enclosing construct"
  | .mismatch expected found start =>
    "`end " ++ String.ofList found ++ "` at offset " ++ toString start ++ " closes `begin " ++
      String.ofList expected ++ "`"

end CloseError

namespace Profile

/-- A keyword, then a space and a name if there is one. -/
def withName (k : Keyword) : Option Text → Text
  | some name => k.spelling ++ ' ' :: name
  | none => k.spelling

/-- The text that closes the innermost construct open at offset `p`. -/
def closingText (P : Profile) (b : Buffer) (p : Nat) : Except CloseError Text :=
  match P.unclosedBefore b P.scanner {} (min p b.size) with
  | (none, _, _) => .error .noConstruct
  | (some opener, w, s) =>
    match w.mismatch with
    | some (begun, ended) => .error (.mismatch begun.nameText ended.nameText ended.start)
    | none =>
      match opener.kind with
      | .whileLoop => .ok (withName .nextWord none)
      | .untilLoop => .ok (withName .nextWord none)
      | .ifBlock => .ok (withName .endWord (some Keyword.ifWord.spelling))
      | .sub => .ok (withName .endWord (some Keyword.subWord.spelling))
      | .gsave => .ok (withName .grestoreWord none)
      | .forLoop =>
        let var := (s.next P.dialect b opener.stop).1
        .ok (withName .nextWord (if var.kind = .var then some (var.textIn b.text) else none))
      | .beginBlock => .ok (withName .endWord (opener.name.map Name.text))
      | _ => .error .noConstruct

/-- The text with one more line; a line break is put first unless the text is empty or ends in
    one. -/
def appendLine (t line : Text) : Text :=
  t ++ (if t.isEmpty || t.getLast? = some '\n' then [] else ['\n']) ++ line ++ ['\n']

/-- Closes the innermost construct open at the end of a text on a line of its own, and gives the
    closing text with the new text. -/
def closeAtEnd (P : Profile) (t : Text) : Except CloseError (Text × Text) :=
  (P.closingText (Buffer.ofText t) t.size).map fun closing => (closing, appendLine t closing)

end Profile

end BlockScript
