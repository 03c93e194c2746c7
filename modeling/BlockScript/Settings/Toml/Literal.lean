/-
  TOML's blanks, comments, strings, numbers and moments in time.

  Strings are read character by character up to their closing quotes.  Everything else that has no
  quotes or brackets is one run of characters, which as a whole has to be a truth value, a number or a
  moment.
-/
import BlockScript.Settings.Value

namespace BlockScript

namespace Toml

/-! ## Blanks and comments -/

/-- A blank within a line. -/
def isSpace (c : Char) : Bool := c = ' ' || c = '\t'

/-- A character that may stand in a comment or a string on one line. -/
def isPlain (c : Char) : Bool := c = '\t' || (' ' ≤ c && c ≠ '\x7f')

/-- The text after the blanks it starts with. -/
def skipSpaces (t : Text) : Text := t.dropWhile isSpace

/-- The text after a line break, if it starts with one. -/
def newline? : Text → Option Text
  | '\n' :: t => some t
  | '\r' :: '\n' :: t => some t
  | _ => none

/-- The text after the blanks, comments and line breaks it starts with; `inComment` says that it
    starts inside a comment. -/
def skipLines (inComment : Bool) : Text → Text
  | [] => []
  | c :: t =>
    if c = '\n' then skipLines false t
    else if c = '\r' && t.head? = some '\n' then skipLines false t
    else if inComment then if isPlain c then skipLines true t else c :: t
    else if isSpace c then skipLines false t
    else if c = '#' then skipLines true t
    else c :: t

/-- The text after the rest of its line, if that holds nothing but blanks and a comment. -/
def endLine? (t : Text) : Option Text :=
  let t := skipSpaces t
  let t := match t with
    | '#' :: t => t.dropWhile isPlain
    | t => t
  if t.isEmpty then some [] else newline? t

/-! ## Strings -/

/-- The value of a hexadecimal digit. -/
def hexDigit? (c : Char) : Option Nat :=
  if '0' ≤ c ∧ c ≤ '9' then some (c.toNat - '0'.toNat)
  else if 'a' ≤ c ∧ c ≤ 'f' then some (c.toNat - 'a'.toNat + 10)
  else if 'A' ≤ c ∧ c ≤ 'F' then some (c.toNat - 'A'.toNat + 10)
  else none

/-- The character whose number the first `n` characters write, and the text after them. -/
def hexChar? (n : Nat) (t : Text) : Option (Char × Text) :=
  let digits := t.take n
  if digits.length ≠ n then none
  else
    match digits.mapM hexDigit? with
    | none => none
    | some ds =>
      let value := ds.foldl (fun v d => v * 16 + d) 0
      if value.isValidChar then some (Char.ofNat value, t.drop n) else none

/-- The character that a backslash sequence stands for (the text starts after the backslash), and the
    text after it. -/
def escape? : Text → Option (Char × Text)
  | 'b' :: t => some ('\x08', t)
  | 't' :: t => some ('\t', t)
  | 'n' :: t => some ('\n', t)
  | 'f' :: t => some ('\x0c', t)
  | 'r' :: t => some ('\r', t)
  | '"' :: t => some ('"', t)
  | '\\' :: t => some ('\\', t)
  | 'u' :: t => hexChar? 4 t
  | 'U' :: t => hexChar? 8 t
  | _ => none

/-- A character before what was read. -/
def before (c : Char) (r : Option (Text × Text)) : Option (Text × Text) :=
  r.map fun (s, rest) => (c :: s, rest)

/-- The string up to a closing `"` on its line, and the text after it. -/
def basicString : Text → Option (Text × Text)
  | [] => none
  | '"' :: t => some ([], t)
  | '\\' :: t =>
    match escape? t with
    | none => none
    | some (c, rest) => if _h : rest.length ≤ t.length then before c (basicString rest) else none
  | c :: t => if isPlain c then before c (basicString t) else none
termination_by t => t.length
decreasing_by all_goals simp only [List.length_cons]; omega

/-- The string up to a closing `'` on its line, and the text after it. -/
def literalString : Text → Option (Text × Text)
  | [] => none
  | '\'' :: t => some ([], t)
  | c :: t => if isPlain c then before c (literalString t) else none

/-- The text after the blanks and line breaks it starts with. -/
def skipBreaks : Text → Text
  | [] => []
  | c :: t =>
    if isSpace c || c = '\n' || (c = '\r' && t.head? = some '\n') then skipBreaks t else c :: t

/-- The text after a backslash at the end of a line: the blanks and line breaks after it are left
    out. -/
def continued? (t : Text) : Option Text := (newline? (skipSpaces t)).map skipBreaks

/-- The string up to closing quotes `q q q`, of which up to two more may stand before them, and the
    text after it.  With `escapes` a backslash has its meaning. -/
def longString (q : Char) (escapes : Bool) : Text → Option (Text × Text)
  | [] => none
  | c :: t =>
    if c = q && t.take 2 = [q, q] then
      let more := ((t.drop 2).take 2).takeWhile (· = q)
      some (more, (t.drop 2).drop more.length)
    else if c = '\\' && escapes then
      match continued? t, escape? t with
      | some rest, _ => if _h : rest.length ≤ t.length then longString q escapes rest else none
      | none, some (e, rest) =>
        if _h : rest.length ≤ t.length then before e (longString q escapes rest) else none
      | none, none => none
    else if c = '\n' then before '\n' (longString q escapes t)
    else if c = '\r' && t.head? = some '\n' then longString q escapes t
    else if isPlain c then before c (longString q escapes t)
    else none
termination_by t => t.length
decreasing_by all_goals simp only [List.length_cons]; omega

/-- The text after a line break right after opening quotes. -/
def skipNewline (t : Text) : Text := (newline? t).getD t

/-- The string that the text starts with, and the text after it. -/
def string? : Text → Option (Text × Text)
  | '"' :: '"' :: '"' :: t => longString '"' true (skipNewline t)
  | '\'' :: '\'' :: '\'' :: t => longString '\'' false (skipNewline t)
  | '"' :: t => basicString t
  | '\'' :: t => literalString t
  | _ => none

/-! ## Numbers -/

/-- The digits of a number in which single underscores may stand between digits. -/
def plainDigits? (isDigit : Char → Bool) : Text → Option Text
  | [] => none
  | [c] => if isDigit c then some [c] else none
  | c :: '_' :: t => if isDigit c then (plainDigits? isDigit t).map (c :: ·) else none
  | c :: t => if isDigit c then (plainDigits? isDigit t).map (c :: ·) else none

/-- The number that digits write in a base. -/
def valueIn (base : Nat) (digits : Text) : Nat :=
  digits.foldl (fun n c => n * base + (hexDigit? c).getD 0) 0

/-- The sign of a number, and the text after it. -/
def sign : Text → Bool × Text
  | '-' :: t => (true, t)
  | '+' :: t => (false, t)
  | t => (false, t)

/-- Digits without a needless zero in front. -/
def wholeDigits? (t : Text) : Option Text :=
  (plainDigits? Char.isDigit t).filter fun ds => ds.head? ≠ some '0' || ds.length = 1

/-- A whole number of 64 bits. -/
def bounded? (n : Int) : Option Scalar :=
  if Int64.minValue.toInt ≤ n ∧ n ≤ Int64.maxValue.toInt then some (.int n) else none

/-- The whole number that a run of characters writes. -/
def int? (t : Text) : Option Scalar :=
  let digitBelow (base : Nat) (c : Char) : Bool := (hexDigit? c).any (· < base)
  let inBase (base : Nat) (t : Text) : Option Scalar :=
    (plainDigits? (digitBelow base) t).bind fun ds => bounded? (valueIn base ds)
  match t with
  | '0' :: 'x' :: t => inBase 16 t
  | '0' :: 'o' :: t => inBase 8 t
  | '0' :: 'b' :: t => inBase 2 t
  | t =>
    let (negative, t) := sign t
    (wholeDigits? t).bind fun ds =>
      let n : Int := valueIn 10 ds
      bounded? (if negative then -n else n)

/-- The exponent of a number: `none` if it is not written as it should be. -/
def exponent? (t : Text) : Option Int :=
  let (negative, t) := sign t
  (plainDigits? Char.isDigit t).map fun ds =>
    let n : Int := valueIn 10 ds
    if negative then -n else n

/-- The number in floating point that a run of characters writes.  Digits above the range are refused,
    and those below it stand for the infinity there. -/
def float? (t : Text) : Option Scalar :=
  let (negative, t) := sign t
  if t = "inf".toList then some (.float (.infinite negative))
  else if t = "nan".toList then some (.float .nan)
  else
    let isE (c : Char) : Bool := c = 'e' || c = 'E'
    let mantissa := t.takeWhile (!isE ·)
    let whole := mantissa.takeWhile (· ≠ '.')
    let fraction? : Option Text :=
      if whole.length = mantissa.length then some []
      else plainDigits? Char.isDigit (mantissa.drop (whole.length + 1))
    let exponent? : Option Int :=
      if mantissa.length = t.length then some 0 else exponent? (t.drop (mantissa.length + 1))
    if whole.length = t.length then none
    else
      match wholeDigits? whole, fraction?, exponent? with
      | some ds, some fs, some e =>
        match Double.ofDecimal negative (valueIn 10 (ds ++ fs)) (e - fs.length) with
        | .infinite false => none
        | x => some (.float x)
      | _, _, _ => none

/-! ## Moments -/

/-- The number of the first two digits, if it lies in the bounds, and the text after them. -/
def twoDigits? (low high : Nat) : Text → Option (Nat × Text)
  | a :: b :: t =>
    if a.isDigit && b.isDigit then
      let n := valueIn 10 [a, b]
      if low ≤ n ∧ n ≤ high then some (n, t) else none
    else none
  | _ => none

/-- The number of days in a month. -/
def daysIn (year month : Nat) : Nat :=
  if month = 2 then if year % 4 = 0 ∧ (year % 100 ≠ 0 ∨ year % 400 = 0) then 29 else 28
  else if [4, 6, 9, 11].contains month then 30
  else 31

/-- The text after a date, if it starts with one. -/
def date? (t : Text) : Option Text := do
  let year := t.take 4
  if year.length ≠ 4 || !year.all Char.isDigit then none
  else
    match t.drop 4 with
    | '-' :: t =>
      let (month, t) ← twoDigits? 1 12 t
      match t with
      | '-' :: t =>
        let (_, t) ← twoDigits? 1 (daysIn (valueIn 10 year) month) t
        some t
      | _ => none
    | _ => none

/-- A time of day in its usual form, without the zeros that end its fraction, and the text after
    it. -/
def time? (t : Text) : Option (Text × Text) := do
  let start := t
  let (_, t) ← twoDigits? 0 23 t
  match t with
  | ':' :: t =>
    let (_, t) ← twoDigits? 0 59 t
    match t with
    | ':' :: t =>
      let (_, t) ← twoDigits? 0 60 t
      match t with
      | '.' :: f =>
        let digits := f.takeWhile Char.isDigit
        let kept := Text.trimEnd (· = '0') (digits.take 9)
        if digits.isEmpty then none
        else some (start.take 8 ++ (if kept.isEmpty then [] else '.' :: kept), f.drop digits.length)
      | t => some (start.take 8, t)
    | _ => none
  | _ => none

/-- The offset from universal time that the whole text writes, in its usual form. -/
def zone? : Text → Option Text
  | [] => some []
  | ['z'] => some ['Z']
  | ['Z'] => some ['Z']
  | c :: t => do
    if c ≠ '+' && c ≠ '-' then none
    else
      let (hours, t) ← twoDigits? 0 23 t
      match t with
      | ':' :: t =>
        let (minutes, rest) ← twoDigits? 0 59 t
        let c := if hours = 0 ∧ minutes = 0 then '+' else c
        if rest.isEmpty then some (c :: (toString (100 + hours)).toList.drop 1 ++
          ':' :: (toString (100 + minutes)).toList.drop 1)
        else none
      | _ => none

/-- The moment that a run of characters writes, in its usual form: a date, a time, or both with a
    `T` between them. -/
def moment? (t : Text) : Option Scalar :=
  match date? t with
  | some [] => some (.string t)
  | some (c :: rest) =>
    if c = 'T' || c = 't' || c = ' ' then do
      let (time, rest) ← time? rest
      let zone ← zone? rest
      some (.string (t.take 10 ++ 'T' :: time ++ zone))
    else none
  | none =>
    match time? t with
    | some (time, []) => some (.string time)
    | _ => none

/-! ## Runs -/

/-- A character of a value without quotes and brackets. -/
def isRunChar (c : Char) : Bool :=
  c.isAlphanum || c = '_' || c = '+' || c = '-' || c = '.' || c = ':'

/-- What a run of characters stands for. -/
def scalarOf? (run : Text) : Option Scalar :=
  if run = "true".toList then some (.bool true)
  else if run = "false".toList then some (.bool false)
  else (moment? run).or ((float? run).or (int? run))

/-- The value without quotes and brackets that the text starts with, and the text after it.  A blank
    may stand between a date and a time. -/
def plainValue? (t : Text) : Option (Scalar × Text) :=
  let run := t.takeWhile isRunChar
  let rest := t.drop run.length
  let time : Text := match rest with
    | ' ' :: rest => rest.takeWhile isRunChar
    | _ => []
  match date? run, time?  time with
  | some [], some _ => (moment? (run ++ ' ' :: time)).map fun s => (s, rest.drop (1 + time.length))
  | _, _ => (scalarOf? run).map fun s => (s, rest)

end Toml

end BlockScript
