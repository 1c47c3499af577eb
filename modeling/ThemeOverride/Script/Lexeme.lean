import ThemeOverride.Script.Tree

/-!
# Lexemes of scripts

The smallest pieces of a script: blanks, comments, words, numbers, and the pieces of strings,
templates, regular expressions and markup. A scanner looks at the start of a text and answers
with the length of the piece it finds there.

## Main definitions

* `ThemeOverride.Script.blanks`, `comments`: what may come before a token.
* `ThemeOverride.Script.wordLength`, `keyword`, `nameExcept`: words.
* `ThemeOverride.Script.mark`, `operator`: punctuation, alone or as long as possible.
* `ThemeOverride.Script.numberLength` and the other scanners of literals.
-/

namespace ThemeOverride.Script

/-! ## Characters -/

/-- Whether a character separates tokens: white space, or an invisible joiner or mark. -/
def isSeparator (c : Char) : Bool :=
  let n := c.toNat
  c == ' ' || (9 ≤ n && n ≤ 13) || n == 0x85 || n == 0xA0 || n == 0x1680 ||
    (0x2000 ≤ n && n ≤ 0x200B) || n == 0x2028 || n == 0x2029 || n == 0x202F || n == 0x205F ||
    n == 0x2060 || n == 0x3000 || n == 0xFEFF

/-- Whether a character is white space to the rules of implied terminators, of conditional
marks and of markup text. These do not count the spaces that forbid a break. -/
def isSpace (c : Char) : Bool :=
  let n := c.toNat
  c == ' ' || (9 ≤ n && n ≤ 13) || n == 0x1680 || (0x2000 ≤ n && n ≤ 0x2006) ||
    (0x2008 ≤ n && n ≤ 0x200A) || n == 0x2028 || n == 0x2029 || n == 0x205F || n == 0x3000

/-- Whether a character ends a line comment. -/
def isLineEnd (c : Char) : Bool :=
  c == '\n' || c == '\r' || c == '\u2028' || c == '\u2029'

/-- Whether a word may begin with the character. All but controls, separators, digits and the
marks of the language may. -/
def isNameStart (c : Char) : Bool :=
  if c.toNat < 128 then c.isAlpha || c == '_' || c == '$' || c.toNat == 127
  else !(isSeparator c)

/-- Whether a word may go on with the character. -/
def isNamePart (c : Char) : Bool := isNameStart c || c.isDigit

/-- Whether a character is a hexadecimal digit. -/
def isHexDigit (c : Char) : Bool :=
  c.isDigit || ('a' ≤ c && c ≤ 'f') || ('A' ≤ c && c ≤ 'F')

/-! ## Blanks and comments -/

/-- The blanks at the start of a text, and the rest. -/
def blanks (s : List Char) : List Char × List Char :=
  (s.takeWhile isSeparator, s.dropWhile isSeparator)

/-- The length of a block comment's rest, up to and with its end. -/
def blockCommentRest : List Char → Option Nat
  | [] => none
  | ['*', '/'] => some 2
  | '*' :: '/' :: _ => some 2
  | _ :: rest => (blockCommentRest rest).map (· + 1)

/-- The length of a comment. -/
def commentLength : List Char → Option Nat
  | '/' :: '/' :: rest => some (2 + (rest.takeWhile (!isLineEnd ·)).length)
  | '/' :: '*' :: rest => (blockCommentRest rest).map (· + 2)
  | _ => none

/-- The comments at the start of a text as leaves, with at most `fuel` of them. -/
def commentsUpTo (fuel : Nat) (s : List Char) : List Tree × List Char × List Char :=
  match fuel with
  | 0 => ([], blanks s)
  | fuel + 1 =>
    let (gap, rest) := blanks s
    match commentLength rest with
    | none => ([], gap, rest)
    | some n =>
      let (more, gap', rest') := commentsUpTo fuel (rest.drop n)
      (.leaf none .comment gap (rest.take n) :: more, gap', rest')

/-- The comments at the start of a text as leaves, with the blanks and the text after them. -/
def comments (s : List Char) : List Tree × List Char × List Char := commentsUpTo s.length s

theorem blanks_append (s : List Char) : (blanks s).1 ++ (blanks s).2 = s := by
  simp [blanks]

/-- Comments, the blanks after them and the text after these make up the text. -/
theorem commentsUpTo_append (fuel : Nat) (s : List Char) :
    Tree.charsAll (commentsUpTo fuel s).1 ++ ((commentsUpTo fuel s).2.1 ++
      (commentsUpTo fuel s).2.2) = s := by
  induction fuel generalizing s with
  | zero => simp [commentsUpTo, blanks_append]
  | succ fuel ih =>
    unfold commentsUpTo
    cases h : commentLength (blanks s).2 with
    | none => simp [h, blanks_append]
    | some n => simp [h, Tree.chars, ih, blanks_append]

/-! ## Words -/

/-- The length of a Unicode escape as words may hold it. -/
def unicodeEscapeLength : List Char → Option Nat
  | '\\' :: 'u' :: '\x7b' :: rest =>
    let digits := rest.takeWhile isHexDigit
    match digits, rest.drop digits.length with
    | _ :: _, '\x7d' :: _ => some (digits.length + 4)
    | _, _ => none
  | '\\' :: 'u' :: a :: b :: c :: d :: _ =>
    if isHexDigit a && isHexDigit b && isHexDigit c && isHexDigit d then some 6 else none
  | _ => none

/-- The length of the rest of a word, reading at most `fuel` pieces. -/
def namePartsLength (fuel : Nat) (s : List Char) : Nat :=
  match fuel, s with
  | 0, _ => 0
  | _, [] => 0
  | fuel + 1, c :: rest =>
    if isNamePart c then namePartsLength fuel rest + 1
    else match unicodeEscapeLength (c :: rest) with
      | some n => namePartsLength fuel ((c :: rest).drop n) + n
      | none => 0

/-- The length of a word. -/
def wordLength (s : List Char) : Option Nat :=
  match s with
  | [] => none
  | c :: rest =>
    if isNameStart c then some (namePartsLength rest.length rest + 1)
    else (unicodeEscapeLength s).map fun n =>
      namePartsLength (s.drop n).length (s.drop n) + n

/-- The word at the start of a text. -/
def wordAt (s : List Char) : List Char := s.take ((wordLength s).getD 0)

/-- The length of a given word, which must be the whole word there. -/
def keyword (w : String) (s : List Char) : Option Nat :=
  if wordAt s == w.toList then some w.length else none

/-- The length of a word that is not among the given ones. -/
def nameExcept (words : List String) (s : List Char) : Option Nat :=
  (wordLength s).filter fun n => !(words.any fun w => w.toList == s.take n)

/-- The length of a word that is among the given ones. -/
def nameAmong (words : List String) (s : List Char) : Option Nat :=
  (wordLength s).filter fun n => words.any fun w => w.toList == s.take n

/-- The length of a private name. -/
def privateNameLength : List Char → Option Nat
  | '#' :: rest => (wordLength rest).map (· + 1)
  | _ => none

/-! ## Punctuation -/

/-- The length of a given mark. -/
def mark (m : String) (s : List Char) : Option Nat :=
  if m.toList.isPrefixOf s then some m.length else none

/-- The marks of the language that begin other marks, the longest first. -/
def operators : List String :=
  [">>>=", "...", "===", "!==", "**=", "<<=", ">>=", ">>>", "&&=", "||=", "??=",
   "=>", "==", "!=", "<=", ">=", "&&", "||", "??", "?.", "++", "--", "+=", "-=", "*=", "/=", "%=",
   "&=", "|=", "^=", "<<", ">>", "**",
   "=", "!", "<", ">", "&", "|", "?", "+", "-", "*", "/", "%", "^", "~", "."]

/-- The longest operator at the start of a text. An optional chain does not begin before a
digit, where the mark is a condition. -/
def operatorAt (s : List Char) : Option String :=
  match s with
  | '?' :: '.' :: c :: _ => if c.isDigit then some "?" else some "?."
  | _ => operators.find? fun o => o.toList.isPrefixOf s

/-- The length of a given operator, where no longer operator stands. -/
def operator (o : String) (s : List Char) : Option Nat :=
  if operatorAt s == some o then some o.length else none

/-- The length of any of the given operators. -/
def operatorAmong (os : List String) (s : List Char) : Option Nat :=
  (operatorAt s).bind fun o => if os.contains o then some o.length else none

/-! ## Numbers -/

/-- The length of a run of digits, with single low lines between them. -/
def digitsLength (digit : Char → Bool) : List Char → Nat
  | '_' :: d :: rest => if digit d then digitsLength digit rest + 2 else 0
  | d :: rest => if digit d then digitsLength digit rest + 1 else 0
  | [] => 0

/-- The length of a run of digits that begins with a digit. -/
def digitRun (digit : Char → Bool) (s : List Char) : Nat :=
  if (s.head?.any digit) then digitsLength digit s else 0

/-- The length of an exponent, or zero. -/
def exponentLength : List Char → Nat
  | e :: rest =>
    if e == 'e' || e == 'E' then
      let sign := match rest with | '+' :: _ => 1 | '-' :: _ => 1 | _ => 0
      let n := digitRun Char.isDigit (rest.drop sign)
      if n == 0 then 0 else 1 + sign + n
    else 0
  | [] => 0

/-- The length of digits in a base with a letter after the zero, or nothing. -/
def radixLength (letters : List Char) (digit : Char → Bool) : List Char → Option Nat
  | '0' :: x :: rest =>
    let n := digitRun digit rest
    if letters.contains x && n != 0 then
      some (2 + n + (if (rest.drop n).head? == some 'n' then 1 else 0))
    else none
  | _ => none

/-- The length of a decimal number. -/
def decimalLength (s : List Char) : Option Nat :=
  let whole := digitRun Char.isDigit s
  let rest := s.drop whole
  match rest with
  | '.' :: tail =>
    let fraction := digitRun Char.isDigit tail
    if whole == 0 && fraction == 0 then none
    else some (whole + 1 + fraction + exponentLength (tail.drop fraction))
  | 'n' :: _ => if whole == 0 then none else some (whole + 1)
  | _ => if whole == 0 then none else some (whole + exponentLength rest)

/-- The length of a number. -/
def numberLength (s : List Char) : Option Nat :=
  (radixLength ['x', 'X'] isHexDigit s).or <|
  (radixLength ['b', 'B'] (fun c => c == '0' || c == '1') s).or <|
  (radixLength ['o', 'O'] (fun c => '0' ≤ c && c ≤ '7') s).or <|
  decimalLength s

/-! ## Strings and templates -/

/-- The length of an escape in a string or template. -/
def escapeLength (s : List Char) : Option Nat :=
  match s with
  | '\\' :: '\r' :: '\n' :: _ => some 3
  | '\\' :: 'x' :: a :: b :: _ => if isHexDigit a && isHexDigit b then some 4 else none
  | '\\' :: 'x' :: _ => none
  | '\\' :: 'u' :: _ => unicodeEscapeLength s
  | '\\' :: c :: rest =>
    if '0' ≤ c && c ≤ '7' then
      some (2 + ((rest.take 2).takeWhile fun d => '0' ≤ d && d ≤ '7').length)
    else some 2
  | _ => none

/-- The length of a run of characters, which must not be empty. -/
def runOf (p : Char → Bool) (s : List Char) : Option Nat :=
  match (s.takeWhile p).length with
  | 0 => none
  | n => some n

/-- The length of a stretch of a string within the given quotes. -/
def stringFragmentLength (quote : Char) (s : List Char) : Option Nat :=
  runOf (fun c => c != quote && c != '\\' && c != '\r' && c != '\n') s

/-- The number of characters of a template before an escape, a substitution or the end. -/
def templateChars : List Char → Option Nat
  | [] => none
  | '\x60' :: _ => some 0
  | '\\' :: _ => some 0
  | '$' :: '\x7b' :: _ => some 0
  | _ :: rest => (templateChars rest).map (· + 1)

/-- The length of a stretch of a template, which must not be empty. -/
def templateFragmentLength (s : List Char) : Option Nat := (templateChars s).filter (· != 0)

/-! ## Regular expressions -/

/-- The length of the rest of a character class, up to and with its end. -/
def classRestLength : List Char → Option Nat
  | [] => none
  | ']' :: _ => some 1
  | '\\' :: c :: rest => if c == '\n' then none else (classRestLength rest).map (· + 2)
  | '\n' :: _ => none
  | _ :: rest => (classRestLength rest).map (· + 1)

/-- The length of a regular expression between its slashes, reading at most `fuel` pieces. -/
def regexPiecesLength (fuel : Nat) (s : List Char) : Option Nat :=
  match fuel, s with
  | 0, _ => none
  | _, [] => none
  | _, '/' :: _ => some 0
  | _, '\n' :: _ => none
  | fuel + 1, '[' :: rest =>
    match classRestLength rest with
    | none => none
    | some n => (regexPiecesLength fuel (rest.drop n)).map (· + n + 1)
  | fuel + 1, '\\' :: c :: rest =>
    if c == '\n' then none else (regexPiecesLength fuel rest).map (· + 2)
  | fuel + 1, c :: rest =>
    if c == '\\' then none else (regexPiecesLength fuel rest).map (· + 1)

/-- The length of a regular expression between its slashes, which must not be empty. -/
def regexPatternLength (s : List Char) : Option Nat :=
  (regexPiecesLength (s.length + 1) s).filter (· != 0)

/-! ## Markup -/

/-- The length of a name in markup, which may hold hyphens. -/
def markupNameLength (s : List Char) : Option Nat :=
  let n := (s.takeWhile fun c => c.isAlphanum || c == '_' || c == '$' || c == '-').length
  if (s.head?.any fun c => c.isAlpha || c == '_' || c == '$') && (s.take n).contains '-' then
    some n
  else wordLength s

/-- The length of a character reference in markup. -/
def characterReferenceLength : List Char → Option Nat
  | '&' :: '#' :: x :: rest =>
    if x == 'x' || x == 'X' then closing 3 (rest.takeWhile isHexDigit).length 6 rest
    else closing 2 ((x :: rest).takeWhile Char.isDigit).length 5 (x :: rest)
  | '&' :: rest => closing 1 (rest.takeWhile Char.isAlpha).length 30 rest
  | _ => none
where
  /-- The whole length, if there are up to `most` characters and a semicolon ends them. -/
  closing (before count most : Nat) (rest : List Char) : Option Nat :=
    if count != 0 && count ≤ most && (rest.drop count).head? == some ';' then
      some (before + count + 1)
    else none

/-- The length of a stretch of a quoted attribute value. -/
def attributeFragmentLength (quote : Char) : List Char → Nat
  | [] => 0
  | '&' :: c :: rest =>
    if c == '#' || c.isAlpha then 0
    else if c == quote then 0
    else attributeFragmentLength quote rest + 2
  | c :: rest => if c == quote || c == '&' then 0 else attributeFragmentLength quote rest + 1

/-- Whether the text between markup holds more than line breaks and the blanks after them. -/
def showsText (atNewline : Bool) : List Char → Bool
  | [] => false
  | '\n' :: rest => showsText true rest
  | c :: rest => if atNewline && isSpace c then showsText true rest else true

/-- The length of the text between markup. Line breaks and the blanks after them alone are no
text. -/
def markupTextLength (s : List Char) : Option Nat :=
  let run := s.takeWhile fun c =>
    c != '<' && c != '>' && c != '\x7b' && c != '\x7d' && c != '&'
  if showsText false run then some run.length else none

end ThemeOverride.Script
