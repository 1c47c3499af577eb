import ThemeOverride.Text.Character
import ThemeOverride.Text.Split

/-!
# Markup in printed texts

A printed text may hold tags in square brackets that style what follows them. A tag begins with a
lower-case letter or one of `#`, `/` and `@`; it is shown as text where an odd number of
backslashes stands before it. A closing tag must match a tag that is open. Characters that would
move the cursor are not shown.

## Main definitions

* `ThemeOverride.Console.MarkupFault`: a closing tag without its opening one.
* `ThemeOverride.Console.plainText`: what is shown of a text with markup.
-/

namespace ThemeOverride.Console

/-- A closing tag that closes nothing. -/
inductive MarkupFault where
  | unmatchedClosing
  deriving DecidableEq, Repr

/-- Whether a character may begin a tag. -/
def beginsTag (c : Char) : Bool :=
  ('a' ≤ c && c ≤ 'z') || c == '#' || c == '/' || c == '@'

/-- The inside of a tag and the text behind it, where a tag begins after an opening bracket. -/
def tagAt? (s : List Char) : Option (List Char × List Char) :=
  match s with
  | [] => none
  | c :: _ =>
    if !beginsTag c then none
    else
      let inside := s.takeWhile fun d => d != ']' && d != '['
      match s.drop inside.length with
      | ']' :: rest => some (inside, rest)
      | _ => none

/-- A piece of a text with markup: characters that are shown, or a tag. -/
inductive Piece where
  | shown (s : List Char)
  | tag (inside : List Char)
  deriving DecidableEq, Repr

/-- The pieces of a text with markup, reading at most `fuel` of them. -/
def markupPieces (fuel : Nat) (s : List Char) : List Piece :=
  match fuel with
  | 0 => []
  | fuel + 1 =>
    match s with
    | [] => []
    | c :: rest =>
      let slashes := s.takeWhile (· == '\\')
      match s.drop slashes.length with
      | '[' :: behind =>
        match tagAt? behind with
        | some (inside, after) =>
          let shown := .shown (List.replicate (slashes.length / 2) '\\')
          if slashes.length % 2 == 1 then
            shown :: .shown ('[' :: inside ++ [']']) :: markupPieces fuel after
          else shown :: .tag inside :: markupPieces fuel after
        | none => .shown (slashes.dropLast ++ ['[']) :: markupPieces fuel behind
      | _ =>
        if slashes.isEmpty then .shown [c] :: markupPieces fuel rest
        else .shown slashes :: markupPieces fuel (s.drop slashes.length)

/-- The name of a tag: what stands before its parameters, whatever its case. -/
def tagName (inside : List Char) : List Char :=
  (Text.strip (inside.takeWhile (· != '='))).flatMap Text.lower

/-- Whether a character is shown: not the bell, and none that moves the cursor. -/
def isShown (c : Char) : Bool := !([7, 8, 11, 12, 13].contains c.toNat)

/-- What is shown of pieces, with the names of the tags that are open, the last first. -/
def showPieces (opened : List (List Char)) : List Piece → Except MarkupFault (List Char)
  | [] => .ok []
  | .shown s :: rest => (showPieces opened rest).map (s.filter isShown ++ ·)
  | .tag ('/' :: inside) :: rest =>
    let name := tagName inside
    if name.isEmpty then
      match opened with
      | [] => .error .unmatchedClosing
      | _ :: below => showPieces below rest
    else if opened.contains name then showPieces (opened.erase name) rest
    else .error .unmatchedClosing
  | .tag inside :: rest => showPieces (tagName inside :: opened) rest

/-- What is shown of a text with markup. -/
def plainText (s : String) : Except MarkupFault String :=
  (showPieces [] (markupPieces (s.length + 1) s.toList)).map String.ofList

end ThemeOverride.Console
