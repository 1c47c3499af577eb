/-!
# Bytes and lines of texts

Files hold bytes. A text is stored in UTF-8; bytes that are no text are told apart from text, and
can be shown as replacement characters. Line breaks are read as line feeds, whichever way they
are stored.

## Main definitions

* `ThemeOverride.Text.encode`: the bytes of a text.
* `ThemeOverride.Text.decode`: the characters of bytes, with a gap for each stretch that is none.
* `ThemeOverride.Text.decode?`, `decodeShown`: the text of bytes, if they are text, and at any rate.
* `ThemeOverride.Text.unifyLines`: a text with line feeds for all line breaks.
-/

namespace ThemeOverride.Text

/-- The bytes of a text. -/
def encode (s : String) : List UInt8 := s.toList.flatMap String.utf8EncodeChar

/-- A character that is begun: its number so far, the count of bytes that it still needs, and the
bounds of the next of them. -/
structure Begun where
  value : Nat
  more : Nat
  low : Nat := 0x80
  high : Nat := 0xBF
  deriving DecidableEq, Repr

/-- What the first byte of a character makes: a whole character, nothing, or one that is begun. -/
def beginCharacter (b : UInt8) : Option Char ⊕ Begun :=
  let n := b.toNat
  if n < 0x80 then .inl (some (Char.ofNat n))
  else if n < 0xC2 then .inl none
  else if n < 0xE0 then .inr ⟨n % 0x20, 1, 0x80, 0xBF⟩
  else if n < 0xF0 then
    .inr ⟨n % 0x10, 2, if n == 0xE0 then 0xA0 else 0x80, if n == 0xED then 0x9F else 0xBF⟩
  else if n < 0xF5 then
    .inr ⟨n % 0x08, 3, if n == 0xF0 then 0x90 else 0x80, if n == 0xF4 then 0x8F else 0xBF⟩
  else .inl none

/-- What a byte makes of a character that is begun; nothing where it does not continue it. -/
def Begun.continue? (g : Begun) (b : UInt8) : Option (Char ⊕ Begun) :=
  if b.toNat < g.low || g.high < b.toNat then none
  else
    let value := g.value * 0x40 + b.toNat % 0x40
    if g.more ≤ 1 then some (.inl (Char.ofNat value))
    else some (.inr ⟨value, g.more - 1, 0x80, 0xBF⟩)

/-- The characters of bytes, perhaps with a character begun before them, with a gap for each
longest stretch that begins a character and does not complete it. -/
def decodeFrom (begun : Option Begun) : List UInt8 → List (Option Char)
  | [] => if begun.isSome then [none] else []
  | b :: rest =>
    match begun.bind (·.continue? b) with
    | some (.inl c) => some c :: decodeFrom none rest
    | some (.inr g) => decodeFrom (some g) rest
    | none =>
      (if begun.isSome then [none] else []) ++
        match beginCharacter b with
        | .inl c => c :: decodeFrom none rest
        | .inr g => decodeFrom (some g) rest

/-- The characters of bytes, with a gap for each stretch that is no character. -/
def decode (bytes : List UInt8) : List (Option Char) := decodeFrom none bytes

/-- The text of bytes, if they are text. -/
def decode? (bytes : List UInt8) : Option String :=
  let characters := decode bytes
  if characters.all Option.isSome then some (String.ofList (characters.filterMap id)) else none

/-- The text of bytes, with a replacement character for each stretch that is none. -/
def decodeShown (bytes : List UInt8) : String :=
  String.ofList ((decode bytes).map fun c => c.getD '\uFFFD')

/-- A text with line feeds for all line breaks. -/
def unifyLines : List Char → List Char
  | [] => []
  | '\r' :: '\n' :: rest => '\n' :: unifyLines rest
  | c :: rest => (if c == '\r' then '\n' else c) :: unifyLines rest

end ThemeOverride.Text
