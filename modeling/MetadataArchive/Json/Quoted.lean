import MetadataArchive.Json.Basic

/-!
# Quoted strings

How the text of a string is written between quotes and read back. Writing escapes the quote, the
backslash and the characters below U+0020 and nothing else; reading takes every escape of the
grammar, in which a character beyond U+FFFF may be spelled as the two halves of a surrogate pair.
-/

namespace MetadataArchive.Json.Quoted

/-! ## Writing -/

/-- The text that stands for a character between quotes. -/
def escape (c : Char) : List Char :=
  if c = '"' then ['\\', '"']
  else if c = '\\' then ['\\', '\\']
  else if c = '\x08' then ['\\', 'b']
  else if c = '\x0c' then ['\\', 'f']
  else if c = '\n' then ['\\', 'n']
  else if c = '\r' then ['\\', 'r']
  else if c = '\t' then ['\\', 't']
  else if c.toNat < 0x20 then
    ['\\', 'u', '0', '0', Nat.digitChar (c.toNat / 16), Nat.digitChar (c.toNat % 16)]
  else [c]

/-- Writes a string in quotes in front of `rest`. One without text is written as a lone half of a
surrogate pair. -/
def write (text : Option String) (rest : List Char) : List Char :=
  match text with
  | some s => '"' :: s.toList.foldr (fun c r => escape c ++ r) ('"' :: rest)
  | none => '"' :: '\\' :: 'u' :: 'd' :: '8' :: '0' :: '0' :: '"' :: rest

/-! ## Reading -/

/-- What one character or one escape between quotes stands for: a character, or one half of a
surrogate pair, given by its distance from the first half of its kind. -/
inductive Piece where
  | char (c : Char)
  | high (n : Nat)
  | low (n : Nat)

/-- The value of a hexadecimal digit of either case. -/
def hexValue? (c : Char) : Option Nat :=
  if '0' ≤ c ∧ c ≤ '9' then some (c.toNat - '0'.toNat)
  else if 'a' ≤ c ∧ c ≤ 'f' then some (c.toNat - 'a'.toNat + 10)
  else if 'A' ≤ c ∧ c ≤ 'F' then some (c.toNat - 'A'.toNat + 10)
  else none

/-- The code unit that four hexadecimal digits name. -/
def codeUnit? (a b c d : Char) : Option Nat := do
  let a ← hexValue? a
  let b ← hexValue? b
  let c ← hexValue? c
  let d ← hexValue? d
  return ((a * 16 + b) * 16 + c) * 16 + d

/-- What a code unit stands for. -/
def Piece.ofCodeUnit (n : Nat) : Piece :=
  if 0xD800 ≤ n ∧ n < 0xDC00 then .high (n - 0xD800)
  else if 0xDC00 ≤ n ∧ n < 0xE000 then .low (n - 0xDC00)
  else .char (Char.ofNat n)

/-- The character that a backslash and one more character stand for. -/
def shortEscape? (c : Char) : Option Char :=
  if c = '"' then some '"'
  else if c = '\\' then some '\\'
  else if c = '/' then some '/'
  else if c = 'b' then some '\x08'
  else if c = 'f' then some '\x0c'
  else if c = 'n' then some '\n'
  else if c = 'r' then some '\r'
  else if c = 't' then some '\t'
  else none

/-- Reads up to the closing quote. The pieces come last first, in front of those of `done`. -/
def scan (done : List Piece) : List Char → Option (List Piece × List Char)
  | [] => none
  | '"' :: rest => some (done, rest)
  | '\\' :: 'u' :: a :: b :: c :: d :: rest =>
    match codeUnit? a b c d with
    | some n => scan (.ofCodeUnit n :: done) rest
    | none => none
  | '\\' :: c :: rest =>
    match shortEscape? c with
    | some e => scan (.char e :: done) rest
    | none => none
  | c :: rest =>
    if c.toNat < 0x20 ∨ c = '\\' then none else scan (.char c :: done) rest

/-- Puts the pieces, last first, in front of a text; fails if a half stands alone. -/
def join : List Piece → List Char → Option (List Char)
  | [], text => some text
  | .char c :: ps, text => join ps (c :: text)
  | .low l :: .high h :: ps, text => join ps (Char.ofNat (0x10000 + h * 0x400 + l) :: text)
  | _, _ => none

/-- Reads what follows an opening quote, up to and with the closing one. -/
def read (cs : List Char) : Option (Option String × List Char) :=
  (scan [] cs).map fun (pieces, rest) => ((join pieces []).map String.ofList, rest)

end MetadataArchive.Json.Quoted
