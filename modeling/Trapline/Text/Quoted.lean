/-!
# Quoted characters and texts

A literal stands between two quotes. Inside it the quote and the backslash are written behind a
backslash, the common control characters by their letters, and other characters that leave no mark
of their own on a line by their code points. Which characters these are is known in part only
(`hiddenRanges`).
-/

namespace Trapline
namespace Text

/-- Ranges of characters that leave no mark of their own: controls, format characters, separators
other than the plain space, private use and unassigned specials, and marks that combine with the
character before them. Both ends are included. The table is partial: of the marks of single scripts
and of the unassigned code points it has some only, and a character that is missing here is written
as it is. -/
def hiddenRanges : List (Nat × Nat) :=
  [(0x0000, 0x001F), (0x007F, 0x00A0), (0x00AD, 0x00AD), (0x0300, 0x036F), (0x0483, 0x0489),
    (0x0591, 0x05BD), (0x0600, 0x0605), (0x061C, 0x061C), (0x06DD, 0x06DD), (0x070F, 0x070F),
    (0x0890, 0x0891), (0x08E2, 0x08E2), (0x1680, 0x1680), (0x180B, 0x180F), (0x1AB0, 0x1AFF),
    (0x1DC0, 0x1DFF), (0x2000, 0x200F), (0x2028, 0x202F), (0x205F, 0x206F), (0x20D0, 0x20FF),
    (0x3000, 0x3000), (0x302A, 0x302F), (0x3099, 0x309A), (0xD800, 0xF8FF), (0xFDD0, 0xFDEF),
    (0xFE00, 0xFE0F), (0xFE20, 0xFE2F), (0xFEFF, 0xFEFF), (0xFFF0, 0xFFFB), (0xFFFE, 0xFFFF),
    (0x110BD, 0x110BD), (0x110CD, 0x110CD), (0x13430, 0x1343F), (0x1BCA0, 0x1BCA3),
    (0x1D173, 0x1D17A), (0xE0000, 0x10FFFF)]

/-- A character is hidden when one of the ranges holds it. -/
def isHidden (c : Char) : Bool :=
  hiddenRanges.any fun range => range.1 ≤ c.toNat && c.toNat ≤ range.2

/-- A code point in hexadecimal digits between braces. -/
def escapeCode (c : Char) : List Char :=
  '\\' :: 'u' :: '\x7b' :: Nat.toDigits 16 c.toNat ++ ['\x7d']

/-- A character as it stands inside a literal between the given quotes. -/
def escape (quote c : Char) : List Char :=
  if c = quote || c = '\\' then ['\\', c]
  else if c = '\n' then ['\\', 'n']
  else if c = '\t' then ['\\', 't']
  else if c = '\r' then ['\\', 'r']
  else if c = '\x00' then ['\\', '0']
  else if isHidden c then escapeCode c
  else [c]

/-- The characters as a literal between the given quotes. -/
def quoteWith (quote : Char) (text : List Char) : List Char :=
  quote :: text.flatMap (escape quote) ++ [quote]

/-- A character literal. -/
def quoteChar (c : Char) : String :=
  String.ofList (quoteWith '\x27' [c])

/-- A text literal. -/
def quoteText (text : String) : String :=
  String.ofList (quoteWith '\x22' text.toList)

end Text
end Trapline
