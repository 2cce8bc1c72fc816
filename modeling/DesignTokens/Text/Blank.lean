/-!
# Blank characters

White space in the sense of Unicode (25 code points), trimming at both ends of a text, and blank
texts, which hold nothing else.
-/

namespace DesignTokens
namespace Text

def isBlank (c : Char) : Bool :=
  let n := c.toNat
  (Nat.ble 0x09 n && Nat.ble n 0x0D) || n == 0x20 || n == 0x85 || n == 0xA0 || n == 0x1680 ||
    (Nat.ble 0x2000 n && Nat.ble n 0x200A) || n == 0x2028 || n == 0x2029 || n == 0x202F ||
    n == 0x205F || n == 0x3000

/-- The text without the white space at its start. -/
def trimStart (s : List Char) : List Char :=
  s.dropWhile isBlank

/-- The text without the white space at its end. -/
def trimEnd (s : List Char) : List Char :=
  (s.reverse.dropWhile isBlank).reverse

/-- The text without the white space at either end. -/
def trim (s : List Char) : List Char :=
  trimEnd (trimStart s)

/-- A text of white space only, the empty text included. -/
def isBlankText (s : String) : Bool :=
  s.toList.all isBlank

@[simp] theorem isBlankText_empty : isBlankText "" = true := rfl

end Text
end DesignTokens
