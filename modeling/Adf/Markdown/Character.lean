import Adf.Text.Blank

/-!
# Classes of characters

Whether a character is a blank, punctuation or neither decides where emphasis may begin and end.
-/

namespace Adf.Markdown

/-- The punctuation of ASCII; each of these may stand behind a backslash. -/
def isAsciiPunctuation (c : Char) : Bool :=
  let n := c.toNat
  (0x21 ≤ n && n ≤ 0x2f) || (0x3a ≤ n && n ≤ 0x40) || (0x5b ≤ n && n ≤ 0x60) || (0x7b ≤ n && n ≤ 0x7e)

/-- The commoner ranges of punctuation and symbols beyond ASCII. -/
def punctuation : List (Nat × Nat) :=
  [(0xa1, 0xa9), (0xab, 0xac), (0xae, 0xb1), (0xb4, 0xb4), (0xb6, 0xb8), (0xbb, 0xbb), (0xbf, 0xbf),
    (0xd7, 0xd7), (0xf7, 0xf7), (0x2c2, 0x2c5), (0x2d2, 0x2df), (0x37e, 0x37e), (0x387, 0x387),
    (0x55a, 0x55f), (0x589, 0x58a), (0x58d, 0x58f), (0x5be, 0x5be), (0x5c0, 0x5c0), (0x5c3, 0x5c3),
    (0x5f3, 0x5f4), (0x606, 0x60f), (0x61b, 0x61b), (0x61e, 0x61f), (0x66a, 0x66d), (0x6d4, 0x6d4),
    (0x964, 0x965), (0xe3f, 0xe3f), (0xe4f, 0xe4f), (0xe5a, 0xe5b), (0x2010, 0x2027), (0x2030, 0x205e),
    (0x207a, 0x207e), (0x208a, 0x208e), (0x20a0, 0x20c0), (0x2100, 0x2101), (0x2103, 0x2106),
    (0x2108, 0x2109), (0x2114, 0x2114), (0x2116, 0x2118), (0x211e, 0x2123), (0x2190, 0x2426),
    (0x249c, 0x24e9), (0x2500, 0x2775), (0x2794, 0x2bff), (0x2e00, 0x2e2e), (0x2e30, 0x2e52),
    (0x3001, 0x3004), (0x3008, 0x3020), (0x3030, 0x3030), (0x303d, 0x303f), (0x309b, 0x309c),
    (0x30a0, 0x30a0), (0x30fb, 0x30fb), (0xfe10, 0xfe19), (0xfe30, 0xfe52), (0xfe54, 0xfe66),
    (0xff01, 0xff0f), (0xff1a, 0xff20), (0xff3b, 0xff40), (0xff5b, 0xff65), (0xffe0, 0xffe6),
    (0x1f000, 0x1faff)]

def isPunctuation (c : Char) : Bool :=
  isAsciiPunctuation c || punctuation.any fun (first, last) => first ≤ c.toNat && c.toNat ≤ last

/-- A blank or a tab. -/
def isSpace (c : Char) : Bool := c = ' ' || c = '\t'

/-- A blank of ASCII. -/
def isAsciiBlank (c : Char) : Bool :=
  c = ' ' || (0x09 ≤ c.toNat && c.toNat ≤ 0x0d)

def trimLeft (s : List Char) : List Char := s.dropWhile isAsciiBlank

def trimRight (s : List Char) : List Char := (s.reverse.dropWhile isAsciiBlank).reverse

def trim (s : List Char) : List Char := trimRight (trimLeft s)

end Adf.Markdown
