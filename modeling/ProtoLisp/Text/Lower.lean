/-!
# Lower case

Lower-case forms for the comparison with words in ASCII, where of other characters only the number of
their bytes counts.  So outside ASCII a character is left as it is, unless its lower-case form takes
another number of bytes.
-/

namespace ProtoLisp.Text

/-- The characters outside ASCII whose lower-case form takes another number of bytes, with that form. -/
def resizedForms : List (Char × Char) :=
  [('\u0130', 'i'), ('\u023a', '\u2c65'), ('\u023e', '\u2c66'), ('\u1e9e', '\u00df'),
    ('\u2126', '\u03c9'), ('\u212a', 'k'), ('\u212b', '\u00e5'), ('\u2c62', '\u026b'),
    ('\u2c64', '\u027d'), ('\u2c6d', '\u0251'), ('\u2c6e', '\u0271'), ('\u2c6f', '\u0250'),
    ('\u2c70', '\u0252'), ('\u2c7e', '\u023f'), ('\u2c7f', '\u0240'), ('\ua78d', '\u0265'),
    ('\ua7aa', '\u0266'), ('\ua7ab', '\u025c'), ('\ua7ac', '\u0261'), ('\ua7ad', '\u026c'),
    ('\ua7ae', '\u026a'), ('\ua7b0', '\u029e'), ('\ua7b1', '\u0287'), ('\ua7b2', '\u029d'),
    ('\ua7c5', '\u0282')]

/-- The lower-case form of a character, for the comparison with a word in ASCII. -/
def lowerChar (c : Char) : Char := (resizedForms.lookup c).getD c.toLower

/-- The lower-case form of a text, for the comparison with a word in ASCII. -/
def lower (s : String) : String := String.ofList (s.toList.map lowerChar)

end ProtoLisp.Text
