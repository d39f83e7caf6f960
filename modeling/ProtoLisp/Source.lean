/-!
# Source texts

A source is a named sequence of bytes, read as UTF-8.  Its characters are those of the longest
well-formed part at its start; the byte after that part, if any, is stray, and nothing behind it can
be reached.  A source may also remember that reading its bytes ended in a failure.
-/

namespace ProtoLisp

/-- A text with a name, as far as it is well-formed. -/
structure Source where
  file : String
  chars : List Char
  /-- the byte at which no character starts -/
  stray : Option UInt8
  /-- why the bytes could not be read to their end -/
  readError : Option String
  deriving DecidableEq, Repr

namespace Source

/-- The characters of `bytes` from offset `i` on, and the stray byte that ends them. -/
def decodeFrom (bytes : ByteArray) (i : Nat) : List Char × Option UInt8 :=
  if h : i < bytes.size then
    match bytes.utf8DecodeChar? i with
    | some c =>
      let (cs, stray) := decodeFrom bytes (i + c.utf8Size)
      (c :: cs, stray)
    | none => ([], some bytes[i])
  else ([], none)
termination_by bytes.size - i
decreasing_by
  have := c.utf8Size_pos
  omega

/-- The source that holds `bytes`. -/
def ofBytes (file : String) (bytes : ByteArray) : Source :=
  let (chars, stray) := decodeFrom bytes 0
  ⟨file, chars, stray, none⟩

/-- The source that holds a text. -/
def ofString (file text : String) : Source :=
  ⟨file, text.toList, none, none⟩

/-- The same source, but reading it ended with the failure `text`. -/
def failingWith (source : Source) (text : String) : Source :=
  { source with readError := some text }

end Source

end ProtoLisp
