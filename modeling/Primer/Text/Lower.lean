/-!
# Lower case, for comparison with ASCII names

Names are compared without regard to case. The names themselves are ASCII, so a character matters only
if its lower case is an ASCII letter: the ASCII capitals, the capital I with a dot and the Kelvin sign.
Every other character can be left alone, since no name contains its lower case.
-/

set_option autoImplicit false

namespace Primer.Text

/-- Lower-cases a character whose lower case is an ASCII letter and keeps the others. -/
def lowerChar (c : Char) : Char :=
  if 'A' ≤ c && c ≤ 'Z' then Char.ofNat (c.toNat + 32)
  else if c.toNat = 0x130 then 'i'
  else if c.toNat = 0x212a then 'k'
  else c

/-- Lower-cases a text as far as a comparison with an ASCII name can tell. -/
def lowerName (s : String) : String := s.map lowerChar

end Primer.Text
