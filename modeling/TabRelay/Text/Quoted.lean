import TabRelay.Text.Hex

/-!
# Quoted text in JSON

A quoted text stands between double quotes.  Quotes, backslashes and control
characters are escaped, every other character stands for itself.
-/

namespace TabRelay.Text

/-- Control characters without a short escape are written as `\u00xx`. -/
def escape (c : Char) : List Char :=
  if c = '"' then ['\\', '"']
  else if c = '\\' then ['\\', '\\']
  else if c = '\x08' then ['\\', 'b']
  else if c = '\x0c' then ['\\', 'f']
  else if c = '\n' then ['\\', 'n']
  else if c = '\r' then ['\\', 'r']
  else if c = '\t' then ['\\', 't']
  else if c.toNat < 32 then
    ['\\', 'u', '0', '0', hexDigit (c.toNat / 16), hexDigit (c.toNat % 16)]
  else [c]

def escaped (cs : List Char) : List Char := cs.flatMap escape

def quoted (s : String) : List Char := '"' :: escaped s.toList ++ ['"']

@[simp] theorem escaped_nil : escaped [] = [] := rfl

@[simp] theorem escaped_cons (c : Char) (cs : List Char) :
    escaped (c :: cs) = escape c ++ escaped cs := rfl

end TabRelay.Text
