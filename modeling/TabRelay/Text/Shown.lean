import TabRelay.Text.Hex
import TabRelay.Text.Unprintable

/-!
# Text as it is shown in diagnostics

A shown text stands between double quotes and holds no character that would not
be visible: such a character is written as its number in hexadecimal.
-/

namespace TabRelay.Text

def showChar (c : Char) : List Char :=
  if c = '\x00' then ['\\', '0']
  else if c = '\t' then ['\\', 't']
  else if c = '\r' then ['\\', 'r']
  else if c = '\n' then ['\\', 'n']
  else if c = '"' then ['\\', '"']
  else if c = '\\' then ['\\', '\\']
  else if isUnprintable c then '\\' :: 'u' :: '\x7b' :: hexChars c.toNat ++ ['\x7d']
  else [c]

def shown (s : String) : String :=
  String.ofList ('"' :: s.toList.flatMap showChar ++ ['"'])

def shownOption : Option String → String
  | none => "None"
  | some s => "Some(" ++ shown s ++ ")"

end TabRelay.Text
