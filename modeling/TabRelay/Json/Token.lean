import TabRelay.Decimal.Significand
import TabRelay.Json.Document

/-!
# Words, numbers and texts

The parts of a JSON text without brackets.  Each reader gives the document that
it found and what follows it; nothing follows where reading has to stop.
-/

namespace TabRelay.Json

open TabRelay.Decimal TabRelay.Text

namespace Document

/-! ## Blanks, words and numbers -/

def isBlank (c : Char) : Bool := c == ' ' || c == '\n' || c == '\t' || c == '\r'

def skipBlanks (cs : List Char) : List Char := cs.dropWhile isBlank

def word (begun : Begun) (result : Document) :
    List Char → List Char → Document × Option (List Char)
  | [], cs => (result, some cs)
  | _ :: _, [] => (.broken begun .ended (some .ended), none)
  | w :: ws, c :: cs =>
      if w = c then word begun result ws cs
      else (.broken begun .malformed (some .malformed), none)

def takeDigits (cs : List Char) : List Char × List Char :=
  (cs.takeWhile Char.isDigit, cs.dropWhile Char.isDigit)

/-- A number without its value: one that ends too early is only malformed to a
reader that passes over it. -/
def brokenNumber (cs : List Char) : Document × Option (List Char) :=
  (.broken .plain (if cs.isEmpty then .ended else .malformed) (some .malformed), none)

def floatDocument (negative : Bool) (whole fraction : List Char) (exponent : Int) : Document :=
  match (Significand.ofDigits whole fraction exponent).toBinary64 negative with
  | .finite n m e => .number (.float (.finite n m e))
  | _ => .broken .plain .malformed none

def integerDocument (negative : Bool) (whole : List Char) : Document :=
  let n : Int := digitsValue whole
  let value := if negative then -n else n
  if isWord value ∧ (value ≠ 0 ∨ !negative) then .number (.int value)
  else floatDocument negative whole [] 0

def exponentPart (negative : Bool) (whole fraction : List Char) :
    List Char → Document × Option (List Char)
  | sign :: cs =>
      let (down, cs) :=
        if sign = '-' then (true, cs) else if sign = '+' then (false, cs) else (false, sign :: cs)
      let (ds, rest) := takeDigits cs
      if ds.isEmpty then brokenNumber rest
      else
        let n : Int := digitsValue ds
        (floatDocument negative whole fraction (if down then -n else n), some rest)
  | [] => brokenNumber []

def fractionPart (negative : Bool) (whole : List Char) (cs : List Char) :
    Document × Option (List Char) :=
  let (ds, rest) := takeDigits cs
  if ds.isEmpty then brokenNumber rest
  else
    match rest with
    | 'e' :: rest | 'E' :: rest => exponentPart negative whole ds rest
    | rest => (floatDocument negative whole ds 0, some rest)

def readNumber (negative : Bool) (cs : List Char) : Document × Option (List Char) :=
  let (ds, rest) := takeDigits cs
  match ds with
  | [] => brokenNumber rest
  | '0' :: _ :: _ => (.broken .plain .malformed (some .malformed), none)
  | ds =>
      match rest with
      | '.' :: rest => fractionPart negative ds rest
      | 'e' :: rest | 'E' :: rest => exponentPart negative ds [] rest
      | rest => (integerDocument negative ds, some rest)

/-! ## Texts -/

/-- A text that was read: its value, or why it has none, and what follows it, or
the fault that stops even a reader that passes over it. -/
structure Spelled where
  value : Except Fault (List Char)
  rest : Except Fault (List Char)

namespace Spelled

def stop (fault : Fault) : Spelled := ⟨.error fault, .error fault⟩

def cons (c : Char) (s : Spelled) : Spelled := ⟨s.value.map (c :: ·), s.rest⟩

def spoil (s : Spelled) : Spelled := ⟨.error .malformed, s.rest⟩

end Spelled

/-- Four hexadecimal digits.  The text has ended when fewer than four bytes are
left of it. -/
def fourHex (cs : List Char) : Except Fault (Nat × List Char) :=
  if (cs.take 4).foldr (fun c bytes => c.utf8Size + bytes) 0 < 4 then .error .ended
  else
    match cs with
    | a :: b :: c :: d :: rest =>
        match hexNumber? [a, b, c, d] with
        | some n => .ok (n, rest)
        | none => .error .malformed
    | _ => .error .malformed

def shortEscape? (c : Char) : Option Char :=
  if c = '"' ∨ c = '\\' ∨ c = '/' then some c
  else if c = 'b' then some '\x08'
  else if c = 'f' then some '\x0c'
  else if c = 'n' then some '\n'
  else if c = 'r' then some '\r'
  else if c = 't' then some '\t'
  else none

def isHighSurrogate (n : Nat) : Bool := 0xD800 ≤ n && n ≤ 0xDBFF

def isLowSurrogate (n : Nat) : Bool := 0xDC00 ≤ n && n ≤ 0xDFFF

def joinSurrogates (high low : Nat) : Char :=
  Char.ofNat (0x10000 + (high - 0xD800) * 0x400 + (low - 0xDC00))

def spell : Nat → List Char → Spelled
  | 0, _ => .stop .ended
  | _ + 1, [] => .stop .ended
  | _ + 1, '"' :: rest => ⟨.ok [], .ok rest⟩
  | _ + 1, ['\\'] => .stop .ended
  | fuel + 1, '\\' :: 'u' :: cs =>
      match fourHex cs with
      | .error fault => .stop fault
      | .ok (n, rest) =>
          if isLowSurrogate n then (spell fuel rest).spoil
          else if isHighSurrogate n then
            match rest with
            | [] => .stop .ended
            | ['\\'] => .stop .ended
            | '\\' :: 'u' :: cs =>
                match fourHex cs with
                | .error fault => .stop fault
                | .ok (m, rest) =>
                    if isLowSurrogate m then (spell fuel rest).cons (joinSurrogates n m)
                    else (spell fuel ('\\' :: 'u' :: cs)).spoil
            | rest => (spell fuel rest).spoil
          else (spell fuel rest).cons (Char.ofNat n)
  | fuel + 1, '\\' :: c :: rest =>
      match shortEscape? c with
      | some c => (spell fuel rest).cons c
      | none => .stop .malformed
  | fuel + 1, c :: rest =>
      if c.toNat < 32 then .stop .malformed else (spell fuel rest).cons c

def spelled (cs : List Char) : Spelled := spell (cs.length + 1) cs

def ofSpelled (s : Spelled) : Document × Option (List Char) :=
  match s.value, s.rest with
  | .ok cs, .ok rest => (.string (String.ofList cs), some rest)
  | .error fault, .ok rest => (.broken .nothing fault none, some rest)
  | .ok _, .error fault => (.broken .nothing fault (some fault), none)
  | .error fault, .error skipped => (.broken .nothing fault (some skipped), none)

end Document

end TabRelay.Json
