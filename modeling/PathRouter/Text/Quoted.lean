import PathRouter.Text.Extending
import PathRouter.Text.Ignorable
import PathRouter.Text.Unprintable

/-!
Quoted text, for messages: in double quotes, with everything that would not show up on its own
written as an escape.
-/

namespace PathRouter.Text

/-- A character by its code point, in lower-case hexadecimal without padding. -/
def codePointEscape (c : Char) : List Char :=
  '\\' :: 'u' :: '\x7b' :: (Nat.toDigits 16 c.toNat ++ ['\x7d'])

/-- The sound marks of halfwidth katakana. They extend the character before them, yet each has a
width of its own and is seen wherever it stands. -/
def isHalfwidthSoundMark (c : Char) : Bool := c == '\uff9e' || c == '\uff9f'

/-- Whether a character would not show up on its own: it joins the one before it, may show nothing,
or can not be shown. -/
def needsEscape (c : Char) : Bool :=
  (isExtending c && !isHalfwidthSoundMark c) || isIgnorable c || isUnprintable c

def escaped (c : Char) : List Char :=
  if c = '"' then ['\\', '"']
  else if c = '\\' then ['\\', '\\']
  else if c = '\n' then ['\\', 'n']
  else if c = '\r' then ['\\', 'r']
  else if c = '\t' then ['\\', 't']
  else if c = '\x00' then ['\\', '0']
  else if needsEscape c then codePointEscape c
  else [c]

def quoted (text : List Char) : String :=
  String.ofList ('"' :: (text.flatMap escaped ++ ['"']))

example : quoted "a\"\\é\n\x7f".toList = "\"a\\\"\\\\é\\n\\u\x7b7f\x7d\"" := by
  decide +kernel

example : quoted ['\uff71', '\uff9e', '\u3164'] = "\"\uff71\uff9e\\u\x7b3164\x7d\"" := by
  decide +kernel

end PathRouter.Text
