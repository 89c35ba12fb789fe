/-!
# Terminal output

What is written to a terminal is a sequence of pieces: text, and commands to the screen. Colours
are asked for by name; whether they are written is decided once, for a whole output, so the same
text can be produced with and without them.
-/

namespace OfferBook

/-- A style in which text can be written. -/
inductive Ink where
  | green | cyan | brightGreen | brightBlue | brightCyan | boldPurple
  deriving DecidableEq

namespace Ink

/-- The parameters of the escape sequence that switches the style on. -/
def code : Ink → String
  | green => "32"
  | cyan => "36"
  | brightGreen => "92"
  | brightBlue => "94"
  | brightCyan => "96"
  | boldPurple => "1;35"

/-- The escape sequence that switches the style on. -/
def start (ink : Ink) : String := "\x1b[" ++ ink.code ++ "m"

/-- The text in a style, everything being switched off behind it. -/
def paint (colored : Bool) (ink : Ink) (text : String) : String :=
  if colored then ink.start ++ text ++ "\x1b[0m" else text

/-- The text in a colour, only the colour being switched off behind it. -/
def paintOnly (colored : Bool) (ink : Ink) (text : String) : String :=
  if colored then ink.start ++ text ++ "\x1b[39m" else text

end Ink

/-- A command to the screen. -/
inductive ScreenCommand where
  | enterAlternate | leaveAlternate | clear | home
  deriving DecidableEq

/-- The escape sequence of a command. -/
def ScreenCommand.text : ScreenCommand → String
  | enterAlternate => "\x1b[?1049h"
  | leaveAlternate => "\x1b[?1049l"
  | clear => "\x1b[2J"
  | home => "\x1b[1;1H"

/-- A piece of output. -/
inductive Piece where
  | text (text : String)
  | screen (command : ScreenCommand)
  deriving DecidableEq

namespace Piece

/-- The characters a piece writes. -/
def written : Piece → String
  | text t => t
  | screen c => c.text

/-- A line of text. -/
def line (t : String) : Piece := text (t ++ "\n")

/-- The characters a sequence of pieces writes. -/
def writtenAll (pieces : List Piece) : String := String.join (pieces.map written)

end Piece

/-- The text in the middle of `width` characters, the rest being filled; of an odd rest the larger
part stands behind. A longer text stays as it is. -/
def centred (fill : Char) (width : Nat) (text : String) : String :=
  let rest := width - text.length
  String.ofList (List.replicate (rest / 2) fill) ++ text ++
    String.ofList (List.replicate (rest - rest / 2) fill)

end OfferBook
