/-!
# Colors of a terminal

Texts between the sequences that turn a style of a terminal on and off.
-/

namespace ChunkStore.Text

inductive Style where
  | bold
  | red
  | green
  | yellow
  | cyan
  deriving Repr, DecidableEq

def Style.code : Style → Nat
  | bold => 1
  | red => 31
  | green => 32
  | yellow => 33
  | cyan => 36

structure Palette where
  colors : Bool
  deriving Repr, DecidableEq

/-- A text in some styles, as far as the terminal shows them. -/
def Palette.paint (p : Palette) (styles : List Style) (text : String) : String :=
  if p.colors then
    String.join (styles.map fun s => "\x1b[" ++ s.code.repr ++ "m") ++ text ++ "\x1b[0m"
  else text

end ChunkStore.Text
