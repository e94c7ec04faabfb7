import ChunkStore.Numeric.Rounding

/-!
# Sizes for readers

A number of bytes in the greatest binary unit that it reaches, with one decimal; a
value halfway between two decimals goes to the even one. Below one kibibyte the number
is exact.
-/

namespace ChunkStore.Text

def binaryUnits : List String := ["KiB", "MiB", "GiB", "TiB", "PiB", "EiB"]

def ofTenths (n : Nat) : String := (n / 10).repr ++ "." ++ (n % 10).repr

/-- A size in the first of `units` whose value is below the next unit, of which the
first is of `unit` bytes. -/
def sizeIn (size unit : Nat) : List String → String
  | [] => ""
  | name :: units =>
    if size < unit * 1024 ∨ units = [] then
      let value := (Numeric.Ratio.ofNat size).toDouble
      ofTenths (Numeric.roundDiv (10 * value.num) (value.den * unit)) ++ " " ++ name
    else sizeIn size (unit * 1024) units

def size (n : Nat) : String :=
  if n < 1024 then n.repr ++ " B" else sizeIn n 1024 binaryUnits

example : size 1023 = "1023 B" := by decide
example : size 1280 = "1.2 KiB" := by decide
example : size 1048575 = "1024.0 KiB" := by decide
example : size 1048576 = "1.0 MiB" := by decide

end ChunkStore.Text
