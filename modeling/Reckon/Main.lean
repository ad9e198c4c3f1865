import Reckon.CommandLine

/-!
# The program

Reads what the arguments ask for, and prints the outcome, as `main` does. The random numbers are
uniformly distributed multiples of `2 ^ (-53)` in `[0, 1)`: a 64-bit counter goes on by a fixed odd
step, and of the mixed counter each number takes the upper 53 bits.
-/

open Reckon

/-- The contents of a file, if it can be read. -/
def contentsOf (path : String) : IO (Option ByteArray) :=
  try some <$> IO.FS.readBinFile path catch _ => pure none

/-- All of standard input. -/
def readInput : IO ByteArray := do
  (← IO.getStdin).readBinToEnd

/-- The bits of a counter mixed, so that every bit depends on all of them. -/
def mixBits (z : UInt64) : UInt64 :=
  let z := (z ^^^ (z >>> 30)) * 0xBF58476D1CE4E5B9
  let z := (z ^^^ (z >>> 27)) * 0x94D049BB133111EB
  z ^^^ (z >>> 31)

/-- The random numbers that a seed gives. -/
def randomNumber (seed : UInt64) (n : Nat) : Binary64 :=
  let counter := seed + (UInt64.ofNat n + 1) * 0x9E3779B97F4A7C15
  .roundRatio false ((mixBits counter).toNat / 2 ^ 11) (2 ^ 53)

/-- A source of random numbers that differs from run to run. -/
def randomSource : IO RandomSource := do
  let bytes ← IO.getRandomBytes 8
  return ⟨randomNumber (bytes.toList.foldl (fun n b => n * 256 + b.toUInt64) 0), 0⟩

def main (arguments : List String) : IO UInt32 := do
  let invocation := Invocation.ofArguments arguments
  let input ← match invocation with
    | .standardInput => readInput
    | _ => pure .empty
  let contents ← match invocation with
    | .files paths => paths.mapM fun path => return (path, ← contentsOf path)
    | _ => pure []
  let outcome := invocation.outcome input (fun path => (contents.lookup path).join) (← randomSource)
  for line in outcome.output do
    match line with
    | .value text => IO.println text
    | .error text => IO.eprintln text
  return outcome.status.toUInt32
