import FormalLang.Demo.Report

/-!
# Command line

Prints the report of the demonstration; the comparison and complaints go to
the error stream.  The sample is drawn from the standard generator.
-/

/-- The standard generator, from a seed. -/
def FormalLang.Random.Source.standard (seed : UInt64) : FormalLang.Random.Source where
  State := StdGen
  next generator :=
    let (n, generator) := randNat generator 0 (UInt64.size - 1)
    (n.toUInt64, generator)
  state := mkStdGen seed.toNat

/-- The entry point. -/
def main (arguments : List String) : IO UInt32 := do
  let seed ← IO.rand 0 (UInt64.size - 1)
  let response :=
    FormalLang.Demo.respond FormalLang.Random.Source.standard
      (FormalLang.Random.Source.standard seed.toUInt64) arguments
  IO.print response.output
  response.comparison.forM fun line => IO.eprintln line
  response.complaint.forM fun line => IO.eprintln line
  return response.exitCode.toUInt32
