import Formula.CommandLine

/-!
# The program

Reads the input if it is needed, runs the command line on it and writes what comes out.
-/

partial def readAll (stream : IO.FS.Stream) (soFar : ByteArray) : IO ByteArray := do
  let bytes ← stream.read 65536
  if bytes.isEmpty then return soFar
  readAll stream (soFar ++ bytes)

def main (args : List String) : IO UInt32 := do
  let invocation := Formula.CommandLine.parse args
  let input ←
    if invocation.readsInput then readAll (← IO.getStdin) ByteArray.empty else pure ByteArray.empty
  let outcome := invocation.run input.toList
  for line in outcome.log do
    IO.eprintln line
  IO.eprint outcome.stderr
  IO.print outcome.stdout
  return UInt32.ofNat outcome.exitCode
