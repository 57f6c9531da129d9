import FileQuery.CommandLine

namespace FileQuery.Main

/-- All of the standard input, unless it is a terminal. -/
def readStdin : IO (Option ByteArray) := do
  let stdin ← IO.getStdin
  if ← stdin.isTty then return none
  let mut bytes := ByteArray.empty
  let mut chunk ← stdin.read 65536
  while !chunk.isEmpty do
    bytes := bytes ++ chunk
    chunk ← stdin.read 65536
  return some bytes

end FileQuery.Main

/-- Hand arguments, variables and input to the command line, and print what comes back. -/
def main (args : List String) : IO UInt32 := do
  let level ← IO.getEnv FileQuery.LogLevel.variableName
  let limit ← IO.getEnv FileQuery.NestingLimit.variableName
  let lookup := fun name =>
    if name == FileQuery.LogLevel.variableName then level
    else if name == FileQuery.NestingLimit.variableName then limit
    else none
  let input ←
    if FileQuery.CommandLine.needsInput args then FileQuery.Main.readStdin else pure none
  let output := FileQuery.CommandLine.run args lookup input
  IO.print (FileQuery.CommandLine.joinLines output.stdout)
  IO.eprint (FileQuery.CommandLine.joinLines output.stderr)
  return output.code.toUInt32
