import EventIndex.Settings

/-! # Main — the command line

`config` prints a settings file that holds the defaults and says what they mean. Everything else the
library does is for programs that index traces.
-/

open EventIndex

/-- Prints the default settings when asked for `config`, and says how to ask otherwise. -/
def main (args : List String) : IO UInt32 := do
  if args = ["config"] then
    IO.print Settings.defaultFile
    return 0
  IO.eprintln "usage: config"
  return 2
