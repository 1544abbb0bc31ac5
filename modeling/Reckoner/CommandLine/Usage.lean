/-
# How the program is used

What is shown on request and behind the message about a word that is not
understood.
-/
import Reckoner.CommandLine.Options

namespace Reckoner

namespace CommandLine

def usage : String :=
  "Usage: decimath [options] [expression ...]\n" ++
  "\n" ++
  "Options:\n" ++
  "  --precision N     significant digits used for evaluation (default 64)\n" ++
  "  --style NAME      operator precedence preset: standard | spreadsheet\n" ++
  "  --digits N        significant digits shown in results\n" ++
  "  --trace           log every operator, function and constant application\n" ++
  "  -h, --help        show this message\n" ++
  "\n" ++
  "Without an expression, lines are read from stdin.\n" ++
  "Commands: \":precision N\" changes the precision, \":quit\" exits.\n"

/-- What is said about words that are not understood. -/
def UsageFault.report (fault : UsageFault) : String :=
  "decimath: " ++ fault.message ++ "\n\n" ++ usage

end CommandLine

end Reckoner
