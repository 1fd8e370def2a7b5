import LoxSyntax.Command.Arguments
set_option autoImplicit false

/-! # What the command says about itself

How the command is called, in short and at length. The texts are laid out for a screen of eighty
columns. -/

namespace LoxSyntax

/-- The name that the command goes by. -/
def commandName : String := "loxfront"

/-- How the command is called. -/
def usageText : String :=
  "usage: loxfront [-h] [-o OUTPUT] [--tokens] [--format FORMAT] [--show-eof]\n" ++
  "                [--config FILE] [--debug]\n" ++
  "                input\n"

/-- How the command is called and what its arguments mean. -/
def helpText : String :=
  usageText ++
  "\n" ++
  "Scan and parse Lox expressions\n" ++
  "\n" ++
  "positional arguments:\n" ++
  "  input                 Input .lox file\n" ++
  "\n" ++
  "options:\n" ++
  "  -h, --help            show this help message and exit\n" ++
  "  -o OUTPUT, --output OUTPUT\n" ++
  "                        Output file (default: stdout)\n" ++
  "  --tokens              Print tokens instead of the AST\n" ++
  "  --format FORMAT       AST output format: sexpr or tree (default: sexpr)\n" ++
  "  --show-eof            Include the EOF token in --tokens output\n" ++
  "  --config FILE         Config file (default: auto-discover loxfront.toml)\n" ++
  "  --debug               Dump AST tree to stderr\n"

/-- What is said when arguments are refused. -/
def refusalText (fault : ArgumentFault) : String :=
  s!"{usageText}{commandName}: error: {fault.message}\n"

end LoxSyntax
