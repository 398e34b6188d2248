import ShellGrammar.Cursor
import ShellGrammar.CommandLine.Option
import ShellGrammar.Tree.Outline

/-!
The program's own page and those of its actions: their options, usage lines and help.
-/
namespace ShellGrammar.CommandLine

inductive Page
  | program
  | parse
  | tokens
  | console
  deriving DecidableEq, Repr

namespace Page

def actions : List Page := [parse, tokens, console]

/-- The names an action is called by. -/
def names : Page → List String
  | program => []
  | parse => ["parse", "p"]
  | tokens => ["tokens", "t"]
  | console => ["console", "c"]

def ofName? (name : String) : Option Page := actions.find? (·.names.contains name)

def title : Page → String
  | program => "cmdtree"
  | parse => "cmdtree parse"
  | tokens => "cmdtree tokens"
  | console => "cmdtree console"

def help : Opt := ⟨.help, ["-h", "--help"], false⟩

def format : Opt := ⟨.format, ["-f", "--format"], true⟩

def options : Page → List Opt
  | program =>
    [help, ⟨.version, ["-V", "--version"], false⟩, ⟨.maxDepth, ["--max-depth"], true⟩,
      ⟨.logFile, ["--log-file"], true⟩]
  | parse | console => [help, format]
  | tokens => [help]

/-- Whether the action takes the words of a command line as operands. -/
def takesWords : Page → Bool
  | parse | tokens => true
  | program | console => false

def usage : Page → String
  | program => "usage: cmdtree [-h] [-V] [--max-depth N] [--log-file PATH] <action> ..."
  | parse => "usage: cmdtree parse [-h] [-f \x7btree,json,text\x7d] command [command ...]"
  | tokens => "usage: cmdtree tokens [-h] command [command ...]"
  | console => "usage: cmdtree console [-h] [-f \x7btree,json,text\x7d]"

def formatHelp : List String :=
  ["options:",
    "  -h, --help            show this help message and exit",
    "  -f \x7btree,json,text\x7d, --format \x7btree,json,text\x7d",
    "                        Output format (default: tree)"]

def details : Page → List String
  | program =>
    ["Parses shell command lines into syntax trees",
      "",
      "options:",
      "  -h, --help       show this help message and exit",
      "  -V, --version    Print cmdtree version number and exit",
      "",
      "Actions:",
      "  <action>",
      "    parse (p)      Parse a command line and print its syntax tree",
      "    tokens (t)     Print tokens of a command line",
      "    console (c)    Parse command lines interactively",
      "",
      "Global options:",
      "  --max-depth N    Maximum number of nested subshells (default: 128)",
      "  --log-file PATH  Path to the log file"]
  | parse =>
    ["positional arguments:",
      "  command               Command line to parse",
      ""] ++ formatHelp
  | tokens =>
    ["positional arguments:",
      "  command     Command line to tokenize",
      "",
      "options:",
      "  -h, --help  show this help message and exit"]
  | console => formatHelp

def helpText (p : Page) : String := String.join ((p.usage :: "" :: p.details).map (· ++ "\n"))

end Page
end ShellGrammar.CommandLine
