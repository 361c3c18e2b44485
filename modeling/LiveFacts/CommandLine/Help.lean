import LiveFacts.CommandLine.Request

/-!
# Help

What the program says about itself: on one line for each entry when it is to be brief, with more
room otherwise.
-/

namespace LiveFacts

def versionText : String := "factsync 0.4.0\n"

namespace Topic

def lines (texts : List String) : String :=
  String.join (texts.map (· ++ "\n"))

def about : Verb → String
  | .render => "Parse canonical query text and print it back"
  | .invert => "Print the inverses of a query"
  | .run => "Load facts from a JSON file and run a query from one of them"

def more : Verb → String
  | .render => "Examples: factsync render 'F.type=\"List\" S.list F.type=\"Task\"'"
  | .invert =>
    "Examples: factsync invert 'F.type=\"List\" S.list F.type=\"Task\" " ++
      "N(S.task F.type=\"Completion\")'"
  | .run =>
    "The file holds a JSON array of fact documents. " ++
      "Results are printed as hydrated JSON documents."

def usage : Verb → String
  | .render => "Usage: factsync render [OPTIONS] <QUERY>"
  | .invert => "Usage: factsync invert [OPTIONS] <QUERY>"
  | .run => "Usage: factsync run [OPTIONS] --facts <FACTS> <QUERY>"

def programText : String :=
  lines ["Fact-graph synchronization: live queries over immutable, content-addressed facts",
    "",
    "Usage: factsync [OPTIONS] <COMMAND>",
    "",
    "Commands:",
    "  render  " ++ about .render,
    "  invert  " ++ about .invert,
    "  run     " ++ about .run,
    "  help    Print this message or the help of the given subcommand(s)",
    "",
    "Options:",
    "  -v, --verbose...  Log engine activity to stderr (repeat for more detail)",
    "  -h, --help        Print help",
    "  -V, --version     Print version"]

def helpText : String :=
  lines ["Print this message or the help of the given subcommand(s)",
    "",
    "Usage: factsync help [COMMAND]...",
    "",
    "Arguments:",
    "  [COMMAND]...  Print help for the subcommand(s)"]

def briefOptions : Verb → List String
  | .render | .invert =>
    ["  -v, --verbose...  Log engine activity to stderr (repeat for more detail)",
      "  -h, --help        Print help (see more with '--help')"]
  | .run =>
    ["  -f, --facts <FACTS>  JSON file containing an array of facts",
      "  -v, --verbose...     Log engine activity to stderr (repeat for more detail)",
      "  -s, --start <START>  Index of the starting fact in the array [default: 0]",
      "  -h, --help           Print help (see more with '--help')"]

def briefText (named : Verb) : String :=
  lines ([about named, "", usage named, "", "Arguments:", "  <QUERY>  Query in canonical text form",
    "", "Options:"] ++ briefOptions named)

def fullOptions : Verb → List String
  | .render | .invert =>
    ["  -v, --verbose...",
      "          Log engine activity to stderr (repeat for more detail)",
      "",
      "  -h, --help",
      "          Print help (see a summary with '-h')"]
  | .run =>
    ["  -f, --facts <FACTS>",
      "          JSON file containing an array of facts",
      "",
      "  -v, --verbose...",
      "          Log engine activity to stderr (repeat for more detail)",
      "",
      "  -s, --start <START>",
      "          Index of the starting fact in the array",
      "          ",
      "          [default: 0]",
      "",
      "  -h, --help",
      "          Print help (see a summary with '-h')"]

def fullText (named : Verb) : String :=
  lines ([about named, "", more named, "", usage named, "", "Arguments:", "  <QUERY>",
    "          Query in canonical text form", "", "Options:"] ++ fullOptions named)

def text (topic : Topic) (brief : Bool) : String :=
  match topic with
  | .program => programText
  | .help => helpText
  | .verb named => if brief then briefText named else fullText named

end Topic

end LiveFacts
