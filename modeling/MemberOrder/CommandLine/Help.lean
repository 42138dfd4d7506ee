import MemberOrder.CommandLine.Switch

/-!
# Help

The help of each page, in a short form and a long one. The two differ only where a
page lists the values of a switch.
-/

namespace MemberOrder.CommandLine

def versionText : String := "class-order 0.1.0\n"

/-- What the program is for; the first line of its help. -/
def summary : String := "CLI tool for inspecting class-order category weights"

def Page.helpLines (long : Bool) : Page → List String
  | .top =>
    [summary,
      "",
      "Usage: class-order [OPTIONS] <COMMAND>",
      "",
      "Commands:",
      "  weights     Print the resolved weight table",
      "  categories  List known categories with their built-in weights",
      "  init        Initialize configuration file",
      "  help        Print this message or the help of the given subcommand(s)",
      "",
      "Options:",
      "  -v, --verbose          Enable verbose output",
      "  -c, --config <CONFIG>  Path to configuration file",
      "  -h, --help             Print help",
      "  -V, --version          Print version"]
  | .weights =>
    ["Print the resolved weight table",
      "",
      "Usage: class-order weights [OPTIONS]",
      "",
      "Options:"] ++
    if long then
      ["      --project <PROJECT>",
        "          Project directory used to look up configuration",
        "          ",
        "          [default: .]",
        "",
        "  -v, --verbose",
        "          Enable verbose output",
        "",
        "  -c, --config <CONFIG>",
        "          Path to configuration file",
        "",
        "      --strict",
        "          Give private variants their own weight",
        "",
        "      --order <ORDER>",
        "          Explicit category order (comma-separated), overrides the config file",
        "",
        "  -f, --format <FORMAT>",
        "          Output format",
        "",
        "          Possible values:",
        "          - text: Human-readable text output",
        "          - json: JSON output",
        "          ",
        "          [default: text]",
        "",
        "  -h, --help",
        "          Print help (see a summary with '-h')"]
    else
      ["      --project <PROJECT>  Project directory used to look up configuration [default: .]",
        "  -v, --verbose            Enable verbose output",
        "  -c, --config <CONFIG>    Path to configuration file",
        "      --strict             Give private variants their own weight",
        "      --order <ORDER>      Explicit category order (comma-separated), overrides " ++
          "the config file",
        "  -f, --format <FORMAT>    Output format [default: text] [possible values: text, json]",
        "  -h, --help               Print help (see more with '--help')"]
  | .categories =>
    ["List known categories with their built-in weights",
      "",
      "Usage: class-order categories [OPTIONS]",
      "",
      "Options:"] ++
    if long then
      ["  -f, --format <FORMAT>",
        "          Output format",
        "",
        "          Possible values:",
        "          - text: Human-readable text output",
        "          - json: JSON output",
        "          ",
        "          [default: text]",
        "",
        "  -v, --verbose",
        "          Enable verbose output",
        "",
        "  -c, --config <CONFIG>",
        "          Path to configuration file",
        "",
        "  -h, --help",
        "          Print help (see a summary with '-h')"]
    else
      ["  -f, --format <FORMAT>  Output format [default: text] [possible values: text, json]",
        "  -v, --verbose          Enable verbose output",
        "  -c, --config <CONFIG>  Path to configuration file",
        "  -h, --help             Print help (see more with '--help')"]
  | .init =>
    ["Initialize configuration file",
      "",
      "Usage: class-order init [OPTIONS]",
      "",
      "Options:",
      "      --force            Overwrite existing config",
      "  -v, --verbose          Enable verbose output",
      "  -c, --config <CONFIG>  Path to configuration file",
      "  -h, --help             Print help"]
  | .help =>
    ["Print this message or the help of the given subcommand(s)",
      "",
      "Usage: class-order help [COMMAND]...",
      "",
      "Arguments:",
      "  [COMMAND]...  Print help for the subcommand(s)"]

def Page.helpText (page : Page) (long : Bool) : String :=
  String.join ((page.helpLines long).map (· ++ "\n"))

end MemberOrder.CommandLine
