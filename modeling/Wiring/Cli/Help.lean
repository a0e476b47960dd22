import Wiring.Cli.Arguments

/-! # Help of the program -/
namespace Wiring.Cli
set_option autoImplicit false

def programName : String := "savoksi"

def programVersion : String := "0.3.0"

def versionText : String := programName ++ " " ++ programVersion ++ "\n"

def lines (texts : List String) : String := String.join (texts.map (· ++ "\n"))

def Topic.usage : Topic → String
  | program => "Usage: " ++ programName ++ " [OPTIONS] <COMMAND>"
  | name => "Usage: " ++ programName ++ " name [OPTIONS] <NAME>"
  | config => "Usage: " ++ programName ++ " config <KEY>"
  | help => "Usage: " ++ programName ++ " help [COMMAND]..."

def Topic.text : Topic → String
  | program => lines [
      "Command-line interface for savoksi maintenance commands",
      "",
      usage program,
      "",
      "Commands:",
      "  name    Print the canonical form of a component name",
      "  config  Print a setting from the settings file",
      "  help    Print this message or the help of the given subcommand(s)",
      "",
      "Options:",
      "  -c, --config <FILE>  Settings file (YAML or JSON) loaded into the root context",
      "  -h, --help           Print help",
      "  -V, --version        Print version"]
  | name => lines [
      "Print the canonical form of a component name",
      "",
      usage name,
      "",
      "Arguments:",
      "  <NAME>  Short or canonical name (e.g., luo-tili, Savoksi\\LuoTili)",
      "",
      "Options:",
      "  -s, --suffix <SUFFIX>  Type suffix to apply (e.g., Sovellus, Komento) [default: ]",
      "      --short            Print the short form instead",
      "  -h, --help             Print help"]
  | config => lines [
      "Print a setting from the settings file",
      "",
      usage config,
      "",
      "Arguments:",
      "  <KEY>  Dotted key (e.g., tietokanta.osoite)",
      "",
      "Options:",
      "  -h, --help  Print help"]
  | help => lines [
      "Print this message or the help of the given subcommand(s)",
      "",
      usage help,
      "",
      "Arguments:",
      "  [COMMAND]...  Print help for the subcommand(s)"]

end Wiring.Cli
