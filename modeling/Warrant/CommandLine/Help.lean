import Warrant.CommandLine.Arguments

/-!
# Explanations of the commands
-/

namespace Warrant.CommandLine

def versionText : String := "capgate 0.1.0\n"

def lines (ls : List String) : String := String.join (ls.map (· ++ "\n"))

def Topic.text : Topic → String
  | program => lines [
    "Hierarchical capability strings, access tiers and permission catalog sync",
    "",
    "Usage: capgate [OPTIONS] <COMMAND>",
    "",
    "Commands:",
    "  sync   Synchronize the catalog with the configured entities",
    "  legal  Print the legal capability set",
    "  check  Resolve a user's access tier",
    "  help   Print this message or the help of the given subcommand(s)",
    "",
    "Options:",
    "  -v, --verbose  Enable debug logging",
    "  -h, --help     Print help",
    "  -V, --version  Print version"]
  | sync => lines [
    "Synchronize the catalog with the configured entities",
    "",
    "Usage: capgate sync [OPTIONS] --config <PATH> --catalog <PATH>",
    "",
    "Options:",
    "  -c, --config <PATH>   Permission config (TOML)",
    "  -v, --verbose         Enable debug logging",
    "      --catalog <PATH>  Catalog file (JSON), created if missing",
    "      --dry-run         Report the delta without writing the catalog",
    "  -h, --help            Print help"]
  | legal => lines [
    "Print the legal capability set",
    "",
    "Usage: capgate legal [OPTIONS] --config <PATH>",
    "",
    "Options:",
    "  -c, --config <PATH>  Permission config (TOML)",
    "  -v, --verbose        Enable debug logging",
    "  -h, --help           Print help"]
  | check => lines [
    "Resolve a user's access tier",
    "",
    "Usage: capgate check [OPTIONS] --config <PATH> --catalog <PATH> --user <USER> " ++
      "--entity <ENTITY> --action <ACTION>",
    "",
    "Options:",
    "  -c, --config <PATH>    Permission config (TOML)",
    "  -v, --verbose          Enable debug logging",
    "      --catalog <PATH>   Catalog file (JSON)",
    "      --user <USER>      ",
    "      --entity <ENTITY>  ",
    "      --action <ACTION>  ",
    "  -h, --help             Print help"]
  | help => lines [
    "Print this message or the help of the given subcommand(s)",
    "",
    "Usage: capgate help [COMMAND]",
    "",
    "Commands:",
    "  sync   Synchronize the catalog with the configured entities",
    "  legal  Print the legal capability set",
    "  check  Resolve a user's access tier",
    "  help   Print this message or the help of the given subcommand(s)"]

end Warrant.CommandLine
