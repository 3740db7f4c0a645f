import MeetingLedger.CommandLine.Invocation

/-! # What the program tells about its commands -/

namespace MeetingLedger.CommandLine

def summaries : List (String × String) := [
  ("check", "Check snapshot files"),
  ("migrate", "Migrate an event log"),
  ("finalize", "Migrate to the latest index and verify"),
  ("export", "Export an event log as a snapshot"),
  ("models", "List collections or the fields of one collection"),
  ("completions", "Generate shell completion scripts")]

def usageText : String := unlines (
  ["Usage: plenum [OPTIONS] <COMMAND>", "", "Commands:"] ++
  summaries.map (fun (name, summary) => "  " ++ Timing.padEnd 13 name ++ summary) ++
  ["", "Options:",
    "  -v, --verbose          Say more",
    "      --timing           Report how long the phases of a command take",
    "      --json             Print JSON",
    "      --format <FORMAT>  Print pretty, text or json",
    "      --config <PATH>    Read the settings from this file",
    "  -h, --help             Print help",
    "  -V, --version          Print version"])

def versionText : String := unlines ["plenum-cli 0.4.0"]

def Shell.script (shell : Shell) : String :=
  let words := " ".intercalate commandNames
  let quoted := ",".intercalate (commandNames.map ("'" ++ · ++ "'"))
  unlines [match shell with
    | bash => s!"complete -W \"{words}\" plenum"
    | elvish =>
      "set edit:completion:arg-completer[plenum] = \x7b|@words| put " ++ words ++ " \x7d"
    | fish => s!"complete -c plenum -f -n __fish_use_subcommand -a \"{words}\""
    | powershell =>
      "Register-ArgumentCompleter -Native -CommandName plenum -ScriptBlock \x7b param($word) " ++
        quoted ++ " | Where-Object \x7b $_ -like \"$word*\" \x7d \x7d"
    | zsh => s!"compctl -k \"({words})\" plenum"]

end MeetingLedger.CommandLine
