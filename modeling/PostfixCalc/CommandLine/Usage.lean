import PostfixCalc.CommandLine.Options

namespace PostfixCalc.CommandLine

def programName : String := "postfixpp"

def levelNames : List String := Level.all.map Level.name

def usage : String :=
  "usage: " ++ programName ++ " [-h] [-e EXPRESSION] [--no_prompt]\n" ++
  "                 [--log_level \x7b" ++ String.intercalate "," levelNames ++ "\x7d]\n"

def help : String :=
  usage ++ "\n" ++
  "Postfix expression evaluator with single-letter variables\n\n" ++
  "options:\n" ++
  "  -h, --help            show this help message and exit\n" ++
  "  -e EXPRESSION, --expression EXPRESSION\n" ++
  "                        Expression to evaluate (can be repeated; variables\n" ++
  "                        carry over)\n" ++
  "  --no_prompt           Do not print a prompt in interactive mode\n" ++
  "  --log_level \x7b" ++ String.intercalate "," levelNames ++ "\x7d\n" ++
  "                        Logging level (default: " ++ Level.standard.name ++ ")\n"

def Misuse.message : Misuse → String
  | .ambiguous argument matching =>
    "ambiguous option: " ++ argument ++ " could match " ++ String.intercalate ", " matching
  | .valueExpected flag => "argument " ++ flag.title ++ ": expected one argument"
  | .valueIgnored flag value =>
    "argument " ++ flag.title ++ ": ignored explicit argument " ++ Text.quoted value
  | .invalidLevel value =>
    "argument " ++ Flag.logLevel.title ++ ": invalid choice: " ++ Text.quoted value ++
      " (choose from " ++ String.intercalate ", " (levelNames.map Text.quoted) ++ ")"
  | .unrecognized arguments => "unrecognized arguments: " ++ String.intercalate " " arguments

-- The usage, and under it what is wrong.
def Misuse.report (mistake : Misuse) : String :=
  usage ++ programName ++ ": error: " ++ mistake.message ++ "\n"

end PostfixCalc.CommandLine
