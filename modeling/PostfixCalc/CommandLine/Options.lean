import PostfixCalc.Record
import PostfixCalc.Text.DecimalDigit

namespace PostfixCalc.CommandLine

inductive Flag where
  | help | expression | noPrompt | logLevel
  deriving DecidableEq

-- All spellings, in the order in which they are told.
def spellings : List (String × Flag) :=
  [("-h", .help), ("--help", .help), ("-e", .expression), ("--expression", .expression),
   ("--no_prompt", .noPrompt), ("--log_level", .logLevel)]

namespace Flag

def takesValue : Flag → Bool
  | .help | .noPrompt => false
  | .expression | .logLevel => true

-- The spellings of one flag together.
def title (flag : Flag) : String :=
  String.intercalate "/" ((spellings.filter (·.2 = flag)).map Prod.fst)

def ofSpelling? (cs : List Char) : Option Flag :=
  (spellings.find? (·.1.toList = cs)).map Prod.snd

end Flag

-- A mistake in the arguments.
inductive Misuse where
  | ambiguous (argument : String) (matching : List String)
  | valueExpected (flag : Flag)
  | valueIgnored (flag : Flag) (value : String)
  | invalidLevel (value : String)
  | unrecognized (arguments : List String)
  deriving DecidableEq

-- What an argument is, by its looks alone. A long flag may bring its value behind an equals sign.
-- Whatever follows a short flag is joined to it.
inductive Role where
  | plain
  | flagged (flag : Flag) (value : Option (List Char))
  | joined (flag : Flag) (text : List Char)
  | unknown

-- A minus sign, digits and perhaps a point with digits after it, which then need not have digits
-- before it. One line feed at the end is overlooked.
def looksNegative (afterMinus : List Char) : Bool :=
  let body := if afterMinus.getLast? = some '\n' then afterMinus.dropLast else afterMinus
  match body.takeWhile Text.isDecimalDigit, body.dropWhile Text.isDecimalDigit with
  | _ :: _, [] => true
  | _, '.' :: fraction => fraction ≠ [] && fraction.all Text.isDecimalDigit
  | _, _ => false

-- An argument that begins with a minus sign but is no flag is plain if it looks like a negative
-- number or has a space.
def roleOfOther (afterMinus : List Char) : Role :=
  if looksNegative afterMinus || afterMinus.contains ' ' then .plain else .unknown

-- A long flag ends at the first equals sign. It may be cut short as long as a single spelling
-- begins like it.
def roleOfLong (argument : String) (afterMinus : List Char) : Except Misuse Role :=
  let head := argument.toList.takeWhile (· != '=')
  let value := (argument.toList.dropWhile (· != '=')).tail?
  match Flag.ofSpelling? head with
  | some flag => .ok (.flagged flag value)
  | none =>
    match spellings.filter fun entry => head.isPrefixOf entry.1.toList with
    | [] => .ok (roleOfOther afterMinus)
    | [entry] => .ok (.flagged entry.2 value)
    | entries => .error (.ambiguous argument (entries.map Prod.fst))

def roleOfShort (flag : Flag) (text : List Char) : Role :=
  if text = [] then .flagged flag none else .joined flag text

def roleOf (argument : String) : Except Misuse Role :=
  match argument.toList with
  | '-' :: '-' :: rest => roleOfLong argument ('-' :: rest)
  | '-' :: c :: rest =>
    match Flag.ofSpelling? ['-', c] with
    | some flag => .ok (roleOfShort flag rest)
    | none => .ok (roleOfOther (c :: rest))
  | _ => .ok .plain

-- A double dash ends the flags. It is itself no value for one.
def rolesOf : List String → Except Misuse (List (String × Role))
  | [] => .ok []
  | argument :: rest =>
    if argument = "--" then .ok ((argument, .unknown) :: rest.map fun other => (other, .plain))
    else
      match roleOf argument, rolesOf rest with
      | .error mistake, _ => .error mistake
      | .ok _, .error mistake => .error mistake
      | .ok role, .ok others => .ok ((argument, role) :: others)

-- The scanner of the arguments comes in two editions, up to release 3.11.9 and from 3.11.10 on.
-- They differ in what they make of a double dash that is the value of a flag, and of the text that
-- is joined to a flag without a value.
inductive Edition where
  | early | late
  deriving DecidableEq

namespace Edition

-- The program is run with the early one.
def standard : Edition := .early

-- A double dash used to be taken out of the values, and what was left was no text.
def text? (edition : Edition) (value : List Char) : Option String :=
  if edition = .early ∧ value = ['-', '-'] then none else some (String.ofList value)

end Edition

-- One thing that the arguments ask for.
inductive Action where
  | showHelp
  | hidePrompt
  | addExpression (text : Option String)
  | setLevel (text : Option String)

def Flag.action (flag : Flag) (text : Option String) : Action :=
  match flag with
  | .help => .showHelp
  | .noPrompt => .hidePrompt
  | .expression => .addExpression text
  | .logLevel => .setLevel text

-- What the arguments come to, from left to right. A mistake comes last.
inductive Item where
  | action (action : Action)
  | unclaimed (text : String)
  | mistake (mistake : Misuse)

-- All that one argument with flags comes to, and a flag that still needs its value.
structure Cluster where
  items : List Item
  pending : Option Flag

section

variable (edition : Edition)

namespace Cluster

def ofFlag (flag : Flag) : Cluster :=
  if flag.takesValue then ⟨[], some flag⟩ else ⟨[.action (flag.action none)], none⟩

def ofValue (flag : Flag) (value : List Char) : Except Misuse Cluster :=
  if flag.takesValue then .ok ⟨[.action (flag.action (edition.text? value))], none⟩
  else .error (.valueIgnored flag (String.ofList value))

-- Flags without a value may be followed by further flags, the last of which may bring its value.
-- Text that is neither a value nor begins with a flag was once refused as a whole. The late edition
-- takes the flags before it and leaves the text, unless it begins with a minus sign.
def ofJoined (flag : Flag) : List Char → Except Misuse Cluster
  | [] => .ok (ofFlag flag)
  | c :: rest =>
    if edition = .late ∧ c = '=' then ofValue edition flag rest
    else if flag.takesValue then ofValue edition flag (c :: rest)
    else
      match Flag.ofSpelling? ['-', c] with
      | some next =>
        match ofJoined next rest with
        | .error mistake => .error mistake
        | .ok cluster => .ok { cluster with items := .action (flag.action none) :: cluster.items }
      | none =>
        if edition = .early ∨ c = '-' then
          .error (.valueIgnored flag (String.ofList (c :: rest)))
        else
          .ok ⟨[.action (flag.action none), .unclaimed (String.ofList ('-' :: c :: rest))], none⟩

-- The early edition overlooks an equals sign right behind the first flag if anything follows it.
def ofShort (flag : Flag) : List Char → Except Misuse Cluster
  | ['='] => ofValue edition flag []
  | '=' :: text => if edition = .late then ofValue edition flag text else ofJoined edition flag text
  | text => ofJoined edition flag text

end Cluster

-- An argument without flags makes no cluster.
def Role.cluster? : Role → Option (Except Misuse Cluster)
  | .plain | .unknown => none
  | .flagged flag none => some (.ok (.ofFlag flag))
  | .flagged flag (some value) => some (Cluster.ofValue edition flag value)
  | .joined flag text => some (Cluster.ofShort edition flag text)

-- A flag without its value takes the next argument, which has to be plain.
def itemsOf : List (String × Role) → List Item
  | [] => []
  | (argument, role) :: rest =>
    match role.cluster? edition with
    | none => .unclaimed argument :: itemsOf rest
    | some (.error mistake) => [.mistake mistake]
    | some (.ok ⟨items, none⟩) => items ++ itemsOf rest
    | some (.ok ⟨items, some flag⟩) =>
      match rest with
      | (value, .plain) :: others => items ++ .action (flag.action (some value)) :: itemsOf others
      | _ => [.mistake (.valueExpected flag)]

end

-- A level or an expression may have been given that is no text.
structure Options where
  expressions : List (Option String)
  level : Option Level
  promptHidden : Bool

-- Why the arguments give no options: help was asked for, or there is a mistake in them.
inductive Exit where
  | help
  | misuse (mistake : Misuse)

namespace Options

def standard : Options := ⟨[], some .standard, false⟩

def perform (options : Options) : Action → Except Exit Options
  | .showHelp => .error .help
  | .hidePrompt => .ok { options with promptHidden := true }
  | .addExpression text => .ok { options with expressions := options.expressions ++ [text] }
  | .setLevel none => .ok { options with level := none }
  | .setLevel (some text) =>
    match Level.ofName? text with
    | some level => .ok { options with level := some level }
    | none => .error (.misuse (.invalidLevel text))

-- Unclaimed texts count only if nothing else ends the call before.
def performAll (options : Options) (unclaimed : List String) : List Item → Except Exit Options
  | [] => if unclaimed = [] then .ok options else .error (.misuse (.unrecognized unclaimed))
  | .unclaimed text :: rest => performAll options (unclaimed ++ [text]) rest
  | .mistake mistake :: _ => .error (.misuse mistake)
  | .action action :: rest =>
    match options.perform action with
    | .error exit => .error exit
    | .ok next => performAll next unclaimed rest

def ofArguments (edition : Edition) (arguments : List String) : Except Exit Options :=
  match rolesOf arguments with
  | .error mistake => .error (.misuse mistake)
  | .ok roles => standard.performAll [] (itemsOf edition roles)

end Options

end PostfixCalc.CommandLine
