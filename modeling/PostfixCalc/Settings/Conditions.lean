import Mathlib.Data.Finset.Card
import PostfixCalc.Settings
import PostfixCalc.Token.Classes

namespace PostfixCalc

-- All that can be wrong, in the order in which it is looked for.
def SettingsFault.all : List SettingsFault :=
  [.operatorSet, .operatorTwice, .markIsOperator, .brackets, .level]

namespace Settings

-- What it takes for the choices to have a fault. The first two are about the set of the symbols,
-- which says nothing of their order nor of how often they come.
def Breaks (settings : Settings) : SettingsFault → Prop
  | .operatorSet => settings.operatorSymbols.toFinset ≠ {"+", "-", "*", "/", "%", "^"}
  | .operatorTwice => settings.operatorSymbols.length ≠ settings.operatorSymbols.toFinset.card
  | .markIsOperator => settings.assignMark ∈ settings.operatorSymbols
  | .brackets => settings.resultBrackets.length ≠ 2
  | .level => settings.level ∉ ["DEBUG", "INFO", "WARNING", "ERROR", "CRITICAL"]

instance (settings : Settings) (fault : SettingsFault) : Decidable (settings.Breaks fault) :=
  match fault with
  | .operatorSet => inferInstanceAs (Decidable (_ ≠ _))
  | .operatorTwice => inferInstanceAs (Decidable (_ ≠ _))
  | .markIsOperator => inferInstanceAs (Decidable (_ ∈ _))
  | .brackets => inferInstanceAs (Decidable (_ ≠ _))
  | .level => inferInstanceAs (Decidable (_ ∉ _))

-- The choices have a fault, and none that is looked for before it.
def BreaksFirst (settings : Settings) (fault : SettingsFault) : Prop :=
  settings.Breaks fault ∧ ∃ earlier later, SettingsFault.all = earlier ++ fault :: later ∧
    ∀ other ∈ earlier, ¬ settings.Breaks other

-- The tests of the classes when the symbols and the mark are the chosen ones.
def recognisers (settings : Settings) : List (TokenKind × (String → Bool)) :=
  [(.number, Token.isNumber),
    (.operator, fun text => settings.tokenKinds.lookup text == some .operator),
    (.assign, (· == settings.assignMark)),
    (.variable, Token.isVariable)]

def classify (settings : Settings) (text : String) : TokenKind :=
  Token.kindBy settings.recognisers text

end Settings

end PostfixCalc
