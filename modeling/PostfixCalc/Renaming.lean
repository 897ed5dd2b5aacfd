import Mathlib.Data.List.Nodup
import Mathlib.Logic.Equiv.Defs
import PostfixCalc.Machine

namespace PostfixCalc

-- Exchanging the letters for one another, in everything that can mention one.
def Token.rename (perm : Equiv.Perm Letter) : Token → Token
  | .variable letter => .variable (perm letter)
  | token => token

-- A name that is no letter stays as it is.
def renameName (perm : Equiv.Perm Letter) (name : String) : String :=
  match Letter.ofName? name with
  | some letter => (perm letter).name
  | none => name

def Cell.rename (perm : Equiv.Perm Letter) : Cell → Cell
  | .reference name => .reference (renameName perm name)
  | cell => cell

def EvalError.rename (perm : Equiv.Perm Letter) : EvalError → EvalError
  | .unassignedVariable name => .unassignedVariable (renameName perm name)
  | .invalidOperand operand => .invalidOperand (operand.rename perm)
  | .invalidTarget (.cell target) => .invalidTarget (.cell (target.rename perm))
  | error => error

def Bindings.rename (perm : Equiv.Perm Letter) (bindings : Bindings) : Bindings where
  entries := bindings.entries.map fun (letter, value) => (perm letter, value)
  nodup := by
    rw [List.map_map]
    change (bindings.entries.map (perm ∘ Prod.fst)).Nodup
    rw [← List.map_map]
    exact List.Nodup.map perm.injective bindings.nodup

def Machine.rename (perm : Equiv.Perm Letter) (machine : Machine) : Machine :=
  ⟨machine.stack.map (Cell.rename perm), machine.bindings.rename perm⟩

end PostfixCalc
