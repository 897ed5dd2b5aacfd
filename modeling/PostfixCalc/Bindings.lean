import PostfixCalc.EvalError
import PostfixCalc.Letter
import PostfixCalc.Quantity

namespace PostfixCalc

-- The variables and their values, in the order in which they were first assigned.
structure Bindings where
  entries : List (Letter × Binary64)
  nodup : (entries.map Prod.fst).Nodup

namespace Bindings

-- A present key keeps its place; a new one goes to the end.
def put (letter : Letter) (value : Binary64) : List (Letter × Binary64) → List (Letter × Binary64)
  | [] => [(letter, value)]
  | (key, old) :: rest =>
    if key = letter then (key, value) :: rest else (key, old) :: put letter value rest

theorem mem_keys_put (letter key : Letter) (value : Binary64) (entries : List (Letter × Binary64)) :
    key ∈ (put letter value entries).map Prod.fst ↔
      key = letter ∨ key ∈ entries.map Prod.fst := by
  induction entries with
  | nil => simp [put]
  | cons entry rest ih =>
    unfold put
    split
    · rename_i h
      subst h
      simp
    · rw [List.map_cons, List.mem_cons, ih, List.map_cons, List.mem_cons]
      constructor
      · rintro (h | h | h) <;> simp [h]
      · rintro (h | h | h) <;> simp [h]

theorem nodup_keys_put (letter : Letter) (value : Binary64) (entries : List (Letter × Binary64))
    (h : (entries.map Prod.fst).Nodup) : ((put letter value entries).map Prod.fst).Nodup := by
  induction entries with
  | nil => simp [put]
  | cons entry rest ih =>
    rw [List.map_cons, List.nodup_cons] at h
    unfold put
    split
    · simpa using h
    · rename_i hne
      rw [List.map_cons, List.nodup_cons, mem_keys_put]
      exact ⟨fun hm => hm.elim hne h.1, ih h.2⟩

def empty : Bindings := ⟨[], by simp⟩

def set (bindings : Bindings) (letter : Letter) (value : Binary64) : Bindings :=
  ⟨put letter value bindings.entries, nodup_keys_put letter value bindings.entries bindings.nodup⟩

def get? (bindings : Bindings) (letter : Letter) : Option Binary64 :=
  (bindings.entries.find? (·.1 = letter)).map Prod.snd

-- A name that is no letter names no variable.
def find? (bindings : Bindings) (name : String) : Option Binary64 :=
  (Letter.ofName? name).bind bindings.get?

def contains (bindings : Bindings) (name : String) : Bool := (bindings.find? name).isSome

def lookup (bindings : Bindings) (name : String) : Except EvalError Binary64 :=
  match bindings.find? name with
  | some value => .ok value
  | none => .error (.unassignedVariable name)

-- The letter that a value may be assigned to.
def target? : Subject → Option Letter
  | .text name => Letter.ofName? name
  | _ => none

-- The name is judged before the value is converted; a refused assignment changes nothing.
def assign (bindings : Bindings) (name : Subject) (value : Quantity) :
    Except CallError Bindings := do
  match target? name with
  | some letter => return bindings.set letter (← value.toBinary64)
  | none => throw (.evaluation (.invalidTarget name))

def clear (_ : Bindings) : Bindings := empty

def size (bindings : Bindings) : Nat := bindings.entries.length

-- The assigned names in alphabetical order.
def names (bindings : Bindings) : List String :=
  (Letter.all.filter fun letter => (bindings.get? letter).isSome).map Letter.name

-- Names and values in order of first assignment.
def snapshot (bindings : Bindings) : List (String × Binary64) :=
  bindings.entries.map fun (letter, value) => (letter.name, value)

-- Names and values in alphabetical order.
def sorted (bindings : Bindings) : List (String × Binary64) :=
  Letter.all.filterMap fun letter => (bindings.get? letter).map fun value => (letter.name, value)

def text (bindings : Bindings) : String :=
  Text.bracketed "VariableTable(\x7b" "\x7d)"
    (bindings.snapshot.map fun (name, value) => Text.quoted name ++ ": " ++ value.text)

end Bindings

end PostfixCalc
