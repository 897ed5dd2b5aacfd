import PostfixCalc.Bindings
import PostfixCalc.Proofs.Token

namespace PostfixCalc.Bindings

private theorem find?_put_self (letter : Letter) (value : Binary64)
    (entries : List (Letter × Binary64)) :
    (put letter value entries).find? (·.1 = letter) = some (letter, value) := by
  induction entries with
  | nil => simp [put]
  | cons entry rest ih =>
      obtain ⟨key, old⟩ := entry
      by_cases hkey : key = letter
      · simp [put, hkey]
      · simpa [put, hkey] using ih

private theorem find?_put_of_ne {letter other : Letter} (value : Binary64)
    (entries : List (Letter × Binary64)) (h : other ≠ letter) :
    (put letter value entries).find? (·.1 = other) = entries.find? (·.1 = other) := by
  induction entries with
  | nil => simp [put, Ne.symm h]
  | cons entry rest ih =>
      obtain ⟨key, old⟩ := entry
      by_cases hkey : key = letter
      · subst hkey
        simp [put, Ne.symm h]
      · by_cases hother : key = other
        · subst hother
          simp [put, h]
        · simpa [put, hkey, hother] using ih

@[simp] theorem get?_set_self (bindings : Bindings) (letter : Letter) (value : Binary64) :
    (bindings.set letter value).get? letter = some value := by
  simp [get?, set, find?_put_self]

theorem get?_set_of_ne {letter other : Letter} (bindings : Bindings) (value : Binary64)
    (h : other ≠ letter) : (bindings.set letter value).get? other = bindings.get? other := by
  simp [get?, set, find?_put_of_ne value bindings.entries h]

theorem lookup_name (bindings : Bindings) (letter : Letter) :
    bindings.lookup letter.name =
      match bindings.get? letter with
      | some value => .ok value
      | none => .error (.unassignedVariable letter.name) := by
  cases h : bindings.get? letter <;> simp [lookup, find?, h]

theorem target?_eq_some_iff {name : Subject} {letter : Letter} :
    target? name = some letter ↔ name = .text letter.name := by
  cases name with
  | text text => simp [target?, Letter.ofName?_eq_some_iff]
  | _ => simp [target?]

theorem assign_letter (bindings : Bindings) (letter : Letter) {value : Quantity}
    {converted : Binary64} (hvalue : value.toBinary64 = .ok converted) :
    bindings.assign (.text letter.name) value = .ok (bindings.set letter converted) := by
  simp only [assign, target?, Letter.ofName?_name, hvalue]
  rfl

-- A name that is no letter is never assigned.
theorem lookup_of_ofName?_eq_none (bindings : Bindings) {name : String}
    (h : Letter.ofName? name = none) : bindings.lookup name = .error (.unassignedVariable name) := by
  simp [lookup, find?, h]

end PostfixCalc.Bindings
