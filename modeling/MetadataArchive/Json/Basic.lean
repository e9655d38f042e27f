/-!
# JSON values

A `Json` value says what a text says before anybody asks for a particular type: objects keep the
order of their members and every repeated key, and numbers keep their spelling, because a reader of
integers must tell `1` from `1.0` and a reader of floating-point numbers goes by the digits.
-/

namespace MetadataArchive

/-- A decimal number as it is spelled. Its value is `mantissa * 10 ^ (exponent - places)` with the
sign in front; `places` is `0` when no point is written. -/
structure Numeral where
  negative : Bool
  mantissa : Nat
  places : Nat
  exponent : Option Int
deriving DecidableEq

/-- A JSON value. A string or key without text (`none`) is one whose escapes name half of a
surrogate pair: it is well-formed, but there is no character for the half. -/
inductive Json where
  | null
  | bool (b : Bool)
  | number (n : Numeral)
  | string (text : Option String)
  | array (items : List Json)
  | object (members : List (Option String × Json))

/-- A member of a JSON object: its key and its value. -/
abbrev Json.Member := Option String × Json

namespace Numeral

/-- An integer as it is written: a sign only if it is negative, no point and no exponent. -/
def ofInt (i : Int) : Numeral :=
  ⟨i < 0, i.natAbs, 0, none⟩

/-- The integer that a numeral spells; `-0`, `1.0` and `1e0` spell none. -/
def toInt? (n : Numeral) : Option Int :=
  if n.places = 0 ∧ n.exponent = none ∧ ¬ (n.negative ∧ n.mantissa = 0) then
    some (if n.negative then -n.mantissa else n.mantissa)
  else
    none

theorem toInt?_ofInt (i : Int) : (ofInt i).toInt? = some i := by
  have hzero : ¬ (decide (i < 0) = true ∧ i.natAbs = 0) := by
    rw [decide_eq_true_eq]
    omega
  rw [toInt?, ofInt, if_pos ⟨rfl, rfl, hzero⟩, Option.some_inj]
  dsimp only
  split
  · next h =>
    rw [decide_eq_true_eq] at h
    omega
  · next h =>
    rw [decide_eq_true_eq] at h
    omega

end Numeral

namespace Json

/-- The string value with the given text. -/
def text (s : String) : Json :=
  .string (some s)

/-- The number value of an integer. -/
def int (i : Int) : Json :=
  .number (.ofInt i)

/-- The object with the given members, in their order. -/
def ofMembers (ms : List (String × Json)) : Json :=
  .object (ms.map fun m => (some m.1, m.2))

/-- The values that an object holds under a key, in their order. -/
def valuesAt (key : String) (ms : List Member) : List Json :=
  (ms.filter fun m => m.1 == some key).map Prod.snd

end Json

end MetadataArchive
