import FeatureStore.RegistryModels

/-!
# Differences of specs

`_differences` walks two JSON values and lists where they differ, by JSON pointers.
Scalars are compared as Python does, so an integer may equal a float.
-/

namespace FeatureStore

/-- The nearest double of a natural number, ties to even. -/
def nearestDouble (m : Nat) : Nat :=
  let shift := Nat.log2 m - 52
  let quotient := m / 2 ^ shift
  let remainder := m % 2 ^ shift
  let roundsUp := decide (2 ^ shift < 2 * remainder) ||
    (decide (2 ^ shift = 2 * remainder) && decide (quotient % 2 = 1))
  (if roundsUp then quotient + 1 else quotient) * 2 ^ shift

/-- The integer that a float equals, if any, from the text of the float. An infinity is none. -/
def floatAsInt? (token : String) : Option Int :=
  let (negative, chars) :=
    match token.toList with
    | '-' :: rest => (true, rest)
    | rest => (false, rest)
  let mantissa := chars.takeWhile (· ≠ 'e')
  let whole := mantissa.takeWhile (· ≠ '.')
  let fraction := (mantissa.dropWhile (· ≠ '.')).drop 1
  if !isFiniteToken token || !(whole ++ fraction).all Char.isDigit || whole.isEmpty then none
  else
    let power := readInt (((chars.dropWhile (· ≠ 'e')).drop 1).filter (· ≠ '+'))
    let exponent := power - fraction.length
    let digits := Nat.ofDigitChars 10 (whole ++ fraction) 0
    let size :=
      if 0 ≤ exponent then some (digits * 10 ^ exponent.toNat)
      else if digits % 10 ^ exponent.natAbs = 0 then some (digits / 10 ^ exponent.natAbs)
      else none
    size.map fun size => if negative then -(nearestDouble size : Int) else nearestDouble size

/-- The integer value of a boolean, an integer or an integral float. -/
def Value.asInt? : Value → Option Int
  | .bool b => some (if b then 1 else 0)
  | .int n => some n
  | .float token => floatAsInt? token
  | _ => none

/-- `==`, on operands that are not both arrays or both objects. -/
def scalarEq : Value → Value → Bool
  | .null, .null => true
  | .str a, .str b => a == b
  | .timestamp a, .timestamp b =>
      a.utcOffset.isSome == b.utcOffset.isSome && a.asUtc == b.asUtc
  | .float a, .float b => a != "NaN" && (a == b || (Value.float a).asInt?.any fun n =>
      (Value.float b).asInt? == some n)
  | a, b => a.asInt?.any fun n => b.asInt? == some n

/-- `_json_pointer`. -/
def jsonPointer (path part : String) : String :=
  path ++ "/" ++ (part.replace "~" "~0").replace "/" "~1"

def addedDifference (path : String) (proposed : Value) : RegistryDifference :=
  ⟨path, .added, .null, proposed⟩

def removedDifference (path : String) (existing : Value) : RegistryDifference :=
  ⟨path, .removed, existing, .null⟩

mutual

/-- `_differences`. -/
def differences : Value → Value → String → List RegistryDifference
  | .dict members, .dict others, path =>
      -- The walk is over the sorted union of the keys.
      (sortByKey (memberDifferences members others path ++
        (others.filter fun other => !(members.map (·.1)).contains other.1).map fun other =>
          (other.1, [addedDifference (jsonPointer path other.1) other.2]))).flatMap (·.2)
  | .list items, .list others, path => itemDifferences items others path 0
  | existing, proposed, path =>
      if scalarEq existing proposed then []
      else [⟨if path = "" then "/" else path, .changed, existing, proposed⟩]

def memberDifferences : List (String × Value) → List (String × Value) → String →
    List (String × List RegistryDifference)
  | [], _, _ => []
  | (key, existing) :: rest, others, path =>
      (key, match others.lookup key with
        | some proposed => differences existing proposed (jsonPointer path key)
        | none => [removedDifference (jsonPointer path key) existing]) ::
          memberDifferences rest others path

def itemDifferences : List Value → List Value → String → Nat → List RegistryDifference
  | [], others, path, index =>
      (others.zipIdx index).map fun other =>
        addedDifference (jsonPointer path (toString other.2)) other.1
  | existing :: rest, [], path, index =>
      removedDifference (jsonPointer path (toString index)) existing ::
        itemDifferences rest [] path (index + 1)
  | existing :: rest, proposed :: others, path, index =>
      differences existing proposed (jsonPointer path (toString index)) ++
        itemDifferences rest others path (index + 1)

end

end FeatureStore
