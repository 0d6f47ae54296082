import Blueprint.Decimal.Layout

/-!
JSON values. Numbers are whole numbers or finite floating-point numbers, never the same one twice;
the members of an object stand in ascending order of their keys, each key once.
-/

set_option autoImplicit false

namespace Blueprint

/-- A floating-point number that is neither infinite nor undefined. -/
structure FiniteFloat where
  val : Float
  finite : val.isFinite = true

/-- A JSON number. Whole numbers are those of a signed or unsigned 64-bit word. -/
inductive JsonNumber where
  | whole (n : Int)
  | real (x : FiniteFloat)

inductive Json where
  | null
  | bool (b : Bool)
  | number (n : JsonNumber)
  | string (s : String)
  | array (items : List Json)
  | object (members : List (String × Json))

instance : Inhabited Json := ⟨.null⟩

namespace Json

/-- Puts a member in its place, over an earlier one of the same key. -/
def insertMember (key : String) (value : Json) : List (String × Json) → List (String × Json)
  | [] => [(key, value)]
  | (k, v) :: rest =>
    if key == k then (key, value) :: rest
    else if key < k then (key, value) :: (k, v) :: rest
    else (k, v) :: insertMember key value rest

/-- An object from members in any order; of two with one key the later counts. -/
def ofMembers (members : List (String × Json)) : Json :=
  .object (members.foldl (fun done (k, v) ↦ insertMember k v done) [])

/-- A whole number as JSON. -/
def ofInt (n : Int) : Json := .number (.whole n)

/-- A floating-point number as JSON, when it is finite. -/
def ofFloat? (x : Float) : Option Json :=
  if h : x.isFinite = true then some (.number (.real ⟨x, h⟩)) else none

def isNull : Json → Bool
  | .null => true
  | _ => false

/-- The member of an object under a key. -/
def get? (json : Json) (key : String) : Option Json :=
  match json with
  | .object members => members.lookup key
  | _ => none

def asString? : Json → Option String
  | .string s => some s
  | _ => none

def asBool? : Json → Option Bool
  | .bool b => some b
  | _ => none

def asArray? : Json → Option (List Json)
  | .array items => some items
  | _ => none

/-- The number as a natural of one word, when it is written as one. -/
def asNat? : Json → Option Nat
  | .number (.whole n) => if 0 ≤ n then some n.toNat else none
  | _ => none

end Json

/-- Floating-point numbers are written in place from `0.00001` up to, not including, `1e+16`, and
keep a fraction there. -/
def JsonNumber.layout : Decimal.Layout := ⟨some (-5), some 16, true, .toEven⟩

/-- Whole numbers and floating-point numbers are told apart; zeros of either sign are equal. -/
def JsonNumber.same : JsonNumber → JsonNumber → Bool
  | .whole a, .whole b => a == b
  | .real a, .real b => a.val == b.val
  | _, _ => false

mutual

/-- Equality of JSON values. -/
def Json.same : Json → Json → Bool
  | .null, .null => true
  | .bool a, .bool b => a == b
  | .number a, .number b => a.same b
  | .string a, .string b => a == b
  | .array a, .array b => Json.sameItems a b
  | .object a, .object b => Json.sameMembers a b
  | _, _ => false

def Json.sameItems : List Json → List Json → Bool
  | [], [] => true
  | a :: as, b :: bs => Json.same a b && Json.sameItems as bs
  | _, _ => false

def Json.sameMembers : List (String × Json) → List (String × Json) → Bool
  | [], [] => true
  | (k, a) :: as, (l, b) :: bs => k == l && Json.same a b && Json.sameMembers as bs
  | _, _ => false

end

instance : BEq JsonNumber := ⟨JsonNumber.same⟩
instance : BEq Json := ⟨Json.same⟩

end Blueprint
