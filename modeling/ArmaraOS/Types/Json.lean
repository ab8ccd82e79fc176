import Mathlib.Algebra.Ring.Int.Defs
import Mathlib.Algebra.Ring.Nat
import Mathlib.Data.List.Basic

/-!
`serde_json::Value`, with the accessors the runtime reads it through. An object
is the association list of its entries in key order (`serde_json` is built
without `preserve_order`); a float keeps only its bit pattern, since no modelled
function computes with one.
-/

namespace ArmaraOS

/-- A JSON value. Mirrors `serde_json::Value`; `Number` is split by variant. -/
inductive Json where
  | null
  | bool (value : Bool)
  | int (value : Int)
  | float (bits : UInt64)
  | str (value : String)
  | arr (items : List Json)
  | obj (fields : List (String × Json))
deriving Repr, Inhabited

namespace Json

mutual

/-- Structural equality of two values is decidable. -/
def decEq : (a b : Json) → Decidable (a = b)
  | .null, b => by
      cases b with
      | null => exact isTrue rfl
      | _ => exact isFalse (by simp)
  | .bool x, b => by
      cases b with
      | bool y => exact decidable_of_iff (x = y) (by simp)
      | _ => exact isFalse (by simp)
  | .int x, b => by
      cases b with
      | int y => exact decidable_of_iff (x = y) (by simp)
      | _ => exact isFalse (by simp)
  | .float x, b => by
      cases b with
      | float y => exact decidable_of_iff (x = y) (by simp)
      | _ => exact isFalse (by simp)
  | .str x, b => by
      cases b with
      | str y => exact decidable_of_iff (x = y) (by simp)
      | _ => exact isFalse (by simp)
  | .arr xs, b => by
      cases b with
      | arr ys =>
          have := decEqItems xs ys
          exact decidable_of_iff (xs = ys) (by simp)
      | _ => exact isFalse (by simp)
  | .obj xs, b => by
      cases b with
      | obj ys =>
          have := decEqFields xs ys
          exact decidable_of_iff (xs = ys) (by simp)
      | _ => exact isFalse (by simp)

def decEqItems : (xs ys : List Json) → Decidable (xs = ys)
  | [], [] => isTrue rfl
  | [], _ :: _ => isFalse (by simp)
  | _ :: _, [] => isFalse (by simp)
  | x :: xs, y :: ys =>
      have := decEq x y
      have := decEqItems xs ys
      decidable_of_iff (x = y ∧ xs = ys) (by simp)

def decEqFields : (xs ys : List (String × Json)) → Decidable (xs = ys)
  | [], [] => isTrue rfl
  | [], _ :: _ => isFalse (by simp)
  | _ :: _, [] => isFalse (by simp)
  | (k, x) :: xs, (l, y) :: ys =>
      have := decEq x y
      have := decEqFields xs ys
      decidable_of_iff ((k = l ∧ x = y) ∧ xs = ys) (by simp)

end

instance : DecidableEq Json := decEq

/-- `Value::get` with a string key: `none` on anything but an object. -/
def get (key : String) : Json → Option Json
  | .obj fields => fields.lookup key
  | _ => none

/-- Indexing with a string key: null where there is no such entry. -/
def field (key : String) (j : Json) : Json := (j.get key).getD .null

/-- `Map::insert`: the entries stay in key order. -/
def insertEntry (key : String) (value : Json) : List (String × Json) → List (String × Json)
  | [] => [(key, value)]
  | (k, x) :: entries =>
      if key = k then (k, value) :: entries
      else if key < k then (key, value) :: (k, x) :: entries
      else (k, x) :: insertEntry key value entries

/-- `Value::as_u64`. -/
def asU64 : Json → Option Nat
  | .int n => if 0 ≤ n ∧ n < 2 ^ 64 then some n.toNat else none
  | _ => none

/-- `Value::as_str`. -/
def asStr : Json → Option String
  | .str s => some s
  | _ => none

/-- `Value::as_bool`. -/
def asBool : Json → Option Bool
  | .bool b => some b
  | _ => none

end Json

end ArmaraOS
