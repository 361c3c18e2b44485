import LiveFacts.Decimal.Binary64
import LiveFacts.Keyed

/-!
# JSON values

Whole numbers and floating-point numbers are kept apart. Members of an object are sorted by key.
-/

namespace LiveFacts

inductive Json where
  | null
  | bool (value : Bool)
  | int (value : Int)
  | float (value : Binary64)
  | string (value : String)
  | array (items : List Json)
  | object (members : List (String × Json))
  deriving Repr, Inhabited

namespace Json

mutual

protected def decEq : (a b : Json) → Decidable (a = b)
  | null, null => isTrue rfl
  | bool a, bool b => decidable_of_iff (a = b) (by simp)
  | int a, int b => decidable_of_iff (a = b) (by simp)
  | float a, float b => decidable_of_iff (a = b) (by simp)
  | string a, string b => decidable_of_iff (a = b) (by simp)
  | array as, array bs =>
    match Json.decEqItems as bs with
    | isTrue h => isTrue (by rw [h])
    | isFalse h => isFalse (by simp [h])
  | object as, object bs =>
    match Json.decEqMembers as bs with
    | isTrue h => isTrue (by rw [h])
    | isFalse h => isFalse (by simp [h])
  | null, bool _ | null, int _ | null, float _ | null, string _ | null, array _ | null, object _ =>
    isFalse (by simp)
  | bool _, null | bool _, int _ | bool _, float _ | bool _, string _ | bool _, array _
  | bool _, object _ => isFalse (by simp)
  | int _, null | int _, bool _ | int _, float _ | int _, string _ | int _, array _
  | int _, object _ => isFalse (by simp)
  | float _, null | float _, bool _ | float _, int _ | float _, string _ | float _, array _
  | float _, object _ => isFalse (by simp)
  | string _, null | string _, bool _ | string _, int _ | string _, float _ | string _, array _
  | string _, object _ => isFalse (by simp)
  | array _, null | array _, bool _ | array _, int _ | array _, float _ | array _, string _
  | array _, object _ => isFalse (by simp)
  | object _, null | object _, bool _ | object _, int _ | object _, float _ | object _, string _
  | object _, array _ => isFalse (by simp)

protected def decEqItems : (as bs : List Json) → Decidable (as = bs)
  | [], [] => isTrue rfl
  | a :: as, b :: bs =>
    match Json.decEq a b, Json.decEqItems as bs with
    | isTrue ha, isTrue hs => isTrue (by rw [ha, hs])
    | isFalse ha, _ => isFalse (by simp [ha])
    | _, isFalse hs => isFalse (by simp [hs])
  | [], _ :: _ | _ :: _, [] => isFalse (by simp)

protected def decEqMembers : (as bs : List (String × Json)) → Decidable (as = bs)
  | [], [] => isTrue rfl
  | (j, a) :: as, (k, b) :: bs =>
    if hk : j = k then
      match Json.decEq a b, Json.decEqMembers as bs with
      | isTrue ha, isTrue hs => isTrue (by rw [hk, ha, hs])
      | isFalse ha, _ => isFalse (by simp [ha])
      | _, isFalse hs => isFalse (by simp [hs])
    else isFalse (by simp [hk])
  | [], _ :: _ | _ :: _, [] => isFalse (by simp)

end

instance : DecidableEq Json := Json.decEq

mutual

def sameValue : Json → Json → Bool
  | float a, float b => a.sameValue b
  | array as, array bs => sameItems as bs
  | object as, object bs => sameMembers as bs
  | a, b => a == b

def sameItems : List Json → List Json → Bool
  | [], [] => true
  | a :: as, b :: bs => sameValue a b && sameItems as bs
  | _, _ => false

def sameMembers : List (String × Json) → List (String × Json) → Bool
  | [], [] => true
  | (j, a) :: as, (k, b) :: bs => j == k && sameValue a b && sameMembers as bs
  | _, _ => false

end

def string? : Json → Option String
  | string value => some value
  | _ => none

def array? : Json → Option (List Json)
  | array items => some items
  | _ => none

def object? : Json → Option (Keyed Json)
  | object members => some members
  | _ => none

def member? (value : Json) (key : String) : Option Json :=
  value.object?.bind (·.find? key)

end Json

end LiveFacts
