import Mathlib

/-!
JSON documents as a parser meets them: the members of an object in the order of the text, names
that repeat included, and a mark where the parser gives up. A strict reader refuses an object that
names a member twice.
-/

inductive Json where
  | null
  | bool (value : Bool)
  | unsigned (value : Nat)
  | signed (value : Int)
  | float (literal : String)
  | string (value : String)
  | array (items : List Json)
  | object (members : List (String × Json))
  | invalid (detail : String)

namespace Json

inductive Failure where
  | notJson (detail : String)
  | duplicateMember (name : String)
  deriving DecidableEq, Repr

mutual

def check : Json → Except Failure Unit
  | array items => checkItems items
  | object members => checkMembers [] members
  | invalid detail => .error (.notJson detail)
  | null | bool _ | unsigned _ | signed _ | float _ | string _ => .ok ()

def checkItems : List Json → Except Failure Unit
  | [] => .ok ()
  | item :: rest =>
    match item.check with
    | .error failure => .error failure
    | .ok () => checkItems rest

def checkMembers (names : List String) : List (String × Json) → Except Failure Unit
  | [] => .ok ()
  | (name, value) :: rest =>
    match value.check with
    | .error failure => .error failure
    | .ok () =>
      if name ∈ names then .error (.duplicateMember name)
      else checkMembers (name :: names) rest

end

def get (json : Json) (name : String) : Option Json :=
  match json with
  | object members => members.lookup name
  | _ => none

def asStr : Json → Option String
  | string value => some value
  | _ => none

def asU64 : Json → Option Nat
  | unsigned value => some value
  | signed value => if 0 ≤ value then some value.toNat else none
  | _ => none

def Scalar : Json → Prop
  | unsigned value => value < 2 ^ 64
  | string _ => True
  | _ => False

theorem check_scalar {json : Json} (scalar : json.Scalar) : json.check = .ok () := by
  cases json with
  | unsigned | string => rfl
  | _ => exact scalar.elim

theorem checkMembers_flat (members : List (String × Json)) (names : List String)
    (flat : ∀ member ∈ members, member.2.Scalar) (distinct : (members.map Prod.fst).Nodup)
    (fresh : ∀ member ∈ members, member.1 ∉ names) : checkMembers names members = .ok () := by
  induction members generalizing names with
  | nil => rfl
  | cons member rest ih =>
    obtain ⟨name, value⟩ := member
    rw [List.map_cons, List.nodup_cons] at distinct
    rw [checkMembers, check_scalar (flat _ List.mem_cons_self)]
    simp only
    rw [if_neg (fresh _ List.mem_cons_self)]
    refine ih _ (fun other listed => flat other (List.mem_cons_of_mem _ listed)) distinct.2 ?_
    intro other listed known
    rcases List.mem_cons.mp known with same | known
    · exact distinct.1 (List.mem_map.mpr ⟨other, listed, same⟩)
    · exact fresh other (List.mem_cons_of_mem _ listed) known

theorem check_flat (flat : ∀ member ∈ members, member.2.Scalar)
    (distinct : (members.map Prod.fst).Nodup) : (object members).check = .ok () :=
  checkMembers_flat members [] flat distinct fun _ _ => List.not_mem_nil

end Json
