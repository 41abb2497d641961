import Wokcore.Lib.Entries

/-!
# JSON documents and values

`Json` is a document as it is written: an object is the list of its members in text order, with a
key that is written twice kept twice. A `Value` is what a generic reader makes of a document: every
object is a map, so its members are sorted by key and of two members with one key the later one
counts. `Json.norm` is that reading, and a `Value` is a tree it leaves alone.

Integers are the ones a 64-bit reader keeps exact. Every other number is a binary float, and a float
is represented by the text it prints as; that text is a number with a fraction or an exponent, which
is part of the type `FloatText`.
-/

set_option autoImplicit false

namespace Wokcore.Lib

/-! ## Number texts -/

/-- A number text cut into its sign, its leading digits and what is left. -/
def splitNumber : List Char → Bool × List Char × List Char
  | [] => (false, [], [])
  | c :: cs =>
    if c = '-' then (true, cs.takeWhile Char.isDigit, cs.dropWhile Char.isDigit)
    else (false, (c :: cs).takeWhile Char.isDigit, (c :: cs).dropWhile Char.isDigit)

variable (cs : List Char)

def isDigits : Bool := !cs.isEmpty && cs.all Char.isDigit

/-- `0`, or digits of which the first is not `0`. -/
def isIntPart : Bool :=
  isDigits cs && (cs.head? != some '0' || cs.length == 1)

/-- Digits, after an optional sign. -/
def isSignedDigits : List Char → Bool
  | [] => false
  | c :: ds => if c = '+' ∨ c = '-' then isDigits ds else isDigits (c :: ds)

/-- Nothing, or an exponent. -/
def isExponent : List Char → Bool
  | [] => true
  | c :: cs => (c == 'e' || c == 'E') && isSignedDigits cs

/-- What may follow the leading digits: a fraction and an exponent, both optional. -/
def isNumberTail : List Char → Bool
  | [] => true
  | c :: cs =>
    if c = '.' then isDigits (cs.takeWhile Char.isDigit) && isExponent (cs.dropWhile Char.isDigit)
    else isExponent (c :: cs)

def isNumberText : Bool :=
  isIntPart (splitNumber cs).2.1 && isNumberTail (splitNumber cs).2.2

/-- A number text with a fraction or an exponent. -/
def isFloatText : Bool := isNumberText cs && !(splitNumber cs).2.2.isEmpty

/-- The text a binary float prints as. -/
structure FloatText where
  text : String
  valid : isFloatText text.toList = true
deriving DecidableEq

/-- A number as a 64-bit reader keeps it. -/
inductive Num where
  | nat (n : UInt64)
  /-- The integer `-(n + 1)`. -/
  | neg (n : Fin (2 ^ 63))
  | float (t : FloatText)
deriving DecidableEq

/-! ## Documents -/

/-- A JSON document, with the members of an object as they are written. -/
inductive Json where
  | null
  | bool (b : Bool)
  | num (n : Num)
  | str (s : String)
  | arr (items : List Json)
  | obj (members : List (String × Json))

/-- The members of an object as they are written. -/
abbrev Members := List (String × Json)

namespace Json

/-- The document of a natural number below `2 ^ 64`. -/
def ofNat (n : Nat) : Json := .num (.nat (.ofNat n))

/-- The document of a 64-bit word. -/
def ofWord (n : UInt64) : Json := .num (.nat n)

@[simp] def isObject : Json → Bool
  | .obj _ => true
  | _ => false

@[simp] def asStr : Json → Option String
  | .str s => some s
  | _ => none

@[simp] def asU64 : Json → Option Nat
  | .num (.nat n) => some n.toNat
  | _ => none

/-- `asU64`, as the word it is. -/
@[simp] def asWord : Json → Option UInt64
  | .num (.nat n) => some n
  | _ => none

@[simp] def asBool : Json → Option Bool
  | .bool b => some b
  | _ => none

@[simp] def asArray : Json → Option (List Json)
  | .arr xs => some xs
  | _ => none

@[simp] def asObject : Json → Option Members
  | .obj fs => some fs
  | _ => none

/-- The member of an object under `key`. -/
def get? (j : Json) (key : String) : Option Json := j.asObject.bind (·.lookup key)

mutual

/-- How deep arrays and objects are nested. -/
def depth : Json → Nat
  | .arr xs => depthItems xs + 1
  | .obj fs => depthMembers fs + 1
  | _ => 0

def depthItems : List Json → Nat
  | [] => 0
  | x :: xs => max x.depth (depthItems xs)

def depthMembers : Members → Nat
  | [] => 0
  | (_, x) :: fs => max x.depth (depthMembers fs)

end

/-! ## Equality -/

mutual

/-- Equality of documents, as a test. -/
def same : Json → Json → Bool
  | .null, .null => true
  | .bool a, .bool b => a == b
  | .num a, .num b => decide (a = b)
  | .str a, .str b => a == b
  | .arr xs, .arr ys => sameItems xs ys
  | .obj fs, .obj gs => sameMembers fs gs
  | _, _ => false

def sameItems : List Json → List Json → Bool
  | [], [] => true
  | x :: xs, y :: ys => same x y && sameItems xs ys
  | _, _ => false

def sameMembers : Members → Members → Bool
  | [], [] => true
  | (k, x) :: fs, (l, y) :: gs => k == l && same x y && sameMembers fs gs
  | _, _ => false

end

mutual

theorem same_iff : ∀ a b : Json, same a b = true ↔ a = b
  | .null, b => by cases b <;> simp [same]
  | .bool a, b => by cases b <;> simp [same]
  | .num a, b => by cases b <;> simp [same]
  | .str a, b => by cases b <;> simp [same]
  | .arr xs, b => by cases b <;> simp [same, sameItems_iff xs]
  | .obj fs, b => by cases b <;> simp [same, sameMembers_iff fs]

theorem sameItems_iff : ∀ xs ys : List Json, sameItems xs ys = true ↔ xs = ys
  | [], ys => by cases ys <;> simp [sameItems]
  | x :: xs, ys => by cases ys <;> simp [sameItems, same_iff x, sameItems_iff xs]

theorem sameMembers_iff : ∀ fs gs : Members, sameMembers fs gs = true ↔ fs = gs
  | [], gs => by cases gs <;> simp [sameMembers]
  | (k, x) :: fs, gs => by
    cases gs with
    | nil => simp [sameMembers]
    | cons g gs =>
      obtain ⟨l, y⟩ := g
      simp [sameMembers, same_iff x, sameMembers_iff fs]

end

instance : DecidableEq Json := fun a b => decidable_of_iff (same a b = true) (same_iff a b)

/-! ## Objects as maps -/

mutual

/-- The document with every object read as a map. -/
def norm : Json → Json
  | .arr xs => .arr (normItems xs)
  | .obj fs => .obj (ofEntries (normMembers fs))
  | j => j

def normItems : List Json → List Json
  | [] => []
  | x :: xs => x.norm :: normItems xs

def normMembers : Members → Members
  | [] => []
  | (k, x) :: fs => (k, x.norm) :: normMembers fs

end

@[simp] theorem norm_null : Json.null.norm = .null := rfl

@[simp] theorem norm_bool (b : Bool) : (Json.bool b).norm = .bool b := rfl

@[simp] theorem norm_num (n : Num) : (Json.num n).norm = .num n := rfl

@[simp] theorem norm_ofNat (n : Nat) : (Json.ofNat n).norm = .ofNat n := rfl

@[simp] theorem norm_str (s : String) : (Json.str s).norm = .str s := rfl

theorem normItems_eq_map (xs : List Json) : normItems xs = xs.map norm := by
  induction xs with
  | nil => rfl
  | cons x xs ih => rw [normItems, ih, List.map_cons]

@[simp] theorem norm_arr (xs : List Json) : (Json.arr xs).norm = .arr (xs.map norm) := by
  rw [norm, normItems_eq_map]

theorem normMembers_eq_map (fs : Members) : normMembers fs = fs.map fun f => (f.1, f.2.norm) := by
  induction fs with
  | nil => rfl
  | cons f fs ih => rw [normMembers, ih, List.map_cons]

/-- Members whose values are already read as maps stay as they are. -/
theorem normMembers_of_forall {fs : Members} (h : ∀ f ∈ fs, f.2.norm = f.2) :
    normMembers fs = fs := by
  rw [normMembers_eq_map]
  conv_rhs => rw [← List.map_id fs]
  refine List.map_congr_left fun f hf => ?_
  rw [h f hf, id]

mutual

theorem norm_norm : ∀ j : Json, j.norm.norm = j.norm
  | .null => rfl
  | .bool _ => rfl
  | .num _ => rfl
  | .str _ => rfl
  | .arr xs => by rw [norm, norm, normItems_normItems xs]
  | .obj fs => by
    rw [norm, norm, normMembers_of_forall fun f hf =>
      norm_of_mem_normMembers fs f (mem_of_mem_ofEntries hf), ofEntries_of_sorted
        (ofEntries_sorted _)]

theorem normItems_normItems : ∀ xs : List Json, normItems (normItems xs) = normItems xs
  | [] => rfl
  | x :: xs => by rw [normItems, normItems, norm_norm x, normItems_normItems xs]

theorem norm_of_mem_normMembers :
    ∀ (fs : Members) (f : String × Json), f ∈ normMembers fs → f.2.norm = f.2
  | [], f, hf => absurd hf (by simp [normMembers])
  | (k, x) :: fs, f, hf => by
    rw [normMembers] at hf
    rcases List.mem_cons.mp hf with rfl | hf
    · exact norm_norm x
    · exact norm_of_mem_normMembers fs f hf

end

end Json

/-- A document whose objects are maps. -/
structure Value where
  tree : Json
  normal : tree.norm = tree
deriving DecidableEq

/-- The value of a document. -/
def Json.toValue (j : Json) : Value := ⟨j.norm, j.norm_norm⟩

@[simp] theorem Json.toValue_tree (j : Json) : j.toValue.tree = j.norm := rfl

theorem Value.toValue_tree_eq (v : Value) : v.tree.toValue = v := by
  cases v with
  | mk tree normal => simp [Json.toValue, normal]

namespace Value

def ofStr (s : String) : Value := (Json.str s).toValue

def ofNat (n : Nat) : Value := (Json.ofNat n).toValue

def ofBool (b : Bool) : Value := (Json.bool b).toValue

def array (vs : List Value) : Value := (Json.arr (vs.map tree)).toValue

def object (m : EntryMap Value) : Value :=
    (Json.obj (m.entries.map fun e => (e.1, e.2.tree))).toValue

theorem array_tree (vs : List Value) : (array vs).tree = .arr (vs.map tree) := by
  rw [array, Json.toValue_tree, Json.norm_arr, List.map_map]
  congr 1
  exact List.map_congr_left fun v _ => v.normal

theorem object_tree (m : EntryMap Value) :
    (object m).tree = .obj (m.entries.map fun e => (e.1, e.2.tree)) := by
  have hnormal : ∀ f ∈ m.entries.map fun e => (e.1, e.2.tree), f.2.norm = f.2 := by
    intro f hf
    obtain ⟨e, -, rfl⟩ := List.mem_map.mp hf
    exact e.2.normal
  have hsorted : SortedKeys (m.entries.map fun e => (e.1, e.2.tree)) :=
    List.pairwise_map.mpr m.sorted
  rw [object, Json.toValue_tree, Json.norm, Json.normMembers_of_forall hnormal,
    ofEntries_of_sorted hsorted]

end Value

end Wokcore.Lib
