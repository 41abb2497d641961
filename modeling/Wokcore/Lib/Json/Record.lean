import Wokcore.Lib.Json.Tree
import Wokcore.Lib.Outcome

/-!
# Reading records out of documents

How a derived reader takes a typed record out of a document. A record is an object: a field it knows
may be written once, a field that is missing is an error, `none` or a default, and the members it
does not know are collected into a map. A choice between records is either tagged, by a member that
names the variant and is not part of it, or untagged, and then the first variant that reads counts.

A choice that had to be buffered before it was read also takes the position of a variant for its
name.
-/

set_option autoImplicit false

namespace Wokcore.Lib

open Json List
open Prod (fst snd)

theorem Json.norm_toValue (j : Json) : j.norm.toValue = j.toValue := by
  simp [toValue, norm_norm]

namespace Read

variable {α : Type*} {fs : Members} {known : List String}

def str : Json → Option String := asStr

def bool : Json → Option Bool
  | .bool b => some b
  | _ => none

def u64 : Json → Option Nat := asU64

def value (j : Json) : Option Value := some j.toValue

@[simp] theorem str_str (s : String) : str (.str s) = some s := rfl

@[simp] theorem bool_bool (b : Bool) : bool (.bool b) = some b := rfl

def list (f : Json → Option α) : Json → Option (List α)
  | .arr xs => xs.mapM f
  | _ => none

/-- `null` is the missing value. -/
def option (f : Json → Option α) : Json → Option (Option α)
  | .null => some none
  | j => (f j).map some

section

variable (f : Json → Option α)

@[simp] theorem option_null : option f .null = some none := rfl

@[simp] theorem option_bool (b : Bool) : option f (.bool b) = (f (.bool b)).map some := rfl

@[simp] theorem option_num (n : Num) : option f (.num n) = (f (.num n)).map some := rfl

@[simp] theorem option_str (s : String) : option f (.str s) = (f (.str s)).map some := rfl

@[simp] theorem option_obj (fs : Members) : option f (.obj fs) = (f (.obj fs)).map some := rfl

theorem list_singleton (j : Json) : list f (.arr [j]) = (f j).map ([·]) := by
  cases h : f j <;> simp [list, h]

end

variable (key : String)

/-- The member under `key`, if there is one; a key that is written twice is refused. -/
def member (fs : Members) : Option (Option Json) :=
  match fs.filter fun f => f.1 = key with
  | [] => some none
  | [f] => some (some f.2)
  | _ => none

def required (f : Json → Option α) (fs : Members) : Option α :=
  (member key fs).bind fun j => j.bind f

def maybe (f : Json → Option α) (fs : Members) : Option (Option α) :=
  (member key fs).bind fun j => (j.map (option f)).getD (some none)

def withDefault (f : Json → Option α) (default : α) (fs : Members) : Option α :=
  (member key fs).bind fun j => (j.map f).getD (some default)

/-- The members a record does not know, as a map. -/
def rest (known : List String) (fs : Members) : EntryMap Value :=
  .ofList ((fs.filter fun f => !known.contains f.1).map fun f => (f.1, f.2.toValue))

/-- The variant a tag names; `buffered` also takes its position. -/
def variant (buffered : Bool) (variants : Entries α) : Json → Option α
  | .str s => variants.lookup s
  | .num (.nat n) => if buffered then variants[n.toNat]?.map snd else none
  | _ => none

/-- The members under other keys. -/
def withoutKey (fs : Members) : Members := fs.filter fun f => f.1 ≠ key

/-- A tagged choice: the variant the member `tag` names, and the members without it. -/
def tagged (buffered : Bool) (tag : String) (variants : Entries α) (fs : Members) :
    Option (α × Members) :=
  (required tag (variant buffered variants) fs).map fun v => (v, withoutKey tag fs)

/-- A variant without fields: its name, or an object with `null` under its name. -/
def unit (variants : Entries α) : Json → Option α
  | .str s => variants.lookup s
  | .obj [(s, .null)] => variants.lookup s
  | _ => none

/-! ## Reading from objects whose keys differ -/

theorem filter_key_of_nodup (h : (fs.map fst).Nodup) (key : String) :
    (fs.filter fun f => f.1 = key) = ((fs.lookup key).map fun j => (key, j)).toList := by
  induction fs with
  | nil => rfl
  | cons f fs ih =>
    obtain ⟨hnot, hnd⟩ := nodup_cons.mp h
    rw [filter_cons, lookup_cons_ite, ih hnd]
    by_cases hf : f.1 = key
    · subst hf
      simp [lookup_eq_none_of_not_mem hnot]
    · have hf' : ¬ key = f.1 := fun h => hf h.symm
      simp [hf, hf']

theorem member_of_nodup (h : (fs.map fst).Nodup) (key : String) :
    member key fs = some (fs.lookup key) := by
  rw [member, filter_key_of_nodup h]
  cases fs.lookup key <;> rfl

theorem withoutKey_nodup (h : (fs.map fst).Nodup) (tag : String) :
    ((withoutKey tag fs).map fst).Nodup :=
  h.sublist (filter_sublist.map _)

theorem lookup_withoutKey (fs : Members) {key tag : String} (h : key ≠ tag) :
    (withoutKey tag fs).lookup key = fs.lookup key := by
  induction fs with
  | nil => rfl
  | cons f fs ih =>
    rw [lookup_cons_ite, ← ih]
    by_cases hf : f.1 = tag
    · simp [withoutKey, hf, h]
    · simp [withoutKey, hf, lookup_cons_ite]

/-! ## Reading from the value of a document

The members of a document whose keys differ are found again in its value, each one read as a map
itself. -/

theorem keys_normMembers (fs : Members) : (normMembers fs).map fst = fs.map fst := by
  rw [normMembers_eq_map, map_map]
  rfl

theorem lookup_normMembers (fs : Members) (key : String) :
    (normMembers fs).lookup key = (fs.lookup key).map norm := by
  induction fs with
  | nil => rfl
  | cons f fs ih =>
    obtain ⟨k, j⟩ := f
    rw [normMembers, lookup_cons_ite, lookup_cons_ite, ih]
    by_cases h : key = k <;> simp [h]

/-- The members of the value of a document. -/
def valueMembers (fs : Members) : Members := ofEntries (normMembers fs)

@[simp] theorem norm_obj (fs : Members) : (obj fs).norm = .obj (valueMembers fs) := by
  rw [Json.norm, valueMembers]

theorem valueMembers_nodup (fs : Members) : ((valueMembers fs).map fst).Nodup :=
  (ofEntries_sorted _).nodup_keys

theorem lookup_valueMembers (h : (fs.map fst).Nodup) (key : String) :
    (valueMembers fs).lookup key = (fs.lookup key).map norm := by
  rw [valueMembers, lookup_ofEntries (by rw [keys_normMembers]; exact h), lookup_normMembers]

@[simp] theorem member_valueMembers (h : (fs.map fst).Nodup) (key : String) :
    member key (valueMembers fs) = some ((fs.lookup key).map norm) := by
  rw [member_of_nodup (valueMembers_nodup fs), lookup_valueMembers h]

@[simp] theorem member_withoutKey (h : (fs.map fst).Nodup) {key tag : String} (hne : key ≠ tag) :
    member key (withoutKey tag (valueMembers fs)) = some ((fs.lookup key).map norm) := by
  rw [member_of_nodup (withoutKey_nodup (valueMembers_nodup fs) tag), lookup_withoutKey _ hne,
    lookup_valueMembers h]

/-- What a record leaves over comes from members of the document under keys it does not know. -/
theorem of_mem_rest {e : String × Value} (h : e ∈ (rest known fs).entries) :
    e.1 ∉ known ∧ ∃ j, (e.1, j) ∈ fs ∧ e.2 = j.toValue := by
  have hmem := mem_of_mem_ofEntries h
  obtain ⟨f, hf, rfl⟩ := mem_map.mp hmem
  obtain ⟨hf, hk⟩ := mem_filter.mp hf
  exact ⟨by simpa using hk, f.2, hf, rfl⟩

theorem get?_rest {key : String} (h : key ∈ known) (fs : Members) :
    (rest known fs).get? key = none :=
  EntryMap.get?_eq_none fun _ he heq => (of_mem_rest he).1 (heq ▸ h)

/-- Of the value of a document a record leaves over what it leaves over of the document. -/
theorem rest_valueMembers_eq (known : List String) (fs : Members) :
    rest known (valueMembers fs) =
      .ofList ((fs.filter fun f => !known.contains f.1).map fun f => (f.1, f.2.toValue)) := by
  apply EntryMap.ext
  change ofEntries (((valueMembers fs).filter fun f => !known.contains f.1).map fun f =>
    (f.1, f.2.toValue)) = ofEntries ((fs.filter fun f => !known.contains f.1).map fun f =>
    (f.1, f.2.toValue))
  rw [valueMembers, filter_ofEntries (normMembers fs) fun k => !known.contains k, ofEntries_map,
    ofEntries_map, ofEntries_of_sorted (ofEntries_sorted _), normMembers_eq_map, filter_map,
    ofEntries_map, map_map]
  refine map_congr_left fun f _ => ?_
  exact congrArg (Prod.mk f.1) (Json.norm_toValue f.2)

/-- A record that knows every key of the document leaves nothing over. -/
@[simp] theorem rest_valueMembers (h : ∀ k ∈ fs.map fst, k ∈ known) :
    rest known (valueMembers fs) = .empty := by
  have hfilter : (fs.filter fun f => !known.contains f.1) = [] := by
    rw [filter_eq_nil_iff]
    intro f hf
    simpa using h f.1 (mem_map_of_mem hf)
  rw [rest_valueMembers_eq, hfilter]
  rfl

@[simp] theorem rest_withoutKey {tag : String} (h : ∀ k ∈ fs.map fst, k = tag ∨ k ∈ known) :
    rest known (withoutKey tag (valueMembers fs)) = .empty := by
  have hfilter : ((withoutKey tag (valueMembers fs)).filter fun f => !known.contains f.1) = [] := by
    rw [filter_eq_nil_iff]
    intro f hf
    obtain ⟨hmem, hne⟩ := mem_filter.mp hf
    have hkey : f.1 ∈ fs.map fst := by
      rw [← keys_normMembers fs]
      exact mem_map_of_mem (mem_of_mem_ofEntries hmem)
    rcases h f.1 hkey with h | h
    · exact absurd h (by simpa using hne)
    · simpa using h
  rw [rest, hfilter]
  rfl

theorem mapM_map {β γ : Type*} {f : β → Option γ} {g : α → β} {w : α → γ} {xs : List α}
    (h : ∀ x ∈ xs, f (g x) = some (w x)) : (xs.map g).mapM f = some (xs.map w) := by
  rw [Outcome.mapM_eq_some, forall₂_map_left_iff, forall₂_map_right_iff, forall₂_same]
  exact h

/-- The items of a document are read one by one out of its value. -/
theorem list_norm {β γ : Type*} {f : Json → Option γ} {g : β → Json} (w : β → γ) (xs : List β)
    (h : ∀ x ∈ xs, f (g x).norm = some (w x)) : list f (arr (xs.map g)).norm = some (xs.map w) := by
  rw [norm_arr, list, map_map]
  exact mapM_map h

end Read

theorem Value.norm_tree_toValue (v : Value) : v.tree.norm.toValue = v := by
  rw [v.normal, v.toValue_tree_eq]

end Wokcore.Lib
