import Mathlib.Data.List.Induction
import Mathlib.Data.List.Nodup
import Sanad.Common.Json.Encode

/-! # Values of any type

What is left of a value that Go decodes into an `any` with `UseNumber` and encodes again: objects
become maps, which lose the order of their members and all but the last member of a name; a string is
written anew; a number stays as it was written.
-/

namespace Json

variable {α : Type}

/-- Set a key of a map. A Go map is kept in the order of its keys, in which `json.Marshal` writes it.
-/
def setKey (k : Bytes) (v : α) : List (Bytes × α) → List (Bytes × α)
  | [] => [(k, v)]
  | (k', v') :: m =>
    if k = k' then (k, v) :: m
    else if k < k' then (k, v) :: (k', v') :: m
    else (k', v') :: setKey k v m

/-- The map with the given entries. Of several for one key the last one counts. -/
def mapOf (entries : List (Bytes × α)) : List (Bytes × α) :=
  entries.foldl (fun m e => setKey e.1 e.2 m) []

theorem setKey_perm {k : Bytes} {v : α} {m : List (Bytes × α)} (h : k ∉ m.map Prod.fst) :
    (setKey k v m).Perm ((k, v) :: m) := by
  induction m with
  | nil => exact List.Perm.refl _
  | cons e m ih =>
      obtain ⟨k', v'⟩ := e
      rw [List.map_cons, List.mem_cons, not_or] at h
      rw [setKey, if_neg h.1]
      split
      · exact List.Perm.refl _
      · exact ((ih h.2).cons _).trans (List.Perm.swap _ _ _)

/-- Without a repeated key, a map has the entries it was made of. -/
theorem mapOf_perm {entries : List (Bytes × α)} (h : (entries.map Prod.fst).Nodup) :
    (mapOf entries).Perm entries := by
  induction entries using List.reverseRecOn with
  | nil => exact List.Perm.refl _
  | append_singleton entries e ih =>
      rw [List.map_append, List.map_singleton] at h
      obtain ⟨hnodup, -, hdisj⟩ := List.nodup_append.mp h
      have hperm := ih hnodup
      have hnew : e.1 ∉ (mapOf entries).map Prod.fst := by
        rw [(hperm.map Prod.fst).mem_iff]
        intro hmem
        exact hdisj _ hmem _ (List.mem_singleton_self _) rfl
      rw [mapOf, List.foldl_append, List.foldl_cons, List.foldl_nil, ← mapOf]
      exact (setKey_perm hnew).trans ((hperm.cons e).trans (List.perm_append_singleton _ _).symm)
/-- The object that is written for a map. -/
def ofMap (m : List (Bytes × Json)) : Json := .object (m.map fun e => (quote e.1, e.2))

mutual

/-- A value decoded into an `any` and encoded again. -/
def normalize : Json → Json
  | .string lit => .ofString (unquote lit)
  | .array vs => .array (normalizeElems vs)
  | .object ms => .ofMap (mapOf (normalizeMembers ms))
  | v => v

def normalizeElems : List Json → List Json
  | [] => []
  | v :: vs => normalize v :: normalizeElems vs

def normalizeMembers : List (StringLit × Json) → List (Bytes × Json)
  | [] => []
  | (k, v) :: ms => (unquote k, normalize v) :: normalizeMembers ms

end

end Json
