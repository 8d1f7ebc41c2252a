import Mathlib.Data.List.Basic
import Workflow.Proofs.Json.Path

/-!
# The laws of putting a value under a path

What is put under a path is found there and nothing that parts from the path has changed, the last
value under one path is the one that counts, and values under paths that part from each other may be
put in either order. Of the objects that are passed each one keeps its keys in their order, and
gains at most the key that leads on, behind the others.
-/

set_option autoImplicit false

namespace Workflow

/-- Equal up to the order of keys, in an object and in the objects under its keys. -/
inductive Json.SameUpToOrder : Json → Json → Prop where
  | refl (v : Json) : SameUpToOrder v v
  | object {fields others : Fields} : fields.keys.Perm others.keys →
    (∀ key v w, fields.get? key = some v → others.get? key = some w → SameUpToOrder v w) →
    SameUpToOrder (.object fields) (.object others)

namespace Fields
variable {u v w : Json} {key other : String} {fields : Fields}

theorem insert_insert : insert key v (insert key u fields) = insert key v fields := by
  induction fields with
  | nil => simp [insert]
  | cons entry fields ih =>
    obtain ⟨k, x⟩ := entry
    by_cases hk : k = key
    · simp [insert, hk]
    · simp [insert, hk, ih]

theorem keys_insert_comm (h : key ≠ other) :
    (insert other w (insert key v fields)).keys.Perm
      (insert key v (insert other w fields)).keys := by
  simp only [keys_insert]
  by_cases hkey : key ∈ fields.keys
  · by_cases hother : other ∈ fields.keys <;> simp [hkey, hother]
  · by_cases hother : other ∈ fields.keys
    · simp [hkey, hother]
    · have hswap := (List.Perm.swap other key []).append_left fields.keys
      simpa [hkey, hother, h, h.symm] using hswap

theorem insert_comm (h : key ≠ other) :
    Json.SameUpToOrder (.object (insert other w (insert key v fields)))
      (.object (insert key v (insert other w fields))) := by
  refine .object (keys_insert_comm h) fun k x y hx hy => ?_
  have hsame : get? k (insert other w (insert key v fields)) =
      get? k (insert key v (insert other w fields)) := by
    simp only [get?_insert]
    by_cases hk : key = k
    · simp [← hk, h.symm]
    · simp [hk]
  obtain rfl := Option.some.inj (hx.symm.trans (hsame.trans hy))
  exact .refl x

theorem insert_congr (h : v.SameUpToOrder w) :
    Json.SameUpToOrder (.object (insert key v fields)) (.object (insert key w fields)) := by
  have hkeys : (insert key v fields).keys.Perm (insert key w fields).keys := by
    rw [keys_insert, keys_insert]
  refine .object hkeys fun k x y hx hy => ?_
  rw [get?_insert] at hx hy
  by_cases hk : key = k
  · rw [if_pos hk, Option.some.injEq] at hx hy
    rwa [← hx, ← hy]
  · rw [if_neg hk] at hx hy
    obtain rfl := Option.some.inj (hx.symm.trans hy)
    exact .refl x

end Fields

namespace Json

/-- The fields of the object to which a path leads; none if there is no object. -/
def fieldsAt (v : Json) (path : List String) : Fields := ((v.lookup path).getD .null).fields

theorem fieldsAt_cons (v : Json) (key : String) (path : List String) :
    v.fieldsAt (key :: path) = ((Fields.get? key v.fields).getD .null).fieldsAt path := by
  have hnull : null.fieldsAt path = [] := by cases path <;> rfl
  cases v with
  | object fields =>
    rw [fieldsAt, lookup, Json.fields]
    cases Fields.get? key fields with
    | none => exact hnull.symm
    | some inner => rfl
  | _ => exact hnull.symm

/-- A value as it is once another one has been put under a path in it. The empty path replaces the
value itself. -/
def put (v : Json) : List String → Json → Json
  | [], _ => v
  | key :: path, old =>
    .object (old.fields.insert key (put v path ((Fields.get? key old.fields).getD .null)))

theorem object_insertAt (v : Json) {path : List String} (hpath : path ≠ []) (fields : Fields) :
    object (fields.insertAt v path) = put v path (.object fields) := by
  induction path generalizing fields with
  | nil => exact absurd rfl hpath
  | cons key path ih =>
    cases path with
    | nil => rfl
    | cons next path =>
      have hinner := ih (List.cons_ne_nil next path) ((Fields.get? key fields).getD .null).fields
      rw [Fields.insertAt, put, Json.fields, hinner]
      rfl

theorem put_put (u v old : Json) (path : List String) :
    put v path (put u path old) = put v path old := by
  induction path generalizing old with
  | nil => rfl
  | cons key path ih =>
    simp only [put, fields, Fields.get?_insert, if_pos, Option.getD_some, ih, Fields.insert_insert]

theorem put_comm {p q : List String} (h : Apart p q) (v w old : Json) :
    SameUpToOrder (put w q (put v p old)) (put v p (put w q old)) := by
  induction p generalizing q old with
  | nil => exact absurd List.nil_prefix h.1
  | cons key p ih =>
    cases q with
    | nil => exact absurd List.nil_prefix h.2
    | cons other q =>
      simp only [put, fields, Fields.get?_insert]
      by_cases hkey : key = other
      · subst hkey
        simp only [if_pos, Option.getD_some, Fields.insert_insert]
        exact Fields.insert_congr (ih h.tail _)
      · rw [if_neg hkey, if_neg (Ne.symm hkey)]
        exact Fields.insert_comm hkey

/-- On the way, one key is set in the object that is passed. -/
theorem exists_lookup_put (v old : Json) (way : List String) (key : String) (rest : List String) :
    ∃ u, (put v (way ++ key :: rest) old).lookup way =
      some (.object ((old.fieldsAt way).insert key u)) := by
  induction way generalizing old with
  | nil => exact ⟨_, rfl⟩
  | cons first way ih =>
    obtain ⟨u, hu⟩ := ih ((Fields.get? first old.fields).getD .null)
    refine ⟨u, ?_⟩
    rw [List.cons_append, put, lookup, Fields.get?_insert, if_pos rfl, Option.bind_some, hu,
      fieldsAt_cons]

end Json

namespace Fields
variable {p : List String}

theorem insertAt_insertAt (hp : p ≠ []) (u v : Json) (fields : Fields) :
    insertAt v p (insertAt u p fields) = insertAt v p fields := by
  apply Json.object.inj
  rw [Json.object_insertAt v hp, Json.object_insertAt u hp, Json.put_put, Json.object_insertAt v hp]

theorem insertAt_comm {q : List String} (h : Apart p q) (v w : Json) (fields : Fields) :
    Json.SameUpToOrder (.object (insertAt w q (insertAt v p fields)))
      (.object (insertAt v p (insertAt w q fields))) := by
  have hp : p ≠ [] := by
    rintro rfl
    exact h.1 List.nil_prefix
  have hq : q ≠ [] := by
    rintro rfl
    exact h.2 List.nil_prefix
  rw [Json.object_insertAt w hq, Json.object_insertAt v hp, Json.object_insertAt v hp,
    Json.object_insertAt w hq]
  exact Json.put_comm h v w _

/-- The object that is passed before a key of the path, with its keys as they are afterwards. -/
theorem keys_on_way (v : Json) (fields : Fields) (way : List String) (key : String)
    (rest : List String) :
    let before := ((Json.object fields).fieldsAt way).keys
    ∃ passed : Fields,
      (Json.object (insertAt v (way ++ key :: rest) fields)).lookup way = some (.object passed) ∧
      passed.keys = if key ∈ before then before else before ++ [key] := by
  have hpath : way ++ key :: rest ≠ [] := by simp
  obtain ⟨u, hu⟩ := Json.exists_lookup_put v (.object fields) way key rest
  refine ⟨_, ?_, keys_insert key u _⟩
  rw [Json.object_insertAt v hpath, hu]

/-- Putting a value under a path is an update: it is found there, it replaces what was put there
before, it leaves all other paths and the order of the keys on the way as they were, and it commutes
with updates under other paths up to the order of keys. -/
theorem insertAt_lawful (fields : Fields) (hp : p ≠ []) (v : Json) :
    (Json.object (insertAt v p fields)).lookup p = some v ∧
    (∀ q, Apart p q →
      (Json.object (insertAt v p fields)).lookup q = (Json.object fields).lookup q) ∧
    (∀ u, insertAt v p (insertAt u p fields) = insertAt v p fields) ∧
    (∀ way key rest, p = way ++ key :: rest →
      let before := ((Json.object fields).fieldsAt way).keys
      ∃ passed : Fields,
        (Json.object (insertAt v p fields)).lookup way = some (.object passed) ∧
        passed.keys = if key ∈ before then before else before ++ [key]) ∧
    ∀ w q, Apart p q → Json.SameUpToOrder (.object (insertAt w q (insertAt v p fields)))
      (.object (insertAt v p (insertAt w q fields))) := by
  refine ⟨lookup_insertAt v hp fields, fun q h => lookup_insertAt_of_apart v h fields,
    fun u => insertAt_insertAt hp u v fields, ?_, fun w q h => insertAt_comm h v w fields⟩
  rintro way key rest rfl
  exact keys_on_way v fields way key rest

/-- The fields of a loop, with a place for its actions. -/
def loopFields : Fields := [("actions", .null), ("expression", .string "@true")]

/-- The place is no object yet. Which of two actions comes first in it is up to which is put in
first. -/
theorem loopFields_updated :
    let first := ["actions", "First"]
    let second := ["actions", "Second"]
    let updated := insertAt (.int 1) first loopFields
    first ≠ [] ∧ Apart first second ∧ updated.keys = ["actions", "expression"] ∧
      (Json.object updated).lookup first = some (.int 1) ∧
      (Json.object updated).lookup ["expression"] = some (.string "@true") ∧
      insertAt (.int 1) first (insertAt (.int 2) first loopFields) = updated ∧
      Json.SameUpToOrder (.object (insertAt (.int 2) second updated))
        (.object (insertAt (.int 1) first (insertAt (.int 2) second loopFields))) := by
  intro first second updated
  have hfirst : first ≠ [] := by decide
  have hapart : Apart first second := by decide
  obtain ⟨hfound, hkept, hlast, -, hcomm⟩ := insertAt_lawful loopFields hfirst (.int 1)
  exact ⟨hfirst, hapart, by decide, hfound, hkept ["expression"] (by decide), hlast _,
    hcomm _ _ hapart⟩

end Fields

end Workflow
