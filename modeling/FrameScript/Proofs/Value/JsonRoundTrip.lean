import FrameScript.Proofs.Json.WellFormed
import FrameScript.Proofs.Value.Cycles
import FrameScript.Proofs.Value.Trees
import Mathlib.Data.String.Basic

/-!
# Values from JSON and back

Data are the values that JSON has a form for: null, booleans, finite numbers, texts, and lists and
objects of data. Data that do not contain themselves come back from their JSON with the same
contents, and JSON comes back from the value that is made of it with every number as a float. What
is made is a tree of fresh lists and objects, whatever was shared before.
-/

namespace FrameScript

open Relation (ReflTransGen)

namespace Json

mutual

def withFloats : Json → Json
  | .integer n => .float (Number.ofInt n)
  | .array items => .array (itemsWithFloats items)
  | .object fields => .object (fieldsWithFloats fields)
  | j => j

def itemsWithFloats : List Json → List Json
  | [] => []
  | item :: rest => item.withFloats :: itemsWithFloats rest

def fieldsWithFloats : List (String × Json) → List (String × Json)
  | [] => []
  | (key, item) :: rest => (key, item.withFloats) :: fieldsWithFloats rest

end

theorem itemsWithFloats_eq (items : List Json) : itemsWithFloats items = items.map withFloats := by
  induction items with
  | nil => rfl
  | cons item rest ih => rw [itemsWithFloats, ih, List.map_cons]

theorem fieldsWithFloats_eq (fields : List (String × Json)) :
    fieldsWithFloats fields = fields.map fun f => (f.1, f.2.withFloats) := by
  induction fields with
  | nil => rfl
  | cons field rest ih => rw [fieldsWithFloats, ih, List.map_cons]

theorem ofInt_isFinite_of_fitsWord {n : Int} (word : fitsWord n = true) :
    (Number.ofInt n).isFinite = true := by
  refine Number.ofInt_isFinite ?_
  simp only [fitsWord, Bool.and_eq_true, decide_eq_true_eq] at word
  norm_num at word
  omega

end Json

namespace Table

variable {α : Type}

theorem insertEntry_last {key : String} {value : α} {l : List (String × α)}
    (last : ∀ e ∈ l, e.1 < key) : insertEntry key value l = l ++ [(key, value)] := by
  induction l with
  | nil => rfl
  | cons e rest ih =>
    obtain ⟨before, others⟩ := List.forall_mem_cons.mp last
    rw [insertEntry, if_neg (lt_asymm before), if_neg (ne_of_gt before), ih others,
      List.cons_append]

theorem entries_ofList {l : List (String × α)} (sorted : l.Pairwise fun a b => a.1 < b.1) :
    (ofList l).entries = l := by
  have folded (t : Table α) (sorted : (t.entries ++ l).Pairwise fun a b => a.1 < b.1) :
      (l.foldl (fun t e => t.insert e.1 e.2) t).entries = t.entries ++ l := by
    induction l generalizing t with
    | nil => simp
    | cons e rest ih =>
      have last : (t.insert e.1 e.2).entries = t.entries ++ [e] :=
        insertEntry_last fun a mem =>
          (List.pairwise_append.mp sorted).2.2 a mem e List.mem_cons_self
      rw [List.foldl_cons, ih, last, List.append_assoc, List.singleton_append]
      · exact (List.pairwise_append.mp sorted).2.1.tail
      · rw [last, List.append_assoc, List.singleton_append]
        exact sorted
  exact folded empty sorted

end Table

namespace Value

variable {h k next : Heap} {v w : Value} {vs ws : List Value} {j : Json} {js : List Json}
  {depth : Nat}

/-- The JSON of a scalar, if that has one of its own. -/
def scalarJson? : Value → Option Json
  | null => some .null
  | bool b => some (.bool b)
  | num x => if x.isFinite then some (.float x) else none
  | str s => some (.string s)
  | _ => none

/-- The values are data, and these are their JSON. -/
inductive HasJson (h : Heap) : List Value → List Json → Prop
  | nil : HasJson h [] []
  | scalar {v : Value} {vs : List Value} {j : Json} {js : List Json}
      (json : v.scalarJson? = some j) (rest : HasJson h vs js) : HasJson h (v :: vs) (j :: js)
  | list {r : ListRef} {vs : List Value} {items js : List Json}
      (parts : HasJson h ((Value.list r).parts h) items) (rest : HasJson h vs js) :
      HasJson h (.list r :: vs) (.array items :: js)
  | object {r : ObjectRef} {vs : List Value} {fields : List (String × Json)} {js : List Json}
      (keys : fields.map (·.1) = (h.object r).keys)
      (parts : HasJson h ((Value.object r).parts h) (fields.map (·.2))) (rest : HasJson h vs js) :
      HasJson h (.object r :: vs) (.object fields :: js)

theorem isScalar_of_scalarJson? (json : v.scalarJson? = some j) : v.IsScalar := by
  cases v with
  | list r | object r => cases json
  | _ => trivial

theorem scalarJson?_inj (json : v.scalarJson? = some j) (other : w.scalarJson? = some j) :
    v = w := by
  cases v <;> cases w <;> grind [scalarJson?]

theorem toJsonWithin_scalar (json : v.scalarJson? = some j) : toJsonWithin h depth v = some j := by
  cases v <;> grind [scalarJson?, toJsonWithin]

theorem scalarJson?_ne_container (v : Value) (items : List Json) (fields : List (String × Json)) :
    v.scalarJson? ≠ some (.array items) ∧ v.scalarJson? ≠ some (.object fields) := by
  cases v <;> simp [scalarJson?]

theorem scalarJson?_plain (json : v.scalarJson? = some j) :
    j.WellFormed ∧ j.withFloats = j := by
  cases v with
  | null =>
    cases json
    exact ⟨.null, rfl⟩
  | bool b =>
    cases json
    exact ⟨.bool b, rfl⟩
  | num x =>
    obtain ⟨finite, rfl⟩ : x.isFinite = true ∧ Json.float x = j := by simpa [scalarJson?] using json
    exact ⟨.float finite, rfl⟩
  | str s =>
    cases json
    exact ⟨.string s, rfl⟩
  | _ => cases json

namespace HasJson

theorem plain (json : HasJson h vs js) : ∀ j ∈ js, j.WellFormed ∧ j.withFloats = j := by
  induction json with
  | nil => simp
  | scalar json _ ih => exact List.forall_mem_cons.mpr ⟨scalarJson?_plain json, ih⟩
  | @list r vs items js _ _ ih_parts ih =>
    refine List.forall_mem_cons.mpr ⟨⟨.array fun j mem => (ih_parts j mem).1, ?_⟩, ih⟩
    have unchanged : ∀ j ∈ items, j.withFloats = id j := fun j mem => (ih_parts j mem).2
    rw [Json.withFloats, Json.itemsWithFloats_eq, List.map_congr_left unchanged, List.map_id]
  | @object r vs fields js keys _ _ ih_parts ih =>
    have each : ∀ f ∈ fields, f.2.WellFormed ∧ f.2.withFloats = f.2 := fun f mem =>
      ih_parts f.2 (List.mem_map_of_mem mem)
    have sorted : fields.Pairwise fun a b => a.1 < b.1 := by
      rw [← List.pairwise_map (f := fun f : String × Json => f.1) (R := (· < ·)), keys]
      exact List.pairwise_map.mpr (h.object r).sorted
    refine List.forall_mem_cons.mpr ⟨⟨.object sorted fun f mem => (each f mem).1, ?_⟩, ih⟩
    have unchanged : ∀ f ∈ fields, (f.1, f.2.withFloats) = id f := fun f mem => by
      rw [(each f mem).2, id]
    rw [Json.withFloats, Json.fieldsWithFloats_eq, List.map_congr_left unchanged, List.map_id]

/-- Values with the same JSON have the same contents. -/
theorem same (json : HasJson h vs js) (json' : HasJson k ws js) :
    List.Forall₂ (Same h k) vs ws := by
  induction json generalizing ws with
  | nil =>
    cases json'
    exact .nil
  | scalar scalar _ ih =>
    cases json' with
    | scalar scalar' rest' =>
      cases scalarJson?_inj scalar scalar'
      exact .cons (.scalar (isScalar_of_scalarJson? scalar)) (ih rest')
    | list => exact absurd scalar (scalarJson?_ne_container _ _ []).1
    | object => exact absurd scalar (scalarJson?_ne_container _ [] _).2
  | list _ _ ih_parts ih =>
    cases json' with
    | scalar scalar' => exact absurd scalar' (scalarJson?_ne_container _ _ []).1
    | list parts' rest' => exact .cons (.of_lists (ih_parts parts')) (ih rest')
  | object keys _ _ ih_parts ih =>
    cases json' with
    | scalar scalar' => exact absurd scalar' (scalarJson?_ne_container _ [] _).2
    | object keys' parts' rest' =>
      exact .cons (.of_objects (keys.symm.trans keys') (ih_parts parts')) (ih rest')

theorem mono {cells : List Value} (json : HasJson h vs js) (meets : Meets h vs cells)
    (grown : h.Extends next) : HasJson next vs js := by
  induction json generalizing cells with
  | nil => exact .nil
  | scalar json _ ih =>
    cases meets with
    | scalar _ rest => exact .scalar json (ih rest)
    | container stored =>
      have scalar := isScalar_of_scalarJson? json
      exact absurd stored scalar.not_stored
  | list _ _ ih_parts ih =>
    cases meets with
    | scalar scalar => cases scalar
    | container stored parts rest =>
      have kept := ih_parts parts
      rw [← grown.parts stored] at kept
      exact .list kept (ih rest)
  | object keys _ _ ih_parts ih =>
    cases meets with
    | scalar scalar => cases scalar
    | container stored parts rest =>
      have kept := ih_parts parts
      rw [← grown.parts stored] at kept
      rw [← grown.object stored] at keys
      exact .object keys kept (ih rest)

theorem append (json : HasJson h vs js) {js' : List Json} (json' : HasJson h ws js') :
    HasJson h (vs ++ ws) (js ++ js') := by
  induction json with
  | nil => exact json'
  | scalar json _ ih => exact .scalar json ih
  | list parts _ _ ih => exact .list parts ih
  | object keys parts _ _ ih => exact .object keys parts ih

end HasJson

/-- The value is data if its parts are. -/
def IsPlain : Value → Prop
  | num x => x.isFinite = true
  | function _ | native _ | error _ => False
  | _ => True

/-- All that the value leads to has a form in JSON. -/
def IsData (h : Heap) (v : Value) : Prop := ∀ w, ReflTransGen (Contains h) v w → w.IsPlain

theorem IsData.part (data : v.IsData h) (contains : Contains h v w) : w.IsData h :=
  fun u leads => data u (leads.head contains)

theorem IsData.scalarJson? (data : v.IsData h) (scalar : v.IsScalar)
    (json : toJsonWithin h depth v = some j) : v.scalarJson? = some j := by
  have plain := data v .refl
  cases v with
  | list r | object r => cases scalar
  | function r | native name | error info => cases plain
  | num x =>
    have finite : x.isFinite = true := plain
    simpa [toJsonWithin, Value.scalarJson?, finite] using json
  | _ => simpa [toJsonWithin, Value.scalarJson?] using json

theorem mapM_fields {f : Value → Option Json} {entries : List (String × Value)}
    {fields : List (String × Json)} :
    (entries.mapM fun e => (f e.2).map fun j => (e.1, j)) = some fields ↔
      fields.map (·.1) = entries.map (·.1) ∧
        (entries.map (·.2)).mapM f = some (fields.map (·.2)) := by
  induction entries generalizing fields with
  | nil => cases fields <;> simp
  | cons e rest ih =>
    cases fields with
    | nil => simp [List.mapM_cons, Option.bind_eq_some_iff]
    | cons field others =>
      simp only [List.mapM_cons, List.map_cons, Option.bind_eq_bind, Option.bind_eq_some_iff,
        Option.map_eq_some_iff, ih]
      grind

theorem HasJson.of_mapM {f : Value → Option Json}
    (each : ∀ v ∈ vs, ∀ j, f v = some j → HasJson h [v] [j]) (all : vs.mapM f = some js) :
    HasJson h vs js := by
  induction vs generalizing js with
  | nil =>
    cases all
    exact .nil
  | cons v rest ih =>
    simp only [List.mapM_cons, Option.bind_eq_bind, Option.bind_eq_some_iff] at all
    obtain ⟨j, first, others, written, same⟩ := all
    cases same
    obtain ⟨each_first, each_rest⟩ := List.forall_mem_cons.mp each
    exact (each_first j first).append (ih each_rest written)

/-- What is written of data is their JSON. -/
theorem hasJson_of_toJsonWithin (data : v.IsData h) (written : toJsonWithin h depth v = some j) :
    HasJson h [v] [j] := by
  by_cases scalar : v.IsScalar
  · exact .scalar (data.scalarJson? scalar written) .nil
  · induction depth generalizing v j with
    | zero =>
      cases v with
      | list r | object r => cases written
      | _ => exact absurd trivial scalar
    | succ depth ih =>
      have parts {p : Value} {i : Json} (contains : Contains h v p)
          (written : toJsonWithin h depth p = some i) : HasJson h [p] [i] := by
        by_cases scalar : p.IsScalar
        · exact .scalar ((data.part contains).scalarJson? scalar written) .nil
        · exact ih (data.part contains) written scalar
      cases v with
      | list r =>
        obtain ⟨items, all, rfl⟩ := Option.map_eq_some_iff.mp written
        exact .list (.of_mapM (fun _ mem _ => parts mem) all) .nil
      | object r =>
        obtain ⟨fields, all, rfl⟩ := Option.map_eq_some_iff.mp written
        obtain ⟨keys, all⟩ := mapM_fields.mp all
        exact .object keys (.of_mapM (fun _ mem _ => parts mem) all) .nil
      | _ => exact absurd trivial scalar

/-- The JSON of data is written if the depth is great enough. -/
theorem HasJson.toJsonWithin (json : HasJson h vs js) :
    ∃ depth, ∀ deeper, depth ≤ deeper → vs.mapM (Value.toJsonWithin h deeper) = some js := by
  induction json with
  | nil => exact ⟨0, fun _ _ => rfl⟩
  | scalar json _ ih =>
    obtain ⟨depth, written⟩ := ih
    refine ⟨depth, fun deeper more => ?_⟩
    rw [List.mapM_cons, toJsonWithin_scalar json, written deeper more]
    rfl
  | @list r vs items js _ _ ih_parts ih =>
    obtain ⟨inner, written⟩ := ih_parts
    obtain ⟨depth, others⟩ := ih
    refine ⟨inner + 1 + depth, fun deeper more => ?_⟩
    obtain ⟨deeper, rfl⟩ : ∃ less, deeper = less + 1 := ⟨deeper - 1, by omega⟩
    have all_items : (h.list r).toList.mapM (Value.toJsonWithin h deeper) = some items :=
      written deeper (by omega)
    rw [List.mapM_cons, others _ (by omega), Value.toJsonWithin, all_items]
    rfl
  | @object r vs fields js keys _ _ ih_parts ih =>
    obtain ⟨inner, written⟩ := ih_parts
    obtain ⟨depth, others⟩ := ih
    refine ⟨inner + 1 + depth, fun deeper more => ?_⟩
    obtain ⟨deeper, rfl⟩ : ∃ less, deeper = less + 1 := ⟨deeper - 1, by omega⟩
    have all_fields := mapM_fields.mpr ⟨keys, written deeper (by omega)⟩
    rw [List.mapM_cons, others _ (by omega), Value.toJsonWithin, all_fields]
    rfl

theorem toJsonWithin_succ (eq : toJsonWithin h depth v = some j) :
    toJsonWithin h (depth + 1) v = some j := by
  induction depth generalizing v j with
  | zero =>
    cases v with
    | list r | object r => cases eq
    | _ => exact eq
  | succ depth ih =>
    cases v with
    | list r =>
      rw [Value.toJsonWithin, Option.map_eq_some_iff] at eq ⊢
      obtain ⟨items, all, same⟩ := eq
      exact ⟨items, mapM_eq_some_mono (fun v _ j found => ih found) all, same⟩
    | object r =>
      rw [Value.toJsonWithin, Option.map_eq_some_iff] at eq ⊢
      obtain ⟨fields, all, same⟩ := eq
      refine ⟨fields, mapM_eq_some_mono (fun field _ f found => ?_) all, same⟩
      obtain ⟨inner, json, joins⟩ := Option.map_eq_some_iff.mp found
      exact Option.map_eq_some_iff.mpr ⟨inner, ih json, joins⟩
    | _ => exact eq

theorem toJsonWithin_le {deeper : Nat} (more : depth ≤ deeper)
    (eq : toJsonWithin h depth v = some j) : toJsonWithin h deeper v = some j := by
  induction more with
  | refl => exact eq
  | step _ ih => exact toJsonWithin_succ ih

theorem toJson?_of_toJsonWithin (written : toJsonWithin h depth v = some j) :
    toJson? h v = some j := by
  have ends : (textWithin h depth v).isSome := by
    rw [← isSome_toJsonWithin, written]
    rfl
  obtain ⟨text, eq⟩ := Option.isSome_iff_exists.mp ends
  have found : (toJson? h v).isSome := by
    rw [toJson?, isSome_toJsonWithin, ← text?, text?_of_textWithin eq]
    rfl
  obtain ⟨other, eq'⟩ := Option.isSome_iff_exists.mp found
  -- Both are the JSON of the greater depth.
  have deep := toJsonWithin_le (Nat.le_max_left depth h.depthBound) written
  have deep' := toJsonWithin_le (Nat.le_max_right depth h.depthBound) eq'
  rw [eq', ← deep', deep]

theorem HasJson.toJson? (json : HasJson h [v] [j]) : Value.toJson? h v = some j := by
  obtain ⟨depth, written⟩ := json.toJsonWithin
  have once := written depth (Nat.le_refl depth)
  have alone : Value.toJsonWithin h depth v = some j := by
    simpa [List.mapM_cons, Option.bind_eq_some_iff] using once
  exact toJson?_of_toJsonWithin alone

/-- The values that are built in a heap: fresh trees, with this JSON. -/
structure Builds (h next : Heap) (vs : List Value) (js : List Json) : Prop where
  grown : h.Extends next
  json : HasJson next vs js
  trees : FreshTrees h next vs

namespace Builds

variable {middle : Heap} {js' : List Json}

theorem nil (h : Heap) : Builds h h [] [] := ⟨.refl h, .nil, .nil h⟩

theorem scalar (h : Heap) (json : v.scalarJson? = some j) : Builds h h [v] [j] :=
  ⟨.refl h, .scalar json .nil, .scalar (isScalar_of_scalarJson? json)⟩

theorem append (first : Builds h middle vs js) (second : Builds middle next ws js') :
    Builds h next (vs ++ ws) (js ++ js') := by
  obtain ⟨cells, meets, -⟩ := first.trees
  exact ⟨first.grown.trans second.grown,
    (first.json.mono meets second.grown).append second.json,
    first.trees.append first.grown second.trees second.grown⟩

theorem list (built : Builds h middle vs js) :
    Builds h (middle.newList vs.toArray).1 [(middle.newList vs.toArray).2] [.array js] := by
  obtain ⟨cells, meets, -⟩ := built.trees
  have grown := middle.newList_extends vs.toArray
  have parts : (Value.list ⟨middle.lists.size⟩).parts (middle.newList vs.toArray).1 = vs := by
    rw [Value.parts, Heap.list_newList]
  refine ⟨built.grown.trans grown, .list ?_ .nil,
    built.trees.container built.grown grown ?_ ?_ parts⟩
  · rw [parts]
    exact built.json.mono meets grown
  · simp [Heap.newList, Stored]
  · exact Nat.lt_irrefl middle.lists.size

theorem object {entries : List (String × Value)} {fields : List (String × Json)}
    (sorted : entries.Pairwise fun a b => a.1 < b.1)
    (keys : fields.map (·.1) = entries.map (·.1))
    (built : Builds h middle (entries.map (·.2)) (fields.map (·.2))) :
    Builds h (middle.newObject (Table.ofList entries)).1
      [(middle.newObject (Table.ofList entries)).2] [.object fields] := by
  obtain ⟨cells, meets, -⟩ := built.trees
  have grown := middle.newObject_extends (Table.ofList entries)
  have new := Heap.object_newObject middle (Table.ofList entries)
  have parts : (Value.object ⟨middle.objects.size⟩).parts
      (middle.newObject (Table.ofList entries)).1 = entries.map (·.2) := by
    rw [Value.parts, new, Table.entries_ofList sorted]
  refine ⟨built.grown.trans grown, .object ?_ ?_ .nil,
    built.trees.container built.grown grown ?_ ?_ parts⟩
  · rw [new, Table.keys, Table.entries_ofList sorted, keys]
  · rw [parts]
    exact built.json.mono meets grown
  · simp [Heap.newObject, Stored]
  · exact Nat.lt_irrefl middle.objects.size

end Builds

theorem ofJsonItems_builds {items : List Json}
    (each : ∀ j ∈ items, ∀ h, Builds h (ofJson h j).1 [(ofJson h j).2] [j.withFloats]) :
    Builds h (ofJsonItems h items).1 (ofJsonItems h items).2 (items.map Json.withFloats) := by
  induction items generalizing h with
  | nil => exact .nil h
  | cons item rest ih =>
    obtain ⟨first, others⟩ := List.forall_mem_cons.mp each
    exact (first h).append (ih others)

theorem ofJsonFields_builds {fields : List (String × Json)}
    (each : ∀ f ∈ fields, ∀ h, Builds h (ofJson h f.2).1 [(ofJson h f.2).2] [f.2.withFloats]) :
    (ofJsonFields h fields).2.map (·.1) = fields.map (·.1) ∧
      Builds h (ofJsonFields h fields).1 ((ofJsonFields h fields).2.map (·.2))
        (fields.map fun f => f.2.withFloats) := by
  induction fields generalizing h with
  | nil => exact ⟨rfl, .nil h⟩
  | cons field rest ih =>
    obtain ⟨first, others⟩ := List.forall_mem_cons.mp each
    obtain ⟨keys, built⟩ := ih (h := (ofJson h field.2).1) others
    exact ⟨congrArg (field.1 :: ·) keys, (first h).append built⟩

/-- What is made of JSON has that JSON, with floats. -/
theorem ofJson_builds (formed : j.WellFormed) (h : Heap) :
    Builds h (ofJson h j).1 [(ofJson h j).2] [j.withFloats] := by
  induction formed generalizing h with
  | null => exact .scalar h rfl
  | bool b => exact .scalar h rfl
  | string s => exact .scalar h rfl
  | integer word => exact .scalar h (if_pos (Json.ofInt_isFinite_of_fitsWord word))
  | float finite => exact .scalar h (if_pos finite)
  | @array items _ ih =>
    have built := (ofJsonItems_builds (h := h) ih).list
    rwa [← Json.itemsWithFloats_eq] at built
  | @object fields sorted _ ih =>
    obtain ⟨keys, built⟩ := ofJsonFields_builds (h := h) ih
    rw [Json.withFloats, Json.fieldsWithFloats_eq]
    refine Builds.object ?_ ?_ ?_
    · rw [← List.pairwise_map (f := fun e : String × Value => e.1) (R := (· < ·)), keys]
      exact List.pairwise_map.mpr sorted
    · rw [keys, List.map_map]
      rfl
    · rw [List.map_map]
      exact built

/-- Data that do not contain themselves have a JSON form, and what is made of that in any heap has
the same contents; JSON is the form of what is made of it, with each number as a float. What is
made is a tree of fresh lists and objects. All JSON that a text writes is well-formed. -/
theorem json_round_trip (h : Heap) :
    (∀ v : Value, ¬ v.Cyclic h → v.IsData h → ∃ j, toJson? h v = some j ∧
      j.WellFormed ∧ ∀ k, Same h (ofJson k j).1 v (ofJson k j).2 ∧
        k.Extends (ofJson k j).1 ∧ FreshTrees k (ofJson k j).1 [(ofJson k j).2]) ∧
    (∀ j : Json, j.WellFormed → toJson? (ofJson h j).1 (ofJson h j).2 = some j.withFloats ∧
      h.Extends (ofJson h j).1 ∧ FreshTrees h (ofJson h j).1 [(ofJson h j).2]) ∧
    ∀ text j, Json.read text = .ok j → j.WellFormed := by
  refine ⟨?_, ?_, fun _ _ => Json.wellFormed_of_read⟩
  · intro v acyclic data
    have ends : (toJson? h v).isSome := by
      rw [toJson?, isSome_toJsonWithin]
      exact isSome_text?.mpr acyclic
    obtain ⟨j, written⟩ := Option.isSome_iff_exists.mp ends
    have json := hasJson_of_toJsonWithin data written
    obtain ⟨formed, unchanged⟩ := json.plain j List.mem_cons_self
    refine ⟨j, written, formed, fun k => ?_⟩
    have built := ofJson_builds formed k
    rw [unchanged] at built
    exact ⟨(List.forall₂_cons.mp (json.same built.json)).1, built.grown, built.trees⟩
  · intro j formed
    have built := ofJson_builds formed h
    exact ⟨built.json.toJson?, built.grown, built.trees⟩

/-- A heap with a list that has another list twice. -/
def sharedHeap : Heap := ⟨#[#[num (.ofNat 1)], #[list ⟨0⟩, list ⟨0⟩]], #[], #[]⟩

/-- The list comes back as two; a JSON object comes back with its integer as a float, and so does
the JSON of a text. -/
theorem json_round_trip_shared :
    (∃ j, toJson? sharedHeap (list ⟨1⟩) = some j ∧
      Same sharedHeap (ofJson sharedHeap j).1 (list ⟨1⟩) (ofJson sharedHeap j).2 ∧
      FreshTrees sharedHeap (ofJson sharedHeap j).1 [(ofJson sharedHeap j).2]) ∧
    (let made := ofJson sharedHeap (.object [("a", .integer 1), ("b", .array [])])
    toJson? made.1 made.2 =
      some (.object [("a", .float (Number.ofInt 1)), ("b", .array [])])) ∧
    ∃ j, Json.read "[1, 2.5e-3]" = .ok j ∧
      toJson? (ofJson sharedHeap j).1 (ofJson sharedHeap j).2 = some j.withFloats := by
  obtain ⟨back, forth, reads⟩ := json_round_trip sharedHeap
  refine ⟨?_, ?_, ?_⟩
  · have ends : (text? sharedHeap (list ⟨1⟩)).isSome := by decide +kernel
    have within : ∀ w, ReflTransGen (Contains sharedHeap) (list ⟨1⟩) w →
        w = list ⟨1⟩ ∨ w = list ⟨0⟩ ∨ w = num (.ofNat 1) := by
      intro w leads
      induction leads with
      | refl => exact .inl rfl
      | tail _ contains ih =>
        rcases ih with rfl | rfl | rfl
        · exact .inr (.inl (by simpa [Contains, parts, sharedHeap, Heap.list] using contains))
        · exact .inr (.inr (by simpa [Contains, parts, sharedHeap, Heap.list] using contains))
        · cases contains
    have data : (list ⟨1⟩).IsData sharedHeap := by
      intro w leads
      rcases within w leads with rfl | rfl | rfl
      · trivial
      · trivial
      · exact (by decide +kernel : (Number.ofNat 1).isFinite = true)
    obtain ⟨j, written, -, each⟩ := back (list ⟨1⟩) (isSome_text?.mp ends) data
    obtain ⟨same, -, trees⟩ := each sharedHeap
    exact ⟨j, written, same, trees⟩
  · have formed : (Json.object [("a", .integer 1), ("b", .array [])]).WellFormed := by
      refine .object (by decide +kernel) fun f mem => ?_
      rcases List.mem_cons.mp mem with rfl | mem
      · exact .integer (by decide +kernel)
      · cases List.mem_singleton.mp mem
        exact .array (by simp)
    exact (forth _ formed).1
  · have writes : (Json.ofText? "[1, 2.5e-3]").isSome := by decide +kernel
    cases read : Json.read "[1, 2.5e-3]" with
    | error failure =>
      rw [Json.ofText?, read] at writes
      cases writes
    | ok j => exact ⟨j, rfl, (forth j (reads _ j read)).1⟩

end Value
end FrameScript
