import FrameScript.Proofs.Host.Operations
import FrameScript.Proofs.Value.Storage
import Mathlib.Data.List.TakeWhile
import Mathlib.Data.String.Basic

/-!
# Bound natives

Natives are bound one after another, in the order of their names, into the globals that are
there. A plain native is its global, unless a table of that name comes later and takes its place.
A member of a table is found in the object that is then the table's global; where scripts have
given one object to two tables, both have the members of both, and of two members of one name the
one with the greater table is found.
-/

namespace FrameScript

namespace Table

variable {α : Type} {key : String}

theorem mem_keys_insert (t : Table α) (name : String) (value : α) :
    key ∈ (t.insert name value).keys ↔ key = name ∨ key ∈ t.keys := by
  have entries (l : List (String × α)) : key ∈ (insertEntry name value l).map (·.1) ↔
      key = name ∨ key ∈ l.map (·.1) := by
    induction l with
    | nil => simp [insertEntry]
    | cons e rest ih =>
      obtain ⟨k, v⟩ := e
      unfold insertEntry
      split
      · simp
      · split
        · rename_i same
          simp [same]
        · rw [List.map_cons, List.mem_cons, ih, List.map_cons, List.mem_cons]
          exact or_left_comm
  exact entries t.entries

theorem mem_keys_foldl_insert (l : List (String × α)) (t : Table α) :
    key ∈ (l.foldl (fun t e => t.insert e.1 e.2) t).keys ↔ key ∈ t.keys ∨ key ∈ l.map (·.1) := by
  induction l generalizing t with
  | nil => simp
  | cons e rest ih =>
    rw [List.foldl_cons, ih, mem_keys_insert, List.map_cons, List.mem_cons, or_assoc]
    exact or_left_comm

end Table

theorem Plugin.mem_keys_foldl_register (plugins : List Plugin) (natives : Natives)
    {name : String} : name ∈ (plugins.foldl Plugin.register natives).keys ↔
      name ∈ natives.keys ∨ ∃ p ∈ plugins, name ∈ p.natives.map (·.1) := by
  induction plugins generalizing natives with
  | nil => simp
  | cons p rest ih =>
    rw [List.foldl_cons, ih, Plugin.register, Table.mem_keys_foldl_insert, or_assoc,
      List.exists_mem_cons_iff]

namespace Natives

variable {name other table table' member : String}

theorem toList_of_split (split : splitName? name = some (table, member)) :
    name.toList = table.toList ++ '.' :: member.toList ∧ '.' ∉ table.toList := by
  unfold splitName? at split
  dsimp only at split
  split at split
  · rename_i c rest found
    cases split
    have point : c = '.' := by
      have stopped := List.head?_dropWhile_not (p := fun c => c ≠ '.') (l := name.toList)
      rw [found] at stopped
      simpa using stopped
    refine ⟨?_, fun mem => ?_⟩
    · subst point
      rw [String.toList_ofList, String.toList_ofList, ← found, List.takeWhile_append_dropWhile]
    · rw [String.toList_ofList] at mem
      simpa using List.mem_takeWhile_imp mem
  · cases split

theorem split_table (split : splitName? name = some (table, member)) :
    splitName? table = none := by
  have plain := (toList_of_split split).2
  unfold splitName?
  have all : table.toList.dropWhile (fun c => c ≠ '.') = [] := by
    rw [List.dropWhile_eq_nil_iff]
    intro c mem
    simp only [ne_eq, decide_not, Bool.not_eq_eq_eq_not, Bool.not_true, decide_eq_false_iff_not]
    rintro rfl
    exact plain mem
  simp only [all]

theorem plain_ne (plain : splitName? other = none)
    (split : splitName? name = some (table, member)) : other ≠ name := by
  rintro rfl
  rw [plain] at split
  cases split

theorem split_inj (split : splitName? name = some (table, member))
    (same : splitName? other = some (table, member)) : name = other :=
  String.toList_injective ((toList_of_split split).1.trans (toList_of_split same).1.symm)

/-- A table's name comes before the names of its members. -/
theorem table_lt (split : splitName? name = some (table, member)) : table < name := by
  rw [String.lt_iff_toList_lt, (toList_of_split split).1]
  have longer : table.toList ++ [] < table.toList ++ '.' :: member.toList :=
    List.append_left_lt (List.nil_lt_cons ..)
  rwa [List.append_nil] at longer

variable {b start : Bindings} {names : List String} {r : ObjectRef}

theorem bindOne_plain (split : splitName? name = none) :
    bindOne b name = { b with globals := b.globals.insert name (.native name) } := by
  simp only [bindOne, split]

theorem bindOne_member (split : splitName? name = some (table, member))
    (global : b.globals.get? table = some (.object r)) :
    bindOne b name = { b with heap := b.heap.setField r member (.native name) } := by
  simp only [bindOne, split, global]

theorem bindOne_table (split : splitName? name = some (table, member))
    (global : ∀ r, b.globals.get? table ≠ some (.object r)) :
    bindOne b name =
      ⟨(b.heap.newObject (Table.empty.insert member (.native name))).1,
        b.globals.insert table (.object ⟨b.heap.objects.size⟩)⟩ := by
  simp only [bindOne, split]
  rfl

def Bindings.StandsFor (b : Bindings) (name : String) (r : ObjectRef) (member : String) : Prop :=
  ∃ table, splitName? name = some (table, member) ∧ b.globals.get? table = some (.object r)

/-- What holds once names are bound, the least first. -/
structure Bound (start : Bindings) (names : List String) (b : Bindings) : Prop where
  stored : ∀ {name r}, b.globals.get? name = some (.object r) → (Value.object r).Stored b.heap
  plain : ∀ {name}, name ∈ names → splitName? name = none →
    (∀ other ∈ names, ∀ member, splitName? other ≠ some (name, member)) →
    b.globals.get? name = some (.native name)
  /-- A member is the native of the greatest of its names. -/
  member : ∀ {name table member}, name ∈ names → splitName? name = some (table, member) →
    ∃ r last, b.globals.get? table = some (.object r) ∧
      (b.heap.object r).get? member = some (.native last) ∧
      last ∈ names ∧ b.StandsFor last r member ∧
      ∀ other ∈ names, b.StandsFor other r member → other ≤ last
  /-- Objects stay globals under names that are no natives. -/
  kept : ∀ {table r}, table ∉ names → start.globals.get? table = some (.object r) →
    b.globals.get? table = some (.object r)
  /-- Only what shared an object before does so afterwards. -/
  shared : ∀ {table table' r}, splitName? table = none → splitName? table' = none →
    table ≠ table' → b.globals.get? table = some (.object r) →
    b.globals.get? table' = some (.object r) →
    (table ∉ names ∧ start.globals.get? table = some (.object r)) ∧
      table' ∉ names ∧ start.globals.get? table' = some (.object r)

namespace Bound

theorem nil (stored : ∀ {name r}, start.globals.get? name = some (.object r) →
    (Value.object r).Stored start.heap) : Bound start [] start where
  stored := stored
  plain mem := by cases mem
  member mem := by cases mem
  kept _ found := found
  shared _ _ _ found found' := by simp [found, found']

variable (bound : Bound start names b) (before : ∀ other ∈ names, other < name)

include before

theorem not_table : ∀ other ∈ names, ∀ member, splitName? other ≠ some (name, member) :=
  fun other mem _ split => lt_asymm (before other mem) (table_lt split)

theorem le_last : ∀ other ∈ names ++ [name], other ≤ name := by
  intro other mem
  rcases List.mem_append.mp mem with earlier | now
  · exact le_of_lt (before other earlier)
  · exact le_of_eq (List.mem_singleton.mp now)

include bound

theorem bind_plain (split : splitName? name = none) :
    Bound start (names ++ [name])
      { b with globals := b.globals.insert name (.native name) } := by
  have object {t r} : (b.globals.insert name (.native name)).get? t = some (.object r) ↔
      t ≠ name ∧ b.globals.get? t = some (.object r) := by
    rw [Table.get?_insert]
    split <;> simp_all
  constructor
  case stored => exact fun found => bound.stored (object.mp found).2
  case plain =>
    intro n mem plain alone
    rw [Table.get?_insert]
    split
    · rename_i same
      rw [same]
    · rename_i apart
      have earlier : n ∈ names := by simpa [apart] using mem
      exact bound.plain earlier plain fun o mem => alone o (List.mem_append_left _ mem)
  case member =>
    intro n t m mem dotted
    have earlier : n ∈ names := by simpa [(plain_ne split dotted).symm] using mem
    obtain ⟨r, last, found, holds, lastMem, ⟨t', lastSplit, lastFound⟩, greatest⟩ :=
      bound.member earlier dotted
    -- The global that is replaced is no table of a name so far: such a name comes later.
    have apart {o t m} (mem : o ∈ names) (split : splitName? o = some (t, m)) : t ≠ name :=
      fun same => not_table before o mem m (same ▸ split)
    refine ⟨r, last, object.mpr ⟨apart earlier dotted, found⟩, holds,
      List.mem_append_left _ lastMem,
      ⟨t', lastSplit, object.mpr ⟨apart lastMem lastSplit, lastFound⟩⟩, ?_⟩
    rintro o mem ⟨t', oSplit, oFound⟩
    have earlier : o ∈ names := by simpa [(plain_ne split oSplit).symm] using mem
    exact greatest o earlier ⟨t', oSplit, (object.mp oFound).2⟩
  case kept =>
    intro t r out found
    simp only [List.mem_append, List.mem_singleton, not_or] at out
    exact object.mpr ⟨out.2, bound.kept out.1 found⟩
  case shared =>
    intro t t' r plain plain' apart found found'
    obtain ⟨other, found⟩ := object.mp found
    obtain ⟨other', found'⟩ := object.mp found'
    simpa [other, other'] using bound.shared plain plain' apart found found'

theorem bind_member (split : splitName? name = some (table, member))
    (global : b.globals.get? table = some (.object r)) :
    Bound start (names ++ [name])
      { b with heap := b.heap.setField r member (.native name) } := by
  have stored : r.slot < b.heap.objects.size := bound.stored global
  constructor
  case stored =>
    intro n x found
    have old : x.slot < b.heap.objects.size := bound.stored found
    simpa [Value.Stored, Heap.setField] using old
  case plain =>
    intro n mem plain alone
    have apart : n ≠ name := plain_ne plain split
    have earlier : n ∈ names := by simpa [apart] using mem
    exact bound.plain earlier plain fun o mem => alone o (List.mem_append_left _ mem)
  case member =>
    intro n t m mem dotted
    by_cases written : b.globals.get? t = some (.object r) ∧ m = member
    · obtain ⟨found, rfl⟩ := written
      refine ⟨r, name, found, ?_, by simp, ⟨table, split, global⟩, ?_⟩
      · rw [Heap.object_setField stored, Table.get?_insert, if_pos rfl]
      · exact fun o mem _ => le_last before o mem
    · have earlier : n ∈ names := by
        rcases List.mem_append.mp mem with earlier | now
        · exact earlier
        · rw [List.mem_singleton.mp now, split] at dotted
          cases dotted
          exact absurd ⟨global, rfl⟩ written
      obtain ⟨x, last, found, holds, lastMem, stands, greatest⟩ := bound.member earlier dotted
      have other (same : x = r) : m ≠ member := fun named => written ⟨same ▸ found, named⟩
      refine ⟨x, last, found, ?_, List.mem_append_left _ lastMem, stands, ?_⟩
      · by_cases same : x = r
        · rw [same, Heap.object_setField stored, Table.get?_insert, if_neg (other same), ← same]
          exact holds
        · rw [Heap.object_setField_ne same]
          exact holds
      · rintro o mem ⟨t', oSplit, oFound⟩
        rcases List.mem_append.mp mem with earlier | now
        · exact greatest o earlier ⟨t', oSplit, oFound⟩
        · rw [List.mem_singleton.mp now, split] at oSplit
          cases oSplit
          rw [global] at oFound
          cases oFound
          exact absurd rfl (other rfl)
  case kept =>
    intro t x out found
    exact bound.kept (fun mem => out (List.mem_append_left _ mem)) found
  case shared =>
    intro t t' x plain plain' apart found found'
    simpa [plain_ne plain split, plain_ne plain' split] using
      bound.shared plain plain' apart found found'

theorem bind_table (split : splitName? name = some (table, member))
    (global : ∀ r, b.globals.get? table ≠ some (.object r)) :
    Bound start (names ++ [name])
      ⟨(b.heap.newObject (Table.empty.insert member (.native name))).1,
        b.globals.insert table (.object ⟨b.heap.objects.size⟩)⟩ := by
  have object {t r} : (b.globals.insert table (.object ⟨b.heap.objects.size⟩)).get? t =
      some (.object r) ↔ (t = table ∧ r = ⟨b.heap.objects.size⟩) ∨
        (t ≠ table ∧ b.globals.get? t = some (.object r)) := by
    rw [Table.get?_insert]
    split
    · rename_i same
      simp [same, eq_comm]
    · rename_i apart
      simp [apart]
  -- No global of before is the new object, so its members are those of the new table alone.
  have old {t r} (found : b.globals.get? t = some (.object r)) :
      t ≠ table ∧ r ≠ ⟨b.heap.objects.size⟩ := by
    refine ⟨fun same => global r (same ▸ found), fun same => ?_⟩
    have stored : r.slot < b.heap.objects.size := bound.stored found
    rw [same] at stored
    exact Nat.lt_irrefl _ stored
  constructor
  case stored =>
    intro n r found
    rcases object.mp found with ⟨-, rfl⟩ | ⟨-, found⟩
    · simp [Value.Stored, Heap.newObject]
    · have stored : r.slot < b.heap.objects.size := bound.stored found
      simpa [Value.Stored, Heap.newObject] using Nat.lt_succ_of_lt stored
  case plain =>
    intro n mem plain alone
    have apart : n ≠ name := plain_ne plain split
    have untabled : n ≠ table := by
      rintro rfl
      exact alone name (by simp) member split
    have earlier : n ∈ names := by simpa [apart] using mem
    rw [Table.get?_insert, if_neg untabled]
    exact bound.plain earlier plain fun o mem => alone o (List.mem_append_left _ mem)
  case member =>
    intro n t m mem dotted
    rcases List.mem_append.mp mem with earlier | now
    · obtain ⟨r, last, found, holds, lastMem, ⟨t', lastSplit, lastFound⟩, greatest⟩ :=
        bound.member earlier dotted
      refine ⟨r, last, object.mpr (.inr ⟨(old found).1, found⟩), ?_,
        List.mem_append_left _ lastMem,
        ⟨t', lastSplit, object.mpr (.inr ⟨(old lastFound).1, lastFound⟩)⟩, ?_⟩
      · rw [(b.heap.newObject_extends _).object (bound.stored found)]
        exact holds
      · rintro o mem ⟨t', oSplit, oFound⟩
        rcases object.mp oFound with ⟨-, fresh⟩ | ⟨untabled, oFound⟩
        · exact absurd fresh (old found).2
        · rcases List.mem_append.mp mem with earlier | now
          · exact greatest o earlier ⟨t', oSplit, oFound⟩
          · rw [List.mem_singleton.mp now, split] at oSplit
            cases oSplit
            exact absurd rfl untabled
    · rw [List.mem_singleton.mp now, split] at dotted
      cases dotted
      refine ⟨_, name, object.mpr (.inl ⟨rfl, rfl⟩), ?_, by simp,
        ⟨table, split, object.mpr (.inl ⟨rfl, rfl⟩)⟩, ?_⟩
      · rw [Heap.object_newObject, Table.get?_insert, if_pos rfl]
      · exact fun o mem _ => le_last before o mem
  case kept =>
    intro t r out found
    have found := bound.kept (fun mem => out (List.mem_append_left _ mem)) found
    exact object.mpr (.inr ⟨(old found).1, found⟩)
  case shared =>
    intro t t' r plain plain' apart found found'
    rcases object.mp found with ⟨rfl, rfl⟩ | ⟨-, found⟩
    · rcases object.mp found' with ⟨rfl, -⟩ | ⟨-, found'⟩
      · exact absurd rfl apart
      · exact absurd rfl (old found').2
    · rcases object.mp found' with ⟨-, rfl⟩ | ⟨-, found'⟩
      · exact absurd rfl (old found).2
      · simpa [plain_ne plain split, plain_ne plain' split] using
          bound.shared plain plain' apart found found'

theorem bindOne : Bound start (names ++ [name]) (bindOne b name) := by
  rcases split : splitName? name with _ | ⟨table, member⟩
  · rw [bindOne_plain split]
    exact bound.bind_plain before split
  · by_cases global : ∃ r, b.globals.get? table = some (.object r)
    · obtain ⟨r, global⟩ := global
      rw [bindOne_member split global]
      exact bound.bind_member before split global
    · rw [not_exists] at global
      rw [bindOne_table split global]
      exact bound.bind_table before split global

omit bound before

theorem foldl {rest : List String} (sorted : (names ++ rest).Pairwise (· < ·))
    (bound : Bound start names b) : Bound start (names ++ rest) (rest.foldl Natives.bindOne b) := by
  induction rest generalizing names b with
  | nil => simpa using bound
  | cons name rest ih =>
    have before : ∀ other ∈ names, other < name := fun other mem =>
      (List.pairwise_append.mp sorted).2.2 other mem name List.mem_cons_self
    have next := bound.bindOne before
    simpa using ih (by simpa using sorted) next

end Bound

theorem bind_bound (natives : Natives)
    (stored : ∀ {name r}, start.globals.get? name = some (.object r) →
      (Value.object r).Stored start.heap) : Bound start natives.keys (natives.bind start) := by
  have sorted : natives.keys.Pairwise (· < ·) := List.pairwise_map.mpr natives.sorted
  exact (Bound.nil stored).foldl sorted

/-- What a name of a native leads to: a global, or a member of the object that is one. -/
def Bindings.reach? (b : Bindings) (name : String) : Option Value :=
  match splitName? name with
  | none => b.globals.get? name
  | some (table, member) =>
    match b.globals.get? table with
    | some (.object r) => (b.heap.object r).get? member
    | _ => none

/-- When natives of these names are bound over the globals, the first one hides the second. -/
inductive Hides (names : List String) (globals : Table Value) : String → String → Prop
  /-- A table takes the place of a plain native. -/
  | table {name table member : String} (split : splitName? name = some (table, member)) :
      Hides names globals name table
  /-- Two tables are one object, and the greater name of a member is bound later. -/
  | shared {name other table table' member : String} {r : ObjectRef}
      (split : splitName? name = some (table, member))
      (split' : splitName? other = some (table', member)) (later : other < name)
      (free : table ∉ names) (free' : table' ∉ names)
      (global : globals.get? table = some (.object r))
      (global' : globals.get? table' = some (.object r)) : Hides names globals name other

theorem Hides.lt {globals : Table Value} (hides : Hides names globals other name) :
    name < other := by
  cases hides with
  | table split => exact table_lt split
  | shared _ _ later => exact later

theorem reach?_plain (split : splitName? name = none) : b.reach? name = b.globals.get? name := by
  simp only [Bindings.reach?, split]

theorem reach?_member (split : splitName? name = some (table, member))
    (global : b.globals.get? table = some (.object r)) :
    b.reach? name = (b.heap.object r).get? member := by
  simp only [Bindings.reach?, split, global]

namespace Bound

variable (bound : Bound start names b)

include bound

/-- Of a member's names, the native of the greatest is found. -/
theorem found (mem : name ∈ names) (split : splitName? name = some (table, member)) :
    ∃ r last, b.globals.get? table = some (.object r) ∧
      (b.heap.object r).get? member = some (.native last) ∧
      last ∈ names ∧ (last = name ∨ Hides names start.globals last name) ∧
      ∀ other ∈ names, Hides names start.globals other name → other ≤ last := by
  obtain ⟨r, last, found, holds, lastMem, ⟨table', lastSplit, lastFound⟩, greatest⟩ :=
    bound.member mem split
  refine ⟨r, last, found, holds, lastMem, ?_, ?_⟩
  · rcases lt_or_eq_of_le (greatest name mem ⟨table, split, found⟩) with later | same
    · have apart : table ≠ table' := by
        rintro rfl
        exact absurd (split_inj split lastSplit) (ne_of_lt later)
      obtain ⟨⟨free, global⟩, free', global'⟩ :=
        bound.shared (split_table split) (split_table lastSplit) apart found lastFound
      exact .inr (.shared lastSplit split later free' free global' global)
    · exact .inl same.symm
  · rintro other otherMem (⟨split'⟩ | ⟨split', again, -, free', free, global', global⟩)
    · exact absurd rfl (plain_ne (split_table split') split)
    · rw [split] at again
      cases again
      have same := bound.kept free global
      rw [found] at same
      cases same
      exact greatest other otherMem ⟨_, split', bound.kept free' global'⟩

/-- A native is found under its name unless another one hides it. -/
theorem reach?_eq_native (mem : name ∈ names) :
    b.reach? name = some (.native name) ↔
      ∀ other ∈ names, ¬ Hides names start.globals other name := by
  rcases split : splitName? name with _ | ⟨table, member⟩
  · rw [reach?_plain split]
    constructor
    · intro reached other otherMem hides
      cases hides with
      | table split' =>
        obtain ⟨r, -, global, -⟩ := bound.found otherMem split'
        rw [reached] at global
        cases global
      | shared _ split' =>
        rw [split] at split'
        cases split'
    · intro seen
      exact bound.plain mem split fun other otherMem member split' =>
        seen other otherMem (.table split')
  · obtain ⟨r, last, found, holds, lastMem, owner, greatest⟩ := bound.found mem split
    rw [reach?_member split found, holds]
    constructor
    · intro same other otherMem hides
      cases same
      exact absurd hides.lt (not_lt.mpr (greatest other otherMem hides))
    · intro seen
      rcases owner with same | hides
      · rw [same]
      · exact absurd hides (seen last lastMem)

variable {again : Bindings}

theorem standsFor_again (anew : Bound b names again)
    (split : splitName? name = some (table, member))
    {r r' : ObjectRef} (found : b.globals.get? table = some (.object r))
    (found' : again.globals.get? table = some (.object r')) :
    again.StandsFor other r' member ↔ b.StandsFor other r member := by
  have plain := split_table split
  constructor
  · rintro ⟨table', split', global⟩
    by_cases same : table = table'
    · exact ⟨table, same ▸ split', found⟩
    · obtain ⟨⟨-, old⟩, -, old'⟩ := anew.shared plain (split_table split') same found' global
      rw [found] at old
      cases old
      exact ⟨table', split', old'⟩
  · rintro ⟨table', split', global⟩
    by_cases same : table = table'
    · exact ⟨table, same ▸ split', found'⟩
    · obtain ⟨⟨free, -⟩, free', -⟩ := bound.shared plain (split_table split') same found global
      have old := anew.kept free found
      rw [found'] at old
      cases old
      exact ⟨table', split', anew.kept free' global⟩

/-- Binding anew leaves every name with the native that it had. -/
theorem reach?_again (anew : Bound b names again) (mem : name ∈ names) (native : String) :
    again.reach? name = some (.native native) ↔ b.reach? name = some (.native native) := by
  rcases split : splitName? name with _ | ⟨table, member⟩
  · by_cases table : ∃ other ∈ names, ∃ member, splitName? other = some (name, member)
    · obtain ⟨other, otherMem, member, split'⟩ := table
      obtain ⟨r, -, found, -⟩ := bound.found otherMem split'
      obtain ⟨r', -, found', -⟩ := anew.found otherMem split'
      simp [reach?_plain split, found, found']
    · have alone : ∀ other ∈ names, ∀ member, splitName? other ≠ some (name, member) :=
        fun other mem member split => table ⟨other, mem, member, split⟩
      rw [reach?_plain split, reach?_plain split, bound.plain mem split alone,
        anew.plain mem split alone]
  · obtain ⟨r, last, found, holds, lastMem, stands, greatest⟩ := bound.member mem split
    obtain ⟨r', last', found', holds', lastMem', stands', greatest'⟩ := anew.member mem split
    have above : last' ≤ last :=
      greatest last' lastMem' ((bound.standsFor_again anew split found found').mp stands')
    have below : last ≤ last' :=
      greatest' last lastMem ((bound.standsFor_again anew split found found').mpr stands)
    rw [reach?_member split found, reach?_member split found', holds, holds',
      le_antisymm above below]

end Bound

end Natives

namespace Host

open Natives (Hides)

def bindings (host : Host) : Natives.Bindings := ⟨host.world.heap, host.globals⟩

theorem init_bindings (host : Host) :
    host.init.bindings = host.init.natives.bind host.bindings := by
  unfold init
  dsimp only
  split <;> rfl

theorem init_natives (host : Host) : host.init.natives =
    host.plugins.foldl Plugin.register Natives.withSuspend := by
  unfold init
  dsimp only
  split <;> rfl

theorem init_plugins (host : Host) : host.init.plugins = host.plugins := by
  unfold init
  dsimp only
  split <;> rfl

theorem init_bound (host : Host) (stored : ∀ {name r},
    host.globals.get? name = some (.object r) → (Value.object r).Stored host.world.heap) :
    Natives.Bound host.bindings host.init.natives.keys host.init.bindings := by
  rw [init_bindings]
  exact Natives.bind_bound _ stored

/-- The natives of an initialized host are those of the library, `suspend` and those of the
plugins. Each is found under its name unless another one hides it: a table in the place of its
global, or the same member of a table that is the same object. The native that is found for a
member is that of the greatest of its names. Initializing the host once more leaves every name with
the native that it had. -/
theorem init_reaches (host : Host) (stored : ∀ name r,
    host.globals.get? name = some (.object r) → (Value.object r).Stored host.world.heap) :
    let names := host.init.natives.keys
    (∀ name, name ∈ names ↔ name ∈ Natives.withSuspend.keys ∨
      ∃ p ∈ host.plugins, name ∈ p.natives.map (·.1)) ∧
    (∀ name ∈ names, host.init.bindings.reach? name = some (.native name) ↔
      ∀ other ∈ names, ¬ Hides names host.globals other name) ∧
    (∀ name ∈ names, ∀ table member, Natives.splitName? name = some (table, member) →
      ∃ r last, host.init.globals.get? table = some (.object r) ∧
        (host.init.world.heap.object r).get? member = some (.native last) ∧
        last ∈ names ∧ (last = name ∨ Hides names host.globals last name) ∧
        ∀ other ∈ names, Hides names host.globals other name → other ≤ last) ∧
    host.init.init.natives = host.init.natives ∧
    ∀ name ∈ names, ∀ native, host.init.init.bindings.reach? name = some (.native native) ↔
      host.init.bindings.reach? name = some (.native native) := by
  have bound := host.init_bound (stored _ _)
  have natives : host.init.init.natives = host.init.natives := by
    rw [init_natives, init_natives, init_plugins]
  have anew := host.init.init_bound bound.stored
  rw [natives] at anew
  refine ⟨fun name => ?_, fun name mem => bound.reach?_eq_native mem,
    fun name mem table member split => bound.found mem split, natives,
    fun name mem native => bound.reach?_again anew mem native⟩
  rw [init_natives]
  exact Plugin.mem_keys_foldl_register host.plugins Natives.withSuspend

def idlePlugin (name : String) : Plugin :=
  ⟨name, [(name, Native.pure fun _ _ => .value .null)], fun _ => false⟩

/-- A host with a native for a table `Zoo`, which a script has made the same object as `Math`. -/
def zooHost : Option Host :=
  (Host.new .allDue 200 .collecting [idlePlugin "Zoo.floor"]).performAll? 100
    [.init, .runSource "zoo" "Zoo = Math"]

/-- Once two tables are one object, their members of one name are one: the greater name's. -/
theorem init_reaches_zoo : ∃ host, zooHost = some host ∧
    (∀ name r, host.globals.get? name = some (.object r) →
      (Value.object r).Stored host.world.heap) ∧
    host.init.bindings.reach? "Math.floor" ≠ some (.native "Math.floor") ∧
    host.init.bindings.reach? "print" = some (.native "print") ∧
    host.init.init.bindings.reach? "print" = some (.native "print") := by
  have checks : (zooHost.map fun host => decide
      (host.globals.get? "Math" = some (.object ⟨0⟩) ∧
        host.globals.get? "Zoo" = some (.object ⟨0⟩) ∧
        (∀ e ∈ host.globals.entries, e.2 = .object ⟨0⟩ ∨ e.2.typeName = "function") ∧
        0 < host.world.heap.objects.size ∧
        (∀ name ∈ ["Math.floor", "Zoo.floor", "print"], name ∈ host.init.natives.keys) ∧
        (∀ name ∈ ["Math", "Zoo"], name ∉ host.init.natives.keys) ∧
        ∀ name ∈ host.init.natives.keys,
          (Natives.splitName? name).map (·.1) ≠ some "print")) = some true := by
    decide +kernel
  obtain ⟨host, begins, facts⟩ := Option.map_eq_some_iff.mp checks
  obtain ⟨math, zoo, objects, size, registered, free, untabled⟩ := of_decide_eq_true facts
  have stored : ∀ name r, host.globals.get? name = some (.object r) →
      (Value.object r).Stored host.world.heap := by
    intro name r found
    rcases objects _ (Table.mem_of_get? found) with first | function
    · cases (first : Value.object r = .object ⟨0⟩)
      exact size
    · simp [Value.typeName] at function
  obtain ⟨-, reaches, -, -, again⟩ := init_reaches host stored
  have print : host.init.bindings.reach? "print" = some (.native "print") := by
    refine (reaches "print" (registered _ (by simp))).mpr fun other mem hides => ?_
    have plain : Natives.splitName? "print" = none := by decide +kernel
    cases hides with
    | table split => exact untabled other mem (by rw [split, Option.map_some])
    | shared _ split =>
      rw [plain] at split
      cases split
  have split : Natives.splitName? "Zoo.floor" = some ("Zoo", "floor") := by decide +kernel
  have hidden : Hides host.init.natives.keys host.globals "Zoo.floor" "Math.floor" :=
    .shared split (by decide +kernel) (by decide +kernel)
      (free "Zoo" (by simp)) (free "Math" (by simp)) zoo math
  refine ⟨host, begins, stored, fun reached => ?_, print,
    (again _ (registered _ (by simp)) _).mpr print⟩
  exact (reaches _ (registered _ (by simp))).mp reached _ (registered _ (by simp)) hidden

/-- Not every native is found under its name: `print` is not when there is a `print.raw`. -/
theorem init_hides : ¬ ∀ host : Host,
    (∀ name r, host.globals.get? name = some (.object r) →
      (Value.object r).Stored host.world.heap) →
    ∀ name ∈ host.init.natives.keys, host.init.bindings.reach? name = some (.native name) := by
  intro all
  have print := all (Host.new .allDue 200 .collecting [idlePlugin "print.raw"])
    (fun name r found => by cases found) "print" (by decide +kernel)
  revert print
  decide +kernel

end Host
end FrameScript
