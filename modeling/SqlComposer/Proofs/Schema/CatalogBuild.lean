import SqlComposer.Proofs.Script.ExceptResults
import SqlComposer.Schema.Catalog

/-!
# The catalogs that tables make

Tables are registered one by one, and a name that is taken or a table without primary key ends the
registration; only then the relations are looked at. What tables make a catalog can nevertheless be
said of the whole set, and so can what the catalog holds under a name: neither depends on the order
of the tables.
-/

namespace SqlComposer.Catalog

/-- Tables make a catalog if their names are distinct, their relations lead to tables among them,
and, where the settings insist on it, each has a column that belongs to its primary key. -/
structure Sound (settings : CatalogSettings) (tables : List Table) : Prop where
  distinct : (tables.map Table.name).Nodup
  related : ∀ table ∈ tables, ∀ relation ∈ table.relations,
    relation.table ∈ tables.map Table.name
  keyed : settings.keyless = .refuse →
    ∀ table ∈ tables, ∃ column ∈ table.columns, column.primaryKey

variable {settings : CatalogSettings} {tables registered all others : List Table} {table : Table}
  {name : String}

theorem Sound.perm (sound : Sound settings tables) (order : others.Perm tables) :
    Sound settings others where
  distinct := (order.map Table.name).nodup_iff.2 sound.distinct
  related table held relation declared :=
    (order.map Table.name).mem_iff.2 (sound.related table (order.mem_iff.1 held) relation declared)
  keyed strict table held := sound.keyed strict table (order.mem_iff.1 held)

/-! ## Registering -/

theorem primaryKeys_isEmpty_iff :
    table.primaryKeys.isEmpty = true ↔ ¬∃ column ∈ table.columns, column.primaryKey := by
  simp [Table.primaryKeys]

/-- Registration goes on as long as the next table is keyed, if it has to be, and its name is free;
what is registered in the end are the tables in their schemas behind those that were there. -/
theorem register_eq_ok_iff : register settings registered tables = .ok all ↔
    (settings.keyless = .refuse → ∀ table ∈ tables, ∃ column ∈ table.columns, column.primaryKey) ∧
    (tables.map Table.name).Nodup ∧
    (∀ table ∈ tables, table.name ∉ registered.map Table.name) ∧
    all = registered ++ tables.map (placed settings) := by
  induction tables generalizing registered with
  | nil =>
    have hend : register settings registered [] = .ok all ↔ all = registered := by
      simp [register, @eq_comm _ all]
    simp [hend]
  | cons table rest ih =>
    have htaken : (registered.any fun other ↦ other.name == table.name) = true ↔
        table.name ∈ registered.map Table.name := by simp
    unfold register
    split
    · rename_i hkeyless
      rw [Bool.and_eq_true, primaryKeys_isEmpty_iff, beq_iff_eq] at hkeyless
      refine ⟨fun h ↦ (nomatch h), fun ⟨hkeyed, _⟩ ↦ ?_⟩
      exact absurd (hkeyed hkeyless.2 table List.mem_cons_self) hkeyless.1
    · rename_i hkeyed
      rw [Bool.and_eq_true, primaryKeys_isEmpty_iff, beq_iff_eq] at hkeyed
      split
      · rename_i hname
        rw [htaken] at hname
        refine ⟨fun h ↦ (nomatch h), fun ⟨_, _, hfree, _⟩ ↦ ?_⟩
        exact absurd hname (hfree table List.mem_cons_self)
      · rename_i hname
        rw [htaken] at hname
        have hplaced : (placed settings table).name = table.name := rfl
        rw [ih]
        simp only [List.forall_mem_cons, List.map_cons, List.nodup_cons, List.map_append,
          List.map_nil, List.mem_append, List.mem_singleton, hplaced, List.append_assoc,
          List.singleton_append, not_or]
        grind

/-- No relation strays just if all of them lead to one of the tables. -/
theorem strayRelation?_eq_none_iff : strayRelation? tables = none ↔
    ∀ table ∈ tables, ∀ relation ∈ table.relations,
      relation.table ∈ tables.map Table.name := by
  unfold strayRelation?
  simp only [List.findSome?_eq_none_iff, ite_eq_left_iff, reduceCtorEq, imp_false, not_not,
    List.any_eq_true, beq_iff_eq, List.mem_map]

/-- Tables in their schemas keep their names and relations. -/
theorem strayRelation?_placed_eq_none_iff :
    strayRelation? (tables.map (placed settings)) = none ↔
      ∀ table ∈ tables, ∀ relation ∈ table.relations,
        relation.table ∈ tables.map Table.name := by
  have hnames : (tables.map (placed settings)).map Table.name = tables.map Table.name := by
    rw [List.map_map]
    rfl
  rw [strayRelation?_eq_none_iff, hnames, List.forall_mem_map]
  rfl

theorem build_eq_ok_iff {catalog : Catalog} : build settings tables = .ok catalog ↔
    Sound settings tables ∧ catalog = ⟨tables.map (placed settings)⟩ := by
  unfold build
  rw [bind_eq_ok]
  constructor
  · rintro ⟨all, hregister, hbuild⟩
    obtain ⟨hkeyed, hdistinct, -, rfl⟩ := register_eq_ok_iff.1 hregister
    rw [List.nil_append] at hbuild
    split at hbuild
    · cases hbuild
    · rename_i hrelated
      exact ⟨⟨hdistinct, strayRelation?_placed_eq_none_iff.1 hrelated, hkeyed⟩,
        (Except.ok.inj hbuild).symm⟩
  · rintro ⟨sound, rfl⟩
    refine ⟨tables.map (placed settings), register_eq_ok_iff.2 ?_, ?_⟩
    · exact ⟨sound.keyed, sound.distinct, by simp, rfl⟩
    · rw [strayRelation?_placed_eq_none_iff.2 sound.related]

/-! ## Looking up -/

theorem table?_placed (distinct : (tables.map Table.name).Nodup) (held : table ∈ tables) :
    table? ⟨tables.map (placed settings)⟩ table.name = some (placed settings table) := by
  unfold table?
  induction tables with
  | nil => cases held
  | cons first rest ih =>
    rw [List.map_cons, List.nodup_cons] at distinct
    rw [List.map_cons, List.find?_cons]
    rcases List.mem_cons.1 held with rfl | hrest
    · rw [show (placed settings table).name = table.name from rfl, beq_self_eq_true]
    · have hother : first.name ≠ table.name := fun same ↦
        distinct.1 (same ▸ List.mem_map_of_mem hrest)
      rw [show (placed settings first).name = first.name from rfl, beq_false_of_ne hother]
      exact ih distinct.2 hrest

theorem table?_eq_none (absent : name ∉ tables.map Table.name) :
    table? ⟨tables.map (placed settings)⟩ name = none := by
  unfold table?
  rw [List.find?_eq_none, List.forall_mem_map]
  intro table held same
  exact absent (List.mem_map.2 ⟨table, held, beq_iff_eq.1 same⟩)

/-- The look-up is the same for any order of the tables. -/
theorem table?_perm (distinct : (tables.map Table.name).Nodup) (order : others.Perm tables) :
    table? ⟨others.map (placed settings)⟩ name = table? ⟨tables.map (placed settings)⟩ name := by
  have hnames := order.map Table.name
  by_cases hname : name ∈ tables.map Table.name
  · obtain ⟨table, held, rfl⟩ := List.mem_map.1 hname
    rw [table?_placed distinct held, table?_placed (hnames.nodup_iff.2 distinct)
      (order.mem_iff.2 held)]
  · rw [table?_eq_none hname, table?_eq_none (mt hnames.mem_iff.1 hname)]

/-- Tables make a catalog exactly if they are sound. It holds each of them under its name, in the
schema of the settings if it has none of its own, and nothing under any other name; and the tables
in another order make one that cannot be told apart from it. -/
theorem build_exact (settings : CatalogSettings) (tables : List Table) :
    ((∃ catalog, build settings tables = .ok catalog) ↔ Sound settings tables) ∧
    ∀ catalog, build settings tables = .ok catalog →
      (∀ table ∈ tables, catalog.table? table.name =
        some (if table.schema = none then { table with schema := settings.schema } else table)) ∧
      (∀ name, name ∉ tables.map Table.name → catalog.table? name = none) ∧
      ∀ others : List Table, others.Perm tables →
        ∃ reordered, build settings others = .ok reordered ∧
          ∀ name, reordered.table? name = catalog.table? name := by
  have hbuild (catalog : Catalog) : build settings tables = .ok catalog ↔
      Sound settings tables ∧ catalog = ⟨tables.map (placed settings)⟩ := build_eq_ok_iff
  refine ⟨by simp [hbuild], fun catalog built ↦ ?_⟩
  obtain ⟨sound, rfl⟩ := (hbuild catalog).1 built
  refine ⟨fun table held ↦ ?_, fun name absent ↦ table?_eq_none absent, fun others order ↦ ?_⟩
  · rw [table?_placed sound.distinct held]
    obtain ⟨_, schema, _, _, _⟩ := table
    cases schema <;> rfl
  · exact ⟨_, build_eq_ok_iff.2 ⟨sound.perm order, rfl⟩,
      fun name ↦ table?_perm sound.distinct order⟩

/-- People know each other and keep pets, each in a schema of its own. -/
def person : Table :=
  { Table.named "person" with
    schema := some "family"
    columns := [{ Column.plain "id" .integer with primaryKey := true }]
    relations := [⟨"friend", .belongsTo, "person", "friendId", "id"⟩,
      ⟨"pets", .hasMany, "pet", "ownerId", "id"⟩] }

def pet : Table :=
  { Table.named "pet" with
    columns := [{ Column.plain "id" .integer with primaryKey := true }]
    relations := [⟨"owner", .belongsTo, "person", "ownerId", "id"⟩] }

/-- Relations lead to a table that is registered later, to one registered before, and back to their
own. Pets take the schema of the settings. -/
theorem build_exact_household : ∃ catalog reordered,
    build ⟨.refuse, some "home"⟩ [person, pet] = .ok catalog ∧
    catalog.table? "person" = some person ∧
    catalog.table? "pet" = some { pet with schema := some "home" } ∧
    catalog.table? "house" = none ∧
    build ⟨.refuse, some "home"⟩ [pet, person] = .ok reordered ∧
    ∀ name, reordered.table? name = catalog.table? name := by
  obtain ⟨hsound, hcatalog⟩ := build_exact ⟨.refuse, some "home"⟩ [person, pet]
  obtain ⟨catalog, hbuild⟩ := hsound.2 ⟨by decide, by decide, fun _ ↦ by decide⟩
  obtain ⟨hheld, habsent, hreorder⟩ := hcatalog catalog hbuild
  obtain ⟨reordered, hreordered, hsame⟩ := hreorder [pet, person] (List.Perm.swap person pet [])
  exact ⟨catalog, reordered, hbuild, hheld person List.mem_cons_self,
    hheld pet (List.mem_cons_of_mem person List.mem_cons_self), habsent "house" (by decide),
    hreordered, hsame⟩

end SqlComposer.Catalog
