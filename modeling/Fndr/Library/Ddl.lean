import Mathlib.Data.List.Basic

set_option autoImplicit false

/-! # Schemas and the statements that change them

A schema is the list of its objects in the order they were created, as SQLite keeps them. A
statement is refused for what SQLite refuses it for: a name in use, a table or a column that is not
there, a column that `ALTER TABLE` cannot add. Whatever a statement refers to by text only (a
default, a trigger's actions, an index's filter) is kept as that text.

`execAll` runs a script; a schema that a script ends in is determined by the script
(`execAll_append`), so a prefix of a script that runs through runs through as well. No statement
takes anything away, so a script that creates something is not run twice (`execAll_again`). -/

namespace Ddl

/-- The declared type of a column. -/
inductive Affinity
  | text
  | integer
  | real
  deriving DecidableEq

/-- What deleting a referenced row does. -/
inductive OnDelete
  | cascade
  | setNull
  deriving DecidableEq

/-- What a column's declaration can ask for. -/
inductive ColumnConstraint
  | primaryKey
  | autoincrement
  | notNull
  | unique
  | default (literal : String)
  | references (table column : String) (onDelete : OnDelete)
  deriving DecidableEq

/-- A column of a table. -/
structure Column where
  name : String
  affinity : Affinity
  constraints : List ColumnConstraint
  deriving DecidableEq

/-- What a table's declaration can ask for beside its columns. -/
inductive TableConstraint
  | primaryKey (columns : List String)
  | unique (columns : List String)
  deriving DecidableEq

/-- When a trigger fires. -/
inductive TriggerEvent
  | afterInsert
  | afterDelete
  | afterUpdateOf (column : String)
  deriving DecidableEq

/-- What a schema is made of. -/
inductive SchemaObject
  | table (name : String) (columns : List Column) (constraints : List TableConstraint)
  | virtualTable (name moduleName : String) (arguments : List String)
  | index (name table : String) (columns : List String) (filter : Option String)
  | trigger (name : String) (event : TriggerEvent) (table : String) (actions : List String)
  deriving DecidableEq

/-- The objects in the order of their creation. -/
abbrev Schema := List SchemaObject

/-- The statements of a migration. -/
inductive Statement
  | create (object : SchemaObject)
  | addColumn (table : String) (column : Column)
  /-- `INSERT INTO target(..) SELECT .. FROM source`, which changes rows only. -/
  | insertSelect (target source : String)
  deriving DecidableEq

/-! ## Lookups -/

/-- Tables, virtual tables and indexes share one space of names. -/
def SchemaObject.relationName : SchemaObject → Option String
  | .table name _ _ => some name
  | .virtualTable name _ _ => some name
  | .index name _ _ _ => some name
  | .trigger .. => none

/-- A table or an index goes by the name. -/
def Schema.hasRelation (schema : Schema) (name : String) : Bool :=
  schema.any (fun object => object.relationName == some name)

/-- A table goes by the name. -/
def Schema.hasTable (schema : Schema) (name : String) : Bool :=
  schema.any fun
    | .table table _ _ => table == name
    | .virtualTable table _ _ => table == name
    | _ => false

/-- A trigger goes by the name. -/
def Schema.hasTrigger (schema : Schema) (name : String) : Bool :=
  schema.any fun
    | .trigger trigger _ _ _ => trigger == name
    | _ => false

/-- The column names of a table. -/
def Schema.columnsOf (schema : Schema) (table : String) : List String :=
  schema.flatMap fun
    | .table name columns _ => if name == table then columns.map Column.name else []
    | _ => []

/-- A column `ALTER TABLE` can add: not a key, and with a default when it takes no `NULL`. -/
def Column.addable (column : Column) : Bool :=
  !column.constraints.contains .primaryKey && !column.constraints.contains .unique &&
    (!column.constraints.contains .notNull || column.constraints.any fun
      | .default _ => true
      | _ => false)

/-! ## Statements -/

/-- Why `CREATE` of an object is refused. -/
def Schema.refusal (schema : Schema) : SchemaObject → Option String
  | .table name _ _ =>
      if schema.hasRelation name then some s!"table {name} already exists" else none
  | .virtualTable name _ _ =>
      if schema.hasRelation name then some s!"table {name} already exists" else none
  | .index name table columns _ =>
      if schema.hasRelation name then some s!"index {name} already exists"
      else if !schema.hasTable table then some s!"no such table: main.{table}"
      else if !columns.all (schema.columnsOf table).contains then some "no such column"
      else none
  | .trigger name _ table _ =>
      if schema.hasTrigger name then some s!"trigger {name} already exists"
      else if !schema.hasTable table then some s!"no such table: main.{table}"
      else none

/-- The table with one more column. -/
def SchemaObject.withColumn (table : String) (column : Column) : SchemaObject → SchemaObject
  | .table name columns constraints =>
      if name = table then .table name (columns ++ [column]) constraints
      else .table name columns constraints
  | object => object

/-- The schema after a statement, or the message it is refused with. -/
def Schema.exec (schema : Schema) : Statement → Except String Schema
  | .create object =>
      match schema.refusal object with
      | some message => .error message
      | none => .ok (schema ++ [object])
  | .addColumn table column =>
      if !schema.hasTable table then .error s!"no such table: {table}"
      else if (schema.columnsOf table).contains column.name then
        .error s!"duplicate column name: {column.name}"
      else if !column.addable then .error s!"cannot add column {column.name}"
      else .ok (schema.map (SchemaObject.withColumn table column))
  | .insertSelect target source =>
      if !schema.hasTable target then .error s!"no such table: {target}"
      else if !schema.hasTable source then .error s!"no such table: {source}"
      else .ok schema

/-- A script, statement by statement. -/
def execAll : List Statement → Schema → Except String Schema
  | [], schema => .ok schema
  | statement :: script, schema =>
      match schema.exec statement with
      | .ok schema => execAll script schema
      | .error message => .error message

/-! ## Scripts -/

theorem execAll_append (first second : List Statement) (schema : Schema) :
    execAll (first ++ second) schema = (match execAll first schema with
      | .ok mid => execAll second mid
      | .error message => .error message) := by
  induction first generalizing schema with
  | nil => rfl
  | cons statement first ih =>
      simp only [List.cons_append, execAll]
      cases schema.exec statement with
      | error message => rfl
      | ok mid => exact ih mid

/-- A script runs through from where a script before it ended. -/
theorem execAll_append_ok {first second : List Statement} {schema mid : Schema}
    (h : execAll first schema = .ok mid) :
    execAll (first ++ second) schema = execAll second mid := by
  rw [execAll_append, h]

/-- The beginning of a script that runs through runs through. -/
theorem execAll_beginning {first second : List Statement} {schema after : Schema}
    (h : execAll (first ++ second) schema = .ok after) :
    ∃ mid, execAll first schema = .ok mid ∧ execAll second mid = .ok after := by
  rw [execAll_append] at h
  cases hfirst : execAll first schema with
  | error message =>
      rw [hfirst] at h
      cases h
  | ok mid =>
      rw [hfirst] at h
      exact ⟨mid, rfl, h⟩

/-! ## Scripts that cannot be run again

No statement takes anything away, so the second run of a script that creates a table or an index
finds the name in use. -/

theorem Schema.hasRelation_append (schema : Schema) (object : SchemaObject) (name : String) :
    Schema.hasRelation (schema ++ [object]) name
      = (schema.hasRelation name || object.relationName == some name) := by
  simp [hasRelation]

theorem SchemaObject.relationName_withColumn (table : String) (column : Column)
    (object : SchemaObject) : (object.withColumn table column).relationName = object.relationName := by
  cases object with
  | table name columns constraints =>
      unfold withColumn
      dsimp only
      split <;> rfl
  | virtualTable | index | trigger => rfl

theorem Schema.hasRelation_map_withColumn (schema : Schema) (table : String) (column : Column)
    (name : String) : Schema.hasRelation (schema.map (SchemaObject.withColumn table column)) name
      = schema.hasRelation name := by
  unfold hasRelation
  rw [List.any_map]
  refine congrArg (List.any schema) (funext fun object => ?_)
  rw [Function.comp_apply, SchemaObject.relationName_withColumn]

/-- A statement leaves every relation there. -/
theorem Schema.hasRelation_exec {schema after : Schema} {statement : Statement} {name : String}
    (h : schema.exec statement = .ok after) (hname : schema.hasRelation name = true) :
    after.hasRelation name = true := by
  cases statement with
  | create object =>
      unfold exec at h
      dsimp only at h
      split at h
      · cases h
      · cases h
        rw [hasRelation_append, hname, Bool.true_or]
  | addColumn table column =>
      unfold exec at h
      dsimp only at h
      split_ifs at h
      cases h
      rw [hasRelation_map_withColumn]
      exact hname
  | insertSelect target source =>
      unfold exec at h
      dsimp only at h
      split_ifs at h
      cases h
      exact hname

theorem execAll_hasRelation {script : List Statement} {schema after : Schema} {name : String}
    (h : execAll script schema = .ok after) (hname : schema.hasRelation name = true) :
    after.hasRelation name = true := by
  induction script generalizing schema with
  | nil =>
      cases h
      exact hname
  | cons statement script ih =>
      rw [execAll] at h
      split at h
      · next next hnext => exact ih h (Schema.hasRelation_exec hnext hname)
      · cases h

/-- The statement creates a table or an index of that name. -/
def Statement.Creates (statement : Statement) (name : String) : Prop :=
  ∃ object, statement = .create object ∧ object.relationName = some name

theorem Statement.Creates.exec {statement : Statement} {name : String} (h : statement.Creates name)
    {schema after : Schema} (hexec : schema.exec statement = .ok after) :
    after.hasRelation name = true := by
  obtain ⟨object, rfl, hname⟩ := h
  unfold Schema.exec at hexec
  dsimp only at hexec
  split at hexec
  · cases hexec
  · cases hexec
    rw [Schema.hasRelation_append, hname, beq_self_eq_true, Bool.or_true]

theorem Statement.Creates.refused {statement : Statement} {name : String}
    (h : statement.Creates name) {schema : Schema} (hname : schema.hasRelation name = true) :
    ∃ message, schema.exec statement = .error message := by
  obtain ⟨object, rfl, hobject⟩ := h
  have hrefusal : ∃ message, schema.refusal object = some message := by
    cases object with
    | table | virtualTable | index =>
        cases hobject
        exact ⟨_, if_pos hname⟩
    | trigger => cases hobject
  obtain ⟨message, hrefusal⟩ := hrefusal
  exact ⟨message, by rw [Schema.exec, hrefusal]⟩

/-- Once a script has created a relation it has it. -/
theorem execAll_creates {script : List Statement} {schema after : Schema} {name : String}
    (h : execAll script schema = .ok after) (hcreates : ∃ statement ∈ script, statement.Creates name) :
    after.hasRelation name = true := by
  induction script generalizing schema with
  | nil =>
      obtain ⟨_, hmem, -⟩ := hcreates
      cases hmem
  | cons statement script ih =>
      rw [execAll] at h
      split at h
      · next next hnext =>
        obtain ⟨creator, hmem, hcreator⟩ := hcreates
        rcases List.mem_cons.1 hmem with rfl | hmem
        · exact execAll_hasRelation h (hcreator.exec hnext)
        · exact ih h ⟨creator, hmem, hcreator⟩
      · cases h

/-- Where its name is in use a script is refused, at the statement that creates it at the latest. -/
theorem execAll_refused {script : List Statement} {schema : Schema} {name : String}
    (hcreates : ∃ statement ∈ script, statement.Creates name)
    (hname : schema.hasRelation name = true) :
    ∃ message, execAll script schema = .error message := by
  induction script generalizing schema with
  | nil =>
      obtain ⟨_, hmem, -⟩ := hcreates
      cases hmem
  | cons statement script ih =>
      rw [execAll]
      split
      · next next hnext =>
        obtain ⟨creator, hmem, hcreator⟩ := hcreates
        rcases List.mem_cons.1 hmem with rfl | hmem
        · obtain ⟨message, hrefused⟩ := hcreator.refused hname
          rw [hrefused] at hnext
          cases hnext
        · exact ih ⟨creator, hmem, hcreator⟩ (Schema.hasRelation_exec hnext hname)
      · next message _ => exact ⟨message, rfl⟩

/-- **A script that creates a relation is not run twice,** whatever is run in between. -/
theorem execAll_again {script more : List Statement} {schema mid after : Schema} {name : String}
    (hcreates : ∃ statement ∈ script, statement.Creates name)
    (h : execAll script schema = .ok mid) (hmore : execAll more mid = .ok after) :
    ∃ message, execAll script after = .error message :=
  execAll_refused hcreates (execAll_hasRelation hmore (execAll_creates h hcreates))

end Ddl
