import InterWeave.Lib.Fallible
import InterWeave.Lib.OrderedMap

/-!
A small part of SQL, enough for migrations that rebuild tables: tables with column constraints and
unique keys, ids that a sequence remembers, and statements that create, copy, drop and rename.
-/

namespace Sql

open Std (ExtTreeMap)

inductive Value where
  | null
  | int (value : Int)
  | text (value : String)
  | blob (value : List UInt8)
  deriving DecidableEq, Repr

namespace Value

def length : Value → Option Nat
  | .null => none
  | .int value => some (toString value).length
  | .text value => some value.length
  | .blob value => some value.length

def ifNull : Value → Value
  | .null => .text ""
  | value => value

end Value

abbrev Cells := List (String × Value)

def get (cells : Cells) (name : String) : Value :=
  (cells.lookup name).getD .null

structure Column where
  name : String
  notNull : Bool
  /-- `CHECK (length(name) = n)`. -/
  length : Option Nat := none
  deriving DecidableEq, Repr

def Column.accepts (column : Column) (value : Value) : Bool :=
  !(column.notNull && value == .null) &&
    match column.length, value.length with
    | some required, some length => required == length
    | _, _ => true

structure Shape where
  /-- Whether the rows are named by an `INTEGER PRIMARY KEY AUTOINCREMENT`. -/
  autoincrement : Bool
  columns : List Column
  /-- Virtual columns and the column whose `NULL` each one collapses. -/
  generated : List (String × String) := []
  unique : List (List String) := []
  deriving DecidableEq, Repr

namespace Shape

def accepts (shape : Shape) (cells : Cells) : Bool :=
  shape.columns.all fun column => column.accepts (get cells column.name)

def read (shape : Shape) (cells : Cells) (name : String) : Value :=
  match shape.generated.lookup name with
  | some base => (get cells base).ifNull
  | none => get cells name

def key (shape : Shape) (cells : Cells) (names : List String) : List Value :=
  names.map (shape.read cells)

def clash (shape : Shape) (first second : Cells) : Bool :=
  shape.unique.any fun names =>
    shape.key first names == shape.key second names && !(shape.key first names).contains .null

end Shape

structure Table where
  shape : Shape
  rows : ExtTreeMap Nat Cells

namespace Table

def takes (table : Table) (id : Nat) (cells : Cells) : Bool :=
  table.shape.accepts cells && !table.rows.contains id &&
    !table.rows.toList.any fun entry => table.shape.clash entry.2 cells

def put (table : Table) (id : Nat) (cells : Cells) : Table :=
  { table with rows := table.rows.insert id cells }

def maxId (table : Table) : Nat :=
  table.rows.keys.foldr max 0

end Table

inductive Expr where
  | column (name : String)
  | randomBlob
  deriving DecidableEq, Repr

def Expr.eval (blob : List UInt8) (cells : Cells) : Expr → Value
  | .column name => get cells name
  | .randomBlob => .blob blob

def select (columns : List (String × Expr)) (blob : List UInt8) (cells : Cells) : Cells :=
  columns.map fun column => (column.1, column.2.eval blob cells)

inductive Conflict where
  | abort
  | ignore
  deriving DecidableEq, Repr

def Table.insertOr (table : Table) (conflict : Conflict) (id : Nat) (cells : Cells) :
    Option Table :=
  if table.takes id cells then some (table.put id cells)
  else
    match conflict with
    | .abort => none
    | .ignore => some table

def copyRows (conflict : Conflict) (columns : List (String × Expr)) (blobs : Nat → List UInt8) :
    List (Nat × Cells) → Table → Option Table
  | [], table => some table
  | (id, cells) :: later, table =>
    (table.insertOr conflict id (select columns (blobs id) cells)).bind
      (copyRows conflict columns blobs later)

structure Database where
  version : Int
  tables : ExtTreeMap String Table
  /-- `sqlite_sequence`. -/
  sequence : ExtTreeMap String Nat

inductive Statement where
  | selectVersion
  | begin
  | createTable (name : String) (shape : Shape)
  | insertSelect (conflict : Conflict) (into : String) (columns : List (String × Expr))
      (source : String)
  | dropTable (name : String)
  | renameTable (old new : String)
  | selectSequence (name : String)
  | selectMaxId (name : String)
  | deleteSequence (name : String)
  | insertSequence (name : String) (seq : Nat)
  | setVersion (version : Int)
  | commit

inductive Failure (ε : Type) where
  | fault (code : ε)
  | constraint
  | noTable (name : String)
  | tableExists (name : String)

/-- What the database decides by itself: which statement fails in which state, and the random
blob of each row. -/
structure Environment (ε : Type) where
  fault : Statement → Database → Option ε
  blobs : Nat → List UInt8

namespace Database

def seq (db : Database) (name : String) : Nat :=
  (db.sequence[name]?).getD 0

def raise (db : Database) (name : String) (table : Table) : ExtTreeMap String Nat :=
  if table.shape.autoincrement && !table.rows.isEmpty then
    db.sequence.insert name (max (db.seq name) table.maxId)
  else db.sequence

def renameSequence (db : Database) (old new : String) : ExtTreeMap String Nat :=
  match db.sequence[old]? with
  | some seq => (db.sequence.erase old).insert new seq
  | none => db.sequence

def withTable {α ε : Type} (db : Database) (name : String)
    (next : Table → Except (Failure ε) α) : Except (Failure ε) α :=
  match db.tables[name]? with
  | some table => next table
  | none => .error (.noTable name)

def withoutTable {α ε : Type} (db : Database) (name : String) (next : Except (Failure ε) α) :
    Except (Failure ε) α :=
  match db.tables[name]? with
  | some _ => .error (.tableExists name)
  | none => next

def apply {ε : Type} (db : Database) (blobs : Nat → List UInt8) :
    Statement → Except (Failure ε) Database
  | .createTable name shape =>
    db.withoutTable name (.ok { db with tables := db.tables.insert name ⟨shape, ∅⟩ })
  | .insertSelect conflict into columns source =>
    db.withTable source fun selected =>
      db.withTable into fun table =>
        match copyRows conflict columns blobs selected.rows.toList table with
        | none => .error .constraint
        | some filled =>
          .ok { db with
            tables := db.tables.insert into filled
            sequence := db.raise into filled }
  | .dropTable name =>
    db.withTable name fun _ =>
      .ok { db with tables := db.tables.erase name, sequence := db.sequence.erase name }
  | .renameTable old new =>
    db.withTable old fun table =>
      db.withoutTable new
        (.ok { db with
          tables := (db.tables.erase old).insert new table
          sequence := db.renameSequence old new })
  | .selectMaxId name => db.withTable name fun _ => .ok db
  | .deleteSequence name => .ok { db with sequence := db.sequence.erase name }
  | .insertSequence name seq => .ok { db with sequence := db.sequence.insert name seq }
  | .setVersion version => .ok { db with version := version }
  | .selectVersion | .begin | .selectSequence _ | .commit => .ok db

end Database

namespace Environment

variable {ε : Type} (env : Environment ε)

def exec (statement : Statement) (db : Database) : Except (Failure ε) Database :=
  match env.fault statement db with
  | some code => .error (.fault code)
  | none => db.apply env.blobs statement

def executeBatch (statements : List Statement) (db : Database) : Except (Failure ε) Database :=
  statements.foldlM (fun db statement => env.exec statement db) db

end Environment

inductive Edit where
  | insert (table : String) (cells : Cells)
  | delete (table : String) (id : Nat)

namespace Database

def nextId (db : Database) (name : String) (table : Table) : Nat :=
  max (db.seq name) table.maxId + 1

def edit (db : Database) : Edit → Database × Option (String × Nat)
  | .insert name cells =>
    match db.tables[name]? with
    | none => (db, none)
    | some table =>
      if table.takes (db.nextId name table) cells then
        ({ db with
            tables := db.tables.insert name (table.put (db.nextId name table) cells)
            sequence := db.raise name (table.put (db.nextId name table) cells) },
          some (name, db.nextId name table))
      else (db, none)
  | .delete name id =>
    match db.tables[name]? with
    | none => (db, none)
    | some table =>
      ({ db with tables := db.tables.insert name { table with rows := table.rows.erase id } },
        none)

def edits (db : Database) (list : List Edit) : Database :=
  list.foldl (fun db edit => (db.edit edit).1) db

def allocated (name : String) : Database → List Edit → List Nat
  | _, [] => []
  | db, edit :: later =>
    match db.edit edit with
    | (after, some (table, id)) =>
      if table = name then id :: allocated name after later else allocated name after later
    | (after, none) => allocated name after later

end Database

end Sql
