import VolumeStore.Settings.Value

/-!
# Tables under construction

The tables of a document while it is read. A table may be named by a header, stand above such a
table without a header of its own, or come from dotted keys; a list of tables grows by one table
with each of its headers. No key is given twice, and a value is never reopened.
-/

namespace VolumeStore.Toml

inductive Node where
  | value (value : Setting)
  /-- A table made by dotted keys. -/
  | dotted (entries : List (String × Node))
  /-- A table of headers; `named` once it has had a header of its own. -/
  | headed (named : Bool) (entries : List (String × Node))
  | headedList (tables : List (List (String × Node)))
deriving Inhabited

abbrev Entries := List (String × Node)

def replaceEntry (key : String) (node : Node) (entries : Entries) : Entries :=
  entries.map fun entry => if entry.1 = key then (key, node) else entry

def addKey? (value : Setting) : List String → Entries → Option Entries
  | [], _ => none
  | [key], entries =>
    if (entries.lookup key).isSome then none else some (entries ++ [(key, .value value)])
  | key :: path, entries =>
    match entries.lookup key with
    | none => (addKey? value path []).map fun inner => entries ++ [(key, .dotted inner)]
    | some (.dotted inner) =>
      (addKey? value path inner).map fun inner => replaceEntry key (.dotted inner) entries
    | some _ => none

def areDisjoint (a b : Entries) : Bool :=
  a.all fun entry => (b.lookup entry.1).isNone

/-- Entries with a table, or one more table of a list, under the path of a header. A path leads
through the last table of each list. -/
def addTable? (isList : Bool) (table : Entries) : List String → Entries → Option Entries
  | [], _ => none
  | [key], entries =>
    match entries.lookup key, isList with
    | none, true => some (entries ++ [(key, .headedList [table])])
    | none, false => some (entries ++ [(key, .headed true table)])
    -- A table that was only passed through can be given keys of its own, once.
    | some (.headed false old), false =>
      if areDisjoint old table then some (replaceEntry key (.headed true (old ++ table)) entries)
      else none
    | some (.headedList tables), true =>
      some (replaceEntry key (.headedList (tables ++ [table])) entries)
    | _, _ => none
  | key :: path, entries =>
    match entries.lookup key with
    | none => (addTable? isList table path []).map fun inner =>
      entries ++ [(key, .headed false inner)]
    | some (.headed named inner) => (addTable? isList table path inner).map fun inner =>
      replaceEntry key (.headed named inner) entries
    -- What stands below a list of tables belongs to its last one.
    | some (.headedList tables) =>
      match tables.getLast? with
      | none => none
      | some last => (addTable? isList table path last).map fun last =>
        replaceEntry key (.headedList (tables.dropLast ++ [last])) entries
    | some _ => none

/-! ## The finished tables -/

mutual

def Node.toSetting : Node → Setting
  | .value v => v
  | .dotted entries => .table (entriesToSettings entries)
  | .headed _ entries => .table (entriesToSettings entries)
  | .headedList tables => .list (tablesToSettings tables)

def entriesToSettings : List (String × Node) → List (String × Setting)
  | [] => []
  | (key, node) :: entries => (key, node.toSetting) :: entriesToSettings entries

def tablesToSettings : List (List (String × Node)) → List Setting
  | [] => []
  | table :: tables => .table (entriesToSettings table) :: tablesToSettings tables

end

end VolumeStore.Toml
