import VaultLink.Json.Conform

/-!
# Groups of a database

The entries of a database are filed in a tree of groups. A group is found by its path: the names from
the top down to it, with a slash after each name but an empty beginning. Of two groups with one path
the one that comes later, a group before the groups inside it, is the one found.

* `Group.ofJson`, `Group.toJson`: the proxy's form of a group;
* `GroupTree.flatten`: the groups by path; `GroupTree.find?`: the identifier of the group at a path.
-/

namespace VaultLink

/-- A group with the groups inside it. -/
inductive Group where
  | mk (name uuid : String) (children : List Group)

namespace Group

open Json (Misfit Members)

/-- The name of the group. -/
def name : Group → String
  | mk name _ _ => name

/-- The identifier of the group. -/
def uuid : Group → String
  | mk _ uuid _ => uuid

/-- The groups inside the group. -/
def children : Group → List Group
  | mk _ _ children => children

/-- A group with nothing filled in. -/
def blank : Group := mk "" "" []

mutual

/-- Reads a group. A field that is left out is empty. -/
def ofJson : Json → Except Misfit Group
  | .object members => ofMembers blank members
  | .array items => ofFields items
  | value => .error (.wrongKind value.kind (.record "Group"))

/-- Reads a list of groups. -/
def ofList : Json → Except Misfit (List Group)
  | .array items => ofItems items
  | value => .error (.wrongKind value.kind .sequence)

/-- Reads the groups of a list. -/
def ofItems : List Json → Except Misfit (List Group)
  | [] => .ok []
  | item :: items => do
    let group ← ofJson item
    let groups ← ofItems items
    return group :: groups

/-- Fills members into a group; members with unknown names do not count. -/
def ofMembers : Group → List (String × Json) → Except Misfit Group
  | group, [] => .ok group
  | group, (key, value) :: members => do
    if key = "name" then
      let name ← Json.Conform.string value
      ofMembers (mk name group.uuid group.children) members
    else if key = "uuid" then
      let uuid ← Json.Conform.string value
      ofMembers (mk group.name uuid group.children) members
    else if key = "children" then
      let children ← ofList value
      ofMembers (mk group.name group.uuid children) members
    else ofMembers group members

/-- Reads a group from the list of its fields. -/
def ofFields : List Json → Except Misfit Group
  | [] => .ok blank
  | [name] => do
    let name ← Json.Conform.string name
    return mk name "" []
  | [name, uuid] => do
    let name ← Json.Conform.string name
    let uuid ← Json.Conform.string uuid
    return mk name uuid []
  | name :: uuid :: children :: more => do
    let name ← Json.Conform.string name
    let uuid ← Json.Conform.string uuid
    let children ← ofList children
    if more.isEmpty then return mk name uuid children
    else .error (.tooMany (3 + more.length))

end

mutual

/-- The proxy's form of a group. -/
def toJson : Group → Json
  | mk name uuid children =>
    .object [("children", .array (listToJson children)), ("name", .string name),
      ("uuid", .string uuid)]

/-- The proxy's form of groups. -/
def listToJson : List Group → List Json
  | [] => []
  | group :: groups => toJson group :: listToJson groups

end

/-- The path of a group below a path. -/
def pathBelow (path name : String) : String :=
  if path.isEmpty then name else path ++ "/" ++ name

mutual

/-- The path and the identifier of a group and of every group inside it, in order. -/
def paths (path : String) : Group → List (String × String)
  | mk name uuid children =>
    (pathBelow path name, uuid) :: pathsOfList (pathBelow path name) children

/-- The path and the identifier of every group of a list, in order. -/
def pathsOfList (path : String) : List Group → List (String × String)
  | [] => []
  | group :: groups => paths path group ++ pathsOfList path groups

end

end Group

/-- The groups of a database. -/
structure GroupTree where
  groups : List Group := []

namespace GroupTree

/-- The identifiers of the groups by their paths, in the order of the paths. -/
def flatten (tree : GroupTree) : Table String := Table.ofList (Group.pathsOfList "" tree.groups)

/-- The identifier of the group at a path. -/
def find? (tree : GroupTree) (path : String) : Option String := tree.flatten.get? path

end GroupTree

end VaultLink
