import Schemata.Samples.Merge

/-!
# Snapshots

A snapshot holds the schemas of the request and the response that were observed in one call of a
route; either may be missing. The two sides are merged apart from each other.

## Main definitions

* `Snapshot`, `Snapshot.load`.
* `Snapshot.requests`, `Snapshot.responses`: the schemas of one side.
* `mergeSnapshots`: both sides, merged.
-/

namespace Schemata

structure Snapshot where
  method : Json := .str ""
  path : Json := .str ""
  request : Option Schema := none
  response : Option Schema := none

namespace Snapshot

/-- The schema of a side; `null` stands for none. -/
def loadSide (refPrefix : Json) (location : String) (v : Json) : Except Fault (Option Schema) :=
  if v.isNull then .ok none else some <$> Schema.load refPrefix location v

def load (refPrefix : Json) (location : String) : Json → Except Fault Snapshot
  | .obj fields => do
    let request ← loadSide refPrefix s!"{location}/requestSchema"
      (Schema.entry "requestSchema" fields)
    let response ← loadSide refPrefix s!"{location}/responseSchema"
      (Schema.entry "responseSchema" fields)
    return {
      method := (fields.lookup "method").getD (.str "")
      path := (fields.lookup "path").getD (.str "")
      request := request
      response := response }
  | v => .error (.load (.notASnapshot v.typeName) location)

/-- The snapshots of a list, from index `i` on. -/
def loadAll (refPrefix : Json) (i : Nat) : List Json → Except Fault (List Snapshot)
  | [] => .ok []
  | v :: rest => do
    let snapshot ← load refPrefix s!"#/{i}" v
    return snapshot :: (← loadAll refPrefix (i + 1) rest)

def schemas (snapshot : Snapshot) : List Schema :=
  snapshot.request.toList ++ snapshot.response.toList

def requests (snapshots : List Snapshot) : List Schema := snapshots.filterMap request

def responses (snapshots : List Snapshot) : List Schema := snapshots.filterMap response

end Snapshot

structure MergedSnapshot where
  request : Option Schema
  response : Option Schema

/-- One side: nothing is merged where nothing was observed. -/
def mergeSide (config : Config) (schemas : List Schema) : Except Fault (Option Schema) :=
  if schemas.isEmpty then .ok none else some <$> merge config schemas

def mergeSnapshots (config : Config) (snapshots : List Snapshot) :
    Except Fault MergedSnapshot := do
  let request ← mergeSide config (Snapshot.requests snapshots)
  let response ← mergeSide config (Snapshot.responses snapshots)
  return ⟨request, response⟩

end Schemata
