import Schemata.Schema.Load

/-!
# Samples

A sample of a schema is a schema, or the JSON form of one that is still to be loaded.

## Main definitions

* `Sample`, `Sample.load`.
* `loadSamples`: the schemas of a list of samples, as long as each of them can be loaded.
-/

namespace Schemata

inductive Sample where
  | node (schema : Schema)
  | raw (document : Json)

def Sample.load (refPrefix : Json) (path : String) : Sample → Except Fault Schema
  | .node schema => .ok schema
  | .raw document => Schema.load refPrefix path document

/-- The schemas of samples, from index `i` on; nothing when one of them is no schema. -/
def loadSamplesFrom (refPrefix : Json) (i : Nat) : List Sample → Except Fault (Option (List Schema))
  | [] => .ok (some [])
  | sample :: rest =>
    match sample.load refPrefix s!"#/{i}" with
    | .ok s => do
      let schemas ← loadSamplesFrom refPrefix (i + 1) rest
      return schemas.map (s :: ·)
    | .error (.load _ _) => .ok none
    | .error fault => .error fault

def loadSamples (refPrefix : Json) (samples : List Sample) :
    Except Fault (Option (List Schema)) :=
  loadSamplesFrom refPrefix 0 samples

end Schemata
